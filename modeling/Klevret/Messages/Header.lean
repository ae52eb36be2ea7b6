import Klevret.Messages.DhcpMessage

/-! # The fixed fields

On a datagram of the minimal length the walk over the fixed fields stays inside
the buffer, so the parser is a few checks and the option loop.
-/

namespace Klevret

open Foundation

namespace DhcpMessage

variable {data : List UInt8}

theorem pad_toList_of_slice {i n : ℕ} (h : i + n ≤ data.length) :
    slice data i n = .ok (.pad ((data.drop i).take n)) := by
  rw [slice_of_le h]
  congr 1
  apply List.Vector.toList_injective
  rw [Bytes.toList_ofList, Bytes.toList_pad (by simp; omega)]

theorem take_four_drop {i : ℕ} (h : i + 4 ≤ data.length) :
    (data.drop i).take 4 =
      [data.getD i 0, data.getD (i + 1) 0, data.getD (i + 2) 0, data.getD (i + 3) 0] := by
  have hd : ∀ k, data.getD (i + k) 0 = (data.drop i).getD k 0 := fun k => by
    simp [List.getD_eq_getElem?_getD, List.getElem?_drop]
  have hl : 4 ≤ (data.drop i).length := by
    rw [List.length_drop]
    omega
  rw [← Nat.add_zero i, hd, Nat.add_zero, hd, hd, hd]
  match data.drop i, hl with
  | a :: b :: c :: d :: l, _ => rfl

theorem checkMagicCookie_eq {i : ℕ} (h : i + 4 ≤ data.length) :
    checkMagicCookie data i =
      if (data.drop i).take 4 = [99, 130, 83, 99] then .ok ()
      else throwRuntimeError "неверное значение magic cookie" := by
  rw [checkMagicCookie, take_four_drop h, deref_eq_getD (by omega), deref_eq_getD (by omega),
    deref_eq_getD (by omega), deref_eq_getD (by omega)]
  simp only [Exec.ok_bind, List.cons.injEq, and_true, ne_eq, ← not_and_or]
  split_ifs <;> rfl

variable [Host]

/-- The message whose fixed fields are the bytes of a datagram. -/
def ofFields (data : List UInt8) (options : List DhcpOption) : DhcpMessage where
  op := data.getD 0 0
  htype := data.getD 1 0
  hlen := data.getD 2 0
  hops := data.getD 3 0
  xid := (data.getD 4 0).toUInt32 <<< 24 ||| (data.getD 5 0).toUInt32 <<< 16 |||
    (data.getD 6 0).toUInt32 <<< 8 ||| (data.getD 7 0).toUInt32
  secs := (data.getD 8 0).toUInt16 <<< 8 ||| (data.getD 9 0).toUInt16
  flags := (data.getD 10 0).toUInt16 <<< 8 ||| (data.getD 11 0).toUInt16
  ciaddr := ⟨.pad ((data.drop 12).take 4)⟩
  yiaddr := ⟨.pad ((data.drop 16).take 4)⟩
  siaddr := ⟨.pad ((data.drop 20).take 4)⟩
  giaddr := ⟨.pad ((data.drop 24).take 4)⟩
  chaddr := some ⟨.pad ((data.drop 28).take 6)⟩
  sname := (data.drop 44).take 64
  file := (data.drop 108).take 128
  options

/-- The checks of the parser before the option area. -/
def fieldsRefusal (data : List UInt8) : Option String :=
  if data.length < 236 then some "минимальная длина DHCP сообщения: 236"
  else if data.getD 1 0 ≠ HardwareAddressType.ethernet10Mb then
    some "Неподдерживаемый тип адреса"
  else if data.length < 240 then none
  else if (data.drop 236).take 4 ≠ [99, 130, 83, 99] then
    some "неверное значение magic cookie"
  else none

theorem new_eq (data : List UInt8) :
    new data = match fieldsRefusal data with
      | some what => throwRuntimeError what
      | none =>
        if data.length < 240 then .ok (ofFields data [])
        else ofFields data <$> optionLoop data 240 := by
  unfold new fieldsRefusal
  by_cases h : data.length < 236
  · simp only [h, if_true, Exec.throwRuntimeError_bind]
    rfl
  · have hb : ∀ i, i < 236 → byteAt data i = .ok (data.getD i 0) := fun i hi =>
      byteAt_of_lt (by omega)
    have ha : ∀ i n, i + n ≤ 236 → advance data i n = .ok (i + n) := fun i n hi =>
      advance_of_le (by omega)
    have hip : ∀ i, i + 4 ≤ 236 → IPv4Address.fromBigEndianBytes data i (i + 4) =
        .ok ⟨.pad ((data.drop i).take 4)⟩ := fun i hi => by
      rw [IPv4Address.fromBigEndianBytes_add, pad_toList_of_slice (by omega)]
      rfl
    have hmac : ∀ i, i + 6 ≤ 236 → MacAddress.makePtrFromBigEndianBytes data i (i + 6) =
        .ok ⟨.pad ((data.drop i).take 6)⟩ := fun i hi => by
      rw [MacAddress.makePtrFromBigEndianBytes_add, pad_toList_of_slice (by omega)]
      rfl
    have hsname : copyRange data 44 108 = .ok ((data.drop 44).take 64) :=
      copyRange_inside (n := 64) (by omega)
    have hfile : copyRange data 108 236 = .ok ((data.drop 108).take 128) :=
      copyRange_inside (n := 128) (by omega)
    simp only [DHCP_MESSAGE_MIN_LENGTH, IP_V4_ADDRESS_LENGTH, MAC_ADDRESS_LENGTH,
      DHCP_HARDWARE_ADDRESS_MAX_LENGTH, h, if_false, Exec.pure_eq_ok, Exec.ok_bind, hb, ha, hip,
      hmac, hsname, hfile, Nat.reduceLT, Nat.reduceAdd, Nat.reduceLeDiff]
    by_cases ht : data.getD 1 0 = HardwareAddressType.ethernet10Mb
    · simp only [ht, ne_eq, not_true_eq_false, if_false]
      by_cases hs : data.length < 240
      · simp only [hs, if_true, ofFields, ht]
        rfl
      · have hcursor : advance data 236 4 = .ok 240 := advance_of_le (by omega)
        simp only [hs, if_false, checkMagicCookie_eq (show 236 + 4 ≤ data.length by omega)]
        by_cases hm : (data.drop 236).take 4 = [99, 130, 83, 99]
        · simp only [hm, if_true, not_true_eq_false, if_false, Exec.ok_bind, hcursor]
          cases optionLoop data 240 with
          | error e => rfl
          | ok options =>
            simp only [Exec.ok_bind, Exec.map_ok, ofFields, ht]
        · simp only [hm, if_false, not_false_eq_true, if_true, Exec.throwRuntimeError_bind]
    · simp only [ht, ne_eq, not_false_eq_true, if_true, Exec.throwRuntimeError_bind]

end DhcpMessage

end Klevret
