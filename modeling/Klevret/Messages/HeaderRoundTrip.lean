import Klevret.Foundation.Words
import Klevret.Messages.Accepted

/-! # The header there and back

The encoder writes the fields of a parsed header back where they came from, up
to the hardware address. In place of the server name and the boot file it writes
zeros.
-/

namespace Klevret

open Foundation

namespace DhcpMessage

variable {data : List UInt8} {message : DhcpMessage}

/-- The bytes of a header up to the hardware address, and zeros for the rest. -/
def headerBytes (data : List UInt8) : List UInt8 := data.take 34 ++ List.replicate 202 0

theorem length_headerBytes (hlen : 236 ≤ data.length) : (headerBytes data).length = 236 := by
  rw [headerBytes, List.length_append, List.length_take, List.length_replicate]
  omega

theorem getD_headerBytes {i : ℕ} (hlen : 236 ≤ data.length) (hi : i < 34) :
    (headerBytes data).getD i 0 = data.getD i 0 := by
  have hlt : i < (data.take 34).length := by
    rw [List.length_take]
    omega
  rw [headerBytes, List.getD_eq_getElem?_getD, List.getElem?_append_left hlt,
    List.getElem?_take_of_lt hi, List.getD_eq_getElem?_getD]

theorem field_headerBytes {i n : ℕ} (hlen : 236 ≤ data.length) (hi : i + n ≤ 34) :
    ((headerBytes data).drop i).take n = (data.drop i).take n := by
  have hle : i + n ≤ (data.take 34).length := by
    rw [List.length_take]
    omega
  rw [headerBytes, List.drop_append_of_le_length (by omega),
    List.take_append_of_le_length (by rw [List.length_drop]; omega), List.drop_take,
    List.take_take, Nat.min_eq_left (by omega)]

theorem zeros_headerBytes {i n : ℕ} (hlen : 236 ≤ data.length) (hi : 34 ≤ i) (hn : i + n ≤ 236) :
    ((headerBytes data).drop i).take n = List.replicate n 0 := by
  have htake : (data.take 34).length = 34 := by
    rw [List.length_take]
    omega
  rw [headerBytes, List.drop_append, htake, List.drop_eq_nil_of_le (by omega), List.nil_append,
    List.drop_replicate, List.take_replicate, Nat.min_eq_left (by omega)]

theorem take_drop_add (data : List UInt8) (i m n : ℕ) :
    (data.drop i).take (m + n) = (data.drop i).take m ++ (data.drop (i + m)).take n := by
  rw [List.take_add, List.drop_drop]

theorem ofFields_headerBytes (hlen : 236 ≤ data.length) :
    ofFields (headerBytes data) [] =
      { ofFields data [] with sname := List.replicate 64 0, file := List.replicate 128 0 } := by
  simp (disch := omega) only [ofFields, getD_headerBytes hlen, field_headerBytes hlen,
    zeros_headerBytes hlen]

section

variable [Host]

/-- What is written of the message without its options is parsed as a message with the same fields,
apart from the options. -/
def HeaderRoundTrips (message : DhcpMessage) : Prop :=
  ∃ bytes message', toNetworkData { message with options := [] } = .ok bytes ∧
    new bytes = .ok message' ∧ { message' with options := [] } = { message with options := [] }

theorem toNetworkData_header {mac : MacAddress} (h : message.chaddr = some mac) :
    toNetworkData { message with options := [] } =
      .ok ([message.op, message.htype, message.hlen, message.hops] ++ bytes32 message.xid ++
        (bytes16 message.secs ++ bytes16 message.flags) ++ message.ciaddr.toNetworkData ++
        message.yiaddr.toNetworkData ++ message.siaddr.toNetworkData ++
        message.giaddr.toNetworkData ++ mac.data.toList ++ List.replicate 202 0) := by
  have hzeros : (List.replicate 202 0 : List UInt8) =
      List.replicate 10 0 ++ List.replicate 64 0 ++ List.replicate 128 0 := rfl
  simp only [toNetworkData, h, MacAddress.toChaddr, Exec.ok_bind, List.length_nil, if_true,
    bytes32, bytes16, hzeros, List.append_assoc, List.cons_append, List.nil_append]
  rfl

theorem toNetworkData_ofFields (hlen : 236 ≤ data.length) :
    toNetworkData (ofFields data []) = .ok (headerBytes data) := by
  have hfour : ∀ i, i + 4 ≤ 236 → (data.drop i).take 4 =
      [data.getD i 0, data.getD (i + 1) 0, data.getD (i + 2) 0, data.getD (i + 3) 0] :=
    fun i hi => take_four_drop (hi.trans hlen)
  have hpad : ∀ i n, i + n ≤ 236 →
      (Bytes.pad ((data.drop i).take n) : Bytes n).toList = (data.drop i).take n := by
    intro i n hi
    apply Bytes.toList_pad
    rw [List.length_take, List.length_drop]
    omega
  have hbytes : [(ofFields data []).op, (ofFields data []).htype, (ofFields data []).hlen,
      (ofFields data []).hops] = (data.drop 0).take 4 := (hfour 0 (by decide)).symm
  have hxid : bytes32 (ofFields data []).xid = (data.drop 4).take 4 :=
    (bytes32_word32 _ _ _ _).trans (hfour 4 (by decide)).symm
  have hpairs : bytes16 (ofFields data []).secs ++ bytes16 (ofFields data []).flags =
      (data.drop 8).take 4 := by
    rw [hfour 8 (by decide)]
    exact congrArg₂ (· ++ ·) (bytes16_word16 _ _) (bytes16_word16 _ _)
  have hciaddr : (ofFields data []).ciaddr.toNetworkData = (data.drop 12).take 4 :=
    hpad 12 4 (by decide)
  have hyiaddr : (ofFields data []).yiaddr.toNetworkData = (data.drop 16).take 4 :=
    hpad 16 4 (by decide)
  have hsiaddr : (ofFields data []).siaddr.toNetworkData = (data.drop 20).take 4 :=
    hpad 20 4 (by decide)
  have hgiaddr : (ofFields data []).giaddr.toNetworkData = (data.drop 24).take 4 :=
    hpad 24 4 (by decide)
  have hprefix : data.take 34 = _ := take_drop_add data 0 28 6
  rw [take_drop_add data 0 24 4, take_drop_add data 0 20 4, take_drop_add data 0 16 4,
    take_drop_add data 0 12 4, take_drop_add data 0 8 4, take_drop_add data 0 4 4] at hprefix
  have hheader : toNetworkData { ofFields data [] with options := [] } = _ :=
    toNetworkData_header rfl
  apply hheader.trans
  rw [hbytes, hxid, hpairs, hciaddr, hyiaddr, hsiaddr, hgiaddr, hpad 28 6 (by decide), headerBytes,
    hprefix]

theorem new_headerBytes (h : fieldsRefusal data = none) :
    236 ≤ data.length ∧ new (headerBytes data) = .ok (ofFields (headerBytes data) []) := by
  unfold fieldsRefusal at h
  split_ifs at h with hlen htype
  all_goals
    have hle := Nat.not_lt.mp hlen
    refine ⟨hle, ?_⟩
    rw [new_eq, fieldsRefusal, length_headerBytes hle, getD_headerBytes hle (by decide)]
    simp only [htype, if_false, Nat.reduceLT, if_true]

theorem headerRoundTrips_ofFields (hf : fieldsRefusal data = none) (options : List DhcpOption) :
    HeaderRoundTrips (ofFields data options) ↔
      (data.drop 44).take 192 = List.replicate 192 0 := by
  obtain ⟨hlen, hnew⟩ := new_headerBytes hf
  have hsplit : (List.replicate 192 0 : List UInt8) = List.replicate 64 0 ++ List.replicate 128 0 :=
    rfl
  have hname : ((data.drop 44).take 64).length = (List.replicate 64 (0 : UInt8)).length := by
    rw [List.length_take, List.length_drop, List.length_replicate]
    omega
  have hequal : HeaderRoundTrips (ofFields data options) ↔
      ofFields (headerBytes data) [] = ofFields data [] := by
    constructor
    · rintro ⟨bytes, message', hb, hm, he⟩
      obtain rfl := Except.ok.inj ((toNetworkData_ofFields hlen).symm.trans hb)
      obtain rfl := Except.ok.inj (hnew.symm.trans hm)
      exact he
    · intro he
      exact ⟨headerBytes data, _, toNetworkData_ofFields hlen, hnew, he⟩
  rw [hequal, ofFields_headerBytes hlen, hsplit, take_drop_add data 44 64 128]
  constructor
  · intro he
    obtain ⟨hs, hfile⟩ : List.replicate 64 0 = (data.drop 44).take 64 ∧
      List.replicate 128 0 = (data.drop 108).take 128 := ⟨congrArg sname he, congrArg file he⟩
    rw [hs, hfile]
  · intro he
    obtain ⟨hs, hfile⟩ := List.append_inj he hname
    rw [← hs, ← hfile]
    rfl

/-- The server name and the boot file are lost, so the header comes back exactly when they are
zero. -/
theorem headerRoundTrips_iff (h : new data = .ok message) :
    HeaderRoundTrips message ↔ (data.drop 44).take 192 = List.replicate 192 0 := by
  obtain ⟨hf, options, rfl, -⟩ := new_eq_ok.mp h
  exact headerRoundTrips_ofFields hf options

end

/-- A request without options whose server name starts with this byte. -/
def namedRequest (first : UInt8) : List UInt8 :=
  [1, 1, 6, 0] ++ List.replicate 40 0 ++ first :: List.replicate 191 0

theorem length_namedRequest (first : UInt8) : (namedRequest first).length = 236 := by
  simp only [namedRequest, List.length_append, List.length_cons, List.length_nil,
    List.length_replicate]

theorem fieldsRefusal_namedRequest (first : UInt8) :
    fieldsRefusal (namedRequest first) = none := by
  have htype : (namedRequest first).getD 1 0 = HardwareAddressType.ethernet10Mb := rfl
  rw [fieldsRefusal, length_namedRequest, htype]
  rfl

theorem new_namedRequest (first : UInt8) :
    letI : Host := ⟨.little⟩
    new (namedRequest first) = .ok (ofFields (namedRequest first) []) := by
  let host : Host := ⟨.little⟩
  have hlen : (namedRequest first).length < 240 := by
    rw [length_namedRequest]
    decide
  exact new_eq_ok.mpr ⟨fieldsRefusal_namedRequest first, [], rfl, Or.inl ⟨hlen, rfl⟩⟩

/-- A server name that begins with the letter a. -/
theorem not_headerRoundTrips_sample :
    letI : Host := ⟨.little⟩
    ∃ message, new (namedRequest 97) = .ok message ∧ ¬ HeaderRoundTrips message := by
  let host : Host := ⟨.little⟩
  refine ⟨_, new_namedRequest 97, ?_⟩
  rw [headerRoundTrips_ofFields (fieldsRefusal_namedRequest 97)]
  decide +kernel

/-- A request without a server name. -/
theorem headerRoundTrips_sample :
    letI : Host := ⟨.little⟩
    HeaderRoundTrips (ofFields (namedRequest 0) []) ↔
      ((namedRequest 0).drop 44).take 192 = List.replicate 192 0 := by
  let host : Host := ⟨.little⟩
  exact headerRoundTrips_iff (new_namedRequest 0)

end DhcpMessage

end Klevret
