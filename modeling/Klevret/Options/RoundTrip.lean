import Klevret.Options.Encode

/-! # Decoding and encoding again

An accepted payload is written back element by element. On a big-endian host
this gives the payload; on a little-endian host the integers of more than one
byte come out reversed.
-/

namespace Klevret

open Foundation

namespace DhcpOption

variable {code : ℤ} {d : DhcpOptionDescription} {payload : List UInt8} {option : DhcpOption}

theorem toNat_ofInt (x : ℤ) : (UInt8.ofInt x).toNat = (x % 256).toNat := by
  rw [UInt8.ofInt, UInt8.toNat_ofNat']
  omega

theorem ofInt_natCast (n : ℕ) : UInt8.ofInt n = UInt8.ofNat n := by
  apply UInt8.toNat_inj.mp
  rw [toNat_ofInt, UInt8.toNat_ofNat']
  omega

theorem flatten_elements (h : d.payloadDescription.type.isElementwise = true)
    (hw : WholeElements d payload.length) : (elements d payload).flatten = payload := by
  apply flatten_chunks_of_length
  rw [Nat.div_mul_cancel (hw h)]

theorem length_of_mem_elements {chunk : List UInt8} (hc : chunk ∈ elements d payload) :
    chunk.length = elementSize d :=
  length_of_mem_chunks (Nat.div_mul_le_self _ _) hc

section

variable [Host]

theorem new_eq_ok (hnew : new code payload.length payload 0 payload.length = .ok option) :
    ∃ d, describe code payload.length = .ok d ∧ WholeElements d payload.length ∧
      payloadAllowed d payload = true ∧
        option = ofValues d payload.length (payloadValues d payload) := by
  have hlast : 0 + payload.length = payload.length := Nat.zero_add _
  cases hd : describe code payload.length with
  | error e => simp [new_refused hd] at hnew
  | ok d =>
    by_cases hw : WholeElements d payload.length
    · have hin : new code payload.length payload 0 (0 + payload.length) = _ :=
        new_inside hd hlast.le hw
      rw [hlast, hnew, List.drop_zero, List.take_length, readPayload] at hin
      split_ifs at hin with ha
      · exact ⟨d, rfl, hw, ha, Except.ok.inj hin⟩
      · cases hin
    · have hout : new code payload.length payload 0 (0 + payload.length) = _ :=
        new_outside hd (Nat.zero_le _) fun h => hw h.2
      rw [hlast, hnew] at hout
      cases hout

/-- The payload as the encoder writes it back. -/
def rewrittenPayload (d : DhcpOptionDescription) (payload : List UInt8) : List UInt8 :=
  if d.payloadDescription.type.isElementwise then
    ((elements d payload).map (rewritten d.payloadDescription.type)).flatten
  else payload

theorem encode_values {f : List UInt8 → DhcpOptionFieldRealValue} {g : List UInt8 → List UInt8}
    {l : List (List UInt8)}
    (h : ∀ c ∈ l, dhcpOptionFieldRealValueToNetworkData (f c) = .ok (g c)) :
    (l.map f).mapM dhcpOptionFieldRealValueToNetworkData = .ok (l.map g) := by
  induction l with
  | nil => rfl
  | cons c l ih =>
    rw [List.map_cons, List.mapM_cons, h c List.mem_cons_self,
      ih fun c hc => h c (List.mem_cons_of_mem _ hc)]
    rfl

theorem encode_payloadValues (payload : List UInt8) (hflag : d.payloadDescription.type ≠ .flag) :
    ∃ values, (payloadValues d payload).mapM dhcpOptionFieldRealValueToNetworkData = .ok values ∧
      values.flatten = rewrittenPayload d payload := by
  unfold payloadValues rewrittenPayload
  cases h : d.payloadDescription.type.isElementwise with
  | true =>
    refine ⟨(elements d payload).map (rewritten d.payloadDescription.type), ?_, rfl⟩
    exact encode_values fun c hc => encode_chunkValue h hflag (length_of_mem_elements hc)
  | false =>
    cases hp : payload.isEmpty with
    | true =>
      obtain rfl := List.isEmpty_iff.mp hp
      exact ⟨[], rfl, rfl⟩
    | false =>
      refine ⟨[payload], ?_, by simp⟩
      cases ht : d.payloadDescription.type <;>
        simp only [ht, DhcpOptionPayloadType.isElementwise, Bool.true_eq_false] at h <;> rfl

theorem toNetworkData_ofValues (hd : describe code payload.length = .ok d)
    (hflag : d.payloadDescription.type ≠ .flag) :
    (ofValues d payload.length (payloadValues d payload)).toNetworkData =
      .ok (.ofInt code :: .ofNat payload.length :: rewrittenPayload d payload) := by
  have hdesc := described_of_describe hd
  obtain ⟨_, hlen, _⟩ := describe_eq_ok.mp hd
  obtain ⟨values, hv, hf⟩ := encode_payloadValues payload hflag
  obtain ⟨h0, h255⟩ := code_ne_of_describe hd
  have hl : (if d.payloadLength = VARIABLE_DHCP_OPTION_LENGTH then
      (ofValues d payload.length (payloadValues d payload)).realPayloadLength
      else d.payloadLength) = payload.length := by
    simp only [ofValues]
    split_ifs with hvar
    · rfl
    · exact hlen.resolve_left hvar
  unfold toNetworkData
  rw [show (ofValues d payload.length (payloadValues d payload)).description = d from rfl,
    hdesc.code_eq, if_neg h0, if_neg h255, hl,
    show (ofValues d payload.length (payloadValues d payload)).realValues =
      payloadValues d payload from rfl, hv, Exec.ok_bind, hf, ofInt_natCast]
  rfl

theorem rewritten_eq_self (type : DhcpOptionPayloadType) (chunk : List UInt8) :
    rewritten type chunk = chunk ↔
      (Host.native = .little → type.isWideInteger = true → chunk.reverse = chunk) := by
  unfold rewritten
  cases type.isWideInteger with
  | false => simp
  | true => cases Host.native <;> simp [Endian.arrange]

/-- The payload is written back unchanged exactly when every wide integer of it reads the same in
both byte orders, or the host is big-endian. -/
theorem rewrittenPayload_eq_self (hw : WholeElements d payload.length) :
    rewrittenPayload d payload = payload ↔
      (Host.native = .little → d.payloadDescription.type.isWideInteger = true →
        ∀ chunk ∈ elements d payload, chunk.reverse = chunk) := by
  unfold rewrittenPayload
  cases h : d.payloadDescription.type.isElementwise with
  | false =>
    have hwide : d.payloadDescription.type.isWideInteger = false := by
      cases ht : d.payloadDescription.type <;>
        simp only [ht, DhcpOptionPayloadType.isElementwise, Bool.true_eq_false] at h <;> rfl
    simp [hwide]
  | true =>
    have hf := flatten_elements h hw
    rw [if_pos rfl]
    nth_rewrite 2 [← hf]
    rw [flatten_map_eq_flatten_iff fun c _ => length_rewritten _ c]
    simp only [rewritten_eq_self]
    tauto

/-- The round trip, with the code and the length as one byte each. -/
theorem toNetworkData_new_iff (hd : optionsDescriptions.lookup code = some d)
    (hflag : d.payloadDescription.type ≠ .flag) (hlen : payload.length ≤ 255)
    (hnew : new code payload.length payload 0 payload.length = .ok option) :
    (∃ c l : UInt8, (c.toNat : ℤ) = code ∧ l.toNat = payload.length ∧
      option.toNetworkData = .ok (c :: l :: payload)) ↔
      (Host.native = .little → d.payloadDescription.type.isWideInteger = true →
        ∀ chunk ∈ elements d payload, chunk.reverse = chunk) := by
  obtain ⟨d', hdesc, hw, _, rfl⟩ := new_eq_ok hnew
  obtain rfl : d' = d := Option.some.inj ((describe_eq_ok.mp hdesc).1.symm.trans hd)
  rw [← rewrittenPayload_eq_self hw]
  have hbyte := (described_of_lookup hd).code_byte
  constructor
  · rintro ⟨c, l, _, _, hb⟩
    rw [toNetworkData_ofValues hdesc hflag, Except.ok.injEq, List.cons.injEq, List.cons.injEq] at hb
    exact hb.2.2
  · intro hr
    refine ⟨.ofInt code, .ofNat payload.length, ?_, ?_, ?_⟩
    · rw [toNat_ofInt]
      omega
    · exact Nat.mod_eq_of_lt (by omega)
    · rw [toNetworkData_ofValues hdesc hflag, hr]

end

/-- A lease time of 86400 seconds, read and written back on a little-endian host. -/
theorem leaseTime_not_roundTrip : ¬ ∀ (_ : Host) (code : ℤ) (d : DhcpOptionDescription)
    (payload : List UInt8) (option : DhcpOption),
    optionsDescriptions.lookup code = some d → code ≠ 0 → code ≠ 255 →
    d.payloadDescription.type ≠ .flag → payload.length ≤ 255 →
    d.payloadDescription.getOneElementPayloadLengthInBytes ∣ payload.length →
    new code payload.length payload 0 payload.length = .ok option →
    ∃ c l : UInt8, (c.toNat : ℤ) = code ∧ l.toNat = payload.length ∧
      option.toNetworkData = .ok (c :: l :: payload) := by
  intro h
  let host : Host := ⟨.little⟩
  let d : DhcpOptionDescription := ⟨51, 4, ⟨.uint32, false, 0, .noConstraint⟩⟩
  let payload : List UInt8 := [0, 1, 81, 128]
  have hnew : new 51 payload.length payload 0 payload.length = .ok ⟨4, d, [.uint32 86400]⟩ := by
    decide
  have hout : toNetworkData ⟨4, d, [.uint32 86400]⟩ = .ok [51, 4, 128, 81, 1, 0] := by decide
  obtain ⟨c, l, _, _, hb⟩ := h host 51 d payload _ (by decide) (by decide) (by decide) (by decide)
    (by decide) (by decide) hnew
  rw [hout] at hb
  simp [payload] at hb

/-- A boot file size whose two bytes are equal survives. -/
theorem bootFileSize_roundTrip :
    ∃ c l : UInt8, (c.toNat : ℤ) = 13 ∧ l.toNat = [(2 : UInt8), 2].length ∧
      @toNetworkData ⟨.little⟩ ⟨2, ⟨13, 2, ⟨.uint16, false, 0, .noConstraint⟩⟩, [.uint16 514]⟩ =
        .ok (c :: l :: [2, 2]) := by
  let host : Host := ⟨.little⟩
  let d : DhcpOptionDescription := ⟨13, 2, ⟨.uint16, false, 0, .noConstraint⟩⟩
  have hd : optionsDescriptions.lookup 13 = some d := by decide
  have hnew : new 13 [(2 : UInt8), 2].length [2, 2] 0 [(2 : UInt8), 2].length =
      .ok ⟨2, d, [.uint16 514]⟩ := by decide
  exact (toNetworkData_new_iff hd (by decide) (by decide) hnew).mpr (by decide)

end DhcpOption

end Klevret
