import Klevret.Options.RoundTrip

/-! # Payloads read and written

Reading a payload and writing its values reverses the wide integers of it, or
changes nothing, by the byte order of the host. Doing so twice changes nothing.
A value survives when it is not a flag and reads the same in both byte orders,
where that matters.
-/

namespace Klevret

open Foundation

variable {d : DhcpOptionDescription} {payload payload' chunk : List UInt8}

/-- The value is read back as it was, after it has been written. -/
def DhcpOptionFieldRealValue.Survives [Host] : DhcpOptionFieldRealValue → Prop
  | .bool _ => False
  | .int32 value =>
    Host.native = .little → byteswap (w := 4) value.toBitVec = value.toBitVec
  | .uint32 value =>
    Host.native = .little → byteswap (w := 4) value.toBitVec = value.toBitVec
  | .uint16 value =>
    Host.native = .little → byteswap (w := 2) value.toBitVec = value.toBitVec
  | _ => True

namespace DhcpOption

variable [Host]

theorem rewritten_rewritten (type : DhcpOptionPayloadType) (chunk : List UInt8) :
    rewritten type (rewritten type chunk) = chunk := by
  unfold rewritten
  cases type.isWideInteger with
  | false => rfl
  | true => cases Host.native <;> simp [Endian.arrange]

theorem elements_rewrittenPayload (h : d.payloadDescription.type.isElementwise = true) :
    elements d (rewrittenPayload d payload) =
      (elements d payload).map (rewritten d.payloadDescription.type) := by
  have hlen : ∀ c ∈ (elements d payload).map (rewritten d.payloadDescription.type),
      c.length = elementSize d := by
    intro c hc
    obtain ⟨chunk, hchunk, rfl⟩ := List.mem_map.mp hc
    rw [length_rewritten, length_of_mem_elements hchunk]
  have hflat := chunks_flatten hlen
  rw [elements, rewrittenPayload, if_pos h, length_flatten_of_length hlen,
    Nat.mul_div_cancel _ (elementSize_pos h), hflat]

theorem length_rewrittenPayload (hw : WholeElements d payload.length) :
    (rewrittenPayload d payload).length = payload.length := by
  unfold rewrittenPayload
  split_ifs with h
  · rw [List.length_flatten, List.map_map]
    simp only [Function.comp_def, length_rewritten]
    rw [← List.length_flatten, flatten_elements h hw]
  · rfl

/-- Two rewritings undo each other. -/
theorem rewrittenPayload_rewrittenPayload (hw : WholeElements d payload.length) :
    rewrittenPayload d (rewrittenPayload d payload) = payload := by
  cases h : d.payloadDescription.type.isElementwise with
  | false => simp [rewrittenPayload, h]
  | true =>
    nth_rewrite 1 [rewrittenPayload]
    rw [if_pos h, elements_rewrittenPayload h, List.map_map]
    simp only [Function.comp_def, rewritten_rewritten, List.map_id']
    exact flatten_elements h hw

theorem eq_of_payloadValues_eq (hflag : d.payloadDescription.type ≠ .flag)
    (hw : WholeElements d payload.length) (hw' : WholeElements d payload'.length)
    (h : payloadValues d payload = payloadValues d payload') : payload = payload' := by
  obtain ⟨values, hv, hf⟩ := encode_payloadValues payload hflag
  obtain ⟨values', hv', hf'⟩ := encode_payloadValues payload' hflag
  rw [h] at hv
  obtain rfl := Except.ok.inj (hv.symm.trans hv')
  calc payload = rewrittenPayload d (rewrittenPayload d payload) :=
        (rewrittenPayload_rewrittenPayload hw).symm
    _ = rewrittenPayload d (rewrittenPayload d payload') := by rw [← hf, ← hf']
    _ = payload' := rewrittenPayload_rewrittenPayload hw'

omit [Host] in
theorem byteswap_eq_self_iff {w : ℕ} {v : BitVec (8 * w)} (hv : v.toNat = beValue chunk)
    (hlen : chunk.length = w) : byteswap v = v ↔ chunk.reverse = chunk := by
  have hreverse : leBytes w (beValue chunk) = chunk.reverse :=
    leBytes_leValue_of_length (by rw [List.length_reverse, hlen])
  rw [← BitVec.toNat_inj, toNat_byteswap, hv, hreverse, List.reverse_reverse]
  constructor
  · intro h
    rw [← hreverse, ← h]
    exact leBytes_leValue_of_length hlen
  · intro h
    rw [beValue, h]

theorem survives_chunkValue (h : d.payloadDescription.type.isElementwise = true)
    (hlen : chunk.length = elementSize d) :
    (chunkValue d.payloadDescription.type chunk).Survives ↔
      d.payloadDescription.type ≠ .flag ∧ rewritten d.payloadDescription.type chunk = chunk := by
  have hv := beValue_lt chunk
  rw [hlen] at hv
  rw [rewritten_eq_self]
  unfold elementSize DhcpOptionPayloadDescription.getOneElementPayloadLengthInBytes at hlen hv
  cases ht : d.payloadDescription.type <;>
    simp only [ht, DhcpOptionPayloadType.isElementwise, Bool.false_eq_true, Int.reduceToNat]
      at h hlen hv <;>
    simp only [chunkValue, DhcpOptionFieldRealValue.Survives, DhcpOptionPayloadType.isWideInteger,
      ne_eq, not_true_eq_false, false_and, reduceCtorEq, not_false_eq_true, true_and,
      Bool.false_eq_true, false_implies, implies_true, true_implies]
  case uint16 =>
    have hn : (UInt16.ofNat (beValue chunk)).toBitVec.toNat = beValue chunk := Nat.mod_eq_of_lt hv
    exact imp_congr_right fun _ => byteswap_eq_self_iff (w := 2) hn hlen
  case uint32 =>
    have hn : (UInt32.ofNat (beValue chunk)).toBitVec.toNat = beValue chunk := Nat.mod_eq_of_lt hv
    exact imp_congr_right fun _ => byteswap_eq_self_iff (w := 4) hn hlen
  case int32 =>
    have hn : (Int32.ofNat (beValue chunk)).toBitVec.toNat = beValue chunk := Nat.mod_eq_of_lt hv
    exact imp_congr_right fun _ => byteswap_eq_self_iff (w := 4) hn hlen

end DhcpOption

end Klevret
