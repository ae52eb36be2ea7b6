import Klevret.Options.RoundTrip

/-! # What the constructor consumes

The constructor on a payload that stands somewhere in a buffer. It keeps to the
payload exactly when the payload consists of whole elements. The minimum number
of elements of a description is checked for byte arrays that are not empty, and
for nothing else.
-/

namespace Klevret

open Foundation

namespace DhcpOption

/-- What a row of the table says about the lengths of its option. -/
structure LengthsDescribed (code : ℤ) (d : DhcpOptionDescription) : Prop where
  payload : code ≠ 0 → code ≠ 255 → d.payloadDescription.type ≠ .none
  minimum : 0 < d.payloadDescription.minLenInElements →
    d.payloadLength = VARIABLE_DHCP_OPTION_LENGTH ∧ d.payloadDescription.type ≠ .none

instance (code : ℤ) (d : DhcpOptionDescription) : Decidable (LengthsDescribed code d) :=
  decidable_of_iff ((code ≠ 0 → code ≠ 255 → d.payloadDescription.type ≠ .none) ∧
      (0 < d.payloadDescription.minLenInElements →
        d.payloadLength = VARIABLE_DHCP_OPTION_LENGTH ∧ d.payloadDescription.type ≠ .none))
    ⟨fun ⟨h₁, h₂⟩ => ⟨h₁, h₂⟩, fun ⟨h₁, h₂⟩ => ⟨h₁, h₂⟩⟩

theorem lengthsDescribed_of_mem : ∀ row ∈ optionsDescriptions, LengthsDescribed row.1 row.2 := by
  decide

variable {code : ℤ} {d : DhcpOptionDescription} {payload : List UInt8}

theorem lengthsDescribed_of_lookup (h : optionsDescriptions.lookup code = some d) :
    LengthsDescribed code d := by
  exact lengthsDescribed_of_mem (code, d) (row_mem_of_lookup h)

theorem describe_of_lookup {len : ℤ} (hd : optionsDescriptions.lookup code = some d)
    (h0 : code ≠ 0) (h255 : code ≠ 255)
    (hlen : d.payloadLength = VARIABLE_DHCP_OPTION_LENGTH ∨ d.payloadLength = len) :
    describe code len = .ok d :=
  describe_eq_ok.mpr ⟨hd, hlen, (lengthsDescribed_of_lookup hd).payload h0 h255⟩

theorem wholeElements_iff_dvd (ht : d.payloadDescription.type ≠ .none) (n : ℕ) :
    WholeElements d n ↔ d.payloadDescription.getOneElementPayloadLengthInBytes ∣ n := by
  unfold WholeElements elementSize DhcpOptionPayloadDescription.getOneElementPayloadLengthInBytes
  cases ht' : d.payloadDescription.type <;>
    simp only [ht', ne_eq, not_true_eq_false] at ht <;>
    simp only [DhcpOptionPayloadType.isElementwise, VARIABLE_DHCP_OPTION_LENGTH, true_implies,
      Bool.false_eq_true, false_implies, Int.reduceToNat, Int.neg_dvd, one_dvd] <;>
    omega

section

variable [Host]

/-- The constructor on a payload that stands between other bytes of a buffer. -/
def newWithin (code : ℤ) (before payload after : List UInt8) : Exec DhcpOption :=
  new code payload.length (before ++ payload ++ after) before.length
    (before.length + payload.length)

theorem newWithin_whole (hd : describe code payload.length = .ok d)
    (hw : WholeElements d payload.length) (before after : List UInt8) :
    newWithin code before payload after =
      ofValues d payload.length <$> readPayload d payload := by
  have hb : before.length + payload.length ≤ (before ++ payload ++ after).length := by
    simp only [List.length_append]
    omega
  have hp : ((before ++ payload ++ after).drop before.length).take payload.length = payload := by
    rw [List.append_assoc, List.drop_left, List.take_left]
  rw [newWithin, new_inside hd hb hw, hp]

theorem newWithin_broken (hd : describe code payload.length = .ok d)
    (hw : ¬ WholeElements d payload.length) (before after : List UInt8) :
    newWithin code before payload after = .error .undefined := by
  have hi : before.length ≤ (before ++ payload ++ after).length := by
    simp only [List.length_append]
    omega
  exact new_outside hd hi fun h => hw h.2

theorem newWithin_refused {e : Stop} (hd : describe code payload.length = .error e)
    (before after : List UInt8) : newWithin code before payload after = .error e :=
  new_refused hd _ _

theorem newWithin_eq_ok {before after : List UInt8} {option : DhcpOption} :
    newWithin code before payload after = .ok option ↔
      ∃ d, describe code payload.length = .ok d ∧ WholeElements d payload.length ∧
        payloadAllowed d payload = true ∧
        option = ofValues d payload.length (payloadValues d payload) := by
  cases hd : describe code payload.length with
  | error e => simp [newWithin_refused hd]
  | ok d =>
    by_cases hw : WholeElements d payload.length
    · rw [newWithin_whole hd hw, readPayload]
      cases ha : payloadAllowed d payload with
      | false => simp [hw, ha]
      | true =>
        simp only [if_true, Exec.map_ok, Except.ok.injEq, exists_eq_left', hw, ha, true_and]
        exact eq_comm
    · simp [newWithin_broken hd hw, hw]

/-- The element loop ends and keeps to the payload: what the constructor does is defined without
any bytes around the payload, and is the same with any bytes around it. A payload is accepted only
if it consists of whole elements, and otherwise rejected. -/
structure ConsumesPayload (code : ℤ) (d : DhcpOptionDescription) (payload : List UInt8) :
    Prop where
  terminates : ∀ before after, ∃ passes outcome,
    iterate (attempt (elementPass d (before ++ payload ++ after) (before.length + payload.length)))
      passes (before.length, []) = some outcome
  defined : Exec.Defined (newWithin code [] payload [])
  inside : ∀ before after, newWithin code before payload after = newWithin code [] payload []
  whole : ∀ option, newWithin code [] payload [] = .ok option →
    d.payloadDescription.getOneElementPayloadLengthInBytes ∣ payload.length
  rejects : ¬ d.payloadDescription.getOneElementPayloadLengthInBytes ∣ payload.length →
    Exec.Throws (newWithin code [] payload [])

/-- The loop keeps to its payload exactly when the length is a multiple of the element size. -/
theorem consumesPayload_iff (hd : optionsDescriptions.lookup code = some d)
    (h0 : code ≠ 0) (h255 : code ≠ 255)
    (hlen : d.payloadLength = VARIABLE_DHCP_OPTION_LENGTH ∨ d.payloadLength = payload.length) :
    ConsumesPayload code d payload ↔
      d.payloadDescription.getOneElementPayloadLengthInBytes ∣ payload.length := by
  have hdesc := describe_of_lookup hd h0 h255 hlen
  have hdvd := wholeElements_iff_dvd (describe_eq_ok.mp hdesc).2.2 payload.length
  constructor
  · intro h
    by_contra hn
    obtain ⟨x, hx⟩ := h.rejects hn
    rw [newWithin_broken hdesc (fun hw => hn (hdvd.mp hw))] at hx
    cases hx
  · intro hn
    have hw := hdvd.mpr hn
    refine ⟨fun before after => ⟨_, elementLoop_terminates _ _ _ _⟩, ?_, fun before after => ?_,
      fun _ _ => hn, fun hn' => absurd hn hn'⟩
    · rw [newWithin_whole hdesc hw, Exec.defined_map, readPayload]
      split_ifs <;> simp
    · rw [newWithin_whole hdesc hw, newWithin_whole hdesc hw]

/-- The number of elements in a payload of this length, or of bytes where elements have no size. -/
def elementCount (d : DhcpOptionDescription) (n : ℕ) : ℕ :=
  n / d.payloadDescription.getOneElementPayloadLengthInBytes.natAbs

omit [Host] in
theorem elementCount_byteArray (ht : d.payloadDescription.type = .byteArray) (n : ℕ) :
    elementCount d n = n := by
  simp [elementCount, DhcpOptionPayloadDescription.getOneElementPayloadLengthInBytes, ht]

/-- What is accepted has the minimum number of elements, and what has fewer is rejected. -/
structure EnforcesMinimum (code : ℤ) (payload : List UInt8) : Prop where
  accepted : ∀ before after option, newWithin code before payload after = .ok option →
    option.description.payloadDescription.minLenInElements ≤
      elementCount option.description payload.length
  rejected : ∀ before after d, optionsDescriptions.lookup code = some d →
    elementCount d payload.length < d.payloadDescription.minLenInElements →
    Exec.Throws (newWithin code before payload after)

/-- A short byte array that is not empty is the only short payload that is rejected. -/
theorem throws_of_short (hd : optionsDescriptions.lookup code = some d)
    (hshort : elementCount d payload.length < d.payloadDescription.minLenInElements)
    (before after : List UInt8) :
    Exec.Throws (newWithin code before payload after) ↔
      d.payloadDescription.type = .byteArray ∧ payload ≠ [] := by
  obtain ⟨hvar, ht⟩ := (lengthsDescribed_of_lookup hd).minimum (by omega)
  have hdesc : describe code payload.length = .ok d := describe_eq_ok.mpr ⟨hd, Or.inl hvar, ht⟩
  have hnone := (described_of_lookup hd).unconstrained hvar
  by_cases hw : WholeElements d payload.length
  · rw [newWithin_whole hdesc hw, readPayload, payloadAllowed]
    cases h : d.payloadDescription.type.isElementwise with
    | true =>
      have hall : (elements d payload).all (chunkAllowed d.payloadDescription) = true := by
        refine List.all_eq_true.mpr fun chunk _ => ?_
        unfold chunkAllowed IntConstraint.allows
        simp only [hnone]
        split <;> rfl
      simp [hall, ne_byteArray_of_isElementwise h]
    | false =>
      by_cases hb : d.payloadDescription.type = .byteArray
      · rw [elementCount_byteArray hb] at hshort
        cases payload with
        | nil => simp [hb]
        | cons b l =>
          rw [if_neg Bool.false_ne_true, if_pos hb, if_neg (by simpa using hshort)]
          simp [hb, throwRuntimeError]
      · simp [hb]
  · have h : d.payloadDescription.type.isElementwise = true := by
      by_contra h
      exact hw fun h' => absurd h' h
    simp [newWithin_broken hdesc hw, ne_byteArray_of_isElementwise h, Exec.Throws]

/-- The minimum is enforced exactly where no short payload can come, or only a byte array. -/
theorem enforcesMinimum_iff (code : ℤ) (payload : List UInt8) :
    EnforcesMinimum code payload ↔ ∀ d, optionsDescriptions.lookup code = some d →
      d.payloadDescription.minLenInElements ≤ elementCount d payload.length ∨
        d.payloadDescription.type = .byteArray ∧ payload ≠ [] := by
  constructor
  · intro h d hd
    by_cases hle : d.payloadDescription.minLenInElements ≤ elementCount d payload.length
    · exact Or.inl hle
    · have hshort := Int.not_le.mp hle
      exact Or.inr ((throws_of_short hd hshort [] []).mp (h.rejected [] [] d hd hshort))
  · intro h
    constructor
    · intro before after option hok
      obtain ⟨d, hdesc, _, _, rfl⟩ := newWithin_eq_ok.mp hok
      have hd := (describe_eq_ok.mp hdesc).1
      by_contra hshort
      have hshort := Int.not_le.mp hshort
      obtain ⟨x, hx⟩ := (throws_of_short hd hshort before after).mpr
        ((h d hd).resolve_left (Int.not_le.mpr hshort))
      rw [hok] at hx
      cases hx
    · intro before after d hd hshort
      exact (throws_of_short hd hshort before after).mpr
        ((h d hd).resolve_left (Int.not_le.mpr hshort))

end

/-- Five bytes for a list of routers. -/
theorem not_consumesPayload_routers : ¬ ∀ (_ : Host) (code : ℤ) (d : DhcpOptionDescription)
    (payload : List UInt8), optionsDescriptions.lookup code = some d → code ≠ 0 → code ≠ 255 →
    (d.payloadLength = VARIABLE_DHCP_OPTION_LENGTH ∨ d.payloadLength = payload.length) →
    payload.length ≤ 255 → ConsumesPayload code d payload := by
  intro h
  let host : Host := ⟨.little⟩
  have hc := h host 3 ⟨3, VARIABLE_DHCP_OPTION_LENGTH, ⟨.ipAddress, true, 1, .noConstraint⟩⟩
    [10, 0, 0, 1, 10] (by decide) (by decide) (by decide) (by decide) (by decide)
  exact hc.defined (by decide +kernel)

/-- One router. -/
theorem consumesPayload_router :
    letI : Host := ⟨.little⟩
    ConsumesPayload 3 ⟨3, VARIABLE_DHCP_OPTION_LENGTH, ⟨.ipAddress, true, 1, .noConstraint⟩⟩
      [10, 0, 0, 1] ↔ (4 : ℤ) ∣ 4 := by
  let host : Host := ⟨.little⟩
  apply consumesPayload_iff <;> decide

/-- A list of routers without a router. -/
theorem not_enforcesMinimum_routers : ¬ ∀ (_ : Host) (code : ℤ) (payload : List UInt8),
    EnforcesMinimum code payload := by
  intro h
  let host : Host := ⟨.little⟩
  let d : DhcpOptionDescription :=
    ⟨3, VARIABLE_DHCP_OPTION_LENGTH, ⟨.ipAddress, true, 1, .noConstraint⟩⟩
  have hmin := (h host 3 []).accepted [] [] ⟨0, d, []⟩ (by decide)
  exact absurd hmin (by decide)

end DhcpOption

end Klevret
