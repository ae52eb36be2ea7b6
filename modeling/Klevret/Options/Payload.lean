import Klevret.Foundation.Chunks
import Klevret.Options.Elements

/-! # What the constructor accepts

The constructor read over the payload alone: a header that is described, whole
elements, and values within the constraints. Where the range of positions is
not inside the buffer, or ends inside an element, the constructor leaves the
buffer.
-/

namespace Klevret

open Foundation

namespace DhcpOption

/-- The checks of the constructor before it touches the payload. -/
def describe (code realPayloadLength : ℤ) : Exec DhcpOptionDescription :=
  match optionsDescriptions.lookup code with
  | none => .error (.throws .outOfRange)
  | some d =>
    if d.payloadLength ≠ VARIABLE_DHCP_OPTION_LENGTH ∧ d.payloadLength ≠ realPayloadLength then
      throwRuntimeError "несовпадение реальной длины свойства и длины в стандарте"
    else if d.payloadDescription.type = .none then
      throwRuntimeError "Нельзя задать пустое значение"
    else .ok d

/-- What a row of the table says about the option it describes. -/
structure Described (code : ℤ) (d : DhcpOptionDescription) : Prop where
  code_eq : d.code = code
  code_byte : 0 ≤ code ∧ code < 256
  special : code = 0 ∨ code = 255 → d.payloadDescription.type = .none
  fixed : d.payloadLength ≠ VARIABLE_DHCP_OPTION_LENGTH → d.payloadDescription.type ≠ .none →
    d.payloadDescription.type.isElementwise = true ∧ d.payloadLength = elementSize d
  unconstrained : d.payloadLength = VARIABLE_DHCP_OPTION_LENGTH →
    d.payloadDescription.intConstraint.type = .none

instance (code : ℤ) (d : DhcpOptionDescription) : Decidable (Described code d) :=
  decidable_of_iff (d.code = code ∧ (0 ≤ code ∧ code < 256) ∧
      (code = 0 ∨ code = 255 → d.payloadDescription.type = .none) ∧
      (d.payloadLength ≠ VARIABLE_DHCP_OPTION_LENGTH → d.payloadDescription.type ≠ .none →
        d.payloadDescription.type.isElementwise = true ∧ d.payloadLength = elementSize d) ∧
      (d.payloadLength = VARIABLE_DHCP_OPTION_LENGTH →
        d.payloadDescription.intConstraint.type = .none))
    ⟨fun ⟨h₁, h₂, h₃, h₄, h₅⟩ => ⟨h₁, h₂, h₃, h₄, h₅⟩,
      fun ⟨h₁, h₂, h₃, h₄, h₅⟩ => ⟨h₁, h₂, h₃, h₄, h₅⟩⟩

theorem described_of_mem : ∀ row ∈ optionsDescriptions, Described row.1 row.2 := by decide

theorem row_mem_of_lookup {code : ℤ} {d : DhcpOptionDescription}
    (h : optionsDescriptions.lookup code = some d) : (code, d) ∈ optionsDescriptions := by
  obtain ⟨above, below, hrows, -⟩ := List.lookup_eq_some_iff.mp h
  rw [hrows]
  exact List.mem_append_right above List.mem_cons_self

theorem described_of_lookup {code : ℤ} {d : DhcpOptionDescription}
    (h : optionsDescriptions.lookup code = some d) : Described code d := by
  exact described_of_mem (code, d) (row_mem_of_lookup h)

theorem describe_eq_ok {code len : ℤ} {d : DhcpOptionDescription} :
    describe code len = .ok d ↔ optionsDescriptions.lookup code = some d ∧
      (d.payloadLength = VARIABLE_DHCP_OPTION_LENGTH ∨ d.payloadLength = len) ∧
      d.payloadDescription.type ≠ .none := by
  unfold describe
  cases optionsDescriptions.lookup code with
  | none => simp
  | some row =>
    simp only [Option.some.injEq]
    split_ifs with hlen ht
    · simp only [Exec.throwRuntimeError_ne_ok, false_iff]
      rintro ⟨rfl, h, _⟩
      tauto
    · simp only [Exec.throwRuntimeError_ne_ok, false_iff]
      rintro ⟨rfl, _, h⟩
      exact h ht
    · rw [Except.ok.injEq]
      constructor
      · rintro rfl
        exact ⟨rfl, by tauto, ht⟩
      · exact fun h => h.1

theorem describe_eq_error {code len : ℤ} {e : Stop} (h : describe code len = .error e) :
    ∃ x, e = .throws x := by
  unfold describe at h
  cases hl : optionsDescriptions.lookup code with
  | none =>
    simp only [hl, Except.error.injEq] at h
    exact ⟨_, h.symm⟩
  | some row =>
    simp only [hl] at h
    split_ifs at h <;> exact ⟨_, (Except.error.inj h).symm⟩

variable {d : DhcpOptionDescription} {data : List UInt8} {iter n : ℕ}

theorem described_of_describe {code len : ℤ} (hd : describe code len = .ok d) :
    Described code d := described_of_lookup (describe_eq_ok.mp hd).1

theorem code_ne_of_describe {code len : ℤ} (hd : describe code len = .ok d) :
    code ≠ 0 ∧ code ≠ 255 := by
  have hspecial := (described_of_describe hd).special
  have ht := (describe_eq_ok.mp hd).2.2
  exact ⟨fun h => ht (hspecial (Or.inl h)), fun h => ht (hspecial (Or.inr h))⟩

theorem payloadLength_of_rest {code len : ℤ} (hd : describe code len = .ok d)
    (h : d.payloadDescription.type.isElementwise = false) :
    d.payloadLength = VARIABLE_DHCP_OPTION_LENGTH := by
  by_contra hv
  have hf := (described_of_describe hd).fixed hv (describe_eq_ok.mp hd).2.2
  simp [h] at hf

theorem processByteArray_inside (hv : d.payloadLength = VARIABLE_DHCP_OPTION_LENGTH)
    (hb : iter + n ≤ data.length) :
    processByteArray d data iter (iter + n) =
      if d.payloadDescription.minLenInElements ≤ ((data.drop iter).take n).length then
        .ok (.byteVector ((data.drop iter).take n))
      else throwRuntimeError "длина опции меньше чем минимальная" := by
  simp only [processByteArray, copyRange_inside hb, hv, Exec.ok_bind]
  by_cases hmin : d.payloadDescription.minLenInElements ≤ ((data.drop iter).take n).length
  · simp only [if_pos hmin, Int.not_lt.mpr hmin, and_false, ne_eq, not_true_eq_false, false_and,
      if_false, Exec.pure_eq_ok]
  · simp only [if_neg hmin, Int.not_le.mp hmin, and_true, if_true, Exec.throwRuntimeError_bind]

variable [Host]

/-- The option that the constructor builds from values read under a description. -/
def ofValues (d : DhcpOptionDescription) (realPayloadLength : ℤ)
    (realValues : List DhcpOptionFieldRealValue) : DhcpOption where
  realPayloadLength :=
    if d.payloadLength = VARIABLE_DHCP_OPTION_LENGTH then realPayloadLength else d.payloadLength
  description := d
  realValues

theorem new_eq (code len : ℤ) (data : List UInt8) (first last : ℕ) :
    new code len data first last =
      (do let d ← describe code len; ofValues d len <$> elementLoop d data first last) := by
  unfold new describe
  cases optionsDescriptions.lookup code with
  | none => rfl
  | some row =>
    by_cases hlen : row.payloadLength ≠ VARIABLE_DHCP_OPTION_LENGTH ∧ row.payloadLength ≠ len
    · simp only [Exec.ok_bind, if_pos hlen, Exec.throwRuntimeError_bind]
    · by_cases ht : row.payloadDescription.type = .none
      · simp only [Exec.ok_bind, if_neg hlen, if_pos ht, Exec.throwRuntimeError_bind]
      · simp only [Exec.ok_bind, if_neg hlen, if_neg ht]
        cases elementLoop row data first last <;> rfl

def elements (d : DhcpOptionDescription) (payload : List UInt8) : List (List UInt8) :=
  chunks (elementSize d) (payload.length / elementSize d) payload

/-- A payload of this length does not end inside an element. -/
def WholeElements (d : DhcpOptionDescription) (n : ℕ) : Prop :=
  d.payloadDescription.type.isElementwise = true → elementSize d ∣ n

def payloadAllowed (d : DhcpOptionDescription) (payload : List UInt8) : Bool :=
  if d.payloadDescription.type.isElementwise then
    (elements d payload).all (chunkAllowed d.payloadDescription)
  else if d.payloadDescription.type = .byteArray then
    payload.isEmpty || decide (d.payloadDescription.minLenInElements ≤ payload.length)
  else true

def payloadValues (d : DhcpOptionDescription) (payload : List UInt8) :
    List DhcpOptionFieldRealValue :=
  if d.payloadDescription.type.isElementwise then
    (elements d payload).map (chunkValue d.payloadDescription.type)
  else if payload.isEmpty then []
  else [chunkValue d.payloadDescription.type payload]

/-- The text of the exception for a payload outside the constraint. -/
def payloadRefusal (d : DhcpOptionDescription) : String :=
  if d.payloadDescription.type = .byteArray then "длина опции меньше чем минимальная"
  else "Значение опции не соответствует ограничениям"

/-- The outcome of the element loop, as a function of the payload. -/
def readPayload (d : DhcpOptionDescription) (payload : List UInt8) :
    Exec (List DhcpOptionFieldRealValue) :=
  if payloadAllowed d payload then .ok (payloadValues d payload)
  else throwRuntimeError (payloadRefusal d)

theorem decodeElements_inside (h : d.payloadDescription.type.isElementwise = true) (k : ℕ)
    (hb : iter + k * elementSize d ≤ data.length) :
    decodeElements d data iter k =
      if (chunks (elementSize d) k (data.drop iter)).all (chunkAllowed d.payloadDescription) then
        .ok ((chunks (elementSize d) k (data.drop iter)).map (chunkValue d.payloadDescription.type))
      else throwRuntimeError "Значение опции не соответствует ограничениям" := by
  induction k generalizing iter with
  | zero => rfl
  | succ k ih =>
    rw [Nat.succ_mul] at hb
    rw [decodeElements, elementValue_eq h, slice_of_le (by omega), ih (by omega), chunks,
      List.drop_drop]
    simp only [Exec.ok_bind, Bytes.toList_ofList, List.all_cons, List.map_cons]
    cases chunkAllowed d.payloadDescription ((data.drop iter).take (elementSize d)) with
    | false => rfl
    | true =>
      simp only [requireAllowed, if_true, Exec.ok_bind, Exec.pure_eq_ok, Bool.true_and]
      split_ifs <;> rfl

/-- If no element is refused before it, the end of the buffer is overrun. -/
theorem decodeElements_outside (h : d.payloadDescription.type.isElementwise = true) {k : ℕ}
    (hi : iter ≤ data.length) (hb : data.length < iter + k * elementSize d)
    (hall : (∀ chunk, chunkAllowed d.payloadDescription chunk = true) ∨ k = 1) :
    decodeElements d data iter k = .error .undefined := by
  induction k generalizing iter with
  | zero => omega
  | succ k ih =>
    have hs := elementSize_pos h
    rw [Nat.succ_mul] at hb
    rw [decodeElements, elementValue_eq h]
    rcases Nat.lt_or_ge data.length (iter + elementSize d) with hlt | hle
    · rw [slice_of_lt hs hlt]
      rfl
    · rcases hall with hall | hk
      · rw [slice_of_le hle, ih hle (by omega) (Or.inl hall)]
        simp [hall, requireAllowed]
      · obtain rfl : k = 0 := by omega
        omega

theorem elementLoop_rest (h : d.payloadDescription.type.isElementwise = false) (hn : 0 < n) :
    elementLoop d data iter (iter + n) =
      (fun pushed => [pushed.value]) <$> processElement d data iter (iter + n) := by
  have hne : n ≠ 0 := by omega
  apply elementLoop_eq (n := 1)
  cases hp : processElement d data iter (iter + n) with
  | error e => exact iterate_exit (attempt_stop (by simp [elementPass, hne, hp]))
  | ok pushed =>
    cases pushed with
    | next value => simp [isElementwise_of_next hp] at h
    | last value => exact iterate_exit (attempt_exit (by simp [elementPass, hne, hp, Pushed.value]))

theorem processElement_inside {code len : ℤ} (hd : describe code len = .ok d)
    (h : d.payloadDescription.type.isElementwise = false) (hn : 0 < n)
    (hb : iter + n ≤ data.length) :
    (fun pushed => [pushed.value]) <$> processElement d data iter (iter + n) =
      readPayload d ((data.drop iter).take n) := by
  have hv := payloadLength_of_rest hd h
  have hne : ((data.drop iter).take n).isEmpty = false := by
    rw [List.isEmpty_eq_false_iff, ← List.length_pos_iff]
    simp only [List.length_take, List.length_drop]
    omega
  have ht := (describe_eq_ok.mp hd).2.2
  unfold readPayload payloadAllowed payloadValues processElement
  simp only [h, hne]
  cases ht' : d.payloadDescription.type <;>
    simp only [ht', DhcpOptionPayloadType.isElementwise, ne_eq, not_true_eq_false,
      Bool.true_eq_false] at h ht
  case vendorSpecificField =>
    simp [processVendorSpecificField, copyRange_inside hb, Pushed.value, chunkValue]
  case string => simp [processString, copyRange_inside hb, Pushed.value, chunkValue]
  case byteArray =>
    rw [processByteArray_inside hv hb]
    simp only [payloadRefusal, ht', chunkValue, if_true, Bool.false_eq_true, if_false,
      Bool.false_or, decide_eq_true_eq]
    split_ifs <;> rfl

theorem processElement_outside {code len : ℤ} (hd : describe code len = .ok d)
    (h : d.payloadDescription.type.isElementwise = false) (hn : 0 < n)
    (hb : data.length < iter + n) :
    processElement d data iter (iter + n) = .error .undefined := by
  have ht := (describe_eq_ok.mp hd).2.2
  unfold processElement
  cases ht' : d.payloadDescription.type <;>
    simp only [ht', DhcpOptionPayloadType.isElementwise, ne_eq, not_true_eq_false,
      Bool.true_eq_false] at h ht
  case vendorSpecificField => simp [processVendorSpecificField, copyRange_outside hn hb]
  case string => simp [processString, copyRange_outside hn hb]
  case byteArray => simp [processByteArray, copyRange_outside hn hb]

theorem elementLoop_inside {code : ℤ} (hd : describe code n = .ok d)
    (hb : iter + n ≤ data.length) (hw : WholeElements d n) :
    elementLoop d data iter (iter + n) = readPayload d ((data.drop iter).take n) := by
  cases h : d.payloadDescription.type.isElementwise with
  | true =>
    obtain ⟨k, rfl⟩ := hw h
    rw [Nat.mul_comm] at hb ⊢
    have hlen : ((data.drop iter).take (k * elementSize d)).length = k * elementSize d := by
      simp only [List.length_take, List.length_drop]
      omega
    have ht := ne_byteArray_of_isElementwise h
    rw [elementLoop_whole h, decodeElements_inside h k hb]
    simp only [readPayload, payloadAllowed, payloadValues, payloadRefusal, elements, h, ht, hlen,
      Nat.mul_div_cancel _ (elementSize_pos h), chunks_take le_rfl, if_true, if_false]
  | false =>
    rcases Nat.eq_zero_or_pos n with rfl | hn
    · rw [Nat.add_zero, elementLoop_nil]
      simp [readPayload, payloadAllowed, payloadValues, h]
    · rw [elementLoop_rest h hn, processElement_inside hd h hn hb]

/-- Otherwise the loop reads outside the buffer, whatever the bytes are. -/
theorem elementLoop_outside {code : ℤ} (hd : describe code n = .ok d) (hi : iter ≤ data.length)
    (hout : ¬ (iter + n ≤ data.length ∧ WholeElements d n)) :
    elementLoop d data iter (iter + n) = .error .undefined := by
  cases h : d.payloadDescription.type.isElementwise with
  | true =>
    have hs := elementSize_pos h
    by_cases hv : d.payloadLength = VARIABLE_DHCP_OPTION_LENGTH
    · have hall : ∀ chunk, chunkAllowed d.payloadDescription chunk = true := by
        intro chunk
        have hc := (described_of_describe hd).unconstrained hv
        unfold chunkAllowed IntConstraint.allows
        simp only [hc]
        split <;> rfl
      by_cases hw : WholeElements d n
      · have hb : data.length < iter + n := Nat.not_le.mp fun hb => hout ⟨hb, hw⟩
        obtain ⟨k, rfl⟩ := hw h
        rw [Nat.mul_comm] at hb ⊢
        rw [elementLoop_whole h]
        exact decodeElements_outside h hi hb (Or.inl hall)
      · refine elementLoop_partial h hall fun k hk => hw fun _ => ?_
        exact ⟨k, by rw [Nat.mul_comm]; omega⟩
    · obtain ⟨_, hl⟩ := (described_of_describe hd).fixed hv (describe_eq_ok.mp hd).2.2
      have hn : n = 1 * elementSize d := by
        have := (describe_eq_ok.mp hd).2.1
        omega
      have hw : WholeElements d n := fun _ => ⟨1, by omega⟩
      have hb : data.length < iter + n := Nat.not_le.mp fun hb => hout ⟨hb, hw⟩
      subst hn
      rw [elementLoop_whole h]
      exact decodeElements_outside h hi hb (Or.inr rfl)
  | false =>
    have hw : WholeElements d n := by simp [WholeElements, h]
    have hb : data.length < iter + n := Nat.not_le.mp fun hb => hout ⟨hb, hw⟩
    rw [elementLoop_rest h (by omega), processElement_outside hd h (by omega) hb]
    rfl

theorem new_inside {code : ℤ} (hd : describe code n = .ok d) (hb : iter + n ≤ data.length)
    (hw : WholeElements d n) :
    new code n data iter (iter + n) =
      ofValues d n <$> readPayload d ((data.drop iter).take n) := by
  rw [new_eq, hd, Exec.ok_bind, elementLoop_inside hd hb hw]

theorem new_outside {code : ℤ} (hd : describe code n = .ok d) (hi : iter ≤ data.length)
    (hout : ¬ (iter + n ≤ data.length ∧ WholeElements d n)) :
    new code n data iter (iter + n) = .error .undefined := by
  rw [new_eq, hd, Exec.ok_bind, elementLoop_outside hd hi hout]
  rfl

theorem new_refused {code len : ℤ} {e : Stop} (hd : describe code len = .error e)
    (first last : ℕ) : new code len data first last = .error e := by
  rw [new_eq, hd]
  rfl

end DhcpOption

end Klevret
