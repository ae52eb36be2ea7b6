import Klevret.Messages.Bounds

/-! # Accepted datagrams

A datagram becomes a message when its fixed fields pass the checks and its
option area, if there is one, holds options. The message type option of such a
message always has its one byte.
-/

namespace Klevret

open Foundation

namespace DhcpMessage

/-- The fixed fields pass, and the option area is missing or holds options. -/
def Accepted (data : List UInt8) : Prop :=
  fieldsRefusal data = none ∧ (data.length < 240 ∨ ∃ options, Lists (data.drop 240) options)

variable {data area : List UInt8} {options : List DhcpOption} {message : DhcpMessage}

theorem row_of_messageType {code length : UInt8} {d : DhcpOptionDescription}
    {payload : List UInt8} (hf : Fits code length d payload) (hcode : d.code = 53) :
    d = ⟨53, 1, ⟨.uintEnum, false, 0, ⟨.uintEnum, 0, 0, [1, 2, 3, 4, 5, 6, 7, 8]⟩⟩⟩ ∧
      payload.length = 1 := by
  obtain ⟨hlookup, hlen, -⟩ := DhcpOption.describe_eq_ok.mp hf.described
  have hc : ((code.toNat : ℕ) : ℤ) = 53 := by
    rw [← hcode, (DhcpOption.described_of_describe hf.described).code_eq]
  rw [hc] at hlookup
  have hrow : optionsDescriptions.lookup 53 = some
      ⟨53, 1, ⟨.uintEnum, false, 0, ⟨.uintEnum, 0, 0, [1, 2, 3, 4, 5, 6, 7, 8]⟩⟩⟩ := by decide
  obtain rfl := Option.some.inj (hlookup.symm.trans hrow)
  refine ⟨rfl, ?_⟩
  rw [hf.length_eq]
  have hl : (1 : ℤ) = length.toNat := by simpa [VARIABLE_DHCP_OPTION_LENGTH] using hlen
  omega

theorem realValues_optionOf {code length : UInt8} {d : DhcpOptionDescription}
    {payload : List UInt8} (hf : Fits code length d payload) (hcode : d.code = 53) :
    ∃ v, (optionOf length d payload).realValues = [.uint8 v] := by
  obtain ⟨rfl, hone⟩ := row_of_messageType hf hcode
  obtain ⟨b, rfl⟩ := List.length_eq_one_iff.mp hone
  exact ⟨.ofNat (beValue [b]), by simp [optionOf, DhcpOption.ofValues, DhcpOption.payloadValues,
    DhcpOptionPayloadType.isElementwise, DhcpOption.elements, DhcpOption.elementSize,
    DhcpOptionPayloadDescription.getOneElementPayloadLengthInBytes, chunks,
    DhcpOption.chunkValue]⟩

theorem Lists.optionOf_of_mem {os : List DhcpOption} (h : Lists area os) {o : DhcpOption}
    (ho : o ∈ os) : ∃ code length d payload, Fits code length d payload ∧
      DhcpOption.payloadAllowed d payload = true ∧ o = optionOf length d payload := by
  induction h with
  | nil => simp at ho
  | pad _ ih => exact ih ho
  | stop => simp at ho
  | option hf ha _ ih =>
    rcases List.mem_cons.mp ho with rfl | ho
    · exact ⟨_, _, _, _, hf, ha, rfl⟩
    · exact ih ho

theorem Lists.messageType {os : List DhcpOption} (h : Lists area os) :
    ∀ o ∈ os, o.description.code = 53 → ∃ v, o.realValues = [.uint8 v] := by
  intro o ho hcode
  obtain ⟨code, length, d, payload, hf, -, rfl⟩ := h.optionOf_of_mem ho
  exact realValues_optionOf hf hcode

variable [Host]

theorem optionLoop_eq_ok (hlen : 240 ≤ data.length) :
    optionLoop data 240 = .ok options ↔ Lists (data.drop 240) options := by
  constructor
  · intro hok
    rcases optionLoop_cases hlen with ⟨os, h, hos⟩ | ⟨_, x, hx⟩ | hu
    · obtain rfl := Except.ok.inj (hok.symm.trans hos)
      exact h
    · simp [hx] at hok
    · simp [hu] at hok
  · intro h
    exact optionLoop_of_lists h hlen

theorem new_eq_ok : new data = .ok message ↔ fieldsRefusal data = none ∧
    ∃ options, message = ofFields data options ∧
      (data.length < 240 ∧ options = [] ∨ 240 ≤ data.length ∧ Lists (data.drop 240) options) := by
  rw [new_eq]
  cases fieldsRefusal data with
  | some what => simp
  | none =>
    by_cases hlen : data.length < 240
    · simp only [hlen, if_true, Except.ok.injEq, true_and, Nat.not_le.mpr hlen, false_and, or_false,
        exists_eq_right]
      exact eq_comm
    · have hle := Nat.not_lt.mp hlen
      simp only [hlen, if_false, Exec.map_eq_ok, optionLoop_eq_ok hle, hle, true_and, false_and,
        false_or]
      constructor
      · rintro ⟨os, h, rfl⟩
        exact ⟨os, rfl, h⟩
      · rintro ⟨os, rfl, h⟩
        exact ⟨os, h, rfl⟩

/-- The parser accepts exactly these datagrams. -/
theorem accepted_iff : Accepted data ↔ ∃ message, new data = .ok message := by
  constructor
  · rintro ⟨hf, hlen | ⟨options, h⟩⟩
    · exact ⟨_, new_eq_ok.mpr ⟨hf, [], rfl, Or.inl ⟨hlen, rfl⟩⟩⟩
    · by_cases hlen : data.length < 240
      · exact ⟨_, new_eq_ok.mpr ⟨hf, [], rfl, Or.inl ⟨hlen, rfl⟩⟩⟩
      · exact ⟨_, new_eq_ok.mpr ⟨hf, options, rfl, Or.inr ⟨Nat.not_lt.mp hlen, h⟩⟩⟩
  · rintro ⟨message, h⟩
    obtain ⟨hf, options, rfl, ⟨hlen, rfl⟩ | ⟨hlen, h⟩⟩ := new_eq_ok.mp h
    · exact ⟨hf, Or.inl hlen⟩
    · exact ⟨hf, Or.inr ⟨options, h⟩⟩

theorem chaddr_of_new (h : new data = .ok message) : ∃ mac, message.chaddr = some mac := by
  obtain ⟨-, options, rfl, -⟩ := new_eq_ok.mp h
  exact ⟨_, rfl⟩

theorem optionOf_of_new (h : new data = .ok message) {o : DhcpOption} (ho : o ∈ message.options) :
    ∃ code length d payload, Fits code length d payload ∧
      DhcpOption.payloadAllowed d payload = true ∧ o = optionOf length d payload := by
  obtain ⟨-, options, rfl, ⟨-, rfl⟩ | ⟨-, hl⟩⟩ := new_eq_ok.mp h
  · simp [ofFields] at ho
  · exact hl.optionOf_of_mem ho

theorem messageType_of_new (h : new data = .ok message) :
    ∀ o ∈ message.options, o.description.code = 53 → ∃ v, o.realValues = [.uint8 v] := by
  obtain ⟨-, options, rfl, ⟨-, rfl⟩ | ⟨-, hl⟩⟩ := new_eq_ok.mp h
  · simp [ofFields]
  · exact hl.messageType

end DhcpMessage

end Klevret
