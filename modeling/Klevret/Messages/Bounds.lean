import Klevret.Messages.OptionArea

/-! # The parser and the end of the datagram

The parser reads the fixed fields inside the datagram. Its option loop trusts
the announced lengths, so it stays inside exactly when the option area is
framed.
-/

namespace Klevret

open Foundation

namespace DhcpMessage

/-- Every payload that is read on this area lies inside it. -/
def Framed (area : List UInt8) : Prop := (∃ options, Lists area options) ∨ Refuses area

theorem length_optionArea {data : List UInt8} (hlen : 240 ≤ data.length) :
    (data.drop 240).length < data.length := by
  rw [List.length_drop]
  omega

section

variable [Host] {data : List UInt8}

theorem optionLoop_of_lists {os : List DhcpOption} (h : Lists (data.drop 240) os)
    (hlen : 240 ≤ data.length) : optionLoop data 240 = .ok os := by
  simp [optionLoop, loop, h.iterate rfl hlen (length_optionArea hlen)]

theorem optionLoop_of_refuses (h : Refuses (data.drop 240)) (hlen : 240 ≤ data.length) :
    ∃ x, optionLoop data 240 = .error (.throws x) := by
  obtain ⟨x, hx⟩ : ∃ x, iterate (attempt (optionPass data)) data.length (240, []) =
    some (.error (.throws x)) := h.iterate rfl hlen (length_optionArea hlen)
  exact ⟨x, by simp [optionLoop, loop, hx]⟩

theorem optionLoop_cases (hlen : 240 ≤ data.length) :
    (∃ os, Lists (data.drop 240) os ∧ optionLoop data 240 = .ok os) ∨
      (Refuses (data.drop 240) ∧ ∃ x, optionLoop data 240 = .error (.throws x)) ∨
      optionLoop data 240 = .error .undefined := by
  rcases iterate_optionPass data data.length 240 [] hlen (length_optionArea hlen)
    with ⟨os, h⟩ | h | h
  · exact Or.inl ⟨os, h, optionLoop_of_lists h hlen⟩
  · exact Or.inr (Or.inl ⟨h, optionLoop_of_refuses h hlen⟩)
  · exact Or.inr (Or.inr (by simp [optionLoop, loop, h]))

theorem optionLoop_terminates (hlen : 240 ≤ data.length) :
    ∃ outcome, iterate (attempt (optionPass data)) data.length (240, []) = some outcome := by
  have hn := length_optionArea hlen
  rcases iterate_optionPass data data.length 240 [] hlen hn with ⟨os, h⟩ | h | h
  · exact ⟨_, h.iterate rfl hlen hn⟩
  · obtain ⟨x, hx⟩ : ∃ x, iterate (attempt (optionPass data)) data.length (240, []) =
      some (.error (.throws x)) := h.iterate rfl hlen hn
    exact ⟨_, hx⟩
  · exact ⟨_, h⟩

/-- On an area that is not framed the loop leaves the buffer. -/
theorem optionLoop_defined_iff (hlen : 240 ≤ data.length) :
    Exec.Defined (optionLoop data 240) ↔ Framed (data.drop 240) := by
  constructor
  · intro hdef
    rcases optionLoop_cases hlen with ⟨os, h, _⟩ | ⟨h, _⟩ | h
    · exact Or.inl ⟨os, h⟩
    · exact Or.inr h
    · simp [h] at hdef
  · rintro (⟨os, h⟩ | h)
    · simp [optionLoop_of_lists h hlen]
    · obtain ⟨x, hx⟩ := optionLoop_of_refuses h hlen
      simp [hx]

/-- The parser keeps inside the datagram, and its loop ends within `data.size()` passes. -/
def StaysInside (data : List UInt8) : Prop :=
  Exec.Defined (new data) ∧
    (240 ≤ data.length →
      ∃ outcome, iterate (attempt (optionPass data)) data.length (240, []) = some outcome)

/-- The parser stays inside exactly the datagrams that it refuses before the options, that have
none, or whose option area is framed. -/
theorem staysInside_iff (data : List UInt8) :
    StaysInside data ↔
      data.length < 240 ∨ data.getD 1 0 ≠ HardwareAddressType.ethernet10Mb ∨
        (data.drop 236).take 4 ≠ [99, 130, 83, 99] ∨ Framed (data.drop 240) := by
  have hnew := new_eq data
  unfold fieldsRefusal at hnew
  unfold StaysInside
  by_cases hlen : data.length < 240
  · refine iff_of_true ⟨?_, fun h => absurd h (Nat.not_le.mpr hlen)⟩ (Or.inl hlen)
    rw [hnew]
    split_ifs <;> simp
  have hle := Nat.not_lt.mp hlen
  have h236 : ¬ data.length < 236 := by omega
  by_cases ht : data.getD 1 0 = HardwareAddressType.ethernet10Mb
  · by_cases hm : (data.drop 236).take 4 = [99, 130, 83, 99]
    · simp only [h236, ht, hm, hlen, if_false, ne_eq, not_true_eq_false] at hnew
      rw [hnew, Exec.defined_map, optionLoop_defined_iff hle]
      constructor
      · rintro ⟨hf, _⟩
        exact Or.inr (Or.inr (Or.inr hf))
      · rintro (h | h | h | h)
        · exact absurd h hlen
        · exact absurd ht h
        · exact absurd hm h
        · exact ⟨h, optionLoop_terminates⟩
    · simp only [h236, ht, hm, hlen, if_false, if_true, ne_eq, not_true_eq_false,
        not_false_eq_true] at hnew
      exact iff_of_true ⟨by simp [hnew], optionLoop_terminates⟩ (Or.inr (Or.inr (Or.inl hm)))
  · simp only [h236, ht, if_false, if_true, ne_eq, not_false_eq_true] at hnew
    exact iff_of_true ⟨by simp [hnew], optionLoop_terminates⟩ (Or.inr (Or.inl ht))

end

/-- A datagram that ends after the code byte of an option. -/
theorem not_staysInside : ¬ ∀ (_ : Host) (data : List UInt8), StaysInside data := by
  intro h
  let host : Host := ⟨.little⟩
  have hdef := (h host ([1, 1, 6, 0] ++ List.replicate 232 0 ++ [99, 130, 83, 99, 53])).1
  exact hdef (by decide +kernel)

end DhcpMessage

end Klevret
