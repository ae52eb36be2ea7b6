import Mathlib.Data.List.Basic
import Mathlib.Tactic.Common

/-! # Histories

A history grows at its end. What is asked of an item may depend on the items
before it, and a table that is overwritten remembers the last item for each key.
-/

namespace Foundation

variable {α β : Type*} {P : List α → α → Prop} {l : List α} {a : α}

/-- Each item stands in the relation to the history before it. -/
def EachAfter (P : List α → α → Prop) (l : List α) : Prop :=
  ∀ (i : ℕ) (a : α), l[i]? = some a → P (l.take i) a

@[simp] theorem eachAfter_nil : EachAfter P [] := by
  intro i a h
  simp at h

theorem eachAfter_concat : EachAfter P (l ++ [a]) ↔ EachAfter P l ∧ P l a := by
  constructor
  · intro h
    constructor
    · intro i b hi
      have hlt : i < l.length := (List.getElem?_eq_some_iff.mp hi).1
      have hp := h i b (by rwa [List.getElem?_append_left hlt])
      rwa [List.take_append_of_le_length (Nat.le_of_lt hlt)] at hp
    · have hp := h l.length a (by simp)
      rwa [List.take_left] at hp
  · rintro ⟨h, ha⟩ i b hi
    rcases Nat.lt_or_ge i l.length with hlt | hge
    · rw [List.getElem?_append_left hlt] at hi
      rw [List.take_append_of_le_length (Nat.le_of_lt hlt)]
      exact h i b hi
    · rw [List.getElem?_append_right hge, List.getElem?_singleton] at hi
      split_ifs at hi with hz
      obtain rfl := Option.some.inj hi
      obtain rfl : i = l.length := by omega
      rwa [List.take_left]

/-- The value of the last item that meets the condition. -/
def lastOr (p : α → Bool) (f : α → β) (d : β) (l : List α) : β :=
  ((l.filter p).getLast?.map f).getD d

variable {p : α → Bool} {f : α → β} {d : β}

@[simp] theorem lastOr_nil : lastOr p f d [] = d := rfl

theorem lastOr_concat : lastOr p f d (l ++ [a]) = if p a then f a else lastOr p f d l := by
  by_cases hp : p a
  · simp [lastOr, List.filter_append, hp]
  · simp [lastOr, List.filter_append, hp]

end Foundation
