import Std.Data.ExtTreeMap
import Std.Data.ExtTreeSet
import Mathlib.Data.Finset.Card
import Mathlib.Logic.Function.Basic
import Mathlib.Tactic.Common

/-! # Ordered containers keyed by a strict order

An ordered container that is given only a strict comparison treats two keys as
one when neither is below the other. For a strict total comparison this is
equality, so the container never merges two keys and never holds one twice.
-/

namespace Foundation

open Std (ExtTreeSet)

variable {α β : Type*}

/-- The three-way comparison that a strict comparison induces on keys. -/
def compareOfLt (lt : α → α → Bool) (a b : α) : Ordering :=
  if lt a b then .lt else if lt b a then .gt else .eq

theorem compareOfLt_eq_lt {lt : α → α → Bool} {a b : α} :
    compareOfLt lt a b = .lt ↔ lt a b = true := by
  unfold compareOfLt
  cases lt a b <;> cases lt b a <;> simp

/-- A strict comparison of keys that is total up to an equality test. -/
structure OrdersKeys (lt eq : α → α → Bool) : Prop where
  irrefl : ∀ a, ¬ lt a a
  trans : ∀ a b c, lt a b → lt b c → lt a c
  exactly_one : ∀ a b, (lt a b ∧ ¬ eq a b ∧ ¬ lt b a) ∨ (¬ lt a b ∧ eq a b ∧ ¬ lt b a) ∨
    (¬ lt a b ∧ ¬ eq a b ∧ lt b a)

/-- A Boolean comparison that is a strict total order. -/
structure StrictTotal (lt : α → α → Bool) : Prop where
  irrefl : ∀ a, lt a a = false
  trans : ∀ {a b c}, lt a b = true → lt b c = true → lt a c = true
  total : ∀ {a b}, lt a b = false → lt b a = false → a = b

namespace StrictTotal

variable {lt : α → α → Bool}

theorem asymm (h : StrictTotal lt) {a b : α} (hab : lt a b = true) : lt b a = false := by
  cases hba : lt b a with
  | false => rfl
  | true => simpa [h.irrefl a] using h.trans hab hba

theorem ne_of_lt (h : StrictTotal lt) {a b : α} (hab : lt a b = true) : a ≠ b := by
  rintro rfl
  rw [h.irrefl] at hab
  cases hab

theorem isLE_iff (h : StrictTotal lt) {a b : α} :
    (compareOfLt lt a b).isLE = true ↔ lt b a = false := by
  unfold compareOfLt
  cases hab : lt a b with
  | true => simp [h.asymm hab]
  | false => cases lt b a <;> simp

theorem not_lt_trans (h : StrictTotal lt) {a b c : α} (hba : lt b a = false)
    (hcb : lt c b = false) : lt c a = false := by
  cases hca : lt c a with
  | false => rfl
  | true =>
    cases hab : lt a b with
    | true => simp [h.trans hca hab] at hcb
    | false =>
      obtain rfl := h.total hab hba
      simp [hca] at hcb

theorem transCmp (h : StrictTotal lt) : Std.TransCmp (compareOfLt lt) where
  eq_swap {a b} := by
    unfold compareOfLt
    cases hab : lt a b with
    | true => simp [h.asymm hab]
    | false => cases lt b a <;> simp
  isLE_trans {a b c} hab hbc := by
    rw [h.isLE_iff] at hab hbc ⊢
    exact h.not_lt_trans hab hbc

theorem lawfulEqCmp (h : StrictTotal lt) : Std.LawfulEqCmp (compareOfLt lt) where
  compare_self {a} := by simp [compareOfLt, h.irrefl]
  eq_of_compare {a b} hab := by
    unfold compareOfLt at hab
    cases h₁ : lt a b <;> cases h₂ : lt b a <;> simp [h₁, h₂] at hab
    exact h.total h₁ h₂

theorem ordersKeys (h : StrictTotal lt) {eq : α → α → Bool} (heq : ∀ a b, eq a b ↔ a = b) :
    OrdersKeys lt eq where
  irrefl a := by simp [h.irrefl a]
  trans _ _ _ hab hbc := h.trans hab hbc
  exactly_one a b := by
    rw [heq]
    cases hab : lt a b with
    | true => simp [h.asymm hab, h.ne_of_lt hab]
    | false =>
      cases hba : lt b a with
      | true => simp [(h.ne_of_lt hba).symm]
      | false => simp [h.total hab hba]

theorem comap (h : StrictTotal lt) {f : β → α} (hf : Function.Injective f) :
    StrictTotal fun a b => lt (f a) (f b) where
  irrefl a := h.irrefl (f a)
  trans hab hbc := h.trans hab hbc
  total hab hba := hf (h.total hab hba)

end StrictTotal

section Sets

variable [Ord α] [Std.TransOrd α] {s : ExtTreeSet α}

theorem nodup_toList (s : ExtTreeSet α) : s.toList.Nodup := by
  apply s.distinct_toList.imp
  rintro a b hne rfl
  exact hne Std.ReflCmp.compare_self

/-- A set holds no key twice, and adding or removing a key leaves the other keys alone. Which keys
are the same is decided by `eq`. -/
structure SetByKey (eq : α → α → Bool) (s : ExtTreeSet α) : Prop where
  once : s.toList.Pairwise fun a b => ¬ eq a b
  insert : ∀ a b, b ∈ s.insert a ↔ eq a b ∨ b ∈ s
  erase : ∀ a b, b ∈ s.erase a ↔ ¬ eq a b ∧ b ∈ s

theorem setByKey [Std.LawfulEqOrd α] {eq : α → α → Bool} (heq : ∀ a b, eq a b ↔ a = b)
    (s : ExtTreeSet α) : SetByKey eq s where
  once := by
    apply (nodup_toList s).imp
    intro a b hne
    rwa [heq]
  insert a b := by simp [ExtTreeSet.mem_insert, heq]
  erase a b := by simp [ExtTreeSet.mem_erase, heq]

/-- An ordered set has as many elements as their images under an injection. -/
theorem size_eq_card [Std.LawfulEqOrd α] [DecidableEq β] {f : α → β}
    (hf : Function.Injective f) {t : Finset β} (h : ∀ b, b ∈ t ↔ ∃ a ∈ s, f a = b) :
    s.size = t.card := by
  have hnodup : (s.toList.map f).Nodup := (nodup_toList s).map hf
  have heq : (s.toList.map f).toFinset = t := by
    ext b
    rw [List.mem_toFinset, List.mem_map, h]
    simp only [ExtTreeSet.mem_toList]
  rw [← heq, List.toFinset_card_of_nodup hnodup, List.length_map, ExtTreeSet.length_toList]

theorem find?_toList_least {p : α → Bool} {a b : α} (h : s.toList.find? p = some a)
    (hb : b ∈ s.toList) (hp : p b = true) : a = b ∨ compare a b = .lt := by
  obtain ⟨-, as, bs, hl, has⟩ := List.find?_eq_some_iff_append.mp h
  have hord := s.ordered_toList
  rw [hl, List.pairwise_append, List.pairwise_cons] at hord
  rw [hl] at hb
  rcases List.mem_append.mp hb with hb | hb
  · exact absurd hp (by simpa using has b hb)
  · rcases List.mem_cons.mp hb with rfl | hb
    · exact Or.inl rfl
    · exact Or.inr (hord.2.1.1 b hb)

end Sets

end Foundation
