import Mathlib.Data.List.TakeWhile
import Mathlib.Tactic.Common

/-! # Runs with a delimiter between them

A text that starts with runs of a class of letters, with a single delimiter
between two of them. The last run ends where the class does, so the number of
the runs determines them and what is behind them.
-/

namespace Foundation

variable {α : Type*} {p : α → Bool} {d : α} {run text rest rest' : List α}
  {runs runs' : List (List α)}

/-- The text is these runs, with delimiters between them, and the rest behind them. -/
inductive Delimited (p : α → Bool) (d : α) : List α → List (List α) → List α → Prop
  | last {run rest : List α} :
      (∀ a ∈ run, p a = true) → (∀ a ∈ rest.head?, p a = false) →
        Delimited p d (run ++ rest) [run] rest
  | next {run text rest : List α} {runs : List (List α)} :
      (∀ a ∈ run, p a = true) → Delimited p d text runs rest →
        Delimited p d (run ++ d :: text) (run :: runs) rest

theorem span_run (hrun : ∀ a ∈ run, p a = true) (hrest : ∀ a ∈ rest.head?, p a = false) :
    (run ++ rest).takeWhile p = run ∧ (run ++ rest).dropWhile p = rest := by
  have hstop : rest.takeWhile p = [] ∧ rest.dropWhile p = rest := by
    cases rest with
    | nil => exact ⟨rfl, rfl⟩
    | cons a rest => simp [hrest a rfl]
  rw [List.takeWhile_append_of_pos hrun, List.dropWhile_append_of_pos hrun, hstop.1, hstop.2]
  exact ⟨List.append_nil run, rfl⟩

theorem head?_dropWhile (p : α → Bool) (text : List α) :
    ∀ a ∈ (text.dropWhile p).head?, p a = false := by
  intro a ha
  have h := List.head?_dropWhile_not p text
  rw [Option.mem_def.mp ha] at h
  exact h

namespace Delimited

theorem ne_nil (h : Delimited p d text runs rest) : runs ≠ [] := by
  cases h <;> exact List.cons_ne_nil _ _

theorem forall_mem_run (h : Delimited p d text runs rest) (hrun : run ∈ runs) :
    ∀ a ∈ run, p a = true := by
  induction h with
  | last hlast _ =>
    obtain rfl := List.mem_singleton.mp hrun
    exact hlast
  | next hnext _ ih =>
    rcases List.mem_cons.mp hrun with rfl | hrun
    · exact hnext
    · exact ih hrun

theorem singleton_iff :
    Delimited p d text [run] rest ↔ run = text.takeWhile p ∧ rest = text.dropWhile p := by
  constructor
  · intro h
    cases h with
    | last hrun hrest => exact (span_run hrun hrest).imp Eq.symm Eq.symm
    | next hrun h => exact absurd rfl h.ne_nil
  · rintro ⟨rfl, rfl⟩
    have h : Delimited p d (text.takeWhile p ++ text.dropWhile p) [text.takeWhile p]
        (text.dropWhile p) := .last (fun a => List.mem_takeWhile_imp) (head?_dropWhile p text)
    rwa [List.takeWhile_append_dropWhile] at h

theorem cons_iff (hd : p d = false) (hne : runs ≠ []) :
    Delimited p d text (run :: runs) rest ↔ run = text.takeWhile p ∧
      ∃ tail, text.dropWhile p = d :: tail ∧ Delimited p d tail runs rest := by
  constructor
  · intro h
    cases h with
    | last => exact absurd rfl hne
    | @next _ tail _ _ hrun h =>
      have hspan := span_run hrun (show ∀ a ∈ (d :: tail).head?, p a = false by simp [hd])
      exact ⟨hspan.1.symm, tail, hspan.2, h⟩
  · rintro ⟨rfl, tail, htail, h⟩
    have h : Delimited p d (text.takeWhile p ++ d :: tail) (text.takeWhile p :: runs) rest :=
      .next (fun a => List.mem_takeWhile_imp) h
    rwa [← htail, List.takeWhile_append_dropWhile] at h

section Count

variable {n : ℕ} {Q : List α → Prop}

theorem one_iff :
    (Delimited p d text runs rest ∧ runs.length = 1 ∧ ∀ run ∈ runs, Q run) ↔
      runs = [text.takeWhile p] ∧ rest = text.dropWhile p ∧ Q (text.takeWhile p) := by
  constructor
  · rintro ⟨hruns, hlength, hQ⟩
    obtain ⟨run, rfl⟩ := List.length_eq_one_iff.mp hlength
    obtain ⟨rfl, rfl⟩ := singleton_iff.mp hruns
    exact ⟨rfl, rfl, hQ _ (List.mem_singleton_self _)⟩
  · rintro ⟨rfl, rfl, hQ⟩
    refine ⟨singleton_iff.mpr ⟨rfl, rfl⟩, rfl, ?_⟩
    rintro run hrun
    rwa [List.mem_singleton.mp hrun]

theorem succ_iff (hd : p d = false) :
    (Delimited p d text runs rest ∧ runs.length = n + 2 ∧ ∀ run ∈ runs, Q run) ↔
      Q (text.takeWhile p) ∧ ∃ tail runs', text.dropWhile p = d :: tail ∧
        runs = text.takeWhile p :: runs' ∧ Delimited p d tail runs' rest ∧
          runs'.length = n + 1 ∧ ∀ run ∈ runs', Q run := by
  constructor
  · rintro ⟨hruns, hlength, hQ⟩
    obtain ⟨run, runs', rfl⟩ := List.exists_cons_of_ne_nil hruns.ne_nil
    rw [List.length_cons, Nat.add_right_cancel_iff] at hlength
    rw [List.forall_mem_cons] at hQ
    have hne : runs' ≠ [] := List.ne_nil_of_length_pos (by omega)
    obtain ⟨rfl, tail, htail, hruns⟩ := (cons_iff hd hne).mp hruns
    exact ⟨hQ.1, tail, runs', htail, rfl, hruns, hlength, hQ.2⟩
  · rintro ⟨hQ, tail, runs', htail, rfl, hruns, hlength, hQ'⟩
    refine ⟨(cons_iff hd hruns.ne_nil).mpr ⟨rfl, tail, htail, hruns⟩,
      by rw [List.length_cons, hlength], ?_⟩
    rw [List.forall_mem_cons]
    exact ⟨hQ, hQ'⟩

end Count

theorem of_intercalate (hne : runs ≠ []) (hruns : ∀ run ∈ runs, ∀ a ∈ run, p a = true) :
    Delimited p d ([d].intercalate runs) runs [] := by
  induction runs with
  | nil => exact absurd rfl hne
  | cons run runs ih =>
    rw [List.forall_mem_cons] at hruns
    cases runs with
    | nil =>
      have h : Delimited p d (run ++ []) [run] [] := .last hruns.1 (by simp)
      simpa [List.intercalate] using h
    | cons next runs =>
      have h := Delimited.next hruns.1 (ih (List.cons_ne_nil _ _) hruns.2)
      simpa [List.intercalate] using h

/-- There is one way to read a number of runs. -/
theorem unique (hd : p d = false) (h : Delimited p d text runs rest)
    (h' : Delimited p d text runs' rest') (hlength : runs.length = runs'.length) :
    runs = runs' ∧ rest = rest' := by
  induction runs generalizing text runs' with
  | nil => exact absurd rfl h.ne_nil
  | cons run runs ih =>
    obtain ⟨run', runs', rfl⟩ := List.exists_cons_of_ne_nil h'.ne_nil
    rw [List.length_cons, List.length_cons, Nat.add_right_cancel_iff] at hlength
    cases runs with
    | nil =>
      obtain rfl := List.length_eq_zero_iff.mp hlength.symm
      rw [singleton_iff] at h h'
      rw [h.1, h'.1, h.2, h'.2]
      exact ⟨rfl, rfl⟩
    | cons next runs =>
      have hne : runs' ≠ [] := List.ne_nil_of_length_pos (by simp [← hlength])
      obtain ⟨rfl, tail, htail, h⟩ := (cons_iff hd (List.cons_ne_nil _ _)).mp h
      obtain ⟨rfl, tail', htail', h'⟩ := (cons_iff hd hne).mp h'
      obtain rfl := List.tail_eq_of_cons_eq (htail.symm.trans htail')
      obtain ⟨rfl, rfl⟩ := ih h h' hlength
      exact ⟨rfl, rfl⟩

end Delimited

end Foundation
