import Mathlib.Data.List.Basic
import Mathlib.Tactic.Common

/-! # Splitting a list into equal chunks

The first `k` chunks of `s` elements. A list of whole chunks is their
concatenation, and a map that keeps the length of every chunk keeps the
concatenation exactly when it keeps every chunk.
-/

namespace Foundation

variable {α : Type*}

def chunks (s : ℕ) : (k : ℕ) → List α → List (List α)
  | 0, _ => []
  | k + 1, l => l.take s :: chunks s k (l.drop s)

variable {s k : ℕ} {l : List α}

theorem flatten_chunks (s k : ℕ) (l : List α) : (chunks s k l).flatten = l.take (k * s) := by
  induction k generalizing l with
  | zero => simp [chunks]
  | succ k ih => rw [chunks, List.flatten_cons, ih, ← List.take_add, Nat.succ_mul, Nat.add_comm s]

theorem flatten_chunks_of_length (h : l.length = k * s) : (chunks s k l).flatten = l := by
  rw [flatten_chunks, ← h, List.take_length]

theorem length_of_mem_chunks (h : k * s ≤ l.length) {c : List α} (hc : c ∈ chunks s k l) :
    c.length = s := by
  induction k generalizing l with
  | zero => simp [chunks] at hc
  | succ k ih =>
    rw [Nat.succ_mul] at h
    rcases List.mem_cons.mp hc with rfl | hc
    · simp only [List.length_take]
      omega
    · exact ih (by simp only [List.length_drop]; omega) hc

theorem chunks_take {n : ℕ} (h : k * s ≤ n) : chunks s k (l.take n) = chunks s k l := by
  induction k generalizing l n with
  | zero => rfl
  | succ k ih =>
    rw [Nat.succ_mul] at h
    rw [chunks, chunks, List.take_take, Nat.min_eq_left (by omega), List.drop_take,
      ih (by omega)]

theorem chunks_flatten {L : List (List α)} (h : ∀ c ∈ L, c.length = s) :
    chunks s L.length L.flatten = L := by
  induction L with
  | nil => rfl
  | cons c L ih =>
    obtain ⟨hc, hL⟩ := List.forall_mem_cons.mp h
    rw [List.length_cons, chunks, List.flatten_cons, List.take_left' hc, List.drop_left' hc, ih hL]

theorem length_flatten_of_length {L : List (List α)} (h : ∀ c ∈ L, c.length = s) :
    L.flatten.length = L.length * s := by
  induction L with
  | nil => simp
  | cons c L ih =>
    obtain ⟨hc, hL⟩ := List.forall_mem_cons.mp h
    rw [List.flatten_cons, List.length_append, hc, ih hL, List.length_cons, Nat.succ_mul,
      Nat.add_comm]

theorem flatten_map_eq_flatten_iff {f : List α → List α} {L : List (List α)}
    (hf : ∀ c ∈ L, (f c).length = c.length) :
    (L.map f).flatten = L.flatten ↔ ∀ c ∈ L, f c = c := by
  induction L with
  | nil => simp
  | cons c L ih =>
    have ih := ih fun d hd => hf d (List.mem_cons_of_mem _ hd)
    rw [List.map_cons, List.flatten_cons, List.flatten_cons, List.forall_mem_cons, ← ih]
    constructor
    · intro h
      exact List.append_inj h (hf c List.mem_cons_self)
    · rintro ⟨hc, hL⟩
      rw [hc, hL]

end Foundation
