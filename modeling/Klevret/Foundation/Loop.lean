import Klevret.Foundation.Outcome

/-! # Loops with early exit

A loop body takes a state either to the next state or to an exit value.
`iterate` runs it at most a given number of times and yields `none` while the
loop is still running. More fuel never changes an exit value; a decreasing
measure bounds the fuel, and an inescapable invariant rules every bound out.
A body that may stop is iterated with its stops as exits.
-/

namespace Foundation

section Iterate

variable {σ β : Type*}

/-- Run a loop body until it exits, at most the given number of times. -/
def iterate (body : σ → σ ⊕ β) : ℕ → σ → Option β
  | 0, _ => none
  | n + 1, s =>
    match body s with
    | .inl s' => iterate body n s'
    | .inr b => some b

variable {body : σ → σ ⊕ β} {s s' : σ} {b : β} {n : ℕ}

theorem iterate_next (h : body s = .inl s') : iterate body (n + 1) s = iterate body n s' := by
  simp [iterate, h]

theorem iterate_exit (h : body s = .inr b) : iterate body (n + 1) s = some b := by
  simp [iterate, h]

theorem iterate_mono (h : iterate body n s = some b) {m : ℕ} (hm : n ≤ m) :
    iterate body m s = some b := by
  induction n generalizing s m with
  | zero => simp [iterate] at h
  | succ n ih =>
    obtain ⟨m, rfl⟩ : ∃ k, m = k + 1 := ⟨m - 1, by omega⟩
    cases hb : body s with
    | inl t =>
      rw [iterate_next hb] at h ⊢
      exact ih h (by omega)
    | inr c => rwa [iterate_exit hb] at h ⊢

/-- The exit value does not depend on the fuel. -/
theorem iterate_unique {m : ℕ} {c : β} (h : iterate body n s = some b)
    (h' : iterate body m s = some c) : b = c := by
  rcases Nat.le_total n m with hm | hm
  · exact Option.some.inj ((iterate_mono h hm).symm.trans h')
  · exact Option.some.inj (h.symm.trans (iterate_mono h' hm))

/-- The invariant rule: what the body preserves holds whenever the loop exits. -/
theorem iterate_invariant {I : σ → Prop} {Q : β → Prop}
    (hstep : ∀ s s', I s → body s = .inl s' → I s') (hexit : ∀ s b, I s → body s = .inr b → Q b)
    (hs : I s) (h : iterate body n s = some b) : Q b := by
  induction n generalizing s with
  | zero => simp [iterate] at h
  | succ n ih =>
    cases hb : body s with
    | inl t =>
      rw [iterate_next hb] at h
      exact ih (hstep _ _ hs hb) h
    | inr c =>
      rw [iterate_exit hb] at h
      obtain rfl := Option.some.inj h
      exact hexit _ _ hs hb

/-- A loop never exits from an invariant that its body keeps and that rules an exit out. -/
theorem iterate_eq_none {I : σ → Prop} (hstep : ∀ s s', I s → body s = .inl s' → I s')
    (hexit : ∀ s b, I s → body s ≠ .inr b) (hs : I s) : iterate body n s = none := by
  rw [Option.eq_none_iff_forall_ne_some]
  intro b h
  exact iterate_invariant (Q := fun _ => False) hstep (fun s b hI hb => hexit s b hI hb) hs h

/-- A measure that every continuing pass lowers bounds the number of passes. -/
theorem iterate_terminates {I : σ → Prop} (μ : σ → ℕ)
    (hstep : ∀ s s', I s → body s = .inl s' → I s' ∧ μ s' < μ s) (hs : I s) (hn : μ s < n) :
    ∃ b, iterate body n s = some b := by
  induction n generalizing s with
  | zero => omega
  | succ n ih =>
    cases hb : body s with
    | inl t =>
      obtain ⟨ht, hlt⟩ := hstep _ _ hs hb
      rw [iterate_next hb]
      exact ih ht (by omega)
    | inr c => exact ⟨c, iterate_exit hb⟩

end Iterate

section Loop

variable {σ β : Type}

/-- A body that may stop, with its stops as exits. -/
def attempt (body : σ → Exec (σ ⊕ β)) (s : σ) : σ ⊕ Exec β :=
  match body s with
  | .ok (.inl s') => .inl s'
  | .ok (.inr b) => .inr (.ok b)
  | .error e => .inr (.error e)

/-- Run a loop of a program, with the given fuel. -/
def loop (body : σ → Exec (σ ⊕ β)) (n : ℕ) (s : σ) : Exec β :=
  (iterate (attempt body) n s).getD (.error .outOfFuel)

variable {body : σ → Exec (σ ⊕ β)} {s s' : σ} {b : β} {e : Stop} {n : ℕ}

theorem attempt_eq_inl : attempt body s = .inl s' ↔ body s = .ok (.inl s') := by
  unfold attempt
  cases body s with
  | error e => simp
  | ok r => cases r <;> simp

theorem attempt_exit (h : body s = .ok (.inr b)) : attempt body s = .inr (.ok b) := by
  simp [attempt, h]

theorem attempt_stop (h : body s = .error e) : attempt body s = .inr (.error e) := by
  simp [attempt, h]

theorem attempt_eq_inr {x : Exec β} (h : attempt body s = .inr x) :
    (∃ b, x = .ok b ∧ body s = .ok (.inr b)) ∨ ∃ e, x = .error e ∧ body s = .error e := by
  unfold attempt at h
  cases hb : body s with
  | error e =>
    simp only [hb, Sum.inr.injEq] at h
    exact Or.inr ⟨e, h.symm, rfl⟩
  | ok r =>
    cases r with
    | inl t => simp [hb] at h
    | inr b =>
      simp only [hb, Sum.inr.injEq] at h
      exact Or.inl ⟨b, h.symm, rfl⟩

/-- A loop that ends with some fuel ends the same way with any fuel that lets it end. -/
theorem loop_eq {m : ℕ} {x y : Exec β} (h : iterate (attempt body) n s = some x)
    (h' : iterate (attempt body) m s = some y) : loop body n s = y := by
  rw [loop, h]
  exact iterate_unique h h'

theorem loop_invariant {I : σ → Prop} {Q : β → Prop}
    (hstep : ∀ s s', I s → body s = .ok (.inl s') → I s')
    (hexit : ∀ s b, I s → body s = .ok (.inr b) → Q b) (hs : I s)
    (h : loop body n s = .ok b) : Q b := by
  cases hi : iterate (attempt body) n s with
  | none => simp [loop, hi] at h
  | some x =>
    obtain rfl : x = .ok b := by simpa [loop, hi] using h
    refine iterate_invariant (I := I) (Q := fun x => ∀ b, x = .ok b → Q b) ?_ ?_ hs hi b rfl
    · intro s s' hI hb
      exact hstep s s' hI (attempt_eq_inl.mp hb)
    · rintro s x hI hb b rfl
      rcases attempt_eq_inr hb with ⟨b', hx, hbody⟩ | ⟨e, hx, -⟩
      · obtain rfl := Except.ok.inj hx
        exact hexit s b hI hbody
      · simp at hx

end Loop

end Foundation
