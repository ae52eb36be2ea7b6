import Mathlib.Data.List.Basic

/-! # Labelled transition systems and their runs

A system is a relation `step s a t` between a state, a label and a next state.
A run is a finite sequence of steps; its labels form the trace. Invariants and
side conditions on steps are lifted here from one step to a whole run.
-/

namespace Foundation

variable {σ ℓ : Type*}

/-- A finite run from the first state to the last, with the labels of its steps. -/
inductive Run (step : σ → ℓ → σ → Prop) : σ → List ℓ → σ → Prop
  | nil (s : σ) : Run step s [] s
  | cons {s t u : σ} {a : ℓ} {as : List ℓ} :
      step s a t → Run step t as u → Run step s (a :: as) u

/-- The system whose steps also meet a condition on the state before the step and its label. -/
def Guarded (step : σ → ℓ → σ → Prop) (C : σ → ℓ → Prop) (s : σ) (a : ℓ) (t : σ) : Prop :=
  step s a t ∧ C s a

/-- Each next state is determined by the state and the label. -/
def Deterministic (step : σ → ℓ → σ → Prop) : Prop :=
  ∀ s a t t', step s a t → step s a t' → t = t'

section Calls

variable {ι ω : Type*}

/-- The system of the calls of a machine: a label is a call with its outcome. -/
def Calls (exec : σ → ι → ω × σ) (s : σ) (label : ι × ω) (t : σ) : Prop :=
  exec s label.1 = (label.2, t)

theorem deterministic_calls (exec : σ → ι → ω × σ) : Deterministic (Calls exec) := by
  intro s label t t' h h'
  exact congrArg Prod.snd (h.symm.trans h')

/-- Perform calls one after the other. -/
def replay (exec : σ → ι → ω × σ) : σ → List ι → List (ι × ω) × σ
  | s, [] => ([], s)
  | s, op :: ops =>
    let (outcome, t) := exec s op
    let (labels, u) := replay exec t ops
    ((op, outcome) :: labels, u)

theorem run_replay (exec : σ → ι → ω × σ) (s : σ) (ops : List ι) :
    Run (Calls exec) s (replay exec s ops).1 (replay exec s ops).2 := by
  induction ops generalizing s with
  | nil => exact .nil s
  | cons op ops ih => exact .cons rfl (ih (exec s op).2)

@[simp] theorem length_replay (exec : σ → ι → ω × σ) (s : σ) (ops : List ι) :
    (replay exec s ops).1.length = ops.length := by
  induction ops generalizing s with
  | nil => rfl
  | cons op ops ih => simp [replay, ih]

theorem replay_concat (exec : σ → ι → ω × σ) (s : σ) (ops : List ι) (op : ι) :
    replay exec s (ops ++ [op]) =
      ((replay exec s ops).1 ++ [(op, (exec (replay exec s ops).2 op).1)],
        (exec (replay exec s ops).2 op).2) := by
  induction ops generalizing s with
  | nil => rfl
  | cons op' ops ih => simp only [List.cons_append, replay, ih]

theorem mem_of_mem_replay {exec : σ → ι → ω × σ} {s : σ} {ops : List ι} {label : ι × ω}
    (h : label ∈ (replay exec s ops).1) : label.1 ∈ ops := by
  induction ops generalizing s with
  | nil => simp [replay] at h
  | cons op ops ih =>
    rcases List.mem_cons.mp h with rfl | h
    · exact List.mem_cons_self
    · exact List.mem_cons_of_mem _ (ih h)

end Calls

namespace Run

variable {step step' : σ → ℓ → σ → Prop} {s t u : σ} {a : ℓ} {as bs : List ℓ}

theorem single (h : step s a t) : Run step s [a] t := .cons h (.nil t)

theorem append (h : Run step s as t) (h' : Run step t bs u) : Run step s (as ++ bs) u := by
  induction h with
  | nil => exact h'
  | cons hs _ ih => exact .cons hs (ih h')

theorem snoc (h : Run step s as t) (h' : step t a u) : Run step s (as ++ [a]) u :=
  h.append (single h')

theorem split (h : Run step s (as ++ bs) u) : ∃ t, Run step s as t ∧ Run step t bs u := by
  induction as generalizing s with
  | nil => exact ⟨s, .nil s, h⟩
  | cons a as ih =>
    cases h with
    | cons hs hr =>
      obtain ⟨t, h₁, h₂⟩ := ih hr
      exact ⟨t, .cons hs h₁, h₂⟩

theorem split_cons (h : Run step s (as ++ a :: bs) u) :
    ∃ t t', Run step s as t ∧ step t a t' ∧ Run step t' bs u := by
  obtain ⟨t, h₁, h₂⟩ := h.split
  cases h₂ with
  | cons hs hr => exact ⟨t, _, h₁, hs, hr⟩

theorem exists_step (h : Run step s as u) (ha : a ∈ as) :
    ∃ bs cs t t', as = bs ++ a :: cs ∧ Run step s bs t ∧ step t a t' ∧ Run step t' cs u := by
  obtain ⟨bs, cs, rfl⟩ := List.append_of_mem ha
  obtain ⟨t, t', h₁, hs, h₂⟩ := h.split_cons
  exact ⟨bs, cs, t, t', rfl, h₁, hs, h₂⟩

theorem mono (hsub : ∀ s a t, step s a t → step' s a t) (h : Run step s as t) :
    Run step' s as t := by
  induction h with
  | nil => exact .nil _
  | cons hs _ ih => exact .cons (hsub _ _ _ hs) ih

/-- What every step preserves holds at the end of every run that starts with it. -/
theorem invariant {I : σ → Prop} (hI : ∀ s a t, I s → step s a t → I t)
    (h : Run step s as t) (hs : I s) : I t := by
  induction h with
  | nil => exact hs
  | cons hst _ ih => exact ih (hI _ _ _ hs hst)

theorem history_append {I : List ℓ → σ → Prop}
    (hI : ∀ as t a u, I as t → step t a u → I (as ++ [a]) u) (h : Run step s as t)
    (hs : I bs s) : I (bs ++ as) t := by
  induction h generalizing bs with
  | nil => rwa [List.append_nil]
  | cons hst _ ih =>
    rw [List.append_cons]
    exact ih (hI _ _ _ _ hs hst)

theorem history {I : List ℓ → σ → Prop} (hI : ∀ as t a u, I as t → step t a u → I (as ++ [a]) u)
    (h : Run step s as t) (hs : I [] s) : I as t :=
  h.history_append hI hs

/-- The steps with such labels leave the state as it is, so a run does without them. -/
theorem filter {keep : ℓ → Bool} (hskip : ∀ s a t, step s a t → keep a = false → t = s)
    (h : Run step s as t) : Run step s (as.filter keep) t := by
  induction h with
  | nil s => exact .nil s
  | @cons s t u a as hs _ ih =>
    cases hk : keep a with
    | true =>
      rw [List.filter_cons_of_pos hk]
      exact .cons hs ih
    | false =>
      obtain rfl := hskip _ _ _ hs hk
      rw [List.filter_cons_of_neg (by simp [hk])]
      exact ih

theorem deterministic (hd : Deterministic step) (h : Run step s as t) (h' : Run step s as u) :
    t = u := by
  induction h with
  | nil => cases h'; rfl
  | cons hs _ ih =>
    cases h' with
    | cons hs' hr' =>
      obtain rfl := hd _ _ _ _ hs hs'
      exact ih hr'

theorem of_guarded {C : σ → ℓ → Prop} (h : Run (Guarded step C) s as t) : Run step s as t :=
  h.mono fun _ _ _ hs => hs.1

theorem guarded_of_forall {C : ℓ → Prop} (h : Run step s as t) (hC : ∀ a ∈ as, C a) :
    Run (Guarded step fun _ => C) s as t := by
  induction h with
  | nil s => exact .nil s
  | cons hs _ ih =>
    rw [List.forall_mem_cons] at hC
    exact .cons ⟨hs, hC.1⟩ (ih hC.2)

theorem guarded_or_first (C : σ → ℓ → Prop) (h : Run step s as u) :
    Run (Guarded step C) s as u ∨
      ∃ bs a cs t t', as = bs ++ a :: cs ∧ Run (Guarded step C) s bs t ∧ step t a t' ∧ ¬ C t a ∧
        Run step t' cs u := by
  induction h with
  | nil s => exact Or.inl (.nil s)
  | @cons s t u a as hs hr ih =>
    by_cases hc : C s a
    · rcases ih with hg | ⟨bs, b, cs, v, v', rfl, hg, hst, hn, hr'⟩
      · exact Or.inl (.cons ⟨hs, hc⟩ hg)
      · exact Or.inr ⟨a :: bs, b, cs, v, v', rfl, .cons ⟨hs, hc⟩ hg, hst, hn, hr'⟩
    · exact Or.inr ⟨[], a, as, s, t, rfl, .nil s, hs, hc, hr⟩

/-- If the condition carries the property and its first breach destroys it, then a run visits
only states with the property exactly when all its steps meet the condition. -/
theorem always_iff_guarded {C : σ → ℓ → Prop} {P : σ → Prop}
    (hkeep : ∀ bs v, Run (Guarded step C) s bs v → P v)
    (hbreak : ∀ bs v a v', Run (Guarded step C) s bs v → step v a v' → ¬ C v a → ¬ P v')
    (hd : Deterministic step) (h : Run step s as u) :
    (∀ bs cs v, as = bs ++ cs → Run step s bs v → P v) ↔ Run (Guarded step C) s as u := by
  constructor
  · intro hP
    rcases h.guarded_or_first C with hg | ⟨bs, a, cs, t, t', rfl, hg, hst, hn, _⟩
    · exact hg
    · exact absurd (hP (bs ++ [a]) cs t' (by simp) (hg.of_guarded.snoc hst))
        (hbreak _ _ _ _ hg hst hn)
  · rintro hg bs cs v rfl hv
    obtain ⟨w, hw, _⟩ := hg.split
    obtain rfl := deterministic hd hv hw.of_guarded
    exact hkeep _ _ hw

end Run

end Foundation
