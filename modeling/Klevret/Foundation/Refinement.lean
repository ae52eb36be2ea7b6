import Mathlib.Data.List.ReduceOption
import Klevret.Foundation.Run

/-! # Refinement and queues

A system refines another one when each of its steps with a visible label is a
step of the other, and each of its other steps leaves the state of the other one
as it is. It implements a system with internal steps when each of its steps is
matched by a run with the same event. A queue conveys items when each step takes
them from its front and puts them at its end. These facts are lifted from one
step to a run.
-/

namespace Foundation

variable {σ τ ℓ κ α : Type*}

/-- Related states stay related: a visible step is matched by one step with the label that is
seen, and any other step by none. -/
structure Simulates (step : σ → ℓ → σ → Prop) (step' : τ → κ → τ → Prop) (visible : ℓ → Option κ)
    (R : σ → τ → Prop) : Prop where
  matched {s t : σ} {s' : τ} {a : ℓ} {b : κ} : R s s' → step s a t → visible a = some b →
    ∃ t', step' s' b t' ∧ R t t'
  silent {s t : σ} {s' : τ} {a : ℓ} : R s s' → step s a t → visible a = none → R t s'

/-- The items that the labels of a trace stand for, in their order. -/
def itemsOf (items : ℓ → List α) (as : List ℓ) : List α := as.flatMap items

/-- Every step puts items at the end of the queue and takes items from its front. -/
def Conveys (step : σ → ℓ → σ → Prop) (queue : σ → List α) (put taken : ℓ → List α) : Prop :=
  ∀ {s a t}, step s a t → queue s ++ put a = taken a ++ queue t

variable {step : σ → ℓ → σ → Prop} {step' : τ → κ → τ → Prop} {visible : ℓ → Option κ}
  {R : σ → τ → Prop} {s t : σ} {s' : τ} {as bs : List ℓ}

/-- A run is matched by the run with the labels that are seen. -/
theorem Simulates.run (h : Simulates step step' visible R) (hr : Run step s as t) (hs : R s s') :
    ∃ t', Run step' s' (as.filterMap visible) t' ∧ R t t' := by
  induction hr generalizing s' with
  | nil s => exact ⟨s', .nil s', hs⟩
  | @cons s t u a as hst _ ih =>
    cases hv : visible a with
    | none =>
      rw [List.filterMap_cons_none hv]
      exact ih (h.silent hs hst hv)
    | some b =>
      obtain ⟨t', hst', ht⟩ := h.matched hs hst hv
      obtain ⟨u', hr', hu⟩ := ih ht
      rw [List.filterMap_cons_some hv]
      exact ⟨u', .cons hst' hr', hu⟩

section Events

variable {ω : Type*} {spec : τ → Option ω → τ → Prop} {event : ℓ → Option ω}

/-- Every step is matched by a run of the other system with the event of the step, if it has one,
and otherwise without an event. -/
def Implements (step : σ → ℓ → σ → Prop) (spec : τ → Option ω → τ → Prop) (event : ℓ → Option ω)
    (R : σ → τ → Prop) : Prop :=
  ∀ {s a t s'}, R s s' → step s a t →
    ∃ bs t', Run spec s' bs t' ∧ bs.reduceOption = (event a).toList ∧ R t t'

/-- A run is matched by a run with the same events. -/
theorem Implements.run (h : Implements step spec event R) (hr : Run step s as t) (hs : R s s') :
    ∃ bs t', Run spec s' bs t' ∧ bs.reduceOption = as.filterMap event ∧ R t t' := by
  induction hr generalizing s' with
  | nil s => exact ⟨[], s', .nil s', rfl, hs⟩
  | @cons s t u a as hst _ ih =>
    obtain ⟨bs, t', hrun, hevent, ht⟩ := h hs hst
    obtain ⟨cs, u', hrun', hevents, hu⟩ := ih ht
    refine ⟨bs ++ cs, u', hrun.append hrun', ?_, hu⟩
    rw [List.reduceOption_append, hevent, hevents]
    cases hv : event a with
    | none => rw [List.filterMap_cons_none hv]; rfl
    | some b => rw [List.filterMap_cons_some hv]; rfl

end Events

section Queues

variable {queue : σ → List α} {items put taken : ℓ → List α}

@[simp] theorem itemsOf_nil : itemsOf items [] = [] := rfl

@[simp] theorem itemsOf_cons (a : ℓ) : itemsOf items (a :: as) = items a ++ itemsOf items as :=
  List.flatMap_cons

@[simp] theorem itemsOf_append : itemsOf items (as ++ bs) = itemsOf items as ++ itemsOf items bs :=
  List.flatMap_append

/-- What was in the queue and what was put into it are what was taken and what is still there. -/
theorem Conveys.run (h : Conveys step queue put taken) (hr : Run step s as t) :
    queue s ++ itemsOf put as = itemsOf taken as ++ queue t := by
  induction hr with
  | nil => simp
  | @cons s t u a as hst _ ih =>
    calc queue s ++ itemsOf put (a :: as)
        = (queue s ++ put a) ++ itemsOf put as := by simp
      _ = taken a ++ (queue t ++ itemsOf put as) := by rw [h hst, List.append_assoc]
      _ = itemsOf taken (a :: as) ++ queue u := by rw [ih, itemsOf_cons, List.append_assoc]

end Queues

end Foundation
