import Klevret.Foundation.Refinement

/-! # Progress of a queue

Some steps of a system are turns of the process that takes items from the front
of a queue. The distance counts the turns up to the next item. If every turn
comes nearer while items wait, the others cannot hold up an item for longer than
the bound on the distance.
-/

namespace Foundation

variable {σ ℓ α : Type*} {step : σ → ℓ → σ → Prop} {queue : σ → List α} {put taken : ℓ → List α}
  {s t : σ} {as : List ℓ}

/-- What the turns of a process do to its distance from the next item. -/
structure Paced (step : σ → ℓ → σ → Prop) (queue : σ → List α) (taken : ℓ → List α)
    (turn : ℓ → Bool) (distance : σ → ℕ) (bound : ℕ) (I : σ → Prop) : Prop where
  keeps : ∀ {s a t}, I s → step s a t → I t
  nearer : ∀ {s a t}, I s → queue s ≠ [] → step s a t →
    (if turn a then 1 else 0) + distance t ≤ distance s + bound * (taken a).length
  pos : ∀ s, 0 < distance s
  le : ∀ s, distance s ≤ bound

variable {turn : ℓ → Bool} {distance : σ → ℕ} {bound : ℕ} {I : σ → Prop}

/-- While items are left, each turn is paid for by the distance or by an item. -/
theorem Paced.amortized (h : Paced step queue taken turn distance bound I)
    (hqueue : Conveys step queue put taken) (hr : Run step s as t) (hs : I s)
    (hleft : (itemsOf taken as).length < (queue s).length) :
    as.countP turn + distance t ≤ distance s + bound * (itemsOf taken as).length := by
  induction hr with
  | nil => simp
  | @cons s t u a as hst _ ih =>
    rw [itemsOf_cons, List.length_append] at hleft ⊢
    have hitems := congrArg List.length (hqueue hst)
    rw [List.length_append, List.length_append] at hitems
    have hne : queue s ≠ [] := List.ne_nil_of_length_pos (by omega)
    have hfirst := h.nearer hs hne hst
    have hrest := ih (h.keeps hs hst) (by omega)
    rw [List.countP_cons, Nat.mul_add]
    omega

/-- Within the bound for each of them, the items that wait are taken in their order. -/
theorem Paced.taken_of_turns (h : Paced step queue taken turn distance bound I)
    (hqueue : Conveys step queue put taken) (hr : Run step s as t) (hs : I s) {n : ℕ}
    (hn : n ≤ (queue s).length) (hturns : bound * n ≤ as.countP turn) :
    (queue s).take n <+: itemsOf taken as := by
  have hlength : n ≤ (itemsOf taken as).length := by
    by_contra hfew
    have hpaid := h.amortized hqueue hr hs (by omega)
    have hmul : bound * ((itemsOf taken as).length + 1) ≤ bound * n :=
      Nat.mul_le_mul_left bound (by omega)
    rw [Nat.mul_succ] at hmul
    have hpos := h.pos t
    have hle := h.le s
    omega
  have hitems := hqueue.run hr
  have hfirst : (queue s).take n <+: itemsOf taken as ++ queue t := by
    rw [← hitems]
    exact (List.take_prefix n _).trans (List.prefix_append _ _)
  refine List.prefix_of_prefix_length_le hfirst (List.prefix_append _ _) ?_
  rw [List.length_take]
  omega

end Foundation
