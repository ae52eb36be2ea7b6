import Klevret.Foundation.Outcome

/-! # Properties that a computation keeps

A property of the state is maintained by a computation if it holds afterwards
when it held before, whether the computation returns or stops. The rules follow
the way a computation is put together; what a lifted evaluation returns is known
to the rest.
-/

namespace Foundation

variable {σ τ α β : Type} {P : σ → Prop}

/-- The property holds of the state that is left, however the computation ends. -/
def Maintains (P : σ → Prop) (x : EStateM Stop σ α) : Prop :=
  ∀ s, P s → P (observe (x.run s)).2

namespace Maintains

theorem pure (a : α) : Maintains P (Pure.pure a : EStateM Stop σ α) := fun _ hs => hs

theorem throw (e : Stop) : Maintains P (MonadExcept.throw e : EStateM Stop σ α) := fun _ hs => hs

theorem lift (x : Exec α) : Maintains P (Exec.lift x : EStateM Stop σ α) := by
  cases x with
  | ok a => exact pure a
  | error e => exact throw e

theorem bind {x : EStateM Stop σ α} {f : α → EStateM Stop σ β} (hx : Maintains P x)
    (hf : ∀ a, Maintains P (f a)) : Maintains P (x >>= f) := by
  intro s hs
  have hx := hx s hs
  rw [EStateM.run_bind]
  cases h : x.run s with
  | ok a t =>
    rw [h] at hx
    exact hf a t hx
  | error e t =>
    rw [h] at hx
    exact hx

theorem lift_bind {x : Exec α} {f : α → EStateM Stop σ β}
    (hf : ∀ a, x = .ok a → Maintains P (f a)) : Maintains P (Exec.lift x >>= f) := by
  cases x with
  | ok a => exact hf a rfl
  | error e => exact fun _ hs => hs

theorem get_bind {f : σ → EStateM Stop σ β} (hf : ∀ s, P s → Maintains P (f s)) :
    Maintains P (get >>= f) := fun s hs => hf s hs s hs

theorem modify {f : σ → σ} (hf : ∀ s, P s → P (f s)) :
    Maintains P (modify f : EStateM Stop σ Unit) := fun s hs => hf s hs

theorem focus {part : τ} {put : τ → σ → σ} (hput : ∀ t s, P s → P (put t s))
    (x : EStateM Stop τ α) : Maintains P (Foundation.focus part put x) := by
  intro s hs
  rw [run_focus]
  cases x.run part with
  | ok a t => exact hput t s hs
  | error e t => exact hput t s hs

theorem of_run {x : EStateM Stop σ α} {s t : σ} {a : α} (hx : Maintains P x) (hs : P s)
    (h : x.run s = .ok a t) : P t := by
  have hx := hx s hs
  rwa [h] at hx

end Maintains

end Foundation
