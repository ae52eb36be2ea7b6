import Mathlib.Data.Nat.Notation
import Mathlib.Tactic.Common

/-! # Outcomes of partial code

An evaluation yields a value or stops: by a thrown exception, by an access whose
behaviour is undefined, or by running out of the fuel given to a loop.
-/

namespace Foundation

/-- The exceptions of the standard library that evaluations raise. -/
inductive Exception where
  | runtimeError (what : String)
  /-- A `runtime_error` built from the tail of a string literal at a byte offset. -/
  | runtimeErrorTail (literal : String) (offset : ℕ)
  | outOfRange
  | badVariantAccess
  deriving DecidableEq, Repr

/-- The ways in which an evaluation ends without a value. -/
inductive Stop where
  | throws (e : Exception)
  | undefined
  | outOfFuel
  deriving DecidableEq, Repr

abbrev Exec := Except Stop

def throwRuntimeError {α : Type} (what : String) : Exec α :=
  .error (.throws (.runtimeError what))

namespace Exec

variable {α β : Type}

@[simp] theorem bind_eq_ok {x : Exec α} {f : α → Exec β} {b : β} :
    x >>= f = .ok b ↔ ∃ a, x = .ok a ∧ f a = .ok b := by
  cases x with
  | error e => simp [bind, Except.bind]
  | ok a => simp [bind, Except.bind]

@[simp] theorem ok_bind (a : α) (f : α → Exec β) : (Except.ok a : Exec α) >>= f = f a := rfl

@[simp] theorem error_bind (e : Stop) (f : α → Exec β) :
    (Except.error e : Exec α) >>= f = .error e := rfl

@[simp] theorem map_ok (f : α → β) (a : α) : f <$> (Except.ok a : Exec α) = .ok (f a) := rfl

@[simp] theorem map_error (f : α → β) (e : Stop) :
    f <$> (Except.error e : Exec α) = .error e := rfl

@[simp] theorem map_eq_ok {x : Exec α} {f : α → β} {b : β} :
    f <$> x = .ok b ↔ ∃ a, x = .ok a ∧ f a = b := by
  cases x <;> simp

@[simp] theorem pure_eq_ok (a : α) : (pure a : Exec α) = .ok a := rfl

@[simp] theorem throwRuntimeError_bind (what : String) (f : α → Exec β) :
    throwRuntimeError what >>= f = throwRuntimeError what := rfl

@[simp] theorem throwRuntimeError_ne_ok {what : String} {a : α} :
    (throwRuntimeError what : Exec α) ≠ .ok a := by
  simp [throwRuntimeError]

/-- A computation over a list ends with a value exactly when it does on every item. -/
theorem exists_mapM_ok {f : α → Exec β} {l : List α} :
    (∃ bs, l.mapM f = .ok bs) ↔ ∀ a ∈ l, ∃ b, f a = .ok b := by
  induction l with
  | nil => simp
  | cons a l ih =>
    rw [List.forall_mem_cons, ← ih]
    constructor
    · rintro ⟨bs, h⟩
      rw [List.mapM_cons] at h
      obtain ⟨b, hb, h⟩ := bind_eq_ok.mp h
      obtain ⟨bs', hbs, -⟩ := bind_eq_ok.mp h
      exact ⟨⟨b, hb⟩, bs', hbs⟩
    · rintro ⟨⟨b, hb⟩, bs, hbs⟩
      exact ⟨b :: bs, by rw [List.mapM_cons, hb, ok_bind, hbs]; rfl⟩

/-- Dereference a pointer, which may be null. -/
def pointee : Option α → Exec α
  | some a => .ok a
  | none => .error .undefined

@[simp] theorem pointee_eq_ok {o : Option α} {a : α} : pointee o = .ok a ↔ o = some a := by
  cases o <;> simp [pointee]

/-- The evaluation touches nothing outside its buffers. -/
def Defined (x : Exec α) : Prop := x ≠ .error .undefined

@[simp] theorem defined_ok (a : α) : Defined (.ok a : Exec α) := by simp [Defined]

@[simp] theorem defined_throws (e : Exception) : Defined (.error (.throws e) : Exec α) := by
  simp [Defined]

@[simp] theorem not_defined_undefined : ¬ Defined (.error .undefined : Exec α) := by
  simp [Defined]

@[simp] theorem defined_throwRuntimeError (what : String) :
    Defined (throwRuntimeError what : Exec α) := by simp [throwRuntimeError]

@[simp] theorem defined_map {x : Exec α} {f : α → β} : Defined (f <$> x) ↔ Defined x := by
  cases x <;> simp [Defined]

/-- The evaluation ends with an exception. -/
def Throws (x : Exec α) : Prop := ∃ e, x = .error (.throws e)

@[simp] theorem not_throws_ok (a : α) : ¬ Throws (.ok a : Exec α) := by simp [Throws]

@[simp] theorem throws_throws (e : Exception) : Throws (.error (.throws e) : Exec α) := ⟨e, rfl⟩

/-- Run an evaluation inside a computation with state. -/
def lift {σ : Type} (x : Exec α) : EStateM Stop σ α :=
  match x with
  | .ok a => pure a
  | .error e => throw e

@[simp] theorem run_lift_ok {σ : Type} (a : α) (s : σ) :
    (lift (.ok a) : EStateM Stop σ α).run s = .ok a s := rfl

@[simp] theorem run_lift_error {σ : Type} (e : Stop) (s : σ) :
    (lift (.error e : Exec α) : EStateM Stop σ α).run s = .error e s := rfl

end Exec

section Raise

variable {α : Type}

def raise {σ : Type} (what : String) : EStateM Stop σ α :=
  throw (.throws (.runtimeError what))

@[simp] theorem run_raise {σ : Type} (what : String) (s : σ) :
    (raise what : EStateM Stop σ α).run s = .error (.throws (.runtimeError what)) s := rfl

@[simp] theorem run_map {σ β : Type} (f : α → β) (x : EStateM Stop σ α) (s : σ) :
    (f <$> x).run s =
      match x.run s with
      | .ok a t => .ok (f a) t
      | .error e t => .error e t := by
  rw [← bind_pure_comp, EStateM.run_bind]
  cases x.run s <;> rfl

/-- Run a computation on a part of a state, which is put back in either case. -/
def focus {σ τ : Type} (part : τ) (put : τ → σ → σ) (x : EStateM Stop τ α) : EStateM Stop σ α :=
  fun s =>
    match x.run part with
    | .ok a t => .ok a (put t s)
    | .error e t => .error e (put t s)

theorem run_focus {σ τ : Type} (part : τ) (put : τ → σ → σ) (x : EStateM Stop τ α) (s : σ) :
    (focus part put x).run s =
      match x.run part with
      | .ok a t => .ok a (put t s)
      | .error e t => .error e (put t s) := rfl

/-- `try` around statements and `catch (...)`: an exception ends them, and the state stays as they
left it. -/
def catchAll {σ : Type} (x : EStateM Stop σ Unit) : EStateM Stop σ Unit :=
  fun s =>
    match x.run s with
    | .error (.throws _) t => .ok () t
    | r => r

theorem run_catchAll {σ : Type} (x : EStateM Stop σ Unit) (s : σ) :
    (catchAll x).run s =
      match x.run s with
      | .error (.throws _) t => .ok () t
      | r => r := rfl

theorem run_catchAll_ok {σ : Type} {x : EStateM Stop σ Unit} {s t : σ} (h : x.run s = .ok () t) :
    (catchAll x).run s = .ok () t := by
  rw [run_catchAll, h]

theorem run_catchAll_error {σ : Type} {x : EStateM Stop σ Unit} {s t : σ} {e : Stop}
    (h : x.run s = .error e t) :
    (catchAll x).run s = .ok () t ∨ (catchAll x).run s = .error e t := by
  rw [run_catchAll, h]
  cases e with
  | throws e => exact Or.inl rfl
  | undefined => exact Or.inr rfl
  | outOfFuel => exact Or.inr rfl

section ForM

variable {σ ι : Type} {f : ι → EStateM Stop σ Unit} {i : ι} {s t : σ}

theorem run_forM_cons_ok (is : List ι) (h : (f i).run s = .ok () t) :
    ((i :: is).forM f).run s = (is.forM f).run t := by
  simp [List.forM_cons, h]

theorem run_forM_cons_error (is : List ι) {e : Stop} (h : (f i).run s = .error e t) :
    ((i :: is).forM f).run s = .error e t := by
  simp [List.forM_cons, h]

end ForM

/-- What a computation did: its outcome and the state it left. -/
def observe {σ : Type} : EStateM.Result Stop σ α → Exec α × σ
  | .ok a s => (.ok a, s)
  | .error e s => (.error e, s)

theorem observe_eq_ok {σ : Type} {r : EStateM.Result Stop σ α} {a : α} {s : σ} :
    observe r = (.ok a, s) ↔ r = .ok a s := by
  cases r <;> simp [observe]

end Raise

end Foundation
