import Mathlib.Data.List.Basic

/-! # Editing a line at a cursor

The state of an editor is the text before and after its cursor, so an edit only
looks at the ends that meet there.
-/

namespace Foundation

/-- The text before the cursor, the nearest letter first, and the text after it. -/
@[ext]
structure Editor (α : Type*) where
  before : List α
  after : List α
  deriving DecidableEq, Repr

namespace Editor

variable {α : Type*} (editor : Editor α) (a : α)

def text : List α := editor.before.reverse ++ editor.after

def position : ℕ := editor.before.length

def empty : Editor α := ⟨[], []⟩

def insert : Editor α := ⟨a :: editor.before, editor.after⟩

def erase : Editor α := ⟨editor.before.tail, editor.after⟩

def left : Editor α :=
  match editor.before with
  | [] => editor
  | a :: before => ⟨before, a :: editor.after⟩

def right : Editor α :=
  match editor.after with
  | [] => editor
  | a :: after => ⟨a :: editor.before, after⟩

theorem length_text : editor.text.length = editor.position + editor.after.length := by
  simp [text, position]

theorem position_le : editor.position ≤ editor.text.length := by
  rw [length_text]
  exact Nat.le_add_right _ _

@[simp] theorem position_erase : editor.erase.position = editor.position - 1 := List.length_tail

@[simp] theorem text_left : editor.left.text = editor.text := by
  obtain ⟨_ | ⟨a, before⟩, after⟩ := editor <;> simp [left, text]

@[simp] theorem position_left : editor.left.position = editor.position - 1 := by
  obtain ⟨_ | ⟨a, before⟩, after⟩ := editor <;> simp [left, position]

@[simp] theorem text_right : editor.right.text = editor.text := by
  obtain ⟨before, _ | ⟨a, after⟩⟩ := editor <;> simp [right, text]

theorem position_right : editor.right.position =
    if editor.position < editor.text.length then editor.position + 1 else editor.position := by
  rw [length_text]
  obtain ⟨before, _ | ⟨a, after⟩⟩ := editor <;> simp [right, position]

theorem text_erase (h : editor.position ≠ 0) :
    editor.erase.text = editor.text.eraseIdx (editor.position - 1) := by
  obtain ⟨_ | ⟨a, before⟩, after⟩ := editor
  · exact absurd rfl h
  · simp [erase, text, position, List.eraseIdx_append_of_length_le]

theorem erase_of_position (h : editor.position = 0) : editor.erase = editor := by
  obtain ⟨before, after⟩ := editor
  obtain rfl := List.length_eq_zero_iff.mp h
  rfl

theorem cons_eq_concat_iff {l : List α} : a :: l = l ++ [a] ↔ ∀ b ∈ l, b = a := by
  induction l with
  | nil => simp
  | cons b l ih =>
    rw [List.forall_mem_cons, ← ih, List.cons_append, List.cons.injEq]
    constructor
    · rintro ⟨rfl, h⟩
      exact ⟨rfl, h⟩
    · rintro ⟨rfl, h⟩
      exact ⟨rfl, h⟩

theorem text_insert_eq_iff :
    (editor.insert a).text = editor.text ++ [a] ↔ ∀ b ∈ editor.after, b = a := by
  rw [← cons_eq_concat_iff]
  simp [insert, text]

end Editor

end Foundation
