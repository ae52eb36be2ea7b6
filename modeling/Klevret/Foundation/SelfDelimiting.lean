import Mathlib.Data.List.Basic
import Mathlib.Tactic.Common

/-! # Self-delimiting encodings

An encoding from which the value and what follows it can be read. No encoding is
a part of another one, so a reader of whole documents accepts neither a part of a
document nor a document that something follows.
-/

namespace Foundation

structure SelfDelimiting (ε α : Type) where
  encode : α → List ε
  decode : List ε → Option (α × List ε)
  decode_encode (a : α) (rest : List ε) : decode (encode a ++ rest) = some (a, rest)

namespace SelfDelimiting

variable {ε α β : Type}

section Combinators

def pair (c : SelfDelimiting ε α) (d : SelfDelimiting ε β) : SelfDelimiting ε (α × β) where
  encode p := c.encode p.1 ++ d.encode p.2
  decode symbols := do
    let (a, symbols) ← c.decode symbols
    let (b, rest) ← d.decode symbols
    return ((a, b), rest)
  decode_encode p rest := by simp [c.decode_encode, d.decode_encode]

/-- Values that can be computed back from values with an encoding. -/
def via (c : SelfDelimiting ε α) (f : β → α) (g : α → β) (h : ∀ b, g (f b) = b) :
    SelfDelimiting ε β where
  encode b := c.encode (f b)
  decode symbols := do
    let (a, rest) ← c.decode symbols
    return (g a, rest)
  decode_encode b rest := by simp [c.decode_encode, h]

variable [DecidableEq ε]

theorem isPrefixOf?_append (text rest : List ε) : text.isPrefixOf? (text ++ rest) = some rest := by
  induction text with
  | nil => rfl
  | cons a text ih => simp [List.isPrefixOf?, ih]

def between (c : SelfDelimiting ε α) (before after : List ε) : SelfDelimiting ε α where
  encode a := before ++ (c.encode a ++ after)
  decode symbols := do
    let symbols ← before.isPrefixOf? symbols
    let (a, symbols) ← c.decode symbols
    let rest ← after.isPrefixOf? symbols
    return (a, rest)
  decode_encode a rest := by
    simp [List.append_assoc, isPrefixOf?_append, c.decode_encode]

/-- Every encoding starts with a symbol, and with another one than this. -/
def Avoids (c : SelfDelimiting ε α) (stop : ε) : Prop :=
  ∀ a, ∃ x symbols, c.encode a = x :: symbols ∧ x ≠ stop

theorem avoids_between (c : SelfDelimiting ε α) {x stop : ε} (hne : x ≠ stop)
    (before after : List ε) : (c.between (x :: before) after).Avoids stop :=
  fun _ => ⟨x, _, rfl, hne⟩

/-- One value or none, which a symbol stands for. -/
def optional (c : SelfDelimiting ε α) (stop : ε) (hc : c.Avoids stop) :
    SelfDelimiting ε (Option α) where
  encode
    | none => [stop]
    | some a => c.encode a
  decode
    | [] => none
    | x :: symbols =>
      if x = stop then some (none, symbols)
      else do
        let (a, rest) ← c.decode (x :: symbols)
        return (some a, rest)
  decode_encode value rest := by
    cases value with
    | none => simp
    | some a =>
      have hd := c.decode_encode a rest
      obtain ⟨x, symbols, hx, hne⟩ := hc a
      rw [hx, List.cons_append] at hd
      simp [hx, hne, hd]

/-- The values one after the other, up to a symbol that none starts with. -/
def encodeItems (c : SelfDelimiting ε α) (stop : ε) : List α → List ε
  | [] => [stop]
  | a :: as => c.encode a ++ encodeItems c stop as

def decodeItems (c : SelfDelimiting ε α) (stop : ε) : ℕ → List ε → Option (List α × List ε)
  | 0, _ => none
  | _ + 1, [] => none
  | n + 1, x :: symbols =>
    if x = stop then some ([], symbols)
    else do
      let (a, symbols) ← c.decode (x :: symbols)
      let (as, rest) ← decodeItems c stop n symbols
      return (a :: as, rest)

omit [DecidableEq ε] in
theorem length_encodeItems {c : SelfDelimiting ε α} {stop : ε} (hc : c.Avoids stop)
    (as : List α) : as.length < (encodeItems c stop as).length := by
  induction as with
  | nil => simp [encodeItems]
  | cons a as ih =>
    obtain ⟨x, symbols, hx, -⟩ := hc a
    simp only [encodeItems, hx, List.length_cons, List.length_append]
    omega

theorem decodeItems_encodeItems {c : SelfDelimiting ε α} {stop : ε} (hc : c.Avoids stop) {n : ℕ}
    (as : List α) (rest : List ε) (hn : as.length < n) :
    decodeItems c stop n (encodeItems c stop as ++ rest) = some (as, rest) := by
  induction as generalizing n with
  | nil =>
    obtain ⟨n, rfl⟩ := Nat.exists_eq_succ_of_ne_zero (Nat.ne_zero_of_lt hn)
    simp [encodeItems, decodeItems]
  | cons a as ih =>
    obtain ⟨n, rfl⟩ := Nat.exists_eq_succ_of_ne_zero (Nat.ne_zero_of_lt hn)
    have hd := c.decode_encode a (encodeItems c stop as ++ rest)
    obtain ⟨x, symbols, hx, hne⟩ := hc a
    rw [hx, List.cons_append] at hd
    simp [encodeItems, decodeItems, hx, hne, hd, ih (Nat.lt_of_succ_lt_succ hn)]

def items (c : SelfDelimiting ε α) (stop : ε) (hc : c.Avoids stop) :
    SelfDelimiting ε (List α) where
  encode := encodeItems c stop
  decode symbols := decodeItems c stop symbols.length symbols
  decode_encode as rest := by
    apply decodeItems_encodeItems hc
    rw [List.length_append]
    exact Nat.lt_add_right _ (length_encodeItems hc as)

end Combinators

section Documents

variable [DecidableEq ε] (c : SelfDelimiting ε α) {a b : α} {part rest : List ε}

/-- The value of a whole document. -/
def read (symbols : List ε) : Option α :=
  match c.decode symbols with
  | some (a, []) => if c.encode a = symbols then some a else none
  | _ => none

theorem read_encode (a : α) : c.read (c.encode a) = some a := by
  have h := c.decode_encode a []
  rw [List.append_nil] at h
  simp [read, h]

theorem encode_of_read (h : c.read part = some a) : c.encode a = part := by
  unfold read at h
  split at h
  · split_ifs at h with he
    rw [← Option.some.inj h, he]
  · cases h

theorem eq_of_read_part (h : c.read part = some b) (hpart : part <+: c.encode a) :
    part = c.encode a := by
  obtain ⟨rest, hrest⟩ := hpart
  have hb : c.decode (c.encode a ++ []) = some (b, rest) := by
    rw [List.append_nil, ← hrest, ← c.encode_of_read h, c.decode_encode]
  rw [c.decode_encode] at hb
  obtain ⟨-, rfl⟩ := Prod.mk.inj (Option.some.inj hb)
  rw [← hrest, List.append_nil]

theorem eq_nil_of_read_append (h : c.read (c.encode a ++ rest) = some b) : rest = [] := by
  have hb : c.decode (c.encode b ++ []) = some (a, rest) := by
    rw [List.append_nil, c.encode_of_read h, c.decode_encode]
  rw [c.decode_encode] at hb
  exact (Prod.mk.inj (Option.some.inj hb)).2.symm

end Documents

end SelfDelimiting

end Foundation
