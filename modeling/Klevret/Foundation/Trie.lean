import Mathlib.Data.List.Basic

/-! # Tries with ordered children

Paths of keys are inserted one after the other into a tree whose nodes keep
their children in order; a path ends in a leaf of its own. The children of a
node are those of a tree built from the rest of the paths that pass through it.
-/

namespace Foundation

inductive Trie (κ ν : Type) where
  | node (key : κ) (value : Option ν) (childs : List (Trie κ ν))

/-- A path with the value at its end. -/
abbrev Entry (κ ν : Type) := List κ × Option ν

namespace Trie

variable {κ ν : Type}

def key : Trie κ ν → κ
  | node key _ _ => key

def value : Trie κ ν → Option ν
  | node _ value _ => value

def childs : Trie κ ν → List (Trie κ ν)
  | node _ _ childs => childs

section Insertion

variable [DecidableEq κ]

/-- Change the children of the first node with this key, or of a new node at the end. -/
def enter (k : κ) (f : List (Trie κ ν) → List (Trie κ ν)) : List (Trie κ ν) → List (Trie κ ν)
  | [] => [node k none (f [])]
  | t :: ts => if t.key = k then node t.key t.value (f t.childs) :: ts else t :: enter k f ts

/-- Follow a path, adding what is missing of it, and put a leaf behind the children at its end. -/
def insert (last : κ) (v : Option ν) : List κ → List (Trie κ ν) → List (Trie κ ν)
  | [], ts => ts ++ [node last v []]
  | k :: ks, ts => enter k (insert last v ks) ts

def insertAll (last : κ) (entries : List (Entry κ ν)) (ts : List (Trie κ ν)) :
    List (Trie κ ν) :=
  entries.foldl (fun ts e => insert last e.2 e.1 ts) ts

def after (p : List κ) (entries : List (Entry κ ν)) : List (Entry κ ν) :=
  entries.filterMap fun e => (e.1.dropPrefix? p).map fun ks => (ks, e.2)

def others (k : κ) (entries : List (Entry κ ν)) : List (Entry κ ν) :=
  entries.filter fun e => e.1.head? ≠ some k

variable {last k k' : κ} {ks p : List κ} {v : Option ν} {e : Entry κ ν}
  {entries : List (Entry κ ν)} {ts rest : List (Trie κ ν)}

@[simp] theorem insertAll_nil : insertAll last [] ts = ts := rfl

@[simp] theorem insertAll_cons :
    insertAll last (e :: entries) ts = insertAll last entries (insert last e.2 e.1 ts) := rfl

theorem dropPrefix?_eq_some {ks p rest : List κ} :
    ks.dropPrefix? p = some rest ↔ ks = p ++ rest := by
  rw [List.dropPrefix?_eq_some_iff]
  simp

@[simp] theorem after_nil (entries : List (Entry κ ν)) : after [] entries = entries := by
  simp [after]

@[simp] theorem after_single_cons :
    after [k] ((k' :: ks, v) :: entries) =
      if k' = k then (ks, v) :: after [k] entries else after [k] entries := by
  simp only [after, List.filterMap_cons, List.dropPrefix?, beq_iff_eq]
  split_ifs <;> rfl

@[simp] theorem after_single_end : after [k] (([], v) :: entries) = after [k] entries := rfl

@[simp] theorem others_cons :
    others k ((k' :: ks, v) :: entries) =
      if k' = k then others k entries else (k' :: ks, v) :: others k entries := by
  simp only [others, List.filter_cons, List.head?_cons, Option.some.injEq, decide_not]
  split_ifs <;> simp_all

@[simp] theorem others_end : others k (([], v) :: entries) = ([], v) :: others k entries := by
  simp [others]

theorem dropPrefix?_append (ks p q : List κ) :
    ks.dropPrefix? (p ++ q) = (ks.dropPrefix? p).bind fun rest => rest.dropPrefix? q := by
  induction p generalizing ks with
  | nil => simp
  | cons k p ih =>
    cases ks with
    | nil => rfl
    | cons k' ks =>
      simp only [List.cons_append, List.dropPrefix?, ih]
      split_ifs <;> rfl

theorem after_append (p q : List κ) (entries : List (Entry κ ν)) :
    after (p ++ q) entries = after q (after p entries) := by
  simp only [after, List.filterMap_filterMap, dropPrefix?_append]
  congr 1
  funext e
  cases e.1.dropPrefix? p <;> rfl

/-- The entries that begin with the key of a node go below it, the others behind it. -/
theorem insertAll_node :
    insertAll last entries (node k v ts :: rest) =
      node k v (insertAll last (after [k] entries) ts) ::
        insertAll last (others k entries) rest := by
  induction entries generalizing ts rest with
  | nil => rfl
  | cons e entries ih =>
    obtain ⟨_ | ⟨k', ks⟩, v'⟩ := e
    · simp only [insertAll_cons, insert, List.cons_append, ih, after_single_end, others_end]
    · by_cases hk : k = k'
      · subst hk
        simp only [insertAll_cons, insert, enter, key, if_true, value, childs, ih,
          after_single_cons, others_cons]
      · have hk' : k' ≠ k := fun h => hk h.symm
        simp only [insertAll_cons, insert, enter, key, hk, hk', if_false, ih, after_single_cons,
          others_cons]

theorem insertAll_path :
    insertAll last ((k :: ks, v) :: entries) [] =
      node k none (insertAll last ((ks, v) :: after [k] entries) []) ::
        insertAll last (others k entries) [] := by
  simp only [insertAll_cons, insert, enter, insertAll_node]

theorem insertAll_leaf (h : ∀ e ∈ entries, last ∉ e.1) :
    insertAll last (([], v) :: entries) [] = node last v [] :: insertAll last entries [] := by
  have hafter : after [last] entries = [] := by
    refine List.filterMap_eq_nil_iff.mpr fun e he => ?_
    rw [Option.map_eq_none_iff, Option.eq_none_iff_forall_ne_some]
    intro ks hks
    exact h e he (by simp [dropPrefix?_eq_some.mp hks])
  have hothers : others last entries = entries := by
    refine List.filter_eq_self.mpr fun e he => decide_eq_true ?_
    intro hhead
    exact h e he (List.mem_of_mem_head? hhead)
  rw [insertAll_cons, insert, List.nil_append, insertAll_node, hafter, hothers, insertAll_nil]

theorem mem_others : e ∈ others k entries ↔ e ∈ entries ∧ e.1.head? ≠ some k := by
  simp [others]

/-- The children that entries make one after the other: a leaf for an entry that ends here, or else
a node for all entries that begin like the first one. -/
inductive Layers (last : κ) : List (Entry κ ν) → List (Trie κ ν) → Prop
  | nil : Layers last [] []
  | leaf {v : Option ν} {entries : List (Entry κ ν)} {ts : List (Trie κ ν)} :
      Layers last entries ts → Layers last (([], v) :: entries) (node last v [] :: ts)
  | path {k : κ} {ks : List κ} {v : Option ν} {entries : List (Entry κ ν)}
      {ts : List (Trie κ ν)} :
      k ≠ last → Layers last (others k entries) ts →
      Layers last ((k :: ks, v) :: entries)
        (node k none (insertAll last ((ks, v) :: after [k] entries) []) :: ts)

theorem layers_insertAll (h : ∀ e ∈ entries, last ∉ e.1) :
    Layers last entries (insertAll last entries []) := by
  induction hn : entries.length using Nat.strongRecOn generalizing entries with
  | ind n ih =>
    cases entries with
    | nil => exact .nil
    | cons e entries =>
      rw [List.length_cons] at hn
      rw [List.forall_mem_cons] at h
      obtain ⟨_ | ⟨k, ks⟩, v⟩ := e
      · rw [insertAll_leaf h.2]
        exact .leaf (ih _ (by omega) h.2 rfl)
      · rw [insertAll_path]
        have hlen : (others k entries).length ≤ entries.length := List.length_filter_le _ _
        have hk : k ≠ last := by
          rintro rfl
          exact h.1 List.mem_cons_self
        exact .path hk (ih _ (by omega) (fun e he => h.2 e (mem_others.mp he).1) rfl)

theorem filter_isPrefix (p : List κ) (entries : List (Entry κ ν)) :
    (entries.map Prod.fst).filter (p <+: ·) = (after p entries).map fun e => p ++ e.1 := by
  induction entries with
  | nil => rfl
  | cons e entries ih =>
    simp only [after, List.map_cons, List.filter_cons, List.filterMap_cons] at ih ⊢
    cases hp : e.1.dropPrefix? p with
    | none =>
      have hn : ¬ p <+: e.1 := by
        rintro ⟨ks, hks⟩
        simp [dropPrefix?_eq_some.mpr hks.symm] at hp
      simpa [hn] using ih
    | some ks =>
      have hks := dropPrefix?_eq_some.mp hp
      have hpre : p <+: e.1 := ⟨ks, hks.symm⟩
      simpa [hpre, hks] using ih

theorem mem_after {ks : List κ} : (ks, v) ∈ after p entries ↔ (p ++ ks, v) ∈ entries := by
  simp only [after, List.mem_filterMap, Option.map_eq_some_iff, Prod.mk.injEq, dropPrefix?_eq_some]
  constructor
  · rintro ⟨⟨_, _⟩, he, _, hks, rfl, rfl⟩
    rwa [← hks]
  · intro he
    exact ⟨_, he, ks, rfl, rfl, rfl⟩

theorem not_mem_after (h : ∀ e ∈ entries, last ∉ e.1) (p : List κ) :
    ∀ e ∈ after p entries, last ∉ e.1 := by
  rintro ⟨ks, v⟩ he hmem
  exact h _ (mem_after.mp he) (List.mem_append_right _ hmem)

theorem after_eq_singleton : after p entries = [([], v)] ↔
    (entries.map Prod.fst).filter (p <+: ·) = [p] ∧ (p, v) ∈ entries := by
  rw [filter_isPrefix]
  constructor
  · intro he
    have hmem : ([], v) ∈ after p entries := by simp [he]
    exact ⟨by simp [he], by simpa using mem_after.mp hmem⟩
  · rintro ⟨hmap, hmem⟩
    obtain ⟨⟨ks, w⟩, he, hks⟩ := List.map_eq_singleton_iff.mp hmap
    have hin : ([], v) ∈ after p entries := mem_after.mpr (by simpa using hmem)
    rw [he, List.mem_singleton] at hin
    rw [he, hin]

def only : List (Trie κ ν) → Option ν
  | [t] => t.value
  | _ => none

theorem insertAll_eq_nil : insertAll last entries [] = [] ↔ entries = [] := by
  cases entries with
  | nil => exact iff_of_true rfl rfl
  | cons e entries =>
    obtain ⟨_ | ⟨k, ks⟩, v⟩ := e
    · simp [insert, insertAll_node]
    · rw [insertAll_path]
      simp

theorem only_insertAll (h : ∀ e ∈ entries, last ∉ e.1) {w : ν} :
    only (insertAll last entries []) = some w ↔ entries = [([], some w)] := by
  cases entries with
  | nil => simp [only]
  | cons e entries =>
    rw [List.forall_mem_cons] at h
    obtain ⟨_ | ⟨k, ks⟩, v⟩ := e
    · rw [insertAll_leaf h.2]
      cases hrest : insertAll last entries [] with
      | nil => simp [only, value, insertAll_eq_nil.mp hrest]
      | cons t ts =>
        have hne : entries ≠ [] := fun he => by simp [he] at hrest
        simp [only, hne]
    · rw [insertAll_path]
      cases insertAll last (others k entries) [] <;> simp [only, value]

end Insertion

end Trie

end Foundation
