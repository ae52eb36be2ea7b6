import Klevret.Foundation.Outcome
import Klevret.Foundation.Trie
import Mathlib.Data.List.Forall2

/-! # Walks in a trie

A walk goes through a list of inputs, tries the children of its node in order
and skips an input that none of them accepts. In a trie that was built from
paths, it follows these paths.
-/

namespace Foundation.Trie

variable {κ ν τ : Type}

/-- The first child whose key accepts an input. -/
def first (accepts : κ → Exec Bool) : List (Trie κ ν) → Exec (Option (Trie κ ν))
  | [] => return none
  | t :: ts => do
    if ← accepts t.key then return some t
    first accepts ts

theorem mem_of_first {accepts : κ → Exec Bool} {ts : List (Trie κ ν)} {t : Trie κ ν}
    (h : first accepts ts = .ok (some t)) : t ∈ ts ∧ accepts t.key = .ok true := by
  induction ts with
  | nil => simp [first] at h
  | cons t' ts ih =>
    rw [first] at h
    obtain ⟨b, hb, h⟩ := Exec.bind_eq_ok.mp h
    cases b with
    | true =>
      obtain rfl : t' = t := by simpa using h
      exact ⟨List.mem_cons_self, hb⟩
    | false => exact (ih h).imp_left (List.mem_cons_of_mem t')

section Trials

/-- A key is tried if none before it is taken. -/
def Tried (takes : κ → Prop) (ks : List κ) (k : κ) : Prop :=
  ∃ before behind, ks = before ++ k :: behind ∧ ∀ k' ∈ before, ¬ takes k'

variable {takes : κ → Prop} {accepts : κ → Exec Bool} {k k' : κ} {ks : List κ}

theorem tried_cons : Tried takes (k' :: ks) k ↔ k = k' ∨ ¬ takes k' ∧ Tried takes ks k := by
  constructor
  · rintro ⟨before, behind, heq, hbefore⟩
    cases before with
    | nil => exact Or.inl (List.cons.inj heq).1.symm
    | cons k'' before =>
      obtain ⟨rfl, rfl⟩ := List.cons.inj heq
      rw [List.forall_mem_cons] at hbefore
      exact Or.inr ⟨hbefore.1, before, behind, rfl, hbefore.2⟩
  · rintro (rfl | ⟨hk', before, behind, rfl, hbefore⟩)
    · exact ⟨[], ks, rfl, List.forall_mem_nil _⟩
    · refine ⟨k' :: before, behind, rfl, ?_⟩
      rw [List.forall_mem_cons]
      exact ⟨hk', hbefore⟩

theorem Tried.mem (h : Tried takes ks k) : k ∈ ks := by
  obtain ⟨before, behind, rfl, -⟩ := h
  exact List.mem_append_right _ List.mem_cons_self

/-- At most one key is tried and taken. -/
theorem Tried.unique (h : Tried takes ks k) (hk : takes k) (h' : Tried takes ks k')
    (hk' : takes k') : k = k' := by
  induction ks with
  | nil => exact absurd h.mem (List.not_mem_nil)
  | cons k'' ks ih =>
    rcases tried_cons.mp h with rfl | ⟨hn, h⟩
    · rcases tried_cons.mp h' with rfl | ⟨hn', -⟩
      · rfl
      · exact absurd hk hn'
    · rcases tried_cons.mp h' with rfl | ⟨-, h'⟩
      · exact absurd hk' hn
      · exact ih h h'

theorem exists_findM?_ok (hagree : ∀ k b, accepts k = .ok b → (b = true ↔ takes k)) :
    (∃ found, ks.findM? accepts = .ok found) ↔ ∀ k, Tried takes ks k → ∃ b, accepts k = .ok b := by
  induction ks with
  | nil => exact iff_of_true ⟨none, rfl⟩ fun k h => absurd h.mem List.not_mem_nil
  | cons k' ks ih =>
    simp only [tried_cons, List.findM?, forall_eq_or_imp]
    cases ha : accepts k' with
    | error e => simp
    | ok b =>
      have hb := hagree k' b ha
      cases b with
      | true => simp [hb.mp rfl]
      | false =>
        have hn : ¬ takes k' := fun h => Bool.false_ne_true (hb.mpr h)
        simpa [hn] using ih

theorem tried_of_findM? (hagree : ∀ k b, accepts k = .ok b → (b = true ↔ takes k))
    (h : ks.findM? accepts = .ok (some k)) : Tried takes ks k ∧ takes k := by
  induction ks with
  | nil => simp [List.findM?] at h
  | cons k' ks ih =>
    rw [List.findM?] at h
    obtain ⟨b, ha, h⟩ := Exec.bind_eq_ok.mp h
    have hb := hagree k' b ha
    cases b with
    | true =>
      obtain rfl : k' = k := by simpa using h
      exact ⟨tried_cons.mpr (Or.inl rfl), hb.mp rfl⟩
    | false =>
      obtain ⟨htried, htakes⟩ := ih h
      exact ⟨tried_cons.mpr (Or.inr ⟨fun ht => Bool.false_ne_true (hb.mpr ht), htried⟩), htakes⟩

theorem not_takes_of_findM? (hagree : ∀ k b, accepts k = .ok b → (b = true ↔ takes k))
    (h : ks.findM? accepts = .ok none) : ∀ k ∈ ks, ¬ takes k := by
  induction ks with
  | nil => exact List.forall_mem_nil _
  | cons k' ks ih =>
    rw [List.findM?] at h
    obtain ⟨b, ha, h⟩ := Exec.bind_eq_ok.mp h
    have hb := hagree k' b ha
    rw [List.forall_mem_cons]
    cases b with
    | true => simp at h
    | false => exact ⟨fun ht => Bool.false_ne_true (hb.mpr ht), ih h⟩

end Trials

variable [DecidableEq κ]

/-- The first key that accepts an input, among those that follow a path. -/
def next (accepts : κ → Exec Bool) (p : List κ) : List (List κ) → Exec (Option κ)
  | [] => return none
  | ks :: paths =>
    match ks.dropPrefix? p with
    | some (k :: _) => do
      if ← accepts k then return some k
      next accepts p paths
    | _ => next accepts p paths

/-- From a path the inputs lead to a longer one, and these of them are taken. -/
inductive Leads (accepts : τ → κ → Exec Bool) (paths : List (List κ)) :
    List κ → List τ → List τ → List κ → Prop
  | done (p : List κ) : Leads accepts paths p [] [] p
  | take {p q : List κ} {k : κ} {x : τ} {xs taken : List τ} :
      next (accepts x) p paths = .ok (some k) → Leads accepts paths (p ++ [k]) xs taken q →
      Leads accepts paths p (x :: xs) (x :: taken) q
  | skip {p q : List κ} {x : τ} {xs taken : List τ} :
      next (accepts x) p paths = .ok none → Leads accepts paths p xs taken q →
      Leads accepts paths p (x :: xs) taken q

variable {accepts : κ → Exec Bool} {last k : κ} {p : List κ} {paths : List (List κ)}
  {entries : List (Entry κ ν)}

theorem accepts_of_next (h : next accepts p paths = .ok (some k)) : accepts k = .ok true := by
  induction paths with
  | nil => simp [next] at h
  | cons ks paths ih =>
    unfold next at h
    split at h
    · rename_i k' rest hks
      cases ha : accepts k' with
      | error e => simp [ha] at h
      | ok b =>
        cases b with
        | true =>
          simp only [ha, Exec.ok_bind, if_true, Exec.pure_eq_ok, Except.ok.injEq,
            Option.some.injEq] at h
          rwa [← h]
        | false => exact ih (by simpa [ha] using h)
    · exact ih h

theorem next_after (p : List κ) (entries : List (Entry κ ν)) :
    next accepts [] ((after p entries).map Prod.fst) =
      next accepts p (entries.map Prod.fst) := by
  induction entries with
  | nil => rfl
  | cons e entries ih =>
    simp only [after, List.filterMap_cons, List.map_cons] at ih ⊢
    cases hp : e.1.dropPrefix? p with
    | none => simp only [Option.map_none, next, hp, ih]
    | some ks =>
      cases ks with
      | nil => simp only [Option.map_some, List.map_cons, next, hp, List.dropPrefix?_nil, ih]
      | cons k ks => simp only [Option.map_some, List.map_cons, next, hp, List.dropPrefix?_nil, ih]

theorem next_others (h : accepts k = .ok false) :
    next accepts [] ((others k entries).map Prod.fst) =
      next accepts [] (entries.map Prod.fst) := by
  induction entries with
  | nil => rfl
  | cons e entries ih =>
    obtain ⟨_ | ⟨k', ks⟩, v⟩ := e
    · simp only [others_end, List.map_cons, next, List.dropPrefix?_nil, ih]
    · rw [others_cons]
      split_ifs with hk
      · subst hk
        simp only [ih, List.map_cons, next, List.dropPrefix?_nil, h, Exec.ok_bind,
          Bool.false_eq_true, if_false]
      · simp only [List.map_cons, next, List.dropPrefix?_nil, ih]

theorem after_others {k' : κ} (h : k' ≠ k) :
    after [k'] (others k entries) = after [k'] entries := by
  induction entries with
  | nil => rfl
  | cons e entries ih =>
    obtain ⟨_ | ⟨k'', ks⟩, v⟩ := e
    · simp only [others_end, after_single_end, ih]
    · rw [others_cons]
      split_ifs with hk
      · subst hk
        rw [after_single_cons, if_neg (Ne.symm h), ih]
      · simp only [after_single_cons, ih]

/-- The children are tried in the order in which their keys first occur in the entries. -/
theorem Layers.first_eq {ts : List (Trie κ ν)} (h : Layers last entries ts)
    (hlast : accepts last = .ok false) :
    first accepts ts =
      Option.map (fun k => node k none (insertAll last (after [k] entries) [])) <$>
        next accepts [] (entries.map Prod.fst) := by
  induction h with
  | nil => rfl
  | leaf _ ih =>
    simp only [first, key, hlast, Exec.ok_bind, Bool.false_eq_true, if_false, ih,
      after_single_end, List.map_cons, next, List.dropPrefix?_nil]
  | @path k ks v entries ts _ _ ih =>
    simp only [first, key, List.map_cons, next, List.dropPrefix?_nil]
    cases ha : accepts k with
    | error e => rfl
    | ok b =>
      cases b with
      | true => simp
      | false =>
        simp only [Exec.ok_bind, Bool.false_eq_true, if_false]
        rw [ih, next_others ha]
        cases hnext : next accepts [] (entries.map Prod.fst) with
        | error e => rfl
        | ok found =>
          cases found with
          | none => rfl
          | some k' =>
            have hne : k ≠ k' := by
              rintro rfl
              simp [accepts_of_next hnext] at ha
            simp [hne, after_others hne.symm]

theorem first_after (hlast : accepts last = .ok false) (h : ∀ e ∈ entries, last ∉ e.1)
    (p : List κ) :
    first accepts (insertAll last (after p entries) []) =
      Option.map (fun k => node k none (insertAll last (after (p ++ [k]) entries) [])) <$>
        next accepts p (entries.map Prod.fst) := by
  simp only [(layers_insertAll (not_mem_after h p)).first_eq hlast, next_after, after_append]

section Leads

variable {accepts : τ → κ → Exec Bool} {q : List κ} {xs taken : List τ}

theorem leads_nil : Leads accepts paths p [] taken q ↔ taken = [] ∧ q = p := by
  constructor
  · rintro ⟨⟩
    exact ⟨rfl, rfl⟩
  · rintro ⟨rfl, rfl⟩
    exact .done q

theorem leads_cons {x : τ} : Leads accepts paths p (x :: xs) taken q ↔
    (∃ k rest, next (accepts x) p paths = .ok (some k) ∧ taken = x :: rest ∧
      Leads accepts paths (p ++ [k]) xs rest q) ∨
    next (accepts x) p paths = .ok none ∧ Leads accepts paths p xs taken q := by
  constructor
  · intro h
    cases h with
    | take hn hr => exact Or.inl ⟨_, _, hn, rfl, hr⟩
    | skip hn hr => exact Or.inr ⟨hn, hr⟩
  · rintro (⟨k, rest, hn, rfl, hr⟩ | ⟨hn, hr⟩)
    · exact .take hn hr
    · exact .skip hn hr

theorem Leads.accepted (h : Leads accepts paths p xs taken q) :
    ∃ ks, q = p ++ ks ∧ List.Forall₂ (fun x k => accepts x k = .ok true) taken ks := by
  induction h with
  | done p => exact ⟨[], by simp, .nil⟩
  | @take p q k x xs taken hn _ ih =>
    obtain ⟨ks, rfl, hks⟩ := ih
    exact ⟨k :: ks, by simp, .cons (accepts_of_next hn) hks⟩
  | skip _ _ ih => exact ih

end Leads

section Meets

/-- The keys that follow a path, in the order in which they are tried. -/
def choices (p : List κ) (paths : List (List κ)) : List κ :=
  paths.filterMap fun ks => (ks.dropPrefix? p).bind List.head?

/-- On the walk from a path an input is compared with a key. -/
inductive Meets (takes : τ → κ → Prop) (paths : List (List κ)) :
    List κ → List τ → τ → κ → Prop
  | here {p : List κ} {k : κ} {x : τ} {xs : List τ} :
      Tried (takes x) (choices p paths) k → Meets takes paths p (x :: xs) x k
  | take {p : List κ} {k k' : κ} {x y : τ} {xs : List τ} :
      Tried (takes x) (choices p paths) k' → takes x k' →
      Meets takes paths (p ++ [k']) xs y k → Meets takes paths p (x :: xs) y k
  | skip {p : List κ} {k : κ} {x y : τ} {xs : List τ} :
      (∀ k' ∈ choices p paths, ¬ takes x k') → Meets takes paths p xs y k →
      Meets takes paths p (x :: xs) y k

theorem next_eq_findM? : next accepts p paths = (choices p paths).findM? accepts := by
  induction paths with
  | nil => rfl
  | cons ks paths ih =>
    unfold next
    unfold choices at ih ⊢
    cases hks : ks.dropPrefix? p with
    | none => simpa [hks] using ih
    | some rest =>
      cases rest with
      | nil => simpa [hks] using ih
      | cons k rest =>
        simp only [List.filterMap_cons, hks, Option.bind_some, List.head?_cons, List.findM?, ih]
        congr 1
        funext b
        cases b <;> rfl

variable {takes : τ → κ → Prop} {k' : κ} {x y : τ} {xs : List τ}

theorem not_meets_nil : ¬ Meets takes paths p [] y k := by
  rintro ⟨⟩

theorem meets_cons_of_take (htried : Tried (takes x) (choices p paths) k') (hk' : takes x k') :
    Meets takes paths p (x :: xs) y k ↔
      (y = x ∧ Tried (takes x) (choices p paths) k) ∨ Meets takes paths (p ++ [k']) xs y k := by
  constructor
  · intro h
    cases h with
    | here h => exact Or.inl ⟨rfl, h⟩
    | take h htakes hrest =>
      obtain rfl := h.unique htakes htried hk'
      exact Or.inr hrest
    | skip hnone hrest => exact absurd hk' (hnone _ htried.mem)
  · rintro (⟨rfl, h⟩ | hrest)
    · exact .here h
    · exact .take htried hk' hrest

theorem meets_cons_of_skip (hnone : ∀ k' ∈ choices p paths, ¬ takes x k') :
    Meets takes paths p (x :: xs) y k ↔
      (y = x ∧ Tried (takes x) (choices p paths) k) ∨ Meets takes paths p xs y k := by
  constructor
  · intro h
    cases h with
    | here h => exact Or.inl ⟨rfl, h⟩
    | take h htakes hrest => exact absurd htakes (hnone _ h.mem)
    | skip _ hrest => exact Or.inr hrest
  · rintro (⟨rfl, h⟩ | hrest)
    · exact .here h
    · exact .skip hnone hrest

end Meets

end Foundation.Trie
