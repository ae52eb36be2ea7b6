import Klevret.Foundation.TrieWalk

/-! # Paths that are spelled

That inputs lead to a path is a matter of the paths and the inputs alone. Each
key of the path has an input that the keys listed before it refuse, and an input
between these is refused by all keys that follow there.
-/

namespace Foundation.Trie

variable {κ τ : Type}

section Answers

variable {f : κ → Exec Bool} {ks : List κ}

theorem findM?_eq_none :
    ks.findM? f = .ok none ↔ ∀ k ∈ ks, f k = .ok false := by
  induction ks with
  | nil => simp [List.findM?]
  | cons k ks ih =>
    rw [List.findM?, List.forall_mem_cons, ← ih]
    cases f k with
    | error e => simp
    | ok b => cases b <;> simp

theorem findM?_eq_some {k : κ} :
    ks.findM? f = .ok (some k) ↔ f k = .ok true ∧ Tried (fun k' => f k' ≠ .ok false) ks k := by
  induction ks with
  | nil =>
    refine iff_of_false (by simp [List.findM?]) ?_
    rintro ⟨-, htried⟩
    exact List.not_mem_nil htried.mem
  | cons k' ks ih =>
    rw [List.findM?, tried_cons]
    cases hf : f k' with
    | error e =>
      simp only [Exec.error_bind, reduceCtorEq, false_iff, not_and, not_or]
      intro htrue
      refine ⟨?_, by simp⟩
      rintro rfl
      simp [hf] at htrue
    | ok b =>
      cases b with
      | true =>
        simp only [Exec.ok_bind, Exec.pure_eq_ok, Except.ok.injEq, Option.some.injEq,
          Bool.true_eq_false, not_false_eq_true, ne_eq, not_true_eq_false, false_and, or_false]
        constructor
        · rintro rfl
          exact ⟨hf, rfl⟩
        · exact fun h => h.2.symm
      | false =>
        simp only [Exec.ok_bind, ih, ne_eq, not_true_eq_false, not_false_eq_true, true_and]
        constructor
        · exact fun h => ⟨h.1, Or.inr h.2⟩
        · rintro ⟨htrue, rfl | htried⟩
          · simp [hf] at htrue
          · exact ⟨htrue, htried⟩

end Answers

variable [DecidableEq κ]

/-- The keys that follow a path all answer, and none accepts. -/
def Refused (accepts : τ → κ → Exec Bool) (paths : List (List κ)) (p : List κ) (x : τ) : Prop :=
  ∀ k ∈ choices p paths, accepts x k = .ok false

/-- Behind a path the keys follow one another, and the keys that are listed before one of them
refuse its input. -/
def Foremost (accepts : τ → κ → Exec Bool) (paths : List (List κ)) (p ks : List κ)
    (xs : List τ) : Prop :=
  ∀ i x k, xs[i]? = some x → ks[i]? = some k →
    Tried (fun k' => accepts x k' ≠ .ok false) (choices (p ++ ks.take i) paths) k

variable {accepts : τ → κ → Exec Bool} {paths : List (List κ)} {p q ks : List κ} {k : κ} {x : τ}
  {xs ys taken : List τ} {choice : List (τ × Bool)}

/-- Either the first key that does not refuse the input accepts it, or all refuse it. -/
theorem leads_cons_iff : Leads accepts paths p (x :: xs) taken q ↔
    (∃ k rest, accepts x k = .ok true ∧
      Tried (fun k' => accepts x k' ≠ .ok false) (choices p paths) k ∧ taken = x :: rest ∧
      Leads accepts paths (p ++ [k]) xs rest q) ∨
    Refused accepts paths p x ∧ Leads accepts paths p xs taken q := by
  simp only [leads_cons, next_eq_findM?, findM?_eq_some, findM?_eq_none, and_assoc]
  rfl

section Spelling

theorem foremost_nil : Foremost accepts paths p [] xs := by
  intro i x k _ hk
  cases hk

theorem foremost_cons : Foremost accepts paths p (k :: ks) (x :: xs) ↔
    Tried (fun k' => accepts x k' ≠ .ok false) (choices p paths) k ∧
      Foremost accepts paths (p ++ [k]) ks xs := by
  constructor
  · intro h
    refine ⟨by simpa using h 0 x k rfl rfl, fun i x' k' hx hk => ?_⟩
    simpa using h (i + 1) x' k' hx hk
  · rintro ⟨htried, h⟩ i x' k' hx hk
    cases i with
    | zero =>
      obtain rfl := Option.some.inj hx
      obtain rfl := Option.some.inj hk
      simpa using htried
    | succ i => simpa using h i x' k' hx hk

end Spelling

section Places

theorem mem_choices (h : p ++ k :: ks ∈ paths) : k ∈ choices p paths := by
  refine List.mem_filterMap.mpr ⟨_, h, ?_⟩
  rw [dropPrefix?_eq_some.mpr rfl]
  rfl

theorem Leads.exists_cons (h : Leads accepts paths (p ++ [k]) xs taken (p ++ ks)) :
    ∃ rest, ks = k :: rest := by
  obtain ⟨rest, hks, -⟩ := h.accepted
  rw [List.append_assoc, List.append_cancel_left_eq] at hks
  exact ⟨rest, hks⟩

theorem leads_self : Leads accepts paths p ys taken p ↔
    taken = [] ∧ ∀ y ∈ ys, Refused accepts paths p y := by
  induction ys generalizing taken with
  | nil => simp [leads_nil]
  | cons y ys ih =>
    rw [leads_cons_iff, ih, List.forall_mem_cons]
    constructor
    · rintro (⟨k, rest, -, -, -, hleads⟩ | ⟨hy, rfl, hys⟩)
      · obtain ⟨ks, hks, -⟩ := hleads.accepted
        simp at hks
      · exact ⟨rfl, hy, hys⟩
    · rintro ⟨rfl, hy, hys⟩
      exact Or.inr ⟨hy, rfl, hys⟩

theorem leads_of_fits (hfits : List.Forall₂ (fun x k => accepts x k = .ok true) xs ks)
    (hmem : p ++ ks ∈ paths) :
    Leads accepts paths p (xs ++ ys) taken (p ++ ks) ↔
      taken = xs ∧ Foremost accepts paths p ks xs ∧
        ∀ y ∈ ys, Refused accepts paths (p ++ ks) y := by
  induction hfits generalizing p taken with
  | nil => simp [leads_self, foremost_nil]
  | @cons x k xs ks hx _ ih =>
    rw [List.cons_append, leads_cons_iff, foremost_cons]
    constructor
    · rintro (⟨k', rest, -, htried, rfl, hleads⟩ | ⟨hrefused, -⟩)
      · obtain ⟨ks', hks⟩ := hleads.exists_cons
        obtain ⟨rfl, rfl⟩ := List.cons.inj hks
        rw [List.append_cons p k ks] at hleads hmem ⊢
        obtain ⟨rfl, hforemost, hys⟩ := (ih hmem).mp hleads
        exact ⟨rfl, ⟨htried, hforemost⟩, hys⟩
      · exact absurd (hrefused k (mem_choices hmem)) (by simp [hx])
    · rintro ⟨rfl, ⟨htried, hforemost⟩, hys⟩
      rw [List.append_cons p k ks] at hmem hys ⊢
      exact Or.inl ⟨k, xs, hx, htried, rfl, (ih hmem).mpr ⟨rfl, hforemost, hys⟩⟩

/-- Where the key before took an input of its own, the inputs lead to the path if one of them is
left out: those before it are moved by one place, those behind it stand in their own. -/
theorem leads_of_shifted (hfits : List.Forall₂ (fun x k => accepts x k = .ok true) xs (k :: ks))
    (hmem : p ++ ks ∈ paths) :
    Leads accepts paths p (xs ++ ys) taken (p ++ ks) ↔
      ∃ j x, xs[j]? = some x ∧ taken = xs.eraseIdx j ∧
        Refused accepts paths (p ++ ks.take j) x ∧
        List.Forall₂ (fun x k => accepts x k = .ok true) (xs.eraseIdx j) ks ∧
        Foremost accepts paths p ks (xs.eraseIdx j) ∧
        ∀ y ∈ ys, Refused accepts paths (p ++ ks) y := by
  induction xs generalizing p k ks taken with
  | nil => cases hfits
  | cons x xs ih =>
    obtain ⟨hx, hxs⟩ := List.forall₂_cons.mp hfits
    rw [List.cons_append, leads_cons_iff, leads_of_fits hxs hmem]
    constructor
    · rintro (⟨k', rest, hk', htried, rfl, hleads⟩ | ⟨hrefused, rfl, hforemost, hys⟩)
      · obtain ⟨ks', rfl⟩ := hleads.exists_cons
        rw [List.append_cons p k' ks'] at hleads hmem
        obtain ⟨j, y, hj, rfl, hrefused, hfits', hforemost, hys⟩ := (ih hxs hmem).mp hleads
        rw [← List.append_cons p k' ks'] at hys
        refine ⟨j + 1, y, hj, rfl, by simpa using hrefused, .cons hk' hfits',
          foremost_cons.mpr ⟨htried, hforemost⟩, hys⟩
      · exact ⟨0, x, rfl, rfl, by simpa using hrefused, hxs, hforemost, hys⟩
    · rintro ⟨j, y, hj, rfl, hrefused, hfits', hforemost, hys⟩
      cases j with
      | zero =>
        obtain rfl := Option.some.inj hj
        exact Or.inr ⟨by simpa using hrefused, rfl, hforemost, hys⟩
      | succ j =>
        cases ks with
        | nil => cases hfits'
        | cons k' ks =>
          obtain ⟨hk', hfits'⟩ := List.forall₂_cons.mp hfits'
          obtain ⟨htried, hforemost⟩ := foremost_cons.mp hforemost
          rw [List.append_cons p k' ks] at hmem hys ⊢
          refine Or.inl ⟨k', _, hk', htried, rfl, (ih hxs hmem).mpr ?_⟩
          exact ⟨j, y, hj, rfl, by simpa using hrefused, hfits', hforemost, hys⟩

end Places

end Foundation.Trie
