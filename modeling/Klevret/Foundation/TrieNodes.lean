import Klevret.Foundation.TrieWalk

/-! # The nodes of a trie

The children of a node are its leaves, in the order of insertion, and one inner
node for each key that goes on. So the nodes are the beginnings of the paths.
-/

namespace Foundation.Trie

variable {κ ν : Type}

/-- A path leads to a node through the inner nodes with its keys. -/
inductive Reaches (last : κ) : Trie κ ν → List κ → Trie κ ν → Prop
  | nil (t : Trie κ ν) : Reaches last t [] t
  | cons {t c u : Trie κ ν} {p : List κ} :
      c ∈ t.childs → c.key ≠ last → Reaches last c p u → Reaches last t (c.key :: p) u

/-- The nodes of a tree. -/
inductive Within (t : Trie κ ν) : Trie κ ν → Prop
  | self : Within t t
  | child {u c : Trie κ ν} : Within t u → c ∈ u.childs → Within t c

variable [DecidableEq κ]

def leaves (last : κ) (ts : List (Trie κ ν)) : List (Trie κ ν) := ts.filter (·.key = last)

/-- The ways on from a path: the keys that follow it, each where it is first, and an end for each
path that goes no further. -/
def ways (p : List κ) (paths : List (List κ)) : List (Option κ) :=
  ((paths.filterMap (·.dropPrefix? p)).map List.head?).eraseDupsBy
    fun way first => way.isSome && way == first

def innerKeys (last : κ) (ts : List (Trie κ ν)) : List κ := (ts.filter (·.key ≠ last)).map key

variable {last k : κ} {p : List κ} {e : Entry κ ν} {entries : List (Entry κ ν)}
  {t u c : Trie κ ν}

section Insertion

theorem mem_innerKeys_iff {ts : List (Trie κ ν)} :
    k ∈ innerKeys last ts ↔ ∃ c ∈ ts, c.key ≠ last ∧ c.key = k := by
  simp [innerKeys, and_assoc]

theorem after_others_self (k : κ) (entries : List (Entry κ ν)) :
    after [k] (others k entries) = [] := by
  apply List.eq_nil_iff_forall_not_mem.mpr
  rintro ⟨ks, v⟩ he
  exact (mem_others.mp (mem_after.mp he)).2 rfl

variable {ts : List (Trie κ ν)}

theorem Layers.leaves_eq (h : Layers last entries ts) :
    leaves last ts = (entries.filter (·.1 = [])).map fun e => node last e.2 [] := by
  induction h with
  | nil => rfl
  | leaf _ ih => simpa [leaves, key] using ih
  | @path k ks v entries ts hk _ ih =>
    have hends : (others k entries).filter (·.1 = []) = entries.filter (·.1 = []) := by
      rw [others, List.filter_filter]
      apply List.filter_congr
      rintro ⟨_ | ⟨k', ks⟩, v⟩ _ <;> simp
    rw [hends] at ih
    simpa [leaves, key, hk] using ih

theorem Layers.mem_innerKeys (h : Layers last entries ts) :
    k ∈ innerKeys last ts ↔ after [k] entries ≠ [] := by
  induction h with
  | nil => simp [innerKeys, after]
  | leaf _ ih => simpa [innerKeys, key] using ih
  | @path k' ks v entries ts hk' _ ih =>
    rw [after_single_cons]
    by_cases hk : k' = k
    · subst hk
      simp [innerKeys, key, hk']
    · rw [after_others (Ne.symm hk)] at ih
      simpa [innerKeys, key, hk', hk, Ne.symm hk] using ih

theorem Layers.nodup_innerKeys (h : Layers last entries ts) : (innerKeys last ts).Nodup := by
  induction h with
  | nil => exact List.nodup_nil
  | leaf _ ih => simpa [innerKeys, key] using ih
  | @path k ks v entries ts hk hothers ih =>
    have hcons : innerKeys last
        (node k none (insertAll last ((ks, v) :: after [k] entries) []) :: ts) =
        k :: innerKeys last ts := by simp [innerKeys, key, hk]
    rw [hcons, List.nodup_cons, hothers.mem_innerKeys, after_others_self]
    exact ⟨fun hne => hne rfl, ih⟩

theorem ways_nil_left (paths : List (List κ)) :
    ways [] paths =
      (paths.map List.head?).eraseDupsBy fun way first => way.isSome && way == first := by
  simp [ways]

theorem ways_after (p : List κ) (entries : List (Entry κ ν)) :
    ways [] ((after p entries).map Prod.fst) = ways p (entries.map Prod.fst) := by
  simp [ways, after, List.map_filterMap, List.filterMap_map, Function.comp_def]

theorem Layers.keys_eq (h : Layers last entries ts) :
    ts.map key = (ways [] (entries.map Prod.fst)).map (·.getD last) := by
  induction h with
  | nil => rfl
  | @leaf v entries ts _ ih =>
    have hkept : (entries.map fun e => e.1.head?).filter
        (fun way => (way.isSome && way == none) = false) = entries.map fun e => e.1.head? := by
      apply List.filter_eq_self.mpr
      intro way _
      cases way <;> rfl
    simp only [ways_nil_left, List.map_map, Function.comp_def] at ih ⊢
    rw [List.map_cons, List.map_cons, List.head?_nil, List.eraseDupsBy_cons, hkept, ih,
      List.map_cons]
    rfl
  | @path k ks v entries ts _ _ ih =>
    have hkept : (entries.map fun e => e.1.head?).filter
        (fun way => (way.isSome && way == some k) = false) =
          (others k entries).map fun e => e.1.head? := by
      rw [others, List.filter_map]
      congr 1
      apply List.filter_congr
      intro e _
      rw [Function.comp_apply]
      cases e.1.head? <;> simp
    simp only [ways_nil_left, List.map_map, Function.comp_def] at ih ⊢
    rw [List.map_cons, List.map_cons, List.head?_cons, List.eraseDupsBy_cons, hkept, ih,
      List.map_cons]
    rfl

/-- A child is a leaf, or it is made from what is left of the entries behind its key. -/
theorem Layers.childs_eq (h : Layers last entries ts) (hc : c ∈ ts) :
    (c.key = last ∧ c.childs = []) ∨
      (c.key ≠ last ∧ c.childs = insertAll last (after [c.key] entries) []) := by
  induction h with
  | nil => exact absurd hc List.not_mem_nil
  | leaf _ ih =>
    rcases List.mem_cons.mp hc with rfl | hc
    · exact Or.inl ⟨rfl, rfl⟩
    · exact ih hc
  | @path k ks v entries ts hk hothers ih =>
    rcases List.mem_cons.mp hc with rfl | hc
    · exact Or.inr ⟨hk, by simp [key, childs]⟩
    · apply (ih hc).imp_right
      rintro ⟨hlast, hchilds⟩
      have hne : k ≠ c.key := by
        intro heq
        have hmem : c.key ∈ innerKeys last ts := mem_innerKeys_iff.mpr ⟨c, hc, hlast, rfl⟩
        rw [hothers.mem_innerKeys, ← heq, after_others_self] at hmem
        exact hmem rfl
      rw [after_single_cons, if_neg hne, ← after_others hne.symm]
      exact ⟨hlast, hchilds⟩

theorem childs_of_inner (h : ∀ e ∈ entries, last ∉ e.1)
    (ht : t.childs = insertAll last entries []) (hc : c ∈ t.childs) (hkey : c.key ≠ last) :
    c.childs = insertAll last (after [c.key] entries) [] := by
  rw [ht] at hc
  rcases (layers_insertAll h).childs_eq hc with ⟨hlast, -⟩ | ⟨-, hchilds⟩
  · exact absurd hlast hkey
  · exact hchilds

end Insertion

section Nodes

theorem after_cons (k : κ) (p : List κ) (entries : List (Entry κ ν)) :
    after (k :: p) entries = after p (after [k] entries) := after_append [k] p entries

theorem after_ne_nil : after p entries ≠ [] ↔ ∃ e ∈ entries, p <+: e.1 := by
  constructor
  · intro hne
    obtain ⟨⟨ks, v⟩, he⟩ := List.exists_mem_of_ne_nil _ hne
    exact ⟨_, mem_after.mp he, ks, rfl⟩
  · rintro ⟨⟨_, v⟩, he, ks, rfl⟩
    exact List.ne_nil_of_mem (mem_after.mpr he)

theorem childs_of_reaches (h : ∀ e ∈ entries, last ∉ e.1)
    (ht : t.childs = insertAll last entries []) (hu : Reaches last t p u) :
    u.childs = insertAll last (after p entries) [] := by
  induction hu generalizing entries with
  | nil t => rwa [after_nil]
  | @cons t c u p hc hkey _ ih =>
    rw [after_cons]
    exact ih (not_mem_after h _) (childs_of_inner h ht hc hkey)

/-- There is a node for a path where a path of an entry begins with it. -/
theorem exists_reaches_iff (h : ∀ e ∈ entries, last ∉ e.1)
    (ht : t.childs = insertAll last entries []) :
    (∃ u, Reaches last t p u) ↔ p = [] ∨ ∃ e ∈ entries, p <+: e.1 := by
  rw [← after_ne_nil]
  induction p generalizing t entries with
  | nil => exact iff_of_true ⟨t, .nil t⟩ (Or.inl rfl)
  | cons k p ih =>
    have hinner : k ∈ innerKeys last t.childs ↔ after [k] entries ≠ [] := by
      rw [ht]
      exact (layers_insertAll h).mem_innerKeys
    rw [after_cons]
    constructor
    · rintro ⟨u, hu⟩
      cases hu with
      | @cons _ c _ _ hc hkey hu =>
      have hchilds := childs_of_inner h ht hc hkey
      rcases (ih (not_mem_after h _) hchilds).mp ⟨u, hu⟩ with rfl | hne
      · rw [after_nil, ← hinner]
        exact Or.inr (mem_innerKeys_iff.mpr ⟨c, hc, hkey, rfl⟩)
      · exact Or.inr hne
    · rintro (hnil | hne)
      · cases hnil
      · have hk : after [k] entries ≠ [] := by
          rintro hnil
          rw [hnil] at hne
          exact hne rfl
        obtain ⟨c, hc, hkey, rfl⟩ := mem_innerKeys_iff.mp (hinner.mpr hk)
        have hchilds := childs_of_inner h ht hc hkey
        obtain ⟨u, hu⟩ := (ih (not_mem_after h _) hchilds).mpr (Or.inr hne)
        exact ⟨u, .cons hc hkey hu⟩

theorem filter_after (p : List κ) (entries : List (Entry κ ν)) :
    (after p entries).filter (·.1 = []) = (entries.filter (·.1 = p)).map fun e => ([], e.2) := by
  induction entries with
  | nil => rfl
  | cons e entries ih =>
    unfold after at ih ⊢
    rw [List.filterMap_cons]
    cases hp : e.1.dropPrefix? p with
    | none =>
      have hne : e.1 ≠ p := by
        intro heq
        rw [dropPrefix?_eq_some.mpr (heq.trans (List.append_nil p).symm)] at hp
        cases hp
      simpa [hne] using ih
    | some ks =>
      have hend : e.1 = p ↔ ks = [] := by rw [dropPrefix?_eq_some.mp hp, List.append_right_eq_self]
      by_cases hnil : ks = []
      · simpa [hend, hnil] using ih
      · simpa [hend, hnil] using ih

theorem leaves_of_reaches (h : ∀ e ∈ entries, last ∉ e.1)
    (ht : t.childs = insertAll last entries []) (hu : Reaches last t p u) :
    leaves last u.childs = (entries.filter (·.1 = p)).map fun e => node last e.2 [] := by
  rw [childs_of_reaches h ht hu, (layers_insertAll (not_mem_after h p)).leaves_eq, filter_after,
    List.map_map]
  rfl

theorem childs_of_within (h : ∀ e ∈ entries, last ∉ e.1)
    (ht : t.childs = insertAll last entries []) (hu : Within t u) :
    ∃ entries' : List (Entry κ ν), (∀ e ∈ entries', last ∉ e.1) ∧
      u.childs = insertAll last entries' [] := by
  induction hu with
  | self => exact ⟨entries, h, ht⟩
  | @child u c _ hc ih =>
    obtain ⟨entries', h', hu⟩ := ih
    rw [hu] at hc
    rcases (layers_insertAll h').childs_eq hc with ⟨-, hchilds⟩ | ⟨-, hchilds⟩
    · exact ⟨[], List.forall_mem_nil _, hchilds⟩
    · exact ⟨_, not_mem_after h' _, hchilds⟩

theorem nodup_of_within (h : ∀ e ∈ entries, last ∉ e.1)
    (ht : t.childs = insertAll last entries []) (hu : Within t u) :
    (innerKeys last u.childs).Nodup := by
  obtain ⟨entries', h', hchilds⟩ := childs_of_within h ht hu
  rw [hchilds]
  exact (layers_insertAll h').nodup_innerKeys

end Nodes

end Foundation.Trie
