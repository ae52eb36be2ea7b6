import Klevret.Foundation.KeyOrder
import Klevret.Foundation.Outcome
import Mathlib.Data.List.Perm.Subperm

/-! # Tables kept side by side

Facts about ordered maps used as tables: a table that extends another, two
tables of which one points back into the other, and two tables that are inverse
to each other. The subscript operator of the standard library adds a default
entry when there is none.
-/

namespace Foundation

open Std (ExtTreeMap)

/-- The subscript operator on a table inside a state: a missing entry is added with the default
value. -/
def subscript {σ κ β : Type} [Ord κ] [Std.TransOrd κ] [Inhabited β] (table : σ → ExtTreeMap κ β)
    (update : σ → ExtTreeMap κ β → σ) (k : κ) : EStateM Stop σ β := do
  match (table (← get))[k]? with
  | some v => return v
  | none => modifyGet fun s => (default, update s ((table s).insert k default))

theorem run_subscript_some {σ κ β : Type} [Ord κ] [Std.TransOrd κ] [Inhabited β]
    {table : σ → ExtTreeMap κ β} {update : σ → ExtTreeMap κ β → σ} {k : κ} {v : β} {s : σ}
    (h : (table s)[k]? = some v) : (subscript table update k).run s = .ok v s := by
  simp [subscript, h]

theorem run_subscript_none {σ κ β : Type} [Ord κ] [Std.TransOrd κ] [Inhabited β]
    {table : σ → ExtTreeMap κ β} {update : σ → ExtTreeMap κ β → σ} {k : κ} {s : σ}
    (h : (table s)[k]? = none) :
    (subscript table update k).run s = .ok default (update s ((table s).insert k default)) := by
  simp [subscript, h]

section Relations

variable {κ β : Type*} [Ord κ] [Std.TransOrd κ]

theorem mem_of_lookup {m : ExtTreeMap κ β} {k : κ} {v : β} (h : m[k]? = some v) : k ∈ m := by
  rw [ExtTreeMap.mem_iff_isSome_getElem?, h]
  rfl

theorem not_mem_of_lookup {m : ExtTreeMap κ β} {k : κ} (h : m[k]? = none) : k ∉ m := by
  rw [ExtTreeMap.mem_iff_isSome_getElem?, h]
  exact Bool.false_ne_true

theorem lookup_of_mem {m : ExtTreeMap κ β} {k : κ} (h : k ∈ m) : ∃ v, m[k]? = some v :=
  Option.isSome_iff_exists.mp (ExtTreeMap.mem_iff_isSome_getElem?.mp h)

/-- Every entry of the first table is an entry of the second. -/
def Extends (f g : ExtTreeMap κ β) : Prop :=
  ∀ (k : κ) (v : β), f[k]? = some v → g[k]? = some v

theorem Extends.refl (f : ExtTreeMap κ β) : Extends f f := fun _ _ h => h

theorem Extends.trans {f g h : ExtTreeMap κ β} (hfg : Extends f g) (hgh : Extends g h) :
    Extends f h := fun k v hk => hgh k v (hfg k v hk)

variable [Ord β] [Std.TransOrd β] {f : ExtTreeMap κ β} {g : ExtTreeMap β κ}

/-- Every entry of the first table is found in the second from its value. -/
def PointsBack (f : ExtTreeMap κ β) (g : ExtTreeMap β κ) : Prop :=
  ∀ (k : κ) (v : β), f[k]? = some v → g[v]? = some k

/-- Each of the two tables is the inverse of the other. -/
def MutuallyInverse (f : ExtTreeMap κ β) (g : ExtTreeMap β κ) : Prop :=
  ∀ (k : κ) (v : β), f[k]? = some v ↔ g[v]? = some k

theorem PointsBack.injective (h : PointsBack f g) {k k' : κ} {v : β} (hk : f[k]? = some v)
    (hk' : f[k']? = some v) : k = k' := Option.some.inj ((h k v hk).symm.trans (h k' v hk'))

theorem MutuallyInverse.symm (h : MutuallyInverse f g) : MutuallyInverse g f :=
  fun k v => (h v k).symm

theorem PointsBack.mutuallyInverse (h : PointsBack f g) (h' : PointsBack g f) :
    MutuallyInverse f g := fun k v => ⟨h k v, h' v k⟩

theorem MutuallyInverse.pointsBack (h : MutuallyInverse f g) : PointsBack f g :=
  fun k v hk => (h k v).mp hk

variable [Std.LawfulEqOrd κ] [Std.LawfulEqOrd β]

theorem MutuallyInverse.size_le (h : MutuallyInverse f g) : f.size ≤ g.size := by
  have hnodup : (f.toList.map Prod.snd).Nodup := by
    refine List.pairwise_map.mpr (f.distinct_keys_toList.imp_of_mem ?_)
    rintro ⟨k, v⟩ ⟨k', v'⟩ hk hk' hne rfl
    rw [ExtTreeMap.mem_toList_iff_getElem?_eq_some] at hk hk'
    obtain rfl := Option.some.inj (((h k v).mp hk).symm.trans ((h k' v).mp hk'))
    exact hne Std.ReflCmp.compare_self
  have hsub : f.toList.map Prod.snd ⊆ g.keys := by
    intro v hv
    obtain ⟨⟨k, w⟩, hk, rfl⟩ := List.mem_map.mp hv
    rw [ExtTreeMap.mem_toList_iff_getElem?_eq_some] at hk
    exact ExtTreeMap.mem_keys.mpr (mem_of_lookup ((h k w).mp hk))
  have hle := (hnodup.subperm hsub).length_le
  rwa [List.length_map, ExtTreeMap.length_toList, ExtTreeMap.length_keys] at hle

theorem MutuallyInverse.size_eq (h : MutuallyInverse f g) : f.size = g.size :=
  Nat.le_antisymm h.size_le h.symm.size_le

end Relations

section Updates

variable {κ β : Type*} [Ord κ] [Std.TransOrd κ] [Std.LawfulEqOrd κ] [DecidableEq κ]

@[simp] theorem lookup_insert (m : ExtTreeMap κ β) (k a : κ) (v : β) :
    (m.insert k v)[a]? = if k = a then some v else m[a]? := by
  simp [ExtTreeMap.getElem?_insert]

@[simp] theorem lookup_erase (m : ExtTreeMap κ β) (k a : κ) :
    (m.erase k)[a]? = if k = a then none else m[a]? := by
  simp [ExtTreeMap.getElem?_erase]

/-- A table holds no key twice, and writing or removing an entry leaves the other keys alone. Which
keys are the same is decided by `eq`. -/
structure TableByKey (eq : κ → κ → Bool) (m : ExtTreeMap κ β) : Prop where
  once : m.keys.Pairwise fun a b => ¬ eq a b
  insert : ∀ (a b : κ) (v : β), (m.insert a v)[b]? = if eq a b then some v else m[b]?
  erase : ∀ a b : κ, (m.erase a)[b]? = if eq a b then none else m[b]?

theorem tableByKey {eq : κ → κ → Bool} (heq : ∀ a b, eq a b ↔ a = b) (m : ExtTreeMap κ β) :
    TableByKey eq m where
  once := by
    apply m.distinct_keys.imp
    intro a b hne
    rw [heq]
    rintro rfl
    exact hne Std.ReflCmp.compare_self
  insert a b v := by simp [heq]
  erase a b := by simp [heq]

theorem lookup_insert_iff {m : ExtTreeMap κ β} {k a : κ} {v w : β} (hk : m[k]? = none) :
    (m.insert k v)[a]? = some w ↔ m[a]? = some w ∨ a = k ∧ w = v := by
  rw [lookup_insert]
  split_ifs with h
  · subst h
    simp [hk, eq_comm]
  · simp [Ne.symm h]

theorem Extends.insert {f : ExtTreeMap κ β} {k : κ} {v : β}
    (h : ∀ w : β, f[k]? = some w → w = v) : Extends f (f.insert k v) := by
  intro a w ha
  rw [lookup_insert]
  split_ifs with he
  · subst he
    rw [h w ha]
  · exact ha

variable [Ord β] [Std.TransOrd β] [Std.LawfulEqOrd β] [DecidableEq β] {f : ExtTreeMap κ β}
  {g : ExtTreeMap β κ} {k : κ} {v : β}

theorem PointsBack.insert (h : PointsBack f g) (hv : ∀ a : κ, g[v]? = some a → a = k) :
    PointsBack (f.insert k v) (g.insert v k) := by
  intro a w ha
  rw [lookup_insert] at ha ⊢
  split_ifs at ha with hka
  · obtain rfl := Option.some.inj ha
    rw [if_pos rfl, hka]
  · have hw := h a w ha
    split_ifs with hvw
    · subst hvw
      exact absurd (hv a hw).symm hka
    · exact hw

theorem PointsBack.erase (h : PointsBack f g) (hv : ∀ a : κ, g[v]? = some a → a = k) :
    PointsBack (f.erase k) (g.erase v) := by
  intro a w ha
  rw [lookup_erase] at ha ⊢
  split_ifs at ha with hka
  have hw := h a w ha
  split_ifs with hvw
  · subst hvw
    exact absurd (hv a hw).symm hka
  · exact hw

theorem MutuallyInverse.insert (h : MutuallyInverse f g) (hk : ∀ w : β, f[k]? = some w → w = v)
    (hv : ∀ a : κ, g[v]? = some a → a = k) : MutuallyInverse (f.insert k v) (g.insert v k) :=
  (h.pointsBack.insert hv).mutuallyInverse (h.symm.pointsBack.insert hk)

theorem MutuallyInverse.erase (h : MutuallyInverse f g) (hk : f[k]? = some v) :
    MutuallyInverse (f.erase k) (g.erase v) := by
  have hv := (h k v).mp hk
  refine (h.pointsBack.erase ?_).mutuallyInverse (h.symm.pointsBack.erase ?_)
  · exact fun a ha => Option.some.inj (ha.symm.trans hv)
  · exact fun w hw => Option.some.inj (hw.symm.trans hk)

/-- A key that moves to another value leaves its old value behind. -/
theorem not_mutuallyInverse_insert {w : β} (h : PointsBack f g) (hk : f[k]? = some w)
    (hne : w ≠ v) : ¬ MutuallyInverse (f.insert k v) (g.insert v k) := by
  intro hm
  have hw : (g.insert v k)[w]? = some k := by
    rw [lookup_insert, if_neg hne.symm]
    exact h k w hk
  have hv := (hm k w).mpr hw
  rw [lookup_insert, if_pos rfl] at hv
  exact hne (Option.some.inj hv).symm

end Updates

end Foundation
