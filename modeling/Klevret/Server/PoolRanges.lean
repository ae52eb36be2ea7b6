import Klevret.Foundation.Run
import Klevret.Pool.Invariant
import Klevret.Server.DhcpServer

/-! # Ranges of the accepted pools

`add_address_pool` looks whether an end of the new range lies in a range that is
there. This misses one position: a new range that encloses a whole pool.
-/

namespace Klevret

open Foundation

section

variable [Host]

namespace IPv4AddressRange

def WellFormed (range : IPv4AddressRange) : Prop :=
  range.start.toUInt32 ≤ range.«end».toUInt32

instance (range : IPv4AddressRange) : Decidable range.WellFormed :=
  inferInstanceAs (Decidable (_ ≤ _))

def Meets (a b : IPv4AddressRange) : Prop := ∃ ip, a.contains ip = true ∧ b.contains ip = true

/-- The second range lies strictly between the ends of the first. -/
def Encloses (a b : IPv4AddressRange) : Prop :=
  a.start.toUInt32 < b.start.toUInt32 ∧ b.«end».toUInt32 < a.«end».toUInt32

variable {a b : IPv4AddressRange}

theorem Meets.symm (h : a.Meets b) : b.Meets a := by
  obtain ⟨ip, ha, hb⟩ := h
  exact ⟨ip, hb, ha⟩

theorem meets_iff (ha : a.WellFormed) (hb : b.WellFormed) :
    a.Meets b ↔ b.contains a.start = true ∨ b.contains a.«end» = true ∨ a.Encloses b := by
  simp only [WellFormed, UInt32.le_iff_toNat_le] at ha hb
  unfold Meets
  constructor
  · rintro ⟨ip, hia, hib⟩
    simp only [contains_iff, Encloses, UInt32.lt_iff_toNat_lt] at *
    omega
  · rintro (h | h | h)
    · exact ⟨a.start, contains_iff.mpr ⟨le_rfl, ha⟩, h⟩
    · exact ⟨a.«end», contains_iff.mpr ⟨ha, le_rfl⟩, h⟩
    · simp only [Encloses, UInt32.lt_iff_toNat_lt] at h
      refine ⟨b.start, ?_, ?_⟩
      · exact contains_iff.mpr ⟨by omega, by omega⟩
      · exact contains_iff.mpr ⟨le_rfl, hb⟩

end IPv4AddressRange

namespace DhcpServer

/-- A call of `add_address_pool` with the text in `error`, and what it returned and left there. -/
abbrev AddLabel := (AddressPool × String) × (Bool × String)

def performAdd (server : DhcpServer) (call : AddressPool × String) :
    (Bool × String) × DhcpServer := server.addAddressPool call.1 call.2

/-- Calls with a range that does not end before it starts. -/
def AddStep : DhcpServer → AddLabel → DhcpServer → Prop :=
  Guarded (Calls performAdd) fun _ label => label.1.1.addressesRange.WellFormed

/-- The new range meets the range of an accepted pool. -/
def Intersects (server : DhcpServer) (pool : AddressPool) : Prop :=
  ∃ current ∈ server.addressPools, pool.addressesRange.Meets current.addressesRange

/-- A pool that meets none is appended, and any other pool changes nothing. -/
def Judged (server : DhcpServer) (label : AddLabel) (server' : DhcpServer) : Prop :=
  (label.2.1 = true ∧ server'.addressPools = server.addressPools ++ [label.1.1] ↔
      ¬ server.Intersects label.1.1) ∧
    (label.2.1 = false ∧ server'.addressPools = server.addressPools ↔
      server.Intersects label.1.1)

/-- No two accepted pools share an address. -/
def PoolsDisjoint (server : DhcpServer) : Prop :=
  server.addressPools.Pairwise fun p q => ¬ p.addressesRange.Meets q.addressesRange

/-- An accepted pool contains an end of the new range, or the new range encloses none. -/
def Detects (server : DhcpServer) (label : AddLabel) : Prop :=
  (∃ current ∈ server.addressPools,
    current.addressesRange.contains label.1.1.addressesRange.start = true ∨
      current.addressesRange.contains label.1.1.addressesRange.«end» = true) ∨
  ∀ current ∈ server.addressPools,
    ¬ label.1.1.addressesRange.Encloses current.addressesRange

variable {server server' : DhcpServer} {label : AddLabel} {pool : AddressPool}

theorem deterministic_addStep : Deterministic AddStep := by
  intro s a t t' h h'
  exact deterministic_calls _ s a t t' h.1 h'.1

/-- The calls with these pools, one after the other. -/
def history (server : DhcpServer) (pools : List AddressPool) : List AddLabel × DhcpServer :=
  replay performAdd server (pools.map fun pool => (pool, ""))

theorem run_history (server : DhcpServer) (pools : List AddressPool)
    (h : ∀ pool ∈ pools, pool.addressesRange.WellFormed) :
    Run AddStep server (history server pools).1 (history server pools).2 := by
  apply (run_replay performAdd server _).guarded_of_forall
  intro label hmem
  obtain ⟨pool, hpool, he⟩ := List.mem_map.mp (mem_of_mem_replay hmem)
  rw [← he]
  exact h pool hpool

theorem intersectsSome_iff {adding : IPv4AddressRange} {pools : List AddressPool} :
    intersectsSome adding pools = true ↔ ∃ current ∈ pools,
      current.addressesRange.contains adding.start = true ∨
        current.addressesRange.contains adding.«end» = true := by
  induction pools with
  | nil => simp [intersectsSome]
  | cons first rest ih =>
    rw [List.exists_mem_cons_iff, ← ih]
    simp [intersectsSome, IPv4AddressRange.contains, AddressPool.getAddressesRange, or_assoc]

theorem AddStep.cases (h : AddStep server label server') :
    label.1.1.addressesRange.WellFormed ∧
      (intersectsSome label.1.1.addressesRange server.addressPools = true ∧ label.2.1 = false ∧
          server' = server ∨
        intersectsSome label.1.1.addressesRange server.addressPools = false ∧ label.2.1 = true ∧
          server' = { server with addressPools := server.addressPools ++ [label.1.1] }) := by
  obtain ⟨hc, hw⟩ := h
  refine ⟨hw, ?_⟩
  obtain ⟨⟨pool, error⟩, ⟨accepted, text⟩⟩ := label
  simp only [Calls, performAdd, addAddressPool, AddressPool.getAddressesRange] at hc
  cases hx : intersectsSome pool.addressesRange server.addressPools with
  | true =>
    simp only [hx, if_true, Prod.mk.injEq] at hc
    obtain ⟨⟨rfl, -⟩, rfl⟩ := hc
    exact Or.inl ⟨rfl, rfl, rfl⟩
  | false =>
    simp only [hx, Bool.false_eq_true, if_false, Prod.mk.injEq] at hc
    obtain ⟨⟨rfl, -⟩, rfl⟩ := hc
    exact Or.inr ⟨rfl, rfl, rfl⟩

def WellFormed (server : DhcpServer) : Prop :=
  ∀ current ∈ server.addressPools, current.addressesRange.WellFormed

theorem WellFormed.step (h : WellFormed server) (hs : AddStep server label server') :
    WellFormed server' := by
  obtain ⟨hw, ⟨-, -, rfl⟩ | ⟨-, -, rfl⟩⟩ := hs.cases
  · exact h
  · intro current hmem
    rcases List.mem_append.mp hmem with hmem | hmem
    · exact h current hmem
    · obtain rfl := List.mem_singleton.mp hmem
      exact hw

/-- The test of the loop is right except for ranges that enclose a pool. -/
theorem intersects_iff (h : WellFormed server) (hw : pool.addressesRange.WellFormed) :
    server.Intersects pool ↔
      intersectsSome pool.addressesRange server.addressPools = true ∨
        ∃ current ∈ server.addressPools, pool.addressesRange.Encloses current.addressesRange := by
  rw [intersectsSome_iff]
  constructor
  · rintro ⟨current, hmem, hmeet⟩
    rcases (IPv4AddressRange.meets_iff hw (h current hmem)).mp hmeet with hs | he | hx
    · exact Or.inl ⟨current, hmem, Or.inl hs⟩
    · exact Or.inl ⟨current, hmem, Or.inr he⟩
    · exact Or.inr ⟨current, hmem, hx⟩
  · rintro (⟨current, hmem, hs | he⟩ | ⟨current, hmem, hx⟩)
    · exact ⟨current, hmem, (IPv4AddressRange.meets_iff hw (h current hmem)).mpr (Or.inl hs)⟩
    · exact ⟨current, hmem,
        (IPv4AddressRange.meets_iff hw (h current hmem)).mpr (Or.inr (Or.inl he))⟩
    · exact ⟨current, hmem,
        (IPv4AddressRange.meets_iff hw (h current hmem)).mpr (Or.inr (Or.inr hx))⟩

theorem AddStep.judged_iff (h : WellFormed server) (hs : AddStep server label server') :
    Judged server label server' ↔ Detects server label := by
  obtain ⟨hw, hcases⟩ := hs.cases
  unfold Judged Detects
  rw [← intersectsSome_iff, intersects_iff h hw]
  rcases hcases with ⟨hx, ha, rfl⟩ | ⟨hx, ha, rfl⟩
  · simp [hx, ha]
  · simp [hx, ha]

theorem PoolsDisjoint.step (hd : PoolsDisjoint server) (hs : AddStep server label server')
    (hj : Judged server label server') : PoolsDisjoint server' := by
  obtain ⟨-, ⟨-, -, rfl⟩ | ⟨-, ha, rfl⟩⟩ := hs.cases
  · exact hd
  · have hnone := hj.1.mp ⟨ha, rfl⟩
    refine List.pairwise_append.mpr ⟨hd, List.pairwise_singleton _ _, ?_⟩
    intro current hmem new hnew hmeet
    obtain rfl := List.mem_singleton.mp hnew
    exact hnone ⟨current, hmem, hmeet.symm⟩

/-- The calls of a history are judged by their ranges, and the accepted pools stay disjoint. -/
structure KeepsDisjoint (server₀ : DhcpServer) (labels : List AddLabel) : Prop where
  judged : ∀ before label after server server', labels = before ++ label :: after →
    Run AddStep server₀ before server → AddStep server label server' → Judged server label server'
  disjoint : ∀ before after server, labels = before ++ after →
    Run AddStep server₀ before server → PoolsDisjoint server

theorem disjoint_run {labels : List AddLabel} (h : WellFormed server)
    (hd : PoolsDisjoint server) (hr : Run (Guarded AddStep Detects) server labels server') :
    WellFormed server' ∧ PoolsDisjoint server' := by
  induction hr with
  | nil => exact ⟨h, hd⟩
  | cons hs _ ih => exact ih (h.step hs.1) (hd.step hs.1 ((hs.1.judged_iff h).mpr hs.2))

/-- Pools are kept disjoint in exactly the histories without a call whose range encloses a pool
and has no end in another. -/
theorem keepsDisjoint_iff {server₀ : DhcpServer} {labels : List AddLabel}
    (hempty : server₀.addressPools = []) (hr : Run AddStep server₀ labels server) :
    KeepsDisjoint server₀ labels ↔ Run (Guarded AddStep Detects) server₀ labels server := by
  have hw : WellFormed server₀ := by simp [WellFormed, hempty]
  have hd : PoolsDisjoint server₀ := by simp [PoolsDisjoint, hempty]
  constructor
  · intro hk
    rcases hr.guarded_or_first Detects with hg | ⟨before, label, after, s, s', rfl, hg, hs, hn, -⟩
    · exact hg
    · have hj := hk.judged before label after s s' rfl hg.of_guarded hs
      exact absurd ((hs.judged_iff (disjoint_run hw hd hg).1).mp hj) hn
  · intro hg
    constructor
    · rintro before label after s s' rfl hs hstep
      obtain ⟨t, t', hbefore, ht, -⟩ := hg.split_cons
      obtain rfl := Run.deterministic deterministic_addStep hs hbefore.of_guarded
      exact (hstep.judged_iff (disjoint_run hw hd hbefore).1).mpr ht.2
    · rintro before after s rfl hs
      obtain ⟨t, hbefore, -⟩ := hg.split
      obtain rfl := Run.deterministic deterministic_addStep hs hbefore.of_guarded
      exact (disjoint_run hw hd hbefore).2

end DhcpServer

end

def enclosingPool : @AddressPool ⟨.little⟩ :=
  (@AddressPool.new ⟨.little⟩ 5 (AddressPool.sampleIp 0) (AddressPool.sampleIp 3)).get (by decide)

namespace DhcpServer

theorem wellFormed_samplePools :
    letI : Host := ⟨.little⟩
    ∀ pool ∈ [AddressPool.samplePool, enclosingPool], pool.addressesRange.WellFormed := by decide

/-- The second pool encloses the first and is accepted. -/
theorem not_keepsDisjoint_sample :
    letI : Host := ⟨.little⟩
    let calls := history ⟨[], []⟩ [AddressPool.samplePool, enclosingPool]
    Run AddStep ⟨[], []⟩ calls.1 calls.2 ∧ ¬ KeepsDisjoint ⟨[], []⟩ calls.1 := by
  let host : Host := ⟨.little⟩
  have hr := run_history ⟨[], []⟩ _ wellFormed_samplePools
  refine ⟨hr, ?_⟩
  intro hk
  have hranges : (history ⟨[], []⟩ [AddressPool.samplePool, enclosingPool]).2.addressPools.map
      AddressPool.addressesRange =
      [⟨AddressPool.sampleIp 1, AddressPool.sampleIp 2⟩,
        ⟨AddressPool.sampleIp 0, AddressPool.sampleIp 3⟩] := by decide
  have hd : ((history ⟨[], []⟩ [AddressPool.samplePool, enclosingPool]).2.addressPools.map
      AddressPool.addressesRange).Pairwise fun a b => ¬ a.Meets b :=
    List.pairwise_map.mpr (hk.disjoint _ [] _ (List.append_nil _).symm hr)
  rw [hranges, List.pairwise_pair] at hd
  exact hd ⟨AddressPool.sampleIp 1, by decide⟩

/-- Two calls on a server without pools. -/
theorem keepsDisjoint_sample :
    letI : Host := ⟨.little⟩
    let calls := history ⟨[], []⟩ [AddressPool.samplePool, enclosingPool]
    KeepsDisjoint ⟨[], []⟩ calls.1 ↔ Run (Guarded AddStep Detects) ⟨[], []⟩ calls.1 calls.2 := by
  let host : Host := ⟨.little⟩
  exact keepsDisjoint_iff rfl (run_history ⟨[], []⟩ _ wellFormed_samplePools)

end DhcpServer

end Klevret
