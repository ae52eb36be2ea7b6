import Klevret.Server.Survival

/-! # Addresses from several pools

`have_free_address` only counts the pools, and `take_address` only asks the first
one. Whether the guard is right, and whether the other pools are of any use, is
decided by the free addresses of the first pool and the clients it knows.
-/

namespace Klevret

open Foundation

section

variable [Host]

inductive AllocationOp where
  | addAddressPool (pool : AddressPool) (error : String)
  | takeAddress (mac : MacAddress)

/-- A call with the address that it returned, if any. -/
abbrev AllocationLabel := AllocationOp × Exec (Option IPv4Address)

namespace ServerState

def allocate (state : ServerState) : AllocationOp → Exec (Option IPv4Address) × ServerState
  | .addAddressPool pool error =>
    (.ok none, { state with toDhcpServer := (state.toDhcpServer.addAddressPool pool error).2 })
  | .takeAddress mac => observe ((do return some (← takeAddress mac) : ServerM _).run state)

/-- Calls with a pool that the program can build. -/
def AllocationStep : ServerState → AllocationLabel → ServerState → Prop :=
  Guarded (Calls allocate) fun _ label => ∀ pool error,
    label.1 = .addAddressPool pool error → pool.Reachable

/-- If there is a free address by the guard, every client is given one. -/
def GuardSound (state : ServerState) : Prop :=
  state.haveFreeAddress = true → ∀ mac, ∃ ip state', (takeAddress mac).run state = .ok ip state'

/-- A client that is given no address would be given none by any pool. -/
def UsesEveryPool (state : ServerState) : Prop :=
  ∀ mac, (∃ e state', (takeAddress mac).run state = .error (.throws e) state') →
    ∀ pool ∈ state.addressPools,
      ∃ e pool', (AddressPool.getAddress mac).run pool = .error (.throws e) pool'

/-- A call leaves a free address in the first pool. -/
def SparesOne (state : ServerState) : AllocationLabel → Prop
  | (.addAddressPool pool _, _) => state.addressPools = [] → pool.HasFree
  | (.takeAddress mac, _) => ∀ pool ∈ state.addressPools.head?, pool.Knows mac ∨
      ∃ ip ip', ip ≠ ip' ∧ pool.Free ip ∧ pool.Free ip'

/-- The first pool has a free address, or the others have none and know nobody else. -/
def FirstSuffices (state : ServerState) : Prop :=
  match state.addressPools with
  | [] => True
  | pool :: pools =>
    pool.HasFree ∨ ∀ other ∈ pools, ¬ other.HasFree ∧ ∀ mac, other.Knows mac → pool.Knows mac

variable {state state' : ServerState} {label : AllocationLabel} {pool : AddressPool}
  {pools : List AddressPool} {mac : MacAddress}

theorem takeAddress_ok_iff (hp : state.addressPools = pool :: pools) :
    (∃ ip state', (takeAddress mac).run state = .ok ip state') ↔ pool.CanServe mac := by
  rw [run_takeAddress hp, AddressPool.canServe_iff]
  cases (AddressPool.getAddress mac).run pool <;> simp

theorem getAddress_throws_iff (pool : AddressPool) (mac : MacAddress) :
    (∃ e pool', (AddressPool.getAddress mac).run pool = .error (.throws e) pool') ↔
      ¬ pool.CanServe mac := by
  rw [AddressPool.canServe_iff, AddressPool.run_getAddress]
  cases pool.reservedMacAddresses[mac]? <;> cases pool.takenMacAddresses[mac]? <;>
    cases pool.cache[mac]? <;> cases pool.firstFree <;> simp

theorem takeAddress_throws_iff (hp : state.addressPools = pool :: pools) :
    (∃ e state', (takeAddress mac).run state = .error (.throws e) state') ↔
      ¬ pool.CanServe mac := by
  rw [run_takeAddress hp, ← getAddress_throws_iff]
  cases (AddressPool.getAddress mac).run pool <;> simp

theorem run_takeAddress_nil (hp : state.addressPools = []) (mac : MacAddress) :
    (takeAddress mac).run state = .error (.throws .outOfRange) state := by
  simp only [takeAddress, EStateM.run_bind, EStateM.run_get, hp]
  rfl

theorem allocate_takeAddress (hp : state.addressPools = pool :: pools) (mac : MacAddress) :
    state.allocate (.takeAddress mac) =
      ((pool.perform (.getAddress mac)).1,
        { state with addressPools := (pool.perform (.getAddress mac)).2 :: pools }) := by
  simp only [allocate, AddressPool.perform, AddressPool.call, EStateM.run_bind,
    run_takeAddress hp]
  cases (AddressPool.getAddress mac).run pool <;> rfl

theorem allocate_takeAddress_nil (hp : state.addressPools = []) (mac : MacAddress) :
    state.allocate (.takeAddress mac) = (.error (.throws .outOfRange), state) := by
  simp only [allocate, EStateM.run_bind, run_takeAddress_nil hp]
  rfl

theorem deterministic_allocationStep : Deterministic AllocationStep := by
  intro s a t t' h h'
  exact deterministic_calls allocate s a t t' h.1 h'.1

theorem throws_of_allocate {e : Exception}
    (h : (state.allocate (.takeAddress mac)).1 = .error (.throws e)) :
    ∃ e state', (takeAddress mac).run state = .error (.throws e) state' := by
  simp only [allocate, EStateM.run_bind] at h
  cases hrun : (takeAddress mac).run state with
  | ok ip state' => simp [hrun, observe] at h
  | error stop state' =>
    simp only [hrun, observe, Except.error.injEq] at h
    exact ⟨e, state', by rw [h]⟩

/-- A call adds a pool, changes nothing, or takes an address from the first pool. -/
theorem AllocationStep.cases (h : AllocationStep state label state') :
    (∃ pool error, label.1 = .addAddressPool pool error ∧ pool.Reachable ∧
      (state' = { state with addressPools := state.addressPools ++ [pool] } ∨
        state.addressPools ≠ [] ∧ state' = state)) ∨
    ∃ mac, label.1 = .takeAddress mac ∧
      (state.addressPools = [] ∧ state' = state ∨
        ∃ pool pools pool', state.addressPools = pool :: pools ∧
          AddressPool.Effect pool (.getAddress mac) label.2 pool' ∧
          state' = { state with addressPools := pool' :: pools }) := by
  obtain ⟨op, outcome⟩ := label
  obtain ⟨hc, hr⟩ := h
  cases op with
  | addAddressPool pool error =>
    refine Or.inl ⟨pool, error, rfl, hr pool error rfl, ?_⟩
    obtain ⟨-, rfl⟩ := Prod.mk.inj hc
    simp only [DhcpServer.addAddressPool]
    split_ifs with hx
    · refine Or.inr ⟨?_, rfl⟩
      intro hnil
      simp [hnil, DhcpServer.intersectsSome] at hx
    · exact Or.inl rfl
  | takeAddress mac =>
    refine Or.inr ⟨mac, rfl, ?_⟩
    have hc' : state.allocate (.takeAddress mac) = (outcome, state') := hc
    cases hp : state.addressPools with
    | nil =>
      rw [allocate_takeAddress_nil hp] at hc'
      obtain ⟨-, rfl⟩ := Prod.mk.inj hc'
      exact Or.inl ⟨rfl, rfl⟩
    | cons pool pools =>
      rw [allocate_takeAddress hp] at hc'
      obtain ⟨rfl, rfl⟩ := Prod.mk.inj hc'
      exact Or.inr ⟨pool, pools, _, rfl, AddressPool.effect_call pool (.getAddress mac), rfl⟩

def PoolsConsistent (state : ServerState) : Prop := ∀ pool ∈ state.addressPools, pool.Consistent

theorem PoolsConsistent.step (h : PoolsConsistent state) (hs : AllocationStep state label state') :
    PoolsConsistent state' := by
  rcases hs.cases with ⟨new, _, _, hnew, rfl | ⟨_, rfl⟩⟩ | ⟨mac, _, hcases⟩
  · intro pool hmem
    rcases List.mem_append.mp hmem with hmem | hmem
    · exact h pool hmem
    · obtain rfl := List.mem_singleton.mp hmem
      exact hnew.consistent
  · exact h
  · rcases hcases with ⟨_, rfl⟩ | ⟨first, rest, first', hp, he, rfl⟩
    · exact h
    · simp only [PoolsConsistent, hp, List.forall_mem_cons] at h
      exact List.forall_mem_cons.mpr ⟨h.1.effect he, h.2⟩

theorem PoolsConsistent.run {labels : List AllocationLabel} (h : PoolsConsistent state)
    (hr : Run AllocationStep state labels state') : PoolsConsistent state' :=
  hr.invariant (fun _ _ _ h hs => h.step hs) h

theorem guardSound_iff (h : PoolsConsistent state) :
    GuardSound state ↔ ∀ pool ∈ state.addressPools.head?, pool.HasFree := by
  unfold GuardSound
  rw [haveFreeAddress_iff]
  cases hp : state.addressPools with
  | nil => simp
  | cons pool pools =>
    simp only [takeAddress_ok_iff hp, List.head?_cons, Option.mem_some_iff, forall_eq',
      AddressPool.canServe_iff_knows]
    constructor
    · intro hs
      obtain ⟨mac, hnew⟩ := (h pool (by simp [hp])).exists_newcomer
      exact (hs ⟨pool, pools, rfl⟩ mac).resolve_left hnew
    · intro hf _ mac
      exact Or.inr hf

/-- No client is turned away that a later pool could serve, exactly when the first pool suffices. -/
theorem usesEveryPool_iff_firstSuffices (h : PoolsConsistent state) :
    UsesEveryPool state ↔ FirstSuffices state := by
  unfold UsesEveryPool FirstSuffices
  cases hp : state.addressPools with
  | nil => simp
  | cons pool pools =>
    simp only [takeAddress_throws_iff hp, getAddress_throws_iff, List.forall_mem_cons,
      AddressPool.canServe_iff_knows, not_or]
    constructor
    · intro hu
      by_cases hf : pool.HasFree
      · exact Or.inl hf
      · refine Or.inr fun other hmem => ⟨?_, fun mac hk => ?_⟩
        · obtain ⟨mac, hnew⟩ := (h pool (by simp [hp])).exists_newcomer
          exact ((hu mac ⟨hnew, hf⟩).2 other hmem).2
        · by_contra hnew
          exact ((hu mac ⟨hnew, hf⟩).2 other hmem).1 hk
    · rintro hcases mac ⟨hnew, hf⟩
      refine ⟨⟨hnew, hf⟩, fun other hmem => ?_⟩
      obtain ⟨hnone, hknows⟩ := hcases.resolve_left hf other hmem
      exact ⟨fun hk => hnew (hknows mac hk), hnone⟩

theorem usesEveryPool_iff {state₀ : ServerState} {labels : List AllocationLabel}
    (hempty : state₀.addressPools = []) (hr : Run AllocationStep state₀ labels state) :
    UsesEveryPool state ↔ FirstSuffices state := by
  have h : PoolsConsistent state₀ := by simp [PoolsConsistent, hempty]
  exact usesEveryPool_iff_firstSuffices (h.run hr)

/-- A call keeps a free address in the first pool exactly when it spares one. -/
theorem AllocationStep.hasFree_iff (h : PoolsConsistent state)
    (hs : AllocationStep state label state')
    (hf : ∀ pool ∈ state.addressPools.head?, pool.HasFree) :
    (∀ pool ∈ state'.addressPools.head?, pool.HasFree) ↔ SparesOne state label := by
  obtain ⟨op, outcome⟩ := label
  rcases hs.cases with ⟨new, error, rfl, -, hcases⟩ | ⟨mac, rfl, hcases⟩
  · simp only [SparesOne]
    rcases hcases with rfl | ⟨hne, rfl⟩
    · cases hp : state.addressPools with
      | nil => simp
      | cons pool pools => simpa [hp] using hf
    · exact iff_of_true hf fun hnil => absurd hnil hne
  · simp only [SparesOne]
    rcases hcases with ⟨hnil, rfl⟩ | ⟨pool, pools, pool', hp, he, rfl⟩
    · simp [hnil]
    · simp only [hp, List.head?_cons, Option.mem_some_iff, forall_eq'] at hf ⊢
      by_cases hk : pool.Knows mac
      · obtain ⟨ip, hip⟩ := hf
        have hc := h pool (by simp [hp])
        exact iff_of_true ⟨ip, (he.free_known hc hk).mpr hip⟩ (Or.inl hk)
      · rw [he.hasFree_newcomer hk, or_iff_right hk]

/-- The guard is right in every state of a run exactly when every call of the run spares an
address. -/
theorem guardSound_run_iff {state₀ : ServerState} {labels : List AllocationLabel}
    (hempty : state₀.addressPools = []) (hr : Run AllocationStep state₀ labels state) :
    (∀ before after s, labels = before ++ after → Run AllocationStep state₀ before s →
      GuardSound s) ↔ Run (Guarded AllocationStep SparesOne) state₀ labels state := by
  have h : PoolsConsistent state₀ := by simp [PoolsConsistent, hempty]
  have hkeep : ∀ before s, Run (Guarded AllocationStep SparesOne) state₀ before s →
      PoolsConsistent s ∧ ∀ pool ∈ s.addressPools.head?, pool.HasFree := by
    intro before s hs
    refine hs.invariant (I := fun s => PoolsConsistent s ∧
      ∀ pool ∈ s.addressPools.head?, pool.HasFree) ?_ ⟨h, by simp [hempty]⟩
    rintro s label s' ⟨hc, hf⟩ ⟨hstep, hspare⟩
    exact ⟨hc.step hstep, (hstep.hasFree_iff hc hf).mpr hspare⟩
  refine Run.always_iff_guarded ?_ ?_ deterministic_allocationStep hr
  · intro before s hs
    obtain ⟨hc, hf⟩ := hkeep before s hs
    exact (guardSound_iff hc).mpr hf
  · intro before s label s' hs hstep hn hsound
    obtain ⟨hc, hf⟩ := hkeep before s hs
    exact hn ((hstep.hasFree_iff hc hf).mp ((guardSound_iff (hc.step hstep)).mp hsound))

theorem run_allocation (ops : List AllocationOp)
    (h : ∀ pool error, .addAddressPool pool error ∈ ops → pool.Reachable) :
    Run AllocationStep state (replay allocate state ops).1 (replay allocate state ops).2 := by
  apply (run_replay allocate state ops).guarded_of_forall
  intro label hmem pool error he
  exact h pool error (he ▸ mem_of_mem_replay hmem)

end ServerState

end

def secondPool : @AddressPool ⟨.little⟩ :=
  (@AddressPool.new ⟨.little⟩ 3 (AddressPool.sampleIp 3) (AddressPool.sampleIp 4)).get (by decide)

theorem reachable_secondPool : @AddressPool.Reachable ⟨.little⟩ secondPool :=
  ⟨secondPool, [], ⟨3, AddressPool.sampleIp 3, AddressPool.sampleIp 4, (Option.some_get _).symm⟩,
    .nil secondPool⟩

/-- Add both pools, then take an address for each of these clients. -/
def allocationOps (clients : List UInt8) : List (@AllocationOp ⟨.little⟩) :=
  letI : Host := ⟨.little⟩
  .addAddressPool AddressPool.samplePool "" :: .addAddressPool secondPool "" ::
    clients.map fun last => .takeAddress (AddressPool.sampleMac last)

namespace ServerState

theorem run_allocationOps (clients : List UInt8) :
    letI : Host := ⟨.little⟩
    Run AllocationStep sampleServer (replay allocate sampleServer (allocationOps clients)).1
      (replay allocate sampleServer (allocationOps clients)).2 := by
  let host : Host := ⟨.little⟩
  apply run_allocation _
  intro pool error hmem
  rcases List.mem_cons.mp hmem with he | hmem
  · obtain ⟨rfl, -⟩ := AllocationOp.addAddressPool.inj he
    exact AddressPool.reachable_samplePool
  · rcases List.mem_cons.mp hmem with he | hmem
    · obtain ⟨rfl, -⟩ := AllocationOp.addAddressPool.inj he
      exact reachable_secondPool
    · simp at hmem

theorem takeAddress_third :
    letI : Host := ⟨.little⟩
    let state := (replay allocate sampleServer (allocationOps [1, 2])).2
    state.haveFreeAddress = true ∧
      ∃ e, (allocate state (.takeAddress (AddressPool.sampleMac 3))).1 = .error (.throws e) := by
  refine ⟨by decide +kernel, .runtimeError "нет свободных адресов для выдачи", ?_⟩
  decide +kernel

theorem getAddress_secondPool :
    letI : Host := ⟨.little⟩
    (secondPool.perform (.getAddress (AddressPool.sampleMac 3))).1 =
      .ok (some (AddressPool.sampleIp 3)) := by decide +kernel

theorem secondPool_mem :
    letI : Host := ⟨.little⟩
    secondPool ∈ (replay allocate sampleServer (allocationOps [1, 2])).2.addressPools := by
  refine List.mem_of_mem_tail (?_ : secondPool ∈ [secondPool])
  exact List.mem_singleton_self secondPool

/-- The guard holds in a state in which a third client is refused. -/
theorem not_guardSound_sample :
    letI : Host := ⟨.little⟩
    let run := replay allocate sampleServer (allocationOps [1, 2])
    Run AllocationStep sampleServer run.1 run.2 ∧ ¬ GuardSound run.2 := by
  let host : Host := ⟨.little⟩
  refine ⟨run_allocationOps [1, 2], ?_⟩
  intro hs
  obtain ⟨hfree, e, he⟩ := takeAddress_third
  obtain ⟨e', state, hthrows⟩ := throws_of_allocate he
  obtain ⟨ip, state', hrun⟩ := hs hfree (AddressPool.sampleMac 3)
  simp [hthrows] at hrun

/-- One client leaves an address to spare. -/
theorem guardSound_run_sample :
    letI : Host := ⟨.little⟩
    let run := replay allocate sampleServer (allocationOps [1])
    (∀ before after s, run.1 = before ++ after → Run AllocationStep sampleServer before s →
      GuardSound s) ↔ Run (Guarded AllocationStep SparesOne) sampleServer run.1 run.2 := by
  let host : Host := ⟨.little⟩
  exact guardSound_run_iff rfl (run_allocationOps [1])

/-- The third client is refused although the second pool is untouched. -/
theorem not_usesEveryPool_sample :
    letI : Host := ⟨.little⟩
    let run := replay allocate sampleServer (allocationOps [1, 2])
    Run AllocationStep sampleServer run.1 run.2 ∧ ¬ UsesEveryPool run.2 := by
  let host : Host := ⟨.little⟩
  refine ⟨run_allocationOps [1, 2], ?_⟩
  intro hu
  obtain ⟨-, e, he⟩ := takeAddress_third
  obtain ⟨e', pool', hrun⟩ := hu (AddressPool.sampleMac 3) (throws_of_allocate he) secondPool
    secondPool_mem
  have hok := getAddress_secondPool
  simp only [AddressPool.perform, AddressPool.call, EStateM.run_bind] at hok
  rw [hrun] at hok
  simp only [observe, reduceCtorEq] at hok

/-- One client is served, and the next one would be. -/
theorem usesEveryPool_sample :
    letI : Host := ⟨.little⟩
    let run := replay allocate sampleServer (allocationOps [1])
    UsesEveryPool run.2 ↔ FirstSuffices run.2 := by
  let host : Host := ⟨.little⟩
  exact usesEveryPool_iff rfl (run_allocationOps [1])

end ServerState

end Klevret
