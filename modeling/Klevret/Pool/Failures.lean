import Klevret.Pool.Invariant

/-! # Failed calls

A call returns or throws, and a call that throws leaves the pool as it was, with
every lookup and every nested call that it made. So a run can do without the
calls that threw.
-/

namespace Klevret

open Foundation

namespace AddressPool

section

variable [Host]

/-- When a call throws, and that it then changes nothing. -/
structure FailsCleanly (pool : AddressPool) (op : PoolOp) (outcome : Exec (Option IPv4Address))
    (pool' : AddressPool) : Prop where
  returns_or_throws : (∃ value, outcome = .ok value) ∨ outcome.Throws
  unchanged : outcome.Throws → pool' = pool
  reserve_ip : ∀ ip mac, op = .reserveIp ip mac → (outcome.Throws ↔
    ¬ pool.isAddressIncluded ip ∨ pool.isIpAddressReserved ip ∨ pool.isIpAddressTaken ip)
  unreserve_ip : ∀ ip, op = .unreserveIp ip → (outcome.Throws ↔ ¬ pool.isIpAddressReserved ip)
  exclude_ip : ∀ ip, op = .excludeIp ip → ¬ outcome.Throws
  exclude_ip_range : ∀ ipStart ipEnd, op = .excludeIpRange ipStart ipEnd → ¬ outcome.Throws

/-- Without its failed calls, a run has the same outcomes and the same last state. -/
structure FailuresInvisible (pool : AddressPool) (labels : List PoolLabel) (pool' : AddressPool) :
    Prop where
  clean : ∀ before label after p p', labels = before ++ label :: after →
    Run PoolStep pool before p → PoolStep p label p' → FailsCleanly p label.1 label.2 p'
  without_failures : Run PoolStep pool (labels.filter fun label => label.2.isOk) pool'

variable {pool pool' : AddressPool} {label : PoolLabel} {op : PoolOp}
  {outcome : Exec (Option IPv4Address)}

theorem perform_returns_or_throws (pool : AddressPool) (op : PoolOp) :
    (∃ value, (pool.perform op).1 = .ok value) ∨ (pool.perform op).1.Throws := by
  unfold perform
  cases op with
  | excludeIp ip =>
    simp only [call, EStateM.run_bind, run_excludeIp]
    exact Or.inl ⟨none, rfl⟩
  | excludeIpRange ipStart ipEnd =>
    simp only [call, EStateM.run_bind, run_excludeIpRange]
    exact Or.inl ⟨none, rfl⟩
  | reserveIp ip mac =>
    simp only [call, EStateM.run_bind, run_reserveIp]
    split_ifs
    · exact Or.inr ⟨_, rfl⟩
    · exact Or.inr ⟨_, rfl⟩
    · exact Or.inl ⟨none, rfl⟩
    · exact Or.inr ⟨_, rfl⟩
  | unreserveIp ip =>
    simp only [call, EStateM.run_bind, run_unreserveIp]
    cases pool.reservedIpAddresses[ip]? with
    | some mac => exact Or.inl ⟨none, rfl⟩
    | none => exact Or.inr ⟨_, rfl⟩
  | getAddress mac =>
    simp only [call, EStateM.run_bind, run_getAddress]
    cases pool.reservedMacAddresses[mac]? with
    | some ip => exact Or.inl ⟨_, rfl⟩
    | none =>
      cases pool.takenMacAddresses[mac]? with
      | some ip => exact Or.inl ⟨_, rfl⟩
      | none =>
        cases pool.cache[mac]? with
        | some ip => exact Or.inl ⟨_, rfl⟩
        | none =>
          cases pool.firstFree with
          | some ip => exact Or.inl ⟨_, rfl⟩
          | none => exact Or.inr ⟨_, rfl⟩
  | releaseAddress ip => exact Or.inl ⟨none, rfl⟩
  | setOption option => exact Or.inl ⟨none, rfl⟩
  | removeOption optionNumber => exact Or.inl ⟨none, rfl⟩

theorem PoolStep.returns_or_throws (hs : PoolStep pool label pool') :
    (∃ value, label.2 = .ok value) ∨ label.2.Throws := by
  have h := perform_returns_or_throws pool label.1
  have hp : pool.perform label.1 = (label.2, pool') := hs
  rwa [hp] at h

/-- A call without a value leaves the pool as it was. -/
theorem Effect.unchanged {e : Stop} (he : Effect pool op (.error e) pool') : pool' = pool := by
  cases he <;> rfl

theorem Effect.reserve_fails_iff {ip : IPv4Address} {mac : MacAddress}
    (he : Effect pool (.reserveIp ip mac) outcome pool') :
    (∃ e, outcome = .error e) ↔ ¬ pool.isAddressIncluded ip ∨ pool.isIpAddressReserved ip ∨
      pool.isIpAddressTaken ip := by
  rw [isAddressIncluded_iff, isIpAddressReserved_iff, isIpAddressTaken_iff]
  cases he with
  | reserve _ hin hr ht =>
    simp [hin, not_mem_of_lookup hr, not_mem_of_lookup ht]
  | notReserved _ e hn =>
    refine iff_of_true ⟨e, rfl⟩ ?_
    by_contra hfree
    push Not at hfree
    exact hn ⟨hfree.1, Std.ExtTreeMap.getElem?_eq_none hfree.2.1,
      Std.ExtTreeMap.getElem?_eq_none hfree.2.2⟩

theorem Effect.unreserve_fails_iff {ip : IPv4Address}
    (he : Effect pool (.unreserveIp ip) outcome pool') :
    (∃ e, outcome = .error e) ↔ ¬ pool.isIpAddressReserved ip := by
  rw [isIpAddressReserved_iff]
  cases he with
  | unreserve hr => simp [mem_of_lookup hr]
  | notUnreserved e hr => exact iff_of_true ⟨e, rfl⟩ (not_mem_of_lookup hr)

theorem PoolStep.failsCleanly (hs : PoolStep pool label pool') :
    FailsCleanly pool label.1 label.2 pool' := by
  obtain ⟨op, outcome⟩ := label
  have he := hs.effect
  have hthrows : outcome.Throws ↔ ∃ e, outcome = .error e := by
    rcases hs.returns_or_throws with ⟨value, rfl⟩ | ⟨e, rfl⟩ <;> simp [Exec.Throws]
  simp only at he ⊢
  constructor
  · exact hs.returns_or_throws
  · rintro ⟨e, rfl⟩
    exact he.unchanged
  · rintro ip mac rfl
    rw [hthrows]
    exact he.reserve_fails_iff
  · rintro ip rfl
    rw [hthrows]
    exact he.unreserve_fails_iff
  · rintro ip rfl
    cases he
    exact Exec.not_throws_ok none
  · rintro ipStart ipEnd rfl
    cases he
    exact Exec.not_throws_ok none

theorem failuresInvisible {labels : List PoolLabel} (hr : Run PoolStep pool labels pool') :
    FailuresInvisible pool labels pool' where
  clean _ _ _ _ _ _ _ hs := hs.failsCleanly
  without_failures := by
    apply hr.filter
    rintro p ⟨op, outcome⟩ p' hs hfail
    cases outcome with
    | ok value => simp [Except.isOk, Except.toBool] at hfail
    | error e => exact hs.effect.unchanged

end

/-- A reservation that fails, between two that succeed. -/
theorem failuresInvisible_sample :
    letI : Host := ⟨.little⟩
    let run := replay perform samplePool [.reserveIp (sampleIp 1) (sampleMac 1),
      .reserveIp (sampleIp 1) (sampleMac 2), .reserveIp (sampleIp 2) (sampleMac 2)]
    FailuresInvisible samplePool run.1 run.2 := by
  let host : Host := ⟨.little⟩
  exact failuresInvisible (run_replay perform samplePool _)

end AddressPool

end Klevret
