import Klevret.Pool.Leases

/-! # Excluding an address

`exclude_ip` calls `unreserve_ip`, which erases by MAC, and `release_address`,
which does nothing. What it leaves behind depends on the lease and the
reservation of the address.
-/

namespace Klevret

open Foundation
open Std (ExtTreeMap)

/-- The collections of a pool that `exclude_ip` is about. -/
inductive Collection
  | included | excluded | reservedIp | reservedMac | takenIp | takenMac | cache
  deriving DecidableEq

namespace AddressPool

section

variable [Host]

/-- An address occurs as an element, as a key or as a value. -/
def Occurs (pool : AddressPool) (ip : IPv4Address) : Collection → Prop
  | .included => ip ∈ pool.includedAddresses
  | .excluded => ip ∈ pool.excludedAddresses
  | .reservedIp => ∃ mac, pool.reservedIpAddresses[ip]? = some mac
  | .reservedMac => ∃ mac : MacAddress, pool.reservedMacAddresses[mac]? = some ip
  | .takenIp => ∃ mac, pool.takenIpAddresses[ip]? = some mac
  | .takenMac => ∃ mac : MacAddress, pool.takenMacAddresses[mac]? = some ip
  | .cache => ∃ mac : MacAddress, pool.cache[mac]? = some ip

/-- After `exclude_ip` the address is excluded and occurs nowhere else, the other addresses occur
where they did, and no later call returns the address. -/
def ExcludesForGood (pool : AddressPool) (ip : IPv4Address) : Prop :=
  ∃ pool', (excludeIp ip).run pool = .ok () pool' ∧
    (∀ c, pool'.Occurs ip c ↔ c = .excluded) ∧
    (∀ other ≠ ip, ∀ c, pool'.Occurs other c ↔ pool.Occurs other c) ∧
    ∀ labels pool'', Run PoolStep pool' labels pool'' →
      ∀ mac, (PoolOp.getAddress mac, .ok (some ip)) ∉ labels

variable {pool pool' : AddressPool} {ip : IPv4Address} {mac : MacAddress}

theorem lookup_dropReservation_reservedIp (pool : AddressPool) (ip a : IPv4Address) :
    (pool.dropReservation ip).reservedIpAddresses[a]? =
      if ip = a then none else pool.reservedIpAddresses[a]? := by
  unfold dropReservation
  cases hr : pool.reservedIpAddresses[ip]? with
  | some mac => simp [withoutReservation]
  | none =>
    split_ifs with he
    · rw [← he, hr]
    · rfl

theorem lookup_dropReservation_reservedMac (pool : AddressPool) (ip : IPv4Address)
    (m : MacAddress) :
    (pool.dropReservation ip).reservedMacAddresses[m]? =
      if pool.reservedIpAddresses[ip]? = some m then none
      else pool.reservedMacAddresses[m]? := by
  unfold dropReservation
  cases hr : pool.reservedIpAddresses[ip]? with
  | some mac => simp [withoutReservation]
  | none => simp

theorem Consistent.without_eq (h : Consistent pool) (hin : ip ∈ pool.includedAddresses) :
    pool.without ip =
      { pool with
        includedAddresses := pool.includedAddresses.erase ip
        excludedAddresses := pool.excludedAddresses.insert ip
        reservedIpAddresses := (pool.dropReservation ip).reservedIpAddresses
        reservedMacAddresses := (pool.dropReservation ip).reservedMacAddresses } := by
  have h₁ : Consistent
      { pool with excludedAddresses := pool.excludedAddresses.insert ip } := { h with }
  simp only [AddressPool.without, hin, if_true, (h₁.dropReservation ip).dropCached]
  unfold AddressPool.dropReservation
  cases pool.reservedIpAddresses[ip]? <;> rfl

/-- The address can no longer be given out. -/
structure Gone (pool : AddressPool) (ip : IPv4Address) : Prop extends Consistent pool where
  not_included : ip ∉ pool.includedAddresses
  not_taken : pool.takenIpAddresses[ip]? = none

theorem Gone.not_reserved (h : Gone pool ip) : pool.reservedMacAddresses[mac]? ≠ some ip :=
  fun hr => h.not_included (h.included (h.reserved _ _ hr))

theorem Gone.without {a : IPv4Address} (h : Gone pool ip) : Gone (pool.without a) ip where
  toConsistent := h.toConsistent.without a
  not_included := by
    by_cases ha : a ∈ pool.includedAddresses
    · simp [h.toConsistent.without_eq ha, h.not_included]
    · simpa [AddressPool.without, ha] using h.not_included
  not_taken := (without_taken pool a).1.symm ▸ h.not_taken

theorem Gone.withLease {a : IPv4Address} (h : Gone pool ip) (hne : a ≠ ip)
    (hc : Consistent (pool.withLease mac a)) : Gone (pool.withLease mac a) ip where
  toConsistent := hc
  not_included := h.not_included
  not_taken := by simpa [AddressPool.withLease, hne] using h.not_taken

theorem Gone.effect {op : PoolOp} {outcome : Exec (Option IPv4Address)} (h : Gone pool ip)
    (he : Effect pool op outcome pool') : Gone pool' ip := by
  have hc := h.toConsistent.effect he
  cases he with
  | exclude a => exact h.without
  | excludeRange a b =>
    exact List.foldlRecOn _ _ (motive := fun p => Gone p ip) h fun p hp a _ => hp.without
  | reservation hr =>
    refine h.withLease ?_ hc
    rintro rfl
    exact h.not_reserved hr
  | cached _ _ hca => simp [h.cache_empty] at hca
  | free _ _ _ hf =>
    refine h.withLease ?_ hc
    rintro rfl
    exact h.not_included (of_firstFree hf).1
  | _ => exact ⟨hc, h.not_included, h.not_taken⟩

theorem Gone.run {labels : List PoolLabel} (h : Gone pool ip)
    (hr : Run PoolStep pool labels pool') : Gone pool' ip :=
  hr.invariant (I := fun p => Gone p ip) (fun _ _ _ hg hs => hg.effect hs.effect) h

theorem Gone.not_returned {labels : List PoolLabel} (h : Gone pool ip)
    (hr : Run PoolStep pool labels pool') (mac : MacAddress) :
    (PoolOp.getAddress mac, .ok (some ip)) ∉ labels := by
  intro hm
  have ht := recorded_of_mem h.toConsistent hr hm
  rw [(h.run hr).not_taken] at ht
  exact Option.some_ne_none mac ht.symm

theorem gone_without (h : Consistent pool) (hin : ip ∈ pool.includedAddresses)
    (ht : pool.takenIpAddresses[ip]? = none) : Gone (pool.without ip) ip where
  toConsistent := h.without ip
  not_included := by simp [h.without_eq hin]
  not_taken := (without_taken pool ip).1.symm ▸ ht

/-- Nothing but the lease of an address can outlive its exclusion. -/
theorem occurs_without_self (h : Consistent pool) (hin : ip ∈ pool.includedAddresses)
    (ht : pool.takenIpAddresses[ip]? = none) (c : Collection) :
    (pool.without ip).Occurs ip c ↔ c = .excluded := by
  have hg := gone_without h hin ht
  cases c with
  | included => simpa [Occurs] using hg.not_included
  | excluded => simp [Occurs, h.without_eq hin]
  | reservedIp => simp [Occurs, h.without_eq hin, lookup_dropReservation_reservedIp]
  | reservedMac => simpa [Occurs] using fun mac => hg.not_reserved
  | takenIp => simp [Occurs, hg.not_taken]
  | takenMac =>
    have hnone : ∀ mac : MacAddress, (pool.without ip).takenMacAddresses[mac]? ≠ some ip := by
      intro mac hm
      simpa [hg.not_taken] using hg.taken _ _ hm
    simpa [Occurs] using hnone
  | cache => simp [Occurs, hg.cache_empty]

/-- Another address can only lose its entry by MAC, to a client with two reservations. -/
theorem occurs_without_other (h : Consistent pool) (hin : ip ∈ pool.includedAddresses)
    (hm : ∀ mac, pool.reservedIpAddresses[ip]? = some mac → ∀ other,
      pool.reservedMacAddresses[mac]? = some other → other = ip)
    {other : IPv4Address} (hne : other ≠ ip) (c : Collection) :
    (pool.without ip).Occurs other c ↔ pool.Occurs other c := by
  rw [h.without_eq hin]
  cases c with
  | included => simp [Occurs, hne.symm]
  | excluded => simp [Occurs, hne.symm]
  | reservedIp => simp [Occurs, lookup_dropReservation_reservedIp, hne.symm]
  | reservedMac =>
    simp only [Occurs, lookup_dropReservation_reservedMac]
    constructor
    · rintro ⟨mac, hr⟩
      split_ifs at hr with he
      exact ⟨mac, hr⟩
    · rintro ⟨mac, hr⟩
      refine ⟨mac, ?_⟩
      rw [if_neg fun he => hne (hm mac he other hr)]
      exact hr
  | takenIp => exact Iff.rfl
  | takenMac => exact Iff.rfl
  | cache => exact Iff.rfl

theorem not_excludesForGood_of_taken (ht : pool.takenIpAddresses[ip]? = some mac) :
    ¬ ExcludesForGood pool ip := by
  rintro ⟨pool', hx, hself, -, -⟩
  obtain ⟨-, rfl⟩ := (EStateM.Result.ok.injEq ..).mp ((run_excludeIp pool ip).symm.trans hx)
  have hocc : (pool.without ip).Occurs ip .takenIp := ⟨mac, by rw [(without_taken pool ip).1, ht]⟩
  exact absurd ((hself .takenIp).mp hocc) (by decide)

theorem not_excludesForGood_of_second {other : IPv4Address} (h : Consistent pool)
    (hin : ip ∈ pool.includedAddresses) (hr : pool.reservedIpAddresses[ip]? = some mac)
    (hm : pool.reservedMacAddresses[mac]? = some other) (hne : other ≠ ip) :
    ¬ ExcludesForGood pool ip := by
  rintro ⟨pool', hx, -, hother, -⟩
  obtain ⟨-, rfl⟩ := (EStateM.Result.ok.injEq ..).mp ((run_excludeIp pool ip).symm.trans hx)
  obtain ⟨m, hm'⟩ := (hother other hne .reservedMac).mpr ⟨mac, hm⟩
  rw [h.without_eq hin] at hm'
  simp only [lookup_dropReservation_reservedMac] at hm'
  split_ifs at hm' with he
  -- the entry by MAC could only have been kept under the same MAC
  exact he (hr.trans (congrArg some (h.reserved.injective hm hm')))

/-- `exclude_ip` is final exactly for an address without a lease whose reservation is the only one
of its client. -/
theorem excludesForGood_iff (hp : Reachable pool) (hin : ip ∈ pool.includedAddresses) :
    ExcludesForGood pool ip ↔ pool.takenIpAddresses[ip]? = none ∧
      ∀ mac, pool.reservedIpAddresses[ip]? = some mac → ∀ other,
        pool.reservedMacAddresses[mac]? = some other → other = ip := by
  have h := hp.consistent
  constructor
  · intro hx
    constructor
    · cases ht : pool.takenIpAddresses[ip]? with
      | none => rfl
      | some mac => exact absurd hx (not_excludesForGood_of_taken ht)
    · intro mac hr other hm
      by_contra hne
      exact not_excludesForGood_of_second h hin hr hm hne hx
  · rintro ⟨ht, hm⟩
    exact ⟨pool.without ip, run_excludeIp pool ip, occurs_without_self h hin ht,
      fun other hne => occurs_without_other h hin hm hne,
      fun labels pool'' hr => (gone_without h hin ht).not_returned hr⟩

end

/-- A leased address stays leased: exclude 10.0.0.1 after it was given out. -/
theorem not_excludesForGood_sample :
    letI : Host := ⟨.little⟩
    let pool := (replay perform samplePool [.getAddress (sampleMac 1)]).2
    Reachable pool ∧ sampleIp 1 ∈ pool.includedAddresses ∧
      ¬ ExcludesForGood pool (sampleIp 1) := by
  let host : Host := ⟨.little⟩
  refine ⟨⟨samplePool, _, constructed_samplePool, run_replay perform samplePool _⟩, ?_, ?_⟩
  · decide
  · have ht : (replay perform samplePool [.getAddress (sampleMac 1)]).2.takenIpAddresses[
        sampleIp 1]? = some (sampleMac 1) := by decide
    exact not_excludesForGood_of_taken ht

/-- On a fresh pool it goes. -/
theorem excludesForGood_samplePool :
    letI : Host := ⟨.little⟩
    ExcludesForGood samplePool (sampleIp 1) := by
  let host : Host := ⟨.little⟩
  refine (excludesForGood_iff reachable_samplePool (by decide)).mpr ⟨by decide, ?_⟩
  intro mac hr
  have hnone : samplePool.reservedIpAddresses[sampleIp 1]? = none := by decide
  simp [hnone] at hr

end AddressPool

end Klevret
