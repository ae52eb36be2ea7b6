import Klevret.Pool.Leases

/-! # The two lease tables

The tables of taken addresses are to be changed together. They stay inverse to
each other until `get_address` moves a client from its lease to a reservation:
the old address then keeps its entry.
-/

namespace Klevret

open Foundation

namespace AddressPool

section

variable [Host]

/-- The lease tables agree, so as many addresses are taken as clients hold a lease, and every
taken address is held by a client. -/
structure LeasesMatch (pool : AddressPool) : Prop where
  inverse : MutuallyInverse pool.takenMacAddresses pool.takenIpAddresses
  same_size : pool.takenIpAddresses.size = pool.takenMacAddresses.size
  none_lost : ∀ ip ∈ pool.takenIpAddresses,
    ∃ mac : MacAddress, pool.takenMacAddresses[mac]? = some ip

/-- A client that asks for an address has no reservation that differs from its lease. -/
def KeepsLease (pool : AddressPool) : PoolLabel → Prop
  | (.getAddress mac, _) => ∀ ip lease, pool.reservedMacAddresses[mac]? = some ip →
      pool.takenMacAddresses[mac]? = some lease → lease = ip
  | _ => True

variable {pool pool' : AddressPool} {label : PoolLabel}

theorem leasesMatch_of_inverse
    (h : MutuallyInverse pool.takenMacAddresses pool.takenIpAddresses) : LeasesMatch pool where
  inverse := h
  same_size := h.symm.size_eq
  none_lost ip hip := by
    obtain ⟨mac, hm⟩ := lookup_of_mem hip
    exact ⟨mac, (h mac ip).mpr hm⟩

theorem PoolStep.leases (h : Consistent pool) (hs : PoolStep pool label pool')
    (hk : KeepsLease pool label)
    (hm : MutuallyInverse pool.takenMacAddresses pool.takenIpAddresses) :
    MutuallyInverse pool'.takenMacAddresses pool'.takenIpAddresses := by
  obtain ⟨op, outcome⟩ := label
  have he := hs.effect
  cases he with
  | exclude ip =>
    obtain ⟨hip, hmac⟩ := without_taken pool ip
    rwa [hip, hmac]
  | excludeRange a b =>
    obtain ⟨hip, hmac⟩ := foldl_without_taken pool (addressesUpTo a b)
    rwa [hip, hmac]
  | @reservation mac ip hr =>
    refine hm.insert (fun lease ht => hk ip lease hr ht) ?_
    intro m ht
    exact h.exclusive (h.reserved _ _ hr) ht
  | cached _ _ hc => simp [h.cache_empty] at hc
  | free _ ht _ hf =>
    refine hm.insert ?_ ?_
    · intro lease hl
      simp [ht] at hl
    · intro m hl
      simp [(of_firstFree hf).2.2] at hl
  | _ => exact hm

theorem PoolStep.leases_broken (h : Consistent pool) (hs : PoolStep pool label pool')
    (hk : ¬ KeepsLease pool label) :
    ¬ MutuallyInverse pool'.takenMacAddresses pool'.takenIpAddresses := by
  obtain ⟨op, outcome⟩ := label
  cases op with
  | getAddress mac =>
    simp only [KeepsLease, not_forall] at hk
    obtain ⟨ip, lease, hr, ht, hne⟩ := hk
    obtain ⟨-, rfl⟩ := hs.effect.of_reserved hr
    exact not_mutuallyInverse_insert h.taken ht hne
  | _ => exact absurd trivial hk

theorem leases_run {labels : List PoolLabel} (h : Consistent pool)
    (hm : MutuallyInverse pool.takenMacAddresses pool.takenIpAddresses)
    (hr : Run (Guarded PoolStep KeepsLease) pool labels pool') :
    MutuallyInverse pool'.takenMacAddresses pool'.takenIpAddresses :=
  h.run_guarded hm hr fun _ _ _ hp hs hk hpm => hs.leases hp hk hpm

theorem Constructed.leases (hc : Constructed pool) :
    MutuallyInverse pool.takenMacAddresses pool.takenIpAddresses := by
  obtain ⟨-, ⟨hip, hmac⟩, -⟩ := hc.empty
  simp [MutuallyInverse, hip, hmac]

/-- The lease tables match in every state of a run exactly when no call of the run moves a client
from its lease to a reservation. -/
theorem leasesMatch_iff {pool₀ : AddressPool} {labels : List PoolLabel} (hc : Constructed pool₀)
    (hr : Run PoolStep pool₀ labels pool) :
    (∀ before after p, labels = before ++ after → Run PoolStep pool₀ before p →
      LeasesMatch p) ↔ Run (Guarded PoolStep KeepsLease) pool₀ labels pool := by
  have h := consistent_of_constructed hc
  refine Run.always_iff_guarded ?_ ?_ (deterministic_calls perform) hr
  · intro before p hp
    exact leasesMatch_of_inverse (leases_run h hc.leases hp)
  · intro before p label p' hp hs hk hm
    exact hs.leases_broken (h.run hp.of_guarded) hk hm.inverse

end

/-- A client that was given 10.0.0.1 asks again after 10.0.0.2 was reserved for it. -/
theorem not_leasesMatch_sample :
    letI : Host := ⟨.little⟩
    let run := replay perform samplePool [.getAddress (sampleMac 1),
      .reserveIp (sampleIp 2) (sampleMac 1), .getAddress (sampleMac 1)]
    Run PoolStep samplePool run.1 run.2 ∧ ¬ LeasesMatch run.2 := by
  let host : Host := ⟨.little⟩
  refine ⟨run_replay perform samplePool _, ?_⟩
  intro hm
  exact absurd hm.same_size (by decide)

/-- Two clients without reservations. -/
theorem leasesMatch_sample :
    letI : Host := ⟨.little⟩
    let run := replay perform samplePool [.getAddress (sampleMac 1), .getAddress (sampleMac 2)]
    (∀ before after p, run.1 = before ++ after → Run PoolStep samplePool before p →
      LeasesMatch p) ↔ Run (Guarded PoolStep KeepsLease) samplePool run.1 run.2 := by
  let host : Host := ⟨.little⟩
  exact leasesMatch_iff constructed_samplePool (run_replay perform samplePool _)

end AddressPool

end Klevret
