import Klevret.Pool.Capacity

/-! # What a newcomer is given

A client without a reservation and without a lease is given the least free
address, and only that changes. It is refused exactly when no address is free;
a client that has a reservation or a lease is never refused.
-/

namespace Klevret

open Foundation
open Std (ExtTreeMap)

namespace AddressPool

section

variable [Host]

/-- The address is leased to the client in both tables, and nothing else has changed. -/
structure Leases (pool : AddressPool) (mac : MacAddress) (ip : IPv4Address)
    (pool' : AddressPool) : Prop where
  by_mac : pool'.takenMacAddresses[mac]? = some ip
  by_ip : pool'.takenIpAddresses[ip]? = some mac
  other_mac : ∀ m ≠ mac, pool'.takenMacAddresses[m]? = pool.takenMacAddresses[m]?
  other_ip : ∀ a ≠ ip, pool'.takenIpAddresses[a]? = pool.takenIpAddresses[a]?
  frame : { pool' with
    takenMacAddresses := pool.takenMacAddresses
    takenIpAddresses := pool.takenIpAddresses } = pool

/-- `get_address` throws exactly when every included address is reserved or taken, and otherwise
leases the least of the others to the client. -/
structure AllocatesLeast (pool : AddressPool) (mac : MacAddress) : Prop where
  throws_iff : (∃ e pool', (getAddress mac).run pool = .error (.throws e) pool') ↔
    ∀ ip, pool.isAddressIncluded ip → pool.isIpAddressReserved ip ∨ pool.isIpAddressTaken ip
  least : (¬ ∀ ip, pool.isAddressIncluded ip →
      pool.isIpAddressReserved ip ∨ pool.isIpAddressTaken ip) →
    ∃ ip pool', (getAddress mac).run pool = .ok ip pool' ∧ pool.Free ip ∧
      (∀ a, pool.Free a → ip.toUInt32 ≤ a.toUInt32) ∧ Leases pool mac ip pool'

variable {pool : AddressPool} {mac : MacAddress} {ip : IPv4Address}

theorem leases_withLease (pool : AddressPool) (mac : MacAddress) (ip : IPv4Address) :
    Leases pool mac ip (pool.withLease mac ip) where
  by_mac := by simp [withLease]
  by_ip := by simp [withLease]
  other_mac m hm := by simp [withLease, hm.symm]
  other_ip a ha := by simp [withLease, ha.symm]
  frame := rfl

theorem firstFree_le (h : pool.firstFree = some ip) {a : IPv4Address} (ha : pool.Free a) :
    ip.toUInt32 ≤ a.toUInt32 := by
  obtain ⟨hin, hr, ht⟩ := ha
  have hmem : a ∈ pool.includedAddresses.toList := by simpa using hin
  rcases find?_toList_least h hmem (by simp [hr, ht]) with rfl | hlt
  · exact UInt32.le_refl _
  · exact UInt32.le_of_lt (of_decide_eq_true (compareOfLt_eq_lt.mp hlt))

theorem not_hasFree_iff_forall : ¬ pool.HasFree ↔
    ∀ ip, pool.isAddressIncluded ip → pool.isIpAddressReserved ip ∨ pool.isIpAddressTaken ip := by
  unfold HasFree Free
  push Not
  refine forall_congr' fun ip => imp_congr_right fun _ => ?_
  tauto

/-- Without a reservation, a lease and a cache entry, only the free addresses matter. -/
theorem run_getAddress_newcomer (h : Consistent pool) (hr : mac ∉ pool.reservedMacAddresses)
    (ht : mac ∉ pool.takenMacAddresses) :
    (getAddress mac).run pool =
      match pool.firstFree with
      | some ip => .ok ip (pool.withLease mac ip)
      | none => .error (.throws (.runtimeError "нет свободных адресов для выдачи")) pool := by
  rw [run_getAddress, ExtTreeMap.getElem?_eq_none hr, ExtTreeMap.getElem?_eq_none ht,
    h.cache_empty, ExtTreeMap.getElem?_empty]
  cases pool.firstFree <;> rfl

theorem Consistent.allocatesLeast (h : Consistent pool) (hr : mac ∉ pool.reservedMacAddresses)
    (ht : mac ∉ pool.takenMacAddresses) : AllocatesLeast pool mac := by
  have hrun := run_getAddress_newcomer h hr ht
  cases hf : pool.firstFree with
  | some ip =>
    have hfree := free_of_firstFree hf
    rw [hf] at hrun
    refine ⟨iff_of_false ?_ fun hall => not_hasFree_iff_forall.mpr hall ⟨ip, hfree⟩, fun _ => ?_⟩
    · rintro ⟨e, pool', he⟩
      rw [hrun] at he
      cases he
    · exact ⟨ip, _, hrun, hfree, fun a ha => firstFree_le hf ha, leases_withLease pool mac ip⟩
  | none =>
    have hnone := not_hasFree_iff_forall.mp (not_hasFree_iff.mpr hf)
    rw [hf] at hrun
    exact ⟨iff_of_true ⟨_, _, hrun⟩ hnone, fun hn => absurd hnone hn⟩

theorem run_getAddress_known (h : pool.isMacAddressReserved mac = true ∨
    pool.isMacAddressTaken mac = true) :
    ∃ ip pool', (getAddress mac).run pool = .ok ip pool' := by
  rw [isMacAddressReserved_iff, isMacAddressTaken_iff] at h
  rw [run_getAddress]
  cases hr : pool.reservedMacAddresses[mac]? with
  | some ip => exact ⟨ip, _, rfl⟩
  | none =>
    obtain ⟨ip, ht⟩ := lookup_of_mem (h.resolve_left (not_mem_of_lookup hr))
    rw [ht]
    exact ⟨ip, _, rfl⟩

/-- The newcomers get the least free address, and the other clients are served. -/
theorem allocates_least (hp : Reachable pool) (mac : MacAddress) :
    (pool.isMacAddressReserved mac = false → pool.isMacAddressTaken mac = false →
      AllocatesLeast pool mac) ∧
    (pool.isMacAddressReserved mac = true ∨ pool.isMacAddressTaken mac = true →
      ∃ ip pool', (getAddress mac).run pool = .ok ip pool') := by
  refine ⟨fun hr ht => ?_, run_getAddress_known⟩
  rw [← Bool.not_eq_true, isMacAddressReserved_iff] at hr
  rw [← Bool.not_eq_true, isMacAddressTaken_iff] at ht
  exact hp.consistent.allocatesLeast hr ht

end

/-- The pool from 10.0.0.1 to 10.0.0.2, in which the first address is leased. -/
theorem allocates_least_sample :
    letI : Host := ⟨.little⟩
    let pool := (replay perform samplePool [.getAddress (sampleMac 1)]).2
    AllocatesLeast pool (sampleMac 2) ∧
      ∃ ip pool', (getAddress (sampleMac 1)).run pool = .ok ip pool' := by
  let host : Host := ⟨.little⟩
  have hp : Reachable (replay perform samplePool [.getAddress (sampleMac 1)]).2 :=
    ⟨samplePool, _, constructed_samplePool, run_replay perform samplePool _⟩
  exact ⟨(allocates_least hp (sampleMac 2)).1 (by decide) (by decide),
    (allocates_least hp (sampleMac 1)).2 (by decide)⟩

end AddressPool

end Klevret
