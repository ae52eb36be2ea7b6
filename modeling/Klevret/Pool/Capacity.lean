import Klevret.Pool.Invariant
import Mathlib.Data.Fintype.Pigeonhole
import Mathlib.Data.Fintype.Prod

/-! # What a pool can serve

A client that the pool knows has an address already; any other client needs one
that is free. There are more hardware addresses than leases and reservations of
a pool, so some client is always a newcomer.
-/

namespace Klevret

open Foundation
open Std (ExtTreeMap)

namespace MacAddress

def ofNat (n : ℕ) : MacAddress := ⟨⟨leBytes 6 n, length_leBytes 6 n⟩⟩

theorem ofNat_injOn {m n : ℕ} (hm : m < 256 ^ 6) (hn : n < 256 ^ 6)
    (h : ofNat m = ofNat n) : m = n := by
  have hb : leBytes 6 m = leBytes 6 n := congrArg (fun mac => mac.data.toList) h
  have hv := congrArg leValue hb
  rwa [leValue_leBytes, leValue_leBytes, Nat.mod_eq_of_lt hm, Nat.mod_eq_of_lt hn] at hv

end MacAddress

theorem exists_same_slot {n : ℕ} (slot : Fin (2 * n + 1) → Bool × Fin n) :
    ∃ i j, i ≠ j ∧ slot i = slot j :=
  Fintype.exists_ne_map_eq_of_card_lt slot (by simp)

namespace AddressPool

variable [Host]

/-- The client has a reservation, a lease or a cache entry. -/
def Knows (pool : AddressPool) (mac : MacAddress) : Prop :=
  pool.isMacAddressReserved mac ∨ pool.isMacAddressTaken mac ∨ pool.isAddressCached mac

/-- The address is included, and neither reserved nor taken. -/
def Free (pool : AddressPool) (ip : IPv4Address) : Prop :=
  pool.isAddressIncluded ip ∧ ¬ pool.isIpAddressReserved ip ∧ ¬ pool.isIpAddressTaken ip

def HasFree (pool : AddressPool) : Prop := ∃ ip, pool.Free ip

variable {pool pool' : AddressPool} {ip : IPv4Address} {mac : MacAddress}

theorem knows_iff : pool.Knows mac ↔ mac ∈ pool.reservedMacAddresses ∨
    mac ∈ pool.takenMacAddresses ∨ mac ∈ pool.cache := by
  rw [Knows, isMacAddressReserved_iff, isMacAddressTaken_iff, isAddressCached_iff]

theorem free_iff : pool.Free ip ↔ ip ∈ pool.includedAddresses ∧
    ip ∉ pool.reservedIpAddresses ∧ ip ∉ pool.takenIpAddresses := by
  rw [Free, isAddressIncluded_iff, isIpAddressReserved_iff, isIpAddressTaken_iff]

theorem Free.lookup (h : pool.Free ip) : ip ∈ pool.includedAddresses ∧
    pool.reservedIpAddresses[ip]? = none ∧ pool.takenIpAddresses[ip]? = none := by
  obtain ⟨hin, hr, ht⟩ := free_iff.mp h
  exact ⟨hin, ExtTreeMap.getElem?_eq_none hr, ExtTreeMap.getElem?_eq_none ht⟩

theorem firstFree_isSome_iff : pool.firstFree.isSome = true ↔ pool.HasFree := by
  unfold firstFree
  rw [List.find?_isSome]
  constructor
  · rintro ⟨ip, hmem, hfree⟩
    simp only [Bool.not_eq_true', ← Bool.not_eq_true, Bool.or_eq_true, not_or] at hfree
    exact ⟨ip, by simpa using hmem, hfree⟩
  · rintro ⟨ip, hin, hfree⟩
    refine ⟨ip, by simpa using hin, ?_⟩
    simpa only [Bool.not_eq_true', ← Bool.not_eq_true, Bool.or_eq_true, not_or] using hfree

theorem not_hasFree_iff : ¬ pool.HasFree ↔ pool.firstFree = none := by
  rw [← firstFree_isSome_iff, Option.not_isSome_iff_eq_none]

theorem free_of_firstFree (h : pool.firstFree = some ip) : pool.Free ip := by
  obtain ⟨hin, hr, ht⟩ := of_firstFree h
  exact free_iff.mpr ⟨hin, not_mem_of_lookup hr, not_mem_of_lookup ht⟩

theorem effect_newcomer {outcome : Exec (Option IPv4Address)}
    (he : Effect pool (.getAddress mac) outcome pool') (hk : ¬ pool.Knows mac) :
    (∃ ip, pool.firstFree = some ip ∧ outcome = .ok (some ip) ∧ pool' = pool.withLease mac ip) ∨
      pool.firstFree = none ∧ (∃ e, outcome = .error e) ∧ pool' = pool := by
  simp only [knows_iff, not_or] at hk
  cases he with
  | reservation hr => exact absurd (mem_of_lookup hr) hk.1
  | lease _ ht => exact absurd (mem_of_lookup ht) hk.2.1
  | cached _ _ hc => exact absurd (mem_of_lookup hc) hk.2.2
  | free _ _ _ hf => exact Or.inl ⟨_, hf, rfl, rfl⟩
  | exhausted e _ _ _ hf => exact Or.inr ⟨hf, ⟨e, rfl⟩, rfl⟩

theorem free_withLease {a : IPv4Address} :
    (pool.withLease mac a).Free ip ↔ pool.Free ip ∧ ip ≠ a := by
  have hmem : ip ∈ (pool.withLease mac a).takenIpAddresses ↔
      a = ip ∨ ip ∈ pool.takenIpAddresses := by
    rw [withLease, ExtTreeMap.mem_insert, Std.LawfulEqCmp.compare_eq_iff_eq]
  have hsame : (pool.withLease mac a).includedAddresses = pool.includedAddresses ∧
      (pool.withLease mac a).reservedIpAddresses = pool.reservedIpAddresses := ⟨rfl, rfl⟩
  rw [free_iff, free_iff, hmem, hsame.1, hsame.2]
  tauto

theorem Effect.free_known {outcome : Exec (Option IPv4Address)} (h : Consistent pool)
    (he : Effect pool (.getAddress mac) outcome pool') (hk : pool.Knows mac) :
    pool'.Free ip ↔ pool.Free ip := by
  rw [knows_iff] at hk
  cases he with
  | @reservation mac a hr =>
    have hback := h.reserved _ _ hr
    rw [free_withLease]
    apply and_iff_left_of_imp
    rintro hf rfl
    simp [hf.lookup.2.1] at hback
  | lease => exact Iff.rfl
  | cached _ _ hc => simp [h.cache_empty] at hc
  | free hr ht hc =>
    simp [not_mem_of_lookup hr, not_mem_of_lookup ht, not_mem_of_lookup hc] at hk
  | exhausted _ hr ht hc =>
    simp [not_mem_of_lookup hr, not_mem_of_lookup ht, not_mem_of_lookup hc] at hk

theorem Effect.hasFree_newcomer {outcome : Exec (Option IPv4Address)}
    (he : Effect pool (.getAddress mac) outcome pool') (hk : ¬ pool.Knows mac) :
    pool'.HasFree ↔ ∃ ip ip', ip ≠ ip' ∧ pool.Free ip ∧ pool.Free ip' := by
  rcases effect_newcomer he hk with ⟨a, hf, -, rfl⟩ | ⟨hf, -, rfl⟩
  · have ha := free_of_firstFree hf
    constructor
    · rintro ⟨ip, hip⟩
      obtain ⟨hip, hne⟩ := free_withLease.mp hip
      exact ⟨ip, a, hne, hip, ha⟩
    · rintro ⟨ip, ip', hne, hip, hip'⟩
      by_cases he : ip = a
      · exact ⟨ip', free_withLease.mpr ⟨hip', fun he' => hne (he.trans he'.symm)⟩⟩
      · exact ⟨ip, free_withLease.mpr ⟨hip, he⟩⟩
  · have hnone := not_hasFree_iff.mpr hf
    apply iff_of_false hnone
    rintro ⟨ip, -, -, hip, -⟩
    exact hnone ⟨ip, hip⟩

/-- Each client that the pool knows has an address of its own among the reserved or the taken
ones, and these are fewer than the MAC addresses. -/
theorem Consistent.exists_newcomer (h : Consistent pool) : ∃ mac, ¬ pool.Knows mac := by
  by_contra hall
  push Not at hall
  have hcode : ∀ mac : MacAddress, ∃ (held : Bool) (ip : IPv4Address),
      (if held then pool.takenMacAddresses else pool.reservedMacAddresses)[mac]? = some ip := by
    intro mac
    rcases knows_iff.mp (hall mac) with hr | ht | hc
    · exact ⟨false, lookup_of_mem hr⟩
    · exact ⟨true, lookup_of_mem ht⟩
    · simp [h.cache_empty] at hc
  choose held ip hip using hcode
  have hinj : ∀ mac mac', held mac = held mac' → ip mac = ip mac' → mac = mac' := by
    intro mac mac' hh hi
    have hm := hip mac
    have hm' := hip mac'
    rw [← hh, ← hi] at hm'
    cases hb : held mac with
    | true =>
      simp only [hb, if_true] at hm hm'
      exact h.taken.injective hm hm'
    | false =>
      simp only [hb, Bool.false_eq_true, if_false] at hm hm'
      exact h.reserved.injective hm hm'
  obtain ⟨m, n, hne, hs⟩ := exists_same_slot fun n : Fin (2 * UInt32.size + 1) =>
    (held (.ofNat n), (ip (.ofNat n)).toUInt32.toFin)
  obtain ⟨hh, hi⟩ := Prod.mk.inj hs
  have hip' := IPv4Address.toUInt32_injective (UInt32.toFin_inj.mp hi)
  have hlt : ∀ k : Fin (2 * UInt32.size + 1), (k : ℕ) < 256 ^ 6 := fun k =>
    k.isLt.trans (by decide)
  exact hne (Fin.ext (MacAddress.ofNat_injOn (hlt m) (hlt n) (hinj _ _ hh hip')))

end AddressPool

end Klevret
