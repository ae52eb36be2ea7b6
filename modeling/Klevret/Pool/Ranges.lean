import Klevret.Pool.Partition
import Mathlib.Order.Interval.Finset.Nat

/-! # Ranges of addresses

The constructor includes a range, and `exclude_ip_range` excludes one. Both walk
from address to address, and the address after 255.255.255.255 is 0.0.0.0. The
walk of the constructor does not end there; the walk of `exclude_ip_range` goes
around when it is given the ends in the wrong order.
-/

namespace Klevret

open Foundation
open Std (ExtTreeSet)

namespace AddressPool

section

variable [Host] {pool pool' : AddressPool} {startIp endIp ip : IPv4Address}

/-- The constructor ends with a pool of exactly the addresses from the start to the end. -/
def ConstructsRange (startIp endIp : IPv4Address) : Prop :=
  ∃ fuel pool, new fuel startIp endIp = some pool ∧
    (∀ ip, pool.isAddressIncluded ip = true ↔
      startIp.toUInt32 ≤ ip.toUInt32 ∧ ip.toUInt32 ≤ endIp.toUInt32) ∧
    (startIp.toUInt32 ≤ endIp.toUInt32 → pool.includedAddresses.size =
      endIp.toUInt32.toNat - startIp.toUInt32.toNat + 1) ∧
    (endIp.toUInt32 < startIp.toUInt32 → pool.includedAddresses.size = 0)

theorem toNat_toUInt32_ofNat {n : ℕ} (h : n < UInt32.size) :
    (IPv4Address.ofUInt32 (.ofNat n)).toUInt32.toNat = n := by
  rw [IPv4Address.toUInt32_ofUInt32]
  exact Nat.mod_eq_of_lt h

theorem size_of_interval {set : ExtTreeSet IPv4Address} {a b : ℕ} (hb : b < UInt32.size)
    (h : ∀ ip : IPv4Address, ip ∈ set ↔ a ≤ ip.toUInt32.toNat ∧ ip.toUInt32.toNat ≤ b) :
    set.size = b + 1 - a := by
  have hinj : Function.Injective fun ip : IPv4Address => ip.toUInt32.toNat :=
    fun _ _ heq => IPv4Address.toUInt32_injective (UInt32.toNat_inj.mp heq)
  rw [← Nat.card_Icc]
  refine size_eq_card hinj fun n => ?_
  rw [Finset.mem_Icc]
  constructor
  · rintro ⟨ha, hn⟩
    have hof := toNat_toUInt32_ofNat (hn.trans_lt hb)
    exact ⟨_, (h _).mpr (by rw [hof]; exact ⟨ha, hn⟩), hof⟩
  · rintro ⟨ip, hip, rfl⟩
    exact (h ip).mp hip

theorem mem_includedAddresses_of_new {fuel : ℕ} (h : new fuel startIp endIp = some pool)
    (ip : IPv4Address) : ip ∈ pool.includedAddresses ↔
      startIp.toUInt32.toNat ≤ ip.toUInt32.toNat ∧
        ip.toUInt32.toNat ≤ endIp.toUInt32.toNat := by
  obtain ⟨included, hloop, hp⟩ := Option.bind_eq_some_iff.mp h
  obtain rfl := Option.some.inj hp
  exact mem_iff_of_iterate hloop ip

theorem not_constructsRange (hend : endIp.toUInt32.toNat + 1 = UInt32.size) :
    ¬ ConstructsRange startIp endIp := by
  rintro ⟨fuel, pool, hnew, -⟩
  have hnone : new fuel startIp endIp = none :=
    new_eq_none.mpr (iterate_includePass_eq_none startIp hend)
  rw [hnew] at hnone
  cases hnone

theorem exists_new (startIp : IPv4Address) (hend : endIp.toUInt32.toNat + 1 ≠ UInt32.size) :
    ∃ fuel pool, new fuel startIp endIp = some pool := by
  have hsome : new (2 ^ 32) startIp endIp ≠ none :=
    fun hnone => hend ((new_eq_none_iff le_rfl startIp endIp).mp hnone)
  exact ⟨_, Option.ne_none_iff_exists'.mp hsome⟩

/-- The constructor ends, with exactly the range, if and only if the range does not end at
255.255.255.255. -/
theorem constructsRange_iff (startIp endIp : IPv4Address) :
    ConstructsRange startIp endIp ↔ endIp.toUInt32.toNat + 1 ≠ UInt32.size := by
  constructor
  · exact fun h hend => not_constructsRange hend h
  · intro hend
    obtain ⟨fuel, pool, hnew⟩ := exists_new startIp hend
    have hmem := mem_includedAddresses_of_new hnew
    have hsize := size_of_interval endIp.toUInt32.toNat_lt hmem
    refine ⟨_, pool, hnew, fun ip => ?_, fun hle => ?_, fun hlt => ?_⟩
    · rw [isAddressIncluded_iff, hmem, UInt32.le_iff_toNat_le, UInt32.le_iff_toNat_le]
    · rw [UInt32.le_iff_toNat_le] at hle
      omega
    · rw [UInt32.lt_iff_toNat_lt] at hlt
      omega

/-- `exclude_ip_range` ends and moves exactly the included addresses of the range to the excluded
ones; a range whose ends are in the wrong order is empty. -/
def ExcludesRange (pool : AddressPool) (ipStart ipEnd : IPv4Address) : Prop :=
  ∃ pool', (excludeIpRange ipStart ipEnd).run pool = .ok () pool' ∧
    (∀ ip, pool'.isAddressIncluded ip = true ↔
      pool.isAddressIncluded ip = true ∧
        ¬ (ipStart.toUInt32 ≤ ip.toUInt32 ∧ ip.toUInt32 ≤ ipEnd.toUInt32)) ∧
    (∀ ip, pool'.isAddressExcluded ip = true ↔
      pool.isAddressExcluded ip = true ∨ pool.isAddressIncluded ip = true ∧
        ipStart.toUInt32 ≤ ip.toUInt32 ∧ ip.toUInt32 ≤ ipEnd.toUInt32) ∧
    (ipEnd.toUInt32 < ipStart.toUInt32 → pool' = pool)

variable {ipStart ipEnd : IPv4Address}

theorem mem_addressesFrom {n : ℕ} : ip ∈ addressesFrom n startIp ↔
    (ip.toUInt32 - startIp.toUInt32).toNat < n := by
  induction n generalizing startIp with
  | zero => simp [addressesFrom]
  | succ n ih =>
    rw [addressesFrom, List.mem_cons, ih, IPv4Address.toUInt32_increment]
    by_cases he : ip = startIp
    · subst he
      simp
    · have hne : startIp.toUInt32 ≠ ip.toUInt32 :=
        fun h => he (IPv4Address.toUInt32_injective h).symm
      rw [toNat_sub_of_ne hne]
      simp [he]

/-- The walk stays between its ends, or goes around the end of the address space. -/
theorem mem_addressesUpTo : ip ∈ addressesUpTo ipStart ipEnd ↔
    if ipStart.toUInt32 ≤ ipEnd.toUInt32 then
      ipStart.toUInt32 ≤ ip.toUInt32 ∧ ip.toUInt32 ≤ ipEnd.toUInt32
    else ipStart.toUInt32 ≤ ip.toUInt32 ∨ ip.toUInt32 ≤ ipEnd.toUInt32 := by
  have h₁ := ipStart.toUInt32.toNat_lt
  have h₂ := ipEnd.toUInt32.toNat_lt
  have h₃ := ip.toUInt32.toNat_lt
  rw [addressesUpTo, mem_addressesFrom, UInt32.toNat_sub, UInt32.toNat_sub]
  simp only [UInt32.le_iff_toNat_le]
  split_ifs <;> omega

theorem Consistent.mem_foldl_without (h : Consistent pool) (ips : List IPv4Address)
    (ip : IPv4Address) :
    (ip ∈ (ips.foldl AddressPool.without pool).includedAddresses ↔
      ip ∈ pool.includedAddresses ∧ ip ∉ ips) ∧
    (ip ∈ (ips.foldl AddressPool.without pool).excludedAddresses ↔
      ip ∈ pool.excludedAddresses ∨ ip ∈ pool.includedAddresses ∧ ip ∈ ips) := by
  induction ips generalizing pool with
  | nil => simp
  | cons a ips ih =>
    obtain ⟨hin, hex⟩ := ih (h.without a)
    rw [List.foldl_cons, hin, hex, List.mem_cons]
    by_cases ha : a ∈ pool.includedAddresses
    · rw [h.without_eq ha]
      simp only [ExtTreeSet.mem_erase, ExtTreeSet.mem_insert, ne_eq,
        Std.LawfulEqCmp.compare_eq_iff_eq]
      by_cases he : a = ip
      · subst he
        simp [ha]
      · simp [he, Ne.symm he]
    · have hne : ip ∈ pool.includedAddresses → ip ≠ a := by
        rintro hip rfl
        exact ha hip
      simp only [AddressPool.without, if_neg ha]
      by_cases hip : ip ∈ pool.includedAddresses
      · simp [hip, hne hip]
      · simp [hip]

theorem foldl_without_eq_self {ips : List IPv4Address}
    (h : ∀ ip ∈ ips, ip ∉ pool.includedAddresses) : ips.foldl without pool = pool := by
  induction ips with
  | nil => rfl
  | cons a ips ih =>
    rw [List.forall_mem_cons] at h
    rw [List.foldl_cons, AddressPool.without, if_neg h.1, ih h.2]

/-- On ends in the wrong order the walk goes around and excludes what it meets. -/
theorem not_excludesRange (h : Consistent pool) (hlt : ipEnd.toUInt32 < ipStart.toUInt32)
    (hip : pool.isAddressIncluded ip = true)
    (hwalk : ipStart.toUInt32 ≤ ip.toUInt32 ∨ ip.toUInt32 ≤ ipEnd.toUInt32) :
    ¬ ExcludesRange pool ipStart ipEnd := by
  rintro ⟨pool', hrun, -, -, hsame⟩
  obtain ⟨-, rfl⟩ :=
    (EStateM.Result.ok.injEq ..).mp ((run_excludeIpRange pool ipStart ipEnd).symm.trans hrun)
  have hmem : ip ∈ addressesUpTo ipStart ipEnd := by
    rw [mem_addressesUpTo, if_neg (UInt32.not_le.mpr hlt)]
    exact hwalk
  rw [isAddressIncluded_iff, ← hsame hlt] at hip
  exact ((h.mem_foldl_without _ ip).1.mp hip).2 hmem

/-- The range is excluded, and nothing else, exactly when its ends are in order or the walk from
one around to the other meets no included address. -/
theorem excludesRange_iff (hp : Reachable pool) (ipStart ipEnd : IPv4Address) :
    ExcludesRange pool ipStart ipEnd ↔
      ipStart.toUInt32 ≤ ipEnd.toUInt32 ∨ ∀ ip, pool.isAddressIncluded ip = true →
        ipEnd.toUInt32 < ip.toUInt32 ∧ ip.toUInt32 < ipStart.toUInt32 := by
  have h := hp.consistent
  constructor
  · intro hx
    by_cases hle : ipStart.toUInt32 ≤ ipEnd.toUInt32
    · exact Or.inl hle
    · refine Or.inr fun ip hip => ?_
      by_contra hwalk
      rw [not_and_or, UInt32.not_lt, UInt32.not_lt] at hwalk
      exact not_excludesRange h (UInt32.not_le.mp hle) hip hwalk.symm hx
  · intro hc
    have hwalk : ∀ ip ∈ pool.includedAddresses, (ip ∈ addressesUpTo ipStart ipEnd ↔
        ipStart.toUInt32 ≤ ip.toUInt32 ∧ ip.toUInt32 ≤ ipEnd.toUInt32) := by
      intro ip hip
      rw [mem_addressesUpTo]
      split_ifs with hle
      · exact Iff.rfl
      · obtain ⟨hlow, hhigh⟩ := hc.resolve_left hle ip ((isAddressIncluded_iff pool ip).mpr hip)
        refine iff_of_false ?_ fun hin => hle (UInt32.le_trans hin.1 hin.2)
        rw [not_or, UInt32.not_le, UInt32.not_le]
        exact ⟨hhigh, hlow⟩
    refine ⟨_, run_excludeIpRange pool ipStart ipEnd, fun ip => ?_, fun ip => ?_, fun hlt => ?_⟩
    · rw [isAddressIncluded_iff, isAddressIncluded_iff, (h.mem_foldl_without _ ip).1]
      exact and_congr_right fun hin => not_congr (hwalk ip hin)
    · rw [isAddressIncluded_iff, isAddressExcluded, isAddressExcluded, ExtTreeSet.contains_iff_mem,
        ExtTreeSet.contains_iff_mem, (h.mem_foldl_without _ ip).2]
      exact or_congr_right (and_congr_right fun hin => hwalk ip hin)
    · refine foldl_without_eq_self fun ip hmem hin => ?_
      obtain ⟨hlow, hhigh⟩ := (hwalk ip hin).mp hmem
      exact UInt32.not_lt.mpr (UInt32.le_trans hlow hhigh) hlt

end

/-- The range from 255.255.255.254 to 255.255.255.255. -/
theorem not_constructsRange_top : ¬ ∀ (_ : Host) (startIp endIp : IPv4Address),
    ConstructsRange startIp endIp := by
  intro h
  let host : Host := ⟨.little⟩
  exact not_constructsRange (by decide) (h host ⟨⟨[255, 255, 255, 254], rfl⟩⟩
    ⟨⟨[255, 255, 255, 255], rfl⟩⟩)

/-- The pool from 10.0.0.1 to 10.0.0.2, from which the range from 10.0.0.2 to 10.0.0.1 is
excluded. -/
theorem not_excludesRange_sample :
    letI : Host := ⟨.little⟩
    Reachable samplePool ∧ ¬ ExcludesRange samplePool (sampleIp 2) (sampleIp 1) := by
  let host : Host := ⟨.little⟩
  have hincluded : samplePool.isAddressIncluded (sampleIp 1) = true := by decide
  exact ⟨reachable_samplePool, not_excludesRange reachable_samplePool.consistent (by decide)
    hincluded (by decide)⟩

theorem excludesRange_sample :
    letI : Host := ⟨.little⟩
    ExcludesRange samplePool (sampleIp 1) (sampleIp 2) ↔
      (sampleIp 1).toUInt32 ≤ (sampleIp 2).toUInt32 ∨
        ∀ ip, samplePool.isAddressIncluded ip = true →
          (sampleIp 2).toUInt32 < ip.toUInt32 ∧ ip.toUInt32 < (sampleIp 1).toUInt32 := by
  let host : Host := ⟨.little⟩
  exact excludesRange_iff reachable_samplePool (sampleIp 1) (sampleIp 2)

end AddressPool

end Klevret
