import Klevret.Pool.Exclusion
import Klevret.Pool.Ranges

/-! # Exclusions in any order

A series of exclusions withdraws the addresses it covers, with their
reservations. So its result depends on the included addresses among them alone:
not on the order of the calls, on how they overlap, or on how a range is cut.
-/

namespace Klevret

open Foundation
open Std (ExtTreeMap ExtTreeSet)

section

variable [Host]

namespace PoolOp

def IsExclusion : PoolOp → Prop
  | .excludeIp _ => True
  | .excludeIpRange _ _ => True
  | _ => False

/-- An exclusion is asked to exclude the address. A range whose ends are in the wrong order goes
around the end of the address space. -/
def Covers (ip : IPv4Address) : PoolOp → Prop
  | .excludeIp a => ip = a
  | .excludeIpRange ipStart ipEnd =>
    if ipStart.toUInt32 ≤ ipEnd.toUInt32 then
      ipStart.toUInt32 ≤ ip.toUInt32 ∧ ip.toUInt32 ≤ ipEnd.toUInt32
    else ipStart.toUInt32 ≤ ip.toUInt32 ∨ ip.toUInt32 ≤ ipEnd.toUInt32
  | _ => False

end PoolOp

namespace AddressPool

/-- The second pool is the first one without these addresses and their reservations. -/
structure Withdrawn (pool : AddressPool) (ips : Set IPv4Address) (pool' : AddressPool) : Prop where
  included : ∀ ip, ip ∈ pool'.includedAddresses ↔ ip ∈ pool.includedAddresses ∧ ip ∉ ips
  excluded : ∀ ip, ip ∈ pool'.excludedAddresses ↔
    ip ∈ pool.excludedAddresses ∨ ip ∈ pool.includedAddresses ∧ ip ∈ ips
  reservedIp : ∀ (ip : IPv4Address) (mac : MacAddress), pool'.reservedIpAddresses[ip]? = some mac ↔
    pool.reservedIpAddresses[ip]? = some mac ∧ ip ∉ ips
  reservedMac : ∀ (mac : MacAddress) (ip : IPv4Address),
    pool'.reservedMacAddresses[mac]? = some ip ↔ pool.reservedMacAddresses[mac]? = some ip ∧
      ∀ a ∈ ips, pool.reservedIpAddresses[a]? ≠ some mac
  others : pool' = { pool with
    includedAddresses := pool'.includedAddresses
    excludedAddresses := pool'.excludedAddresses
    reservedIpAddresses := pool'.reservedIpAddresses
    reservedMacAddresses := pool'.reservedMacAddresses }

variable {pool pool₁ pool₂ : AddressPool} {ips ips' : Set IPv4Address} {ip : IPv4Address}

namespace Withdrawn

theorem refl (pool : AddressPool) : Withdrawn pool ∅ pool := by
  constructor <;> simp

theorem unique (h₁ : Withdrawn pool ips pool₁) (h₂ : Withdrawn pool ips pool₂) :
    pool₁ = pool₂ := by
  have hincluded : pool₁.includedAddresses = pool₂.includedAddresses := by
    ext ip
    rw [h₁.included, h₂.included]
  have hexcluded : pool₁.excludedAddresses = pool₂.excludedAddresses := by
    ext ip
    rw [h₁.excluded, h₂.excluded]
  have hip : pool₁.reservedIpAddresses = pool₂.reservedIpAddresses := by
    ext ip mac
    rw [h₁.reservedIp, h₂.reservedIp]
  have hmac : pool₁.reservedMacAddresses = pool₂.reservedMacAddresses := by
    ext mac ip
    rw [h₁.reservedMac, h₂.reservedMac]
  rw [h₁.others, h₂.others, hincluded, hexcluded, hip, hmac]

theorem trans (h₁ : Withdrawn pool ips pool₁) (h₂ : Withdrawn pool₁ ips' pool₂) :
    Withdrawn pool (ips ∪ ips') pool₂ where
  included ip := by
    rw [h₂.included, h₁.included, Set.mem_union, not_or, and_assoc]
  excluded ip := by
    rw [h₂.excluded, h₁.excluded, h₁.included, Set.mem_union]
    tauto
  reservedIp ip mac := by
    rw [h₂.reservedIp, h₁.reservedIp, Set.mem_union, not_or, and_assoc]
  reservedMac mac ip := by
    rw [h₂.reservedMac, h₁.reservedMac, and_assoc]
    refine and_congr_right fun _ => ⟨?_, ?_⟩
    · rintro ⟨hfirst, hsecond⟩ a (ha | ha) hr
      · exact hfirst a ha hr
      · exact hsecond a ha ((h₁.reservedIp a mac).mpr ⟨hr, fun ha => hfirst a ha hr⟩)
    · intro hboth
      exact ⟨fun a ha => hboth a (Or.inl ha),
        fun a ha hr => hboth a (Or.inr ha) ((h₁.reservedIp a mac).mp hr).1⟩
  others := by
    rw [h₂.others, h₁.others]

theorem congr (hc : Consistent pool) (hsame : ∀ ip ∈ pool.includedAddresses, ip ∈ ips ↔ ip ∈ ips')
    (h : Withdrawn pool ips pool₁) : Withdrawn pool ips' pool₁ where
  included ip := by
    rw [h.included]
    exact and_congr_right fun hin => not_congr (hsame ip hin)
  excluded ip := by
    rw [h.excluded]
    exact or_congr_right (and_congr_right fun hin => hsame ip hin)
  reservedIp ip mac := by
    rw [h.reservedIp]
    exact and_congr_right fun hr => not_congr (hsame ip (hc.included hr))
  reservedMac mac ip := by
    rw [h.reservedMac]
    refine and_congr_right fun _ => forall_congr' fun a => ⟨?_, ?_⟩
    · exact fun hnot ha hr => hnot ((hsame a (hc.included hr)).mpr ha) hr
    · exact fun hnot ha hr => hnot ((hsame a (hc.included hr)).mp ha) hr
  others := h.others

theorem mem_iff (h : Withdrawn pool ips pool₁) (hin : ip ∈ pool.includedAddresses) :
    ip ∈ ips ↔ ip ∉ pool₁.includedAddresses := by
  rw [h.included]
  simp [hin]

end Withdrawn

theorem Consistent.withdrawn_without (h : Consistent pool) (ip : IPv4Address) :
    Withdrawn pool {ip} (pool.without ip) := by
  by_cases hin : ip ∈ pool.includedAddresses
  · rw [h.without_eq hin]
    constructor
    · intro a
      simp only [ExtTreeSet.mem_erase, ne_eq, Std.LawfulEqCmp.compare_eq_iff_eq,
        Set.mem_singleton_iff]
      rw [and_comm, eq_comm]
    · intro a
      simp only [ExtTreeSet.mem_insert, Std.LawfulEqCmp.compare_eq_iff_eq, Set.mem_singleton_iff]
      constructor
      · rintro (rfl | ha)
        · exact Or.inr ⟨hin, rfl⟩
        · exact Or.inl ha
      · rintro (ha | ⟨-, rfl⟩)
        · exact Or.inr ha
        · exact Or.inl rfl
    · intro a mac
      rw [lookup_dropReservation_reservedIp, Set.mem_singleton_iff]
      split_ifs with he
      · simp [he]
      · simp [Ne.symm he]
    · intro mac a
      rw [lookup_dropReservation_reservedMac]
      split_ifs with hr
      · simp [hr]
      · simp [hr]
    · rfl
  · have hsame : ∀ a ∈ pool.includedAddresses, a ∈ (∅ : Set IPv4Address) ↔ a ∈ ({ip} : Set _) := by
      intro a ha
      refine iff_of_false (Set.notMem_empty a) fun he => ?_
      rw [Set.mem_singleton_iff] at he
      exact hin (he ▸ ha)
    rw [AddressPool.without, if_neg hin]
    exact (Withdrawn.refl pool).congr h hsame

theorem Consistent.withdrawn_foldl (h : Consistent pool) (walk : List IPv4Address) :
    Withdrawn pool {ip | ip ∈ walk} (walk.foldl AddressPool.without pool) := by
  induction walk generalizing pool with
  | nil => simpa using Withdrawn.refl pool
  | cons a walk ih =>
    have hset : {ip | ip ∈ a :: walk} = {a} ∪ {ip | ip ∈ walk} := by
      ext ip
      simp
    rw [hset, List.foldl_cons]
    exact (h.withdrawn_without a).trans (ih (h.without a))

theorem Consistent.withdrawn_effect {op : PoolOp} {outcome : Exec (Option IPv4Address)}
    (h : Consistent pool) (hop : op.IsExclusion) (he : Effect pool op outcome pool₁) :
    Withdrawn pool {ip | op.Covers ip} pool₁ := by
  cases he with
  | exclude ip => exact h.withdrawn_without ip
  | excludeRange ipStart ipEnd =>
    have hset : {ip | (PoolOp.excludeIpRange ipStart ipEnd).Covers ip} =
        {ip | ip ∈ addressesUpTo ipStart ipEnd} := by
      ext ip
      exact mem_addressesUpTo.symm
    rw [hset]
    exact h.withdrawn_foldl _
  | _ => exact hop.elim

theorem Consistent.withdrawn_replay (h : Consistent pool) {ops : List PoolOp}
    (hops : ∀ op ∈ ops, op.IsExclusion) :
    Withdrawn pool {ip | ∃ op ∈ ops, op.Covers ip} (replay perform pool ops).2 := by
  induction ops generalizing pool with
  | nil => simpa [replay] using Withdrawn.refl pool
  | cons op ops ih =>
    have hset : {ip | ∃ o ∈ op :: ops, o.Covers ip} =
        {ip | op.Covers ip} ∪ {ip | ∃ o ∈ ops, o.Covers ip} := by
      ext ip
      simp
    rw [List.forall_mem_cons] at hops
    have he : Effect pool op (pool.perform op).1 (pool.perform op).2 := effect_call pool op
    rw [hset]
    exact (h.withdrawn_effect hops.1 he).trans (ih (h.effect he) hops.2)

/-- Two series of exclusions leave the same pool exactly when they cover the same of its included
addresses. -/
theorem exclusions_agree_iff (hp : Reachable pool) {ops ops' : List PoolOp}
    (hops : ∀ op ∈ ops, op.IsExclusion) (hops' : ∀ op ∈ ops', op.IsExclusion) :
    (replay perform pool ops).2 = (replay perform pool ops').2 ↔
      ∀ ip ∈ pool.includedAddresses,
        (∃ op ∈ ops, op.Covers ip) ↔ ∃ op ∈ ops', op.Covers ip := by
  have h := hp.consistent.withdrawn_replay hops
  have h' := hp.consistent.withdrawn_replay hops'
  constructor
  · intro he ip hin
    exact (h.mem_iff hin).trans ((not_congr (by rw [he])).trans (h'.mem_iff hin).symm)
  · exact fun hsame => (h.congr hp.consistent hsame).unique h'

end AddressPool

end

namespace AddressPool

/-- A range, and its addresses from the last to the first. -/
theorem exclusions_agree_sample :
    letI : Host := ⟨.little⟩
    (replay perform samplePool [.excludeIpRange (sampleIp 1) (sampleIp 2)]).2 =
      (replay perform samplePool [.excludeIp (sampleIp 2), .excludeIp (sampleIp 1)]).2 := by
  let host : Host := ⟨.little⟩
  refine (exclusions_agree_iff reachable_samplePool (by simp [PoolOp.IsExclusion])
    (by simp [PoolOp.IsExclusion])).mpr ?_
  have hall : ∀ ip ∈ samplePool.includedAddresses.toList, ip ∈ [sampleIp 1, sampleIp 2] := by
    decide
  intro ip hin
  have hip := hall ip (ExtTreeSet.mem_toList.mpr hin)
  rw [List.mem_pair] at hip
  rcases hip with rfl | rfl
  · exact iff_of_true ⟨_, List.mem_cons_self, by decide, by decide⟩
      ⟨_, List.mem_cons_of_mem _ List.mem_cons_self, rfl⟩
  · exact iff_of_true ⟨_, List.mem_cons_self, by decide, by decide⟩ ⟨_, List.mem_cons_self, rfl⟩

end AddressPool

end Klevret
