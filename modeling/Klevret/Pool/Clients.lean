import Klevret.Pool.Failures
import Klevret.Pool.Newcomers
import Klevret.Pool.Ranges

/-! # The clients of a new pool

A new pool gives its addresses out in their order, one to each client in the
order of the first requests, until the range is exhausted. The addresses that
are taken always are a beginning of the range.
-/

namespace Klevret

open Foundation
open Std (ExtTreeMap)

theorem eraseDups_concat {α : Type*} [DecidableEq α] (l : List α) (a : α) :
    (l ++ [a]).eraseDups = if a ∈ l then l.eraseDups else l.eraseDups ++ [a] := by
  rw [List.eraseDups_append]
  split_ifs with h <;> simp [List.cons_removeAll, List.eraseDups_cons, h]

namespace AddressPool

section

variable [Host]

/-- The client has its turn at this address: the first one at the start of the range, and so on up
to the end. -/
def HasTurn (startIp endIp : IPv4Address) (clients : List MacAddress) (mac : MacAddress)
    (ip : IPv4Address) : Prop :=
  ∃ i, clients[i]? = some mac ∧ ip.toUInt32.toNat = startIp.toUInt32.toNat + i ∧
    ip.toUInt32.toNat ≤ endIp.toUInt32.toNat

/-- The clients that have come so far lease the addresses of their turns, and these only. -/
structure InTurn (startIp endIp : IPv4Address) (clients : List MacAddress) (pool : AddressPool) :
    Prop where
  nodup : clients.Nodup
  reserved_empty : pool.reservedIpAddresses = ∅ ∧ pool.reservedMacAddresses = ∅
  cache_empty : pool.cache = ∅
  included : ∀ ip, ip ∈ pool.includedAddresses ↔
    startIp.toUInt32.toNat ≤ ip.toUInt32.toNat ∧ ip.toUInt32.toNat ≤ endIp.toUInt32.toNat
  lease_iff : ∀ mac ip, pool.takenMacAddresses[mac]? = some ip ↔
    HasTurn startIp endIp clients mac ip
  holder_iff : ∀ ip mac, pool.takenIpAddresses[ip]? = some mac ↔
    HasTurn startIp endIp clients mac ip

variable {startIp endIp ip : IPv4Address} {clients : List MacAddress} {mac m : MacAddress}
  {pool pool' : AddressPool}

theorem HasTurn.mem (h : HasTurn startIp endIp clients mac ip) : mac ∈ clients := by
  obtain ⟨i, hi, -⟩ := h
  exact List.mem_of_getElem? hi

theorem hasTurn_concat : HasTurn startIp endIp (clients ++ [mac]) m ip ↔
    HasTurn startIp endIp clients m ip ∨
      m = mac ∧ ip.toUInt32.toNat = startIp.toUInt32.toNat + clients.length ∧
        ip.toUInt32.toNat ≤ endIp.toUInt32.toNat := by
  constructor
  · rintro ⟨i, hi, hip, hle⟩
    rw [List.getElem?_append] at hi
    split_ifs at hi with hlt
    · exact Or.inl ⟨i, hi, hip, hle⟩
    · rw [List.getElem?_singleton] at hi
      split_ifs at hi with h0
      obtain rfl := Option.some.inj hi
      exact Or.inr ⟨rfl, by omega, hle⟩
  · rintro (⟨i, hi, hip, hle⟩ | ⟨rfl, hip, hle⟩)
    · exact ⟨i, by rw [List.getElem?_append_left (List.getElem?_eq_some_iff.mp hi).1, hi], hip, hle⟩
    · exact ⟨clients.length, by simp, hip, hle⟩

theorem InTurn.free_iff (h : InTurn startIp endIp clients pool) :
    pool.Free ip ↔ startIp.toUInt32.toNat + clients.length ≤ ip.toUInt32.toNat ∧
      ip.toUInt32.toNat ≤ endIp.toUInt32.toNat := by
  have htaken : ip ∈ pool.takenIpAddresses ↔ ∃ m, HasTurn startIp endIp clients m ip := by
    constructor
    · intro hmem
      obtain ⟨m, hm⟩ := lookup_of_mem hmem
      exact ⟨m, (h.holder_iff ip m).mp hm⟩
    · rintro ⟨m, hm⟩
      exact mem_of_lookup ((h.holder_iff ip m).mpr hm)
  rw [AddressPool.free_iff, h.included, htaken, h.reserved_empty.1]
  constructor
  · rintro ⟨⟨hlow, hhigh⟩, -, hn⟩
    refine ⟨?_, hhigh⟩
    by_contra hlt
    have hi : ip.toUInt32.toNat - startIp.toUInt32.toNat < clients.length := by omega
    exact hn ⟨_, _, List.getElem?_eq_getElem hi, by omega, hhigh⟩
  · rintro ⟨hlow, hhigh⟩
    refine ⟨⟨by omega, hhigh⟩, ExtTreeMap.not_mem_empty, ?_⟩
    rintro ⟨m, i, hi, hip, -⟩
    have hlt := (List.getElem?_eq_some_iff.mp hi).1
    omega

theorem inTurn_of_new {fuel : ℕ} (h : new fuel startIp endIp = some pool) :
    InTurn startIp endIp [] pool := by
  obtain ⟨⟨hri, hrm⟩, ⟨hti, htm⟩, hc⟩ := Constructed.empty ⟨fuel, startIp, endIp, h⟩
  refine ⟨List.nodup_nil, ⟨hri, hrm⟩, hc, mem_includedAddresses_of_new h, ?_, ?_⟩
  · simp [htm, HasTurn]
  · simp [hti, HasTurn]

/-- The outcome of a call for the client that came at this position. -/
structure ServedAt (startIp endIp : IPv4Address) (i : ℕ) (outcome : Exec (Option IPv4Address)) :
    Prop where
  served : i ≤ endIp.toUInt32.toNat - startIp.toUInt32.toNat →
    ∃ ip, outcome = .ok (some ip) ∧ ip.toUInt32.toNat = startIp.toUInt32.toNat + i
  refused : endIp.toUInt32.toNat - startIp.toUInt32.toNat < i → outcome.Throws

theorem InTurn.not_knows (h : InTurn startIp endIp clients pool)
    (hn : ∀ ip, ¬ HasTurn startIp endIp clients mac ip) : ¬ pool.Knows mac := by
  rw [knows_iff, h.reserved_empty.2, h.cache_empty]
  rintro (hr | ht | hc)
  · exact ExtTreeMap.not_mem_empty hr
  · obtain ⟨ip, hip⟩ := lookup_of_mem ht
    exact hn ip ((h.lease_iff mac ip).mp hip)
  · exact ExtTreeMap.not_mem_empty hc

theorem InTurn.again {outcome : Exec (Option IPv4Address)}
    (h : InTurn startIp endIp clients pool) (hle : startIp.toUInt32.toNat ≤ endIp.toUInt32.toNat)
    {i : ℕ} (hi : clients[i]? = some mac) (hs : PoolStep pool (.getAddress mac, outcome) pool') :
    pool' = pool ∧ ServedAt startIp endIp i outcome := by
  have he : Effect pool (.getAddress mac) outcome pool' := hs.effect
  by_cases hturn : startIp.toUInt32.toNat + i ≤ endIp.toUInt32.toNat
  · have hnum := toNat_toUInt32_ofNat (hturn.trans_lt endIp.toUInt32.toNat_lt)
    have hr : pool.reservedMacAddresses[mac]? = none := by simp [h.reserved_empty.2]
    have ht := (h.lease_iff mac _).mpr ⟨i, hi, hnum, by rw [hnum]; exact hturn⟩
    obtain ⟨rfl, rfl⟩ := he.of_leased hr ht
    exact ⟨rfl, fun _ => ⟨_, rfl, hnum⟩, fun hlt => by omega⟩
  · have hk : ¬ pool.Knows mac := by
      apply h.not_knows
      rintro ip ⟨j, hj, hip, hend⟩
      have hlt := (List.getElem?_eq_some_iff.mp hi).1
      have hij : i = j := (List.getElem?_inj hlt h.nodup).mp (hi.trans hj.symm)
      omega
    have hnone : ¬ pool.HasFree := by
      rintro ⟨ip, hip⟩
      have hlt := (List.getElem?_eq_some_iff.mp hi).1
      have hfree := h.free_iff.mp hip
      omega
    rcases effect_newcomer he hk with ⟨ip, hf, -, -⟩ | ⟨-, ⟨e, rfl⟩, rfl⟩
    · exact absurd ⟨ip, free_of_firstFree hf⟩ hnone
    · refine ⟨rfl, fun hserved => by omega, fun _ => ?_⟩
      rcases hs.returns_or_throws with ⟨value, hv⟩ | hthrows
      · cases hv
      · exact hthrows

theorem InTurn.toNat_firstFree (h : InTurn startIp endIp clients pool)
    (hf : pool.firstFree = some ip) :
    ip.toUInt32.toNat = startIp.toUInt32.toNat + clients.length := by
  obtain ⟨hlow, hhigh⟩ := h.free_iff.mp (free_of_firstFree hf)
  have hnum := toNat_toUInt32_ofNat ((hlow.trans hhigh).trans_lt endIp.toUInt32.toNat_lt)
  have hleast := firstFree_le hf (h.free_iff.mpr ⟨hnum.ge, hnum.le.trans (hlow.trans hhigh)⟩)
  rw [UInt32.le_iff_toNat_le, hnum] at hleast
  exact le_antisymm hleast hlow

theorem InTurn.lt_of_firstFree (h : InTurn startIp endIp clients pool)
    (hf : pool.firstFree = none) :
    endIp.toUInt32.toNat < startIp.toUInt32.toNat + clients.length := by
  by_contra hturn
  have hnum := toNat_toUInt32_ofNat ((Nat.not_lt.mp hturn).trans_lt endIp.toUInt32.toNat_lt)
  exact not_hasFree_iff.mpr hf ⟨_, h.free_iff.mpr ⟨hnum.ge, hnum.le.trans (Nat.not_lt.mp hturn)⟩⟩

theorem InTurn.nodup_concat (h : InTurn startIp endIp clients pool) (hn : mac ∉ clients) :
    (clients ++ [mac]).Nodup :=
  List.nodup_append.mpr
    ⟨h.nodup, List.nodup_singleton mac, by rintro a ha b hb rfl; simp_all⟩

theorem InTurn.withLease (h : InTurn startIp endIp clients pool) (hn : mac ∉ clients)
    (hf : pool.firstFree = some ip) :
    InTurn startIp endIp (clients ++ [mac]) (pool.withLease mac ip) := by
  have hip := h.toNat_firstFree hf
  have hhigh := (h.free_iff.mp (free_of_firstFree hf)).2
  have hturn : ∀ m a, HasTurn startIp endIp (clients ++ [mac]) m a ↔
      HasTurn startIp endIp clients m a ∨ m = mac ∧ a = ip := by
    intro m a
    have heq : a = ip ↔ a.toUInt32.toNat = startIp.toUInt32.toNat + clients.length := by
      rw [← hip, UInt32.toNat_inj, IPv4Address.toUInt32_injective.eq_iff]
    rw [hasTurn_concat, heq]
    apply or_congr_right
    apply and_congr_right
    intro _
    apply and_iff_left_of_imp
    omega
  have hmac : pool.takenMacAddresses[mac]? = none := by
    apply ExtTreeMap.getElem?_eq_none
    intro hmem
    obtain ⟨a, ha⟩ := lookup_of_mem hmem
    exact hn ((h.lease_iff mac a).mp ha).mem
  refine ⟨h.nodup_concat hn, h.reserved_empty, h.cache_empty, h.included, fun m a => ?_,
    fun a m => ?_⟩
  · rw [hturn, ← h.lease_iff]
    exact lookup_insert_iff hmac
  · rw [hturn, ← h.holder_iff, and_comm]
    exact lookup_insert_iff (of_firstFree hf).2.2

theorem InTurn.refused (h : InTurn startIp endIp clients pool) (hn : mac ∉ clients)
    (hend : endIp.toUInt32.toNat < startIp.toUInt32.toNat + clients.length) :
    InTurn startIp endIp (clients ++ [mac]) pool := by
  have hturn : ∀ m a, HasTurn startIp endIp (clients ++ [mac]) m a ↔
      HasTurn startIp endIp clients m a := by
    intro m a
    rw [hasTurn_concat]
    apply or_iff_left
    omega
  refine ⟨h.nodup_concat hn, h.reserved_empty, h.cache_empty, h.included, fun m a => ?_,
    fun a m => ?_⟩
  · rw [hturn, h.lease_iff]
  · rw [hturn, h.holder_iff]

theorem InTurn.first {outcome : Exec (Option IPv4Address)}
    (h : InTurn startIp endIp clients pool) (hle : startIp.toUInt32.toNat ≤ endIp.toUInt32.toNat)
    (hn : mac ∉ clients) (hs : PoolStep pool (.getAddress mac, outcome) pool') :
    InTurn startIp endIp (clients ++ [mac]) pool' ∧
      ServedAt startIp endIp clients.length outcome := by
  have he : Effect pool (.getAddress mac) outcome pool' := hs.effect
  have hk : ¬ pool.Knows mac := h.not_knows fun ip hturn => hn hturn.mem
  rcases effect_newcomer he hk with ⟨ip, hf, rfl, rfl⟩ | ⟨hf, ⟨e, rfl⟩, rfl⟩
  · have hip := h.toNat_firstFree hf
    have hhigh := (h.free_iff.mp (free_of_firstFree hf)).2
    exact ⟨h.withLease hn hf, fun _ => ⟨ip, rfl, hip⟩, fun hlt => by omega⟩
  · have hend := h.lt_of_firstFree hf
    exact ⟨h.refused hn hend, fun hserved => by omega,
      fun _ => hs.returns_or_throws.resolve_left (by simp)⟩

theorem InTurn.step {outcome : Exec (Option IPv4Address)} {macs : List MacAddress}
    (h : InTurn startIp endIp macs.eraseDups pool)
    (hle : startIp.toUInt32.toNat ≤ endIp.toUInt32.toNat)
    (hs : PoolStep pool (.getAddress mac, outcome) pool') :
    InTurn startIp endIp (macs ++ [mac]).eraseDups pool' ∧
      ∃ i, (macs ++ [mac]).eraseDups[i]? = some mac ∧ ServedAt startIp endIp i outcome := by
  rw [eraseDups_concat]
  split_ifs with hmem
  · obtain ⟨i, hi⟩ := List.mem_iff_getElem?.mp (List.mem_eraseDups.mpr hmem)
    obtain ⟨rfl, hserved⟩ := h.again hle hi hs
    exact ⟨h, i, hi, hserved⟩
  · obtain ⟨hturn, hserved⟩ := h.first hle (fun hin => hmem (List.mem_eraseDups.mp hin)) hs
    exact ⟨hturn, _, by simp, hserved⟩

theorem InTurn.size_taken (h : InTurn startIp endIp clients pool)
    (hle : startIp.toUInt32.toNat ≤ endIp.toUInt32.toNat) :
    pool.takenMacAddresses.size =
      min clients.length (endIp.toUInt32.toNat - startIp.toUInt32.toNat + 1) := by
  have hmem : ∀ m, m ∈ pool.takenMacAddresses.keys ↔
      m ∈ clients.take (endIp.toUInt32.toNat - startIp.toUInt32.toNat + 1) := by
    intro m
    rw [ExtTreeMap.mem_keys, List.mem_iff_getElem?]
    constructor
    · intro hm
      obtain ⟨ip, hip⟩ := lookup_of_mem hm
      obtain ⟨i, hi, hnum, hend⟩ := (h.lease_iff m ip).mp hip
      exact ⟨i, by rw [List.getElem?_take_of_lt (by omega), hi]⟩
    · rintro ⟨i, hi⟩
      rw [List.getElem?_take] at hi
      split_ifs at hi with hlt
      have hturn : startIp.toUInt32.toNat + i ≤ endIp.toUInt32.toNat := by omega
      have hnum := toNat_toUInt32_ofNat (hturn.trans_lt endIp.toUInt32.toNat_lt)
      exact mem_of_lookup ((h.lease_iff m _).mpr ⟨i, hi, hnum, hnum.le.trans hturn⟩)
  have hkeys : pool.takenMacAddresses.keys.Nodup := by
    apply ExtTreeMap.distinct_keys.imp
    rintro a b hne rfl
    exact hne Std.ReflCmp.compare_self
  have hperm :=
    (List.perm_ext_iff_of_nodup hkeys (h.nodup.sublist (List.take_sublist _ _))).mpr hmem
  rw [← ExtTreeMap.length_keys, hperm.length_eq, List.length_take, Nat.min_comm]

/-- Each call for the i-th client to appear returns the i-th address or, behind the end of the
range, throws; as many clients and addresses are leased as there are clients, or addresses. -/
structure ServesInOrder (startIp endIp : IPv4Address) (pool : AddressPool)
    (macs : List MacAddress) : Prop where
  served : ∀ (k : ℕ) (mac : MacAddress), macs[k]? = some mac →
    ∃ (i : ℕ) (outcome : Exec (Option IPv4Address)), macs.eraseDups[i]? = some mac ∧
      (replay perform pool (macs.map PoolOp.getAddress)).1[k]? =
        some (PoolOp.getAddress mac, outcome) ∧ ServedAt startIp endIp i outcome
  clients : (replay perform pool (macs.map PoolOp.getAddress)).2.takenMacAddresses.size =
    min macs.eraseDups.length (endIp.toUInt32.toNat - startIp.toUInt32.toNat + 1)
  addresses : (replay perform pool (macs.map PoolOp.getAddress)).2.takenIpAddresses.size =
    min macs.eraseDups.length (endIp.toUInt32.toNat - startIp.toUInt32.toNat + 1)

theorem InTurn.replay (h : InTurn startIp endIp [] pool)
    (hle : startIp.toUInt32.toNat ≤ endIp.toUInt32.toNat) (macs : List MacAddress) :
    InTurn startIp endIp macs.eraseDups
      (Foundation.replay perform pool (macs.map PoolOp.getAddress)).2 ∧
    ∀ (k : ℕ) (mac : MacAddress), macs[k]? = some mac →
      ∃ (i : ℕ) (outcome : Exec (Option IPv4Address)), macs.eraseDups[i]? = some mac ∧
        (Foundation.replay perform pool (macs.map PoolOp.getAddress)).1[k]? =
          some (PoolOp.getAddress mac, outcome) ∧ ServedAt startIp endIp i outcome := by
  induction macs using List.reverseRecOn with
  | nil => exact ⟨h, by simp⟩
  | append_singleton macs last ih =>
    obtain ⟨hturn, hserved⟩ := ih
    have hlength := length_replay perform pool (macs.map PoolOp.getAddress)
    rw [List.map_append, List.map_singleton, replay_concat]
    generalize Foundation.replay perform pool (macs.map PoolOp.getAddress) = run
      at hturn hserved hlength ⊢
    rw [List.length_map] at hlength
    have hstep : PoolStep run.2 (.getAddress last, (run.2.perform (.getAddress last)).1)
      (run.2.perform (.getAddress last)).2 := rfl
    obtain ⟨hturn', i, hi, hlast⟩ := hturn.step hle hstep
    refine ⟨hturn', fun k mac hk => ?_⟩
    by_cases hlt : k < macs.length
    · rw [List.getElem?_append_left hlt] at hk
      obtain ⟨j, outcome, hj, hlabel, hat⟩ := hserved k mac hk
      refine ⟨j, outcome, ?_, ?_, hat⟩
      · rw [List.eraseDups_append,
          List.getElem?_append_left (List.getElem?_eq_some_iff.mp hj).1, hj]
      · rw [List.getElem?_append_left (by omega), hlabel]
    · rw [List.getElem?_append_right (Nat.not_lt.mp hlt), List.getElem?_singleton] at hk
      split_ifs at hk with h0
      obtain rfl := Option.some.inj hk
      refine ⟨i, _, hi, ?_, hlast⟩
      rw [List.getElem?_append_right (by omega), hlength, h0, List.getElem?_cons_zero]

/-- The pool over a range that ends below 255.255.255.255 is constructed, and serves its clients in
order. -/
theorem servesInOrder (hle : startIp.toUInt32 ≤ endIp.toUInt32)
    (hend : endIp.toUInt32.toNat + 1 < UInt32.size) :
    (∃ fuel pool, new fuel startIp endIp = some pool) ∧
      ∀ fuel pool, new fuel startIp endIp = some pool → ∀ macs,
        ServesInOrder startIp endIp pool macs := by
  refine ⟨exists_new startIp hend.ne, fun fuel pool hnew macs => ?_⟩
  rw [UInt32.le_iff_toNat_le] at hle
  obtain ⟨hturn, hserved⟩ := (inTurn_of_new hnew).replay hle macs
  have hsize := hturn.size_taken hle
  have hinverse : MutuallyInverse
      (Foundation.replay perform pool (macs.map PoolOp.getAddress)).2.takenMacAddresses
      (Foundation.replay perform pool (macs.map PoolOp.getAddress)).2.takenIpAddresses :=
    fun mac ip => (hturn.lease_iff mac ip).trans (hturn.holder_iff ip mac).symm
  exact ⟨hserved, hsize, hinverse.size_eq.symm.trans hsize⟩

end

/-- Three clients at two addresses, the first of them twice. -/
theorem servesInOrder_sample :
    letI : Host := ⟨.little⟩
    ServesInOrder (sampleIp 1) (sampleIp 2) samplePool
      [sampleMac 1, sampleMac 2, sampleMac 1, sampleMac 3] := by
  let host : Host := ⟨.little⟩
  have hnew : new 3 (sampleIp 1) (sampleIp 2) = some samplePool := (Option.some_get _).symm
  exact (servesInOrder (by decide) (by decide)).2 3 samplePool hnew _

end AddressPool

end Klevret
