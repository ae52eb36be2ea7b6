import Klevret.Foundation.Run
import Klevret.Pool.Effects

/-! # The invariant of a pool

A pool is constructed and then called. The tables by MAC point back into the
tables by address, in this direction only; a reserved address is included and
taken by nobody else. The table of taken addresses only grows.
-/

namespace Klevret

open Foundation
open Std (ExtTreeMap)

/-- A call and what came of it. -/
abbrev PoolLabel := PoolOp × Exec (Option IPv4Address)

namespace AddressPool

section

variable [Host]

def perform (pool : AddressPool) (op : PoolOp) : Exec (Option IPv4Address) × AddressPool :=
  observe ((call op).run pool)

def PoolStep : AddressPool → PoolLabel → AddressPool → Prop := Calls perform

def Constructed (pool : AddressPool) : Prop :=
  ∃ fuel startIp endIp, new fuel startIp endIp = some pool

/-- Some sequence of calls leads from a constructed pool to this one. -/
def Reachable (pool : AddressPool) : Prop :=
  ∃ pool₀ labels, Constructed pool₀ ∧ Run PoolStep pool₀ labels pool

theorem PoolStep.effect {pool pool' : AddressPool} {label : PoolLabel}
    (h : PoolStep pool label pool') : Effect pool label.1 label.2 pool' := by
  have he := effect_call pool label.1
  have hp : observe ((call label.1).run pool) = (label.2, pool') := h
  rwa [hp] at he

theorem effect_of_run {pool pool' : AddressPool} {mac : MacAddress} {ip : IPv4Address}
    (h : (getAddress mac).run pool = .ok ip pool') :
    Effect pool (.getAddress mac) (.ok (some ip)) pool' := by
  have he := effect_call pool (.getAddress mac)
  have hrun : (call (.getAddress mac)).run pool = .ok (some ip) pool' := by
    simp only [call, EStateM.run_bind, h]
    rfl
  rwa [hrun] at he

structure Consistent (pool : AddressPool) : Prop where
  cache_empty : pool.cache = ∅
  reserved : PointsBack pool.reservedMacAddresses pool.reservedIpAddresses
  taken : PointsBack pool.takenMacAddresses pool.takenIpAddresses
  included : ∀ {ip : IPv4Address} {mac : MacAddress}, pool.reservedIpAddresses[ip]? = some mac →
    ip ∈ pool.includedAddresses
  exclusive : ∀ {ip : IPv4Address} {mac mac' : MacAddress},
    pool.reservedIpAddresses[ip]? = some mac → pool.takenIpAddresses[ip]? = some mac' → mac' = mac

theorem Constructed.empty {pool : AddressPool} (h : Constructed pool) :
    (pool.reservedIpAddresses = ∅ ∧ pool.reservedMacAddresses = ∅) ∧
      (pool.takenIpAddresses = ∅ ∧ pool.takenMacAddresses = ∅) ∧ pool.cache = ∅ := by
  obtain ⟨fuel, startIp, endIp, h⟩ := h
  obtain ⟨included, _, hp⟩ := Option.bind_eq_some_iff.mp h
  obtain rfl := Option.some.inj hp
  exact ⟨⟨rfl, rfl⟩, ⟨rfl, rfl⟩, rfl⟩

theorem consistent_of_constructed {pool : AddressPool} (h : Constructed pool) :
    Consistent pool := by
  obtain ⟨⟨hri, hrm⟩, ⟨hti, htm⟩, hc⟩ := h.empty
  constructor <;> simp [PointsBack, hri, hrm, hti, htm, hc]

variable {pool pool' : AddressPool} {ip : IPv4Address} {mac : MacAddress}

theorem of_firstFree (h : pool.firstFree = some ip) :
    ip ∈ pool.includedAddresses ∧ pool.reservedIpAddresses[ip]? = none ∧
      pool.takenIpAddresses[ip]? = none := by
  have hmem := List.mem_of_find?_eq_some h
  have hfree := List.find?_some h
  have hr : ip ∉ pool.reservedIpAddresses := fun hr => by
    simp [(isIpAddressReserved_iff pool ip).mpr hr] at hfree
  have ht : ip ∉ pool.takenIpAddresses := fun ht => by
    simp [(isIpAddressTaken_iff pool ip).mpr ht] at hfree
  exact ⟨by simpa using hmem, ExtTreeMap.getElem?_eq_none hr, ExtTreeMap.getElem?_eq_none ht⟩

namespace Consistent

theorem dropCached (h : Consistent pool) : pool.dropCached ip = pool := by
  have hnil : pool.cache.toList = [] := ExtTreeMap.toList_eq_nil_iff.mpr h.cache_empty
  simp [AddressPool.dropCached, hnil]

theorem withoutReservation (h : Consistent pool) (hr : pool.reservedIpAddresses[ip]? = some mac) :
    Consistent (pool.withoutReservation ip mac) where
  cache_empty := h.cache_empty
  reserved := h.reserved.erase fun a ha => Option.some.inj (ha.symm.trans hr)
  taken := h.taken
  included {ip'} mac' hr' := by
    simp only [AddressPool.withoutReservation, lookup_erase] at hr'
    split_ifs at hr' with he
    exact h.included hr'
  exclusive {ip' mac' mac''} hr' ht := by
    simp only [AddressPool.withoutReservation, lookup_erase] at hr'
    split_ifs at hr' with he
    exact h.exclusive hr' ht

theorem withReservation (h : Consistent pool) (hin : ip ∈ pool.includedAddresses)
    (hr : pool.reservedIpAddresses[ip]? = none) (ht : pool.takenIpAddresses[ip]? = none) :
    Consistent (pool.withReservation ip mac) where
  cache_empty := h.cache_empty
  reserved := h.reserved.insert fun a ha => by simp [hr] at ha
  taken := h.taken
  included {ip'} mac' hr' := by
    simp only [AddressPool.withReservation, lookup_insert] at hr'
    split_ifs at hr' with he
    · exact he ▸ hin
    · exact h.included hr'
  exclusive {ip' mac' mac''} hr' ht' := by
    simp only [AddressPool.withReservation, lookup_insert] at hr' ht'
    split_ifs at hr' with he
    · simp [← he, ht] at ht'
    · exact h.exclusive hr' ht'

theorem withLease (h : Consistent pool)
    (hr : ∀ m, pool.reservedIpAddresses[ip]? = some m → m = mac)
    (ht : ∀ m, pool.takenIpAddresses[ip]? = some m → m = mac) :
    Consistent (pool.withLease mac ip) where
  cache_empty := h.cache_empty
  reserved := h.reserved
  taken := h.taken.insert ht
  included := h.included
  exclusive {ip' mac' mac''} hr' ht' := by
    simp only [AddressPool.withLease, lookup_insert] at hr' ht'
    split_ifs at ht' with he
    · subst he
      rw [hr mac' hr', Option.some.inj ht']
    · exact h.exclusive hr' ht'

theorem dropReservation (h : Consistent pool) (ip : IPv4Address) :
    Consistent (pool.dropReservation ip) := by
  unfold AddressPool.dropReservation
  cases hr : pool.reservedIpAddresses[ip]? with
  | some mac => exact h.withoutReservation hr
  | none => exact h

theorem dropReservation_reserved (pool : AddressPool) (ip : IPv4Address) :
    (pool.dropReservation ip).reservedIpAddresses[ip]? = none := by
  unfold AddressPool.dropReservation
  cases hr : pool.reservedIpAddresses[ip]? with
  | some mac => simp [AddressPool.withoutReservation]
  | none => exact hr

theorem without (h : Consistent pool) (ip : IPv4Address) : Consistent (pool.without ip) := by
  unfold AddressPool.without
  split_ifs with hin
  · have h₁ : Consistent
        { pool with excludedAddresses := pool.excludedAddresses.insert ip } := { h with }
    have h₂ := h₁.dropReservation ip
    have hr := dropReservation_reserved
      { pool with excludedAddresses := pool.excludedAddresses.insert ip } ip
    simp only [h₂.dropCached]
    generalize AddressPool.dropReservation _ ip = p at h₂ hr
    refine { h₂ with included := fun {ip'} mac hr' => ?_ }
    have hne : ip ≠ ip' := fun he => by simp [← he, hr] at hr'
    simpa [hne] using h₂.included hr'
  · exact h

end Consistent

theorem Consistent.effect {op : PoolOp} {outcome : Exec (Option IPv4Address)} (h : Consistent pool)
    (he : Effect pool op outcome pool') : Consistent pool' := by
  cases he with
  | exclude ip => exact h.without ip
  | excludeRange a b => exact List.foldlRecOn _ _ h fun p hp ip _ => hp.without ip
  | reserve mac hin hr ht => exact h.withReservation hin hr ht
  | notReserved => exact h
  | unreserve hr => exact h.withoutReservation hr
  | notUnreserved => exact h
  | @reservation mac ip hr =>
    have hb := h.reserved _ _ hr
    exact h.withLease (fun m hm => Option.some.inj (hm.symm.trans hb)) fun m hm =>
      h.exclusive hb hm
  | lease => exact h
  | cached _ _ hc => simp [h.cache_empty] at hc
  | free _ _ _ hf =>
    obtain ⟨_, hr, ht⟩ := of_firstFree hf
    exact h.withLease (fun m hm => by simp [hr] at hm) fun m hm => by simp [ht] at hm
  | exhausted => exact h
  | release => exact h
  | setOption => exact { h with }
  | removeOption => exact { h with }

theorem Consistent.step {label : PoolLabel} (h : Consistent pool)
    (hs : PoolStep pool label pool') : Consistent pool' := h.effect hs.effect

theorem Consistent.run {labels : List PoolLabel} (h : Consistent pool)
    (hr : Run PoolStep pool labels pool') : Consistent pool' :=
  hr.invariant (fun _ _ _ h hs => h.step hs) h

theorem Consistent.foldl_without {P : AddressPool → Prop} {ips : List IPv4Address}
    (h : Consistent pool) (hp : P pool)
    (hstep : ∀ p, ∀ ip ∈ ips, Consistent p → P p → P (p.without ip)) :
    P (ips.foldl AddressPool.without pool) := by
  have hboth := List.foldlRecOn ips AddressPool.without (motive := fun p => Consistent p ∧ P p)
    ⟨h, hp⟩ fun p hp ip hip => ⟨hp.1.without ip, hstep p ip hip hp.1 hp.2⟩
  exact hboth.2

/-- What the calls that meet a condition keep holds after every run of such calls. -/
theorem Consistent.run_guarded {C : AddressPool → PoolLabel → Prop} {P : AddressPool → Prop}
    {labels : List PoolLabel} (h : Consistent pool) (hp : P pool)
    (hr : Run (Guarded PoolStep C) pool labels pool')
    (hstep : ∀ p label p', Consistent p → PoolStep p label p' → C p label → P p → P p') :
    P pool' := by
  have hboth := hr.invariant (I := fun p => Consistent p ∧ P p)
    (fun p label p' hp hs => ⟨hp.1.step hs.1, hstep p label p' hp.1 hs.1 hs.2 hp.2⟩) ⟨h, hp⟩
  exact hboth.2

theorem Reachable.consistent (h : Reachable pool) : Consistent pool := by
  obtain ⟨pool₀, labels, hc, hr⟩ := h
  exact (consistent_of_constructed hc).run hr

end

def sampleIp (last : UInt8) : IPv4Address := ⟨⟨[10, 0, 0, last], rfl⟩⟩

def sampleMac (last : UInt8) : MacAddress := ⟨⟨[2, 0, 0, 0, 0, last], rfl⟩⟩

/-- The addresses 10.0.0.1 and 10.0.0.2, on a little-endian host. -/
def samplePool : @AddressPool ⟨.little⟩ :=
  (@new ⟨.little⟩ 3 (sampleIp 1) (sampleIp 2)).get (by decide)

theorem constructed_samplePool : @Constructed ⟨.little⟩ samplePool :=
  ⟨3, sampleIp 1, sampleIp 2, (Option.some_get _).symm⟩

theorem reachable_samplePool : @Reachable ⟨.little⟩ samplePool :=
  ⟨samplePool, [], constructed_samplePool, .nil samplePool⟩

end AddressPool

end Klevret
