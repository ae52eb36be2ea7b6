import Klevret.Pool.Exclusion

/-! # The two reservation tables

`reserve_ip` looks at the table by address only. The two tables stay inverse to
each other until a client with a reservation is given a second one; as long as
they do, a reserved address is what its client is given.
-/

namespace Klevret

open Foundation
open Std (ExtTreeMap)

namespace AddressPool

section

variable [Host]

/-- The calls that take the reservation of an address away. -/
def Withdraws (ip : IPv4Address) : PoolOp → Prop
  | .unreserveIp a => a = ip
  | .excludeIp a => a = ip
  | .excludeIpRange ipStart ipEnd => ip ∈ addressesUpTo ipStart ipEnd
  | _ => False

/-- A reservation that is made is the only one of its client. -/
def OneReservation (pool : AddressPool) : PoolLabel → Prop
  | (.reserveIp ip mac, _) => pool.isAddressIncluded ip → ¬ pool.isIpAddressReserved ip →
      ¬ pool.isIpAddressTaken ip → ¬ pool.isMacAddressReserved mac
  | _ => True

/-- The reservation tables agree in every state of a run, and from a successful reservation until it
is withdrawn the client is given the address. -/
structure ReservationsHonoured (pool₀ : AddressPool) (labels : List PoolLabel) : Prop where
  inverse : ∀ before after p, labels = before ++ after → Run PoolStep pool₀ before p →
    MutuallyInverse p.reservedMacAddresses p.reservedIpAddresses
  honoured : ∀ before middle after ip mac outcome,
    labels = before ++ (.reserveIp ip mac, .ok none) ::
      (middle ++ (.getAddress mac, outcome) :: after) →
    (∀ label ∈ middle, ¬ Withdraws ip label.1) → outcome = .ok (some ip)

variable {pool pool' : AddressPool} {label : PoolLabel} {ip : IPv4Address} {mac : MacAddress}

theorem Consistent.inverse_without (h : Consistent pool)
    (hm : MutuallyInverse pool.reservedMacAddresses pool.reservedIpAddresses) (a : IPv4Address) :
    MutuallyInverse (pool.without a).reservedMacAddresses (pool.without a).reservedIpAddresses := by
  by_cases hin : a ∈ pool.includedAddresses
  · rw [h.without_eq hin]
    unfold AddressPool.dropReservation
    cases hr : pool.reservedIpAddresses[a]? with
    | some mac => exact hm.erase ((hm mac a).mpr hr)
    | none => exact hm
  · simpa [AddressPool.without, hin] using hm

theorem Consistent.reserved_without (h : Consistent pool) {a : IPv4Address} (hne : a ≠ ip) :
    (pool.without a).reservedIpAddresses[ip]? = pool.reservedIpAddresses[ip]? := by
  by_cases hin : a ∈ pool.includedAddresses
  · simp [h.without_eq hin, lookup_dropReservation_reservedIp, hne]
  · simp [AddressPool.without, hin]

theorem PoolStep.reservations (h : Consistent pool) (hs : PoolStep pool label pool')
    (ho : OneReservation pool label)
    (hm : MutuallyInverse pool.reservedMacAddresses pool.reservedIpAddresses) :
    MutuallyInverse pool'.reservedMacAddresses pool'.reservedIpAddresses := by
  obtain ⟨op, outcome⟩ := label
  have he := hs.effect
  cases he with
  | exclude a => exact h.inverse_without hm a
  | excludeRange a b => exact h.foldl_without hm fun p ip _ hp hpm => hp.inverse_without hpm ip
  | @reserve ip mac hin hr ht =>
    have hri : ¬ pool.isIpAddressReserved ip := by simpa using not_mem_of_lookup hr
    have hti : ¬ pool.isIpAddressTaken ip := by simpa using not_mem_of_lookup ht
    have hfree := ho (by simpa using hin) hri hti
    rw [isMacAddressReserved_iff] at hfree
    refine hm.insert ?_ ?_
    · intro a ha
      simp [ExtTreeMap.getElem?_eq_none hfree] at ha
    · intro m hr'
      simp [hr] at hr'
  | unreserve hr => exact hm.erase ((hm _ _).mpr hr)
  | _ => exact hm

theorem PoolStep.reservations_broken (h : Consistent pool) (hs : PoolStep pool label pool')
    (ho : ¬ OneReservation pool label) :
    ¬ MutuallyInverse pool'.reservedMacAddresses pool'.reservedIpAddresses := by
  obtain ⟨op, outcome⟩ := label
  cases op with
  | reserveIp ip mac =>
    simp only [OneReservation, Classical.not_imp, not_not, isMacAddressReserved_iff,
      isAddressIncluded_iff, isIpAddressReserved_iff, isIpAddressTaken_iff] at ho
    obtain ⟨hin, hr, ht, hmac⟩ := ho
    obtain ⟨other, hm⟩ := lookup_of_mem hmac
    cases hs.effect with
    | reserve _ _ hr' =>
      apply not_mutuallyInverse_insert h.reserved hm
      rintro rfl
      simp [h.reserved _ _ hm] at hr'
    | notReserved _ _ hn =>
      exact absurd ⟨hin, ExtTreeMap.getElem?_eq_none hr, ExtTreeMap.getElem?_eq_none ht⟩ hn
  | _ => exact absurd trivial ho

theorem PoolStep.reserved (h : Consistent pool) (hs : PoolStep pool label pool')
    (hw : ¬ Withdraws ip label.1) (hr : pool.reservedIpAddresses[ip]? = some mac) :
    pool'.reservedIpAddresses[ip]? = some mac := by
  obtain ⟨op, outcome⟩ := label
  have he := hs.effect
  cases he with
  | exclude a => rwa [h.reserved_without hw]
  | excludeRange a b =>
    refine h.foldl_without (P := fun p => p.reservedIpAddresses[ip]? = some mac) hr ?_
    intro p a ha hp hpr
    have hne : a ≠ ip := by
      rintro rfl
      exact hw ha
    exact (hp.reserved_without hne).trans hpr
  | @reserve a m hin hr' ht =>
    have hne : a ≠ ip := by
      rintro rfl
      simp [hr'] at hr
    simpa [withReservation, hne] using hr
  | @unreserve a m hr' =>
    have hne : a ≠ ip := hw
    simpa [withoutReservation, hne] using hr
  | _ => exact hr

theorem reserved_run {labels : List PoolLabel} (h : Consistent pool)
    (hr : Run PoolStep pool labels pool') (hw : ∀ label ∈ labels, ¬ Withdraws ip label.1)
    (hres : pool.reservedIpAddresses[ip]? = some mac) :
    pool'.reservedIpAddresses[ip]? = some mac := by
  induction hr with
  | nil => exact hres
  | cons hs _ ih =>
    rw [List.forall_mem_cons] at hw
    exact ih (h.step hs) hw.2 (hs.reserved h hw.1 hres)

theorem reservations_run {labels : List PoolLabel} (h : Consistent pool)
    (hm : MutuallyInverse pool.reservedMacAddresses pool.reservedIpAddresses)
    (hr : Run (Guarded PoolStep OneReservation) pool labels pool') :
    MutuallyInverse pool'.reservedMacAddresses pool'.reservedIpAddresses :=
  h.run_guarded hm hr fun _ _ _ hp hs ho hpm => hs.reservations hp ho hpm

theorem Constructed.reservations (hc : Constructed pool) :
    MutuallyInverse pool.reservedMacAddresses pool.reservedIpAddresses := by
  obtain ⟨⟨hip, hmac⟩, -⟩ := hc.empty
  simp [MutuallyInverse, hip, hmac]

/-- Where the tables agree, a client is given its reserved address until it is withdrawn. -/
theorem honoured_of_guarded {pool₀ : AddressPool} {before middle after : List PoolLabel}
    {outcome : Exec (Option IPv4Address)} (hc : Constructed pool₀)
    (hr : Run (Guarded PoolStep OneReservation) pool₀
      (before ++ (.reserveIp ip mac, .ok none) ::
        (middle ++ (.getAddress mac, outcome) :: after)) pool)
    (hw : ∀ label ∈ middle, ¬ Withdraws ip label.1) : outcome = .ok (some ip) := by
  have h := consistent_of_constructed hc
  obtain ⟨p₁, p₂, hbefore, hs, hrest⟩ := hr.split_cons
  obtain ⟨p₃, p₄, hmiddle, hget, -⟩ := hrest.split_cons
  have h₂ := (h.run hbefore.of_guarded).step hs.1
  have hres : p₂.reservedIpAddresses[ip]? = some mac := by
    cases hs.1.effect with
    | reserve => simp [withReservation]
  have hres₃ := reserved_run h₂ hmiddle.of_guarded hw hres
  have hm := reservations_run h hc.reservations ((hbefore.snoc hs).append hmiddle)
  exact (hget.1.effect.of_reserved ((hm mac ip).mpr hres₃)).1

/-- The reservations of a run are honoured exactly when every reservation that it makes is the only
one of its client. -/
theorem reservationsHonoured_iff {pool₀ : AddressPool} {labels : List PoolLabel}
    (hc : Constructed pool₀) (hr : Run PoolStep pool₀ labels pool) :
    ReservationsHonoured pool₀ labels ↔
      Run (Guarded PoolStep OneReservation) pool₀ labels pool := by
  have h := consistent_of_constructed hc
  have hinverse := Run.always_iff_guarded (C := OneReservation)
    (P := fun p => MutuallyInverse p.reservedMacAddresses p.reservedIpAddresses)
    (fun before p hp => reservations_run h hc.reservations hp)
    (fun before p label p' hp hs ho => hs.reservations_broken (h.run hp.of_guarded) ho)
    (deterministic_calls perform) hr
  constructor
  · intro hh
    exact hinverse.mp hh.inverse
  · intro hg
    refine ⟨hinverse.mpr hg, ?_⟩
    rintro before middle after ip mac outcome rfl hw
    exact honoured_of_guarded hc hg hw

end

/-- Two reservations for one client: it is given the second, and not the first. -/
theorem not_reservationsHonoured_sample :
    letI : Host := ⟨.little⟩
    let run := replay perform samplePool [.reserveIp (sampleIp 1) (sampleMac 1),
      .reserveIp (sampleIp 2) (sampleMac 1), .getAddress (sampleMac 1)]
    Run PoolStep samplePool run.1 run.2 ∧ ¬ ReservationsHonoured samplePool run.1 := by
  let host : Host := ⟨.little⟩
  refine ⟨run_replay perform samplePool _, ?_⟩
  intro hh
  have hlabels : (replay perform samplePool [.reserveIp (sampleIp 1) (sampleMac 1),
      .reserveIp (sampleIp 2) (sampleMac 1), .getAddress (sampleMac 1)]).1 =
      [] ++ (.reserveIp (sampleIp 1) (sampleMac 1), .ok none) ::
        ([(.reserveIp (sampleIp 2) (sampleMac 1), .ok none)] ++
          (.getAddress (sampleMac 1), .ok (some (sampleIp 2))) :: []) := by decide
  have hgiven := hh.honoured _ _ _ _ _ _ hlabels (by simp [Withdraws])
  exact absurd hgiven (by decide)

/-- One reservation for each of two clients. -/
theorem reservationsHonoured_sample :
    letI : Host := ⟨.little⟩
    let run := replay perform samplePool [.reserveIp (sampleIp 2) (sampleMac 1),
      .reserveIp (sampleIp 1) (sampleMac 2), .getAddress (sampleMac 1)]
    ReservationsHonoured samplePool run.1 ↔
      Run (Guarded PoolStep OneReservation) samplePool run.1 run.2 := by
  let host : Host := ⟨.little⟩
  exact reservationsHonoured_iff constructed_samplePool (run_replay perform samplePool _)

end AddressPool

end Klevret
