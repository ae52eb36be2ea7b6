import Klevret.Pool.Exclusion

/-! # Lease stability

A client that was given an address has it in the lease table, and has no other
address reserved. Only a new reservation for the client changes this.
-/

namespace Klevret

open Foundation

namespace AddressPool

section

variable [Host]

/-- The client has a lease for the address and a reservation for no other. -/
structure Holds (pool : AddressPool) (mac : MacAddress) (ip : IPv4Address) : Prop where
  lease : pool.takenMacAddresses[mac]? = some ip
  no_other : ∀ a, pool.reservedMacAddresses[mac]? = some a → a = ip

/-- A client that was given an address is given it again by every later call, until a reservation
is made for the client. -/
def LeasesStable (labels : List PoolLabel) : Prop :=
  ∀ before middle after mac ip outcome,
    labels = before ++ (.getAddress mac, .ok (some ip)) ::
      (middle ++ (.getAddress mac, outcome) :: after) →
    (∀ a, (PoolOp.reserveIp a mac, .ok none) ∉ middle) → outcome = .ok (some ip)

variable {pool pool' : AddressPool} {label : PoolLabel} {mac : MacAddress} {ip : IPv4Address}
  {outcome : Exec (Option IPv4Address)}

theorem reservedMac_without (pool : AddressPool) (a : IPv4Address) :
    (pool.without a).reservedMacAddresses =
      if a ∈ pool.includedAddresses then (pool.dropReservation a).reservedMacAddresses
      else pool.reservedMacAddresses := by
  unfold without dropCached dropReservation
  split_ifs
  · simp only
    split <;> split <;> rfl
  · rfl

theorem reserved_of_without {a : IPv4Address}
    (h : (pool.without a).reservedMacAddresses[mac]? = some ip) :
    pool.reservedMacAddresses[mac]? = some ip := by
  rw [reservedMac_without] at h
  split_ifs at h with hin
  · rw [lookup_dropReservation_reservedMac] at h
    split_ifs at h with hr
    exact h
  · exact h

theorem Holds.without {a : IPv4Address} (h : Holds pool mac ip) :
    Holds (pool.without a) mac ip where
  lease := (without_taken pool a).2.symm ▸ h.lease
  no_other b hb := h.no_other b (reserved_of_without hb)

theorem Holds.withLease {m : MacAddress} {a : IPv4Address} (h : Holds pool mac ip)
    (hne : m ≠ mac) : Holds (pool.withLease m a) mac ip where
  lease := by simpa [AddressPool.withLease, hne] using h.lease
  no_other := h.no_other

theorem Holds.ne_of_newcomer {m : MacAddress} (h : Holds pool mac ip)
    (hm : pool.takenMacAddresses[m]? = none) : m ≠ mac := by
  rintro rfl
  simp [h.lease] at hm

theorem Effect.holds (he : Effect pool (.getAddress mac) (.ok (some ip)) pool') :
    Holds pool' mac ip := by
  cases he with
  | reservation hr =>
    refine ⟨by simp [withLease], ?_⟩
    intro a ha
    exact Option.some.inj (ha.symm.trans hr)
  | lease hr ht => exact ⟨ht, fun a ha => by simp [hr] at ha⟩
  | cached hr => exact ⟨by simp [withLease], fun a ha => by simp [withLease, hr] at ha⟩
  | free hr => exact ⟨by simp [withLease], fun a ha => by simp [withLease, hr] at ha⟩

theorem Holds.given (h : Holds pool mac ip) (he : Effect pool (.getAddress mac) outcome pool') :
    outcome = .ok (some ip) := by
  cases he with
  | reservation hr => rw [h.no_other _ hr]
  | lease _ ht => rw [Option.some.inj (ht.symm.trans h.lease)]
  | cached _ ht => simp [h.lease] at ht
  | free _ ht => simp [h.lease] at ht
  | exhausted _ _ ht => simp [h.lease] at ht

theorem PoolStep.holds (hs : PoolStep pool label pool') (h : Holds pool mac ip)
    (hn : ∀ a, label ≠ (.reserveIp a mac, .ok none)) : Holds pool' mac ip := by
  obtain ⟨op, outcome⟩ := label
  have he := hs.effect
  cases he with
  | exclude a => exact h.without
  | excludeRange a b =>
    exact List.foldlRecOn _ _ (motive := fun p => Holds p mac ip) h fun p hp a _ => hp.without
  | @reserve a m =>
    have hne : m ≠ mac := by
      rintro rfl
      exact hn a rfl
    refine ⟨h.lease, ?_⟩
    simpa [withReservation, hne] using h.no_other
  | unreserve =>
    refine ⟨h.lease, ?_⟩
    intro b hb
    simp only [withoutReservation, lookup_erase] at hb
    split_ifs at hb
    exact h.no_other b hb
  | @reservation m a hr =>
    by_cases hm : m = mac
    · subst hm
      exact ⟨by simp [withLease, h.no_other a hr], h.no_other⟩
    · exact h.withLease hm
  | cached _ ht => exact h.withLease (h.ne_of_newcomer ht)
  | free _ ht => exact h.withLease (h.ne_of_newcomer ht)
  | _ => exact ⟨h.lease, h.no_other⟩

theorem Holds.run {labels : List PoolLabel} (h : Holds pool mac ip)
    (hr : Run PoolStep pool labels pool')
    (hn : ∀ a, (PoolOp.reserveIp a mac, .ok none) ∉ labels) : Holds pool' mac ip := by
  induction hr with
  | nil => exact h
  | cons hs _ ih =>
    simp only [List.mem_cons, not_or] at hn
    exact ih (hs.holds h fun a he => (hn a).1 he.symm) fun a => (hn a).2

theorem leasesStable {pool₀ : AddressPool} {labels : List PoolLabel}
    (hr : Run PoolStep pool₀ labels pool) : LeasesStable labels := by
  rintro before middle after mac ip outcome rfl hn
  obtain ⟨p₁, p₂, -, hs, hrest⟩ := hr.split_cons
  obtain ⟨p₃, p₄, hmiddle, hget, -⟩ := hrest.split_cons
  exact (hs.effect.holds.run hmiddle hn).given hget.effect

end

/-- A client asks again after another one was served and a reservation was made and withdrawn. -/
theorem leasesStable_sample :
    letI : Host := ⟨.little⟩
    LeasesStable (replay perform samplePool [.getAddress (sampleMac 1),
      .reserveIp (sampleIp 2) (sampleMac 2), .unreserveIp (sampleIp 2), .getAddress (sampleMac 3),
      .getAddress (sampleMac 1)]).1 := by
  let host : Host := ⟨.little⟩
  exact leasesStable (run_replay perform samplePool _)

end AddressPool

end Klevret
