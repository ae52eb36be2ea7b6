import Klevret.Pool.Invariant

/-! # No double lease

The table of taken addresses is a ledger: an address that is returned to a
client is recorded for it, and no operation takes a record away or changes it.
-/

namespace Klevret

open Foundation

namespace AddressPool

section

variable [Host] {pool pool' : AddressPool} {op : PoolOp} {outcome : Exec (Option IPv4Address)}
  {mac : MacAddress} {ip : IPv4Address}

theorem without_taken (pool : AddressPool) (ip : IPv4Address) :
    (pool.without ip).takenIpAddresses = pool.takenIpAddresses ∧
      (pool.without ip).takenMacAddresses = pool.takenMacAddresses := by
  unfold without dropCached dropReservation
  split_ifs
  · simp only
    split <;> split <;> exact ⟨rfl, rfl⟩
  · exact ⟨rfl, rfl⟩

theorem foldl_without_taken (pool : AddressPool) (ips : List IPv4Address) :
    (ips.foldl without pool).takenIpAddresses = pool.takenIpAddresses ∧
      (ips.foldl without pool).takenMacAddresses = pool.takenMacAddresses := by
  induction ips generalizing pool with
  | nil => exact ⟨rfl, rfl⟩
  | cons ip ips ih =>
    obtain ⟨hip, hmac⟩ := ih (pool.without ip)
    obtain ⟨hip', hmac'⟩ := without_taken pool ip
    exact ⟨hip.trans hip', hmac.trans hmac'⟩

theorem Effect.extends (h : Consistent pool) (he : Effect pool op outcome pool') :
    Extends pool.takenIpAddresses pool'.takenIpAddresses := by
  cases he with
  | exclude ip =>
    rw [(without_taken pool ip).1]
    exact .refl _
  | excludeRange a b =>
    rw [(foldl_without_taken pool _).1]
    exact .refl _
  | @reservation mac ip hr => exact .insert fun m hm => (h.exclusive (h.reserved _ _ hr) hm)
  | free _ _ _ hf => exact .insert fun m hm => by simp [(of_firstFree hf).2.2] at hm
  | cached _ _ hc => simp [h.cache_empty] at hc
  | _ => exact .refl _

theorem Effect.recorded (h : Consistent pool)
    (he : Effect pool (.getAddress mac) (.ok (some ip)) pool') :
    pool'.takenIpAddresses[ip]? = some mac := by
  cases he with
  | reservation hr => simp [withLease]
  | lease _ ht => exact h.taken _ _ ht
  | cached => simp [withLease]
  | free => simp [withLease]

theorem extends_run {labels : List PoolLabel} (h : Consistent pool)
    (hr : Run PoolStep pool labels pool') :
    Extends pool.takenIpAddresses pool'.takenIpAddresses := by
  induction hr with
  | nil => exact .refl _
  | cons hs _ ih => exact (hs.effect.extends h).trans (ih (h.step hs))

theorem recorded_of_mem {labels : List PoolLabel} (h : Consistent pool)
    (hr : Run PoolStep pool labels pool')
    (hm : (PoolOp.getAddress mac, .ok (some ip)) ∈ labels) :
    pool'.takenIpAddresses[ip]? = some mac := by
  obtain ⟨before, after, t, t', rfl, hbefore, hs, hafter⟩ := hr.exists_step hm
  have ht := h.run hbefore
  exact extends_run (ht.step hs) hafter _ _ (hs.effect.recorded ht)

/-- Two calls that return the same address are calls for the same client, and a returned address is
not reserved for anyone else. -/
theorem no_double_lease {pool₀ pool : AddressPool} {labels : List PoolLabel}
    (hc : Constructed pool₀) (hr : Run PoolStep pool₀ labels pool) :
    (∀ m₁ m₂ ip, (PoolOp.getAddress m₁, .ok (some ip)) ∈ labels →
      (PoolOp.getAddress m₂, .ok (some ip)) ∈ labels → m₁ = m₂) ∧
    ∀ before after mac ip t t', labels = before ++ (.getAddress mac, .ok (some ip)) :: after →
      Run PoolStep pool₀ before t → PoolStep t (.getAddress mac, .ok (some ip)) t' →
      ∀ m, t'.reservedIpAddresses[ip]? = some m → m = mac := by
  have h := consistent_of_constructed hc
  constructor
  · intro m₁ m₂ ip h₁ h₂
    exact Option.some.inj ((recorded_of_mem h hr h₁).symm.trans (recorded_of_mem h hr h₂))
  · intro before after mac ip t t' _ hbefore hs m hm
    have ht := h.run hbefore
    exact ((ht.step hs).exclusive hm (hs.effect.recorded ht)).symm

end

/-- Two clients in turn, on a pool of two addresses. -/
theorem no_double_lease_sample :
    letI : Host := ⟨.little⟩
    let labels := (replay perform samplePool
      [.getAddress (sampleMac 1), .getAddress (sampleMac 2)]).1
    (∀ m₁ m₂ ip, (PoolOp.getAddress m₁, .ok (some ip)) ∈ labels →
      (PoolOp.getAddress m₂, .ok (some ip)) ∈ labels → m₁ = m₂) ∧
    ∀ before after mac ip t t', labels = before ++ (.getAddress mac, .ok (some ip)) :: after →
      Run PoolStep samplePool before t → PoolStep t (.getAddress mac, .ok (some ip)) t' →
      ∀ m, t'.reservedIpAddresses[ip]? = some m → m = mac := by
  let host : Host := ⟨.little⟩
  exact no_double_lease constructed_samplePool (run_replay perform samplePool _)

end AddressPool

end Klevret
