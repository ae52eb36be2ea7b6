import Klevret.Pool.Exclusion
import Klevret.Server.Steps

/-! # Offers and acknowledgements of an address

The lease of an address is kept under the MAC of its client, but the address of
an acknowledgement is looked up under the transaction id alone. What is sent
about an address stays true of the lease table of the first pool as long as every
request comes from the client that holds the address on record.
-/

namespace Klevret

open Foundation

/-- No address is offered to one client and acknowledged to another. -/
def NoCrossAcknowledge (sent : List Broadcast) : Prop :=
  ∀ offer ∈ sent, ∀ acknowledge ∈ sent, offer.message.messageType = some .dhcpoffer →
    acknowledge.message.messageType = some .dhcpack →
    offer.message.yiaddr = acknowledge.message.yiaddr →
    offer.message.chaddr = acknowledge.message.chaddr

instance (sent : List Broadcast) : Decidable (NoCrossAcknowledge sent) :=
  inferInstanceAs (Decidable (∀ offer ∈ sent, ∀ acknowledge ∈ sent, _))

namespace AddressPool

variable [Host] {pool pool' : AddressPool} {op : PoolOp} {outcome : Exec (Option IPv4Address)}
  {b : Broadcast}

/-- The address is leased to this client, or the pool neither holds it nor has given it out. -/
def HeldFor (pool : AddressPool) (ip : IPv4Address) (client : Option MacAddress) : Prop :=
  pool.takenIpAddresses[ip]? = client ∨
    ¬ pool.isIpAddressTaken ip ∧ ¬ pool.isAddressIncluded ip

instance (pool : AddressPool) (ip : IPv4Address) (client : Option MacAddress) :
    Decidable (pool.HeldFor ip client) := inferInstanceAs (Decidable (_ ∨ _))

/-- What is offered is leased to the client, and what is acknowledged is leased to the client or
can never be leased. -/
structure Accounts (pool : AddressPool) (b : Broadcast) : Prop where
  offer : b.message.messageType = some .dhcpoffer →
    ∃ mac, b.message.chaddr = some mac ∧ pool.takenIpAddresses[b.message.yiaddr]? = some mac
  acknowledge : b.message.messageType = some .dhcpack →
    ∃ mac, b.message.chaddr = some mac ∧
      (pool.takenIpAddresses[b.message.yiaddr]? = some mac ∨ Gone pool b.message.yiaddr)

theorem Accounts.effect (hc : Consistent pool) (he : Effect pool op outcome pool')
    (h : Accounts pool b) : Accounts pool' b where
  offer ht := by
    obtain ⟨mac, hmac, hip⟩ := h.offer ht
    exact ⟨mac, hmac, he.extends hc _ _ hip⟩
  acknowledge ht := by
    obtain ⟨mac, hmac, hip | hg⟩ := h.acknowledge ht
    · exact ⟨mac, hmac, Or.inl (he.extends hc _ _ hip)⟩
    · exact ⟨mac, hmac, Or.inr (hg.effect he)⟩

end AddressPool

namespace ServerState

section

variable [Host] {state state' : ServerState} {message : DhcpMessage} {op : ServerOp}

/-- A request that is answered comes from the client that the address on record is held for. -/
def HeldByClient (state : ServerState) (op : ServerOp) : Prop :=
  ∀ message ∈ state.answered op, ∀ pool ∈ state.addressPools.head?,
    pool.HeldFor (state.recorded message.xid) message.chaddr

instance (state : ServerState) (op : ServerOp) : Decidable (state.HeldByClient op) :=
  inferInstanceAs (Decidable (∀ message ∈ state.answered op, _))

def Accounted (state : ServerState) : Prop :=
  match state.addressPools with
  | [] => state.sent = []
  | pool :: _ => pool.Consistent ∧ ∀ b ∈ state.sent, pool.Accounts b

theorem Started.accounted (h : Started state) : Accounted state := by
  simp [Accounted, h.addressPools, h.sent]

theorem Accounted.noCrossAcknowledge (h : Accounted state) : NoCrossAcknowledge state.sent := by
  intro offer hoffer acknowledge hack hto hta hip
  unfold Accounted at h
  cases hp : state.addressPools with
  | nil =>
    simp only [hp] at h
    simp [h] at hoffer
  | cons pool pools =>
    simp only [hp] at h
    obtain ⟨mac, hmac, ht⟩ := (h.2 offer hoffer).offer hto
    obtain ⟨mac', hmac', ht' | hg⟩ := (h.2 acknowledge hack).acknowledge hta
    · rw [hmac, hmac', ← ht, ← ht', hip]
    · rw [hip, hg.not_taken] at ht
      exact absurd ht (Option.some_ne_none mac).symm

theorem Accounted.handled (h : Accounted state) (hh : Handled state message state')
    (hk : message.Asks .dhcprequest → ∀ pool ∈ state.addressPools.head?,
      pool.HeldFor (state.recorded message.xid) message.chaddr)
    (hfree : state.haveFreeAddress = true) : Accounted state' := by
  obtain ⟨pool, pools, hp⟩ := haveFreeAddress_iff.mp hfree
  have ha : pool.Consistent ∧ ∀ b ∈ state.sent, pool.Accounts b := by
    simpa only [Accounted, hp] using h
  obtain ⟨hc, hsent⟩ := ha
  cases hh with
  | ignored => exact h
  | @offered mac first pool' rest ip data dst hd hmac hp' hg =>
    obtain ⟨rfl, rfl⟩ := List.cons.inj (hp.symm.trans hp')
    have he := AddressPool.effect_of_run hg
    refine ⟨hc.effect he, ?_⟩
    intro b hb
    rcases List.mem_append.mp hb with hb | hb
    · exact (hsent b hb).effect hc he
    · obtain rfl := List.mem_singleton.mp hb
      refine ⟨fun _ => ⟨mac, rfl, he.recorded hc⟩, fun ht => ?_⟩
      exact absurd (Option.some.inj ht) (by decide)
  | @acknowledged mac data dst hr hmac =>
    have hkeep := hk hr pool (by simp [hp])
    simp only [Accounted, hp]
    refine ⟨hc, ?_⟩
    intro b hb
    rcases List.mem_append.mp hb with hb | hb
    · exact hsent b hb
    · obtain rfl := List.mem_singleton.mp hb
      refine ⟨fun ht => absurd (Option.some.inj ht) (by decide), fun _ => ⟨mac, rfl, ?_⟩⟩
      rcases hkeep with ht | ⟨ht, hin⟩
      · exact Or.inl (ht.trans hmac)
      · refine Or.inr ⟨hc, by simpa using hin, ?_⟩
        rw [AddressPool.isIpAddressTaken_iff] at ht
        exact Std.ExtTreeMap.getElem?_eq_none ht

theorem Accounted.step (h : Accounted state) (hs : ServerStep state op state')
    (hk : HeldByClient state op) : Accounted state' := by
  cases op with
  | pass front =>
    rcases hs.pass_cases with rfl | ⟨packet, message, rfl, hfree, hm, hh⟩
    · exact h
    · refine h.handled hh (fun ha => ?_) hfree
      exact hk message (mem_answered.mpr ⟨packet, rfl, hfree, hm, ha⟩)
  | addAddressPool pool error =>
    obtain ⟨hpool, rfl | rfl⟩ := hs.add_cases
    · exact h
    · cases hp : state.addressPools with
      | nil =>
        simp only [Accounted, hp] at h
        simpa [Accounted, hp, h] using hpool.consistent
      | cons first rest => simpa [Accounted, hp] using h

theorem Accounted.run {ops : List ServerOp} (h : Accounted state)
    (hr : Run (Guarded ServerStep HeldByClient) state ops state') : Accounted state' :=
  hr.invariant (fun _ _ _ ha hs => ha.step hs.1 hs.2) h

/-- An acknowledgement to another client is not accounted for. -/
theorem Accounted.broken (hs : ServerStep state op state') (hk : ¬ HeldByClient state op) :
    ¬ Accounted state' := by
  simp only [HeldByClient, not_forall] at hk
  obtain ⟨message, hanswer, pool, hpool, hheld⟩ := hk
  obtain ⟨packet, rfl, hfree, hm, ha⟩ := mem_answered.mp hanswer
  obtain ⟨message', hm', hh⟩ := hs.handled hfree
  obtain rfl := Except.ok.inj (hm.symm.trans hm')
  cases hh with
  | ignored _ hr => exact absurd ha hr
  | offered _ _ ha' => exact absurd (ha.unique ha') (by decide)
  | @acknowledged mac data dst _ hmac =>
    obtain ⟨pools, hp⟩ := List.head?_eq_some_iff.mp hpool
    intro haccounted
    simp only [Accounted, hp] at haccounted
    obtain ⟨mac', hmac', htaken | hgone⟩ :=
      (haccounted.2 _ (List.mem_append_right _ (List.mem_singleton_self _))).acknowledge rfl
    · obtain rfl := Option.some.inj hmac'
      exact hheld (Or.inl (htaken.trans hmac.symm))
    · have hnone : pool.takenIpAddresses[state.recorded message.xid]? = none := hgone.not_taken
      refine hheld (Or.inr ⟨?_, by simpa using hgone.not_included⟩)
      rw [AddressPool.isIpAddressTaken_iff, Std.ExtTreeMap.mem_iff_isSome_getElem?, hnone]
      exact Bool.false_ne_true

/-- All that is sent is accounted for, in every state of a run, exactly when each request that is
answered comes from the client that the address on record is held for. -/
theorem accounted_iff_held {state₀ : ServerState} {ops : List ServerOp} (hstart : Started state₀)
    (hr : Run ServerStep state₀ ops state) :
    (∀ before after s, ops = before ++ after → Run ServerStep state₀ before s → Accounted s) ↔
      Run (Guarded ServerStep HeldByClient) state₀ ops state := by
  refine Run.always_iff_guarded ?_ ?_ deterministic_serverStep hr
  · exact fun before s hs => hstart.accounted.run hs
  · exact fun before s op s' _ hstep hk => Accounted.broken hstep hk

/-- In a run whose requests come from the clients that hold the addresses on record, no address is
offered to one client and acknowledged to another. -/
theorem noCrossAcknowledge_of_held {state₀ : ServerState} {ops : List ServerOp}
    (hstart : Started state₀) (hr : Run (Guarded ServerStep HeldByClient) state₀ ops state) :
    NoCrossAcknowledge state.sent :=
  (hstart.accounted.run hr).noCrossAcknowledge

end

/-- A second client requests in the transaction of the first. -/
theorem not_noCrossAcknowledge_sample :
    letI : Host := ⟨.little⟩
    ∃ state, Started sampleServer ∧ Run ServerStep sampleServer
      (sampleOps [samplePacket .dhcpdiscover 7 1, samplePacket .dhcprequest 7 2]) state ∧
      ¬ NoCrossAcknowledge state.sent := by
  let host : Host := ⟨.little⟩
  obtain ⟨state, hr, hcross⟩ := run_sampleOps (fun _ _ => true)
    [samplePacket .dhcpdiscover 7 1, samplePacket .dhcprequest 7 2]
    (fun state => decide (NoCrossAcknowledge state.sent)) false (by decide +kernel)
  exact ⟨state, started_sampleServer, hr.of_guarded, of_decide_eq_false hcross⟩

/-- A client requests the address that it was offered. -/
theorem noCrossAcknowledge_sample :
    letI : Host := ⟨.little⟩
    ∃ state, Run (Guarded ServerStep HeldByClient) sampleServer
      (sampleOps [samplePacket .dhcpdiscover 7 1, samplePacket .dhcprequest 7 1]) state ∧
      state.sent.length = 2 ∧ NoCrossAcknowledge state.sent := by
  let host : Host := ⟨.little⟩
  obtain ⟨state, hr, hsent⟩ := run_sampleOps (fun state op => decide (HeldByClient state op))
    [samplePacket .dhcpdiscover 7 1, samplePacket .dhcprequest 7 1]
    (fun state => state.sent.length) 2 (by decide +kernel)
  have hheld : Run (Guarded ServerStep HeldByClient) sampleServer _ state :=
    hr.mono fun _ _ _ hs => ⟨hs.1, of_decide_eq_true hs.2⟩
  exact ⟨state, hheld, hsent, noCrossAcknowledge_of_held started_sampleServer hheld⟩

end ServerState

end Klevret
