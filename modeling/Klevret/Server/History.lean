import Klevret.Foundation.Histories
import Klevret.Pool.Stability
import Klevret.Server.Offers

/-! # What the messages tell of the run

An acknowledgement carries the address of the last offer under its transaction
id, or 0.0.0.0 if there is none. Two offers carry the same address just in case
they go to the same client.
-/

namespace Klevret

open Foundation
open Std (ExtTreeMap)

def Broadcast.offers (b : Broadcast) (xid : UInt32) : Bool :=
  decide (b.message.messageType = some .dhcpoffer ∧ b.message.xid = xid)

/-- Offers go to the same client just in case they carry the same address. -/
def OffersApart (sent : List Broadcast) : Prop :=
  ∀ a ∈ sent, ∀ b ∈ sent, a.message.messageType = some .dhcpoffer →
    b.message.messageType = some .dhcpoffer →
    (a.message.chaddr = b.message.chaddr ↔ a.message.yiaddr = b.message.yiaddr)

section

variable [Host]

/-- The address of the last offer under the transaction id. -/
def lastOffered (sent : List Broadcast) (xid : UInt32) : IPv4Address :=
  lastOr (·.offers xid) (·.message.yiaddr) (.ofUInt32 0) sent

/-- An acknowledgement repeats the last offer under its transaction id. -/
def RepeatsOffer (before : List Broadcast) (b : Broadcast) : Prop :=
  b.message.messageType = some .dhcpack →
    b.message.yiaddr = lastOffered before b.message.xid

theorem AddressPool.poolStep_of_run {pool pool' : AddressPool} {mac : MacAddress}
    {ip : IPv4Address} (h : (getAddress mac).run pool = .ok ip pool') :
    PoolStep pool (.getAddress mac, .ok (some ip)) pool' := by
  refine observe_eq_ok.mpr ?_
  simp only [call, EStateM.run_bind, h]
  rfl

namespace ServerState

variable {state state' : ServerState} {message : DhcpMessage} {op : ServerOp}

section Acknowledgements

/-- The table holds the last offers, and they were repeated. -/
structure Remembers (state : ServerState) : Prop where
  recorded : ∀ xid, state.recorded xid = lastOffered state.sent xid
  repeats : EachAfter RepeatsOffer state.sent

theorem Started.remembers (h : Started state) : Remembers state where
  recorded xid := by
    rw [ServerState.recorded, h.xids, h.sent, ExtTreeMap.getElem?_empty]
    rfl
  repeats := by simp [h.sent]

theorem recorded_lookedUp (state : ServerState) (xid y : UInt32) (sent : List Broadcast) :
    ({ state with xids := state.lookedUp xid, sent } : ServerState).recorded y =
      state.recorded y := by
  unfold ServerState.recorded lookedUp
  cases h : state.xids[xid]? with
  | some ip => rfl
  | none =>
    by_cases hy : xid = y
    · subst hy
      simp [h]
    · simp [hy]

theorem Remembers.handled (h : Remembers state) (hh : Handled state message state') :
    Remembers state' := by
  cases hh with
  | ignored => exact h
  | @offered mac pool pool' pools ip data dst =>
    constructor
    · intro xid
      have ho := h.recorded xid
      unfold ServerState.recorded lastOffered at ho ⊢
      rw [lastOr_concat, ← ho, lookup_insert]
      by_cases hx : message.xid = xid <;> simp [Broadcast.offers, hx]
    · refine eachAfter_concat.mpr ⟨h.repeats, fun ht => ?_⟩
      exact absurd (Option.some.inj ht) (by decide)
  | @acknowledged mac data dst =>
    constructor
    · intro xid
      rw [recorded_lookedUp, h.recorded, lastOffered, lastOffered, lastOr_concat, if_neg]
      have hne : Option53MessageType.dhcpack ≠ .dhcpoffer := by decide
      simp [Broadcast.offers, hne]
    · exact eachAfter_concat.mpr ⟨h.repeats, fun _ => h.recorded message.xid⟩

theorem Remembers.step (h : Remembers state) (hs : ServerStep state op state') :
    Remembers state' := by
  cases op with
  | pass front =>
    rcases hs.pass_cases with rfl | ⟨packet, message, -, -, -, hh⟩
    · exact h
    · exact h.handled hh
  | addAddressPool pool error =>
    obtain ⟨-, rfl | rfl⟩ := hs.add_cases
    · exact h
    · exact ⟨h.recorded, h.repeats⟩

/-- In every run, an acknowledgement carries the address of the last offer that was sent before it
under its transaction id, and 0.0.0.0 if none was. -/
theorem repeats_lastOffered {state₀ : ServerState} {ops : List ServerOp} (hstart : Started state₀)
    (hr : Run ServerStep state₀ ops state) : EachAfter RepeatsOffer state.sent :=
  (hr.invariant (fun _ _ _ h hs => h.step hs) hstart.remembers).repeats

end Acknowledgements

section Offers

/-- The first pool holds the address of every offer for its client. -/
def OffersHeld (state : ServerState) : Prop :=
  match state.addressPools with
  | [] => state.sent = []
  | pool :: _ => pool.Consistent ∧ ∀ b ∈ state.sent, b.message.messageType = some .dhcpoffer →
      ∃ mac, b.message.chaddr = some mac ∧ pool.Holds mac b.message.yiaddr

theorem Started.offersHeld (h : Started state) : OffersHeld state := by
  simp [OffersHeld, h.addressPools, h.sent]

theorem OffersHeld.handled (h : OffersHeld state) (hh : Handled state message state')
    (hfree : state.haveFreeAddress = true) : OffersHeld state' := by
  obtain ⟨pool, pools, hp⟩ := haveFreeAddress_iff.mp hfree
  unfold OffersHeld at h
  rw [hp] at h
  obtain ⟨hc, hheld⟩ := h
  cases hh with
  | ignored =>
    unfold OffersHeld
    rw [hp]
    exact ⟨hc, hheld⟩
  | @offered mac first pool' rest ip data dst hd hmac hp' hg =>
    obtain ⟨rfl, rfl⟩ := List.cons.inj (hp.symm.trans hp')
    have hs := AddressPool.poolStep_of_run hg
    refine ⟨hc.step hs, fun b hb ht => ?_⟩
    rcases List.mem_append.mp hb with hb | hb
    · obtain ⟨m, hm, hholds⟩ := hheld b hb ht
      exact ⟨m, hm, hs.holds hholds (by simp)⟩
    · obtain rfl := List.mem_singleton.mp hb
      exact ⟨mac, rfl, hs.effect.holds⟩
  | @acknowledged mac data dst =>
    simp only [OffersHeld, hp]
    refine ⟨hc, fun b hb ht => ?_⟩
    rcases List.mem_append.mp hb with hb | hb
    · exact hheld b hb ht
    · obtain rfl := List.mem_singleton.mp hb
      exact absurd (Option.some.inj ht) (by decide)

theorem OffersHeld.step (h : OffersHeld state) (hs : ServerStep state op state') :
    OffersHeld state' := by
  cases op with
  | pass front =>
    rcases hs.pass_cases with rfl | ⟨packet, message, -, hfree, -, hh⟩
    · exact h
    · exact h.handled hh hfree
  | addAddressPool pool error =>
    obtain ⟨hpool, rfl | rfl⟩ := hs.add_cases
    · exact h
    · unfold OffersHeld at h ⊢
      cases hp : state.addressPools with
      | nil =>
        rw [hp] at h
        simp [h, hpool.consistent]
      | cons first pools =>
        rw [hp] at h
        exact h

theorem OffersHeld.apart (h : OffersHeld state) : OffersApart state.sent := by
  intro a ha b hb hta htb
  unfold OffersHeld at h
  cases hp : state.addressPools with
  | nil =>
    rw [hp] at h
    simp [h] at ha
  | cons pool pools =>
    rw [hp] at h
    obtain ⟨mac, hmac, hheld⟩ := h.2 a ha hta
    obtain ⟨mac', hmac', hheld'⟩ := h.2 b hb htb
    rw [hmac, hmac']
    constructor
    · intro he
      obtain rfl := Option.some.inj he
      exact Option.some.inj (hheld.lease.symm.trans hheld'.lease)
    · intro he
      exact congrArg some (h.1.taken.injective hheld.lease (he ▸ hheld'.lease))

/-- In every run, with any clients, transactions and pools, two offers carry the same address just
in case they are for the same client. -/
theorem offersApart {state₀ : ServerState} {ops : List ServerOp} (hstart : Started state₀)
    (hr : Run ServerStep state₀ ops state) : OffersApart state.sent :=
  (hr.invariant (fun _ _ _ h hs => h.step hs) hstart.offersHeld).apart

end Offers

end ServerState

end

namespace ServerState

theorem run_sampleHistory :
    letI : Host := ⟨.little⟩
    ∃ state, Run ServerStep sampleServer (sampleOps [samplePacket .dhcpdiscover 7 1,
      samplePacket .dhcpdiscover 8 2, samplePacket .dhcpdiscover 9 1,
      samplePacket .dhcprequest 7 2, samplePacket .dhcprequest 5 2]) state ∧
        state.sent.length = 5 := by
  let host : Host := ⟨.little⟩
  obtain ⟨state, hr, hlen⟩ := run_sampleOps (fun _ _ => true) [samplePacket .dhcpdiscover 7 1,
    samplePacket .dhcpdiscover 8 2, samplePacket .dhcpdiscover 9 1, samplePacket .dhcprequest 7 2,
    samplePacket .dhcprequest 5 2] (fun state => state.sent.length) 5 (by decide +kernel)
  exact ⟨state, hr.of_guarded, hlen⟩

theorem repeats_lastOffered_sample :
    letI : Host := ⟨.little⟩
    ∃ state : ServerState, state.sent.length = 5 ∧ EachAfter RepeatsOffer state.sent := by
  let host : Host := ⟨.little⟩
  obtain ⟨state, hr, hlen⟩ := run_sampleHistory
  exact ⟨state, hlen, repeats_lastOffered started_sampleServer hr⟩

theorem offersApart_sample :
    letI : Host := ⟨.little⟩
    ∃ state : ServerState, state.sent.length = 5 ∧ OffersApart state.sent := by
  let host : Host := ⟨.little⟩
  obtain ⟨state, hr, hlen⟩ := run_sampleHistory
  exact ⟨state, hlen, offersApart started_sampleServer hr⟩

end ServerState

end Klevret
