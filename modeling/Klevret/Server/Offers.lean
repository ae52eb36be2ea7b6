import Klevret.Server.Steps

/-! # Offers before acknowledgements

The table of transactions holds the address of the last offer. It is read with
the subscript operator, so a request with an unknown transaction id is
acknowledged with the address 0.0.0.0, which nobody was offered.
-/

namespace Klevret

open Foundation
open Std (ExtTreeMap)

/-- One of these messages offers the address under the transaction id. -/
def Offered (sent : List Broadcast) (xid : UInt32) (ip : IPv4Address) : Prop :=
  ∃ offer ∈ sent, offer.message.messageType = some .dhcpoffer ∧ offer.message.xid = xid ∧
    offer.message.yiaddr = ip

/-- Every acknowledgement comes after an offer of its address under its transaction id. -/
def OnlyOffered (sent : List Broadcast) : Prop :=
  ∀ (i : ℕ) (acknowledge : Broadcast), sent[i]? = some acknowledge →
    acknowledge.message.messageType = some .dhcpack →
    Offered (sent.take i) acknowledge.message.xid acknowledge.message.yiaddr

section

variable {sent : List Broadcast} {b : Broadcast} {xid : UInt32} {ip : IPv4Address}

theorem onlyOffered_nil : OnlyOffered [] := by
  intro i acknowledge h
  simp at h

theorem offered_append : Offered (sent ++ [b]) xid ip ↔ Offered sent xid ip ∨
    b.message.messageType = some .dhcpoffer ∧ b.message.xid = xid ∧ b.message.yiaddr = ip := by
  constructor
  · rintro ⟨offer, hmem, h⟩
    rcases List.mem_append.mp hmem with hmem | hmem
    · exact Or.inl ⟨offer, hmem, h⟩
    · obtain rfl := List.mem_singleton.mp hmem
      exact Or.inr h
  · rintro (⟨offer, hmem, h⟩ | h)
    · exact ⟨offer, List.mem_append_left _ hmem, h⟩
    · exact ⟨b, List.mem_append_right _ (List.mem_singleton_self b), h⟩

theorem onlyOffered_append : OnlyOffered (sent ++ [b]) ↔ OnlyOffered sent ∧
    (b.message.messageType = some .dhcpack → Offered sent b.message.xid b.message.yiaddr) := by
  constructor
  · intro h
    constructor
    · intro i acknowledge hi ht
      have hlt : i < sent.length := (List.getElem?_eq_some_iff.mp hi).1
      have ho := h i acknowledge (by rwa [List.getElem?_append_left hlt]) ht
      rwa [List.take_append_of_le_length hlt.le] at ho
    · intro ht
      have ho := h sent.length b (by simp) ht
      rwa [List.take_left] at ho
  · rintro ⟨h, hb⟩ i acknowledge hi ht
    rcases Nat.lt_or_ge i sent.length with hlt | hge
    · rw [List.getElem?_append_left hlt] at hi
      rw [List.take_append_of_le_length hlt.le]
      exact h i acknowledge hi ht
    · rw [List.getElem?_append_right hge, List.getElem?_singleton] at hi
      split_ifs at hi with hz
      obtain rfl := Option.some.inj hi
      obtain rfl : i = sent.length := by omega
      rw [List.take_left]
      exact hb ht

end

section

variable [Host] {sent : List Broadcast} {message : DhcpMessage} {mac : MacAddress}
  {ip a dst : IPv4Address} {data : List UInt8} {xid : UInt32}

theorem offered_append_offer :
    Offered (sent ++ [⟨replyOf .dhcpoffer message mac ip, data, dst⟩]) xid a ↔
      Offered sent xid a ∨ message.xid = xid ∧ ip = a := by
  simp [offered_append]

theorem offered_append_acknowledge :
    Offered (sent ++ [⟨replyOf .dhcpack message mac ip, data, dst⟩]) xid a ↔
      Offered sent xid a := by
  have hne : Option53MessageType.dhcpack ≠ .dhcpoffer := by decide
  simp [offered_append, hne]

theorem onlyOffered_append_offer :
    OnlyOffered (sent ++ [⟨replyOf .dhcpoffer message mac ip, data, dst⟩]) ↔
      OnlyOffered sent := by
  have hne : Option53MessageType.dhcpoffer ≠ .dhcpack := by decide
  simp [onlyOffered_append, hne]

theorem onlyOffered_append_acknowledge :
    OnlyOffered (sent ++ [⟨replyOf .dhcpack message mac ip, data, dst⟩]) ↔
      OnlyOffered sent ∧ Offered sent message.xid ip := by
  simp [onlyOffered_append]

end

namespace ServerState

section

variable [Host]

/-- A request that is answered has its transaction id on record. -/
def KnownXid (state : ServerState) (op : ServerOp) : Prop :=
  ∀ message ∈ state.answered op, message.xid ∈ state.xids

/-- The transactions on record are those that were offered an address. -/
structure Records (state : ServerState) : Prop where
  offered : ∀ {xid : UInt32} {ip : IPv4Address}, state.xids[xid]? = some ip →
    Offered state.sent xid ip
  known : ∀ {xid : UInt32} {ip : IPv4Address}, Offered state.sent xid ip → xid ∈ state.xids
  onlyOffered : OnlyOffered state.sent

variable {state state' : ServerState} {message : DhcpMessage} {op : ServerOp}

theorem Started.records (h : Started state) : Records state where
  offered hx := by simp [h.xids] at hx
  known ho := by simp [h.sent, Offered] at ho
  onlyOffered := h.sent ▸ onlyOffered_nil

theorem recorded_of_mem {xid : UInt32} (h : xid ∈ state.xids) :
    state.xids[xid]? = some (state.recorded xid) ∧ state.lookedUp xid = state.xids := by
  obtain ⟨ip, hx⟩ := lookup_of_mem h
  simp [recorded, lookedUp, hx]

theorem Records.handled (h : Records state) (hh : Handled state message state')
    (hk : message.Asks .dhcprequest → message.xid ∈ state.xids) : Records state' := by
  cases hh with
  | ignored => exact h
  | offered data dst ha hmac hp hg =>
    constructor
    · intro xid a hx
      rw [lookup_insert] at hx
      rw [offered_append_offer]
      split_ifs at hx with he
      · exact Or.inr ⟨he, Option.some.inj hx⟩
      · exact Or.inl (h.offered hx)
    · intro xid a ho
      rw [ExtTreeMap.mem_insert, Std.LawfulEqCmp.compare_eq_iff_eq]
      rcases offered_append_offer.mp ho with ho | ⟨he, -⟩
      · exact Or.inr (h.known ho)
      · exact Or.inl he
    · exact onlyOffered_append_offer.mpr h.onlyOffered
  | acknowledged data dst ha hmac =>
    obtain ⟨hrec, hsame⟩ := recorded_of_mem (hk ha)
    constructor
    · intro xid a hx
      rw [hsame] at hx
      exact offered_append_acknowledge.mpr (h.offered hx)
    · intro xid a ho
      rw [hsame]
      exact h.known (offered_append_acknowledge.mp ho)
    · exact onlyOffered_append_acknowledge.mpr ⟨h.onlyOffered, h.offered hrec⟩

theorem Records.step (h : Records state) (hs : ServerStep state op state')
    (hk : KnownXid state op) : Records state' := by
  cases op with
  | pass front =>
    rcases hs.pass_cases with rfl | ⟨packet, message, rfl, hfree, hm, hh⟩
    · exact h
    · exact h.handled hh fun ha => hk message (mem_answered.mpr ⟨packet, rfl, hfree, hm, ha⟩)
  | addAddressPool pool error =>
    obtain ⟨-, rfl | rfl⟩ := hs.add_cases
    · exact h
    · exact { h with }

/-- A request with an unknown transaction id is acknowledged all the same. -/
theorem Records.broken (h : Records state) (hs : ServerStep state op state')
    (hk : ¬ KnownXid state op) : ¬ OnlyOffered state'.sent := by
  simp only [KnownXid, not_forall] at hk
  obtain ⟨message, hanswer, hnew⟩ := hk
  obtain ⟨packet, rfl, hfree, hm, ha⟩ := mem_answered.mp hanswer
  obtain ⟨message', hm', hh⟩ := hs.handled hfree
  obtain rfl := Except.ok.inj (hm.symm.trans hm')
  cases hh with
  | ignored _ hr => exact absurd ha hr
  | offered _ _ ha' => exact absurd (ha.unique ha') (by decide)
  | acknowledged data dst =>
    rw [onlyOffered_append_acknowledge]
    rintro ⟨-, ho⟩
    exact hnew (h.known ho)

theorem Records.run {ops : List ServerOp} (h : Records state)
    (hr : Run (Guarded ServerStep KnownXid) state ops state') : Records state' :=
  hr.invariant (fun _ _ _ hrec hs => hrec.step hs.1 hs.2) h

/-- Every acknowledgement was offered before, in every state of a run, exactly when every request
that is answered has its transaction id on record. -/
theorem onlyOffered_iff {state₀ : ServerState} {ops : List ServerOp} (hstart : Started state₀)
    (hr : Run ServerStep state₀ ops state) :
    (∀ before after s, ops = before ++ after → Run ServerStep state₀ before s →
      OnlyOffered s.sent) ↔ Run (Guarded ServerStep KnownXid) state₀ ops state := by
  refine Run.always_iff_guarded ?_ ?_ deterministic_serverStep hr
  · intro before s hs
    exact (hstart.records.run hs).onlyOffered
  · intro before s op s' hs hstep hk
    exact (hstart.records.run hs).broken hstep hk

end

/-- The first message of a run is a request. -/
theorem not_onlyOffered_sample :
    letI : Host := ⟨.little⟩
    ∃ state, Started sampleServer ∧
      Run ServerStep sampleServer (sampleOps [samplePacket .dhcprequest 7 1]) state ∧
      ¬ OnlyOffered state.sent := by
  let host : Host := ⟨.little⟩
  obtain ⟨state, hr, hsent⟩ := run_sampleOps (fun _ _ => true)
    [samplePacket .dhcprequest 7 1] (fun state => state.sent.map fun b => b.message.messageType)
    [some .dhcpack] (by decide +kernel)
  refine ⟨state, started_sampleServer, hr.of_guarded, ?_⟩
  intro h
  obtain ⟨b, hb, ht⟩ := List.map_eq_singleton_iff.mp hsent
  obtain ⟨offer, hmem, -⟩ := h 0 b (by simp [hb]) ht
  simp at hmem

/-- A discover message and a request in the same transaction. -/
theorem onlyOffered_sample :
    letI : Host := ⟨.little⟩
    let ops := sampleOps [samplePacket .dhcpdiscover 7 1, samplePacket .dhcprequest 7 1]
    ∃ state, (∀ before after s, ops = before ++ after → Run ServerStep sampleServer before s →
      OnlyOffered s.sent) ↔ Run (Guarded ServerStep KnownXid) sampleServer ops state := by
  let host : Host := ⟨.little⟩
  obtain ⟨state, hr, -⟩ := run_sampleOps (fun _ _ => true)
    [samplePacket .dhcpdiscover 7 1, samplePacket .dhcprequest 7 1]
    (fun state => state.sent.length) 2 (by decide +kernel)
  exact ⟨state, onlyOffered_iff started_sampleServer hr.of_guarded⟩

end ServerState

end Klevret
