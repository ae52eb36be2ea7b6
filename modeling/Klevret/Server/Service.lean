import Klevret.Foundation.Refinement
import Klevret.Foundation.Turns
import Klevret.Pool.Clients
import Klevret.Server.History

/-! # The service

With a new pool in the first place, the server is the service that offers the
addresses of the range in turn and acknowledges what was last offered in the
transaction. It stops where that service has nothing left.
-/

namespace Klevret

open Foundation
open Std (ExtTreeMap)

def Broadcast.reply? (b : Broadcast) : Option (Reply MacAddress UInt32 IPv4Address) :=
  b.message.chaddr.bind fun mac =>
    if b.message.messageType = some .dhcpoffer then
      some (.offer b.message.xid mac b.message.yiaddr)
    else if b.message.messageType = some .dhcpack then
      some (.acknowledge b.message.xid mac b.message.yiaddr)
    else none

section

variable [Host]

namespace AddressPool

variable {startIp endIp ip : IPv4Address} {clients : List MacAddress} {mac : MacAddress}
  {pool pool' : AddressPool} {outcome : Exec (Option IPv4Address)}

theorem getElem?_addressesFrom (n : ℕ) (ip : IPv4Address) (i : ℕ) :
    (addressesFrom n ip)[i]? =
      if i < n then some (.ofUInt32 (ip.toUInt32 + .ofNat i)) else none := by
  induction n generalizing ip i with
  | zero => simp [addressesFrom]
  | succ n ih =>
    cases i with
    | zero => simp [addressesFrom]
    | succ i =>
      have hsucc : UInt32.ofNat (i + 1) = 1 + UInt32.ofNat i := by
        rw [UInt32.ofNat_add, UInt32.add_comm]
        rfl
      rw [addressesFrom, List.getElem?_cons_succ, ih, IPv4Address.toUInt32_increment,
        UInt32.add_assoc, hsucc]
      simp only [Nat.add_lt_add_iff_right]

theorem getElem?_addressesUpTo (hle : startIp.toUInt32.toNat ≤ endIp.toUInt32.toNat) {i : ℕ} :
    (addressesUpTo startIp endIp)[i]? = some ip ↔
      i ≤ endIp.toUInt32.toNat - startIp.toUInt32.toNat ∧
        ip.toUInt32.toNat = startIp.toUInt32.toNat + i := by
  have hlength : (endIp.toUInt32 - startIp.toUInt32).toNat =
      endIp.toUInt32.toNat - startIp.toUInt32.toNat :=
    UInt32.toNat_sub_of_le _ _ (UInt32.le_iff_toNat_le.mpr hle)
  rw [addressesUpTo, getElem?_addressesFrom, hlength]
  have hend := endIp.toUInt32.toNat_lt
  split_ifs with hi
  · have hnum : (IPv4Address.ofUInt32 (startIp.toUInt32 + .ofNat i)).toUInt32.toNat =
        startIp.toUInt32.toNat + i := by
      rw [IPv4Address.toUInt32_ofUInt32, UInt32.toNat_add, UInt32.toNat_ofNat']
      omega
    rw [Option.some.injEq, ← hnum, UInt32.toNat_inj, IPv4Address.toUInt32_injective.eq_iff]
    constructor
    · rintro rfl
      exact ⟨by omega, rfl⟩
    · rintro ⟨-, rfl⟩
      rfl
  · apply iff_of_false (by simp)
    rintro ⟨hle', -⟩
    omega

theorem ServedAt.ok_iff {i : ℕ} (h : ServedAt startIp endIp i outcome)
    (hle : startIp.toUInt32.toNat ≤ endIp.toUInt32.toNat) :
    outcome = .ok (some ip) ↔ (addressesUpTo startIp endIp)[i]? = some ip := by
  rw [getElem?_addressesUpTo hle]
  rcases Nat.lt_or_ge (endIp.toUInt32.toNat - startIp.toUInt32.toNat) i with hlt | hge
  · obtain ⟨e, rfl⟩ := h.refused hlt
    apply iff_of_false (by simp)
    rintro ⟨hle', -⟩
    omega
  · obtain ⟨a, rfl, ha⟩ := h.served hge
    rw [Except.ok.injEq, Option.some.injEq, ← ha, UInt32.toNat_inj,
      IPv4Address.toUInt32_injective.eq_iff]
    exact ⟨fun he => ⟨hge, he.symm⟩, fun he => he.2.symm⟩

theorem InTurn.enrol (h : InTurn startIp endIp clients pool)
    (hle : startIp.toUInt32.toNat ≤ endIp.toUInt32.toNat)
    (hs : PoolStep pool (.getAddress mac, outcome) pool') :
    InTurn startIp endIp (Foundation.enrol clients mac) pool' ∧
      ServedAt startIp endIp ((Foundation.enrol clients mac).idxOf mac) outcome := by
  unfold Foundation.enrol
  split_ifs with hmem
  · obtain ⟨rfl, hserved⟩ := h.again hle (List.getElem?_idxOf hmem) hs
    exact ⟨h, hserved⟩
  · obtain ⟨hturn, hserved⟩ := h.first hle hmem hs
    refine ⟨hturn, ?_⟩
    rwa [List.idxOf_append_of_notMem hmem, List.idxOf_cons_self]

theorem exists_getAddress (hle : startIp.toUInt32.toNat ≤ endIp.toUInt32.toNat)
    (h : InTurn startIp endIp clients pool)
    (hitem : (addressesUpTo startIp endIp)[(Foundation.enrol clients mac).idxOf mac]? = some ip) :
    ∃ ip pool', (getAddress mac).run pool = .ok ip pool' := by
  have hs : PoolStep pool (.getAddress mac, (pool.perform (.getAddress mac)).1)
    (pool.perform (.getAddress mac)).2 := rfl
  have hok := ((h.enrol hle hs).2.ok_iff hle).mpr hitem
  cases hg : (getAddress mac).run pool with
  | ok ip pool' => exact ⟨ip, pool', rfl⟩
  | error e pool' => simp [perform, call, hg, observe] at hok

end AddressPool

/-- What a pass is asked, if it is asked anything. -/
def ServerOp.query : ServerOp → Option (Query MacAddress UInt32)
  | .pass (some packet) =>
    match DhcpMessage.new packet.data with
    | .ok message => message.chaddr.bind fun mac =>
      if message.Asks .dhcpdiscover then some (.discover message.xid mac)
      else if message.Asks .dhcprequest then some (.request message.xid mac)
      else none
    | .error _ => none
  | _ => none

namespace ServerState

variable {startIp endIp : IPv4Address} {state state' : ServerState} {op : ServerOp}
  {message : DhcpMessage} {mac : MacAddress} {packet : UdpPacketWithInfo}
  {query : Query MacAddress UInt32} {book : Book MacAddress UInt32 IPv4Address}
  {replies : List (Reply MacAddress UInt32 IPv4Address)}

/-- The first pool has served the clients of the book, the table is the one of the book, and the
messages are the replies. -/
structure Keeps (startIp endIp : IPv4Address) (state : ServerState)
    (s : Book MacAddress UInt32 IPv4Address × List (Reply MacAddress UInt32 IPv4Address)) :
    Prop where
  turns : ∃ pool ∈ state.addressPools.head?, AddressPool.InTurn startIp endIp s.1.clients pool
  recorded : ∀ xid, state.recorded xid = s.1.offered xid
  replies : state.sent.map Broadcast.reply? = s.2.map some

theorem query_of_new (hm : DhcpMessage.new packet.data = .ok message)
    (hmac : message.chaddr = some mac) :
    (ServerOp.pass (some packet)).query =
      if message.Asks .dhcpdiscover then some (.discover message.xid mac)
      else if message.Asks .dhcprequest then some (.request message.xid mac) else none := by
  simp [ServerOp.query, hm, hmac]

theorem recorded_insert (state : ServerState) (pools : List AddressPool) (xid y : UInt32)
    (ip : IPv4Address) (sent : List Broadcast) :
    ({ state with addressPools := pools, xids := state.xids.insert xid ip, sent } :
      ServerState).recorded y = Function.update state.recorded xid ip y := by
  by_cases hy : y = xid
  · subst hy
    simp [ServerState.recorded]
  · simp [ServerState.recorded, Function.update_of_ne hy, Ne.symm hy]

theorem Keeps.haveFreeAddress {s : Book MacAddress UInt32 IPv4Address × List _}
    (h : Keeps startIp endIp state s) : state.haveFreeAddress = true := by
  obtain ⟨pool, hpool, -⟩ := h.turns
  obtain ⟨pools, hp⟩ := List.head?_eq_some_iff.mp hpool
  exact haveFreeAddress_iff.mpr ⟨pool, pools, hp⟩

/-- What the server does for a query is what the service does. -/
theorem Keeps.handled (h : Keeps startIp endIp state (book, replies))
    (hle : startIp.toUInt32.toNat ≤ endIp.toUInt32.toNat)
    (hm : DhcpMessage.new packet.data = .ok message) (hh : Handled state message state')
    (hq : (ServerOp.pass (some packet)).query = some query) :
    ∃ t, Serves (AddressPool.addressesUpTo startIp endIp) (book, replies) query t ∧
      Keeps startIp endIp state' t := by
  have hreplies : state.sent.map Broadcast.reply? = replies.map some := h.replies
  cases hh with
  | ignored hd hr =>
    obtain ⟨mac, hmac⟩ := DhcpMessage.chaddr_of_new hm
    simp [query_of_new hm hmac, hd, hr] at hq
  | @offered mac pool pool' pools ip data dst hd hmac hp hg =>
    obtain rfl : Query.discover message.xid mac = query := by
      simpa [query_of_new hm hmac, hd] using hq
    obtain ⟨first, hfirst, hturn⟩ := h.turns
    obtain rfl : pool = first := by simpa [hp] using hfirst
    obtain ⟨hturn', hserved⟩ := hturn.enrol hle (AddressPool.poolStep_of_run hg)
    have hanswer : book.answer (AddressPool.addressesUpTo startIp endIp)
        (.discover message.xid mac) = some (.offer message.xid mac ip,
          ⟨enrol book.clients mac, Function.update book.offered message.xid ip⟩) := by
      simp [Book.answer, (hserved.ok_iff hle).mp rfl]
    refine ⟨_, ⟨_, _, hanswer, rfl⟩, ⟨pool', rfl, hturn'⟩, fun xid => ?_, ?_⟩
    · rw [recorded_insert, show state.recorded = book.offered from funext h.recorded]
    · simp [hreplies, Broadcast.reply?]
  | @acknowledged mac data dst hr hmac =>
    have hd : ¬ message.Asks .dhcpdiscover := fun hd => absurd (hd.unique hr) (by decide)
    obtain rfl : Query.request message.xid mac = query := by
      simpa [query_of_new hm hmac, hd, hr] using hq
    have hne : Option53MessageType.dhcpack ≠ .dhcpoffer := by decide
    have hrecorded : state.recorded message.xid = book.offered message.xid := h.recorded message.xid
    refine ⟨_, ⟨_, _, rfl, rfl⟩, h.turns, fun xid => ?_, ?_⟩
    · rw [recorded_lookedUp, h.recorded]
    · simp [hreplies, Broadcast.reply?, hne, hrecorded]

/-- A run of the server is a run of the service on the queries among its passes. -/
theorem simulates_serves (hle : startIp.toUInt32.toNat ≤ endIp.toUInt32.toNat) :
    Simulates ServerStep (Serves (AddressPool.addressesUpTo startIp endIp)) ServerOp.query
      (Keeps startIp endIp) where
  matched {state state' s op query} h hs hq := by
    cases op with
    | addAddressPool pool error => simp [ServerOp.query] at hq
    | pass front =>
      cases front with
      | none => simp [ServerOp.query] at hq
      | some packet =>
        obtain ⟨message, hm, hh⟩ := hs.handled h.haveFreeAddress
        exact Keeps.handled h hle hm hh hq
  silent {state state' s op} h hs hq := by
    cases op with
    | addAddressPool pool error =>
      obtain ⟨-, rfl | rfl⟩ := hs.add_cases
      · exact h
      · obtain ⟨first, hfirst, hturn⟩ := h.turns
        exact ⟨⟨first, by simp [List.head?_append, Option.mem_def.mp hfirst], hturn⟩, h.recorded,
          h.replies⟩
    | pass front =>
      rcases hs.pass_cases with rfl | ⟨packet, message, rfl, -, hm, hh⟩
      · exact h
      · cases hh with
        | ignored => exact h
        | offered data dst hd hmac => simp [query_of_new hm hmac, hd] at hq
        | acknowledged data dst hr hmac =>
          have hd : ¬ message.Asks .dhcpdiscover := fun hd => absurd (hd.unique hr) (by decide)
          simp [query_of_new hm hmac, hd, hr] at hq

/-- The server goes on with a query just in case the service has an answer. -/
theorem Keeps.goes_on_iff (h : Keeps startIp endIp state (book, replies))
    (hle : startIp.toUInt32.toNat ≤ endIp.toUInt32.toNat) {interface : NetworkInterface}
    (hi : Receives state packet interface)
    (hq : (ServerOp.pass (some packet)).query = some query) :
    (∃ state', ServerStep state (.pass (some packet)) state') ↔
      ∃ t, Serves (AddressPool.addressesUpTo startIp endIp) (book, replies) query t := by
  have hfree := h.haveFreeAddress
  constructor
  · rintro ⟨state', hs⟩
    obtain ⟨message, hm, hh⟩ := hs.handled hfree
    obtain ⟨t, ht, -⟩ := h.handled hle hm hh hq
    exact ⟨t, ht⟩
  · rintro ⟨t, reply, book', hanswer, -⟩
    suffices hok : ∃ state', (handleDatagram packet).run state = .ok () state' by
      obtain ⟨state', hrun⟩ := hok
      exact ⟨state', .pass (observe_eq_ok.mpr ((run_mainLoopPass hfree).trans hrun))⟩
    cases hm : DhcpMessage.new packet.data with
    | error e => simp [ServerOp.query, hm] at hq
    | ok message =>
      obtain ⟨mac, hmac⟩ := DhcpMessage.chaddr_of_new hm
      by_cases hd : message.Asks .dhcpdiscover
      · obtain rfl : Query.discover message.xid mac = query := by
          simpa [query_of_new hm hmac, hd] using hq
        obtain ⟨pool, hpool, hturn⟩ := h.turns
        obtain ⟨pools, hp⟩ := List.head?_eq_some_iff.mp hpool
        obtain ⟨ip, hitem, -⟩ := Option.map_eq_some_iff.mp hanswer
        obtain ⟨ip', pool', hg⟩ := AddressPool.exists_getAddress hle hturn hitem
        obtain ⟨data, dst, hrun⟩ := run_discover hi hm hd hmac hp hg
        exact ⟨_, hrun⟩
      · by_cases hr : message.Asks .dhcprequest
        · obtain ⟨data, dst, hrun⟩ := run_request hi hm hr hmac
          exact ⟨_, hrun⟩
        · exact ⟨state, run_ignored hi hm hd hr⟩

/-- In every run that begins with a new pool of the addresses from one to another, the messages
sent are the replies of the service that hands out these addresses in turn, and the program stops
at a query just in case the service has nothing left for it. -/
theorem serves_clients {state₀ : ServerState} {pool : AddressPool} {fuel : ℕ} {error : String}
    {ops : List ServerOp} (hnew : AddressPool.new fuel startIp endIp = some pool)
    (hle : startIp.toUInt32 ≤ endIp.toUInt32) (hstart : Started state₀)
    (hr : Run ServerStep state₀ (.addAddressPool pool error :: ops) state) :
    ∃ book replies, Run (Serves (AddressPool.addressesUpTo startIp endIp))
        (⟨[], fun _ => .ofUInt32 0⟩, []) (ops.filterMap ServerOp.query) (book, replies) ∧
      state.sent.map Broadcast.reply? = replies.map some ∧
      ∀ packet interface query, Receives state packet interface →
        (ServerOp.pass (some packet)).query = some query →
        ((∃ state', ServerStep state (.pass (some packet)) state') ↔
          ∃ t, Serves (AddressPool.addressesUpTo startIp endIp) (book, replies) query t) := by
  rw [UInt32.le_iff_toNat_le] at hle
  cases hr with
  | @cons _ state₁ _ _ _ hadd hrest =>
    have hfirst : Keeps startIp endIp state₁ (⟨[], fun _ => .ofUInt32 0⟩, []) := by
      obtain rfl : { state₀ with addressPools := [pool] } = state₁ := by
        simpa [perform, DhcpServer.addAddressPool, hstart.addressPools,
          DhcpServer.intersectsSome] using hadd.perform_eq
      refine ⟨⟨pool, rfl, AddressPool.inTurn_of_new hnew⟩, fun xid => ?_, ?_⟩
      · rw [ServerState.recorded, hstart.xids, ExtTreeMap.getElem?_empty]
        rfl
      · simp [hstart.sent]
    obtain ⟨⟨book, replies⟩, hrun, hkeeps⟩ := (simulates_serves hle).run hrest hfirst
    exact ⟨book, replies, hrun, hkeeps.replies, fun packet interface query hi hq =>
      hkeeps.goes_on_iff hle hi hq⟩

end ServerState

end

/-- Two clients at two addresses, and a third one that stops the program. -/
def sampleQueries : List UdpPacketWithInfo :=
  [samplePacket .dhcpdiscover 7 1, samplePacket .dhcpdiscover 8 2, samplePacket .dhcprequest 7 1]

theorem serves_clients_sample :
    letI : Host := ⟨.little⟩
    ∃ (state : ServerState) (book : Book MacAddress UInt32 IPv4Address)
      (replies : List (Reply MacAddress UInt32 IPv4Address)),
      state.sent.length = 3 ∧
      Run (Serves (AddressPool.addressesUpTo (AddressPool.sampleIp 1) (AddressPool.sampleIp 2)))
        (⟨[], fun _ => .ofUInt32 0⟩, [])
        ((sampleQueries.map fun packet => ServerOp.pass (some packet)).filterMap ServerOp.query)
        (book, replies) ∧
      state.sent.map Broadcast.reply? = replies.map some ∧
      ∀ packet interface query, ServerState.Receives state packet interface →
        (ServerOp.pass (some packet)).query = some query →
        ((∃ state', ServerState.ServerStep state (.pass (some packet)) state') ↔
          ∃ t, Serves (AddressPool.addressesUpTo (AddressPool.sampleIp 1) (AddressPool.sampleIp 2))
            (book, replies) query t) := by
  let host : Host := ⟨.little⟩
  obtain ⟨state, hr, hlen⟩ := ServerState.run_sampleOps (fun _ _ => true) sampleQueries
    (fun state => state.sent.length) 3 (by decide +kernel)
  have hnew : AddressPool.new 3 (AddressPool.sampleIp 1) (AddressPool.sampleIp 2) =
    some AddressPool.samplePool := (Option.some_get _).symm
  obtain ⟨book, replies, h⟩ := ServerState.serves_clients hnew (by decide)
    ServerState.started_sampleServer hr.of_guarded
  exact ⟨state, book, replies, hlen, h⟩

end Klevret
