import Klevret.Messages.Accepted
import Klevret.Pool.Effects
import Klevret.Server.Replies

/-! # The passes of the main loop

A pass ends with an exception, or it is one of three cases: the datagram is
ignored, answered with an offer, or answered with an acknowledgement.
-/

namespace Klevret

open Foundation
open Std (ExtTreeMap)

/-- The message is a client's request of this type. -/
def DhcpMessage.Asks (message : DhcpMessage) (messageType : Option53MessageType) : Prop :=
  message.op = .bootrequest ∧ message.messageType = some messageType

instance (message : DhcpMessage) (t : Option53MessageType) : Decidable (message.Asks t) :=
  inferInstanceAs (Decidable (_ ∧ _))

theorem DhcpMessage.Asks.unique {message : DhcpMessage} {t t' : Option53MessageType}
    (h : message.Asks t) (h' : message.Asks t') : t = t' :=
  Option.some.inj (h.2.symm.trans h'.2)

namespace ServerState

variable [Host]

/-- The address on record for a transaction, which is 0.0.0.0 when there is none. -/
def recorded (state : ServerState) (xid : UInt32) : IPv4Address := (state.xids[xid]?).getD default

/-- The table of transactions once this one was looked up. -/
def lookedUp (state : ServerState) (xid : UInt32) : ExtTreeMap UInt32 IPv4Address :=
  match state.xids[xid]? with
  | some _ => state.xids
  | none => state.xids.insert xid default

/-- What handling a message does to the state. -/
inductive Handled (state : ServerState) (message : DhcpMessage) : ServerState → Prop
  | ignored : ¬ message.Asks .dhcpdiscover → ¬ message.Asks .dhcprequest →
      Handled state message state
  | offered {mac : MacAddress} {pool pool' : AddressPool} {pools : List AddressPool}
      {ip : IPv4Address} (data : List UInt8) (dst : IPv4Address) :
      message.Asks .dhcpdiscover → message.chaddr = some mac →
      state.addressPools = pool :: pools → (AddressPool.getAddress mac).run pool = .ok ip pool' →
      Handled state message
        { state with
          addressPools := pool' :: pools
          xids := state.xids.insert message.xid ip
          sent := state.sent ++ [⟨replyOf .dhcpoffer message mac ip, data, dst⟩] }
  | acknowledged {mac : MacAddress} (data : List UInt8) (dst : IPv4Address) :
      message.Asks .dhcprequest → message.chaddr = some mac →
      Handled state message
        { state with
          xids := state.lookedUp message.xid
          sent := state.sent ++
            [⟨replyOf .dhcpack message mac (state.recorded message.xid), data, dst⟩] }

variable {state state' : ServerState} {packet : UdpPacketWithInfo} {message : DhcpMessage}
  {interface : NetworkInterface} {mac : MacAddress} {pool pool' : AddressPool}
  {pools : List AddressPool} {ip : IPv4Address}

/-- The server has an interface with the index of the datagram. -/
def Receives (state : ServerState) (packet : UdpPacketWithInfo) (interface : NetworkInterface) :
    Prop :=
  state.networkInterfaces.find? (fun iface =>
    iface.linuxInterfaceIndex = packet.interfaceIndex) = some interface

theorem run_xidAt (state : ServerState) (xid : UInt32) :
    (xidAt xid).run state = .ok (state.recorded xid) { state with xids := state.lookedUp xid } := by
  unfold recorded lookedUp
  cases h : state.xids[xid]? with
  | some ip => exact run_subscript_some h
  | none => exact run_subscript_none h

theorem run_broadcastSendTo {messageType : Option53MessageType}
    (ht : messageType ∈ [Option53MessageType.dhcpoffer, .dhcpack]) (message : DhcpMessage)
    (mac : MacAddress) (ip : IPv4Address) (state : ServerState) (interface : NetworkInterface) :
    ∃ data dst, (broadcastSendTo (replyOf messageType message mac ip) interface).run state =
      .ok () { state with
        sent := state.sent ++ [⟨replyOf messageType message mac ip, data, dst⟩] } := by
  obtain ⟨data, hdata⟩ := toNetworkData_replyOf ip message mac ht
  obtain ⟨dst, hdst⟩ : ∃ dst, interface.broadcastAddress = .inl dst := by
    cases interface.broadcastAddress with
    | inl dst => exact ⟨dst, rfl⟩
    | inr none => exact nomatch none
  exact ⟨data, dst, by simp [broadcastSendTo, hdata, hdst, L3Address.getIPv4Address]⟩

theorem run_unknown (h : ∀ interface, ¬ Receives state packet interface) :
    (handleDatagram packet).run state = .error .undefined state := by
  have hnone := Option.eq_none_iff_forall_ne_some.mpr h
  simp [handleDatagram, hnone, Exec.pointee]

theorem run_rejected {e : Stop} (hi : Receives state packet interface)
    (hm : DhcpMessage.new packet.data = .error e) :
    (handleDatagram packet).run state = .error e state := by
  unfold Receives at hi
  simp [handleDatagram, hi, hm, Exec.pointee]

theorem messageTypeOf_eq (hm : DhcpMessage.new packet.data = .ok message) {option53 : DhcpOption}
    (ho : findOption53 message = some option53) :
    ∃ t, messageTypeOf option53 = .ok t ∧ message.messageType = some t := by
  have hmem := List.mem_of_find?_eq_some ho
  have hcode := List.find?_some ho
  obtain ⟨t, ht⟩ := DhcpMessage.messageType_of_new hm option53 hmem (by simpa using hcode)
  have hok : messageTypeOf option53 = .ok t := by simp [messageTypeOf, ht]
  exact ⟨t, hok, by simp [DhcpMessage.messageType, ho, hok, Except.toOption]⟩

theorem findOption53_of_asks (hm : DhcpMessage.new packet.data = .ok message)
    {t : Option53MessageType} (ha : message.Asks t) :
    ∃ option53, findOption53 message = some option53 ∧ messageTypeOf option53 = .ok t := by
  obtain ⟨option53, ho, -⟩ := Option.bind_eq_some_iff.mp ha.2
  obtain ⟨t', hok, ht'⟩ := messageTypeOf_eq hm ho
  obtain rfl := Option.some.inj (ha.2.symm.trans ht')
  exact ⟨option53, ho, hok⟩

theorem run_ignored (hi : Receives state packet interface)
    (hm : DhcpMessage.new packet.data = .ok message) (hd : ¬ message.Asks .dhcpdiscover)
    (hr : ¬ message.Asks .dhcprequest) : (handleDatagram packet).run state = .ok () state := by
  unfold Receives at hi
  by_cases hop : message.op = .bootrequest
  · cases ho : findOption53 message with
    | none => simp [handleDatagram, hi, hm, Exec.pointee, hop, ho]
    | some option53 =>
      obtain ⟨t, hok, ht⟩ := messageTypeOf_eq hm ho
      have hdt : t ≠ .dhcpdiscover := by
        rintro rfl
        exact hd ⟨hop, ht⟩
      have hrt : t ≠ .dhcprequest := by
        rintro rfl
        exact hr ⟨hop, ht⟩
      simp [handleDatagram, hi, hm, Exec.pointee, hop, ho, hok, hdt, hrt]
  · simp [handleDatagram, hi, hm, Exec.pointee, hop]

theorem run_takeAddress (hp : state.addressPools = pool :: pools) (mac : MacAddress) :
    (takeAddress mac).run state =
      match (AddressPool.getAddress mac).run pool with
      | .ok ip pool' => .ok ip { state with addressPools := pool' :: pools }
      | .error e pool' => .error e { state with addressPools := pool' :: pools } := by
  cases hg : (AddressPool.getAddress mac).run pool <;> simp [takeAddress, hp, run_focus, hg]

theorem run_discover (hi : Receives state packet interface)
    (hm : DhcpMessage.new packet.data = .ok message) (ha : message.Asks .dhcpdiscover)
    (hmac : message.chaddr = some mac) (hp : state.addressPools = pool :: pools)
    (hg : (AddressPool.getAddress mac).run pool = .ok ip pool') :
    ∃ data dst, (handleDatagram packet).run state =
      .ok () { state with
        addressPools := pool' :: pools
        xids := state.xids.insert message.xid ip
        sent := state.sent ++ [⟨replyOf .dhcpoffer message mac ip, data, dst⟩] } := by
  obtain ⟨option53, ho, hok⟩ := findOption53_of_asks hm ha
  have ht : Option53MessageType.dhcpoffer ∈ [Option53MessageType.dhcpoffer, .dhcpack] := by simp
  obtain ⟨data, dst, hsend⟩ := run_broadcastSendTo ht message mac ip
    { state with addressPools := pool' :: pools, xids := state.xids.insert message.xid ip }
    interface
  have hx : (xidAt message.xid).run
      { state with addressPools := pool' :: pools, xids := state.xids.insert message.xid ip } =
      .ok ip { state with
        addressPools := pool' :: pools, xids := state.xids.insert message.xid ip } :=
    run_subscript_some (by simp)
  unfold Receives at hi
  refine ⟨data, dst, ?_⟩
  simp [handleDatagram, hi, hm, Exec.pointee, ha.1, ho, hok, hmac, run_takeAddress hp, hg, hx,
    makeOffer_eq ip hmac, hsend]

theorem run_discover_refused {e : Stop} (hi : Receives state packet interface)
    (hm : DhcpMessage.new packet.data = .ok message) (ha : message.Asks .dhcpdiscover)
    (hmac : message.chaddr = some mac) (hp : state.addressPools = pool :: pools)
    (hg : (AddressPool.getAddress mac).run pool = .error e pool') :
    (handleDatagram packet).run state = .error e { state with addressPools := pool' :: pools } := by
  obtain ⟨option53, ho, hok⟩ := findOption53_of_asks hm ha
  unfold Receives at hi
  simp [handleDatagram, hi, hm, Exec.pointee, ha.1, ho, hok, hmac, run_takeAddress hp, hg]

theorem run_request (hi : Receives state packet interface)
    (hm : DhcpMessage.new packet.data = .ok message) (ha : message.Asks .dhcprequest)
    (hmac : message.chaddr = some mac) :
    ∃ data dst, (handleDatagram packet).run state =
      .ok () { state with
        xids := state.lookedUp message.xid
        sent := state.sent ++
          [⟨replyOf .dhcpack message mac (state.recorded message.xid), data, dst⟩] } := by
  obtain ⟨option53, ho, hok⟩ := findOption53_of_asks hm ha
  have ht : Option53MessageType.dhcpack ∈ [Option53MessageType.dhcpoffer, .dhcpack] := by simp
  obtain ⟨data, dst, hsend⟩ := run_broadcastSendTo ht message mac (state.recorded message.xid)
    { state with xids := state.lookedUp message.xid } interface
  have hne : Option53MessageType.dhcprequest ≠ .dhcpdiscover := by decide
  unfold Receives at hi
  refine ⟨data, dst, ?_⟩
  simp [handleDatagram, hi, hm, Exec.pointee, ha.1, ho, hok, hne, run_xidAt,
    makeAcknowledge_eq _ hmac, hsend]

end ServerState

end Klevret
