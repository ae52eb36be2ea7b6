import Klevret.Foundation.Refinement
import Klevret.Network.DottedText
import Klevret.Server.Steps

/-! # The threads of the server

The thread of the UDP server puts datagrams into a queue from which the main
loop takes them, while another thread adds pools. The main loop gives up its
locks between the questions whether there is a pool and a datagram, the
datagram, the lease and the offer, so the other threads run in between.
-/

namespace Klevret

open Foundation

abbrev IPPROTO_IP : ℤ := 0

abbrev IP_PKTINFO : ℤ := 8

namespace UdpServer

def BUFFER_SIZE : ℕ := 10000

/-- A control message of a datagram, with the index that `in_pktinfo` gives if it is one. -/
structure ControlMessage where
  level : ℤ
  type : ℤ
  ifindex : ℤ

/-- What `recvmsg` returns: −1, or the bytes that it put into the buffer. -/
inductive Received where
  | error
  | read (buffer : List UInt8) (fits : buffer.length ≤ BUFFER_SIZE) (clientAddr : IPv4Address)
      (controlMessages : List ControlMessage)

end UdpServer

structure UdpServer where
  queue : List UdpPacketWithInfo

namespace UdpServer

/-- The last packet information; `interface_index` is not initialised without one. -/
def interfaceIndexOf (controlMessages : List ControlMessage) : Exec ℤ :=
  Exec.pointee <| controlMessages.foldl (fun interfaceIndex cmsg =>
    if cmsg.level = IPPROTO_IP ∧ cmsg.type = IP_PKTINFO then some cmsg.ifindex
    else interfaceIndex) none

/-- One pass of the loop of `thread_func`. -/
def threadPass (received : Received) : EStateM Stop UdpServer Unit :=
  match received with
  | .error => pure ()
  | .read buffer _ clientAddr controlMessages =>
    if buffer.length > 0 then do
      let _ ← Exec.lift (IPv4Address.ofString clientAddr.toString)
      let interfaceIndex ← Exec.lift (interfaceIndexOf controlMessages)
      modify fun server => { server with queue := server.queue ++ [⟨buffer, interfaceIndex⟩] }
    else pure ()

def isInputQueueBlank (server : UdpServer) : Bool := server.queue.length == 0

/-- The front of an empty queue is undefined. -/
def getNextDatagram : EStateM Stop UdpServer UdpPacketWithInfo := do
  match (← get).queue with
  | [] => throw .undefined
  | datagramWithInfo :: queue =>
    set { queue : UdpServer }
    return datagramWithInfo

/-- The datagrams that a pass of the thread puts into the queue. -/
def datagramsOf : Received → List UdpPacketWithInfo
  | .error => []
  | .read buffer _ _ controlMessages =>
    if buffer.length > 0 then
      match interfaceIndexOf controlMessages with
      | .ok interfaceIndex => [⟨buffer, interfaceIndex⟩]
      | .error _ => []
    else []

theorem queue_of_threadPass {server server' : UdpServer} {received : Received}
    (h : (threadPass received).run server = .ok () server') :
    server'.queue = server.queue ++ datagramsOf received := by
  cases received with
  | error =>
    obtain rfl : server = server' := by simpa [threadPass] using h
    simp [datagramsOf]
  | read buffer fits clientAddr controlMessages =>
    by_cases hlen : buffer.length > 0
    · cases hi : interfaceIndexOf controlMessages with
      | error e => simp [threadPass, hlen, IPv4Address.ofString_toString, hi] at h
      | ok interfaceIndex =>
        obtain rfl : { queue := server.queue ++ [⟨buffer, interfaceIndex⟩] } = server' := by
          simpa [threadPass, hlen, IPv4Address.ofString_toString, hi] using h
        simp [datagramsOf, hlen, hi]
    · obtain rfl : server = server' := by simpa [threadPass, hlen] using h
      simp [datagramsOf, hlen]

end UdpServer

section

variable [Host]

/-- A lease that its client is not told yet. -/
structure PendingOffer where
  interface : NetworkInterface
  dhcpPacket : DhcpMessage
  ip : IPv4Address

namespace ServerState

/-- The handling of a datagram up to the call of `take_address`, or to its end without one. -/
def handleToLease (packetWithInfo : UdpPacketWithInfo) : ServerM (Option PendingOffer) := do
  let interface ← Exec.lift <| Exec.pointee <| (← get).networkInterfaces.find? fun iface =>
    iface.linuxInterfaceIndex = packetWithInfo.interfaceIndex
  let dhcpPacket ← Exec.lift (DhcpMessage.new packetWithInfo.data)
  if dhcpPacket.op = .bootrequest then
    match findOption53 dhcpPacket with
    | none => return none
    | some option53 =>
      let msgType ← Exec.lift (messageTypeOf option53)
      if msgType = .dhcpdiscover then
        let mac ← Exec.lift (Exec.pointee dhcpPacket.chaddr)
        let ip ← takeAddress mac
        return some ⟨interface, dhcpPacket, ip⟩
      else if msgType = .dhcprequest then
        let acknowledge ← Exec.lift (makeAcknowledge dhcpPacket (← xidAt dhcpPacket.xid))
        broadcastSendTo acknowledge interface
        return none
      else return none
  else return none

/-- What follows the lease. -/
def sendOffer (pending : PendingOffer) : ServerM Unit := do
  modify fun state => { state with xids := state.xids.insert pending.dhcpPacket.xid pending.ip }
  let offer ← Exec.lift (makeOffer pending.dhcpPacket (← xidAt pending.dhcpPacket.xid))
  broadcastSendTo offer pending.interface

/-- The handling of a datagram in two parts. -/
theorem handleDatagram_eq (packet : UdpPacketWithInfo) :
    handleDatagram packet = (do
      match ← handleToLease packet with
      | none => pure ()
      | some pending => sendOffer pending) := by
  simp only [handleDatagram, handleToLease, bind_assoc]
  refine bind_congr fun _ => bind_congr fun interface => bind_congr fun dhcpPacket => ?_
  by_cases hop : dhcpPacket.op = .bootrequest
  · cases findOption53 dhcpPacket with
    | none => simp [hop]
    | some option53 =>
      simp only [hop, if_true, bind_assoc]
      refine bind_congr fun msgType => ?_
      by_cases hd : msgType = .dhcpdiscover
      · simp [hd, sendOffer]
      · by_cases hr : msgType = .dhcprequest
        · subst hr
          simp [hd]
        · simp [hd, hr]
  · simp [hop]

section

variable {state state' : ServerState} {packet : UdpPacketWithInfo} {pending : PendingOffer}

theorem run_handleDatagram_of_none (h : (handleToLease packet).run state = .ok none state') :
    (handleDatagram packet).run state = .ok () state' := by
  simp [handleDatagram_eq, h]

theorem run_handleDatagram_of_some
    (h : (handleToLease packet).run state = .ok (some pending) state') :
    (handleDatagram packet).run state = (sendOffer pending).run state' := by
  simp [handleDatagram_eq, h]

theorem run_sendOffer {mac : MacAddress} (hmac : pending.dhcpPacket.chaddr = some mac) :
    ∃ offer, ∀ state, (sendOffer pending).run state = .ok () { state with
      xids := state.xids.insert pending.dhcpPacket.xid pending.ip
      sent := state.sent ++ [offer] } := by
  have ht : Option53MessageType.dhcpoffer ∈ [Option53MessageType.dhcpoffer, .dhcpack] := by simp
  obtain ⟨data, hdata⟩ := toNetworkData_replyOf pending.ip pending.dhcpPacket mac ht
  obtain ⟨dst, hdst⟩ : ∃ dst, pending.interface.broadcastAddress = .inl dst := by
    cases pending.interface.broadcastAddress with
    | inl dst => exact ⟨dst, rfl⟩
    | inr none => exact nomatch none
  refine ⟨⟨replyOf .dhcpoffer pending.dhcpPacket mac pending.ip, data, dst⟩, fun state => ?_⟩
  have hx : (xidAt pending.dhcpPacket.xid).run
      { state with xids := state.xids.insert pending.dhcpPacket.xid pending.ip } =
      .ok pending.ip
        { state with xids := state.xids.insert pending.dhcpPacket.xid pending.ip } :=
    run_subscript_some (by simp)
  simp [sendOffer, hx, makeOffer_eq _ hmac, broadcastSendTo, hdata, hdst,
    L3Address.getIPv4Address]

theorem handleToLease_of_not {interface : NetworkInterface} {message : DhcpMessage}
    (hi : Receives state packet interface) (hm : DhcpMessage.new packet.data = .ok message)
    (hd : ¬ message.Asks .dhcpdiscover) :
    ∃ state', (handleToLease packet).run state = .ok none state' := by
  unfold Receives at hi
  by_cases hr : message.Asks .dhcprequest
  · obtain ⟨option53, ho, hok⟩ := findOption53_of_asks hm hr
    obtain ⟨mac, hmac⟩ := DhcpMessage.chaddr_of_new hm
    have ht : Option53MessageType.dhcpack ∈ [Option53MessageType.dhcpoffer, .dhcpack] := by simp
    obtain ⟨data, dst, hsend⟩ := run_broadcastSendTo ht message mac
      (state.recorded message.xid) { state with xids := state.lookedUp message.xid } interface
    have hne : Option53MessageType.dhcprequest ≠ .dhcpdiscover := by decide
    exact ⟨_, by simp [handleToLease, hi, hm, Exec.pointee, hr.1, ho, hok, hne, run_xidAt,
      makeAcknowledge_eq _ hmac, hsend]; rfl⟩
  · by_cases hop : message.op = .bootrequest
    · cases ho : findOption53 message with
      | none => exact ⟨state, by simp [handleToLease, hi, hm, Exec.pointee, hop, ho]⟩
      | some option53 =>
        obtain ⟨t, hok, ht⟩ := messageTypeOf_eq hm ho
        have hdt : t ≠ .dhcpdiscover := fun he => hd ⟨hop, he ▸ ht⟩
        have hrt : t ≠ .dhcprequest := fun he => hr ⟨hop, he ▸ ht⟩
        exact ⟨state, by simp [handleToLease, hi, hm, Exec.pointee, hop, ho, hok, hdt, hrt]⟩
    · exact ⟨state, by simp [handleToLease, hi, hm, Exec.pointee, hop]⟩

theorem new_of_handleToLease
    (h : (handleToLease packet).run state = .ok (some pending) state') :
    DhcpMessage.new packet.data = .ok pending.dhcpPacket := by
  by_cases hi : ∃ interface, Receives state packet interface
  · obtain ⟨interface, hi⟩ := hi
    cases hm : DhcpMessage.new packet.data with
    | error e =>
      unfold Receives at hi
      simp [handleToLease, hi, hm, Exec.pointee] at h
    | ok message =>
      by_cases hd : message.Asks .dhcpdiscover
      · obtain ⟨option53, ho, hok⟩ := findOption53_of_asks hm hd
        obtain ⟨mac, hmac⟩ := DhcpMessage.chaddr_of_new hm
        unfold Receives at hi
        cases hl : (takeAddress mac).run state with
        | error e state'' =>
          simp [handleToLease, hi, hm, Exec.pointee, hd.1, ho, hok, hmac, hl] at h
        | ok ip state'' =>
          have hp : (⟨interface, message, ip⟩ : PendingOffer) = pending ∧ state'' = state' := by
            simpa [handleToLease, hi, hm, Exec.pointee, hd.1, ho, hok, hmac, hl] using h
          rw [← hp.1]
      · obtain ⟨state'', hnone⟩ := handleToLease_of_not hi hm hd
        simp [hnone] at h
  · have hnone : state.networkInterfaces.find? (fun iface =>
        iface.linuxInterfaceIndex = packet.interfaceIndex) = none :=
      Option.eq_none_iff_forall_ne_some.mpr fun interface hr => hi ⟨interface, hr⟩
    simp [handleToLease, hnone, Exec.pointee] at h

end

end ServerState

/-- Where the main loop stands between two accesses to what the threads share. -/
inductive Control where
  | start
  | free
  | ready
  | received (packet : UdpPacketWithInfo)
  | leased (pending : PendingOffer)

/-- The program while its threads run. -/
structure Process where
  udpServer : UdpServer
  server : ServerState
  control : Control

namespace Process

abbrev ProcessM := EStateM Stop Process

def moveTo (control : Control) : ProcessM Unit := modify fun process => { process with control }

/-- The main loop up to its next access; the datagram whose handling takes effect there. -/
def advance : ProcessM (Option UdpPacketWithInfo) := do
  match (← get).control with
  | .start =>
    if (← get).server.haveFreeAddress then moveTo .free
    return none
  | .free =>
    if (← get).udpServer.isInputQueueBlank then moveTo .start else moveTo .ready
    return none
  | .ready =>
    let packet ← focus (← get).udpServer (fun udpServer process => { process with udpServer })
      UdpServer.getNextDatagram
    moveTo (.received packet)
    return none
  | .received packet =>
    let pending? ← focus (← get).server (fun server process => { process with server })
      (ServerState.handleToLease packet)
    match pending? with
    | none => moveTo .start
    | some pending => moveTo (.leased pending)
    return some packet
  | .leased pending =>
    focus (← get).server (fun server process => { process with server })
      (ServerState.sendOffer pending)
    moveTo .start
    return none

/-- What the main loop does next. -/
inductive Advances (p : Process) : Option UdpPacketWithInfo → Process → Prop
  | waits : p.control = .start ∨ p.control = .free → Advances p none { p with control := .start }
  | free : p.control = .start → p.server.haveFreeAddress = true →
      Advances p none { p with control := .free }
  | ready : p.control = .free → p.udpServer.queue ≠ [] →
      Advances p none { p with control := .ready }
  | takes {packet : UdpPacketWithInfo} {queue : List UdpPacketWithInfo} : p.control = .ready →
      p.udpServer.queue = packet :: queue →
      Advances p none { p with udpServer := ⟨queue⟩, control := .received packet }
  | handles {packet : UdpPacketWithInfo} {server : ServerState} : p.control = .received packet →
      (ServerState.handleToLease packet).run p.server = .ok none server →
      Advances p (some packet) { p with server, control := .start }
  | leases {packet : UdpPacketWithInfo} {pending : PendingOffer} {server : ServerState} :
      p.control = .received packet →
      (ServerState.handleToLease packet).run p.server = .ok (some pending) server →
      Advances p (some packet) { p with server, control := .leased pending }
  | offers {pending : PendingOffer} {server : ServerState} : p.control = .leased pending →
      (ServerState.sendOffer pending).run p.server = .ok () server →
      Advances p none { p with server, control := .start }

@[simp] theorem run_moveTo (p : Process) (control : Control) :
    (moveTo control).run p = .ok () { p with control } := rfl

theorem advances_of_run {p q : Process} {handled : Option UdpPacketWithInfo}
    (h : advance.run p = .ok handled q) : Advances p handled q := by
  obtain ⟨⟨queue⟩, server, control⟩ := p
  cases control with
  | start =>
    by_cases hfree : server.haveFreeAddress = true
    · obtain ⟨rfl, rfl⟩ : none = handled ∧ (⟨⟨queue⟩, server, .free⟩ : Process) = q := by
        simpa [advance, hfree] using h
      exact .free rfl hfree
    · obtain ⟨rfl, rfl⟩ : none = handled ∧ (⟨⟨queue⟩, server, .start⟩ : Process) = q := by
        simpa [advance, hfree] using h
      exact .waits (Or.inl rfl)
  | free =>
    cases queue with
    | nil =>
      obtain ⟨rfl, rfl⟩ : none = handled ∧ (⟨⟨[]⟩, server, .start⟩ : Process) = q := by
        simpa [advance, UdpServer.isInputQueueBlank] using h
      exact .waits (Or.inr rfl)
    | cons packet queue =>
      obtain ⟨rfl, rfl⟩ : none = handled ∧ (⟨⟨packet :: queue⟩, server, .ready⟩ : Process) = q := by
        simpa [advance, UdpServer.isInputQueueBlank] using h
      exact .ready rfl (List.cons_ne_nil packet queue)
  | ready =>
    cases queue with
    | nil =>
      have hfront : UdpServer.getNextDatagram.run ⟨[]⟩ = .error .undefined ⟨[]⟩ := rfl
      simp [advance, run_focus, hfront] at h
    | cons packet queue =>
      obtain ⟨rfl, rfl⟩ : none = handled ∧ (⟨⟨queue⟩, server, .received packet⟩ : Process) = q := by
        simpa [advance, run_focus, UdpServer.getNextDatagram] using h
      exact .takes rfl rfl
  | received packet =>
    cases hrun : (ServerState.handleToLease packet).run server with
    | error e server' => simp [advance, run_focus, hrun] at h
    | ok pending? server' =>
      cases pending? with
      | none =>
        obtain ⟨rfl, rfl⟩ : some packet = handled ∧
            (⟨⟨queue⟩, server', .start⟩ : Process) = q := by
          simpa [advance, run_focus, hrun] using h
        exact .handles rfl hrun
      | some pending =>
        obtain ⟨rfl, rfl⟩ : some packet = handled ∧
            (⟨⟨queue⟩, server', .leased pending⟩ : Process) = q := by
          simpa [advance, run_focus, hrun] using h
        exact .leases rfl hrun
  | leased pending =>
    cases hrun : (ServerState.sendOffer pending).run server with
    | error e server' => simp [advance, run_focus, hrun] at h
    | ok a server' =>
      obtain ⟨rfl, rfl⟩ : none = handled ∧ (⟨⟨queue⟩, server', .start⟩ : Process) = q := by
        simpa [advance, run_focus, hrun] using h
      exact .offers rfl hrun

end Process

end

end Klevret
