import Klevret.Messages.Reencoding
import Klevret.Server.Steps
import Klevret.Server.Upkeep

/-! # What a client reads

Every reply that the server sends is accepted by the parser on any host and has
the fields and options that the server meant, except for the lease time: it is
written in the byte order of the server and read in network order.
-/

namespace Klevret

open Foundation

/-- The options of a reply as a client reads them. -/
def receivedOptions [Host] (messageType : Option53MessageType) : List DhcpOption :=
  (replyOptions messageType).map fun option =>
    if option.description.code = 51 then
      { option with realValues := [.uint32 (if Host.native = .little then 2152792320 else 86400)] }
    else option

section

variable [Host]

/-- The message is a reply to someone, and the bytes are those of the message. -/
def Broadcast.IsReply (broadcast : Broadcast) : Prop :=
  broadcast.message.IsReply ∧ broadcast.message.toNetworkData = .ok broadcast.data

/-- Parsed on any host, the bytes are the message without its names and with these options. -/
def Broadcast.ReadAs (broadcast : Broadcast) (options : List DhcpOption) : Prop :=
  ∀ client : Host, @DhcpMessage.new client broadcast.data =
    .ok { broadcast.message.unnamed with options := options }

namespace ServerState

variable {state state' : ServerState} {packet : DhcpMessage} {ip : IPv4Address}
  {messageType : Option53MessageType}

theorem maintains_sent_mainLoopPass (front : Option UdpPacketWithInfo) :
    Maintains (fun state : ServerState => ∀ broadcast ∈ state.sent, broadcast.IsReply)
      (mainLoopPass front) := by
  refine maintains_mainLoopPass (maintains_takeAddress fun _ _ hstate => hstate)
    (fun _ _ hstate => hstate) ?_
  intro packet _ reply interface h _
  apply maintains_broadcastSendTo
  intro state data dst hdata _ hstate broadcast hmem
  rcases List.mem_append.mp hmem with hmem | hmem
  · exact hstate broadcast hmem
  · obtain rfl := List.mem_singleton.mp hmem
    exact ⟨h, hdata⟩

theorem isReply_of_step {op : ServerOp} (hstate : ∀ broadcast ∈ state.sent, broadcast.IsReply)
    (h : ServerStep state op state') : ∀ broadcast ∈ state'.sent, broadcast.IsReply := by
  cases op with
  | pass front =>
    exact (maintains_sent_mainLoopPass front).of_run hstate (observe_eq_ok.mp h.perform_eq)
  | addAddressPool pool error =>
    obtain ⟨-, rfl | rfl⟩ := h.add_cases
    · exact hstate
    · exact hstate

end ServerState

end

set_option maxRecDepth 4000 in
theorem rereads_replyOptions : ∀ _ : Host,
    ∀ messageType ∈ [Option53MessageType.dhcpoffer, .dhcpack],
      List.Forall₂ DhcpMessage.Rereads (replyOptions messageType)
        (receivedOptions messageType) := by
  intro host messageType ht
  refine .cons (DhcpMessage.rereads_of_new 53 1 [messageType] [messageType] rfl rfl ?_ ?_ ?_)
    (.cons (DhcpMessage.rereads_of_new 1 4 [255, 255, 255, 0] [255, 255, 255, 0] rfl rfl ?_ ?_ ?_)
    (.cons (DhcpMessage.rereads_of_new 3 4 [172, 18, 1, 1] [172, 18, 1, 1] rfl rfl ?_ ?_ ?_)
    (.cons (DhcpMessage.rereads_of_new 51 4 [0, 1, 81, 128] (host.native.arrange [128, 81, 1, 0])
      rfl (Endian.length_arrange _ _) ?_ ?_ ?_) .nil)))
  all_goals
    obtain rfl | rfl : messageType = .dhcpoffer ∨ messageType = .dhcpack := by simpa using ht
    all_goals
      obtain ⟨_ | _⟩ := host
      all_goals decide

section

variable [Host]

/-- The message is the answer of this type to the request in a datagram. -/
def Broadcast.Answers (broadcast : Broadcast) (messageType : Option53MessageType)
    (packet : UdpPacketWithInfo) : Prop :=
  ∃ request mac, DhcpMessage.new packet.data = .ok request ∧ request.chaddr = some mac ∧
    broadcast.message = replyOf messageType request mac broadcast.message.yiaddr ∧
    (messageType = .dhcpoffer ∧ request.Asks .dhcpdiscover ∨
      messageType = .dhcpack ∧ request.Asks .dhcprequest)

theorem readAs_of_isReply {broadcast : Broadcast} {messageType : Option53MessageType}
    (ht : messageType ∈ [Option53MessageType.dhcpoffer, .dhcpack]) {request : DhcpMessage}
    {mac : MacAddress} {ip : IPv4Address}
    (hm : broadcast.message = replyOf messageType request mac ip)
    (hdata : broadcast.message.toNetworkData = .ok broadcast.data) :
    broadcast.ReadAs (receivedOptions messageType) := by
  have hoptions := rereads_replyOptions ‹Host› messageType ht
  have hencodable : DhcpMessage.Encodable broadcast.message := by
    rw [hm]
    exact ⟨rfl, ⟨mac, rfl⟩, DhcpMessage.isOption_of_rereads hoptions⟩
  have hrereads : List.Forall₂ DhcpMessage.Rereads broadcast.message.options
      (receivedOptions messageType) := by
    rw [hm]
    exact hoptions
  obtain ⟨bytes, hbytes, hnew⟩ :=
    (DhcpMessage.reencodes_iff hencodable).mpr ⟨_, hrereads, rfl⟩
  obtain rfl := Except.ok.inj (hdata.symm.trans hbytes)
  exact DhcpMessage.new_eq_ok_of_host hnew

namespace ServerState

variable {state state' : ServerState} {ops : List ServerOp} {broadcast : Broadcast}

theorem ServerStep.answers {op : ServerOp} (h : ServerStep state op state')
    (hmem : broadcast ∈ state'.sent) : broadcast ∈ state.sent ∨
      ∃ packet messageType, op = .pass (some packet) ∧ broadcast.Answers messageType packet := by
  cases op with
  | pass front =>
    rcases h.pass_cases with rfl | ⟨packet, message, rfl, -, hnew, hhandled⟩
    · exact Or.inl hmem
    · cases hhandled with
      | ignored _ _ => exact Or.inl hmem
      | offered data dst hasks hmac _ _ =>
        rcases List.mem_append.mp hmem with hmem | hmem
        · exact Or.inl hmem
        · obtain rfl := List.mem_singleton.mp hmem
          exact Or.inr ⟨packet, .dhcpoffer, rfl, message, _, hnew, hmac, rfl, Or.inl ⟨rfl, hasks⟩⟩
      | acknowledged data dst hasks hmac =>
        rcases List.mem_append.mp hmem with hmem | hmem
        · exact Or.inl hmem
        · obtain rfl := List.mem_singleton.mp hmem
          exact Or.inr ⟨packet, .dhcpack, rfl, message, _, hnew, hmac, rfl, Or.inr ⟨rfl, hasks⟩⟩
  | addAddressPool pool error =>
    obtain ⟨-, rfl | rfl⟩ := h.add_cases
    · exact Or.inl hmem
    · exact Or.inl hmem

theorem answers_of_run (h : Run ServerStep state ops state') (hmem : broadcast ∈ state'.sent) :
    broadcast ∈ state.sent ∨ ∃ packet messageType, ServerOp.pass (some packet) ∈ ops ∧
      broadcast.Answers messageType packet := by
  induction h with
  | nil => exact Or.inl hmem
  | cons hstep _ ih =>
    rcases ih hmem with hmem | ⟨packet, messageType, hop, ha⟩
    · rcases hstep.answers hmem with hmem | ⟨packet, messageType, rfl, ha⟩
      · exact Or.inl hmem
      · exact Or.inr ⟨packet, messageType, List.mem_cons_self, ha⟩
    · exact Or.inr ⟨packet, messageType, List.mem_cons_of_mem _ hop, ha⟩

/-- Whatever the server has sent answers a request of a datagram, and every client that parses it
finds the fields of the answer and its options, with the lease time in the byte order of the
server. -/
theorem replies_read (hstart : Started state) (h : Run ServerStep state ops state') :
    ∀ broadcast ∈ state'.sent, ∃ packet messageType, ServerOp.pass (some packet) ∈ ops ∧
      broadcast.Answers messageType packet ∧
      broadcast.ReadAs (receivedOptions messageType) := by
  intro broadcast hmem
  have hnone : ∀ broadcast ∈ state.sent, broadcast.IsReply := by
    rw [hstart.sent]
    exact List.forall_mem_nil _
  have hreply := h.invariant (fun _ _ _ hsent hs => isReply_of_step hsent hs) hnone broadcast hmem
  rcases answers_of_run h hmem with hbefore | ⟨packet, messageType, hop, ha⟩
  · rw [hstart.sent] at hbefore
    cases hbefore
  · obtain ⟨request, mac, -, -, hm, htype⟩ := id ha
    have ht : messageType ∈ [Option53MessageType.dhcpoffer, .dhcpack] := by
      rcases htype with ⟨rfl, -⟩ | ⟨rfl, -⟩ <;> simp
    exact ⟨packet, messageType, hop, ha, readAs_of_isReply ht hm hreply.2⟩

end ServerState

end

/-- A discovery and a request of one client, on a little-endian host. -/
theorem replies_read_sample :
    letI : Host := ⟨.little⟩
    let packets := [samplePacket .dhcpdiscover 7 1, samplePacket .dhcprequest 7 1]
    ∃ state : ServerState, state.sent.length = 2 ∧ ∀ broadcast ∈ state.sent,
      ∃ packet messageType, ServerOp.pass (some packet) ∈ sampleOps packets ∧
        broadcast.Answers messageType packet ∧
        broadcast.ReadAs (receivedOptions messageType) := by
  let host : Host := ⟨.little⟩
  obtain ⟨state, hrun, hlen⟩ := ServerState.run_sampleOps (fun _ _ => true)
    [samplePacket .dhcpdiscover 7 1, samplePacket .dhcprequest 7 1]
    (fun state => state.sent.length) 2 (by decide +kernel)
  exact ⟨state, hlen, ServerState.replies_read ServerState.started_sampleServer hrun.of_guarded⟩

end Klevret
