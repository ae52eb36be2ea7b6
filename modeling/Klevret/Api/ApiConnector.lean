import Klevret.Api.ApiListener
import Klevret.Api.ApiServer

/-! # The connector and its users

The command line sends a request to the core and blocks until `recv` returns;
the core sends it on to the component and blocks in turn. A chunk is taken for
the reply, so only a chunk that is the whole packet gives one.
-/

namespace Klevret

open Foundation PropertyTree

variable {T : Type} [PropertyTree T]

namespace ApiConnector

/-- `send_and_whait_reply` up to the call of `recv`: the bytes that are sent, and the message as it
is left. -/
def sendMessage (messageToSend : ApiMessage T) : Exec (List UInt8 × ApiMessage T) :=
  messageToSend.serialize

/-- `send_and_whait_reply` from the return of `recv` on. At the end of the stream no bytes are
read. -/
def whaitReply : Received → Exec (ApiMessage T)
  | .error => throwRuntimeError "error receiving message (ApiConnector)"
  | .read packet _ => ApiMessage.deserialize packet

end ApiConnector

/-- `send_cmd_and_get_reply` with an object that names its component, up to the call of `recv`. -/
def Cli.sendCmd (obj : T) : Exec (List UInt8 × ApiMessage T) := do
  let str ← writeJson obj
  let apiMessage ← ApiMessage.deserialize str
  ApiConnector.sendMessage apiMessage

namespace Core

/-- The `try` block of the loop, from the message on: what is sent on, if it is for a component. -/
def forward (apiMessage : ApiMessage T) : Exec (Option (List UInt8 × ApiMessage T)) := do
  let json := put apiMessage.json "message-type" (literal "request")
  let component ← PropertyTree.get json "component"
  let _ ← writeJson json
  if component = literal "dhcp" then
    some <$> ApiConnector.sendMessage { apiMessage with json }
  else return none

/-- The rest of it, when `recv` returns. -/
def sendReply (received : Received) : Exec (List UInt8 × ApiMessage T) := do
  let reply ← ApiConnector.whaitReply received
  reply.serialize

end Core

namespace ApiMessage

/-- The message as it is after it was serialized. -/
def resent (message : ApiMessage T) : ApiMessage T :=
  { message with json := put message.json "component" message.componentName }

/-- The request that the component receives for the request that the core received. -/
def forwarded (message : ApiMessage T) : ApiMessage T :=
  resent { message with json := put message.json "message-type" (literal "request") }

def IsPacket (packet : List UInt8) (message : ApiMessage T) : Prop :=
  ∃ source : ApiMessage T, source.serialize = .ok (packet, message)

variable {message sent : ApiMessage T} {packet chunk : List UInt8}

theorem resent_of_serialize (h : message.serialize = .ok (packet, sent)) :
    sent = message.resent := by
  obtain ⟨document, -, h⟩ := Exec.bind_eq_ok.mp h
  exact (Prod.mk.inj (Except.ok.inj h)).2.symm

theorem writeJson_of_isPacket (h : IsPacket packet message) :
    ∃ document, writeJson message.json = .ok document := by
  obtain ⟨source, hs⟩ := h
  obtain ⟨document, hdoc, -⟩ := serialize_eq_ok hs
  exact ⟨document, hdoc⟩

section Laws

variable [LawfulPropertyTree T] [LawfulJsonReader T]

theorem eq_of_deserialize {rest : List UInt8} (h : IsPacket packet message)
    (hchunk : chunk ++ rest = packet) (hm : deserialize chunk = .ok sent) :
    rest = [] ∧ sent = message := by
  obtain ⟨source, hs⟩ := h
  have ha : accepts T chunk := by simp [accepts, hm, Except.toBool]
  obtain rfl := eq_of_accepts_part hs ⟨rest, hchunk⟩ ha
  have hrest : rest = [] := List.append_right_eq_self.mp hchunk
  exact ⟨hrest, Except.ok.inj (hm.symm.trans (deserialize_serialize hs))⟩

omit [LawfulPropertyTree T] in
theorem isPacket_ne_nil (h : IsPacket packet message) : packet ≠ [] := by
  obtain ⟨source, hs⟩ := h
  exact serialize_ne_nil hs

variable [LawfulJsonWriter T]

omit [LawfulPropertyTree T] in
theorem deserialize_nil_ne_ok : (deserialize [] : Exec (ApiMessage T)) ≠ .ok message := by
  obtain ⟨document, hdoc⟩ := LawfulJsonWriter.writeJson_ok (T := T) .empty
  have hne : ([] : List UInt8) ≠ trim document := (LawfulJsonReader.trim_ne_nil hdoc).symm
  obtain ⟨e, he⟩ := LawfulJsonReader.readJson_part hdoc (List.nil_prefix) hne
  have htrim : trim ([] : List UInt8) = [] := rfl
  simp [deserialize, htrim, he]

end Laws

end ApiMessage

/-- Where `recv` leaves a stream. -/
def Takes : Received → List UInt8 → List UInt8 → Prop
  | .error, stream, rest => rest = stream
  | .read packet _, stream, rest => packet ++ rest = stream

theorem Takes.exists_append {received : Received} {stream rest : List UInt8}
    (h : Takes received stream rest) : ∃ taken, stream = taken ++ rest := by
  cases received with
  | error => exact ⟨[], h.symm⟩
  | read chunk fits => exact ⟨chunk, h.symm⟩

namespace ApiConnector

variable [LawfulPropertyTree T] [LawfulJsonReader T] {received : Received} {rest : List UInt8}
  {packet : List UInt8} {message reply : ApiMessage T}

theorem eq_of_whaitReply (h : ApiMessage.IsPacket packet message)
    (htakes : Takes received packet rest) (hreply : whaitReply received = .ok reply) :
    rest = [] ∧ reply = message := by
  cases received with
  | error => exact absurd hreply Exec.throwRuntimeError_ne_ok
  | read chunk fits => exact ApiMessage.eq_of_deserialize h htakes hreply

omit [LawfulPropertyTree T] in
theorem whaitReply_nil [LawfulJsonWriter T] (htakes : Takes received [] rest) :
    rest = [] ∧ ∃ e, (whaitReply received : Exec (ApiMessage T)) = .error e := by
  cases received with
  | error => exact ⟨htakes, _, rfl⟩
  | read chunk fits =>
    obtain ⟨rfl, rfl⟩ := List.append_eq_nil_iff.mp htakes
    refine ⟨rfl, ?_⟩
    cases hm : (ApiMessage.deserialize [] : Exec (ApiMessage T)) with
    | ok message => exact absurd hm ApiMessage.deserialize_nil_ne_ok
    | error e => exact ⟨e, hm⟩

end ApiConnector

namespace ApiServer

variable [Host]

/-- What the handler of a request makes of it: the reply, which names the command. -/
def replyTo (request : ApiMessage T) : EStateM Stop DhcpServer (ApiMessage T) := do
  let apiHandler ← Exec.lift (PropertyTree.get request.json "cmd" >>= handlerOf)
  let (_, response) ← apiHandler request.json empty
  let cmd ← Exec.lift (PropertyTree.get request.json "cmd")
  return { request with json := put response "cmd" cmd }

/-- The reply that is sent for a request, and the server after it. -/
def respond (dhcpServer : DhcpServer) (request : ApiMessage T) :
    Option (ApiMessage T) × DhcpServer :=
  match (replyTo request).run dhcpServer with
  | .ok reply dhcpServer => (some reply, dhcpServer)
  | .error _ dhcpServer => (none, dhcpServer)

variable {request : ApiMessage T} {dhcpServer : DhcpServer} {sent : List (List UInt8)}

theorem run_answer_eq (request : ApiMessage T) (dhcpServer : DhcpServer)
    (sent : List (List UInt8)) :
    (answer request).run ⟨dhcpServer, sent⟩ =
      match (replyTo request).run dhcpServer with
      | .ok reply dhcpServer => (ApiServer.sendReply reply).run ⟨dhcpServer, sent⟩
      | .error e dhcpServer => .error e ⟨dhcpServer, sent⟩ := by
  cases ha : PropertyTree.get request.json "cmd" >>= handlerOf (T := T) with
  | error e => simp [answer, replyTo, ha]
  | ok apiHandler =>
    obtain ⟨cmd, hcmd, hhandler⟩ := Exec.bind_eq_ok.mp ha
    cases hrun : (apiHandler request.json empty).run dhcpServer with
    | error e server => simp [answer, replyTo, ha, run_focus, hrun]
    | ok result server => simp [answer, replyTo, hcmd, hhandler, run_focus, hrun]

theorem replyTo_eq_ok {reply : ApiMessage T} {dhcpServer' : DhcpServer}
    (h : (replyTo request).run dhcpServer = .ok reply dhcpServer') :
    ∃ cmd apiHandler result response, get? request.json "cmd" = some cmd ∧
      handlerOf cmd = .ok apiHandler ∧
      (apiHandler request.json empty).run dhcpServer = .ok (result, response) dhcpServer' ∧
      reply = { request with json := put response "cmd" cmd } := by
  cases ha : PropertyTree.get request.json "cmd" >>= handlerOf (T := T) with
  | error e => simp [replyTo, ha] at h
  | ok apiHandler =>
    obtain ⟨cmd, hcmd, hhandler⟩ := Exec.bind_eq_ok.mp ha
    cases hrun : (apiHandler request.json empty).run dhcpServer with
    | error e server => simp [replyTo, hcmd, hhandler, hrun] at h
    | ok result server =>
      obtain ⟨result, response⟩ := result
      simp only [replyTo, hcmd, Exec.ok_bind, hhandler, EStateM.run_bind, Exec.run_lift_ok, hrun,
        EStateM.run_pure, EStateM.Result.ok.injEq] at h
      obtain ⟨rfl, rfl⟩ := h
      exact ⟨cmd, apiHandler, result, response, PropertyTree.get_eq_ok.mp hcmd, hhandler, hrun, rfl⟩

theorem handled_of_replyTo {reply : ApiMessage T} {dhcpServer' : DhcpServer}
    (h : (replyTo request).run dhcpServer = .ok reply dhcpServer') :
    Handled request.json ∧ IsFlat reply.json := by
  obtain ⟨cmd, apiHandler, result, response, hcmd, hhandler, hrun, rfl⟩ := replyTo_eq_ok h
  have hhandled : Handled request.json := by
    by_contra hnot
    obtain ⟨e, he⟩ := stops_of_not_handled (empty : T) dhcpServer hnot hcmd hhandler
    rw [hrun] at he
    cases he
  refine ⟨hhandled, ?_⟩
  obtain ⟨cmd', apiHandler', hcmd', hhandler', hfills⟩ := fills_of_handled hhandled
  obtain rfl := Option.some.inj (hcmd.symm.trans hcmd')
  obtain rfl := Except.ok.inj (hhandler.symm.trans hhandler')
  obtain ⟨result', response', server', hrun', hflat⟩ := hfills empty dhcpServer
  obtain ⟨heq, -⟩ := (EStateM.Result.ok.injEq ..).mp (hrun.symm.trans hrun')
  obtain ⟨-, rfl⟩ := Prod.mk.inj heq
  exact .put (by decide) (hflat .empty)

/-- What the loop does with a request that can be shown: it sends the reply that belongs to the
request, or nothing. -/
theorem run_handle_respond [LawfulJsonWriter T]
    (hshown : ∃ document, writeJson request.json = .ok document) (dhcpServer : DhcpServer) :
    (∃ reply server packet, respond dhcpServer request = (some reply, server) ∧
      reply.serialize = .ok (packet, reply.resent) ∧
      (handle request).run ⟨dhcpServer, []⟩ = .ok () ⟨server, [packet]⟩) ∨
    (∃ server, respond dhcpServer request = (none, server) ∧
      ((handle request).run ⟨dhcpServer, []⟩ = .ok () ⟨server, []⟩ ∨
        ∃ e, (handle request).run ⟨dhcpServer, []⟩ = .error e ⟨server, []⟩)) := by
  obtain ⟨document, hdoc⟩ := hshown
  have hanswer := run_answer_eq request dhcpServer []
  cases hreply : (replyTo request).run dhcpServer with
  | ok reply server =>
    obtain ⟨-, hflat⟩ := handled_of_replyTo hreply
    obtain ⟨packet, hp⟩ := exists_serialize reply.componentName hflat
    have hserialize : reply.serialize = .ok (packet, reply.resent) := hp
    refine Or.inl ⟨reply, server, packet, by rw [respond, hreply], hserialize, ?_⟩
    rw [hreply] at hanswer
    have hsend : (answer request).run ⟨dhcpServer, []⟩ = .ok () ⟨server, [packet]⟩ := by
      rw [hanswer]
      simp [ApiServer.sendReply, hserialize]
    simp [handle, hdoc, run_catchAll_ok hsend]
  | error e server =>
    refine Or.inr ⟨server, by rw [respond, hreply], ?_⟩
    rw [hreply] at hanswer
    rcases run_catchAll_error hanswer with hc | hc
    · exact Or.inl (by simp [handle, hdoc, hc])
    · exact Or.inr ⟨e, by simp [handle, hdoc, hc]⟩

end ApiServer

end Klevret
