import Klevret.Api.ApiHandlers
import Klevret.Api.ApiMessage

/-! # The loop over the requests

Each request is shown, given to its handler and answered. Whatever is thrown on
the way to the answer is caught and only reported: a request whose command is
unknown or whose handler throws gets no reply, while both callers wait for one.
-/

namespace Klevret

open Foundation PropertyTree

section

variable [Host] {T : Type} [PropertyTree T]

/-- The server, and the packets that were sent to its client. -/
structure ApiServer where
  dhcpServer : DhcpServer
  sent : List (List UInt8)

namespace ApiServer

def sendReply (apiMessage : ApiMessage T) : EStateM Stop ApiServer Unit := do
  let (packet, _) ← Exec.lift apiMessage.serialize
  modify fun state => { state with sent := state.sent ++ [packet] }

/-- The body of the `try` block. -/
def answer (apiMessage : ApiMessage T) : EStateM Stop ApiServer Unit := do
  let response : T := empty
  let apiHandler ← Exec.lift (PropertyTree.get apiMessage.json "cmd" >>= handlerOf)
  let (_, response) ← focus (← get).dhcpServer
    (fun dhcpServer state => { state with dhcpServer }) (apiHandler apiMessage.json response)
  let cmd ← Exec.lift (PropertyTree.get apiMessage.json "cmd")
  let reply := { apiMessage with json := put response "cmd" cmd }
  sendReply reply

/-- What the loop does with the message that it takes from the queue. -/
def handle (apiMessage : ApiMessage T) : EStateM Stop ApiServer Unit := do
  let _ ← Exec.lift (writeJson apiMessage.json)
  catchAll (answer apiMessage)

/-- The loop, over the messages in the order in which they reach it. -/
def start (requests : List (ApiMessage T)) : EStateM Stop ApiServer Unit :=
  requests.forM handle

end ApiServer

section Answers

variable (request : ApiMessage T)

/-- A packet that answers a request: it names its component and its command. -/
def Answers (packet : List UInt8) : Prop :=
  ∃ reply sent : ApiMessage T, reply.serialize = .ok (packet, sent) ∧
    sent.componentName = request.componentName ∧ get? sent.json "cmd" = get? request.json "cmd"

def Answerable : Prop :=
  (∃ document, writeJson request.json = .ok document) ∧ Handled request.json

end Answers

namespace ApiServer

variable {request : ApiMessage T} {requests : List (ApiMessage T)} {state state' : ApiServer}

section Step

omit [Host] in
theorem exists_serialize [LawfulJsonWriter T] (name : List UInt8) {json : T} (h : IsFlat json) :
    ∃ packet, ApiMessage.serialize ⟨name, json⟩ =
      .ok (packet, ⟨name, put json "component" name⟩) := by
  have hreply : IsFlat (put json "component" name) := .put (by decide) h
  obtain ⟨document, hdoc⟩ := LawfulJsonWriter.writeJson_ok hreply
  exact ⟨trim document, by simp [ApiMessage.serialize, hdoc]⟩

theorem run_answer [LawfulPropertyTree T] [LawfulJsonWriter T] (h : Handled request.json)
    (state : ApiServer) :
    ∃ packet dhcpServer, (answer request).run state = .ok () ⟨dhcpServer, state.sent ++ [packet]⟩ ∧
      Answers request packet := by
  obtain ⟨cmd, apiHandler, hcmd, ha, hfills⟩ := fills_of_handled h
  obtain ⟨result, response, dhcpServer, hrun, hflat⟩ := hfills empty state.dhcpServer
  have hget := PropertyTree.get_eq_ok.mpr hcmd
  have hreply : IsFlat (put response "cmd" cmd) := .put (by decide) (hflat .empty)
  obtain ⟨packet, hp⟩ := exists_serialize request.componentName hreply
  refine ⟨packet, dhcpServer, ?_, _, _, hp, rfl, ?_⟩
  · simp [answer, sendReply, hget, ha, run_focus, hrun, hp]
  · rw [LawfulPropertyTree.get?_put_of_ne _ _ (by decide) (by decide) (by decide),
      LawfulPropertyTree.get?_put_self, hcmd]

theorem run_answer_of_not (h : ¬ Handled request.json) (state : ApiServer) :
    ∃ e, (answer request).run state = .error e state := by
  cases ha : PropertyTree.get request.json "cmd" >>= handlerOf (T := T) with
  | error e => exact ⟨e, by simp [answer, ha]⟩
  | ok apiHandler =>
    obtain ⟨cmd, hcmd, hhandler⟩ := Exec.bind_eq_ok.mp ha
    obtain ⟨e, hrun⟩ := stops_of_not_handled (empty : T) state.dhcpServer h
      (PropertyTree.get_eq_ok.mp hcmd) hhandler
    exact ⟨e, by simp [answer, ha, run_focus, hrun]⟩

theorem run_handle [LawfulPropertyTree T] [LawfulJsonWriter T] (h : Answerable request)
    (state : ApiServer) :
    ∃ packet dhcpServer, (handle request).run state = .ok () ⟨dhcpServer, state.sent ++ [packet]⟩ ∧
      Answers request packet := by
  obtain ⟨⟨document, hdoc⟩, hhandled⟩ := h
  obtain ⟨packet, dhcpServer, hrun, hanswers⟩ := run_answer hhandled state
  refine ⟨packet, dhcpServer, ?_, hanswers⟩
  simp [handle, hdoc, run_catchAll_ok hrun]

/-- A request that is not answerable ends the program, or is passed over. -/
theorem run_handle_of_not (h : ¬ Answerable request) (state : ApiServer) :
    (handle request).run state = .ok () state ∨
      ∃ e, (handle request).run state = .error e state := by
  cases hdoc : writeJson request.json with
  | error e => exact Or.inr ⟨e, by simp [handle, hdoc]⟩
  | ok document =>
    have hnot : ¬ Handled request.json := fun hh => h ⟨⟨document, hdoc⟩, hh⟩
    obtain ⟨e, hrun⟩ := run_answer_of_not hnot state
    rcases run_catchAll_error hrun with hc | hc
    · exact Or.inl (by simp [handle, hdoc, hc])
    · exact Or.inr ⟨e, by simp [handle, hdoc, hc]⟩

end Step

section Run

variable [LawfulPropertyTree T] [LawfulJsonWriter T]

theorem run_start (h : ∀ request ∈ requests, Answerable request) (state : ApiServer) :
    ∃ state' packets, (start requests).run state = .ok () state' ∧
      state'.sent = state.sent ++ packets ∧ List.Forall₂ Answers requests packets := by
  induction requests generalizing state with
  | nil => exact ⟨state, [], rfl, (List.append_nil _).symm, .nil⟩
  | cons request requests ih =>
    obtain ⟨hrequest, hrequests⟩ := List.forall_mem_cons.mp h
    obtain ⟨packet, dhcpServer, hrun, hanswers⟩ := run_handle hrequest state
    obtain ⟨state', packets, hrun', hsent, hall⟩ :=
      ih hrequests ⟨dhcpServer, state.sent ++ [packet]⟩
    refine ⟨state', packet :: packets, ?_, ?_, .cons hanswers hall⟩
    · rw [start, run_forM_cons_ok requests hrun]
      exact hrun'
    · rw [hsent, List.append_assoc]
      rfl

/-- There are never more replies than requests, and fewer if one is not answerable. -/
theorem sent_of_run_start (h : (start requests).run state = .ok () state') :
    state'.sent.length ≤ state.sent.length + requests.length ∧
      (state'.sent.length = state.sent.length + requests.length →
        ∀ request ∈ requests, Answerable request) := by
  induction requests generalizing state with
  | nil =>
    obtain rfl : state = state' := by simpa [start] using h
    simp
  | cons request requests ih =>
    rw [start] at h
    by_cases ha : Answerable request
    · obtain ⟨packet, dhcpServer, hrun, -⟩ := run_handle ha state
      rw [run_forM_cons_ok requests hrun] at h
      obtain ⟨hle, hall⟩ := ih h
      simp only [List.length_append, List.length_cons, List.length_nil] at hle hall ⊢
      refine ⟨by omega, fun hlen => ?_⟩
      exact List.forall_mem_cons.mpr ⟨ha, hall (by omega)⟩
    · rcases run_handle_of_not ha state with hrun | ⟨e, hrun⟩
      · rw [run_forM_cons_ok requests hrun] at h
        have hle := (ih h).1
        simp only [List.length_cons]
        exact ⟨by omega, fun hlen => absurd hle (by omega)⟩
      · rw [run_forM_cons_error requests hrun] at h
        exact absurd h (by simp)

/-- The loop comes through the requests and sends one reply for each, in their order, just in case
all of them are answerable. -/
theorem answersEach_iff (requests : List (ApiMessage T)) (dhcpServer : DhcpServer) :
    (∃ state, (start requests).run ⟨dhcpServer, []⟩ = .ok () state ∧
        List.Forall₂ Answers requests state.sent) ↔
      ∀ request ∈ requests, Answerable request := by
  constructor
  · rintro ⟨state, hrun, hall⟩
    exact (sent_of_run_start hrun).2 (by simp [hall.length_eq])
  · intro h
    obtain ⟨state, packets, hrun, hsent, hall⟩ := run_start h ⟨dhcpServer, []⟩
    refine ⟨state, hrun, ?_⟩
    rwa [hsent]

end Run

end ApiServer

end

section Samples

namespace FlatTree

/-- The text of a tree of one level whose strings need no escapes. -/
def writeFlat (json : FlatTree) : Exec (List UInt8) :=
  let lines := json.children.map fun (key, value) =>
    literal "    \"" ++ literal key ++ literal "\": \"" ++ value ++ literal "\""
  .ok (literal "\x7b\n" ++ (lines.intersperse (literal ",\n")).flatten ++ literal "\n\x7d\n")

/-- The loop writes documents and reads none. -/
abbrev written : PropertyTree FlatTree :=
  propertyTree writeFlat fun _ => throwRuntimeError "<unspecified file>: expected value"

theorem written_lawful :
    letI := written
    LawfulPropertyTree FlatTree ∧ LawfulJsonWriter FlatTree :=
  ⟨lawful _ _, @LawfulJsonWriter.mk _ written fun _ => ⟨_, rfl⟩⟩

end FlatTree

/-- What the command `dhcp pool create 10.0.0.1 10.0.0.9` becomes. -/
def samplePoolCreate : ApiMessage FlatTree :=
  ⟨literal "dhcp", ⟨[("component", literal "dhcp"), ("cmd", literal "dhcp.pool.create"),
    ("ip_start", literal "10.0.0.1"), ("ip_end", literal "10.0.0.9"),
    ("message-type", literal "request")]⟩⟩

def sampleIpAddress : ApiMessage FlatTree :=
  ⟨literal "dhcp", ⟨[("cmd", literal "ip.address"), ("ip", literal "10.0.0.1"),
    ("component", literal "dhcp"), ("message-type", literal "request")]⟩⟩

theorem answerable_samplePoolCreate :
    letI : Host := ⟨.little⟩
    letI := FlatTree.written
    Answerable samplePoolCreate := by
  let host : Host := ⟨.little⟩
  let tree := FlatTree.written
  refine ⟨⟨_, rfl⟩, Or.inr ⟨by decide +kernel, ⟨10 ::ᵥ 0 ::ᵥ 0 ::ᵥ 1 ::ᵥ .nil⟩,
    ⟨10 ::ᵥ 0 ::ᵥ 0 ::ᵥ 9 ::ᵥ .nil⟩, ⟨literal "10.0.0.1", ?_, ?_⟩,
    ⟨literal "10.0.0.9", ?_, ?_⟩, ?_⟩⟩
  · decide +kernel
  · rfl
  · decide +kernel
  · rfl
  · decide +kernel

/-- The pool is created, and the client is answered. -/
theorem answersEach_sample :
    letI : Host := ⟨.little⟩
    letI := FlatTree.written
    ∃ state, (ApiServer.start [samplePoolCreate]).run ⟨⟨[], []⟩, []⟩ = .ok () state ∧
      List.Forall₂ Answers [samplePoolCreate] state.sent := by
  let host : Host := ⟨.little⟩
  let tree := FlatTree.written
  obtain ⟨_, _⟩ := FlatTree.written_lawful
  refine (ApiServer.answersEach_iff [samplePoolCreate] ⟨[], []⟩).mpr ?_
  exact List.forall_mem_singleton.mpr answerable_samplePoolCreate

/-- The command of the command line that no handler knows gets no reply. -/
theorem not_answersEach_sample :
    letI : Host := ⟨.little⟩
    letI := FlatTree.written
    (LawfulPropertyTree FlatTree ∧ LawfulJsonWriter FlatTree) ∧
      ¬ ∃ state, (ApiServer.start [sampleIpAddress]).run ⟨⟨[], []⟩, []⟩ = .ok () state ∧
        List.Forall₂ Answers [sampleIpAddress] state.sent := by
  let host : Host := ⟨.little⟩
  let tree := FlatTree.written
  refine ⟨FlatTree.written_lawful, ?_⟩
  rintro ⟨state, hrun, hall⟩
  have hnone : (ApiServer.start [sampleIpAddress]).run ⟨⟨[], []⟩, []⟩ = .ok () ⟨⟨[], []⟩, []⟩ := by
    rfl
  obtain rfl : state = ⟨⟨[], []⟩, []⟩ := by simpa [hnone] using hrun.symm
  exact absurd hall.length_eq (by decide)

end Samples

end Klevret
