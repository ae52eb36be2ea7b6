import Klevret.Api.ChainRounds
import Klevret.Api.JsonText
import Klevret.Cli.Handlers

/-! # Which calls return

A call returns if the server handles its request and the packets fit into the
buffers. Otherwise it returns in no run, since no process sends an error. The
calls that return are answered as the registry answers them.
-/

namespace Klevret

open Foundation PropertyTree

section

variable {T : Type} [PropertyTree T]

namespace ApiMessage

/-- The packet of the message fits into the buffer of a reader. -/
def Fits (message : ApiMessage T) : Prop :=
  ∀ packet, IsPacket packet message → packet.length ≤ BUFFER_SIZE - 1

variable {message sent : ApiMessage T} {packet : List UInt8}

theorem deserialize_of_isPacket [LawfulPropertyTree T] [LawfulJsonReader T]
    (h : IsPacket packet message) : deserialize packet = .ok message := by
  obtain ⟨source, hs⟩ := h
  exact deserialize_serialize hs

theorem exists_isPacket [LawfulJsonWriter T] (message : ApiMessage T) (h : IsFlat message.json) :
    ∃ packet, message.serialize = .ok (packet, message.resent) := by
  obtain ⟨packet, hp⟩ := ApiServer.exists_serialize message.componentName h
  exact ⟨packet, hp⟩

theorem isFlat_resent (h : IsFlat message.json) : IsFlat message.resent.json :=
  .put (by decide) h

end ApiMessage

theorem isFlat_poolCreateRequest (first second : Cli.IPv4Address) :
    IsFlat (Cli.poolCreateRequest T first second) :=
  .put (by decide) (.put (by decide) (.put (by decide) (.put (by decide)
    (.put (by decide) .empty))))

theorem ApiListener.run_threadPass [LawfulPropertyTree T] [LawfulJsonReader T]
    {message : ApiMessage T} {packet : List UInt8} {queue : List (ApiMessage T)}
    (h : ApiMessage.IsPacket packet message) (fits : packet.length ≤ BUFFER_SIZE - 1) :
    (threadPass (.read packet fits)).run ⟨queue⟩ = .ok () ⟨queue ++ [message]⟩ := by
  have hlen := List.length_pos_iff.mpr (ApiMessage.isPacket_ne_nil h)
  simp [threadPass, hlen, ApiMessage.deserialize_of_isPacket h]

theorem handled_congr [Host] {json json' : T}
    (h : ∀ path ∈ ["cmd", "ip_start", "ip_end"], get? json path = get? json' path) :
    Handled json ↔ Handled json' := by
  have hcmd := h "cmd" (by simp)
  have hargument (path : String) (hpath : path ∈ ["cmd", "ip_start", "ip_end"])
      (ip : IPv4Address) : Argument json path ip ↔ Argument json' path ip := by
    rw [Argument, Argument, h path hpath]
  simp only [Handled, CreatesPool, hcmd, hargument "ip_start" (by simp),
    hargument "ip_end" (by simp)]

section Fields

variable [LawfulPropertyTree T] {message : ApiMessage T} {path : String}

theorem get?_resent (hpath : path ∈ ["cmd", "ip_start", "ip_end", "status"]) :
    get? message.resent.json path = get? message.json path := by
  have hkeys : ∀ path ∈ ["cmd", "ip_start", "ip_end", "status"],
      isKey path = true ∧ path ≠ "component" := by decide
  obtain ⟨hkey, hne⟩ := hkeys path hpath
  exact LawfulPropertyTree.get?_put_of_ne _ _ (by decide) hkey hne

theorem get?_forwarded (hpath : path ∈ ["cmd", "ip_start", "ip_end"]) :
    get? message.forwarded.json path = get? message.json path := by
  have hkeys : ∀ path ∈ ["cmd", "ip_start", "ip_end"],
      isKey path = true ∧ path ≠ "message-type" := by decide
  obtain ⟨hkey, hne⟩ := hkeys path hpath
  rw [ApiMessage.forwarded, get?_resent (List.mem_append_left ["status"] hpath)]
  exact LawfulPropertyTree.get?_put_of_ne _ _ (by decide) hkey hne

theorem handled_resent_forwarded [Host] :
    Handled message.resent.forwarded.json ↔ Handled message.json := by
  apply handled_congr
  intro path hpath
  rw [get?_forwarded hpath, get?_resent (List.mem_append_left ["status"] hpath)]

end Fields

theorem sendCmd_eq_ok [LawfulJsonReader T] {obj : T} {packet : List UInt8}
    {request : ApiMessage T} (h : Cli.sendCmd obj = .ok (packet, request)) :
    ∃ apiMessage : ApiMessage T, apiMessage.componentName = (get? obj "component").getD [] ∧
      apiMessage.json = obj ∧ request = apiMessage.resent ∧
      ApiMessage.IsPacket packet request := by
  obtain ⟨str, hstr, h⟩ := Exec.bind_eq_ok.mp h
  obtain ⟨apiMessage, hmessage, h⟩ := Exec.bind_eq_ok.mp h
  rw [ApiMessage.deserialize, LawfulJsonReader.readJson_trim hstr] at hmessage
  obtain rfl := Except.ok.inj hmessage
  exact ⟨_, rfl, rfl, ApiMessage.resent_of_serialize h, _, h⟩

theorem Core.exists_forward [LawfulPropertyTree T] [LawfulJsonWriter T] {request : ApiMessage T}
    (hflat : IsFlat request.json)
    (hcomponent : get? request.json "component" = some (literal "dhcp")) :
    ∃ packet, Core.forward request = .ok (some (packet, request.forwarded)) := by
  have hflat' : IsFlat (put request.json "message-type" (literal "request")) :=
    .put (by decide) hflat
  have hget : PropertyTree.get (put request.json "message-type" (literal "request")) "component" =
      .ok (literal "dhcp") := by
    rw [PropertyTree.get_eq_ok,
      LawfulPropertyTree.get?_put_of_ne _ _ (by decide) (by decide) (by decide), hcomponent]
  obtain ⟨document, hdoc⟩ := LawfulJsonWriter.writeJson_ok hflat'
  obtain ⟨packet, hp⟩ := ApiMessage.exists_isPacket
    { request with json := put request.json "message-type" (literal "request") } hflat'
  exact ⟨packet, by simp [Core.forward, hget, hdoc, ApiConnector.sendMessage, hp]; rfl⟩

theorem ApiServer.exists_respond [Host] {request : ApiMessage T} (h : Handled request.json)
    (dhcpServer : DhcpServer) :
    ∃ reply server, respond dhcpServer request = (some reply, server) ∧ IsFlat reply.json := by
  obtain ⟨cmd, apiHandler, hcmd, hhandler, hfills⟩ := fills_of_handled h
  obtain ⟨result, response, server, hrun, -⟩ := hfills empty dhcpServer
  have hreply : (replyTo request).run dhcpServer =
      .ok { request with json := put response "cmd" cmd } server := by
    simp [replyTo, PropertyTree.get_eq_ok.mpr hcmd, hhandler, hrun]
  obtain ⟨-, hflat⟩ := handled_of_replyTo hreply
  exact ⟨_, server, by rw [respond, hreply], hflat⟩

theorem ApiServer.respond_of_not_handled [Host] {request : ApiMessage T}
    (h : ¬ Handled request.json) (dhcpServer : DhcpServer) :
    (respond dhcpServer request).1 = none := by
  cases hreply : (replyTo request).run dhcpServer with
  | error e server => rw [respond, hreply]
  | ok reply server => exact absurd (handled_of_replyTo hreply).1 h

namespace Chain

variable [Host] [LawfulPropertyTree T] [LawfulJsonReader T] [LawfulJsonWriter T] {c : Chain T}
  {obj : T} {packet : List UInt8} {request : ApiMessage T}

/-- The packets of a call fit into the buffers of the processes that read them. -/
def Fits (dhcpServer : DhcpServer) (request : ApiMessage T) : Prop :=
  request.Fits ∧ request.forwarded.Fits ∧
    ∀ reply server, ApiServer.respond dhcpServer request.forwarded = (some reply, server) →
      reply.resent.Fits ∧ reply.resent.resent.Fits

/-- The steps of a call, when each stream is read at once. -/
def round (request reply : ApiMessage T) : List (ChainOp T) :=
  [.call request, .coreReceives, .corePass, .dhcpReceives, .dhcpPass request.forwarded,
    .coreReturns, .return reply]

theorem exists_round (hidle : c.Tracks .idle) (hcli : c.cli = .ready) (hdhcp : c.dhcp = .ready)
    (hsend : Cli.sendCmd obj = .ok (packet, request)) (hflat : IsFlat obj)
    (hcomponent : get? obj "component" = some (literal "dhcp")) (hhandled : Handled obj)
    (hfits : Fits c.dhcpServer request) :
    ∃ reply c', Run ChainStep c (round request reply) c' ∧
      chainRespond c.dhcpServer request.forwarded = (some reply, c'.dhcpServer) := by
  obtain ⟨cli, ⟨stream, ⟨queue⟩⟩, core, ⟨stream', ⟨queue'⟩⟩, dhcp, dhcpServer, fromDhcp,
    fromCore⟩ := c
  obtain ⟨-, rfl, ⟨rfl, rfl⟩, ⟨rfl, rfl⟩, rfl, rfl⟩ : _ ∧ core = .ready ∧
    (stream = [] ∧ queue = []) ∧ (stream' = [] ∧ queue' = []) ∧ fromDhcp = [] ∧ fromCore = [] := by
    cases hidle with
    | idle h₁ h₂ h₃ h₄ h₅ h₆ => exact ⟨h₁, h₂, h₃, h₄, h₅, h₆⟩
  obtain rfl : cli = .ready := hcli
  obtain rfl : dhcp = .ready := hdhcp
  obtain ⟨hfits₁, hfits₂, hfits₃⟩ := hfits
  obtain ⟨apiMessage, hname, hjson, rfl, hp₁⟩ := sendCmd_eq_ok hsend
  -- the request arrives at the core, which sends it on
  have hflat₁ : IsFlat apiMessage.resent.json := ApiMessage.isFlat_resent (hjson ▸ hflat)
  have hdhcp₁ : get? apiMessage.resent.json "component" = some (literal "dhcp") := by
    rw [ApiMessage.resent, LawfulPropertyTree.get?_put_self, hname, hcomponent, Option.getD_some]
  obtain ⟨packet₂, hforward⟩ := Core.exists_forward hflat₁ hdhcp₁
  obtain ⟨-, hp₂⟩ := Core.forward_eq_some hforward
  -- the server replies
  have hhandled₂ : Handled apiMessage.resent.forwarded.json := by
    rw [handled_resent_forwarded, hjson]
    exact hhandled
  obtain ⟨reply, server, hrespond, hflat₃⟩ := ApiServer.exists_respond hhandled₂ dhcpServer
  obtain ⟨packet₃, hrun, hp₃⟩ : ∃ packet₃, (ApiServer.handle apiMessage.resent.forwarded).run
      ⟨dhcpServer, []⟩ = .ok () ⟨server, [packet₃]⟩ ∧
        ApiMessage.IsPacket packet₃ reply.resent := by
    rcases ApiServer.run_handle_respond (ApiMessage.writeJson_of_isPacket hp₂) dhcpServer with
      ⟨reply', server', packet₃, hr, hserialize, hrun⟩ | ⟨server', hr, -⟩
    · obtain ⟨hreply, rfl⟩ := Prod.mk.inj (hr.symm.trans hrespond)
      obtain rfl := Option.some.inj hreply
      exact ⟨packet₃, hrun, reply', hserialize⟩
    · exact absurd (Prod.mk.inj (hr.symm.trans hrespond)).1 nofun
  -- the core sends the reply on
  obtain ⟨packet₄, hserialize⟩ :=
    ApiMessage.exists_isPacket reply.resent (ApiMessage.isFlat_resent hflat₃)
  have hp₄ : ApiMessage.IsPacket packet₄ reply.resent.resent := ⟨_, hserialize⟩
  obtain ⟨hfits₃, hfits₄⟩ := hfits₃ reply server hrespond
  have htakes (packet : List UInt8) (fits : packet.length ≤ BUFFER_SIZE - 1) :
      Takes (.read packet fits) packet [] := List.append_nil _
  let quiet : Inbox T := ⟨[], ⟨[]⟩⟩
  let state (cli core : Phase) (toCore toDhcp : Inbox T) (server : DhcpServer)
      (fromDhcp fromCore : List UInt8) : Chain T :=
    ⟨cli, toCore, core, toDhcp, .ready, server, fromDhcp, fromCore⟩
  have h₁ : ChainStep (state .ready .ready quiet quiet dhcpServer [] []) (.call apiMessage.resent)
      (state .waiting .ready ⟨packet, ⟨[]⟩⟩ quiet dhcpServer [] []) := .call rfl hsend
  have h₂ : ChainStep (state .waiting .ready ⟨packet, ⟨[]⟩⟩ quiet dhcpServer [] []) .coreReceives
      (state .waiting .ready ⟨[], ⟨[apiMessage.resent]⟩⟩ quiet dhcpServer [] []) :=
    .coreReceives nofun (htakes packet (hfits₁ _ hp₁)) (ApiListener.run_threadPass hp₁ _)
  have h₃ : ChainStep (state .waiting .ready ⟨[], ⟨[apiMessage.resent]⟩⟩ quiet dhcpServer [] [])
      .corePass (state .waiting .waiting quiet ⟨packet₂, ⟨[]⟩⟩ dhcpServer [] []) :=
    .corePass rfl rfl hforward
  have h₄ : ChainStep (state .waiting .waiting quiet ⟨packet₂, ⟨[]⟩⟩ dhcpServer [] []) .dhcpReceives
      (state .waiting .waiting quiet ⟨[], ⟨[apiMessage.resent.forwarded]⟩⟩ dhcpServer [] []) :=
    .dhcpReceives nofun (htakes packet₂ (hfits₂ _ hp₂)) (ApiListener.run_threadPass hp₂ _)
  have h₅ : ChainStep
      (state .waiting .waiting quiet ⟨[], ⟨[apiMessage.resent.forwarded]⟩⟩ dhcpServer [] [])
      (.dhcpPass apiMessage.resent.forwarded)
      (state .waiting .waiting quiet quiet server ([] ++ [packet₃].flatten) []) :=
    .dhcpPass rfl rfl hrun
  rw [List.flatten_singleton, List.nil_append] at h₅
  have h₆ : ChainStep (state .waiting .waiting quiet quiet server packet₃ []) .coreReturns
      (state .waiting .ready quiet quiet server [] packet₄) := by
    have hreply : Core.sendReply (.read packet₃ (hfits₃ _ hp₃)) =
        .ok (packet₄, reply.resent.resent) := by
      simp [Core.sendReply, ApiConnector.whaitReply, ApiMessage.deserialize_of_isPacket hp₃,
        hserialize]
    exact .coreReturns rfl (htakes packet₃ (hfits₃ _ hp₃)) hreply
  have h₇ : ChainStep (state .waiting .ready quiet quiet server [] packet₄)
      (.return reply.resent.resent) (state .ready .ready quiet quiet server [] []) :=
    .return rfl (htakes packet₄ (hfits₄ _ hp₄)) (ApiMessage.deserialize_of_isPacket hp₄)
  exact ⟨reply.resent.resent, _, .cons h₁ (.cons h₂ (.cons h₃ (.cons h₄ (.cons h₅ (.cons h₆
    (.single h₇)))))), by rw [chainRespond, hrespond]; rfl⟩

end Chain

end

section Samples

namespace FlatTree

theorem fits_of_length {message : ApiMessage FlatTree}
    (h : (JsonText.document.encode message.json).length ≤ BUFFER_SIZE - 1) :
    letI := texts
    message.Fits := by
  let tree := texts
  rintro packet ⟨source, hs⟩
  obtain ⟨document, hdoc, rfl, -⟩ := ApiMessage.serialize_eq_ok hs
  rwa [trim_of_writeJson hdoc]

end FlatTree

def sampleChain : @Chain ⟨.little⟩ FlatTree :=
  letI : Host := ⟨.little⟩
  ⟨.ready, ⟨[], ⟨[]⟩⟩, .ready, ⟨[], ⟨[]⟩⟩, .ready, ⟨[], []⟩, [], []⟩

/-- What `dhcp pool create 10.0.0.1 10.0.0.9` sends. -/
def sampleObj : FlatTree :=
  letI := FlatTree.texts
  Cli.poolCreateRequest FlatTree ⟨(AddressPool.sampleIp 1).data⟩ ⟨(AddressPool.sampleIp 9).data⟩

def sampleCall : ApiMessage FlatTree :=
  letI := FlatTree.texts
  ApiMessage.resent ⟨literal "dhcp", sampleObj⟩

theorem tracks_sampleChain :
    letI : Host := ⟨.little⟩
    letI := FlatTree.texts
    sampleChain.Tracks .idle := by
  let host : Host := ⟨.little⟩
  let tree := FlatTree.texts
  exact .idle nofun rfl ⟨rfl, rfl⟩ ⟨rfl, rfl⟩ rfl rfl

theorem sendCmd_sampleObj :
    letI := FlatTree.texts
    ∃ packet, Cli.sendCmd sampleObj = .ok (packet, sampleCall) := by
  let tree := FlatTree.texts
  obtain ⟨_, _, _⟩ := FlatTree.texts_lawful
  have hstr : writeJson sampleObj = .ok (JsonText.document.encode sampleObj ++ [10]) := rfl
  have hname : (get? sampleObj "component").getD [] = literal "dhcp" := by decide +kernel
  have hmessage : ApiMessage.deserialize (JsonText.document.encode sampleObj ++ [10]) =
      .ok ⟨literal "dhcp", sampleObj⟩ := by
    rw [ApiMessage.deserialize, LawfulJsonReader.readJson_trim hstr, ← hname]
    rfl
  obtain ⟨packet, hpacket⟩ :=
    ApiMessage.exists_isPacket ⟨literal "dhcp", sampleObj⟩ (isFlat_poolCreateRequest _ _)
  exact ⟨packet, by simp only [Cli.sendCmd, hstr, Exec.ok_bind, hmessage]; exact hpacket⟩

theorem fits_sampleCall :
    letI : Host := ⟨.little⟩
    letI := FlatTree.texts
    Chain.Fits sampleChain.dhcpServer sampleCall := by
  let host : Host := ⟨.little⟩
  let tree := FlatTree.texts
  refine ⟨FlatTree.fits_of_length (by decide +kernel), FlatTree.fits_of_length (by decide +kernel),
    fun reply server h => ?_⟩
  have hreply : (ApiServer.respond sampleChain.dhcpServer sampleCall.forwarded).1 =
      some ⟨literal "dhcp", ⟨[("status", literal "true"), ("msg", literal ""),
        ("cmd", literal "dhcp.pool.create")]⟩⟩ := by decide +kernel
  rw [h] at hreply
  obtain rfl := Option.some.inj hreply
  exact ⟨FlatTree.fits_of_length (by decide +kernel), FlatTree.fits_of_length (by decide +kernel)⟩

end Samples

section

variable {T : Type} [PropertyTree T] [Host] [LawfulPropertyTree T] [LawfulJsonReader T]
  [LawfulJsonWriter T] {c : Chain T} {obj : T} {packet : List UInt8} {request : ApiMessage T}

namespace Chain

/-- However the streams are cut and the processes take turns, the calls that return are answered as
the registry answers them one after the other, and one more is executed at most once. -/
theorem calls_registered {c' : Chain T} {ops : List (ChainOp T)} (hidle : c.Tracks .idle)
    (h : Run ChainStep c ops c') :
    ∃ (rounds : List (ApiMessage T × ApiMessage T)) (ranges : List IPv4AddressRange)
      (pending : List (CallEvent (ApiMessage T) (ApiMessage T)))
      (status : CallStatus (ApiMessage T) (ApiMessage T)),
      ops.filterMap ChainOp.event = rounds.flatMap roundEvents ++ pending ∧
      Run (Executes register) c.dhcpServer.ranges rounds ranges ∧
      Pending register ranges status pending c'.dhcpServer.ranges ∧ c'.Tracks status := by
  obtain ⟨status, ht, rounds, ranges, pending, hevents, hrounds, hpending⟩ :=
    exists_callHistory hidle h
  exact ⟨rounds, ranges, pending, status, hevents, hrounds, hpending, ht⟩

end Chain

end

theorem exists_sampleRound :
    letI : Host := ⟨.little⟩
    letI := FlatTree.texts
    ∃ reply c', Run ChainStep sampleChain (Chain.round sampleCall reply) c' ∧
      chainRespond sampleChain.dhcpServer sampleCall.forwarded = (some reply, c'.dhcpServer) := by
  let host : Host := ⟨.little⟩
  let tree := FlatTree.texts
  obtain ⟨_, _, _⟩ := FlatTree.texts_lawful
  obtain ⟨packet, hsend⟩ := sendCmd_sampleObj
  have hhandled : Handled sampleObj := by
    refine Or.inr ⟨by decide +kernel, ⟨10 ::ᵥ 0 ::ᵥ 0 ::ᵥ 1 ::ᵥ .nil⟩,
      ⟨10 ::ᵥ 0 ::ᵥ 0 ::ᵥ 9 ::ᵥ .nil⟩, ⟨literal "10.0.0.1", ?_, ?_⟩,
      ⟨literal "10.0.0.9", ?_, ?_⟩, ?_⟩
    · decide +kernel
    · rfl
    · decide +kernel
    · rfl
    · decide +kernel
  exact Chain.exists_round tracks_sampleChain rfl rfl hsend (isFlat_poolCreateRequest _ _)
    (by decide +kernel) hhandled fits_sampleCall

/-- A call that returns. -/
theorem calls_registered_sample :
    letI : Host := ⟨.little⟩
    letI := FlatTree.texts
    ∃ (reply : ApiMessage FlatTree) (c' : Chain FlatTree),
      Run ChainStep sampleChain (Chain.round sampleCall reply) c' ∧
      ∃ (rounds : List (ApiMessage FlatTree × ApiMessage FlatTree))
        (ranges : List IPv4AddressRange)
        (pending : List (CallEvent (ApiMessage FlatTree) (ApiMessage FlatTree)))
        (status : CallStatus (ApiMessage FlatTree) (ApiMessage FlatTree)),
        (Chain.round sampleCall reply).filterMap ChainOp.event =
          rounds.flatMap roundEvents ++ pending ∧
        Run (Executes register) sampleChain.dhcpServer.ranges rounds ranges ∧
        Pending register ranges status pending c'.dhcpServer.ranges ∧ c'.Tracks status := by
  let host : Host := ⟨.little⟩
  let tree := FlatTree.texts
  obtain ⟨_, _, _⟩ := FlatTree.texts_lawful
  obtain ⟨reply, c', hrun, -⟩ := exists_sampleRound
  exact ⟨reply, c', hrun, Chain.calls_registered tracks_sampleChain hrun⟩

section

variable {T : Type} [PropertyTree T] [Host] [LawfulPropertyTree T] [LawfulJsonReader T]
  [LawfulJsonWriter T] {c : Chain T} {obj : T} {packet : List UInt8} {request : ApiMessage T}

namespace Chain

/-- Of a server that does not handle the request, nothing returns. -/
theorem no_return_of_called {c : Chain T} {ops : List (ChainOp T)} {c' : Chain T}
    (ht : c.Tracks (.called request)) (hnot : ¬ Handled request.json)
    (h : Run ChainStep c ops c') (reply : ApiMessage T) : .return reply ∉ ops := by
  intro hmem
  have hdirectly : c.Directly (.called request, c.dhcpServer) := ⟨ht, rfl⟩
  obtain ⟨bs, s', hrun, hevents, -⟩ := implements_directStep.run h hdirectly
  have hnone : ∀ server, (chainRespond server request).1 = none := by
    intro server
    simp [chainRespond, ApiServer.respond_of_not_handled hnot server]
  have hreturn : CallEvent.return reply ∈ ops.filterMap ChainOp.event :=
    List.mem_filterMap.mpr ⟨.return reply, hmem, rfl⟩
  rw [← hevents, List.reduceOption_mem_iff] at hreturn
  exact (unanswered_of_run hnone hrun _ hreturn).2 reply rfl

omit [LawfulPropertyTree T] in
theorem Deaf.no_return {c c' : Chain T} {ops : List (ChainOp T)} (hdeaf : c.Deaf)
    (h : Run ChainStep c ops c') (reply : ApiMessage T) : .return reply ∉ ops := by
  intro hmem
  obtain ⟨bs, cs, t, t', -, hrun, hstep, -⟩ := h.exists_step hmem
  have ht : t.Deaf := hrun.invariant (fun _ _ _ hs hstep => (hs.step hstep).1) hdeaf
  exact (ht.step hstep).2.2 reply rfl

/-- A call returns, in some run, exactly if the server runs and handles its request. -/
theorem call_returns_iff (hidle : c.Tracks .idle) (hcli : c.cli = .ready)
    (hsend : Cli.sendCmd obj = .ok (packet, request)) (hflat : IsFlat obj)
    (hcomponent : get? obj "component" = some (literal "dhcp"))
    (hfits : Fits c.dhcpServer request) :
    (∃ ops c' reply, Run ChainStep c (.call request :: ops) c' ∧ .return reply ∈ ops) ↔
      c.dhcp = .ready ∧ Handled obj := by
  constructor
  · rintro ⟨ops, c', reply, hrun, hmem⟩
    obtain ⟨apiMessage, -, hjson, rfl, -⟩ := sendCmd_eq_ok hsend
    cases hidle with
    | idle hne hcore hempty hempty' hfrom hfrom' =>
      cases hrun with
      | @cons _ c₁ _ _ _ hcall hrun =>
        cases hcall with
        | call _ hsend' =>
          have hp := isPacket_of_sendCmd hsend'
          by_cases hdhcp : c.dhcp = .ready
          · refine ⟨hdhcp, ?_⟩
            by_contra hnot
            have hnot' : ¬ Handled apiMessage.resent.forwarded.json := by
              rwa [handled_resent_forwarded, hjson]
            refine no_return_of_called ?_ hnot' hrun reply hmem
            exact .atCore rfl hcore hdhcp (hempty.holds_push hp) hempty' hfrom hfrom'
          · refine absurd hmem (Deaf.no_return ?_ hrun reply)
            exact Or.inr ⟨rfl, hfrom', Or.inr (Or.inl ⟨hdhcp, hfrom⟩)⟩
  · rintro ⟨hdhcp, hhandled⟩
    obtain ⟨reply, c', hrun, -⟩ :=
      exists_round hidle hcli hdhcp hsend hflat hcomponent hhandled hfits
    exact ⟨_, c', reply, hrun, by simp⟩

end Chain

end

/-- The operator asks for a pool. -/
theorem call_returns_sample :
    letI : Host := ⟨.little⟩
    letI := FlatTree.texts
    (∃ ops c' reply, Run ChainStep sampleChain (.call sampleCall :: ops) c' ∧
      .return reply ∈ ops) ↔ sampleChain.dhcp = .ready ∧ Handled sampleObj := by
  let host : Host := ⟨.little⟩
  let tree := FlatTree.texts
  obtain ⟨_, _, _⟩ := FlatTree.texts_lawful
  obtain ⟨packet, hsend⟩ := sendCmd_sampleObj
  exact Chain.call_returns_iff tracks_sampleChain rfl hsend (isFlat_poolCreateRequest _ _)
    (by decide +kernel) fits_sampleCall

end Klevret
