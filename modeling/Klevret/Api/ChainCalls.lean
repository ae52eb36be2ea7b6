import Klevret.Api.Chain

/-! # The chain as a remote call

The chain does what a caller and a server do that are next to each other: a call
is executed at once or not at all, and answered at most once. At any time there
is at most one message in the chain, so a stream never holds more than a packet.
-/

namespace Klevret

open Foundation PropertyTree

section

variable [Host] {T : Type} [PropertyTree T]

/-- What the command line gets for a request: the reply of the server, sent on by the core. -/
def chainRespond (dhcpServer : DhcpServer) (request : ApiMessage T) :
    Option (ApiMessage T) × DhcpServer :=
  let (reply, dhcpServer) := ApiServer.respond dhcpServer request
  (reply.map fun reply => reply.resent.resent, dhcpServer)

/-- A pass of the main loop changes the server so, whether it ends or stops. -/
def LoopStep (dhcpServer dhcpServer' : DhcpServer) : Prop :=
  ∃ (front : Option UdpPacketWithInfo) (state state' : ServerState) (outcome : Exec Unit),
    state.toDhcpServer = dhcpServer ∧ state.perform (.pass front) = (outcome, state') ∧
      state'.toDhcpServer = dhcpServer'

variable (T) in
/-- A command line that is next to the server. -/
abbrev DirectStep := CallStep (chainRespond (T := T)) LoopStep

omit [Host] in
/-- The events of the call that a step shows. -/
def ChainOp.event : ChainOp T → Option (CallEvent (ApiMessage T) (ApiMessage T))
  | .call request => some (.call request.forwarded)
  | .return reply => some (.return reply)
  | .dhcpPass request => some (.execute request)
  | _ => none

namespace Chain

/-- The server takes no request before the next call. -/
def Quiet (c : Chain T) : Prop :=
  c.dhcp ≠ .ready ∨ (c.core = .stopped ∨ c.toCore.Empty) ∧ c.toDhcp.Empty

/-- The core will send nothing to the command line before the next call. -/
def Mute (c : Chain T) : Prop :=
  c.core = .stopped ∨ c.dhcp ≠ .ready ∧ c.fromDhcp = [] ∨ c.core = .ready ∧ c.toCore.Empty ∨
    c.core = .waiting ∧ c.toCore.Empty ∧ c.fromDhcp = [] ∧ c.toDhcp.Empty

/-- The command line makes no call and will get no reply. -/
def Deaf (c : Chain T) : Prop :=
  c.cli = .stopped ∨ c.cli = .waiting ∧ c.fromCore = [] ∧ c.Mute

/-- A request is on its way to the server, and nothing else is. -/
inductive Carries (c : Chain T) : ApiMessage T → Prop
  | atCore {message : ApiMessage T} : c.core = .ready → c.dhcp = .ready →
      c.toCore.Holds message → c.toDhcp.Empty → Carries c message.forwarded
  | atDhcp {request : ApiMessage T} : c.core = .stopped ∨ c.toCore.Empty → c.dhcp = .ready →
      c.toDhcp.Holds request → Carries c request

/-- Where the one message of the chain is. -/
inductive Tracks (c : Chain T) : CallStatus (ApiMessage T) (ApiMessage T) → Prop
  | idle : c.cli ≠ .waiting → c.core = .ready → c.toCore.Empty → c.toDhcp.Empty →
      c.fromDhcp = [] → c.fromCore = [] → Tracks c .idle
  | atCore {message : ApiMessage T} : c.cli = .waiting → c.core = .ready → c.dhcp = .ready →
      c.toCore.Holds message → c.toDhcp.Empty → c.fromDhcp = [] → c.fromCore = [] →
      Tracks c (.called message.forwarded)
  | atDhcp {request : ApiMessage T} : c.cli = .waiting → c.core = .waiting → c.dhcp = .ready →
      c.toCore.Empty → c.toDhcp.Holds request → c.fromDhcp = [] → c.fromCore = [] →
      Tracks c (.called request)
  | fromDhcp {reply : ApiMessage T} (request : ApiMessage T) : c.cli = .waiting →
      c.core = .waiting → c.toCore.Empty → c.toDhcp.Empty → ApiMessage.IsPacket c.fromDhcp reply →
      c.fromCore = [] → Tracks c (.answered request reply.resent)
  | fromCore {reply : ApiMessage T} (request : ApiMessage T) : c.cli = .waiting →
      c.core = .ready → c.toCore.Empty → c.toDhcp.Empty → c.fromDhcp = [] →
      ApiMessage.IsPacket c.fromCore reply → Tracks c (.answered request reply)
  | late {request : ApiMessage T} : Carries c request → Deaf c → Tracks c (.lost (some request))
  | lost : Quiet c → Deaf c → Tracks c (.lost none)

end Chain

end

namespace Core

variable {T : Type} [PropertyTree T] {message sent : ApiMessage T} {packet : List UInt8}

theorem forward_eq_some (h : forward message = .ok (some (packet, sent))) :
    sent = message.forwarded ∧ ApiMessage.IsPacket packet sent := by
  obtain ⟨component, -, h⟩ := Exec.bind_eq_ok.mp h
  obtain ⟨document, -, h⟩ := Exec.bind_eq_ok.mp h
  split_ifs at h
  · obtain ⟨entry, hentry, he⟩ := Exec.map_eq_ok.mp h
    obtain rfl := Option.some.inj he
    exact ⟨ApiMessage.resent_of_serialize hentry, _, hentry⟩
  · exact absurd (Except.ok.inj h) nofun

theorem afterCatch_ne_waiting (e : Stop) : afterCatch e = .ready ∨ afterCatch e = .stopped := by
  cases e with
  | throws e => exact Or.inl rfl
  | undefined => exact Or.inr rfl
  | outOfFuel => exact Or.inr rfl

theorem sendReply_eq_ok [LawfulPropertyTree T] [LawfulJsonReader T] {received : Received}
    {rest bytes : List UInt8} (hp : ApiMessage.IsPacket bytes message)
    (htakes : Takes received bytes rest) (h : sendReply received = .ok (packet, sent)) :
    rest = [] ∧ sent = message.resent ∧ ApiMessage.IsPacket packet sent := by
  obtain ⟨reply, hreply, h⟩ := Exec.bind_eq_ok.mp h
  obtain ⟨rfl, rfl⟩ := ApiConnector.eq_of_whaitReply hp htakes hreply
  exact ⟨rfl, ApiMessage.resent_of_serialize h, _, h⟩

theorem sendReply_nil [LawfulJsonReader T] [LawfulJsonWriter T] {received : Received}
    {rest : List UInt8} (htakes : Takes received [] rest) :
    rest = [] ∧ ∃ e, (sendReply received : Exec (List UInt8 × ApiMessage T)) = .error e := by
  obtain ⟨hrest, e, he⟩ := ApiConnector.whaitReply_nil (T := T) htakes
  exact ⟨hrest, e, by simp [sendReply, he]⟩

end Core

section

variable [Host] {T : Type} [PropertyTree T] {c c' : Chain T} {a : ChainOp T}
  {request : ApiMessage T}

namespace Chain

theorem serves_of_step (hstep : ChainStep c a c') (hevent : a.event = none) :
    c'.dhcpServer = c.dhcpServer ∨ LoopStep c.dhcpServer c'.dhcpServer := by
  cases hstep with
  | dhcpPass _ _ _ => cases hevent
  | dhcpPassStops _ _ _ => cases hevent
  | serve _ hstate hrun => exact Or.inr ⟨_, _, _, _, hstate, hrun, rfl⟩
  | serveStops _ hstate hrun => exact Or.inr ⟨_, _, _, _, hstate, hrun, rfl⟩
  | _ => exact Or.inl rfl

theorem core_of_step (h : c.core = .stopped) (hstep : ChainStep c a c') : c'.core = .stopped := by
  cases hstep with
  | coreReceiveStops _ _ _ => rfl
  | corePass hready _ _ => simp [h] at hready
  | corePassFails hready _ _ => simp [h] at hready
  | coreReturns hwaiting _ _ => simp [h] at hwaiting
  | coreReturnFails hwaiting _ _ => simp [h] at hwaiting
  | _ => exact h

theorem dhcp_of_step (h : c.dhcp ≠ .ready) (hstep : ChainStep c a c') :
    c'.dhcp ≠ .ready ∧ (∀ m, a ≠ .dhcpPass m) ∧ ∃ taken, c.fromDhcp = taken ++ c'.fromDhcp := by
  cases hstep with
  | coreReturns _ htakes _ => exact ⟨h, nofun, htakes.exists_append⟩
  | coreReturnFails _ htakes _ => exact ⟨h, nofun, htakes.exists_append⟩
  | dhcpReceiveStops _ _ _ => exact ⟨nofun, nofun, [], rfl⟩
  | dhcpPass hready _ _ => exact absurd hready h
  | dhcpPassStops hready _ _ => exact absurd hready h
  | serveStops _ _ _ => exact ⟨nofun, nofun, [], rfl⟩
  | _ => exact ⟨h, nofun, [], rfl⟩

theorem Quiet.step (h : c.Quiet) (hstep : ChainStep c a c') (hcall : ∀ m, a ≠ .call m) :
    c'.Quiet ∧ ∀ m, a ≠ .dhcpPass m := by
  rcases h with hdhcp | ⟨hcore, hempty⟩
  · obtain ⟨hdhcp', hpass, -⟩ := dhcp_of_step hdhcp hstep
    exact ⟨Or.inl hdhcp', hpass⟩
  cases hstep with
  | call _ _ => exact absurd rfl (hcall _)
  | coreReceives hne htakes hrun =>
    exact ⟨Or.inr ⟨Or.inr ((hcore.resolve_left hne).receives htakes hrun), hempty⟩, nofun⟩
  | coreReceiveStops _ _ _ => exact ⟨Or.inr ⟨Or.inl rfl, hempty⟩, nofun⟩
  | corePass hready hnext _ =>
    exact absurd hnext (hcore.resolve_left (by simp [hready])).not_getNextMessage
  | corePassOver hready hnext _ =>
    exact absurd hnext (hcore.resolve_left (by simp [hready])).not_getNextMessage
  | corePassFails hready hnext _ =>
    exact absurd hnext (hcore.resolve_left (by simp [hready])).not_getNextMessage
  | coreReturns hwaiting _ _ =>
    exact ⟨Or.inr ⟨Or.inr (hcore.resolve_left (by simp [hwaiting])), hempty⟩, nofun⟩
  | coreReturnFails hwaiting _ _ =>
    exact ⟨Or.inr ⟨Or.inr (hcore.resolve_left (by simp [hwaiting])), hempty⟩, nofun⟩
  | dhcpReceives _ htakes hrun =>
    exact ⟨Or.inr ⟨hcore, hempty.receives htakes hrun⟩, nofun⟩
  | dhcpReceiveStops _ _ _ => exact ⟨Or.inl nofun, nofun⟩
  | dhcpPass _ hnext _ => exact absurd hnext hempty.not_getNextMessage
  | dhcpPassStops _ hnext _ => exact absurd hnext hempty.not_getNextMessage
  | serveStops _ _ _ => exact ⟨Or.inl nofun, nofun⟩
  | _ => exact ⟨Or.inr ⟨hcore, hempty⟩, nofun⟩

omit [PropertyTree T] in
theorem mute_of_empty (hcore : c.core = .ready ∨ c.core = .stopped) (hempty : c.toCore.Empty) :
    c.Mute := by
  rcases hcore with hready | hstopped
  · exact Or.inr (Or.inr (Or.inl ⟨hready, hempty⟩))
  · exact Or.inl hstopped

omit [PropertyTree T] in
theorem Mute.of_waiting (h : c.Mute) (hwaiting : c.core = .waiting) : c.fromDhcp = [] := by
  rcases h with hstopped | ⟨-, hfrom⟩ | ⟨hready, -⟩ | ⟨-, -, hfrom, -⟩
  · simp [hwaiting] at hstopped
  · exact hfrom
  · simp [hwaiting] at hready
  · exact hfrom

variable [LawfulJsonReader T] [LawfulJsonWriter T]

theorem Mute.fromCore_of_step (h : c.Mute) (hstep : ChainStep c a c') :
    ∃ taken, c.fromCore = taken ++ c'.fromCore := by
  cases hstep with
  | «return» _ htakes _ => exact htakes.exists_append
  | returnStops _ htakes _ => exact htakes.exists_append
  | coreReturns hwaiting htakes hreply =>
    rw [h.of_waiting hwaiting] at htakes
    obtain ⟨-, e, he⟩ := Core.sendReply_nil (T := T) htakes
    rw [hreply] at he
    cases he
  | _ => exact ⟨[], rfl⟩

theorem Mute.step (h : c.Mute) (hstep : ChainStep c a c') (hcall : ∀ m, a ≠ .call m) :
    c'.Mute := by
  rcases h with hcore | ⟨hdhcp, hfrom⟩ | ⟨hready, hempty⟩ | ⟨hwaiting, hempty, hfrom, hempty'⟩
  · exact Or.inl (core_of_step hcore hstep)
  · obtain ⟨hdhcp', -, taken, htaken⟩ := dhcp_of_step hdhcp hstep
    rw [hfrom] at htaken
    exact Or.inr (Or.inl ⟨hdhcp', (List.append_eq_nil_iff.mp htaken.symm).2⟩)
  · cases hstep with
    | call _ _ => exact absurd rfl (hcall _)
    | coreReceives _ htakes hrun =>
      exact Or.inr (Or.inr (Or.inl ⟨hready, hempty.receives htakes hrun⟩))
    | coreReceiveStops _ _ _ => exact Or.inl rfl
    | corePass _ hnext _ => exact absurd hnext hempty.not_getNextMessage
    | corePassFails _ hnext _ => exact absurd hnext hempty.not_getNextMessage
    | coreReturns hwaiting _ _ => simp [hready] at hwaiting
    | coreReturnFails hwaiting _ _ => simp [hready] at hwaiting
    | corePassOver _ hnext _ => exact absurd hnext hempty.not_getNextMessage
    | _ => exact Or.inr (Or.inr (Or.inl ⟨hready, hempty⟩))
  · cases hstep with
    | call _ _ => exact absurd rfl (hcall _)
    | coreReceives _ htakes hrun =>
      exact Or.inr (Or.inr (Or.inr ⟨hwaiting, hempty.receives htakes hrun, hfrom, hempty'⟩))
    | coreReceiveStops _ _ _ => exact Or.inl rfl
    | corePass hready _ _ => simp [hwaiting] at hready
    | corePassOver hready _ _ => simp [hwaiting] at hready
    | corePassFails hready _ _ => simp [hwaiting] at hready
    | coreReturns _ htakes hreply =>
      rw [hfrom] at htakes
      obtain ⟨-, e, he⟩ := Core.sendReply_nil (T := T) htakes
      rw [hreply] at he
      cases he
    | coreReturnFails _ _ _ => exact mute_of_empty (Core.afterCatch_ne_waiting _) hempty
    | dhcpReceives _ htakes hrun =>
      exact Or.inr (Or.inr (Or.inr ⟨hwaiting, hempty, hfrom, hempty'.receives htakes hrun⟩))
    | dhcpReceiveStops _ _ _ => exact Or.inr (Or.inl ⟨nofun, hfrom⟩)
    | dhcpPass _ hnext _ => exact absurd hnext hempty'.not_getNextMessage
    | dhcpPassStops _ hnext _ => exact absurd hnext hempty'.not_getNextMessage
    | serveStops _ _ _ => exact Or.inr (Or.inl ⟨nofun, hfrom⟩)
    | _ => exact Or.inr (Or.inr (Or.inr ⟨hwaiting, hempty, hfrom, hempty'⟩))

omit [LawfulJsonReader T] [LawfulJsonWriter T] in
theorem cli_of_step (hcli : c.cli ≠ .ready) (hstep : ChainStep c a c')
    (hreturn : ∀ m, a ≠ .return m) : c'.cli = c.cli ∨ c'.cli = .stopped := by
  cases hstep with
  | call hready _ => exact absurd hready hcli
  | callStops _ _ => exact Or.inr rfl
  | «return» _ _ _ => exact absurd rfl (hreturn _)
  | returnStops _ _ _ => exact Or.inr rfl
  | _ => exact Or.inl rfl

theorem Deaf.step (h : c.Deaf) (hstep : ChainStep c a c') :
    c'.Deaf ∧ (∀ m, a ≠ .call m) ∧ ∀ m, a ≠ .return m := by
  have hcli : c.cli ≠ .ready := by
    rcases h with hstopped | ⟨hwaiting, -⟩
    · simp [hstopped]
    · simp [hwaiting]
  have hcall : ∀ m, a ≠ .call m := by
    rintro m rfl
    cases hstep with
    | call hready _ => exact absurd hready hcli
  have hreturn : ∀ m, a ≠ .return m := by
    rintro m rfl
    cases hstep with
    | «return» hwaiting htakes hreply =>
      rcases h with hstopped | ⟨-, hfrom, -⟩
      · rw [hwaiting] at hstopped
        cases hstopped
      · rw [hfrom] at htakes
        obtain ⟨-, e, he⟩ := ApiConnector.whaitReply_nil (T := T) htakes
        rw [hreply] at he
        cases he
  refine ⟨?_, hcall, hreturn⟩
  rcases cli_of_step hcli hstep hreturn with hsame | hstopped
  · rcases h with hstopped | ⟨hwaiting, hfrom, hmute⟩
    · exact Or.inl (hsame.trans hstopped)
    · obtain ⟨taken, htaken⟩ := hmute.fromCore_of_step hstep
      rw [hfrom] at htaken
      exact Or.inr ⟨hsame.trans hwaiting, (List.append_eq_nil_iff.mp htaken.symm).2,
        hmute.step hstep hcall⟩
  · exact Or.inl hstopped

omit [LawfulJsonReader T] in
theorem run_dhcpPass {dhcpServer server : DhcpServer} {sent : List (List UInt8)}
    (hshown : ∃ document, writeJson request.json = .ok document)
    (hrun : (ApiServer.handle request).run ⟨dhcpServer, []⟩ = .ok () ⟨server, sent⟩) :
    (∃ (reply : ApiMessage T) (packet : List UInt8),
      chainRespond dhcpServer request = (some reply.resent.resent, server) ∧
      sent = [packet] ∧ ApiMessage.IsPacket packet reply.resent) ∨
    chainRespond dhcpServer request = (none, server) ∧ sent = [] := by
  rcases ApiServer.run_handle_respond hshown dhcpServer with
    ⟨reply, server', packet, hrespond, hreply, hok⟩ | ⟨server', hrespond, hok | ⟨e, herror⟩⟩
  · rw [hok] at hrun
    obtain ⟨-, h⟩ := (EStateM.Result.ok.injEq ..).mp hrun
    obtain ⟨rfl, rfl⟩ := (ApiServer.mk.injEq ..).mp h
    exact Or.inl ⟨reply, packet, by rw [chainRespond, hrespond]; rfl, rfl, reply, hreply⟩
  · rw [hok] at hrun
    obtain ⟨-, h⟩ := (EStateM.Result.ok.injEq ..).mp hrun
    obtain ⟨rfl, rfl⟩ := (ApiServer.mk.injEq ..).mp h
    exact Or.inr ⟨by rw [chainRespond, hrespond]; rfl, rfl⟩
  · rw [herror] at hrun
    cases hrun

omit [LawfulJsonReader T] in
theorem run_dhcpPass_error {dhcpServer server : DhcpServer} {sent : List (List UInt8)} {e : Stop}
    (hshown : ∃ document, writeJson request.json = .ok document)
    (hrun : (ApiServer.handle request).run ⟨dhcpServer, []⟩ = .error e ⟨server, sent⟩) :
    chainRespond dhcpServer request = (none, server) ∧ sent = [] := by
  rcases ApiServer.run_handle_respond hshown dhcpServer with
    ⟨reply, server', packet, -, -, hok⟩ | ⟨server', hrespond, hok | ⟨e', herror⟩⟩
  · rw [hok] at hrun
    cases hrun
  · rw [hok] at hrun
    cases hrun
  · rw [herror] at hrun
    obtain ⟨-, h⟩ := (EStateM.Result.error.injEq ..).mp hrun
    obtain ⟨rfl, rfl⟩ := (ApiServer.mk.injEq ..).mp h
    exact ⟨by rw [chainRespond, hrespond]; rfl, rfl⟩

variable [LawfulPropertyTree T]

/-- A request that is on its way stays on its way, is lost, or is executed. -/
theorem Carries.step (h : c.Carries request) (hstep : ChainStep c a c')
    (hcall : ∀ m, a ≠ .call m) :
    a = .dhcpPass request ∧ c'.Quiet ∧
        (∃ outcome, chainRespond c.dhcpServer request = (outcome, c'.dhcpServer)) ∨
      (∀ m, a ≠ .dhcpPass m) ∧ (c'.Carries request ∨ c'.Quiet) := by
  cases h with
  | atCore hcore hdhcp hholds hempty =>
    refine Or.inr ?_
    cases hstep with
    | call _ _ => exact absurd rfl (hcall _)
    | callStops _ _ => exact ⟨nofun, Or.inl (.atCore hcore hdhcp hholds hempty)⟩
    | «return» _ _ _ => exact ⟨nofun, Or.inl (.atCore hcore hdhcp hholds hempty)⟩
    | returnStops _ _ _ => exact ⟨nofun, Or.inl (.atCore hcore hdhcp hholds hempty)⟩
    | coreReceives _ htakes hrun =>
      exact ⟨nofun, Or.inl (.atCore hcore hdhcp (hholds.receives htakes hrun) hempty)⟩
    | coreReceiveStops _ _ _ => exact ⟨nofun, Or.inr (Or.inr ⟨Or.inl rfl, hempty⟩)⟩
    | corePass _ hnext hforward =>
      obtain ⟨rfl, htaken⟩ := hholds.getNextMessage hnext
      obtain ⟨rfl, hp⟩ := Core.forward_eq_some hforward
      exact ⟨nofun, Or.inl (.atDhcp (Or.inr htaken) hdhcp (hempty.holds_push hp))⟩
    | corePassOver _ hnext _ =>
      exact ⟨nofun, Or.inr (Or.inr ⟨Or.inr (hholds.getNextMessage hnext).2, hempty⟩)⟩
    | corePassFails _ hnext _ =>
      exact ⟨nofun, Or.inr (Or.inr ⟨Or.inr (hholds.getNextMessage hnext).2, hempty⟩)⟩
    | coreReturns hwaiting _ _ =>
      rw [hcore] at hwaiting
      cases hwaiting
    | coreReturnFails hwaiting _ _ =>
      rw [hcore] at hwaiting
      cases hwaiting
    | dhcpReceives _ htakes hrun =>
      exact ⟨nofun, Or.inl (.atCore hcore hdhcp hholds (hempty.receives htakes hrun))⟩
    | dhcpReceiveStops _ htakes hrun => exact absurd hrun (hempty.not_receiveStops htakes)
    | dhcpPass _ hnext _ => exact absurd hnext hempty.not_getNextMessage
    | dhcpPassStops _ hnext _ => exact absurd hnext hempty.not_getNextMessage
    | serve _ _ _ => exact ⟨nofun, Or.inl (.atCore hcore hdhcp hholds hempty)⟩
    | serveStops _ _ _ => exact ⟨nofun, Or.inr (Or.inl nofun)⟩
  | atDhcp hcore hdhcp hholds =>
    cases hstep with
    | call _ _ => exact absurd rfl (hcall _)
    | callStops _ _ => exact Or.inr ⟨nofun, Or.inl (.atDhcp hcore hdhcp hholds)⟩
    | «return» _ _ _ => exact Or.inr ⟨nofun, Or.inl (.atDhcp hcore hdhcp hholds)⟩
    | returnStops _ _ _ => exact Or.inr ⟨nofun, Or.inl (.atDhcp hcore hdhcp hholds)⟩
    | coreReceives hne htakes hrun =>
      have hempty := (hcore.resolve_left hne).receives htakes hrun
      exact Or.inr ⟨nofun, Or.inl (.atDhcp (Or.inr hempty) hdhcp hholds)⟩
    | coreReceiveStops _ _ _ => exact Or.inr ⟨nofun, Or.inl (.atDhcp (Or.inl rfl) hdhcp hholds)⟩
    | corePass hready hnext _ =>
      exact absurd hnext (hcore.resolve_left (by simp [hready])).not_getNextMessage
    | corePassOver hready hnext _ =>
      exact absurd hnext (hcore.resolve_left (by simp [hready])).not_getNextMessage
    | corePassFails hready hnext _ =>
      exact absurd hnext (hcore.resolve_left (by simp [hready])).not_getNextMessage
    | coreReturns hwaiting _ _ =>
      have hempty := hcore.resolve_left (by simp [hwaiting])
      exact Or.inr ⟨nofun, Or.inl (.atDhcp (Or.inr hempty) hdhcp hholds)⟩
    | coreReturnFails hwaiting _ _ =>
      have hempty := hcore.resolve_left (by simp [hwaiting])
      exact Or.inr ⟨nofun, Or.inl (.atDhcp (Or.inr hempty) hdhcp hholds)⟩
    | dhcpReceives _ htakes hrun =>
      exact Or.inr ⟨nofun, Or.inl (.atDhcp hcore hdhcp (hholds.receives htakes hrun))⟩
    | dhcpReceiveStops _ _ _ => exact Or.inr ⟨nofun, Or.inr (Or.inl nofun)⟩
    | dhcpPass _ hnext hrun =>
      obtain ⟨rfl, hempty⟩ := hholds.getNextMessage hnext
      refine Or.inl ⟨rfl, Or.inr ⟨hcore, hempty⟩, ?_⟩
      rcases run_dhcpPass hholds.writeJson hrun with ⟨_, _, hr, -⟩ | ⟨hr, -⟩
      · exact ⟨_, hr⟩
      · exact ⟨_, hr⟩
    | dhcpPassStops _ hnext hrun =>
      obtain ⟨rfl, hempty⟩ := hholds.getNextMessage hnext
      exact Or.inl ⟨rfl, Or.inl nofun, _, (run_dhcpPass_error hholds.writeJson hrun).1⟩
    | serve _ _ _ => exact Or.inr ⟨nofun, Or.inl (.atDhcp hcore hdhcp hholds)⟩
    | serveStops _ _ _ => exact Or.inr ⟨nofun, Or.inr (Or.inl nofun)⟩

/-- The step is matched by a run of the remote call with the same event. -/
def Matched (c : Chain T) (status : CallStatus (ApiMessage T) (ApiMessage T)) (a : ChainOp T)
    (c' : Chain T) : Prop :=
  ∃ bs status', Run (DirectStep T) (status, c.dhcpServer) bs (status', c'.dhcpServer) ∧
    bs.reduceOption = a.event.toList ∧ c'.Tracks status'

section Matched

variable {status status' : CallStatus (ApiMessage T) (ApiMessage T)}

omit [LawfulPropertyTree T] [LawfulJsonReader T] [LawfulJsonWriter T]

theorem matched_same
    (hserves : a.event = none → c'.dhcpServer = c.dhcpServer ∨ LoopStep c.dhcpServer c'.dhcpServer)
    (ht : c'.Tracks status) (he : a.event = none) : Matched c status a c' := by
  rcases hserves he with hsame | hserves
  · exact ⟨[], status, by rw [hsame]; exact .nil _, by rw [he]; rfl, ht⟩
  · exact ⟨[none], status, .single (.serve _ hserves), by rw [he]; rfl, ht⟩

theorem matched_via
    (hserves : a.event = none → c'.dhcpServer = c.dhcpServer ∨ LoopStep c.dhcpServer c'.dhcpServer)
    (hstep : ∀ s, DirectStep T (status, s) none (status', s))
    (ht : c'.Tracks status') (he : a.event = none) : Matched c status a c' := by
  rcases hserves he with hsame | hserves
  · exact ⟨[none], status', by rw [hsame]; exact .single (hstep _), by rw [he]; rfl, ht⟩
  · exact ⟨[none, none], status', .cons (.serve _ hserves) (.single (hstep _)), by rw [he]; rfl, ht⟩

theorem matched_event {event : CallEvent (ApiMessage T) (ApiMessage T)}
    (hstep : DirectStep T (status, c.dhcpServer) (some event) (status', c'.dhcpServer))
    (ht : c'.Tracks status') (he : a.event = some event) : Matched c status a c' :=
  ⟨[some event], status', .single hstep, by rw [he]; rfl, ht⟩

omit [Host] in
theorem isPacket_of_sendCmd {obj : T} {packet : List UInt8}
    (h : Cli.sendCmd obj = .ok (packet, request)) : ApiMessage.IsPacket packet request := by
  obtain ⟨str, -, h⟩ := Exec.bind_eq_ok.mp h
  obtain ⟨apiMessage, -, h⟩ := Exec.bind_eq_ok.mp h
  exact ⟨apiMessage, h⟩

theorem idle_step (hcli : c.cli ≠ .waiting) (hcore : c.core = .ready) (hempty : c.toCore.Empty)
    (hempty' : c.toDhcp.Empty) (hfrom : c.fromDhcp = []) (hfrom' : c.fromCore = [])
    (hstep : ChainStep c a c') : Matched c .idle a c' := by
  have hserves := serves_of_step hstep
  cases hstep with
  | call _ hsend =>
    have hp := isPacket_of_sendCmd hsend
    by_cases hdhcp : c.dhcp = .ready
    · exact matched_event (.call _ _)
        (.atCore rfl hcore hdhcp (hempty.holds_push hp) hempty' hfrom hfrom') rfl
    · exact ⟨[some (.call _), none], .lost none,
        .cons (.call _ _) (.single (.loseRequest _ _)), rfl,
        .lost (Or.inl hdhcp) (Or.inr ⟨rfl, hfrom', Or.inr (Or.inl ⟨hdhcp, hfrom⟩)⟩)⟩
  | callStops _ _ => exact matched_same hserves (.idle nofun hcore hempty hempty' hfrom hfrom') rfl
  | «return» hwaiting _ _ => exact absurd hwaiting hcli
  | returnStops hwaiting _ _ => exact absurd hwaiting hcli
  | coreReceives _ htakes hrun =>
    have hempty := hempty.receives htakes hrun
    exact matched_same hserves (.idle hcli hcore hempty hempty' hfrom hfrom') rfl
  | coreReceiveStops _ htakes hrun => exact absurd hrun (hempty.not_receiveStops htakes)
  | corePass _ hnext _ => exact absurd hnext hempty.not_getNextMessage
  | corePassOver _ hnext _ => exact absurd hnext hempty.not_getNextMessage
  | corePassFails _ hnext _ => exact absurd hnext hempty.not_getNextMessage
  | coreReturns hwaiting _ _ =>
    rw [hcore] at hwaiting
    cases hwaiting
  | coreReturnFails hwaiting _ _ =>
    rw [hcore] at hwaiting
    cases hwaiting
  | dhcpReceives _ htakes hrun =>
    have hempty' := hempty'.receives htakes hrun
    exact matched_same hserves (.idle hcli hcore hempty hempty' hfrom hfrom') rfl
  | dhcpReceiveStops _ htakes hrun => exact absurd hrun (hempty'.not_receiveStops htakes)
  | dhcpPass _ hnext _ => exact absurd hnext hempty'.not_getNextMessage
  | dhcpPassStops _ hnext _ => exact absurd hnext hempty'.not_getNextMessage
  | serve _ _ _ => exact matched_same hserves (.idle hcli hcore hempty hempty' hfrom hfrom') rfl
  | serveStops _ _ _ =>
    exact matched_same hserves (.idle hcli hcore hempty hempty' hfrom hfrom') rfl

end Matched

theorem late_step (hcarries : c.Carries request) (hdeaf : c.Deaf) (hstep : ChainStep c a c') :
    Matched c (.lost (some request)) a c' := by
  obtain ⟨hdeaf', hcall, hreturn⟩ := hdeaf.step hstep
  rcases hcarries.step hstep hcall with ⟨rfl, hquiet, outcome, hr⟩ | ⟨hpass, hcarries | hquiet⟩
  · exact matched_event (.executeLost hr) (.lost hquiet hdeaf') rfl
  · refine matched_same (serves_of_step hstep) (.late hcarries hdeaf') ?_
    cases a <;> simp_all [ChainOp.event]
  · refine matched_via (serves_of_step hstep) (.loseLate _) (.lost hquiet hdeaf') ?_
    cases a <;> simp_all [ChainOp.event]

omit [LawfulPropertyTree T] in
theorem lost_step (hquiet : c.Quiet) (hdeaf : c.Deaf) (hstep : ChainStep c a c') :
    Matched c (.lost none) a c' := by
  obtain ⟨hdeaf', hcall, hreturn⟩ := hdeaf.step hstep
  obtain ⟨hquiet', hpass⟩ := hquiet.step hstep hcall
  refine matched_same (serves_of_step hstep) (.lost hquiet' hdeaf') ?_
  cases a <;> simp_all [ChainOp.event]

theorem atCore_step {message : ApiMessage T} (hcli : c.cli = .waiting) (hcore : c.core = .ready)
    (hdhcp : c.dhcp = .ready) (hholds : c.toCore.Holds message) (hempty : c.toDhcp.Empty)
    (hfrom : c.fromDhcp = []) (hfrom' : c.fromCore = []) (hstep : ChainStep c a c') :
    Matched c (.called message.forwarded) a c' := by
  have hserves := serves_of_step hstep
  cases hstep with
  | call hready _ =>
    rw [hcli] at hready
    cases hready
  | callStops hready _ =>
    rw [hcli] at hready
    cases hready
  | «return» _ htakes hreply =>
    rw [hfrom'] at htakes
    obtain ⟨-, e, he⟩ := ApiConnector.whaitReply_nil (T := T) htakes
    rw [hreply] at he
    cases he
  | returnStops _ _ _ =>
    exact matched_via hserves (.abandon _)
      (.late (.atCore hcore hdhcp hholds hempty) (Or.inl rfl)) rfl
  | coreReceives _ htakes hrun =>
    have hholds := hholds.receives htakes hrun
    exact matched_same hserves (.atCore hcli hcore hdhcp hholds hempty hfrom hfrom') rfl
  | coreReceiveStops _ _ _ =>
    exact matched_via hserves (.loseRequest _)
      (.lost (Or.inr ⟨Or.inl rfl, hempty⟩) (Or.inr ⟨hcli, hfrom', Or.inl rfl⟩)) rfl
  | corePass _ hnext hforward =>
    obtain ⟨rfl, htaken⟩ := hholds.getNextMessage hnext
    obtain ⟨rfl, hp⟩ := Core.forward_eq_some hforward
    exact matched_same hserves
      (.atDhcp hcli rfl hdhcp htaken (hempty.holds_push hp) hfrom hfrom') rfl
  | corePassOver _ hnext _ =>
    have htaken := (hholds.getNextMessage hnext).2
    exact matched_via hserves (.loseRequest _) (.lost (Or.inr ⟨Or.inr htaken, hempty⟩)
      (Or.inr ⟨hcli, hfrom', mute_of_empty (Or.inl hcore) htaken⟩)) rfl
  | corePassFails _ hnext _ =>
    have htaken := (hholds.getNextMessage hnext).2
    exact matched_via hserves (.loseRequest _) (.lost (Or.inr ⟨Or.inr htaken, hempty⟩)
      (Or.inr ⟨hcli, hfrom', mute_of_empty (Core.afterCatch_ne_waiting _) htaken⟩)) rfl
  | coreReturns hwaiting _ _ =>
    rw [hcore] at hwaiting
    cases hwaiting
  | coreReturnFails hwaiting _ _ =>
    rw [hcore] at hwaiting
    cases hwaiting
  | dhcpReceives _ htakes hrun =>
    have hempty := hempty.receives htakes hrun
    exact matched_same hserves (.atCore hcli hcore hdhcp hholds hempty hfrom hfrom') rfl
  | dhcpReceiveStops _ htakes hrun => exact absurd hrun (hempty.not_receiveStops htakes)
  | dhcpPass _ hnext _ => exact absurd hnext hempty.not_getNextMessage
  | dhcpPassStops _ hnext _ => exact absurd hnext hempty.not_getNextMessage
  | serve _ _ _ =>
    exact matched_same hserves (.atCore hcli hcore hdhcp hholds hempty hfrom hfrom') rfl
  | serveStops _ _ _ =>
    exact matched_via hserves (.loseRequest _) (.lost (Or.inl nofun)
      (Or.inr ⟨hcli, hfrom', Or.inr (Or.inl ⟨nofun, hfrom⟩)⟩)) rfl

theorem atDhcp_step (hcli : c.cli = .waiting) (hcore : c.core = .waiting)
    (hdhcp : c.dhcp = .ready) (hempty : c.toCore.Empty) (hholds : c.toDhcp.Holds request)
    (hfrom : c.fromDhcp = []) (hfrom' : c.fromCore = []) (hstep : ChainStep c a c') :
    Matched c (.called request) a c' := by
  have hserves := serves_of_step hstep
  cases hstep with
  | call hready _ =>
    rw [hcli] at hready
    cases hready
  | callStops hready _ =>
    rw [hcli] at hready
    cases hready
  | «return» _ htakes hreply =>
    rw [hfrom'] at htakes
    obtain ⟨-, e, he⟩ := ApiConnector.whaitReply_nil (T := T) htakes
    rw [hreply] at he
    cases he
  | returnStops _ _ _ =>
    exact matched_via hserves (.abandon _)
      (.late (.atDhcp (Or.inr hempty) hdhcp hholds) (Or.inl rfl)) rfl
  | coreReceives _ htakes hrun =>
    have hempty := hempty.receives htakes hrun
    exact matched_same hserves (.atDhcp hcli hcore hdhcp hempty hholds hfrom hfrom') rfl
  | coreReceiveStops _ htakes hrun => exact absurd hrun (hempty.not_receiveStops htakes)
  | corePass _ hnext _ => exact absurd hnext hempty.not_getNextMessage
  | corePassOver _ hnext _ => exact absurd hnext hempty.not_getNextMessage
  | corePassFails _ hnext _ => exact absurd hnext hempty.not_getNextMessage
  | coreReturns _ htakes hreply =>
    rw [hfrom] at htakes
    obtain ⟨-, e, he⟩ := Core.sendReply_nil (T := T) htakes
    rw [hreply] at he
    cases he
  | coreReturnFails _ _ _ =>
    exact matched_via hserves (.abandon _) (.late (.atDhcp (Or.inr hempty) hdhcp hholds)
      (Or.inr ⟨hcli, hfrom', mute_of_empty (Core.afterCatch_ne_waiting _) hempty⟩)) rfl
  | dhcpReceives _ htakes hrun =>
    have hholds := hholds.receives htakes hrun
    exact matched_same hserves (.atDhcp hcli hcore hdhcp hempty hholds hfrom hfrom') rfl
  | dhcpReceiveStops _ _ _ =>
    exact matched_via hserves (.loseRequest _) (.lost (Or.inl nofun)
      (Or.inr ⟨hcli, hfrom', Or.inr (Or.inl ⟨nofun, hfrom⟩)⟩)) rfl
  | dhcpPass _ hnext hrun =>
    obtain ⟨rfl, htaken⟩ := hholds.getNextMessage hnext
    rcases run_dhcpPass hholds.writeJson hrun with
      ⟨reply, packet, hr, rfl, hp⟩ | ⟨hr, rfl⟩
    · refine matched_event (.execute hr)
        (.fromDhcp _ hcli hcore hempty htaken ?_ hfrom') rfl
      rwa [hfrom, List.nil_append, List.flatten_singleton]
    · have hsilent : c.fromDhcp ++ [].flatten = [] := by rw [hfrom]; rfl
      exact matched_event (.executeUnanswered hr) (.lost (Or.inr ⟨Or.inr hempty, htaken⟩)
        (Or.inr ⟨hcli, hfrom', Or.inr (Or.inr (Or.inr ⟨hcore, hempty, hsilent, htaken⟩))⟩)) rfl
  | dhcpPassStops _ hnext hrun =>
    obtain ⟨rfl, htaken⟩ := hholds.getNextMessage hnext
    obtain ⟨hr, rfl⟩ := run_dhcpPass_error hholds.writeJson hrun
    have hsilent : c.fromDhcp ++ [].flatten = [] := by rw [hfrom]; rfl
    exact matched_event (.executeUnanswered hr) (.lost (Or.inl nofun)
      (Or.inr ⟨hcli, hfrom', Or.inr (Or.inl ⟨nofun, hsilent⟩)⟩)) rfl
  | serve _ _ _ =>
    exact matched_same hserves (.atDhcp hcli hcore hdhcp hempty hholds hfrom hfrom') rfl
  | serveStops _ _ _ =>
    exact matched_via hserves (.loseRequest _) (.lost (Or.inl nofun)
      (Or.inr ⟨hcli, hfrom', Or.inr (Or.inl ⟨nofun, hfrom⟩)⟩)) rfl

theorem fromDhcp_step {reply : ApiMessage T} (hcli : c.cli = .waiting) (hcore : c.core = .waiting)
    (hempty : c.toCore.Empty) (hempty' : c.toDhcp.Empty)
    (hp : ApiMessage.IsPacket c.fromDhcp reply) (hfrom' : c.fromCore = [])
    (hstep : ChainStep c a c') : Matched c (.answered request reply.resent) a c' := by
  have hserves := serves_of_step hstep
  cases hstep with
  | call hready _ =>
    rw [hcli] at hready
    cases hready
  | callStops hready _ =>
    rw [hcli] at hready
    cases hready
  | «return» _ htakes hreply =>
    rw [hfrom'] at htakes
    obtain ⟨-, e, he⟩ := ApiConnector.whaitReply_nil (T := T) htakes
    rw [hreply] at he
    cases he
  | returnStops _ _ _ =>
    exact matched_via hserves (.loseReply _ _)
      (.lost (Or.inr ⟨Or.inr hempty, hempty'⟩) (Or.inl rfl)) rfl
  | coreReceives _ htakes hrun =>
    have hempty := hempty.receives htakes hrun
    exact matched_same hserves (.fromDhcp _ hcli hcore hempty hempty' hp hfrom') rfl
  | coreReceiveStops _ htakes hrun => exact absurd hrun (hempty.not_receiveStops htakes)
  | corePass _ hnext _ => exact absurd hnext hempty.not_getNextMessage
  | corePassOver _ hnext _ => exact absurd hnext hempty.not_getNextMessage
  | corePassFails _ hnext _ => exact absurd hnext hempty.not_getNextMessage
  | coreReturns _ htakes hreply =>
    obtain ⟨rfl, rfl, hp'⟩ := Core.sendReply_eq_ok hp htakes hreply
    refine matched_same hserves (.fromCore _ hcli rfl hempty hempty' rfl ?_) rfl
    rwa [hfrom', List.nil_append]
  | coreReturnFails _ _ _ =>
    exact matched_via hserves (.loseReply _ _) (.lost (Or.inr ⟨Or.inr hempty, hempty'⟩)
      (Or.inr ⟨hcli, hfrom', mute_of_empty (Core.afterCatch_ne_waiting _) hempty⟩)) rfl
  | dhcpReceives _ htakes hrun =>
    have hempty' := hempty'.receives htakes hrun
    exact matched_same hserves (.fromDhcp _ hcli hcore hempty hempty' hp hfrom') rfl
  | dhcpReceiveStops _ htakes hrun => exact absurd hrun (hempty'.not_receiveStops htakes)
  | dhcpPass _ hnext _ => exact absurd hnext hempty'.not_getNextMessage
  | dhcpPassStops _ hnext _ => exact absurd hnext hempty'.not_getNextMessage
  | serve _ _ _ =>
    exact matched_same hserves (.fromDhcp _ hcli hcore hempty hempty' hp hfrom') rfl
  | serveStops _ _ _ =>
    exact matched_same hserves (.fromDhcp _ hcli hcore hempty hempty' hp hfrom') rfl

omit [LawfulJsonWriter T] in
theorem fromCore_step {reply : ApiMessage T} (hcli : c.cli = .waiting) (hcore : c.core = .ready)
    (hempty : c.toCore.Empty) (hempty' : c.toDhcp.Empty)
    (hfrom : c.fromDhcp = []) (hp : ApiMessage.IsPacket c.fromCore reply)
    (hstep : ChainStep c a c') : Matched c (.answered request reply) a c' := by
  have hserves := serves_of_step hstep
  cases hstep with
  | call hready _ =>
    rw [hcli] at hready
    cases hready
  | callStops hready _ =>
    rw [hcli] at hready
    cases hready
  | «return» _ htakes hreply =>
    obtain ⟨rfl, rfl⟩ := ApiConnector.eq_of_whaitReply hp htakes hreply
    exact matched_event (.return _ _ _)
      (.idle nofun hcore hempty hempty' hfrom rfl) rfl
  | returnStops _ _ _ =>
    exact matched_via hserves (.loseReply _ _)
      (.lost (Or.inr ⟨Or.inr hempty, hempty'⟩) (Or.inl rfl)) rfl
  | coreReceives _ htakes hrun =>
    have hempty := hempty.receives htakes hrun
    exact matched_same hserves (.fromCore _ hcli hcore hempty hempty' hfrom hp) rfl
  | coreReceiveStops _ htakes hrun => exact absurd hrun (hempty.not_receiveStops htakes)
  | corePass _ hnext _ => exact absurd hnext hempty.not_getNextMessage
  | corePassOver _ hnext _ => exact absurd hnext hempty.not_getNextMessage
  | corePassFails _ hnext _ => exact absurd hnext hempty.not_getNextMessage
  | coreReturns hwaiting _ _ =>
    rw [hcore] at hwaiting
    cases hwaiting
  | coreReturnFails hwaiting _ _ =>
    rw [hcore] at hwaiting
    cases hwaiting
  | dhcpReceives _ htakes hrun =>
    have hempty' := hempty'.receives htakes hrun
    exact matched_same hserves (.fromCore _ hcli hcore hempty hempty' hfrom hp) rfl
  | dhcpReceiveStops _ htakes hrun => exact absurd hrun (hempty'.not_receiveStops htakes)
  | dhcpPass _ hnext _ => exact absurd hnext hempty'.not_getNextMessage
  | dhcpPassStops _ hnext _ => exact absurd hnext hempty'.not_getNextMessage
  | serve _ _ _ =>
    exact matched_same hserves (.fromCore _ hcli hcore hempty hempty' hfrom hp) rfl
  | serveStops _ _ _ =>
    exact matched_same hserves (.fromCore _ hcli hcore hempty hempty' hfrom hp) rfl

/-- Each step of the chain is what a caller next to the server could do. -/
theorem Tracks.step {status : CallStatus (ApiMessage T) (ApiMessage T)} (h : c.Tracks status)
    (hstep : ChainStep c a c') : Matched c status a c' := by
  cases h with
  | idle hcli hcore hempty hempty' hfrom hfrom' =>
    exact idle_step hcli hcore hempty hempty' hfrom hfrom' hstep
  | atCore hcli hcore hdhcp hholds hempty hfrom hfrom' =>
    exact atCore_step hcli hcore hdhcp hholds hempty hfrom hfrom' hstep
  | atDhcp hcli hcore hdhcp hempty hholds hfrom hfrom' =>
    exact atDhcp_step hcli hcore hdhcp hempty hholds hfrom hfrom' hstep
  | fromDhcp _ hcli hcore hempty hempty' hp hfrom' =>
    exact fromDhcp_step hcli hcore hempty hempty' hp hfrom' hstep
  | fromCore _ hcli hcore hempty hempty' hfrom hp =>
    exact fromCore_step hcli hcore hempty hempty' hfrom hp hstep
  | late hcarries hdeaf => exact late_step hcarries hdeaf hstep
  | lost hquiet hdeaf => exact lost_step hquiet hdeaf hstep

end Chain

end

end Klevret
