import Klevret.Api.ApiConnector
import Klevret.Foundation.RemoteCalls
import Klevret.Server.Steps

/-! # The chain of the processes

The command line, the core and the DHCP server, with the four streams between
them. Each stream is read in chunks of any size. A process that receives an
unreadable chunk in its listener stops, and so do the command line on an
unreadable reply and the server on a datagram that its main loop cannot handle;
the core reports an unreadable reply and goes on.
-/

namespace Klevret

open Foundation PropertyTree

/-- What the main loop of a process does; it has stopped when an exception left it. -/
inductive Phase where
  | ready
  | waiting
  | stopped
  deriving DecidableEq

/-- A stream to a listener, with the listener. -/
structure Inbox (T : Type) where
  stream : List UInt8
  listener : ApiListener T

/-- The processes and what is between them. -/
structure Chain [Host] (T : Type) where
  cli : Phase
  toCore : Inbox T
  core : Phase
  toDhcp : Inbox T
  dhcp : Phase
  dhcpServer : DhcpServer
  fromDhcp : List UInt8
  fromCore : List UInt8

/-- What happens in the chain; `serve` is a pass of the main loop of the server. -/
inductive ChainOp (T : Type) where
  | call (request : ApiMessage T)
  | return (reply : ApiMessage T)
  | cliStops
  | coreReceives
  | corePass
  | coreReturns
  | dhcpReceives
  | dhcpPass (request : ApiMessage T)
  | serve

/-- The main loop of the core after the `try` block was left by an exception. -/
def Core.afterCatch : Stop → Phase
  | .throws _ => .ready
  | _ => .stopped

namespace Inbox

variable {T : Type} {inbox : Inbox T} {message : ApiMessage T}

def push (inbox : Inbox T) (packet : List UInt8) : Inbox T :=
  { inbox with stream := inbox.stream ++ packet }

def Empty (inbox : Inbox T) : Prop := inbox.stream = [] ∧ inbox.listener.queue = []

def Holds [PropertyTree T] (inbox : Inbox T) (message : ApiMessage T) : Prop :=
  ∃ packet, ApiMessage.IsPacket packet message ∧
    (inbox.stream = packet ∧ inbox.listener.queue = [] ∨
      inbox.stream = [] ∧ inbox.listener.queue = [message])

end Inbox

section Step

variable [Host] {T : Type} [PropertyTree T]

/-- The processes take turns in any order, and streams are cut in any way. -/
inductive ChainStep : Chain T → ChainOp T → Chain T → Prop
  | call {c : Chain T} {obj : T} {packet : List UInt8} {request : ApiMessage T} :
      c.cli = .ready → Cli.sendCmd obj = .ok (packet, request) →
      ChainStep c (.call request) { c with cli := .waiting, toCore := c.toCore.push packet }
  | callStops {c : Chain T} {obj : T} {e : Stop} :
      c.cli = .ready → Cli.sendCmd obj = .error e →
      ChainStep c .cliStops { c with cli := .stopped }
  | return {c : Chain T} {received : Received} {rest : List UInt8} {reply : ApiMessage T} :
      c.cli = .waiting → Takes received c.fromCore rest →
      ApiConnector.whaitReply received = .ok reply →
      ChainStep c (.return reply) { c with cli := .ready, fromCore := rest }
  | returnStops {c : Chain T} {received : Received} {rest : List UInt8} {e : Stop} :
      c.cli = .waiting → Takes received c.fromCore rest →
      (ApiConnector.whaitReply received : Exec (ApiMessage T)) = .error e →
      ChainStep c .cliStops { c with cli := .stopped, fromCore := rest }
  | coreReceives {c : Chain T} {received : Received} {rest : List UInt8}
      {listener : ApiListener T} : c.core ≠ .stopped → Takes received c.toCore.stream rest →
      (ApiListener.threadPass received).run c.toCore.listener = .ok () listener →
      ChainStep c .coreReceives { c with toCore := ⟨rest, listener⟩ }
  | coreReceiveStops {c : Chain T} {received : Received} {rest : List UInt8}
      {listener : ApiListener T} {e : Stop} : c.core ≠ .stopped →
      Takes received c.toCore.stream rest →
      (ApiListener.threadPass received).run c.toCore.listener = .error e listener →
      ChainStep c .coreReceives { c with core := .stopped, toCore := ⟨rest, listener⟩ }
  | corePass {c : Chain T} {message sent : ApiMessage T} {listener : ApiListener T}
      {packet : List UInt8} : c.core = .ready →
      ApiListener.getNextMessage.run c.toCore.listener = .ok message listener →
      Core.forward message = .ok (some (packet, sent)) →
      ChainStep c .corePass { c with
        core := .waiting
        toCore := { c.toCore with listener }
        toDhcp := c.toDhcp.push packet }
  | corePassOver {c : Chain T} {message : ApiMessage T} {listener : ApiListener T} :
      c.core = .ready →
      ApiListener.getNextMessage.run c.toCore.listener = .ok message listener →
      Core.forward message = .ok none →
      ChainStep c .corePass { c with toCore := { c.toCore with listener } }
  | corePassFails {c : Chain T} {message : ApiMessage T} {listener : ApiListener T} {e : Stop} :
      c.core = .ready →
      ApiListener.getNextMessage.run c.toCore.listener = .ok message listener →
      Core.forward message = .error e →
      ChainStep c .corePass { c with
        core := Core.afterCatch e
        toCore := { c.toCore with listener } }
  | coreReturns {c : Chain T} {received : Received} {rest packet : List UInt8}
      {reply : ApiMessage T} : c.core = .waiting → Takes received c.fromDhcp rest →
      Core.sendReply received = .ok (packet, reply) →
      ChainStep c .coreReturns { c with
        core := .ready
        fromDhcp := rest
        fromCore := c.fromCore ++ packet }
  | coreReturnFails {c : Chain T} {received : Received} {rest : List UInt8} {e : Stop} :
      c.core = .waiting → Takes received c.fromDhcp rest →
      (Core.sendReply received : Exec (List UInt8 × ApiMessage T)) = .error e →
      ChainStep c .coreReturns { c with core := Core.afterCatch e, fromDhcp := rest }
  | dhcpReceives {c : Chain T} {received : Received} {rest : List UInt8}
      {listener : ApiListener T} : c.dhcp ≠ .stopped → Takes received c.toDhcp.stream rest →
      (ApiListener.threadPass received).run c.toDhcp.listener = .ok () listener →
      ChainStep c .dhcpReceives { c with toDhcp := ⟨rest, listener⟩ }
  | dhcpReceiveStops {c : Chain T} {received : Received} {rest : List UInt8}
      {listener : ApiListener T} {e : Stop} : c.dhcp ≠ .stopped →
      Takes received c.toDhcp.stream rest →
      (ApiListener.threadPass received).run c.toDhcp.listener = .error e listener →
      ChainStep c .dhcpReceives { c with dhcp := .stopped, toDhcp := ⟨rest, listener⟩ }
  | dhcpPass {c : Chain T} {request : ApiMessage T} {listener : ApiListener T}
      {dhcpServer : DhcpServer} {sent : List (List UInt8)} : c.dhcp = .ready →
      ApiListener.getNextMessage.run c.toDhcp.listener = .ok request listener →
      (ApiServer.handle request).run ⟨c.dhcpServer, []⟩ = .ok () ⟨dhcpServer, sent⟩ →
      ChainStep c (.dhcpPass request) { c with
        toDhcp := { c.toDhcp with listener }
        dhcpServer
        fromDhcp := c.fromDhcp ++ sent.flatten }
  | dhcpPassStops {c : Chain T} {request : ApiMessage T} {listener : ApiListener T}
      {dhcpServer : DhcpServer} {sent : List (List UInt8)} {e : Stop} : c.dhcp = .ready →
      ApiListener.getNextMessage.run c.toDhcp.listener = .ok request listener →
      (ApiServer.handle request).run ⟨c.dhcpServer, []⟩ = .error e ⟨dhcpServer, sent⟩ →
      ChainStep c (.dhcpPass request) { c with
        dhcp := .stopped
        toDhcp := { c.toDhcp with listener }
        dhcpServer
        fromDhcp := c.fromDhcp ++ sent.flatten }
  | serve {c : Chain T} {front : Option UdpPacketWithInfo} {state state' : ServerState} :
      c.dhcp = .ready → state.toDhcpServer = c.dhcpServer →
      state.perform (.pass front) = (.ok (), state') →
      ChainStep c .serve { c with dhcpServer := state'.toDhcpServer }
  | serveStops {c : Chain T} {front : Option UdpPacketWithInfo} {state state' : ServerState}
      {e : Stop} : c.dhcp = .ready → state.toDhcpServer = c.dhcpServer →
      state.perform (.pass front) = (.error e, state') →
      ChainStep c .serve { c with dhcp := .stopped, dhcpServer := state'.toDhcpServer }

end Step

namespace Inbox

variable {T : Type} [PropertyTree T] {inbox : Inbox T} {message other : ApiMessage T}
  {received : Received} {rest packet : List UInt8} {listener : ApiListener T}

theorem Empty.holds_push (h : inbox.Empty) (hp : ApiMessage.IsPacket packet message) :
    (inbox.push packet).Holds message := by
  obtain ⟨hstream, hqueue⟩ := h
  refine ⟨packet, hp, Or.inl ⟨?_, hqueue⟩⟩
  rw [push, hstream, List.nil_append]

theorem Empty.receive (h : inbox.Empty) (htakes : Takes received inbox.stream rest) :
    rest = [] ∧ (ApiListener.threadPass received).run inbox.listener = .ok () inbox.listener := by
  obtain ⟨hstream, -⟩ := h
  rw [hstream] at htakes
  cases received with
  | error => exact ⟨htakes, rfl⟩
  | read chunk fits =>
    obtain ⟨rfl, rfl⟩ := List.append_eq_nil_iff.mp htakes
    exact ⟨rfl, rfl⟩

theorem Empty.receives (h : inbox.Empty) (htakes : Takes received inbox.stream rest)
    (hrun : (ApiListener.threadPass received).run inbox.listener = .ok () listener) :
    Empty ⟨rest, listener⟩ := by
  obtain ⟨rfl, hkeep⟩ := h.receive htakes
  obtain ⟨-, rfl⟩ := (EStateM.Result.ok.injEq ..).mp (hkeep.symm.trans hrun)
  exact ⟨rfl, h.2⟩

theorem Empty.not_receiveStops {e : Stop} (h : inbox.Empty)
    (htakes : Takes received inbox.stream rest) :
    (ApiListener.threadPass received).run inbox.listener ≠ .error e listener := by
  rw [(h.receive htakes).2]
  exact nofun

omit [PropertyTree T] in
theorem Empty.not_getNextMessage (h : inbox.Empty) :
    ApiListener.getNextMessage.run inbox.listener ≠ .ok message listener := by
  obtain ⟨stream, ⟨queue⟩⟩ := inbox
  obtain ⟨-, rfl⟩ : stream = [] ∧ queue = [] := h
  exact nofun

theorem Holds.getNextMessage (h : inbox.Holds message)
    (hrun : ApiListener.getNextMessage.run inbox.listener = .ok other listener) :
    other = message ∧ Empty { inbox with listener } := by
  obtain ⟨stream, ⟨queue⟩⟩ := inbox
  obtain ⟨packet, -, ⟨-, rfl⟩ | ⟨rfl, rfl⟩⟩ := h
  · exact absurd hrun nofun
  · obtain ⟨rfl, rfl⟩ := (EStateM.Result.ok.injEq ..).mp hrun
    exact ⟨rfl, rfl, rfl⟩

theorem Holds.receives [LawfulPropertyTree T] [LawfulJsonReader T] (h : inbox.Holds message)
    (htakes : Takes received inbox.stream rest)
    (hrun : (ApiListener.threadPass received).run inbox.listener = .ok () listener) :
    Holds ⟨rest, listener⟩ message := by
  obtain ⟨stream, ⟨queue⟩⟩ := inbox
  cases received with
  | error =>
    obtain rfl : rest = stream := htakes
    obtain ⟨-, rfl⟩ := (EStateM.Result.ok.injEq ..).mp hrun
    exact h
  | read chunk fits =>
    by_cases hnil : chunk = []
    · subst hnil
      obtain rfl : rest = stream := htakes
      obtain ⟨-, rfl⟩ := (EStateM.Result.ok.injEq ..).mp hrun
      exact h
    have hlen := List.length_pos_iff.mpr hnil
    obtain ⟨packet, hp, ⟨rfl, rfl⟩ | ⟨rfl, rfl⟩⟩ := h
    · cases hm : (ApiMessage.deserialize chunk : Exec (ApiMessage T)) with
      | error e => simp [ApiListener.threadPass, hlen, hm] at hrun
      | ok received =>
        obtain ⟨rfl, rfl⟩ := ApiMessage.eq_of_deserialize hp htakes hm
        obtain rfl : (⟨[received]⟩ : ApiListener T) = listener := by
          simpa [ApiListener.threadPass, hlen, hm] using hrun
        exact ⟨_, hp, Or.inr ⟨rfl, rfl⟩⟩
    · obtain ⟨rfl, -⟩ := List.append_eq_nil_iff.mp htakes
      exact absurd rfl hnil

theorem Holds.writeJson (h : inbox.Holds message) :
    ∃ document, PropertyTree.writeJson message.json = .ok document := by
  obtain ⟨packet, hp, -⟩ := h
  exact ApiMessage.writeJson_of_isPacket hp

end Inbox

end Klevret
