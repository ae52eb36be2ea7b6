import Klevret.Server.MainLoop

/-! # The threads in any order

Whatever the order in which the threads run, the main loop handles the datagrams
as they were received, each at most once and none skipped, and does what a run of
whole passes does. Between the lease and the offer that run is one offer ahead.
-/

namespace Klevret

open Foundation

deriving instance DecidableEq for UdpPacketWithInfo

section

variable [Host]

/-- A pass of the UDP thread, a call from the thread of the API, or an advance of the main loop. -/
inductive ProcessOp where
  | receive (received : UdpServer.Received)
  | addAddressPool (pool : AddressPool) (error : String)
  | mainLoop (handled : Option UdpPacketWithInfo)

namespace Process

/-- No thread throws, since that would end the program. -/
inductive ProcessStep : Process → ProcessOp → Process → Prop
  | receive {p : Process} {received : UdpServer.Received} {udpServer : UdpServer} :
      (UdpServer.threadPass received).run p.udpServer = .ok () udpServer →
      ProcessStep p (.receive received) { p with udpServer }
  | addAddressPool {p : Process} {pool : AddressPool} {error : String} {server : ServerState} :
      p.server.ServerStep (.addAddressPool pool error) server →
      ProcessStep p (.addAddressPool pool error) { p with server }
  | mainLoop {p q : Process} {handled : Option UdpPacketWithInfo} :
      advance.run p = .ok handled q → ProcessStep p (.mainLoop handled) q

/-- The main loop is at its beginning, and nothing was received. -/
structure Begins (p : Process) : Prop where
  queue : p.udpServer.queue = []
  control : p.control = .start

/-- What the main loop has found out stays true. -/
structure Sound (p : Process) : Prop where
  ready : p.control = .ready → p.udpServer.queue ≠ []
  free : p.control ≠ .start → p.server.haveFreeAddress = true
  leased {pending : PendingOffer} : p.control = .leased pending →
    ∃ mac, pending.dhcpPacket.chaddr = some mac

/-- The server once the offer that is due is sent. -/
def settled (p : Process) : ServerState :=
  match p.control with
  | .leased pending => (observe ((ServerState.sendOffer pending).run p.server)).2
  | _ => p.server

def waiting (p : Process) : List UdpPacketWithInfo :=
  match p.control with
  | .received packet => packet :: p.udpServer.queue
  | _ => p.udpServer.queue

end Process

namespace ProcessOp

def received : ProcessOp → List UdpPacketWithInfo
  | .receive received => UdpServer.datagramsOf received
  | _ => []

def handled : ProcessOp → List UdpPacketWithInfo
  | .mainLoop (some packet) => [packet]
  | _ => []

/-- The step of the server that takes effect. -/
def serverOp : ProcessOp → Option ServerOp
  | .addAddressPool pool error => some (.addAddressPool pool error)
  | .mainLoop (some packet) => some (.pass (some packet))
  | _ => none

end ProcessOp

namespace Process

variable {p q : Process} {op : ProcessOp} {handled : Option UdpPacketWithInfo}
  {ops : List ProcessOp}

theorem Begins.sound (h : Begins p) : Sound p where
  ready hc := absurd (h.control.symm.trans hc) (by simp)
  free hc := absurd h.control hc
  leased hc := absurd (h.control.symm.trans hc) (by simp)

theorem conveys_processStep :
    Conveys ProcessStep waiting ProcessOp.received ProcessOp.handled := by
  intro p op q h
  cases h with
  | @receive received udpServer hrun =>
    have hq := UdpServer.queue_of_threadPass hrun
    cases hc : p.control <;> simp [waiting, ProcessOp.received, ProcessOp.handled, hc, hq]
  | addAddressPool => simp [waiting, ProcessOp.received, ProcessOp.handled]
  | mainLoop hrun =>
    cases advances_of_run hrun with
    | waits hc =>
      rcases hc with hc | hc <;> simp [waiting, ProcessOp.received, ProcessOp.handled, hc]
    | free hc => simp [waiting, ProcessOp.received, ProcessOp.handled, hc]
    | ready hc => simp [waiting, ProcessOp.received, ProcessOp.handled, hc]
    | takes hc hq => simp [waiting, ProcessOp.received, ProcessOp.handled, hc, hq]
    | handles hc => simp [waiting, ProcessOp.received, ProcessOp.handled, hc]
    | leases hc => simp [waiting, ProcessOp.received, ProcessOp.handled, hc]
    | offers hc => simp [waiting, ProcessOp.received, ProcessOp.handled, hc]

theorem haveFreeAddress_of_handleToLease {packet : UdpPacketWithInfo} {pending : PendingOffer}
    {server server' : ServerState}
    (h : (ServerState.handleToLease packet).run server = .ok (some pending) server')
    (hfree : server.haveFreeAddress = true) : server'.haveFreeAddress = true := by
  obtain ⟨mac, hmac⟩ := DhcpMessage.chaddr_of_new (ServerState.new_of_handleToLease h)
  obtain ⟨offer, hoffer⟩ := ServerState.run_sendOffer hmac
  have hrun := (ServerState.run_handleDatagram_of_some h).trans (hoffer server')
  obtain ⟨message, -, hh⟩ := ServerState.handled_of_run hrun hfree
  rw [ServerState.haveFreeAddress_iff] at hfree ⊢
  generalize he : ({ server' with
    xids := server'.xids.insert pending.dhcpPacket.xid pending.ip
    sent := server'.sent ++ [offer] } : ServerState) = state at hh
  have hpools : server'.addressPools = state.addressPools := by rw [← he]
  rw [hpools]
  cases hh with
  | ignored => exact hfree
  | offered => exact ⟨_, _, rfl⟩
  | acknowledged => exact hfree

theorem Sound.step (h : Sound p) (hs : ProcessStep p op q) : Sound q := by
  cases hs with
  | @receive received udpServer hrun =>
    have hq := UdpServer.queue_of_threadPass hrun
    refine ⟨fun hc => ?_, h.free, h.leased⟩
    simp [hq, h.ready hc]
  | @addAddressPool pool error server hadd =>
    refine ⟨h.ready, fun hc => ?_, h.leased⟩
    obtain ⟨first, pools, hp⟩ := ServerState.haveFreeAddress_iff.mp (h.free hc)
    obtain ⟨-, rfl | rfl⟩ := hadd.add_cases
    · exact h.free hc
    · exact ServerState.haveFreeAddress_iff.mpr ⟨first, pools ++ [pool], by simp [hp]⟩
  | mainLoop hrun =>
    cases advances_of_run hrun with
    | waits hc => exact ⟨by simp, by simp, by simp⟩
    | free hc hfree => exact ⟨by simp, fun _ => hfree, by simp⟩
    | ready hc hq => exact ⟨fun _ => hq, fun _ => h.free (by simp [hc]), by simp⟩
    | takes hc hq => exact ⟨by simp, fun _ => h.free (by simp [hc]), by simp⟩
    | handles hc => exact ⟨by simp, by simp, by simp⟩
    | leases hc hl =>
      refine ⟨by simp, fun _ => ?_, ?_⟩
      · exact haveFreeAddress_of_handleToLease hl (h.free (by simp [hc]))
      · intro pending' hc'
        obtain rfl := Control.leased.inj hc'
        exact DhcpMessage.chaddr_of_new (ServerState.new_of_handleToLease hl)
    | offers hc => exact ⟨by simp, by simp, by simp⟩

theorem settled_of_leased {pending : PendingOffer} {mac : MacAddress}
    (hmac : pending.dhcpPacket.chaddr = some mac) :
    ∃ offer, ∀ udpServer server, settled ⟨udpServer, server, .leased pending⟩ = { server with
      xids := server.xids.insert pending.dhcpPacket.xid pending.ip
      sent := server.sent ++ [offer] } := by
  obtain ⟨offer, hoffer⟩ := ServerState.run_sendOffer hmac
  exact ⟨offer, fun udpServer server => by simp [settled, hoffer, observe]⟩

/-- A pool can be added before or after the offer that is due. -/
theorem Sound.settled_add {pool : AddressPool} {error : String} {server : ServerState} (h : Sound p)
    (hs : p.server.ServerStep (.addAddressPool pool error) server) :
    (settled p).ServerStep (.addAddressPool pool error) (settled { p with server }) := by
  cases hs with
  | addAddressPool hpool hrun =>
    obtain ⟨udpServer, before, control⟩ := p
    obtain rfl : { before with
        toDhcpServer := (before.toDhcpServer.addAddressPool pool error).2 } = server :=
      congrArg Prod.snd hrun
    refine .addAddressPool hpool ?_
    cases control with
    | leased pending =>
      obtain ⟨mac, hmac⟩ := h.leased rfl
      obtain ⟨offer, hoffer⟩ := settled_of_leased hmac
      rw [hoffer, hoffer]
      rfl
    | _ => rfl

/-- Every step of the process is a step of the server or none. -/
theorem simulates_processStep :
    Simulates ProcessStep ServerState.ServerStep ProcessOp.serverOp
      fun p state => Sound p ∧ settled p = state where
  matched := by
    rintro p q _ op serverOp ⟨hp, rfl⟩ hs hv
    refine ⟨settled q, ?_, hp.step hs, rfl⟩
    cases hs with
    | receive => simp [ProcessOp.serverOp] at hv
    | addAddressPool hadd =>
      obtain rfl := Option.some.inj hv
      exact hp.settled_add hadd
    | mainLoop hrun =>
      cases advances_of_run hrun with
      | handles hc hl =>
        obtain rfl := Option.some.inj hv
        have hfree := hp.free (by simp [hc])
        have hset : settled p = p.server := by simp [settled, hc]
        rw [hset]
        refine .pass (observe_eq_ok.mpr ?_)
        rw [ServerState.run_mainLoopPass hfree, ServerState.run_handleDatagram_of_none hl]
        rfl
      | @leases packet pending server hc hl =>
        obtain rfl := Option.some.inj hv
        have hfree := hp.free (by simp [hc])
        have hset : settled p = p.server := by simp [settled, hc]
        obtain ⟨mac, hmac⟩ := DhcpMessage.chaddr_of_new (ServerState.new_of_handleToLease hl)
        obtain ⟨offer, hoffer⟩ := ServerState.run_sendOffer hmac
        rw [hset]
        refine .pass (observe_eq_ok.mpr ?_)
        rw [ServerState.run_mainLoopPass hfree, ServerState.run_handleDatagram_of_some hl, hoffer]
        simp [settled, hoffer, observe]
      | _ => simp [ProcessOp.serverOp] at hv
  silent := by
    rintro p q _ op ⟨hp, rfl⟩ hs hv
    refine ⟨hp.step hs, ?_⟩
    cases hs with
    | receive => rfl
    | addAddressPool => simp [ProcessOp.serverOp] at hv
    | mainLoop hrun =>
      cases advances_of_run hrun with
      | waits hc => rcases hc with hc | hc <;> simp [settled, hc]
      | free hc => simp [settled, hc]
      | ready hc => simp [settled, hc]
      | takes hc => simp [settled, hc]
      | offers hc hoffer => simp [settled, hc, hoffer, observe]
      | _ => simp [ProcessOp.serverOp] at hv

theorem sound_of_run (hp : Begins p) (hr : Run ProcessStep p ops q) : Sound q :=
  hr.invariant (fun _ _ _ h hs => h.step hs) hp.sound

/-- In any order of the threads: the datagrams received are those handled, in the same order, and
those that wait. The front of the queue is only taken when there is one, and a pool is only used
when there is one. -/
theorem handled_in_order (hp : Begins p) (hr : Run ProcessStep p ops q) :
    itemsOf ProcessOp.received ops = itemsOf ProcessOp.handled ops ++ q.waiting ∧
      (q.control = .ready → q.udpServer.queue ≠ []) ∧
      (q.control ≠ .start → q.server.addressPools ≠ []) := by
  have hsound := sound_of_run hp hr
  have hwaiting : p.waiting = [] := by simp [waiting, hp.control, hp.queue]
  refine ⟨?_, hsound.ready, fun hc => ?_⟩
  · have hq := conveys_processStep.run hr
    rwa [hwaiting, List.nil_append] at hq
  · obtain ⟨pool, pools, hpools⟩ := ServerState.haveFreeAddress_iff.mp (hsound.free hc)
    simp [hpools]

/-- In any order of the threads, the server does what it does in the run of the calls and of one
whole pass for each datagram that is handled, in their order. Its pools are those of that run, and
it lacks at most the last message. -/
theorem refines_serverStep (hp : Begins p) (hr : Run ProcessStep p ops q) :
    ∃ state, Run ServerState.ServerStep p.server (ops.filterMap ProcessOp.serverOp) state ∧
      q.server.addressPools = state.addressPools ∧
      (q.server.sent = state.sent ∨ ∃ offer, q.server.sent ++ [offer] = state.sent) := by
  have hset : p.settled = p.server := by simp [settled, hp.control]
  obtain ⟨_, hrun, hsound, rfl⟩ := simulates_processStep.run hr ⟨hp.sound, hset⟩
  refine ⟨settled q, hrun, ?_⟩
  obtain ⟨udpServer, server, control⟩ := q
  cases control with
  | leased pending =>
    obtain ⟨mac, hmac⟩ := hsound.leased rfl
    obtain ⟨offer, hoffer⟩ := settled_of_leased hmac
    rw [hoffer]
    exact ⟨rfl, Or.inr ⟨offer, rfl⟩⟩
  | _ => exact ⟨rfl, Or.inl rfl⟩

/-- The process after a step, if the step can be taken. -/
def perform (p : Process) : ProcessOp → Option Process
  | .receive received =>
    match (UdpServer.threadPass received).run p.udpServer with
    | .ok () udpServer => some { p with udpServer }
    | .error _ _ => none
  | .addAddressPool pool error =>
    some { p with server := (p.server.perform (.addAddressPool pool error)).2 }
  | .mainLoop handled =>
    match advance.run p with
    | .ok handled' q => if handled' = handled then some q else none
    | .error _ _ => none

theorem step_of_perform (h : perform p op = some q)
    (hpool : ∀ pool error, op = .addAddressPool pool error → pool.Reachable) :
    ProcessStep p op q := by
  cases op with
  | receive received =>
    cases hrun : (UdpServer.threadPass received).run p.udpServer with
    | ok a udpServer =>
      obtain rfl : { p with udpServer } = q := by simpa [perform, hrun] using h
      exact .receive hrun
    | error e udpServer => simp [perform, hrun] at h
  | addAddressPool pool error =>
    obtain rfl := Option.some.inj h
    exact .addAddressPool (.addAddressPool (hpool pool error rfl) rfl)
  | mainLoop handled =>
    cases hrun : advance.run p with
    | ok handled' q' =>
      obtain ⟨rfl, rfl⟩ : handled' = handled ∧ q' = q := by simpa [perform, hrun] using h
      exact .mainLoop hrun
    | error e q' => simp [perform, hrun] at h

theorem run_foldlM (h : ops.foldlM perform p = some q)
    (hpool : ∀ pool error, ProcessOp.addAddressPool pool error ∈ ops → pool.Reachable) :
    Run ProcessStep p ops q := by
  induction ops generalizing p with
  | nil =>
    obtain rfl := Option.some.inj h
    exact .nil p
  | cons op ops ih =>
    rw [List.foldlM_cons] at h
    obtain ⟨p', hp', h⟩ := Option.bind_eq_some_iff.mp h
    refine .cons (step_of_perform hp' ?_) (ih h fun pool error hmem =>
      hpool pool error (List.mem_cons_of_mem _ hmem))
    rintro pool error rfl
    exact hpool pool error List.mem_cons_self

end Process

end

theorem length_samplePacket (messageType : Option53MessageType) (xid mac : UInt8) :
    (samplePacket messageType xid mac).data.length ≤ UdpServer.BUFFER_SIZE := by
  simp only [samplePacket, UdpServer.BUFFER_SIZE, List.length_append, List.length_replicate,
    List.length_cons, List.length_nil]
  omega

/-- What is received when this request comes in. -/
def sampleReceived (messageType : Option53MessageType) (xid mac : UInt8) : UdpServer.Received :=
  .read (samplePacket messageType xid mac).data (length_samplePacket messageType xid mac)
    (AddressPool.sampleIp 9) [⟨IPPROTO_IP, IP_PKTINFO, 2⟩]

def sampleProcess : @Process ⟨.little⟩ :=
  letI : Host := ⟨.little⟩
  ⟨⟨[]⟩, sampleServer, .start⟩

/-- A second request and a second pool come in while the first request is handled. -/
def sampleProcessOps : List (@ProcessOp ⟨.little⟩) :=
  letI : Host := ⟨.little⟩
  [.receive (sampleReceived .dhcpdiscover 7 1), .mainLoop none,
    .addAddressPool AddressPool.samplePool "", .mainLoop none, .mainLoop none, .mainLoop none,
    .receive (sampleReceived .dhcprequest 7 1), .mainLoop (some (samplePacket .dhcpdiscover 7 1)),
    .addAddressPool AddressPool.samplePool ""]

namespace Process

theorem begins_sampleProcess :
    letI : Host := ⟨.little⟩
    Begins sampleProcess :=
  letI : Host := ⟨.little⟩
  ⟨rfl, rfl⟩

theorem run_sampleProcessOps :
    letI : Host := ⟨.little⟩
    ∃ q, Run ProcessStep sampleProcess sampleProcessOps q := by
  let host : Host := ⟨.little⟩
  have hsome : (sampleProcessOps.foldlM perform sampleProcess).isSome = true := by decide +kernel
  obtain ⟨q, hq⟩ := Option.isSome_iff_exists.mp hsome
  refine ⟨q, run_foldlM hq fun pool error hmem => ?_⟩
  obtain ⟨rfl, -⟩ : pool = AddressPool.samplePool ∧ error = "" := by
    simpa [sampleProcessOps] using hmem
  exact AddressPool.reachable_samplePool

/-- The first datagram is handled and the second one waits. -/
theorem handled_in_order_sample :
    letI : Host := ⟨.little⟩
    ∃ q : Process, itemsOf ProcessOp.received sampleProcessOps =
        itemsOf ProcessOp.handled sampleProcessOps ++ q.waiting ∧
      (q.control = .ready → q.udpServer.queue ≠ []) ∧
      (q.control ≠ .start → q.server.addressPools ≠ []) := by
  let host : Host := ⟨.little⟩
  obtain ⟨q, hr⟩ := run_sampleProcessOps
  exact ⟨q, handled_in_order begins_sampleProcess hr⟩

/-- The pool that is added between the lease and the offer. -/
theorem refines_serverStep_sample :
    letI : Host := ⟨.little⟩
    ∃ q : Process, ∃ state, Run ServerState.ServerStep sampleServer
        (sampleProcessOps.filterMap ProcessOp.serverOp) state ∧
      q.server.addressPools = state.addressPools ∧
      (q.server.sent = state.sent ∨ ∃ offer, q.server.sent ++ [offer] = state.sent) := by
  let host : Host := ⟨.little⟩
  obtain ⟨q, hr⟩ := run_sampleProcessOps
  exact ⟨q, refines_serverStep begins_sampleProcess hr⟩

end Process

end Klevret
