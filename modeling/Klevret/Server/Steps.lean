import Klevret.Pool.Invariant
import Klevret.Server.Passes

/-! # Runs of the server

A step is a pass of the main loop that comes to its end, or a call of
`add_address_pool` with a pool that was constructed and used before. Passes and
calls come in any order.
-/

namespace Klevret

open Foundation

section

variable [Host]

inductive ServerOp where
  | pass (front : Option UdpPacketWithInfo)
  | addAddressPool (pool : AddressPool) (error : String)

namespace ServerState

def perform (state : ServerState) : ServerOp → Exec Unit × ServerState
  | .pass front => observe ((mainLoopPass front).run state)
  | .addAddressPool pool error =>
    (.ok (), { state with toDhcpServer := (state.toDhcpServer.addAddressPool pool error).2 })

/-- A pass does not throw, and a pool is one that the program can build. -/
inductive ServerStep : ServerState → ServerOp → ServerState → Prop
  | pass {state state' : ServerState} {front : Option UdpPacketWithInfo} :
      perform state (.pass front) = (.ok (), state') → ServerStep state (.pass front) state'
  | addAddressPool {state state' : ServerState} {pool : AddressPool} {error : String} :
      pool.Reachable → perform state (.addAddressPool pool error) = (.ok (), state') →
      ServerStep state (.addAddressPool pool error) state'

/-- The request that a pass acknowledges. -/
def answered (state : ServerState) : ServerOp → Option DhcpMessage
  | .pass (some packet) =>
    if state.haveFreeAddress then
      match DhcpMessage.new packet.data with
      | .ok message => if message.Asks .dhcprequest then some message else none
      | .error _ => none
    else none
  | _ => none

/-- When the main loop begins there are no pools, no transactions and no messages. -/
structure Started (state : ServerState) : Prop where
  addressPools : state.addressPools = []
  xids : state.xids = ∅
  sent : state.sent = []

variable {state state' : ServerState} {packet : UdpPacketWithInfo} {message : DhcpMessage}
  {front : Option UdpPacketWithInfo}

theorem ServerStep.perform_eq {op : ServerOp} (h : ServerStep state op state') :
    perform state op = (.ok (), state') := by
  cases h with
  | pass h => exact h
  | addAddressPool _ h => exact h

theorem deterministic_serverStep : Deterministic ServerStep := by
  intro state op t t' h h'
  exact congrArg Prod.snd (h.perform_eq.symm.trans h'.perform_eq)

/-- Perform calls one after the other, as long as each meets the check and none throws. -/
def performAll (check : ServerState → ServerOp → Bool) (state : ServerState) :
    List ServerOp → Option ServerState
  | [] => some state
  | op :: ops =>
    if check state op then
      match perform state op with
      | (.ok (), next) => performAll check next ops
      | (.error _, _) => none
    else none

theorem run_performAll {check : ServerState → ServerOp → Bool} {ops : List ServerOp}
    (h : performAll check state ops = some state')
    (hp : ∀ pool error, ServerOp.addAddressPool pool error ∈ ops → pool.Reachable) :
    Run (Guarded ServerStep fun s op => check s op = true) state ops state' := by
  induction ops generalizing state with
  | nil =>
    obtain rfl := Option.some.inj h
    exact .nil state
  | cons op ops ih =>
    obtain ⟨outcome, next, hn⟩ : ∃ outcome next, perform state op = (outcome, next) :=
      ⟨_, _, rfl⟩
    by_cases hc : check state op = true
    · cases outcome with
      | error e => simp [performAll, hc, hn] at h
      | ok a =>
        simp only [performAll, hc, hn, if_true] at h
        refine .cons ⟨?_, hc⟩
          (ih h fun pool error hmem => hp pool error (List.mem_cons_of_mem _ hmem))
        cases op with
        | pass front => exact .pass hn
        | addAddressPool pool error => exact .addAddressPool (hp pool error List.mem_cons_self) hn
    · simp [performAll, hc] at h

theorem run_mainLoopPass (hfree : state.haveFreeAddress = true) :
    (mainLoopPass (some packet)).run state = (handleDatagram packet).run state := by
  simp [mainLoopPass, hfree]

theorem run_mainLoopPass_idle (hfree : ¬ state.haveFreeAddress = true) :
    (mainLoopPass front).run state = .ok () state := by
  simp [mainLoopPass, hfree]

theorem haveFreeAddress_iff : state.haveFreeAddress = true ↔
    ∃ pool pools, state.addressPools = pool :: pools := by
  cases h : state.addressPools with
  | nil => simp [DhcpServer.haveFreeAddress, h]
  | cons pool pools => simp [DhcpServer.haveFreeAddress, h]

/-- A datagram that is handled to the end came in on a known interface and was accepted. -/
theorem handled_of_run (h : (handleDatagram packet).run state = .ok () state')
    (hfree : state.haveFreeAddress = true) :
    ∃ message, DhcpMessage.new packet.data = .ok message ∧ Handled state message state' := by
  by_cases hi : ∃ interface, Receives state packet interface
  · obtain ⟨interface, hi⟩ := hi
    cases hm : DhcpMessage.new packet.data with
    | error e => simp [run_rejected hi hm] at h
    | ok message =>
      refine ⟨message, rfl, ?_⟩
      obtain ⟨mac, hmac⟩ := DhcpMessage.chaddr_of_new hm
      by_cases hd : message.Asks .dhcpdiscover
      · obtain ⟨pool, pools, hp⟩ := haveFreeAddress_iff.mp hfree
        cases hg : (AddressPool.getAddress mac).run pool with
        | ok ip pool' =>
          obtain ⟨data, dst, hrun⟩ := run_discover hi hm hd hmac hp hg
          obtain ⟨-, rfl⟩ := (EStateM.Result.ok.injEq ..).mp (hrun.symm.trans h)
          exact .offered data dst hd hmac hp hg
        | error e pool' => simp [run_discover_refused hi hm hd hmac hp hg] at h
      · by_cases hr : message.Asks .dhcprequest
        · obtain ⟨data, dst, hrun⟩ := run_request hi hm hr hmac
          obtain ⟨-, rfl⟩ := (EStateM.Result.ok.injEq ..).mp (hrun.symm.trans h)
          exact .acknowledged data dst hr hmac
        · rw [run_ignored hi hm hd hr] at h
          obtain ⟨-, rfl⟩ := (EStateM.Result.ok.injEq ..).mp h
          exact .ignored hd hr
  · rw [run_unknown fun interface hr => hi ⟨interface, hr⟩] at h
    simp at h

theorem ServerStep.handled (h : ServerStep state (.pass (some packet)) state')
    (hfree : state.haveFreeAddress = true) :
    ∃ message, DhcpMessage.new packet.data = .ok message ∧ Handled state message state' := by
  have hrun := observe_eq_ok.mp h.perform_eq
  rw [run_mainLoopPass hfree] at hrun
  exact handled_of_run hrun hfree

/-- A pass does nothing, or it handles an accepted message while there is a pool. -/
theorem ServerStep.pass_cases (h : ServerStep state (.pass front) state') :
    state' = state ∨ ∃ packet message, front = some packet ∧ state.haveFreeAddress = true ∧
      DhcpMessage.new packet.data = .ok message ∧ Handled state message state' := by
  by_cases hfree : state.haveFreeAddress = true
  · cases front with
    | none =>
      have hidle : (mainLoopPass none).run state = .ok () state := by simp [mainLoopPass]
      have hrun := observe_eq_ok.mp h.perform_eq
      exact Or.inl ((EStateM.Result.ok.injEq ..).mp (hidle.symm.trans hrun)).2.symm
    | some packet =>
      obtain ⟨message, hm, hh⟩ := h.handled hfree
      exact Or.inr ⟨packet, message, rfl, hfree, hm, hh⟩
  · have hrun := observe_eq_ok.mp h.perform_eq
    rw [run_mainLoopPass_idle hfree] at hrun
    exact Or.inl ((EStateM.Result.ok.injEq ..).mp hrun).2.symm

theorem mem_answered {op : ServerOp} : message ∈ state.answered op ↔
    ∃ packet, op = .pass (some packet) ∧ state.haveFreeAddress = true ∧
      DhcpMessage.new packet.data = .ok message ∧ message.Asks .dhcprequest := by
  cases op with
  | addAddressPool pool error => simp [answered]
  | pass front =>
    cases front with
    | none => simp [answered]
    | some packet =>
      by_cases hfree : state.haveFreeAddress = true
      · cases hm : DhcpMessage.new packet.data with
        | error e => simp [answered, hm]
        | ok m =>
          simp only [answered, hfree, hm, if_true, Option.mem_def, ServerOp.pass.injEq,
            Option.some.injEq, exists_eq_left', Except.ok.injEq, true_and]
          split_ifs with ha
          · constructor
            · intro he
              obtain rfl := Option.some.inj he
              exact ⟨rfl, ha⟩
            · rintro ⟨rfl, -⟩
              rfl
          · constructor
            · intro he
              simp at he
            · rintro ⟨rfl, ha'⟩
              exact absurd ha' ha
      · simp [answered, hfree]

theorem ServerStep.add_cases {pool : AddressPool} {error : String}
    (h : ServerStep state (.addAddressPool pool error) state') :
    pool.Reachable ∧
      (state' = state ∨ state' = { state with addressPools := state.addressPools ++ [pool] }) := by
  cases h with
  | addAddressPool hpool hp =>
    refine ⟨hpool, ?_⟩
    have hs := congrArg Prod.snd hp
    simp only [perform, DhcpServer.addAddressPool] at hs
    split_ifs at hs with hx
    · exact Or.inl hs.symm
    · exact Or.inr hs.symm

end ServerState

end

/-- A request of the client with this MAC address, on the interface with index 2. -/
def samplePacket (messageType : Option53MessageType) (xid mac : UInt8) : UdpPacketWithInfo where
  data := [1, 1, 6, 0, 0, 0, 0, xid] ++ List.replicate 20 0 ++ [2, 0, 0, 0, 0, mac] ++
    List.replicate 202 0 ++ [99, 130, 83, 99, 53, 1, messageType, 255]
  interfaceIndex := 2

/-- A server with one interface, on a little-endian host. -/
def sampleServer : @ServerState ⟨.little⟩ :=
  letI : Host := ⟨.little⟩
  { networkInterfaces := [⟨2, .inl (AddressPool.sampleIp 255)⟩]
    addressPools := []
    xids := ∅
    sent := [] }

/-- Add the sample pool, then handle the datagrams. -/
def sampleOps (packets : List UdpPacketWithInfo) : List (@ServerOp ⟨.little⟩) :=
  letI : Host := ⟨.little⟩
  .addAddressPool AddressPool.samplePool "" :: packets.map fun packet => .pass (some packet)

namespace ServerState

theorem started_sampleServer :
    letI : Host := ⟨.little⟩
    Started sampleServer := by
  let host : Host := ⟨.little⟩
  exact ⟨rfl, rfl, rfl⟩

theorem run_sampleOps {α : Type} (check : @ServerState ⟨.little⟩ → @ServerOp ⟨.little⟩ → Bool)
    (packets : List UdpPacketWithInfo) (f : @ServerState ⟨.little⟩ → α) (a : α)
    (h : (@performAll ⟨.little⟩ check sampleServer (sampleOps packets)).map f = some a) :
    letI : Host := ⟨.little⟩
    ∃ state, Run (Guarded ServerStep fun s op => check s op = true) sampleServer
      (sampleOps packets) state ∧ f state = a := by
  let host : Host := ⟨.little⟩
  obtain ⟨state, hs, hf⟩ := Option.map_eq_some_iff.mp h
  refine ⟨state, run_performAll hs ?_, hf⟩
  intro pool error hmem
  obtain ⟨rfl, -⟩ : pool = AddressPool.samplePool ∧ error = "" := by simpa [sampleOps] using hmem
  exact AddressPool.reachable_samplePool

end ServerState

end Klevret
