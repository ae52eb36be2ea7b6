import Klevret.Foundation.Progress
import Klevret.Server.Interleaving

/-! # The turns of the main loop

The other threads cannot hold up the main loop: once there is a pool, each
datagram at the front of the queue is handled within five of its turns, however
often datagrams come in and pools are added between them.
-/

namespace Klevret

open Foundation

section

variable [Host]

/-- The main loop runs up to its next access. -/
def ProcessOp.isTurn : ProcessOp → Bool
  | .mainLoop _ => true
  | _ => false

namespace Process

/-- The turns up to the next datagram that is handled, if one waits and there is a pool. -/
def distance (p : Process) : ℕ :=
  match p.control with
  | .start => 4
  | .free => 3
  | .ready => 2
  | .received _ => 1
  | .leased _ => 5

/-- The main loop finds a pool whenever it looks for one. -/
structure Furnished (p : Process) : Prop extends Sound p where
  haveFreeAddress : p.server.haveFreeAddress = true

variable {p q : Process} {op : ProcessOp} {handled : Option UdpPacketWithInfo}
  {ops : List ProcessOp}

theorem run_advance_start (hc : p.control = .start) (hfree : p.server.haveFreeAddress = true) :
    advance.run p = .ok none { p with control := .free } := by
  simp [advance, hc, hfree]

theorem run_advance_free (hc : p.control = .free) (hq : p.udpServer.queue ≠ []) :
    advance.run p = .ok none { p with control := .ready } := by
  obtain ⟨packet, queue, hq⟩ := List.exists_cons_of_ne_nil hq
  simp [advance, hc, UdpServer.isInputQueueBlank, hq]

theorem haveFreeAddress_of_handled {packet : UdpPacketWithInfo} {server server' : ServerState}
    (h : (ServerState.handleDatagram packet).run server = .ok () server')
    (hfree : server.haveFreeAddress = true) : server'.haveFreeAddress = true := by
  obtain ⟨message, -, hh⟩ := ServerState.handled_of_run h hfree
  cases hh with
  | ignored => exact hfree
  | offered => exact ServerState.haveFreeAddress_iff.mpr ⟨_, _, rfl⟩
  | acknowledged => exact hfree

theorem Furnished.step (h : Furnished p) (hs : ProcessStep p op q) : Furnished q where
  toSound := h.toSound.step hs
  haveFreeAddress := by
    have hfree := h.haveFreeAddress
    cases hs with
    | receive => exact hfree
    | @addAddressPool pool error server hadd =>
      obtain ⟨first, pools, hp⟩ := ServerState.haveFreeAddress_iff.mp hfree
      obtain ⟨-, rfl | rfl⟩ := hadd.add_cases
      · exact hfree
      · exact ServerState.haveFreeAddress_iff.mpr ⟨first, pools ++ [pool], by simp [hp]⟩
    | mainLoop hrun =>
      cases advances_of_run hrun with
      | handles hc hl =>
        exact haveFreeAddress_of_handled (ServerState.run_handleDatagram_of_none hl) hfree
      | leases hc hl => exact haveFreeAddress_of_handleToLease hl hfree
      | offers hc hsend =>
        obtain ⟨mac, hmac⟩ := h.leased hc
        obtain ⟨offer, hoffer⟩ := ServerState.run_sendOffer hmac
        obtain ⟨-, rfl⟩ := (EStateM.Result.ok.injEq ..).mp ((hoffer p.server).symm.trans hsend)
        exact hfree
      | _ => exact hfree

/-- A turn comes nearer to the next datagram, or handles it. -/
theorem nearer_of_advance (h : Furnished p) (hwaits : p.waiting ≠ [])
    (hrun : advance.run p = .ok handled q) :
    1 + distance q ≤ distance p + 5 * (ProcessOp.mainLoop handled).handled.length := by
  cases hc : p.control with
  | start =>
    have hnext := (run_advance_start hc h.haveFreeAddress).symm.trans hrun
    obtain ⟨rfl, rfl⟩ := (EStateM.Result.ok.injEq ..).mp hnext
    simp [distance, hc]
  | free =>
    have hq : p.udpServer.queue ≠ [] := by simpa [waiting, hc] using hwaits
    have hnext := (run_advance_free hc hq).symm.trans hrun
    obtain ⟨rfl, rfl⟩ := (EStateM.Result.ok.injEq ..).mp hnext
    simp [distance, hc]
  | ready =>
    cases advances_of_run hrun with
    | takes => simp [distance, hc]
    | waits hc' => simp [hc] at hc'
    | _ hc' => simp [hc] at hc'
  | received packet =>
    cases advances_of_run hrun with
    | handles => simp [distance, hc, ProcessOp.handled]
    | leases => simp [distance, hc, ProcessOp.handled]
    | waits hc' => simp [hc] at hc'
    | _ hc' => simp [hc] at hc'
  | leased pending =>
    cases advances_of_run hrun with
    | offers => simp [distance, hc]
    | waits hc' => simp [hc] at hc'
    | _ hc' => simp [hc] at hc'

theorem paced_processStep :
    Paced ProcessStep waiting ProcessOp.handled ProcessOp.isTurn distance 5 Furnished where
  keeps h hs := h.step hs
  nearer h hwaits hs := by
    cases hs with
    | receive => exact Nat.le_add_right_of_le (Nat.zero_add _).le
    | addAddressPool => exact Nat.le_add_right_of_le (Nat.zero_add _).le
    | mainLoop hrun => exact nearer_of_advance h hwaits hrun
  pos p := by cases hc : p.control <;> simp [distance, hc]
  le p := by cases hc : p.control <;> simp [distance, hc]

/-- In any order of the threads: once there is a pool, so many datagrams that wait are handled, in
their order, within five turns of the main loop for each. -/
theorem handled_within_turns {p₀ : Process} {before : List ProcessOp} (hp : Begins p₀)
    (hbefore : Run ProcessStep p₀ before p) (hpools : p.server.addressPools ≠ [])
    (hr : Run ProcessStep p ops q) {n : ℕ} (hn : n ≤ p.waiting.length)
    (hturns : 5 * n ≤ ops.countP ProcessOp.isTurn) :
    p.waiting.take n <+: itemsOf ProcessOp.handled ops := by
  obtain ⟨pool, pools, hfirst⟩ := List.exists_cons_of_ne_nil hpools
  have hfree := ServerState.haveFreeAddress_iff.mpr ⟨pool, pools, hfirst⟩
  exact paced_processStep.taken_of_turns conveys_processStep hr
    ⟨sound_of_run hp hbefore, hfree⟩ hn hturns

end Process

end

def sampleArrival : List (@ProcessOp ⟨.little⟩) :=
  letI : Host := ⟨.little⟩
  [.receive (sampleReceived .dhcpdiscover 7 1), .addAddressPool AddressPool.samplePool ""]

/-- Five turns of the main loop, with steps of the other threads between them. -/
def sampleTurns : List (@ProcessOp ⟨.little⟩) :=
  letI : Host := ⟨.little⟩
  [.mainLoop none, .addAddressPool AddressPool.samplePool "", .mainLoop none,
    .receive (sampleReceived .dhcprequest 7 1), .mainLoop none,
    .mainLoop (some (samplePacket .dhcpdiscover 7 1)), .mainLoop none]

namespace Process

theorem handled_within_turns_sample :
    letI : Host := ⟨.little⟩
    ∃ p : Process, p.waiting.length = 1 ∧
      p.waiting.take 1 <+: itemsOf ProcessOp.handled sampleTurns := by
  let host : Host := ⟨.little⟩
  have hsome : (sampleArrival.foldlM perform sampleProcess).map (fun p => (p.waiting.length,
      p.server.haveFreeAddress, (sampleTurns.foldlM perform p).isSome)) = some (1, true, true) := by
    decide +kernel
  obtain ⟨p, hp, he⟩ := Option.map_eq_some_iff.mp hsome
  rw [Prod.mk.injEq, Prod.mk.injEq] at he
  obtain ⟨hwaiting, hfree, hturns⟩ := he
  obtain ⟨q, hq⟩ := Option.isSome_iff_exists.mp hturns
  obtain ⟨pool, pools, hpools⟩ := ServerState.haveFreeAddress_iff.mp hfree
  have hreachable (ops : List ProcessOp) (hops : ops = sampleArrival ∨ ops = sampleTurns)
      (pool : AddressPool) (error : String) (hmem : ProcessOp.addAddressPool pool error ∈ ops) :
      pool.Reachable := by
    obtain ⟨rfl, -⟩ : pool = AddressPool.samplePool ∧ error = "" := by
      rcases hops with rfl | rfl
      · simpa [sampleArrival] using hmem
      · simpa [sampleTurns] using hmem
    exact AddressPool.reachable_samplePool
  have harrival := run_foldlM hp (hreachable _ (Or.inl rfl))
  exact ⟨p, hwaiting, handled_within_turns begins_sampleProcess harrival (by simp [hpools])
    (run_foldlM hq (hreachable _ (Or.inr rfl))) hwaiting.ge (by decide)⟩

end Process

end Klevret
