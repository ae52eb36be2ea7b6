import Klevret.Pool.Capacity
import Klevret.Server.Steps

/-! # Datagrams that the server survives

The main loop has no handler, so an exception ends the server. A datagram is
survived when the parser accepts it and, if it is a discover message, the first
pool has an address for the client.
-/

namespace Klevret

open Foundation
open Std (ExtTreeMap ExtTreeSet)

namespace AddressPool

variable [Host]

/-- The client has an address already, or one is free. -/
def CanServe (pool : AddressPool) (mac : MacAddress) : Prop :=
  pool.isMacAddressReserved mac ∨ pool.isMacAddressTaken mac ∨ pool.isAddressCached mac ∨
    ∃ ip, pool.isAddressIncluded ip ∧ ¬ pool.isIpAddressReserved ip ∧ ¬ pool.isIpAddressTaken ip

variable {pool : AddressPool} {mac : MacAddress}

theorem canServe_iff_knows : pool.CanServe mac ↔ pool.Knows mac ∨ pool.HasFree := by
  rw [Knows, or_assoc, or_assoc]
  exact Iff.rfl

theorem canServe_iff :
    pool.CanServe mac ↔ ∃ ip pool', (getAddress mac).run pool = .ok ip pool' := by
  rw [canServe_iff_knows, run_getAddress, ← firstFree_isSome_iff, knows_iff,
    ExtTreeMap.mem_iff_isSome_getElem?, ExtTreeMap.mem_iff_isSome_getElem?,
    ExtTreeMap.mem_iff_isSome_getElem?]
  cases pool.reservedMacAddresses[mac]? <;> cases pool.takenMacAddresses[mac]? <;>
    cases pool.cache[mac]? <;> cases pool.firstFree <;> simp

end AddressPool

namespace ServerState

section

variable [Host]

/-- The pass ends, and the pools and the transactions are changed by a client's request at most. -/
def Survives (state : ServerState) (packet : UdpPacketWithInfo) : Prop :=
  ∃ state', (mainLoopPass (some packet)).run state = .ok () state' ∧
    (state'.addressPools = state.addressPools ∧ state'.xids = state.xids ∨
      ∃ message, DhcpMessage.new packet.data = .ok message ∧
        (message.Asks .dhcpdiscover ∨ message.Asks .dhcprequest) ∧ Handled state message state')

/-- If the datagram is a discover message, the first pool has an address for its client. -/
def ServesDiscover (state : ServerState) (data : List UInt8) : Prop :=
  ∀ options, 240 ≤ data.length → DhcpMessage.Lists (data.drop 240) options →
    (DhcpMessage.ofFields data options).Asks .dhcpdiscover →
    ∀ pool ∈ state.addressPools.head?, pool.CanServe ⟨.pad ((data.drop 28).take 6)⟩

variable {state : ServerState} {packet : UdpPacketWithInfo} {interface : NetworkInterface}
  {message : DhcpMessage} {mac : MacAddress}

theorem servesDiscover_iff (hm : DhcpMessage.new packet.data = .ok message)
    (hmac : message.chaddr = some mac) :
    ServesDiscover state packet.data ↔ (message.Asks .dhcpdiscover →
      ∀ pool ∈ state.addressPools.head?, pool.CanServe mac) := by
  obtain ⟨hf, options, rfl, hcases⟩ := DhcpMessage.new_eq_ok.mp hm
  obtain rfl := Option.some.inj hmac
  constructor
  · intro hs ha
    rcases hcases with ⟨-, rfl⟩ | ⟨hlen, hl⟩
    · exact absurd ha.2 (by simp [DhcpMessage.messageType, findOption53, DhcpMessage.ofFields])
    · exact hs options hlen hl ha
  · intro hs options' hlen hl ha
    have hm' := DhcpMessage.new_eq_ok.mpr ⟨hf, options', rfl, Or.inr ⟨hlen, hl⟩⟩
    have heq := Except.ok.inj (hm.symm.trans hm')
    exact hs (heq ▸ ha)

/-- With a pool and a known interface, exactly these datagrams are survived. -/
theorem survives_iff (hfree : state.haveFreeAddress = true)
    (hi : Receives state packet interface) :
    Survives state packet ↔
      DhcpMessage.Accepted packet.data ∧ ServesDiscover state packet.data := by
  obtain ⟨pool, pools, hp⟩ := haveFreeAddress_iff.mp hfree
  unfold Survives
  rw [run_mainLoopPass hfree, DhcpMessage.accepted_iff]
  constructor
  · rintro ⟨state', hrun, -⟩
    obtain ⟨message, hm, hh⟩ := handled_of_run hrun hfree
    obtain ⟨mac, hmac⟩ := DhcpMessage.chaddr_of_new hm
    refine ⟨⟨message, hm⟩, (servesDiscover_iff hm hmac).mpr ?_⟩
    intro ha first hfirst
    cases hh with
    | ignored hd => exact absurd ha hd
    | offered data dst _ hmac' hp' hg =>
      obtain rfl := Option.some.inj (hmac.symm.trans hmac')
      obtain rfl := Option.some.inj (hfirst.symm.trans (congrArg List.head? hp'))
      exact AddressPool.canServe_iff.mpr ⟨_, _, hg⟩
    | acknowledged _ _ hr => exact absurd (ha.unique hr) (by decide)
  · rintro ⟨⟨message, hm⟩, hs⟩
    obtain ⟨mac, hmac⟩ := DhcpMessage.chaddr_of_new hm
    by_cases hd : message.Asks .dhcpdiscover
    · have hserve := (servesDiscover_iff hm hmac).mp hs hd pool (by simp [hp])
      obtain ⟨ip, pool', hg⟩ := AddressPool.canServe_iff.mp hserve
      obtain ⟨data, dst, hrun⟩ := run_discover hi hm hd hmac hp hg
      exact ⟨_, hrun, Or.inr ⟨message, hm, Or.inl hd, .offered data dst hd hmac hp hg⟩⟩
    · by_cases hr : message.Asks .dhcprequest
      · obtain ⟨data, dst, hrun⟩ := run_request hi hm hr hmac
        exact ⟨_, hrun, Or.inr ⟨message, hm, Or.inr hr, .acknowledged data dst hr hmac⟩⟩
      · exact ⟨state, run_ignored hi hm hd hr, Or.inl ⟨rfl, rfl⟩⟩

end

theorem exists_readyState :
    letI : Host := ⟨.little⟩
    ∃ state, Run ServerStep sampleServer (sampleOps []) state ∧ state.haveFreeAddress = true ∧
      ∀ data, ∃ interface, Receives state ⟨data, 2⟩ interface := by
  let host : Host := ⟨.little⟩
  obtain ⟨state, hr, hs⟩ := run_sampleOps (fun _ _ => true) []
    (fun state => (state.haveFreeAddress, (state.networkInterfaces.find? fun iface =>
      iface.linuxInterfaceIndex = 2).isSome)) (true, true) (by decide +kernel)
  obtain ⟨hfree, hi⟩ := Prod.mk.inj hs
  exact ⟨state, hr.of_guarded, hfree, fun _ => Option.isSome_iff_exists.mp hi⟩

/-- A datagram of one byte. -/
theorem not_survives_sample :
    letI : Host := ⟨.little⟩
    ∃ state, Started sampleServer ∧ Run ServerStep sampleServer (sampleOps []) state ∧
      state.haveFreeAddress = true ∧ (∃ interface, Receives state ⟨[1], 2⟩ interface) ∧
      ¬ Survives state ⟨[1], 2⟩ := by
  let host : Host := ⟨.little⟩
  obtain ⟨state, hr, hfree, hi⟩ := exists_readyState
  obtain ⟨interface, hi⟩ := hi [1]
  refine ⟨state, started_sampleServer, hr, hfree, ⟨interface, hi⟩, ?_⟩
  rintro ⟨state', hrun, -⟩
  have hm : DhcpMessage.new [1] = throwRuntimeError "минимальная длина DHCP сообщения: 236" := by
    decide
  rw [run_mainLoopPass hfree, run_rejected hi hm] at hrun
  simp at hrun

/-- A discover message for a fresh pool. -/
theorem survives_sample :
    letI : Host := ⟨.little⟩
    ∃ state, Run ServerStep sampleServer (sampleOps []) state ∧
      (Survives state (samplePacket .dhcpdiscover 7 1) ↔
        DhcpMessage.Accepted (samplePacket .dhcpdiscover 7 1).data ∧
          ServesDiscover state (samplePacket .dhcpdiscover 7 1).data) := by
  let host : Host := ⟨.little⟩
  obtain ⟨state, hr, hfree, hi⟩ := exists_readyState
  obtain ⟨interface, hi⟩ := hi (samplePacket .dhcpdiscover 7 1).data
  exact ⟨state, hr, survives_iff hfree hi⟩

end ServerState

end Klevret
