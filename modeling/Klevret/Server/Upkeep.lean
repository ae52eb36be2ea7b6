import Klevret.Foundation.Maintained
import Klevret.Server.Passes

/-! # What a pass keeps

A property of the server is kept by a whole pass, however the pass ends, if
taking an address, changing the table of transactions and sending a reply on the
interface of the datagram keep it. So the ranges of the pools stay where they
are.
-/

namespace Klevret

open Foundation
open Std (ExtTreeMap)

section

variable [Host]

/-- A message that the server makes to answer someone. -/
def DhcpMessage.IsReply (message : DhcpMessage) : Prop :=
  ∃ messageType ∈ [Option53MessageType.dhcpoffer, .dhcpack], ∃ packet mac ip,
    message = replyOf messageType packet mac ip

namespace ServerState

variable {P : ServerState → Prop} {packet : DhcpMessage} {ip : IPv4Address}
  {messageType : Option53MessageType}

theorem makeReply_isReply (ht : messageType ∈ [Option53MessageType.dhcpoffer, .dhcpack])
    {reply : DhcpMessage} (h : makeReply messageType [0, 1, 81, 128] packet ip = .ok reply) :
    reply.IsReply := by
  cases hmac : packet.chaddr with
  | none => simp [makeReply, hmac, Exec.pointee] at h
  | some mac =>
    rw [makeReply_eq ip ht hmac] at h
    exact ⟨messageType, ht, packet, mac, ip, (Except.ok.inj h).symm⟩

section Rules

theorem maintains_takeAddress
    (hpools : ∀ (state : ServerState) addressPools, P state → P { state with addressPools })
    (mac : MacAddress) : Maintains P (takeAddress mac) := by
  apply Maintains.get_bind
  intro state _
  cases state.addressPools with
  | nil => exact Maintains.throw _
  | cons pool pools =>
    apply Maintains.focus
    intro pool' state hstate
    exact hpools state _ hstate

theorem maintains_broadcastSendTo {reply : DhcpMessage} {interface : NetworkInterface}
    (hsent : ∀ (state : ServerState) data dst, reply.toNetworkData = .ok data →
      interface.broadcastAddress = .inl dst → P state →
      P { state with sent := state.sent ++ [⟨reply, data, dst⟩] }) :
    Maintains P (broadcastSendTo reply interface) := by
  apply Maintains.lift_bind
  intro data hdata
  apply Maintains.lift_bind
  intro dst hdst
  apply Maintains.modify
  intro state hstate
  refine hsent state data dst hdata ?_ hstate
  cases haddress : interface.broadcastAddress with
  | inl ip =>
    rw [haddress] at hdst
    rw [Except.ok.inj hdst]
  | inr ip => exact nomatch ip

/-- Sending a reply on the interface on which the datagram came in keeps the property. -/
def SendingKeeps (P : ServerState → Prop) (packetWithInfo : UdpPacketWithInfo) : Prop :=
  ∀ (reply : DhcpMessage) (interface : NetworkInterface), reply.IsReply →
    (∃ state, P state ∧ Receives state packetWithInfo interface) →
    Maintains P (broadcastSendTo reply interface)

variable (hlease : ∀ mac, Maintains P (takeAddress mac))
  (hxids : ∀ (state : ServerState) (xids : ExtTreeMap UInt32 IPv4Address), P state →
    P { state with xids })

include hxids in
theorem maintains_xidAt (xid : UInt32) : Maintains P (xidAt xid) := by
  intro state hstate
  rw [run_xidAt]
  exact hxids state _ hstate

include hlease hxids in
theorem maintains_handleDatagram {packetWithInfo : UdpPacketWithInfo}
    (hsend : SendingKeeps P packetWithInfo) : Maintains P (handleDatagram packetWithInfo) := by
  apply Maintains.get_bind
  intro state hstate
  apply Maintains.lift_bind
  intro interface hpointee
  have hreceives : ∃ state, P state ∧ Receives state packetWithInfo interface :=
    ⟨state, hstate, Exec.pointee_eq_ok.mp hpointee⟩
  apply Maintains.lift_bind
  intro dhcpPacket _
  split
  · split
    · exact Maintains.pure _
    · apply Maintains.lift_bind
      intro msgType _
      split
      · apply Maintains.lift_bind
        intro mac _
        apply Maintains.bind (hlease mac)
        intro ip
        apply Maintains.bind
        · apply Maintains.modify
          intro state hstate
          exact hxids state _ hstate
        intro _
        apply Maintains.bind (maintains_xidAt hxids _)
        intro ip
        apply Maintains.lift_bind
        intro offer hoffer
        rw [makeOffer, leaseTime_offer] at hoffer
        exact hsend offer interface (makeReply_isReply (by simp) hoffer) hreceives
      · split
        · apply Maintains.bind (maintains_xidAt hxids _)
          intro ip
          apply Maintains.lift_bind
          intro acknowledge hacknowledge
          exact hsend acknowledge interface (makeReply_isReply (by simp) hacknowledge) hreceives
        · exact Maintains.pure _
  · exact Maintains.pure _

include hlease hxids in
theorem maintains_mainLoopPass {front : Option UdpPacketWithInfo}
    (hsend : ∀ packet ∈ front, SendingKeeps P packet) : Maintains P (mainLoopPass front) := by
  apply Maintains.get_bind
  intro state _
  split
  · exact Maintains.pure _
  · cases front with
    | none => exact Maintains.pure _
    | some packet => exact maintains_handleDatagram hlease hxids (hsend packet rfl)

end Rules

end ServerState

namespace AddressPool

theorem range_of_getAddress (mac : MacAddress) (pool : AddressPool) :
    (observe ((getAddress mac).run pool)).2.getAddressesRange = pool.getAddressesRange := by
  rw [run_getAddress]
  split <;> rfl

end AddressPool

namespace DhcpServer

def ranges (server : DhcpServer) : List IPv4AddressRange :=
  server.addressPools.map AddressPool.getAddressesRange

theorem ranges_addAddressPool (server : DhcpServer) (pool : AddressPool) (error : String) :
    (server.addAddressPool pool error).2.ranges = server.ranges ++
      if (server.addAddressPool pool error).1.1 then [pool.getAddressesRange] else [] := by
  unfold addAddressPool
  by_cases h : intersectsSome pool.getAddressesRange server.addressPools = true
  · simp [h]
  · simp [h, ranges]

end DhcpServer

namespace ServerState

variable {ranges : List IPv4AddressRange}

/-- A lease does not move the range of its pool. -/
theorem maintains_takeAddress_ranges (mac : MacAddress) :
    Maintains (fun state : ServerState => state.ranges = ranges) (takeAddress mac) := by
  intro state hstate
  cases hpools : state.addressPools with
  | nil =>
    have hrun : (takeAddress mac).run state = .error (.throws .outOfRange) state := by
      simp only [takeAddress, EStateM.run_bind, EStateM.run_get, hpools]
      rfl
    rwa [hrun]
  | cons pool pools =>
    have hput (pool' : AddressPool) (h : pool'.getAddressesRange = pool.getAddressesRange) :
        ({ state with addressPools := pool' :: pools } : ServerState).ranges = ranges := by
      rw [← hstate, DhcpServer.ranges, DhcpServer.ranges, hpools, List.map_cons, List.map_cons, h]
    have hrange := AddressPool.range_of_getAddress mac pool
    have hrun : (takeAddress mac).run state =
        (focus pool (fun pool state => { state with addressPools := pool :: pools })
          (AddressPool.getAddress mac)).run state := by
      simp only [takeAddress, EStateM.run_bind, EStateM.run_get, hpools]
    rw [hrun, run_focus]
    cases hg : (AddressPool.getAddress mac).run pool with
    | ok ip pool' =>
      rw [hg] at hrange
      exact hput pool' hrange
    | error e pool' =>
      rw [hg] at hrange
      exact hput pool' hrange

/-- A pass moves no range, however it ends. -/
theorem maintains_mainLoopPass_ranges (front : Option UdpPacketWithInfo) :
    Maintains (fun state : ServerState => state.ranges = ranges) (mainLoopPass front) := by
  refine maintains_mainLoopPass maintains_takeAddress_ranges (fun _ _ hstate => hstate) ?_
  exact fun _ _ _ _ _ _ => maintains_broadcastSendTo fun _ _ _ _ _ hstate => hstate

end ServerState

end

end Klevret
