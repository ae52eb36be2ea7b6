import Klevret.Messages.DhcpMessage
import Klevret.Network.AddressText
import Klevret.Pool.AddressPool

/-! # The server

The server with its address pools, and one pass of its main loop over the
datagram at the front of the input queue. The table of transactions is local to
the loop; what is broadcast is kept in a list.
-/

namespace Klevret

open Foundation
open Std (ExtTreeMap)

/-- All constructors are private and the class has no friends, so it has no values. -/
inductive IPv6Address
  deriving DecidableEq

/-- `L3_address_t` -/
abbrev L3Address := IPv4Address ⊕ IPv6Address

/-- `std::get<IPv4Address>` -/
def L3Address.getIPv4Address : L3Address → Exec IPv4Address
  | .inl address => .ok address
  | .inr _ => .error (.throws .badVariantAccess)

structure NetworkInterface where
  linuxInterfaceIndex : ℤ
  broadcastAddress : L3Address

structure UdpPacketWithInfo where
  data : List UInt8
  interfaceIndex : ℤ

abbrev Option53MessageType := UInt8

namespace Option53MessageType

def dhcpdiscover : Option53MessageType := 1

def dhcpoffer : Option53MessageType := 2

def dhcprequest : Option53MessageType := 3

def dhcpack : Option53MessageType := 5

end Option53MessageType

/-- `std::get<uint8_t>(option53->real_values.at(0))` -/
def messageTypeOf (option53 : DhcpOption) : Exec Option53MessageType :=
  match option53.realValues with
  | [] => .error (.throws .outOfRange)
  | .uint8 value :: _ => .ok value
  | _ :: _ => .error (.throws .badVariantAccess)

/-- The first option with the code of the message type. -/
def findOption53 (dhcpPacket : DhcpMessage) : Option DhcpOption :=
  dhcpPacket.options.find? fun op => op.description.code = 53

variable [Host]

section Replies

/-- What `make_offer` and `make_acknowledge` have in common. -/
def makeReply (messageType : Option53MessageType) (option51Data : List UInt8)
    (packet : DhcpMessage) (ip : IPv4Address) : Exec DhcpMessage := do
  let siaddr ← IPv4Address.ofString ("172.18.1.1".toList.map fun c => c.val.toUInt8)
  let l2Address ← Exec.pointee packet.chaddr
  let option53 ← DhcpOption.new 53 1 [messageType] 0 1
  let option1 ← DhcpOption.new 1 4 [255, 255, 255, 0] 0 4
  let option3 ← DhcpOption.new 3 4 [172, 18, 1, 1] 0 4
  let option51 ← DhcpOption.new 51 4 option51Data 0 option51Data.length
  return { DhcpMessage.init with
    op := .bootreply
    htype := .ethernet10Mb
    hlen := 6
    hops := 0
    xid := packet.xid
    ciaddr := .ofUInt32 0
    yiaddr := ip
    siaddr
    giaddr := .ofUInt32 0
    chaddr := some l2Address
    options := [option53, option1, option3, option51] }

def makeOffer (packet : DhcpMessage) (ip : IPv4Address) : Exec DhcpMessage :=
  makeReply .dhcpoffer (hostToNetworkEndianArray (w := 4) 86400).toList packet ip

def makeAcknowledge (packet : DhcpMessage) (ip : IPv4Address) : Exec DhcpMessage :=
  let leaseTime : UInt32 := 86400
  makeReply .dhcpack
    [(leaseTime >>> 24).toUInt8, (leaseTime <<< 8 >>> 24).toUInt8,
      (leaseTime <<< 16 >>> 24).toUInt8, (leaseTime &&& 0xFF).toUInt8] packet ip

end Replies

structure DhcpServer where
  networkInterfaces : List NetworkInterface
  addressPools : List AddressPool

namespace DhcpServer

/-- The loop of `add_address_pool` over the pools that are there: whether it returns `false`. -/
def intersectsSome (adding : IPv4AddressRange) : List AddressPool → Bool
  | [] => false
  | currentPool :: pools =>
    let addingStart := adding.start.toUInt32
    let addingEnd := adding.«end».toUInt32
    let currentStart := currentPool.getAddressesRange.start.toUInt32
    let currentEnd := currentPool.getAddressesRange.«end».toUInt32
    if addingStart ≥ currentStart ∧ addingStart ≤ currentEnd then true
    else if addingEnd ≥ currentStart ∧ addingEnd ≤ currentEnd then true
    else intersectsSome adding pools

/-- The returned value, the text left in `error`, and the server after the call. -/
def addAddressPool (server : DhcpServer) (pool : AddressPool) (error : String) :
    (Bool × String) × DhcpServer :=
  if intersectsSome pool.getAddressesRange server.addressPools then
    ((false, "Intersection of address pools"), server)
  else ((true, error), { server with addressPools := server.addressPools ++ [pool] })

def haveFreeAddress (server : DhcpServer) : Bool := server.addressPools.length != 0

end DhcpServer

/-- A message, the bytes that were sent for it, and where they were sent. -/
structure Broadcast where
  message : DhcpMessage
  data : List UInt8
  dstBroadcastIp : IPv4Address

/-- The server while its main loop runs. -/
structure ServerState extends DhcpServer where
  xids : ExtTreeMap UInt32 IPv4Address
  sent : List Broadcast

namespace ServerState

abbrev ServerM := EStateM Stop ServerState

def takeAddress (mac : MacAddress) : ServerM IPv4Address := do
  match (← get).addressPools with
  | [] => throw (.throws .outOfRange)
  | pool :: pools =>
    focus pool (fun pool state => { state with addressPools := pool :: pools })
      (AddressPool.getAddress mac)

def xidAt (xid : UInt32) : ServerM IPv4Address :=
  subscript xids (fun state table => { state with xids := table }) xid

def broadcastSendTo (message : DhcpMessage) (interface : NetworkInterface) : ServerM Unit := do
  let data ← Exec.lift message.toNetworkData
  let dstBroadcastIp ← Exec.lift interface.broadcastAddress.getIPv4Address
  modify fun state => { state with sent := state.sent ++ [⟨message, data, dstBroadcastIp⟩] }

/-- The body of the main loop from the call of `get_next_datagram` on. -/
def handleDatagram (packetWithInfo : UdpPacketWithInfo) : ServerM Unit := do
  let interface ← Exec.lift <| Exec.pointee <| (← get).networkInterfaces.find? fun iface =>
    iface.linuxInterfaceIndex = packetWithInfo.interfaceIndex
  let dhcpPacket ← Exec.lift (DhcpMessage.new packetWithInfo.data)
  if dhcpPacket.op = .bootrequest then
    match findOption53 dhcpPacket with
    | none => pure ()
    | some option53 =>
      let msgType ← Exec.lift (messageTypeOf option53)
      if msgType = .dhcpdiscover then
        let mac ← Exec.lift (Exec.pointee dhcpPacket.chaddr)
        let ip ← takeAddress mac
        modify fun state => { state with xids := state.xids.insert dhcpPacket.xid ip }
        let offer ← Exec.lift (makeOffer dhcpPacket (← xidAt dhcpPacket.xid))
        broadcastSendTo offer interface
      else if msgType = .dhcprequest then
        let acknowledge ← Exec.lift (makeAcknowledge dhcpPacket (← xidAt dhcpPacket.xid))
        broadcastSendTo acknowledge interface

/-- One pass of the main loop, for the datagram at the front of the input queue if there is one. -/
def mainLoopPass (front : Option UdpPacketWithInfo) : ServerM Unit := do
  if ¬ (← get).haveFreeAddress then pure ()
  else
    match front with
    | none => pure ()
    | some packetWithInfo => handleDatagram packetWithInfo

end ServerState

end Klevret
