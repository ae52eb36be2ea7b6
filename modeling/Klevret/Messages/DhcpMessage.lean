import Klevret.Network.HardwareAddress
import Klevret.Options.Encode

/-! # DHCP messages

The message of RFC 2131, its parser and its encoder. The parser walks a cursor
over the fixed fields, checks the magic cookie and hands every option of the
option area to the constructor of `DhcpOption`.
-/

namespace Klevret

open Foundation

/-- `DhcpMessageType` is an enumeration over `uint8_t`, filled by an unchecked cast. -/
abbrev DhcpMessageType := UInt8

def DhcpMessageType.bootrequest : DhcpMessageType := 1

def DhcpMessageType.bootreply : DhcpMessageType := 2

abbrev DHCP_MESSAGE_MIN_LENGTH : ℕ := 236

structure DhcpMessage where
  op : DhcpMessageType
  htype : HardwareAddressType
  hlen : UInt8
  hops : UInt8
  xid : UInt32
  secs : UInt16
  flags : UInt16
  ciaddr : IPv4Address
  yiaddr : IPv4Address
  siaddr : IPv4Address
  giaddr : IPv4Address
  /-- The null pointer, or the only hardware address that is ever built. -/
  chaddr : Option MacAddress
  sname : List UInt8
  file : List UInt8
  options : List DhcpOption
  deriving DecidableEq

namespace DhcpMessage

/-- The check on the four bytes before the options. -/
def checkMagicCookie (data : List UInt8) (iter : ℕ) : Exec Unit := do
  if (← deref data iter) ≠ 99 ∨ (← deref data (iter + 1)) ≠ 130 ∨
      (← deref data (iter + 2)) ≠ 83 ∨ (← deref data (iter + 3)) ≠ 99 then
    throwRuntimeError "неверное значение magic cookie"

variable [Host]

def init : DhcpMessage where
  op := .bootrequest
  htype := .ethernet10Mb
  hlen := .ofInt (getHardwareAddressLength .ethernet10Mb)
  hops := 0
  xid := 0
  secs := 0
  flags := 0
  ciaddr := .ofUInt32 0
  yiaddr := .ofUInt32 0
  siaddr := .ofUInt32 0
  giaddr := .ofUInt32 0
  chaddr := none
  sname := []
  file := []
  options := []

/-- One pass of `while (iter != data.end())` over the cursor and the options so far. -/
def optionPass (data : List UInt8) :
    ℕ × List DhcpOption → Exec ((ℕ × List DhcpOption) ⊕ List DhcpOption)
  | (iter, options) =>
    if iter = data.length then return .inr options
    else do
      let optionCode ← deref data iter
      let iter ← advance data iter 1
      if optionCode = 0 then return .inl (iter, options)
      else if optionCode = 255 then return .inr options
      else do
        let payloadLength ← deref data iter
        let iter ← advance data iter 1
        let newOption ← DhcpOption.new optionCode.toNat payloadLength.toNat data iter
          (iter + payloadLength.toNat)
        let iter ← advance data iter payloadLength.toNat
        return .inl (iter, options ++ [newOption])

def optionLoop (data : List UInt8) (iter : ℕ) : Exec (List DhcpOption) :=
  loop (optionPass data) data.length (iter, [])

/-- The constructor from the bytes of a datagram. -/
def new (data : List UInt8) : Exec DhcpMessage := do
  if data.length < DHCP_MESSAGE_MIN_LENGTH then
    throwRuntimeError s!"минимальная длина DHCP сообщения: {DHCP_MESSAGE_MIN_LENGTH}"
  let op ← byteAt data 0
  let htype ← byteAt data 1
  let hlen ← byteAt data 2
  let hops ← byteAt data 3
  let xid := (← byteAt data 4).toUInt32 <<< 24 ||| (← byteAt data 5).toUInt32 <<< 16 |||
    (← byteAt data 6).toUInt32 <<< 8 ||| (← byteAt data 7).toUInt32
  let secs := (← byteAt data 8).toUInt16 <<< 8 ||| (← byteAt data 9).toUInt16
  let flags := (← byteAt data 10).toUInt16 <<< 8 ||| (← byteAt data 11).toUInt16
  let iter ← advance data 0 (11 + 1)
  let ciaddr ← IPv4Address.fromBigEndianBytes data iter (iter + IP_V4_ADDRESS_LENGTH)
  let iter ← advance data iter IP_V4_ADDRESS_LENGTH
  let yiaddr ← IPv4Address.fromBigEndianBytes data iter (iter + IP_V4_ADDRESS_LENGTH)
  let iter ← advance data iter IP_V4_ADDRESS_LENGTH
  let siaddr ← IPv4Address.fromBigEndianBytes data iter (iter + IP_V4_ADDRESS_LENGTH)
  let iter ← advance data iter IP_V4_ADDRESS_LENGTH
  let giaddr ← IPv4Address.fromBigEndianBytes data iter (iter + IP_V4_ADDRESS_LENGTH)
  let iter ← advance data iter IP_V4_ADDRESS_LENGTH
  if htype ≠ HardwareAddressType.ethernet10Mb then
    throwRuntimeError "Неподдерживаемый тип адреса"
  let chaddr ← MacAddress.makePtrFromBigEndianBytes data iter (iter + MAC_ADDRESS_LENGTH)
  let iter ← advance data iter DHCP_HARDWARE_ADDRESS_MAX_LENGTH
  let sname ← copyRange data iter (iter + 64)
  let iter ← advance data iter 64
  let file ← copyRange data iter (iter + 128)
  let iter ← advance data iter 128
  let message := { init with
    op, htype, hlen, hops, xid, secs, flags, ciaddr, yiaddr, siaddr, giaddr
    chaddr := some chaddr, sname, file }
  if data.length < DHCP_MESSAGE_MIN_LENGTH + 4 then return message
  else do
    checkMagicCookie data iter
    let iter ← advance data iter 4
    let options ← optionLoop data iter
    return { message with options }

/-- The strings `sname` and `file` are not written: their fields are zero. A null hardware address
is dereferenced. -/
def toNetworkData (message : DhcpMessage) : Exec (List UInt8) := do
  let chaddr ←
    match message.chaddr with
    | some mac => .ok mac.toChaddr
    | none => .error .undefined
  let fixed :=
    [message.op, message.htype, message.hlen, message.hops,
      (message.xid >>> 24).toUInt8, (message.xid >>> 16 &&& 0xFF).toUInt8,
      (message.xid >>> 8 &&& 0xFF).toUInt8, (message.xid &&& 0xFF).toUInt8,
      (message.secs >>> 8 &&& 0xFF).toUInt8, (message.secs &&& 0xFF).toUInt8,
      (message.flags >>> 8 &&& 0xFF).toUInt8, (message.flags &&& 0xFF).toUInt8] ++
    message.ciaddr.toNetworkData ++ message.yiaddr.toNetworkData ++
    message.siaddr.toNetworkData ++ message.giaddr.toNetworkData ++
    chaddr ++ List.replicate 64 0 ++ List.replicate 128 0
  if message.options.length = 0 then return fixed
  else do
    let options ← message.options.mapM DhcpOption.toNetworkData
    return fixed ++ [99, 130, 83, 99] ++ options.flatten ++ [255]

end DhcpMessage

end Klevret
