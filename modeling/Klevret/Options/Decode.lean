import Klevret.Foundation.Loop
import Klevret.Network.IpAddress
import Klevret.Options.Description

/-! # Decoding an option

The constructor of `DhcpOption`: it looks the code up, checks the length, and
consumes the payload element by element. The payload is a range of positions of
a byte vector that may extend beyond the range.
-/

namespace Klevret

open Foundation

/-- `dhcp_option_field_real_value_t` -/
inductive DhcpOptionFieldRealValue where
  | int32 (value : Int32)
  | uint32 (value : UInt32)
  | uint16 (value : UInt16)
  | uint8 (value : UInt8)
  | byteVector (value : List UInt8)
  | byteString (value : List UInt8)
  | ipv4Address (value : IPv4Address)
  | ipv4SubnetMask (value : IPv4SubnetMask)
  | addressWithMask (first : IPv4Address) (second : IPv4SubnetMask)
  | twoAddresses (first second : IPv4Address)
  | bool (value : Bool)
  deriving DecidableEq

structure DhcpOption where
  realPayloadLength : ℤ
  description : DhcpOptionDescription
  realValues : List DhcpOptionFieldRealValue
  deriving DecidableEq

namespace DhcpOption

def processVendorSpecificField (data : List UInt8) (first last : ℕ) :
    Exec DhcpOptionFieldRealValue := do
  let value ← copyRange data first last
  return .byteVector value

def processByteArray (description : DhcpOptionDescription) (data : List UInt8) (first last : ℕ) :
    Exec DhcpOptionFieldRealValue := do
  let byteArray ← copyRange data first last
  if description.payloadLength = VARIABLE_DHCP_OPTION_LENGTH
      ∧ (byteArray.length : ℤ) < description.payloadDescription.minLenInElements then
    throwRuntimeError "длина опции меньше чем минимальная"
  if description.payloadLength ≠ VARIABLE_DHCP_OPTION_LENGTH
      ∧ description.payloadLength ≠ byteArray.length then
    throwRuntimeError (s!"несовпадение длины, ожидаемая длина опции: {description.payloadLength}" ++
      s!", фактическая длина опции: {byteArray.length}")
  return .byteVector byteArray

def processString (data : List UInt8) (first last : ℕ) : Exec DhcpOptionFieldRealValue := do
  let value ← copyRange data first last
  return .byteString value

def processIpAddress (data : List UInt8) (first last : ℕ) : Exec DhcpOptionFieldRealValue := do
  let value ← IPv4Address.fromBigEndianBytes data first last
  return .ipv4Address value

def processSubnetMask (data : List UInt8) (first last : ℕ) : Exec DhcpOptionFieldRealValue := do
  let subnetMask ← IPv4SubnetMask.fromBigEndianBytes data first last
  return .ipv4SubnetMask subnetMask

def processIpAddressWithMask (data : List UInt8) (first last : ℕ) :
    Exec DhcpOptionFieldRealValue := do
  let ipAddress ← IPv4Address.fromBigEndianBytes data first (first + 4)
  let subnetMask ← IPv4SubnetMask.fromBigEndianBytes data (first + 4) last
  return .addressWithMask ipAddress subnetMask

def processTwoIpAddresses (data : List UInt8) (first last : ℕ) :
    Exec DhcpOptionFieldRealValue := do
  let ip1 ← IPv4Address.fromBigEndianBytes data first (first + 4)
  let ip2 ← IPv4Address.fromBigEndianBytes data (first + 4) last
  return .twoAddresses ip1 ip2

/-- The check that every integer handler makes on the value it has read. -/
def requireConstraint (correct : Exec Bool) : Exec Unit := do
  if ¬ (← correct) then
    throwRuntimeError "Значение опции не соответствует ограничениям"

def processUint8 (description : DhcpOptionDescription) (data : List UInt8) (iter : ℕ) :
    Exec DhcpOptionFieldRealValue := do
  let value ← deref data iter
  requireConstraint (description.payloadDescription.isCorrectUint value.toUInt32)
  return .uint8 value

def processFlag (data : List UInt8) (iter : ℕ) : Exec DhcpOptionFieldRealValue := do
  let value ← deref data iter
  return .bool (value != 0)

/-- The body of `process_uint_enum` is that of `process_uint8`. -/
def processUintEnum (description : DhcpOptionDescription) (data : List UInt8) (iter : ℕ) :
    Exec DhcpOptionFieldRealValue :=
  processUint8 description data iter

variable [Host]

def processUint16 (description : DhcpOptionDescription) (data : List UInt8) (first last : ℕ) :
    Exec DhcpOptionFieldRealValue := do
  let value := UInt16.ofBitVec (← networkToHostEndian 2 data first last)
  requireConstraint (description.payloadDescription.isCorrectUint value.toUInt32)
  return .uint16 value

def processUint32 (description : DhcpOptionDescription) (data : List UInt8) (first last : ℕ) :
    Exec DhcpOptionFieldRealValue := do
  let value := UInt32.ofBitVec (← networkToHostEndian 4 data first last)
  requireConstraint (description.payloadDescription.isCorrectUint value)
  return .uint32 value

def processInt32 (description : DhcpOptionDescription) (data : List UInt8) (first last : ℕ) :
    Exec DhcpOptionFieldRealValue := do
  let value := Int32.ofBitVec (← networkToHostEndian 4 data first last)
  requireConstraint (description.payloadDescription.isCorrectInt value)
  return .int32 value

/-- What one pass of the loop appends, and whether the constructor returns after it. -/
inductive Pushed where
  | next (value : DhcpOptionFieldRealValue)
  | last (value : DhcpOptionFieldRealValue)
  deriving DecidableEq

def elementSize (description : DhcpOptionDescription) : ℕ :=
  description.payloadDescription.getOneElementPayloadLengthInBytes.toNat

/-- The switch over the payload type. -/
def processElement (description : DhcpOptionDescription) (data : List UInt8)
    (iter payloadEnd : ℕ) : Exec Pushed :=
  let next := iter + elementSize description
  match description.payloadDescription.type with
  | .ipAddress => .next <$> processIpAddress data iter next
  | .subnetMask => .next <$> processSubnetMask data iter next
  | .ipAddressWithSubnetMask => .next <$> processIpAddressWithMask data iter next
  | .twoIpAddresses => .next <$> processTwoIpAddresses data iter next
  | .uint8 => .next <$> processUint8 description data iter
  | .uint16 => .next <$> processUint16 description data iter next
  | .uint32 => .next <$> processUint32 description data iter next
  | .int32 => .next <$> processInt32 description data iter next
  | .flag => .next <$> processFlag data iter
  | .uintEnum => .next <$> processUintEnum description data iter
  | .vendorSpecificField => .last <$> processVendorSpecificField data iter payloadEnd
  | .byteArray => .last <$> processByteArray description data iter payloadEnd
  | .string => .last <$> processString data iter payloadEnd
  | .none =>
    throwRuntimeError "данный тип полезной нагрузки опции не может использоваться в списке"

/-- One pass of `while (iter != payload_end)` over the cursor and the values so far. -/
def elementPass (description : DhcpOptionDescription) (data : List UInt8) (payloadEnd : ℕ) :
    ℕ × List DhcpOptionFieldRealValue →
      Exec ((ℕ × List DhcpOptionFieldRealValue) ⊕ List DhcpOptionFieldRealValue)
  | (iter, realValues) =>
    if iter = payloadEnd then return .inr realValues
    else do
      match ← processElement description data iter payloadEnd with
      | .last value => return .inr (realValues ++ [value])
      | .next value =>
        let iter ← advance data iter (elementSize description)
        return .inl (iter, realValues ++ [value])

def elementLoop (description : DhcpOptionDescription) (data : List UInt8)
    (payloadBegin payloadEnd : ℕ) : Exec (List DhcpOptionFieldRealValue) :=
  loop (elementPass description data payloadEnd) (data.length + 1) (payloadBegin, [])

/-- The range of positions holds the payload, without the two bytes of code and length. -/
def new (code realPayloadLength : ℤ) (data : List UInt8) (payloadBegin payloadEnd : ℕ) :
    Exec DhcpOption := do
  let description ←
    match optionsDescriptions.lookup code with
    | some description => .ok description
    | none => .error (.throws .outOfRange)
  if description.payloadLength ≠ VARIABLE_DHCP_OPTION_LENGTH
      ∧ description.payloadLength ≠ realPayloadLength then
    throwRuntimeError "несовпадение реальной длины свойства и длины в стандарте"
  if description.payloadDescription.type = .none then
    throwRuntimeError "Нельзя задать пустое значение"
  let realValues ← elementLoop description data payloadBegin payloadEnd
  return {
    realPayloadLength :=
      if description.payloadLength = VARIABLE_DHCP_OPTION_LENGTH then realPayloadLength
      else description.payloadLength
    description
    realValues }

end DhcpOption

end Klevret
