import Mathlib.Data.Int.Notation
import Klevret.Foundation.Outcome

/-! # Descriptions of the DHCP options

What the server knows about an option: the length of its payload, the type of
its elements, and the values that an integer element may take.
-/

namespace Klevret

open Foundation

inductive IntConstraintType where
  | none
  | range
  | fromMin
  | uintEnum
  deriving DecidableEq, Repr

structure IntConstraint where
  type : IntConstraintType
  min : ℤ
  max : ℤ
  /-- for enum -/
  allowedValues : List ℕ
  deriving DecidableEq, Repr

def IntConstraint.noConstraint : IntConstraint := ⟨.none, 0, 0, []⟩

/-- The switch over the kind of constraint, shared by the two checks; an enumeration compares the
value after its conversion to an unsigned type. -/
def IntConstraint.allows (c : IntConstraint) (value : ℤ) (unsignedValue : ℕ) : Bool :=
  match c.type with
  | .none => true
  | .fromMin => decide (value ≥ c.min)
  | .range => decide (value ≥ c.min ∧ value ≤ c.max)
  | .uintEnum => c.allowedValues.any fun allowed => allowed = unsignedValue

inductive DhcpOptionPayloadType where
  | none
  | vendorSpecificField
  | byteArray
  | string
  | ipAddress
  | subnetMask
  | ipAddressWithSubnetMask
  | twoIpAddresses
  | uint8
  | uint16
  | uint32
  | int32
  | flag
  | uintEnum
  deriving DecidableEq, Repr

structure DhcpOptionPayloadDescription where
  type : DhcpOptionPayloadType
  isList : Bool
  /-- for arrays and lists of fields -/
  minLenInElements : ℤ
  /-- for int & uint & uint_enum -/
  intConstraint : IntConstraint
  deriving DecidableEq, Repr

def VARIABLE_DHCP_OPTION_LENGTH : ℤ := -1

namespace DhcpOptionPayloadDescription

def noPayload : DhcpOptionPayloadDescription := ⟨.none, false, 0, .noConstraint⟩

def getOneElementPayloadLengthInBytes (d : DhcpOptionPayloadDescription) : ℤ :=
  match d.type with
  | .byteArray => 1
  | .flag => 1
  | .int32 => 4
  | .ipAddress => 4
  | .ipAddressWithSubnetMask => 8
  | .twoIpAddresses => 8
  | .none => 0
  | .string => 1
  | .subnetMask => 4
  | .uint16 => 2
  | .uint32 => 4
  | .uint8 => 1
  | .uintEnum => 1
  | .vendorSpecificField => VARIABLE_DHCP_OPTION_LENGTH

def isCorrectUint (d : DhcpOptionPayloadDescription) (value : UInt32) : Exec Bool :=
  if ¬ (d.type = .uint32 ∨ d.type = .uint16 ∨ d.type = .uint8 ∨ d.type = .uintEnum) then
    throwRuntimeError "несоответствие типа DhcpOptionPayloadType"
  else return d.intConstraint.allows value.toNat value.toNat

def isCorrectInt (d : DhcpOptionPayloadDescription) (value : Int32) : Exec Bool :=
  if d.type ≠ .int32 then
    throwRuntimeError "несоответствие типа DhcpOptionPayloadType"
  else return d.intConstraint.allows value.toInt value.toUInt32.toNat

end DhcpOptionPayloadDescription

structure DhcpOptionDescription where
  code : ℤ
  payloadLength : ℤ
  payloadDescription : DhcpOptionPayloadDescription
  deriving DecidableEq, Repr

def optionsDescriptions : List (ℤ × DhcpOptionDescription) := [
  (0, ⟨0, 0, .noPayload⟩),
  (255, ⟨255, 0, .noPayload⟩),
  (1, ⟨1, 4, ⟨.subnetMask, false, 0, .noConstraint⟩⟩),
  (2, ⟨2, 4, ⟨.int32, false, 0, .noConstraint⟩⟩),
  (3, ⟨3, VARIABLE_DHCP_OPTION_LENGTH, ⟨.ipAddress, true, 1, .noConstraint⟩⟩),
  (4, ⟨4, VARIABLE_DHCP_OPTION_LENGTH, ⟨.ipAddress, true, 1, .noConstraint⟩⟩),
  (5, ⟨5, VARIABLE_DHCP_OPTION_LENGTH, ⟨.ipAddress, true, 1, .noConstraint⟩⟩),
  (6, ⟨6, VARIABLE_DHCP_OPTION_LENGTH, ⟨.ipAddress, true, 1, .noConstraint⟩⟩),
  (7, ⟨7, VARIABLE_DHCP_OPTION_LENGTH, ⟨.ipAddress, true, 1, .noConstraint⟩⟩),
  (8, ⟨8, VARIABLE_DHCP_OPTION_LENGTH, ⟨.ipAddress, true, 1, .noConstraint⟩⟩),
  (9, ⟨9, VARIABLE_DHCP_OPTION_LENGTH, ⟨.ipAddress, true, 1, .noConstraint⟩⟩),
  (10, ⟨10, VARIABLE_DHCP_OPTION_LENGTH, ⟨.ipAddress, true, 1, .noConstraint⟩⟩),
  (11, ⟨11, VARIABLE_DHCP_OPTION_LENGTH, ⟨.ipAddress, true, 1, .noConstraint⟩⟩),
  (12, ⟨12, VARIABLE_DHCP_OPTION_LENGTH, ⟨.string, false, 1, .noConstraint⟩⟩),
  (13, ⟨13, 2, ⟨.uint16, false, 0, .noConstraint⟩⟩),
  (14, ⟨14, VARIABLE_DHCP_OPTION_LENGTH, ⟨.string, false, 1, .noConstraint⟩⟩),
  (15, ⟨15, VARIABLE_DHCP_OPTION_LENGTH, ⟨.string, false, 1, .noConstraint⟩⟩),
  (16, ⟨16, 4, ⟨.ipAddress, false, 0, .noConstraint⟩⟩),
  (17, ⟨17, VARIABLE_DHCP_OPTION_LENGTH, ⟨.string, false, 1, .noConstraint⟩⟩),
  (18, ⟨18, VARIABLE_DHCP_OPTION_LENGTH, ⟨.string, false, 1, .noConstraint⟩⟩),
  (19, ⟨19, 1, ⟨.flag, false, 0, .noConstraint⟩⟩),
  (20, ⟨20, 1, ⟨.flag, false, 0, .noConstraint⟩⟩),
  (21, ⟨21, VARIABLE_DHCP_OPTION_LENGTH, ⟨.ipAddressWithSubnetMask, true, 1, .noConstraint⟩⟩),
  (22, ⟨22, 2, ⟨.uint16, false, 0, ⟨.fromMin, 576, 0, []⟩⟩⟩),
  (23, ⟨23, 1, ⟨.uint8, false, 0, ⟨.range, 1, 255, []⟩⟩⟩),
  (24, ⟨24, 4, ⟨.uint32, false, 0, .noConstraint⟩⟩),
  (25, ⟨25, VARIABLE_DHCP_OPTION_LENGTH, ⟨.uint16, true, 2, .noConstraint⟩⟩),
  (26, ⟨26, 2, ⟨.uint16, false, 0, ⟨.fromMin, 68, 0, []⟩⟩⟩),
  (27, ⟨27, 1, ⟨.flag, false, 0, .noConstraint⟩⟩),
  (28, ⟨28, 4, ⟨.ipAddress, false, 0, .noConstraint⟩⟩),
  (29, ⟨29, 1, ⟨.flag, false, 0, .noConstraint⟩⟩),
  (30, ⟨30, 1, ⟨.flag, false, 0, .noConstraint⟩⟩),
  (31, ⟨31, 1, ⟨.flag, false, 0, .noConstraint⟩⟩),
  (32, ⟨32, 4, ⟨.ipAddress, false, 0, .noConstraint⟩⟩),
  (33, ⟨33, VARIABLE_DHCP_OPTION_LENGTH, ⟨.twoIpAddresses, true, 1, .noConstraint⟩⟩),
  (34, ⟨34, 1, ⟨.flag, false, 0, .noConstraint⟩⟩),
  (35, ⟨35, 4, ⟨.uint32, false, 0, .noConstraint⟩⟩),
  (36, ⟨36, 1, ⟨.flag, false, 0, .noConstraint⟩⟩),
  (37, ⟨37, 1, ⟨.uint8, false, 0, ⟨.fromMin, 1, 0, []⟩⟩⟩),
  (38, ⟨38, 4, ⟨.uint32, false, 0, .noConstraint⟩⟩),
  (39, ⟨39, 1, ⟨.flag, false, 0, .noConstraint⟩⟩),
  (40, ⟨40, VARIABLE_DHCP_OPTION_LENGTH, ⟨.string, false, 1, .noConstraint⟩⟩),
  (41, ⟨41, VARIABLE_DHCP_OPTION_LENGTH, ⟨.ipAddress, true, 1, .noConstraint⟩⟩),
  (42, ⟨42, VARIABLE_DHCP_OPTION_LENGTH, ⟨.ipAddress, true, 1, .noConstraint⟩⟩),
  (43, ⟨43, VARIABLE_DHCP_OPTION_LENGTH, ⟨.vendorSpecificField, false, 1, .noConstraint⟩⟩),
  (44, ⟨44, VARIABLE_DHCP_OPTION_LENGTH, ⟨.ipAddress, true, 1, .noConstraint⟩⟩),
  (45, ⟨45, VARIABLE_DHCP_OPTION_LENGTH, ⟨.ipAddress, true, 1, .noConstraint⟩⟩),
  (46, ⟨46, 1, ⟨.uintEnum, false, 0, ⟨.uintEnum, 0, 0, [1, 2, 4, 8]⟩⟩⟩),
  (47, ⟨47, VARIABLE_DHCP_OPTION_LENGTH, ⟨.string, false, 1, .noConstraint⟩⟩),
  (48, ⟨48, VARIABLE_DHCP_OPTION_LENGTH, ⟨.ipAddress, true, 1, .noConstraint⟩⟩),
  (49, ⟨49, VARIABLE_DHCP_OPTION_LENGTH, ⟨.ipAddress, true, 1, .noConstraint⟩⟩),
  (64, ⟨64, VARIABLE_DHCP_OPTION_LENGTH, ⟨.string, false, 1, .noConstraint⟩⟩),
  (65, ⟨65, VARIABLE_DHCP_OPTION_LENGTH, ⟨.ipAddress, true, 1, .noConstraint⟩⟩),
  (68, ⟨68, VARIABLE_DHCP_OPTION_LENGTH, ⟨.ipAddress, true, 0, .noConstraint⟩⟩),
  (69, ⟨69, VARIABLE_DHCP_OPTION_LENGTH, ⟨.ipAddress, true, 1, .noConstraint⟩⟩),
  (70, ⟨70, VARIABLE_DHCP_OPTION_LENGTH, ⟨.ipAddress, true, 1, .noConstraint⟩⟩),
  (71, ⟨71, VARIABLE_DHCP_OPTION_LENGTH, ⟨.ipAddress, true, 1, .noConstraint⟩⟩),
  (72, ⟨72, VARIABLE_DHCP_OPTION_LENGTH, ⟨.ipAddress, true, 1, .noConstraint⟩⟩),
  (73, ⟨73, VARIABLE_DHCP_OPTION_LENGTH, ⟨.ipAddress, true, 1, .noConstraint⟩⟩),
  (74, ⟨74, VARIABLE_DHCP_OPTION_LENGTH, ⟨.ipAddress, true, 1, .noConstraint⟩⟩),
  (75, ⟨75, VARIABLE_DHCP_OPTION_LENGTH, ⟨.ipAddress, true, 1, .noConstraint⟩⟩),
  (76, ⟨76, VARIABLE_DHCP_OPTION_LENGTH, ⟨.ipAddress, true, 1, .noConstraint⟩⟩),
  (50, ⟨50, 4, ⟨.ipAddress, false, 0, .noConstraint⟩⟩),
  (51, ⟨51, 4, ⟨.uint32, false, 0, .noConstraint⟩⟩),
  (52, ⟨52, 1, ⟨.uintEnum, false, 0, ⟨.uintEnum, 0, 0, [1, 2, 3]⟩⟩⟩),
  (66, ⟨66, VARIABLE_DHCP_OPTION_LENGTH, ⟨.string, false, 1, .noConstraint⟩⟩),
  (67, ⟨67, VARIABLE_DHCP_OPTION_LENGTH, ⟨.string, false, 1, .noConstraint⟩⟩),
  (53, ⟨53, 1, ⟨.uintEnum, false, 0, ⟨.uintEnum, 0, 0, [1, 2, 3, 4, 5, 6, 7, 8]⟩⟩⟩),
  (54, ⟨54, 4, ⟨.ipAddress, false, 0, .noConstraint⟩⟩),
  (55, ⟨55, VARIABLE_DHCP_OPTION_LENGTH, ⟨.byteArray, false, 1, .noConstraint⟩⟩),
  (56, ⟨56, VARIABLE_DHCP_OPTION_LENGTH, ⟨.string, false, 1, .noConstraint⟩⟩),
  (57, ⟨57, 2, ⟨.uint16, false, 0, ⟨.fromMin, 576, 0, []⟩⟩⟩),
  (58, ⟨58, 4, ⟨.uint32, false, 0, .noConstraint⟩⟩),
  (59, ⟨59, 4, ⟨.uint32, false, 0, .noConstraint⟩⟩),
  (60, ⟨60, VARIABLE_DHCP_OPTION_LENGTH, ⟨.string, false, 1, .noConstraint⟩⟩),
  (61, ⟨61, VARIABLE_DHCP_OPTION_LENGTH, ⟨.byteArray, false, 2, .noConstraint⟩⟩)]

end Klevret
