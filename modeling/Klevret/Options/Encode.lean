import Klevret.Options.Payload

/-! # Encoding an option

The encoder copies the object representation of integer values, in host order,
while the decoder reads network order. Every other value is written as it was
read.
-/

namespace Klevret

open Foundation

/-- The types whose values are integers of more than one byte. -/
def DhcpOptionPayloadType.isWideInteger : DhcpOptionPayloadType → Bool
  | .uint16 | .uint32 | .int32 => true
  | _ => false

namespace DhcpOption

section Model

variable [Host]

/-- There is no case for `bool`: the function ends without a value to return. -/
def dhcpOptionFieldRealValueToNetworkData : DhcpOptionFieldRealValue → Exec (List UInt8)
  | .int32 value => return (Host.native.objectBytes (w := 4) value.toBitVec).toList
  | .uint32 value => return (Host.native.objectBytes (w := 4) value.toBitVec).toList
  | .uint16 value => return (Host.native.objectBytes (w := 2) value.toBitVec).toList
  | .uint8 value => return [value]
  | .byteVector value => return value
  | .byteString value => return value
  | .ipv4Address value => return value.toNetworkData
  | .ipv4SubnetMask value => return value.toNetworkData
  | .addressWithMask first second => return first.toNetworkData ++ second.toNetworkData
  | .twoAddresses first second => return first.toNetworkData ++ second.toNetworkData
  | .bool _ => .error .undefined

def toNetworkData (option : DhcpOption) : Exec (List UInt8) :=
  if option.description.code = 0 then return [0]
  else if option.description.code = 255 then return [255]
  else do
    let length :=
      if option.description.payloadLength = VARIABLE_DHCP_OPTION_LENGTH then
        option.realPayloadLength
      else option.description.payloadLength
    let values ← option.realValues.mapM dhcpOptionFieldRealValueToNetworkData
    return .ofInt option.description.code :: .ofInt length :: values.flatten

end Model

variable {d : DhcpOptionDescription} {chunk payload : List UInt8} [Host]

/-- The bytes that the encoder writes for an element it has read. -/
def rewritten (type : DhcpOptionPayloadType) (chunk : List UInt8) : List UInt8 :=
  if type.isWideInteger then Host.native.arrange chunk.reverse else chunk

theorem length_rewritten (type : DhcpOptionPayloadType) (chunk : List UInt8) :
    (rewritten type chunk).length = chunk.length := by
  unfold rewritten
  split_ifs <;> simp

theorem encode_chunkValue (h : d.payloadDescription.type.isElementwise = true)
    (hflag : d.payloadDescription.type ≠ .flag) (hlen : chunk.length = elementSize d) :
    dhcpOptionFieldRealValueToNetworkData (chunkValue d.payloadDescription.type chunk) =
      .ok (rewritten d.payloadDescription.type chunk) := by
  unfold elementSize DhcpOptionPayloadDescription.getOneElementPayloadLengthInBytes at hlen
  cases ht : d.payloadDescription.type <;>
    simp only [ht, DhcpOptionPayloadType.isElementwise, Bool.false_eq_true, ne_eq,
      not_true_eq_false, Int.reduceToNat] at h hflag hlen <;>
    simp only [chunkValue, dhcpOptionFieldRealValueToNetworkData, rewritten,
      DhcpOptionPayloadType.isWideInteger, Exec.pure_eq_ok, Except.ok.injEq, if_true,
      Bool.false_eq_true, if_false]
  case ipAddress => exact Bytes.toList_pad hlen
  case subnetMask => exact Bytes.toList_pad hlen
  case ipAddressWithSubnetMask =>
    have h₁ : (chunk.take 4).length = 4 := by simp [hlen]
    have h₂ : (chunk.drop 4).length = 4 := by simp [hlen]
    simp only [IPv4Address.toNetworkData, IPv4SubnetMask.toNetworkData, Bytes.toList_pad h₁,
      Bytes.toList_pad h₂, List.take_append_drop]
  case twoIpAddresses =>
    have h₁ : (chunk.take 4).length = 4 := by simp [hlen]
    have h₂ : (chunk.drop 4).length = 4 := by simp [hlen]
    simp only [IPv4Address.toNetworkData, Bytes.toList_pad h₁, Bytes.toList_pad h₂,
      List.take_append_drop]
  case uint8 =>
    obtain ⟨b, rfl⟩ := List.length_eq_one_iff.mp hlen
    simp [beValue, leValue]
  case uintEnum =>
    obtain ⟨b, rfl⟩ := List.length_eq_one_iff.mp hlen
    simp [beValue, leValue]
  case uint16 =>
    have hv := beValue_lt chunk
    rw [hlen] at hv
    exact Endian.objectBytes_beValue _ _ (Nat.mod_eq_of_lt hv) hlen
  case uint32 =>
    have hv := beValue_lt chunk
    rw [hlen] at hv
    exact Endian.objectBytes_beValue _ _ (Nat.mod_eq_of_lt hv) hlen
  case int32 =>
    have hv := beValue_lt chunk
    rw [hlen] at hv
    exact Endian.objectBytes_beValue _ _ (Nat.mod_eq_of_lt hv) hlen

end DhcpOption

end Klevret
