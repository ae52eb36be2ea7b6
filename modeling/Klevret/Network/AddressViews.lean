import Klevret.Network.DottedText

/-! # The views of an address

An address is a text, four octets in network order, a host integer and a place
in the order of a container. Each view is recovered from the others, and the
order of the integers is the order of the octets.
-/

namespace Klevret

open Foundation

/-- The views of an address agree. Text and wire bytes are read back, the octets are the digits of
the integer from its high end, the postfix operators move the integer by one and undo each other,
and the order is the lexicographic order of the octets. -/
structure ViewsAgree [Host] : Prop where
  text : ∀ ip : IPv4Address, ∃ read, IPv4Address.ofString ip.toString = .ok read ∧ read.beq ip
  network : ∀ ip : IPv4Address, ∃ read,
    IPv4Address.fromBigEndianBytes ip.toNetworkData 0 ip.toNetworkData.length = .ok read ∧
      read.beq ip
  integer : ∀ n : UInt32, (IPv4Address.ofUInt32 n).toUInt32 = n
  octets : ∀ n : UInt32, (IPv4Address.ofUInt32 n).toNetworkData =
    [n >>> 24, n >>> 16, n >>> 8, n].map UInt32.toUInt8
  increment_old : ∀ ip : IPv4Address, (IPv4Address.postIncrement.run ip).1 = ip
  increment_new : ∀ ip : IPv4Address,
    (IPv4Address.postIncrement.run ip).2.toUInt32.toNat = (ip.toUInt32.toNat + 1) % 2 ^ 32
  decrement_old : ∀ ip : IPv4Address, (IPv4Address.postDecrement.run ip).1 = ip
  decrement_new : ∀ ip : IPv4Address,
    ((IPv4Address.postDecrement.run ip).2.toUInt32.toNat : ℤ) =
      ((ip.toUInt32.toNat : ℤ) - 1) % 2 ^ 32
  increment_decrement : ∀ ip : IPv4Address,
    ((IPv4Address.postIncrement *> IPv4Address.postDecrement).run ip).2 = ip
  decrement_increment : ∀ ip : IPv4Address,
    ((IPv4Address.postDecrement *> IPv4Address.postIncrement).run ip).2 = ip
  order : ∀ a b : IPv4Address, IPv4Address.lt a b ↔ a.toNetworkData < b.toNetworkData

namespace IPv4Address

theorem fromBigEndianBytes_toNetworkData (ip : IPv4Address) :
    fromBigEndianBytes ip.toNetworkData 0 ip.toNetworkData.length = .ok ip := by
  have hlength : ip.toNetworkData.length = 0 + 4 := ip.data.toList_length
  have hdata : slice ip.toNetworkData 0 4 = .ok ip.data := slice_toList ip.data
  rw [hlength, fromBigEndianBytes_add, hdata]
  rfl

theorem toUInt8_shiftRight (n k : UInt32) (h : k.toNat < 32) :
    (n >>> k).toUInt8 = UInt8.ofNat (n.toNat / 2 ^ k.toNat) := by
  apply UInt8.toNat_inj.mp
  rw [UInt32.toNat_toUInt8, UInt32.toNat_shiftRight, Nat.mod_eq_of_lt h,
    Nat.shiftRight_eq_div_pow, UInt8.toNat_ofNat']

variable [Host]

theorem toNetworkData_ofUInt32 (n : UInt32) :
    (ofUInt32 n).toNetworkData = [n >>> 24, n >>> 16, n >>> 8, n].map UInt32.toUInt8 := by
  have hdigits : (ofUInt32 n).toNetworkData = (leBytes 4 n.toNat).reverse := by
    rw [toNetworkData, ofUInt32, hostToNetworkEndianArray_eq, Endian.toList_objectBytes]
    rfl
  rw [hdigits]
  simp [leBytes, toUInt8_shiftRight, Nat.div_div_eq_div_mul]

theorem lt_iff (a b : IPv4Address) : lt a b ↔ a.toNetworkData < b.toNetworkData := by
  have hlength : a.toNetworkData.length = b.toNetworkData.length :=
    a.data.toList_length.trans b.data.toList_length.symm
  rw [lt, decide_eq_true_eq, UInt32.lt_iff_toNat_lt, toNat_toUInt32, toNat_toUInt32]
  exact beValue_lt_beValue_iff hlength

@[simp] theorem run_postIncrement (ip : IPv4Address) :
    postIncrement.run ip = (ip, ip.increment) := rfl

@[simp] theorem run_postDecrement (ip : IPv4Address) :
    postDecrement.run ip = (ip, ip.decrement) := rfl

@[simp] theorem decrement_increment (ip : IPv4Address) : ip.increment.decrement = ip := by
  apply toUInt32_injective
  rw [toUInt32_decrement, toUInt32_increment, UInt32.add_sub_cancel]

@[simp] theorem increment_decrement (ip : IPv4Address) : ip.decrement.increment = ip := by
  apply toUInt32_injective
  rw [toUInt32_increment, toUInt32_decrement, UInt32.sub_add_cancel]

end IPv4Address

theorem viewsAgree [Host] : ViewsAgree := by
  constructor
  case text =>
    intro ip
    exact ⟨ip, ip.ofString_toString, IPv4Address.beq_iff.mpr rfl⟩
  case network =>
    intro ip
    exact ⟨ip, ip.fromBigEndianBytes_toNetworkData, IPv4Address.beq_iff.mpr rfl⟩
  case integer => exact IPv4Address.toUInt32_ofUInt32
  case octets => exact IPv4Address.toNetworkData_ofUInt32
  case increment_old => exact fun _ => rfl
  case increment_new =>
    intro ip
    rw [IPv4Address.run_postIncrement, IPv4Address.toUInt32_increment]
    rfl
  case decrement_old => exact fun _ => rfl
  case decrement_new =>
    intro ip
    have hlt := ip.toUInt32.toNat_lt
    rw [IPv4Address.run_postDecrement, IPv4Address.toUInt32_decrement, UInt32.toNat_sub,
      UInt32.toNat_one]
    omega
  case increment_decrement => exact IPv4Address.decrement_increment
  case decrement_increment => exact IPv4Address.increment_decrement
  case order => exact IPv4Address.lt_iff

/-- A carry runs through the lower octets. -/
example : ((@IPv4Address.postIncrement ⟨.little⟩).run
    ⟨⟨[192, 168, 255, 255], rfl⟩⟩).2.toNetworkData = [192, 169, 0, 0] := by decide

end Klevret
