import Klevret.Pool.AddressPool

/-! # The keys of the pool's collections

The collections of a pool are ordered by the two hand-written comparisons. These
are strict and total up to the equality operators, so a collection never takes
two keys for one and never holds a key twice.
-/

namespace Klevret

open Foundation

namespace AddressPool

/-- Each collection of a pool tells its keys apart by the equality operator of their type. -/
structure KeysApart [Host] (pool : AddressPool) : Prop where
  includedAddresses : SetByKey IPv4Address.beq pool.includedAddresses
  excludedAddresses : SetByKey IPv4Address.beq pool.excludedAddresses
  reservedIpAddresses : TableByKey IPv4Address.beq pool.reservedIpAddresses
  reservedMacAddresses : TableByKey MacAddress.beq pool.reservedMacAddresses
  takenIpAddresses : TableByKey IPv4Address.beq pool.takenIpAddresses
  takenMacAddresses : TableByKey MacAddress.beq pool.takenMacAddresses
  cache : TableByKey MacAddress.beq pool.cache
  options : TableByKey (fun a b : ℤ => a == b) pool.options

variable [Host]

theorem keysApart (pool : AddressPool) : pool.KeysApart := by
  have hip : ∀ a b : IPv4Address, IPv4Address.beq a b ↔ a = b := fun _ _ => IPv4Address.beq_iff
  have hmac : ∀ a b : MacAddress, MacAddress.beq a b ↔ a = b := fun _ _ => MacAddress.beq_iff
  constructor
  case includedAddresses => exact setByKey hip _
  case excludedAddresses => exact setByKey hip _
  case reservedIpAddresses => exact tableByKey hip _
  case reservedMacAddresses => exact tableByKey hmac _
  case takenIpAddresses => exact tableByKey hip _
  case takenMacAddresses => exact tableByKey hmac _
  case cache => exact tableByKey hmac _
  case options => exact tableByKey (fun _ _ => beq_iff_eq) _

end AddressPool

theorem ordersKeys_keysApart [Host] : OrdersKeys MacAddress.lt MacAddress.beq ∧
    OrdersKeys IPv4Address.lt IPv4Address.beq ∧ ∀ pool : AddressPool, pool.KeysApart := by
  refine ⟨?_, ?_, AddressPool.keysApart⟩
  · apply MacAddress.strictTotal_lt.ordersKeys
    exact fun _ _ => MacAddress.beq_iff
  · apply IPv4Address.strictTotal_lt.ordersKeys
    exact fun _ _ => IPv4Address.beq_iff

end Klevret
