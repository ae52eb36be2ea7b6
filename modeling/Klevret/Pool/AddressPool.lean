import Klevret.Foundation.Loop
import Klevret.Foundation.Tables
import Klevret.Network.HardwareAddress
import Klevret.Options.Decode

/-! # Address pools

The state of an `AddressPool` and its operations, as computations that keep the
state when they throw. The reservation tables and the lease tables are each kept
twice, by address and by MAC.
-/

namespace Klevret

open Foundation
open Std (ExtTreeMap ExtTreeSet)

variable [Host]

/-- Both ends belong to the range. -/
structure IPv4AddressRange where
  start : IPv4Address
  «end» : IPv4Address
  deriving DecidableEq

def IPv4AddressRange.contains (range : IPv4AddressRange) (ip : IPv4Address) : Bool :=
  decide (ip.toUInt32 ≥ range.start.toUInt32 ∧ ip.toUInt32 ≤ range.«end».toUInt32)

theorem IPv4AddressRange.contains_iff {range : IPv4AddressRange} {ip : IPv4Address} :
    range.contains ip = true ↔ range.start.toUInt32.toNat ≤ ip.toUInt32.toNat ∧
      ip.toUInt32.toNat ≤ range.«end».toUInt32.toNat := by
  simp [IPv4AddressRange.contains, UInt32.le_iff_toNat_le]

structure AddressPool where
  addressesRange : IPv4AddressRange
  includedAddresses : ExtTreeSet IPv4Address
  excludedAddresses : ExtTreeSet IPv4Address
  /-- together with the next one -/
  reservedIpAddresses : ExtTreeMap IPv4Address MacAddress
  reservedMacAddresses : ExtTreeMap MacAddress IPv4Address
  /-- also together with the next one -/
  takenIpAddresses : ExtTreeMap IPv4Address MacAddress
  takenMacAddresses : ExtTreeMap MacAddress IPv4Address
  cache : ExtTreeMap MacAddress IPv4Address
  options : ExtTreeMap ℤ DhcpOption

namespace AddressPool

/-- One pass of the constructor's `for` loop over the address and the set so far. -/
def includePass (endIp : IPv4Address) :
    IPv4Address × ExtTreeSet IPv4Address →
      (IPv4Address × ExtTreeSet IPv4Address) ⊕ ExtTreeSet IPv4Address
  | (ip, included) =>
    if ip.toUInt32 ≤ endIp.toUInt32 then .inl (ip.increment, included.insert ip)
    else .inr included

/-- The constructor, with fuel for its loop. -/
def new (fuel : ℕ) (startIp endIp : IPv4Address) : Option AddressPool := do
  let included ← iterate (includePass endIp) fuel (startIp, ∅)
  return {
    addressesRange := ⟨startIp, endIp⟩
    includedAddresses := included
    excludedAddresses := ∅
    reservedIpAddresses := ∅
    reservedMacAddresses := ∅
    takenIpAddresses := ∅
    takenMacAddresses := ∅
    cache := ∅
    options := ∅ }

section Queries

variable (pool : AddressPool)

def isIpAddressTaken (ip : IPv4Address) : Bool := pool.takenIpAddresses.contains ip

def isMacAddressTaken (mac : MacAddress) : Bool := pool.takenMacAddresses.contains mac

def isIpAddressReserved (ip : IPv4Address) : Bool := pool.reservedIpAddresses.contains ip

def isMacAddressReserved (mac : MacAddress) : Bool := pool.reservedMacAddresses.contains mac

def isAddressIncluded (ip : IPv4Address) : Bool := pool.includedAddresses.contains ip

def isAddressExcluded (ip : IPv4Address) : Bool := pool.excludedAddresses.contains ip

def isAddressCached (mac : MacAddress) : Bool := pool.cache.contains mac

def getAddressesRange : IPv4AddressRange := pool.addressesRange

/-- The loop of `get_address` over the included addresses, in their order. -/
def firstFree : Option IPv4Address :=
  pool.includedAddresses.toList.find? fun ip =>
    ! (pool.isIpAddressReserved ip || pool.isIpAddressTaken ip)

end Queries

abbrev PoolM := EStateM Stop AddressPool

def reservedIpAt (ip : IPv4Address) : PoolM MacAddress :=
  subscript reservedIpAddresses (fun pool table => { pool with reservedIpAddresses := table }) ip

def reservedMacAt (mac : MacAddress) : PoolM IPv4Address :=
  subscript reservedMacAddresses (fun pool table => { pool with reservedMacAddresses := table }) mac

def takenMacAt (mac : MacAddress) : PoolM IPv4Address :=
  subscript takenMacAddresses (fun pool table => { pool with takenMacAddresses := table }) mac

def cacheAt (mac : MacAddress) : PoolM IPv4Address :=
  subscript cache (fun pool table => { pool with cache := table }) mac

def setTakenMac (mac : MacAddress) (ip : IPv4Address) : PoolM Unit :=
  modify fun pool => { pool with takenMacAddresses := pool.takenMacAddresses.insert mac ip }

def setTakenIp (ip : IPv4Address) (mac : MacAddress) : PoolM Unit :=
  modify fun pool => { pool with takenIpAddresses := pool.takenIpAddresses.insert ip mac }

def reserveIp (ip : IPv4Address) (mac : MacAddress) : PoolM Unit := do
  if ¬ (← get).isAddressIncluded ip then
    raise "Невозможно зарезервировать IP адрес, он отсутствует в пуле."
  if (← get).isIpAddressReserved ip then
    raise "Невозможно зарезервировать IP адрес, он уже зарезервирован"
  if (← get).isIpAddressTaken ip then
    raise "Невозможно зарезервировать IP адрес, он используется"
  modify fun pool =>
    { pool with reservedIpAddresses := pool.reservedIpAddresses.insert ip mac }
  modify fun pool =>
    { pool with reservedMacAddresses := pool.reservedMacAddresses.insert mac ip }

def unreserveIp (ip : IPv4Address) : PoolM Unit := do
  if ¬ (← get).isIpAddressReserved ip then
    raise "Невозможно разрезервировать IP адрес, он не зарезервирован"
  let mac ← reservedIpAt ip
  modify fun pool => { pool with reservedMacAddresses := pool.reservedMacAddresses.erase mac }
  modify fun pool => { pool with reservedIpAddresses := pool.reservedIpAddresses.erase ip }

/-- The body of `release_address` is empty. -/
def releaseAddress (_ip : IPv4Address) : PoolM Unit := return ()

def excludeIp (ip : IPv4Address) : PoolM Unit := do
  if ¬ (← get).includedAddresses.toList.contains ip then return ()
  else do
    modify fun pool => { pool with excludedAddresses := pool.excludedAddresses.insert ip }
    if (← get).reservedIpAddresses.contains ip then unreserveIp ip
    if (← get).takenIpAddresses.contains ip then releaseAddress ip
    match (← get).cache.toList.find? fun pair => pair.2 = ip with
    | some pair => modify fun pool => { pool with cache := pool.cache.erase pair.1 }
    | none => pure ()
    modify fun pool => { pool with includedAddresses := pool.includedAddresses.erase ip }

/-- `while (current != ip_end)`, with fuel. -/
def excludeUntil (ipEnd : IPv4Address) : ℕ → IPv4Address → PoolM Unit
  | 0, _ => throw .outOfFuel
  | n + 1, current =>
    if current = ipEnd then return ()
    else do
      excludeIp current
      excludeUntil ipEnd n current.increment

/-- The cursor wraps around, so it meets `ip_end` after fewer than `2 ^ 32` steps. -/
def excludeIpRange (ipStart ipEnd : IPv4Address) : PoolM Unit := do
  excludeUntil ipEnd (2 ^ 32) ipStart
  excludeIp ipEnd

def getAddress (mac : MacAddress) : PoolM IPv4Address := do
  if (← get).isMacAddressReserved mac then
    setTakenMac mac (← reservedMacAt mac)
    setTakenIp (← reservedMacAt mac) mac
    reservedMacAt mac
  else if (← get).isMacAddressTaken mac then
    takenMacAt mac
  else if (← get).isAddressCached mac ∧ ¬ (← get).isMacAddressTaken mac then
    setTakenMac mac (← cacheAt mac)
    setTakenIp (← cacheAt mac) mac
    cacheAt mac
  else
    match (← get).firstFree with
    | some ip =>
      setTakenMac mac ip
      setTakenIp ip mac
      return ip
    | none => raise "нет свободных адресов для выдачи"

def setOption (option : DhcpOption) : PoolM Unit :=
  modify fun pool => { pool with options := pool.options.insert option.description.code option }

def removeOption (optionNumber : ℤ) : PoolM Unit :=
  modify fun pool => { pool with options := pool.options.erase optionNumber }

end AddressPool

end Klevret
