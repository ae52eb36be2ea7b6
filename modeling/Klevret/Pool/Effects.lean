import Klevret.Pool.AddressPool

/-! # What the pool operations do

Each operation is summed up by the cases of its outcome and the tables that it
changes. Later results only look at these cases.
-/

namespace Klevret

open Foundation
open Std (ExtTreeMap)

variable [Host]

/-- A call of a public operation. -/
inductive PoolOp where
  | excludeIp (ip : IPv4Address)
  | excludeIpRange (ipStart ipEnd : IPv4Address)
  | reserveIp (ip : IPv4Address) (mac : MacAddress)
  | unreserveIp (ip : IPv4Address)
  | getAddress (mac : MacAddress)
  | releaseAddress (ip : IPv4Address)
  | setOption (option : DhcpOption)
  | removeOption (optionNumber : ℤ)
  deriving DecidableEq

namespace AddressPool

/-- The call as a computation; only `get_address` returns a value. -/
def call : PoolOp → PoolM (Option IPv4Address)
  | .excludeIp ip => do excludeIp ip; return none
  | .excludeIpRange ipStart ipEnd => do excludeIpRange ipStart ipEnd; return none
  | .reserveIp ip mac => do reserveIp ip mac; return none
  | .unreserveIp ip => do unreserveIp ip; return none
  | .getAddress mac => do return some (← getAddress mac)
  | .releaseAddress ip => do releaseAddress ip; return none
  | .setOption option => do setOption option; return none
  | .removeOption optionNumber => do removeOption optionNumber; return none

def withReservation (pool : AddressPool) (ip : IPv4Address) (mac : MacAddress) : AddressPool :=
  { pool with
    reservedIpAddresses := pool.reservedIpAddresses.insert ip mac
    reservedMacAddresses := pool.reservedMacAddresses.insert mac ip }

def withoutReservation (pool : AddressPool) (ip : IPv4Address) (mac : MacAddress) : AddressPool :=
  { pool with
    reservedMacAddresses := pool.reservedMacAddresses.erase mac
    reservedIpAddresses := pool.reservedIpAddresses.erase ip }

def withLease (pool : AddressPool) (mac : MacAddress) (ip : IPv4Address) : AddressPool :=
  { pool with
    takenMacAddresses := pool.takenMacAddresses.insert mac ip
    takenIpAddresses := pool.takenIpAddresses.insert ip mac }

def dropReservation (pool : AddressPool) (ip : IPv4Address) : AddressPool :=
  match pool.reservedIpAddresses[ip]? with
  | some mac => pool.withoutReservation ip mac
  | none => pool

def dropCached (pool : AddressPool) (ip : IPv4Address) : AddressPool :=
  match pool.cache.toList.find? fun pair => pair.2 = ip with
  | some pair => { pool with cache := pool.cache.erase pair.1 }
  | none => pool

/-- The pool after `exclude_ip`. -/
def without (pool : AddressPool) (ip : IPv4Address) : AddressPool :=
  if ip ∈ pool.includedAddresses then
    let pool := { pool with excludedAddresses := pool.excludedAddresses.insert ip }
    let pool := (pool.dropReservation ip).dropCached ip
    { pool with includedAddresses := pool.includedAddresses.erase ip }
  else pool

/-- As many consecutive addresses, the last address being followed by the first. -/
def addressesFrom : ℕ → IPv4Address → List IPv4Address
  | 0, _ => []
  | n + 1, ip => ip :: addressesFrom n ip.increment

/-- The addresses that the cursor of `exclude_ip_range` visits. -/
def addressesUpTo (ipStart ipEnd : IPv4Address) : List IPv4Address :=
  addressesFrom ((ipEnd.toUInt32 - ipStart.toUInt32).toNat + 1) ipStart

/-- The cases of a call. -/
inductive Effect : AddressPool → PoolOp → Exec (Option IPv4Address) → AddressPool → Prop
  | exclude (pool : AddressPool) (ip : IPv4Address) :
      Effect pool (.excludeIp ip) (.ok none) (pool.without ip)
  | excludeRange (pool : AddressPool) (ipStart ipEnd : IPv4Address) :
      Effect pool (.excludeIpRange ipStart ipEnd) (.ok none)
        ((addressesUpTo ipStart ipEnd).foldl without pool)
  | reserve {pool : AddressPool} {ip : IPv4Address} (mac : MacAddress) :
      ip ∈ pool.includedAddresses → pool.reservedIpAddresses[ip]? = none →
      pool.takenIpAddresses[ip]? = none →
      Effect pool (.reserveIp ip mac) (.ok none) (pool.withReservation ip mac)
  | notReserved {pool : AddressPool} {ip : IPv4Address} (mac : MacAddress) (e : Stop) :
      ¬ (ip ∈ pool.includedAddresses ∧ pool.reservedIpAddresses[ip]? = none ∧
        pool.takenIpAddresses[ip]? = none) →
      Effect pool (.reserveIp ip mac) (.error e) pool
  | unreserve {pool : AddressPool} {ip : IPv4Address} {mac : MacAddress} :
      pool.reservedIpAddresses[ip]? = some mac →
      Effect pool (.unreserveIp ip) (.ok none) (pool.withoutReservation ip mac)
  | notUnreserved {pool : AddressPool} {ip : IPv4Address} (e : Stop) :
      pool.reservedIpAddresses[ip]? = none → Effect pool (.unreserveIp ip) (.error e) pool
  | reservation {pool : AddressPool} {mac : MacAddress} {ip : IPv4Address} :
      pool.reservedMacAddresses[mac]? = some ip →
      Effect pool (.getAddress mac) (.ok (some ip)) (pool.withLease mac ip)
  | lease {pool : AddressPool} {mac : MacAddress} {ip : IPv4Address} :
      pool.reservedMacAddresses[mac]? = none → pool.takenMacAddresses[mac]? = some ip →
      Effect pool (.getAddress mac) (.ok (some ip)) pool
  | cached {pool : AddressPool} {mac : MacAddress} {ip : IPv4Address} :
      pool.reservedMacAddresses[mac]? = none → pool.takenMacAddresses[mac]? = none →
      pool.cache[mac]? = some ip →
      Effect pool (.getAddress mac) (.ok (some ip)) (pool.withLease mac ip)
  | free {pool : AddressPool} {mac : MacAddress} {ip : IPv4Address} :
      pool.reservedMacAddresses[mac]? = none → pool.takenMacAddresses[mac]? = none →
      pool.cache[mac]? = none → pool.firstFree = some ip →
      Effect pool (.getAddress mac) (.ok (some ip)) (pool.withLease mac ip)
  | exhausted {pool : AddressPool} {mac : MacAddress} (e : Stop) :
      pool.reservedMacAddresses[mac]? = none → pool.takenMacAddresses[mac]? = none →
      pool.cache[mac]? = none → pool.firstFree = none →
      Effect pool (.getAddress mac) (.error e) pool
  | release (pool : AddressPool) (ip : IPv4Address) :
      Effect pool (.releaseAddress ip) (.ok none) pool
  | setOption (pool : AddressPool) (option : DhcpOption) :
      Effect pool (.setOption option) (.ok none)
        { pool with options := pool.options.insert option.description.code option }
  | removeOption (pool : AddressPool) (optionNumber : ℤ) :
      Effect pool (.removeOption optionNumber) (.ok none)
        { pool with options := pool.options.erase optionNumber }

section Runs

variable (pool : AddressPool) (ip : IPv4Address) (mac : MacAddress)

@[simp] theorem isAddressIncluded_iff :
    pool.isAddressIncluded ip = true ↔ ip ∈ pool.includedAddresses := by
  simp [isAddressIncluded]

@[simp] theorem isIpAddressReserved_iff :
    pool.isIpAddressReserved ip = true ↔ ip ∈ pool.reservedIpAddresses := by
  simp [isIpAddressReserved]

@[simp] theorem isMacAddressReserved_iff :
    pool.isMacAddressReserved mac = true ↔ mac ∈ pool.reservedMacAddresses := by
  simp [isMacAddressReserved]

@[simp] theorem isIpAddressTaken_iff :
    pool.isIpAddressTaken ip = true ↔ ip ∈ pool.takenIpAddresses := by
  simp [isIpAddressTaken]

@[simp] theorem isMacAddressTaken_iff :
    pool.isMacAddressTaken mac = true ↔ mac ∈ pool.takenMacAddresses := by
  simp [isMacAddressTaken]

@[simp] theorem isAddressCached_iff : pool.isAddressCached mac = true ↔ mac ∈ pool.cache := by
  simp [isAddressCached]

theorem run_reserveIp :
    (reserveIp ip mac).run pool =
      if ip ∉ pool.includedAddresses then
        .error (.throws (.runtimeError
          "Невозможно зарезервировать IP адрес, он отсутствует в пуле.")) pool
      else if ip ∈ pool.reservedIpAddresses then
        .error (.throws (.runtimeError
          "Невозможно зарезервировать IP адрес, он уже зарезервирован")) pool
      else if ip ∈ pool.takenIpAddresses then
        .error (.throws (.runtimeError
          "Невозможно зарезервировать IP адрес, он используется")) pool
      else .ok () (pool.withReservation ip mac) := by
  by_cases hin : ip ∈ pool.includedAddresses
  · by_cases hr : ip ∈ pool.reservedIpAddresses
    · simp [reserveIp, hin, hr]
    · by_cases ht : ip ∈ pool.takenIpAddresses
      · simp [reserveIp, hin, hr, ht]
      · simp [reserveIp, hin, hr, ht, withReservation]
  · simp [reserveIp, hin]

theorem run_unreserveIp :
    (unreserveIp ip).run pool =
      match pool.reservedIpAddresses[ip]? with
      | some mac => .ok () (pool.withoutReservation ip mac)
      | none => .error (.throws (.runtimeError
          "Невозможно разрезервировать IP адрес, он не зарезервирован")) pool := by
  cases hr : pool.reservedIpAddresses[ip]? with
  | some m =>
    have hat : (reservedIpAt ip).run pool = .ok m pool := run_subscript_some hr
    have hmem : ip ∈ pool.reservedIpAddresses := mem_of_lookup hr
    simp [unreserveIp, hmem, hat, withoutReservation]
  | none =>
    have hmem : ip ∉ pool.reservedIpAddresses := not_mem_of_lookup hr
    simp [unreserveIp, hmem]

theorem run_excludeIp : (excludeIp ip).run pool = .ok () (pool.without ip) := by
  by_cases hin : ip ∈ pool.includedAddresses
  · by_cases hr : ip ∈ pool.reservedIpAddresses
    · cases hc : pool.cache.toList.find? fun pair => pair.2 = ip <;>
        simp [excludeIp, without, hin, hr, run_unreserveIp, releaseAddress, hc, dropReservation,
          dropCached, withoutReservation]
    · cases hc : pool.cache.toList.find? fun pair => pair.2 = ip <;>
        simp [excludeIp, without, hin, hr, releaseAddress, hc, dropReservation, dropCached]
  · simp [excludeIp, without, hin]

/-- The cursor stops at the end of the range, however far that is. -/
theorem run_excludeUntil (ipEnd : IPv4Address) (n : ℕ) (current : IPv4Address)
    (hn : (ipEnd.toUInt32 - current.toUInt32).toNat < n) :
    (excludeUntil ipEnd n current).run pool =
      .ok () ((addressesFrom (ipEnd.toUInt32 - current.toUInt32).toNat current).foldl without
        pool) := by
  induction n generalizing current pool with
  | zero => omega
  | succ n ih =>
    by_cases he : current = ipEnd
    · subst he
      simp [excludeUntil, addressesFrom]
    · have hne : current.toUInt32 ≠ ipEnd.toUInt32 := fun h => he (IPv4Address.toUInt32_injective h)
      have hstep : (ipEnd.toUInt32 - current.toUInt32).toNat =
          (ipEnd.toUInt32 - current.increment.toUInt32).toNat + 1 := by
        rw [IPv4Address.toUInt32_increment, toNat_sub_of_ne hne]
      rw [hstep] at hn ⊢
      simp [excludeUntil, he, run_excludeIp, ih _ _ (Nat.lt_of_succ_lt_succ hn), addressesFrom]

theorem addressesFrom_succ (n : ℕ) (ip : IPv4Address) :
    addressesFrom (n + 1) ip = addressesFrom n ip ++ [.ofUInt32 (ip.toUInt32 + .ofNat n)] := by
  induction n generalizing ip with
  | zero => simp [addressesFrom]
  | succ n ih =>
    have hsucc : UInt32.ofNat (n + 1) = 1 + UInt32.ofNat n := by
      rw [UInt32.ofNat_add, UInt32.add_comm]
      rfl
    rw [addressesFrom, ih, addressesFrom, List.cons_append, IPv4Address.toUInt32_increment,
      UInt32.add_assoc, hsucc]

theorem run_excludeIpRange (ipStart ipEnd : IPv4Address) :
    (excludeIpRange ipStart ipEnd).run pool =
      .ok () ((addressesUpTo ipStart ipEnd).foldl without pool) := by
  have hn := (ipEnd.toUInt32 - ipStart.toUInt32).toNat_lt
  have hlast : IPv4Address.ofUInt32 (ipStart.toUInt32 +
      .ofNat (ipEnd.toUInt32 - ipStart.toUInt32).toNat) = ipEnd := by
    rw [UInt32.ofNat_toNat, UInt32.add_comm, UInt32.sub_add_cancel, IPv4Address.ofUInt32_toUInt32]
  rw [addressesUpTo, addressesFrom_succ, hlast, List.foldl_append]
  simp [excludeIpRange, run_excludeUntil _ _ _ _ hn, run_excludeIp]

/-- Reservations come before leases, leases before the cache, the cache before free addresses. -/
theorem run_getAddress :
    (getAddress mac).run pool =
      match pool.reservedMacAddresses[mac]?, pool.takenMacAddresses[mac]?, pool.cache[mac]?,
          pool.firstFree with
      | some ip, _, _, _ => .ok ip (pool.withLease mac ip)
      | none, some ip, _, _ => .ok ip pool
      | none, none, some ip, _ => .ok ip (pool.withLease mac ip)
      | none, none, none, some ip => .ok ip (pool.withLease mac ip)
      | none, none, none, none =>
        .error (.throws (.runtimeError "нет свободных адресов для выдачи")) pool := by
  cases hr : pool.reservedMacAddresses[mac]? with
  | some ip =>
    have hmem : mac ∈ pool.reservedMacAddresses := mem_of_lookup hr
    have hat : ∀ p : AddressPool, p.reservedMacAddresses = pool.reservedMacAddresses →
        (reservedMacAt mac).run p = .ok ip p := fun p hp => run_subscript_some (hp ▸ hr)
    simp [getAddress, hmem, hat, setTakenMac, setTakenIp, withLease]
  | none =>
    have hmem : mac ∉ pool.reservedMacAddresses := not_mem_of_lookup hr
    cases ht : pool.takenMacAddresses[mac]? with
    | some ip =>
      have hmem' : mac ∈ pool.takenMacAddresses := mem_of_lookup ht
      have hat : (takenMacAt mac).run pool = .ok ip pool := run_subscript_some ht
      simp [getAddress, hmem, hmem', hat]
    | none =>
      have hmem' : mac ∉ pool.takenMacAddresses := not_mem_of_lookup ht
      cases hc : pool.cache[mac]? with
      | some ip =>
        have hmem'' : mac ∈ pool.cache := mem_of_lookup hc
        have hat : ∀ p : AddressPool, p.cache = pool.cache → (cacheAt mac).run p = .ok ip p :=
          fun p hp => run_subscript_some (hp ▸ hc)
        simp [getAddress, hmem, hmem', hmem'', hat, setTakenMac, setTakenIp, withLease]
      | none =>
        have hmem'' : mac ∉ pool.cache := not_mem_of_lookup hc
        cases hf : pool.firstFree with
        | some ip =>
          simp only [getAddress, isMacAddressReserved_iff, isMacAddressTaken_iff,
            isAddressCached_iff, EStateM.run_bind, EStateM.run_get, hmem, hmem', hmem'', hf,
            false_and, if_false]
          rfl
        | none =>
          simp [getAddress, hmem, hmem', hmem'', hf]

end Runs

/-- Every call is one of the cases. -/
theorem effect_call (pool : AddressPool) (op : PoolOp) :
    Effect pool op (observe ((call op).run pool)).1 (observe ((call op).run pool)).2 := by
  cases op with
  | excludeIp ip =>
    simp only [call, EStateM.run_bind, run_excludeIp, EStateM.run_pure, observe]
    exact .exclude pool ip
  | excludeIpRange a b =>
    simp only [call, EStateM.run_bind, run_excludeIpRange, EStateM.run_pure, observe]
    exact .excludeRange pool a b
  | reserveIp ip mac =>
    simp only [call, EStateM.run_bind, run_reserveIp]
    by_cases hin : ip ∈ pool.includedAddresses
    · by_cases hr : ip ∈ pool.reservedIpAddresses
      · simp only [hin, hr, not_true_eq_false, if_false, if_true]
        exact .notReserved mac _ fun h => not_mem_of_lookup h.2.1 hr
      · by_cases ht : ip ∈ pool.takenIpAddresses
        · simp only [hin, hr, ht, not_true_eq_false, if_false, if_true]
          exact .notReserved mac _ fun h => not_mem_of_lookup h.2.2 ht
        · simp only [hin, hr, ht, not_true_eq_false, if_false]
          exact .reserve mac hin (ExtTreeMap.getElem?_eq_none hr) (ExtTreeMap.getElem?_eq_none ht)
    · simp only [hin, not_false_eq_true, if_true]
      exact .notReserved mac _ fun h => hin h.1
  | unreserveIp ip =>
    simp only [call, EStateM.run_bind, run_unreserveIp]
    cases h : pool.reservedIpAddresses[ip]? with
    | some mac => exact .unreserve h
    | none => exact .notUnreserved _ h
  | getAddress mac =>
    simp only [call, EStateM.run_bind, run_getAddress]
    cases hr : pool.reservedMacAddresses[mac]? with
    | some ip => exact .reservation hr
    | none =>
      cases ht : pool.takenMacAddresses[mac]? with
      | some ip => exact .lease hr ht
      | none =>
        cases hc : pool.cache[mac]? with
        | some ip => exact .cached hr ht hc
        | none =>
          cases hf : pool.firstFree with
          | some ip => exact .free hr ht hc hf
          | none => exact .exhausted _ hr ht hc hf
  | releaseAddress ip => exact .release pool ip
  | setOption option => exact .setOption pool option
  | removeOption optionNumber => exact .removeOption pool optionNumber

theorem Effect.of_reserved {pool pool' : AddressPool} {mac : MacAddress} {ip : IPv4Address}
    {outcome : Exec (Option IPv4Address)} (he : Effect pool (.getAddress mac) outcome pool')
    (hr : pool.reservedMacAddresses[mac]? = some ip) :
    outcome = .ok (some ip) ∧ pool' = pool.withLease mac ip := by
  cases he with
  | reservation hr' =>
    obtain rfl := Option.some.inj (hr.symm.trans hr')
    exact ⟨rfl, rfl⟩
  | lease hr' => simp [hr] at hr'
  | cached hr' => simp [hr] at hr'
  | free hr' => simp [hr] at hr'
  | exhausted _ hr' => simp [hr] at hr'

theorem Effect.of_leased {pool pool' : AddressPool} {mac : MacAddress} {ip : IPv4Address}
    {outcome : Exec (Option IPv4Address)} (he : Effect pool (.getAddress mac) outcome pool')
    (hr : pool.reservedMacAddresses[mac]? = none) (ht : pool.takenMacAddresses[mac]? = some ip) :
    outcome = .ok (some ip) ∧ pool' = pool := by
  cases he with
  | reservation hr' => simp [hr] at hr'
  | lease _ ht' =>
    obtain rfl := Option.some.inj (ht.symm.trans ht')
    exact ⟨rfl, rfl⟩
  | cached _ ht' => simp [ht] at ht'
  | free _ ht' => simp [ht] at ht'
  | exhausted _ _ ht' => simp [ht] at ht'

end AddressPool

end Klevret
