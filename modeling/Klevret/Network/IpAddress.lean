import Klevret.Foundation.KeyOrder
import Klevret.Network.Endians

/-! # IPv4 addresses and subnet masks

`IPv4Address` and `IPv4SubnetMask` hold their octets in network order. The
comparison of addresses goes through the host integer, and is shown to be the
strict total order of the big-endian values that ordered containers need.
-/

namespace Klevret

open Foundation

/-- The loop of the `from_big_endian_bytes` family: copy up to `n` octets, stopping at `last`. -/
def copyOctets (data : List UInt8) (iter last : ℕ) : (n : ℕ) → Exec (List UInt8)
  | 0 => .ok []
  | n + 1 =>
    if iter = last then .ok []
    else do
      let b ← deref data iter
      let l ← copyOctets data (iter + 1) last n
      return b :: l

/-- Fill an array of `n` octets, or throw when the range is too short. -/
def fillOctets (n : ℕ) (what : String) (data : List UInt8) (first last : ℕ) : Exec (Bytes n) := do
  let l ← copyOctets data first last n
  if h : l.length = n then return .ofList l h else throwRuntimeError what

theorem copyOctets_eq_slice {data : List UInt8} {first last n : ℕ} (h : first + n ≤ last) :
    copyOctets data first last n = (do let v ← slice data first n; return v.toList) := by
  induction n generalizing first with
  | zero => rfl
  | succ n ih =>
    have hne : first ≠ last := by omega
    simp only [copyOctets, if_neg hne, slice, ih (show first + 1 + n ≤ last by omega), bind_assoc]
    cases deref data first <;> [rfl; cases slice data (first + 1) n <;> rfl]

theorem fillOctets_eq_slice {n : ℕ} {what : String} {data : List UInt8} {first last : ℕ}
    (h : first + n ≤ last) : fillOctets n what data first last = slice data first n := by
  rw [fillOctets, copyOctets_eq_slice h]
  cases hs : slice data first n with
  | error e => rfl
  | ok v => simp [Bytes.ofList]

/-- Counting up to another number wraps around and takes one step less after each step. -/
theorem toNat_sub_of_ne {a b : UInt32} (h : a ≠ b) :
    (b - a).toNat = (b - (a + 1)).toNat + 1 := by
  have hne : a.toNat ≠ b.toNat := fun he => h (UInt32.toNat_inj.mp he)
  have ha := a.toNat_lt
  have hb := b.toNat_lt
  rw [UInt32.toNat_sub, UInt32.toNat_sub, UInt32.toNat_add]
  simp only [UInt32.reduceToNat]
  omega

abbrev IP_V4_ADDRESS_LENGTH : ℕ := 4

abbrev IP_V4_SUBNET_MASK_LENGTH : ℕ := 4

structure IPv4Address where
  /-- big endian -/
  data : Bytes IP_V4_ADDRESS_LENGTH
  deriving DecidableEq

namespace IPv4Address

def fromBigEndianBytes (data : List UInt8) (first last : ℕ) : Exec IPv4Address := do
  let octets ← fillOctets IP_V4_ADDRESS_LENGTH "Не хватает октетов для IP адреса" data first last
  return ⟨octets⟩

theorem fromBigEndianBytes_add (data : List UInt8) (first : ℕ) :
    fromBigEndianBytes data first (first + 4) = mk <$> slice data first 4 := by
  rw [fromBigEndianBytes, fillOctets_eq_slice le_rfl]
  rfl

def toNetworkData (ip : IPv4Address) : List UInt8 := ip.data.toList

/-- `operator==` -/
def beq (lhs rhs : IPv4Address) : Bool := lhs.data == rhs.data

theorem beq_iff {lhs rhs : IPv4Address} : beq lhs rhs = true ↔ lhs = rhs := by
  rw [beq, beq_iff_eq]
  exact ⟨fun h => congrArg mk h, congrArg data⟩

variable [Host]

def ofUInt32 (ipAddr : UInt32) : IPv4Address :=
  ⟨hostToNetworkEndianArray (w := 4) ipAddr.toBitVec⟩

def toUInt32 (ip : IPv4Address) : UInt32 := .ofBitVec (networkArrayToHostEndian (w := 4) ip.data)

/-- The default constructor: the address 0.0.0.0. -/
instance : Inhabited IPv4Address := ⟨ofUInt32 0⟩

/-- `_increment`, the effect of `operator++` -/
def increment (ip : IPv4Address) : IPv4Address := ofUInt32 (ip.toUInt32 + 1)

/-- `_decrement`, the effect of `operator--` -/
def decrement (ip : IPv4Address) : IPv4Address := ofUInt32 (ip.toUInt32 - 1)

/-- `operator++(int)` -/
def postIncrement : StateM IPv4Address IPv4Address := do
  let old ← get
  modify increment
  return old

/-- `operator--(int)` -/
def postDecrement : StateM IPv4Address IPv4Address := do
  let old ← get
  modify decrement
  return old

/-- `operator<` -/
def lt (lhs rhs : IPv4Address) : Bool := decide (lhs.toUInt32 < rhs.toUInt32)

theorem toNat_toUInt32 (ip : IPv4Address) : ip.toUInt32.toNat = beValue ip.toNetworkData :=
  toNat_networkArrayToHostEndian ip.data

theorem toNat_toUInt32_pad {bytes : List UInt8} (h : bytes.length = 4) :
    (mk (.pad bytes)).toUInt32.toNat = beValue bytes := by
  rw [toNat_toUInt32, toNetworkData, Bytes.toList_pad h]

@[simp] theorem ofUInt32_toUInt32 (ip : IPv4Address) : ofUInt32 ip.toUInt32 = ip := by
  cases ip
  exact congrArg IPv4Address.mk (hostToNetworkEndianArray_networkArrayToHostEndian _)

@[simp] theorem toUInt32_ofUInt32 (n : UInt32) : (ofUInt32 n).toUInt32 = n :=
  congrArg UInt32.ofBitVec (networkArrayToHostEndian_hostToNetworkEndianArray (w := 4) n.toBitVec)

theorem toUInt32_injective : Function.Injective toUInt32 :=
  Function.LeftInverse.injective ofUInt32_toUInt32

@[simp] theorem toUInt32_increment (ip : IPv4Address) :
    ip.increment.toUInt32 = ip.toUInt32 + 1 := by simp [increment]

@[simp] theorem toUInt32_decrement (ip : IPv4Address) :
    ip.decrement.toUInt32 = ip.toUInt32 - 1 := by simp [decrement]

theorem toNat_increment {ip : IPv4Address} (h : ip.toUInt32.toNat + 1 < UInt32.size) :
    ip.increment.toUInt32.toNat = ip.toUInt32.toNat + 1 := by
  rw [toUInt32_increment, UInt32.toNat_add, UInt32.toNat_one]
  exact Nat.mod_eq_of_lt h

theorem strictTotal_lt : StrictTotal lt := by
  have h : StrictTotal fun a b : UInt32 => decide (a < b) :=
    { irrefl := by simp
      trans := fun hab hbc => by
        simp only [decide_eq_true_eq, UInt32.lt_iff_toNat_lt] at *
        omega
      total := fun hab hba => by
        simp only [decide_eq_false_iff_not, UInt32.lt_iff_toNat_lt] at *
        exact UInt32.toNat_inj.mp (by omega) }
  exact h.comap toUInt32_injective

instance : Ord IPv4Address := ⟨compareOfLt lt⟩

instance : Std.TransOrd IPv4Address := strictTotal_lt.transCmp

instance : Std.LawfulEqOrd IPv4Address := strictTotal_lt.lawfulEqCmp

end IPv4Address

structure IPv4SubnetMask where
  data : Bytes IP_V4_SUBNET_MASK_LENGTH
  deriving DecidableEq

namespace IPv4SubnetMask

def fromBigEndianBytes (data : List UInt8) (first last : ℕ) : Exec IPv4SubnetMask := do
  let octets ←
    fillOctets IP_V4_SUBNET_MASK_LENGTH "Не хватает октетов для маски подсети" data first last
  return ⟨octets⟩

theorem fromBigEndianBytes_add (data : List UInt8) (first : ℕ) :
    fromBigEndianBytes data first (first + 4) = mk <$> slice data first 4 := by
  rw [fromBigEndianBytes, fillOctets_eq_slice le_rfl]
  rfl

def toNetworkData (mask : IPv4SubnetMask) : List UInt8 := mask.data.toList

end IPv4SubnetMask

end Klevret
