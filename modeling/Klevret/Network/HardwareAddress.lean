import Klevret.Network.IpAddress

/-! # Hardware addresses

The only hardware address the server understands is the six-byte Ethernet MAC
address. Its hand-written comparison is the lexicographic order of the bytes.
-/

namespace Klevret

open Foundation

/-- `HardwareAddressType` is an enumeration over `uint8_t`, filled by an unchecked cast. -/
abbrev HardwareAddressType := UInt8

def HardwareAddressType.ethernet10Mb : HardwareAddressType := 1

/-- RFC 1700 numbers the known types from 1 to 21; only the first one has a length here. -/
def getHardwareAddressLength (htype : HardwareAddressType) : ℤ :=
  if htype = .ethernet10Mb then 6 else if 2 ≤ htype ∧ htype ≤ 21 then -1 else 0

abbrev DHCP_HARDWARE_ADDRESS_MAX_LENGTH : ℕ := 16

abbrev MAC_ADDRESS_LENGTH : ℕ := 6

example : (MAC_ADDRESS_LENGTH : ℤ) = getHardwareAddressLength .ethernet10Mb := rfl

structure MacAddress where
  data : Bytes MAC_ADDRESS_LENGTH
  deriving DecidableEq

namespace MacAddress

/-- A value-initialised address has zero bytes. -/
instance : Inhabited MacAddress := ⟨⟨.replicate _ 0⟩⟩

def fromBigEndianBytes (data : List UInt8) (first last : ℕ) : Exec MacAddress := do
  let octets ← fillOctets MAC_ADDRESS_LENGTH "MAC адрес заполнен не полностью" data first last
  return ⟨octets⟩

def makePtrFromBigEndianBytes (data : List UInt8) (first last : ℕ) : Exec MacAddress := do
  let octets ← fillOctets MAC_ADDRESS_LENGTH "MAC адрес заполнен не полностью" data first last
  return ⟨octets⟩

theorem makePtrFromBigEndianBytes_add (data : List UInt8) (first : ℕ) :
    makePtrFromBigEndianBytes data first (first + 6) = mk <$> slice data first 6 := by
  rw [makePtrFromBigEndianBytes, fillOctets_eq_slice le_rfl]
  rfl

/-- The address padded with zeros to the width of the `chaddr` field. -/
def toChaddr (mac : MacAddress) : List UInt8 :=
  mac.data.toList ++ List.replicate (DHCP_HARDWARE_ADDRESS_MAX_LENGTH - MAC_ADDRESS_LENGTH) 0

/-- The loop of `operator<` over the bytes of both addresses. -/
def ltLoop : List UInt8 → List UInt8 → Bool
  | a :: as, b :: bs => if a > b then false else if a < b then true else ltLoop as bs
  | _, _ => false

/-- `operator<` -/
def lt (lhs rhs : MacAddress) : Bool := ltLoop lhs.data.toList rhs.data.toList

/-- `operator==` -/
def beq (lhs rhs : MacAddress) : Bool := lhs.data == rhs.data

theorem beq_iff {lhs rhs : MacAddress} : beq lhs rhs = true ↔ lhs = rhs := by
  rw [beq, beq_iff_eq]
  exact ⟨fun h => congrArg mk h, congrArg data⟩

theorem ltLoop_self (l : List UInt8) : ltLoop l l = false := by
  induction l with
  | nil => rfl
  | cons a l ih => simp [ltLoop, ih]

theorem ltLoop_cons_iff {a b : UInt8} {l m : List UInt8} :
    ltLoop (a :: l) (b :: m) = true ↔ a < b ∨ a = b ∧ ltLoop l m = true := by
  rw [ltLoop]
  rcases Nat.lt_trichotomy a.toNat b.toNat with h | h | h
  · have hab : a < b := UInt8.lt_iff_toNat_lt.mpr h
    simp [hab, UInt8.lt_asymm hab]
  · obtain rfl := UInt8.toNat_inj.mp h
    simp
  · have hba : b < a := UInt8.lt_iff_toNat_lt.mpr h
    have hne : a ≠ b := by rintro rfl; omega
    simp [hba, UInt8.lt_asymm hba, hne]

theorem ltLoop_trans {l m n : List UInt8} (hlm : ltLoop l m = true) (hmn : ltLoop m n = true) :
    ltLoop l n = true := by
  induction l generalizing m n with
  | nil => simp [ltLoop] at hlm
  | cons a l ih =>
    cases m with
    | nil => simp [ltLoop] at hlm
    | cons b m =>
      cases n with
      | nil => simp [ltLoop] at hmn
      | cons c n =>
        rw [ltLoop_cons_iff] at hlm hmn ⊢
        rcases hlm with hab | ⟨rfl, hlm⟩
        · rcases hmn with hbc | ⟨rfl, _⟩
          · exact Or.inl (UInt8.lt_trans hab hbc)
          · exact Or.inl hab
        · rcases hmn with hbc | ⟨rfl, hmn⟩
          · exact Or.inl hbc
          · exact Or.inr ⟨rfl, ih hlm hmn⟩

theorem ltLoop_total {l m : List UInt8} (hl : l.length = m.length) (hlm : ltLoop l m = false)
    (hml : ltLoop m l = false) : l = m := by
  induction l generalizing m with
  | nil => exact (List.length_eq_zero_iff.mp hl.symm).symm
  | cons a l ih =>
    cases m with
    | nil => simp at hl
    | cons b m =>
      have hab := mt ltLoop_cons_iff.mpr (by simpa using hlm)
      have hba := mt ltLoop_cons_iff.mpr (by simpa using hml)
      rcases Nat.lt_trichotomy a.toNat b.toNat with h | h | h
      · exact absurd (Or.inl (UInt8.lt_iff_toNat_lt.mpr h)) hab
      · obtain rfl := UInt8.toNat_inj.mp h
        simp only [true_and, not_or, Bool.not_eq_true] at hab hba
        rw [ih (by simpa using hl) hab.2 hba.2]
      · exact absurd (Or.inl (UInt8.lt_iff_toNat_lt.mpr h)) hba

theorem strictTotal_lt : StrictTotal lt where
  irrefl a := ltLoop_self a.data.toList
  trans hab hbc := ltLoop_trans hab hbc
  total {a b} hab hba := by
    have h := ltLoop_total (by simp) hab hba
    cases a; cases b
    exact congrArg MacAddress.mk (List.Vector.toList_injective h)

instance : Ord MacAddress := ⟨compareOfLt lt⟩

instance : Std.TransOrd MacAddress := strictTotal_lt.transCmp

instance : Std.LawfulEqOrd MacAddress := strictTotal_lt.lawfulEqCmp

end MacAddress

end Klevret
