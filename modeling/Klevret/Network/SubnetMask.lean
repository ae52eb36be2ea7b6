import Klevret.Network.IpAddress
import Mathlib.Algebra.Order.BigOperators.Group.List

/-! # Subnet masks and their prefix lengths

The bits of a mask are counted octet by octet in network order. The mask of a
prefix length is built from a single bit in host order, which starts in the
lowest octet, so only eight bits of it are ever set.
-/

namespace Klevret

open Foundation

namespace IPv4SubnetMask

/-- The loop of `to_prefix` over the bits of an octet. -/
def octetPrefix (octet : UInt8) : (n : ℕ) → (one : UInt8) → ℕ
  | 0, _ => 0
  | n + 1, one => (if octet &&& one ≠ 0 then 1 else 0) + octetPrefix octet n (one >>> 1)

def toPrefix (mask : IPv4SubnetMask) : ℕ :=
  (mask.data.toList.map fun octet => octetPrefix octet 8 128).sum

/-- The loop of `from_prefix`. -/
def prefixBits : (n : ℕ) → (one mask : UInt32) → UInt32
  | 0, _, mask => mask
  | n + 1, one, mask => prefixBits n (one >>> 1) (mask ||| one)

/-- All one bits are the most significant ones. -/
def IsContiguous (mask : UInt32) : Prop :=
  ∃ ones ≤ 32, mask.toNat = 2 ^ 32 - 2 ^ (32 - ones)

/-- The masks that `from_prefix` can build. -/
def lowMasks : List UInt32 := [0, 128, 192, 224, 240, 248, 252, 254, 255]

section Lengths

theorem octetPrefix_le (octet : UInt8) (n : ℕ) (one : UInt8) : octetPrefix octet n one ≤ n := by
  induction n generalizing one with
  | zero => exact le_rfl
  | succ n ih =>
    have hrest := ih (one >>> 1)
    rw [octetPrefix]
    split_ifs <;> omega

theorem toPrefix_le (mask : IPv4SubnetMask) : mask.toPrefix ≤ 32 := by
  have hle : ∀ n ∈ mask.data.toList.map fun octet => octetPrefix octet 8 128, n ≤ 8 := by
    rw [List.forall_mem_map]
    exact fun octet _ => octetPrefix_le octet 8 128
  have hsum := List.sum_le_card_nsmul _ 8 hle
  rw [List.length_map, List.Vector.toList_length] at hsum
  exact hsum

theorem prefixBits_add (n : ℕ) : prefixBits (8 + n) 128 0 = 255 := by
  have hout : ∀ n, prefixBits n 0 255 = 255 := by
    intro n
    induction n with
    | zero => rfl
    | succ n ih => exact ih
  have hsteps : ∀ n, prefixBits (n + 8) 128 0 = prefixBits n 0 255 := fun n => rfl
  rw [Nat.add_comm, hsteps, hout]

theorem prefixBits_mem (n : ℕ) : prefixBits n 128 0 ∈ lowMasks := by
  rcases Nat.lt_or_ge n 8 with hlt | hge
  · have hall : ∀ n < 8, prefixBits n 128 0 ∈ lowMasks := by decide
    exact hall n hlt
  · obtain ⟨n, rfl⟩ := Nat.exists_eq_add_of_le hge
    rw [prefixBits_add]
    decide

end Lengths

theorem toNetworkData_injective : Function.Injective toNetworkData := by
  rintro ⟨data⟩ ⟨data'⟩ h
  exact congrArg mk (List.Vector.toList_injective h)

theorem isContiguous_zero : IsContiguous 0 := ⟨0, by decide, by decide⟩

/-- The only contiguous mask that can be built has no bits at all. -/
theorem eq_zero_of_isContiguous {mask : UInt32} (h : IsContiguous mask) (hlow : mask ∈ lowMasks) :
    mask = 0 := by
  obtain ⟨ones, hones, hmask⟩ := h
  have hsmall : lowMasks.all (·.toNat ≤ 255) = true := by decide
  have hle := of_decide_eq_true (List.all_eq_true.mp hsmall mask hlow)
  cases ones with
  | zero =>
    apply UInt32.toNat_inj.mp
    rw [hmask]
    rfl
  | succ ones =>
    have hhalf : 2 ^ (32 - (ones + 1)) ≤ 2 ^ 31 := Nat.pow_le_pow_right (by decide) (by omega)
    omega

variable [Host]

def ofUInt32 (mask : UInt32) : IPv4SubnetMask :=
  ⟨hostToNetworkEndianArray (w := 4) mask.toBitVec⟩

def fromPrefix (length : ℤ) : Exec IPv4SubnetMask :=
  if length < 0 ∨ length > 32 then
    throwRuntimeError "Неверный префикс (маска подсети). Допустимые значения [0..32]"
  else return ofUInt32 (prefixBits length.toNat 128 0)

/-- The prefix length of a mask gives its network bytes back. -/
def SurvivesPrefix (mask : UInt32) : Prop :=
  toNetworkData <$> fromPrefix (toPrefix (ofUInt32 mask)) = .ok (ofUInt32 mask).toNetworkData

theorem ofUInt32_injective : Function.Injective ofUInt32 := by
  intro mask mask' h
  have hdata : hostToNetworkEndianArray (w := 4) mask.toBitVec =
      hostToNetworkEndianArray (w := 4) mask'.toBitVec := congrArg data h
  have hbits := congrArg networkArrayToHostEndian hdata
  rw [networkArrayToHostEndian_hostToNetworkEndianArray,
    networkArrayToHostEndian_hostToNetworkEndianArray] at hbits
  exact UInt32.toBitVec_inj.mp hbits

theorem toPrefix_ofUInt32 (mask : UInt32) :
    toPrefix (ofUInt32 mask) =
      ((leBytes 4 mask.toNat).reverse.map fun octet => octetPrefix octet 8 128).sum := by
  rw [toPrefix, ofUInt32, hostToNetworkEndianArray_eq]
  rfl

/-- The masks that can be built have the length that they are built from. -/
theorem prefixBits_toPrefix {mask : UInt32} (h : mask ∈ lowMasks) :
    prefixBits (toPrefix (ofUInt32 mask)) 128 0 = mask := by
  rw [toPrefix_ofUInt32]
  have hall : (lowMasks.all fun mask => prefixBits
      ((leBytes 4 mask.toNat).reverse.map fun octet => octetPrefix octet 8 128).sum 128 0 =
        mask) = true := by decide
  exact of_decide_eq_true (List.all_eq_true.mp hall mask h)

theorem survivesPrefix_iff {mask : UInt32} : SurvivesPrefix mask ↔ mask ∈ lowMasks := by
  have hle := toPrefix_le (ofUInt32 mask)
  have hbuild : fromPrefix (toPrefix (ofUInt32 mask)) =
      .ok (ofUInt32 (prefixBits (toPrefix (ofUInt32 mask)) 128 0)) := by
    rw [fromPrefix, if_neg (by omega), Int.toNat_natCast]
    rfl
  rw [SurvivesPrefix, hbuild, Exec.map_ok, Except.ok.injEq, toNetworkData_injective.eq_iff,
    ofUInt32_injective.eq_iff]
  constructor
  · intro h
    rw [← h]
    exact prefixBits_mem _
  · exact prefixBits_toPrefix

/-- Except for the empty mask, the contiguous masks and the masks that can be built are on the wrong
side. -/
theorem fromPrefix_toPrefix_iff (mask : UInt32) :
    (SurvivesPrefix mask ↔ IsContiguous mask) ↔
      mask = 0 ∨ ¬ IsContiguous mask ∧ mask ∉ lowMasks := by
  rw [survivesPrefix_iff]
  constructor
  · intro h
    by_cases hlow : mask ∈ lowMasks
    · exact Or.inl (eq_zero_of_isContiguous (h.mp hlow) hlow)
    · exact Or.inr ⟨fun hcontiguous => hlow (h.mpr hcontiguous), hlow⟩
  · rintro (rfl | ⟨hcontiguous, hlow⟩)
    · exact iff_of_true (by decide) isContiguous_zero
    · exact iff_of_false hlow hcontiguous

end IPv4SubnetMask

/-- The mask 255.255.255.0. -/
theorem not_survivesPrefix_sample :
    letI : Host := ⟨.little⟩
    ¬ ∀ mask : UInt32, IPv4SubnetMask.SurvivesPrefix mask ↔ IPv4SubnetMask.IsContiguous mask := by
  let host : Host := ⟨.little⟩
  intro h
  have hlow := IPv4SubnetMask.survivesPrefix_iff.mp
    ((h 0xffffff00).mpr ⟨24, by decide, by decide⟩)
  exact absurd hlow (by decide)

end Klevret
