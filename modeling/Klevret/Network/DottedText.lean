import Klevret.Network.DottedQuad

/-! # Addresses as text

Both address types are printed with a dot between the decimal numbers of their
octets. What is printed is a dotted quad of these octets, so it is read back.
-/

namespace Klevret

open Foundation

/-- `std::to_string` of a number that is not negative -/
def decimalText (n : ℕ) : List UInt8 :=
  if n = 0 then [48] else (Nat.digits 10 n).reverse.map fun digit => UInt8.ofNat (48 + digit)

theorem decimalText_ne_nil (n : ℕ) : decimalText n ≠ [] := by
  unfold decimalText
  split_ifs with h
  · exact List.cons_ne_nil _ _
  · rw [ne_eq, List.map_eq_nil_iff, List.reverse_eq_nil_iff]
    exact Nat.digits_ne_nil_iff_ne_zero.mpr h

theorem toNat_ofNat_digit {digit : ℕ} (h : digit < 10) :
    (UInt8.ofNat (48 + digit)).toNat = 48 + digit := by
  rw [UInt8.toNat_ofNat']
  omega

theorem isDigit_of_mem_decimalText {n : ℕ} {ch : UInt8} (h : ch ∈ decimalText n) :
    isDigit ch = true := by
  unfold decimalText at h
  split_ifs at h with hn
  · rw [List.mem_singleton.mp h]
    rfl
  · obtain ⟨digit, hmem, rfl⟩ := List.mem_map.mp h
    have hlt := Nat.digits_lt_base (by decide) (List.mem_reverse.mp hmem)
    rw [isDigit, decide_eq_true_eq, UInt8.le_iff_toNat_le, UInt8.le_iff_toNat_le,
      toNat_ofNat_digit hlt]
    simp only [UInt8.reduceToNat]
    omega

@[simp] theorem decimal_decimalText (n : ℕ) : decimal (decimalText n) = n := by
  unfold decimalText
  split_ifs with hn
  · rw [hn]
    rfl
  · have hdigits : (Nat.digits 10 n).map
        ((fun ch : UInt8 => ch.toNat - 48) ∘ fun digit => UInt8.ofNat (48 + digit)) =
        (Nat.digits 10 n).map id := by
      apply List.map_congr_left
      intro digit hmem
      rw [Function.comp_apply, toNat_ofNat_digit (Nat.digits_lt_base (by decide) hmem),
        Nat.add_sub_cancel_left, id_eq]
    rw [decimal, ← List.map_reverse, List.reverse_reverse, List.map_map, hdigits, List.map_id,
      Nat.ofDigits_digits]

def dottedText (octets : List UInt8) : List UInt8 :=
  [46].intercalate (octets.map fun octet => decimalText octet.toNat)

def IPv4Address.toString (ip : IPv4Address) : List UInt8 := dottedText ip.data.toList

theorem isDottedQuad_dottedText {octets : List UInt8} (h : octets.length = 4) :
    IsDottedQuad (dottedText octets) (octets.map fun octet => decimalText octet.toNat) := by
  refine ⟨Delimited.of_intercalate ?_ ?_, by rw [List.length_map, h], ?_, ?_⟩
  · rw [ne_eq, List.map_eq_nil_iff]
    rintro rfl
    cases h
  · simp only [List.forall_mem_map]
    exact fun octet _ ch => isDigit_of_mem_decimalText
  · simp only [List.forall_mem_map]
    exact fun octet _ => decimalText_ne_nil _
  · simp only [List.forall_mem_map, decimal_decimalText]
    exact fun octet _ => Nat.le_of_lt_succ octet.toNat_lt

theorem ofString_dottedText (octets : Bytes 4) :
    IPv4Address.ofString (dottedText octets.toList) = .ok ⟨octets⟩ := by
  obtain ⟨ip, hip, hparse⟩ := (isDottedQuad_dottedText octets.toList_length).ofString
  have hoctets : ip.data = octets := by
    apply List.Vector.toList_injective
    change ip.toNetworkData = octets.toList
    rw [hip, List.map_map]
    simp [Function.comp_def]
  rw [hparse, ← hoctets]

theorem IPv4Address.ofString_toString (ip : IPv4Address) : ofString ip.toString = .ok ip :=
  ofString_dottedText ip.data

end Klevret
