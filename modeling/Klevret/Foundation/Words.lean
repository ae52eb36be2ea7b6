import Klevret.Foundation.ByteOrder

/-! # Words as shifted bytes

A word that is put together from bytes by shifts has the big-endian value of the
bytes, so shifting and masking takes the bytes out again.
-/

namespace Foundation

def word16 (a b : UInt8) : UInt16 := a.toUInt16 <<< 8 ||| b.toUInt16

def word32 (a b c d : UInt8) : UInt32 :=
  a.toUInt32 <<< 24 ||| b.toUInt32 <<< 16 ||| c.toUInt32 <<< 8 ||| d.toUInt32

def bytes16 (w : UInt16) : List UInt8 := [(w >>> 8 &&& 0xFF).toUInt8, (w &&& 0xFF).toUInt8]

def bytes32 (w : UInt32) : List UInt8 :=
  [(w >>> 24).toUInt8, (w >>> 16 &&& 0xFF).toUInt8, (w >>> 8 &&& 0xFF).toUInt8,
    (w &&& 0xFF).toUInt8]

theorem shiftLeft_or {a b n : ℕ} (hb : b < 2 ^ n) : a <<< n ||| b = a * 2 ^ n + b := by
  rw [← Nat.shiftLeft_add_eq_or_of_lt hb, Nat.shiftLeft_eq]

theorem shiftLeft_or_shiftLeft {a b m : ℕ} (n : ℕ) (hb : b < 2 ^ m) :
    a <<< (m + n) ||| b <<< n = (a * 2 ^ m + b) <<< n := by
  rw [Nat.shiftLeft_add, ← Nat.shiftLeft_or_distrib, shiftLeft_or hb]

theorem toNat_word16 (a b : UInt8) : (word16 a b).toNat = a.toNat * 2 ^ 8 + b.toNat := by
  have ha := a.toNat_lt
  have hshift : a.toNat <<< 8 < 2 ^ 16 := by
    rw [Nat.shiftLeft_eq]
    omega
  simp only [word16, UInt16.toNat_or, UInt16.toNat_shiftLeft, UInt8.toNat_toUInt16,
    UInt16.reduceToNat, Nat.reduceMod, Nat.mod_eq_of_lt hshift]
  exact shiftLeft_or b.toNat_lt

theorem toNat_word32 (a b c d : UInt8) : (word32 a b c d).toNat =
      ((a.toNat * 2 ^ 8 + b.toNat) * 2 ^ 8 + c.toNat) * 2 ^ 8 + d.toNat := by
  have hshift : ∀ (x : UInt8) (n : ℕ), n ≤ 24 → x.toNat <<< n < 2 ^ 32 := by
    intro x n hn
    calc x.toNat <<< n = x.toNat * 2 ^ n := Nat.shiftLeft_eq _ _
      _ ≤ x.toNat * 2 ^ 24 := Nat.mul_le_mul_left _ (Nat.pow_le_pow_right (by decide) hn)
      _ < 2 ^ 32 := by
        have hx := x.toNat_lt
        omega
  simp only [word32, UInt32.toNat_or, UInt32.toNat_shiftLeft, UInt8.toNat_toUInt32,
    UInt32.reduceToNat, Nat.reduceMod, Nat.mod_eq_of_lt (hshift a 24 le_rfl),
    Nat.mod_eq_of_lt (hshift b 16 (by decide)), Nat.mod_eq_of_lt (hshift c 8 (by decide))]
  rw [shiftLeft_or_shiftLeft (m := 8) 16 b.toNat_lt, shiftLeft_or_shiftLeft (m := 8) 8 c.toNat_lt,
    shiftLeft_or d.toNat_lt]

theorem and_mask (n : ℕ) : n &&& 255 = n % 256 := Nat.and_two_pow_sub_one_eq_mod n 8

@[simp] theorem bytes16_word16 (a b : UInt8) : bytes16 (word16 a b) = [a, b] := by
  have ha := a.toNat_lt
  have hb := b.toNat_lt
  simp only [bytes16, List.cons.injEq, and_true, ← UInt8.toNat_inj, UInt16.toNat_toUInt8,
    UInt16.toNat_and, UInt16.toNat_shiftRight, UInt16.reduceToNat, Nat.reduceMod, and_mask,
    Nat.shiftRight_eq_div_pow, toNat_word16]
  omega

@[simp] theorem bytes32_word32 (a b c d : UInt8) : bytes32 (word32 a b c d) = [a, b, c, d] := by
  have ha := a.toNat_lt
  have hb := b.toNat_lt
  have hc := c.toNat_lt
  have hd := d.toNat_lt
  simp only [bytes32, List.cons.injEq, and_true, ← UInt8.toNat_inj, UInt32.toNat_toUInt8,
    UInt32.toNat_and, UInt32.toNat_shiftRight, UInt32.reduceToNat, Nat.reduceMod, and_mask,
    Nat.shiftRight_eq_div_pow, toNat_word32]
  omega

theorem exists_word16 (w : UInt16) : ∃ a b, word16 a b = w := by
  refine ⟨(w.toNat / 256).toUInt8, w.toNat.toUInt8, ?_⟩
  have hw := w.toNat_lt
  rw [← UInt16.toNat_inj, toNat_word16]
  simp only [Nat.toUInt8_eq, UInt8.toNat_ofNat']
  omega

theorem exists_word32 (w : UInt32) : ∃ a b c d, word32 a b c d = w := by
  refine ⟨(w.toNat / 2 ^ 24).toUInt8, (w.toNat / 2 ^ 16).toUInt8, (w.toNat / 2 ^ 8).toUInt8,
    w.toNat.toUInt8, ?_⟩
  have hw := w.toNat_lt
  rw [← UInt32.toNat_inj, toNat_word32]
  simp only [Nat.toUInt8_eq, UInt8.toNat_ofNat']
  omega

end Foundation
