import Klevret.Foundation.ByteOrder
import Mathlib.Algebra.Order.BigOperators.Group.List
import Mathlib.Data.Nat.ModEq

/-! # Ones-complement sums

Words of `w` bits are added, and the carry is brought back to the lowest bit.
That keeps the value modulo `2 ^ w - 1`, and only zeros have the sum zero. So
all bits of a sum are ones where it is positive and a multiple of `2 ^ w - 1`,
which does not depend on the order of the bytes in the words.
-/

namespace Foundation

/-- Bring the carry behind `w` bits back to the lowest bit. -/
def foldCarry (w n : ℕ) : ℕ := n / 2 ^ w + n % 2 ^ w

def onesAdd (w a b : ℕ) : ℕ := foldCarry w (a + b)

/-- The ones-complement sum of words. -/
def onesSum (w : ℕ) (words : List ℕ) : ℕ := words.foldr (onesAdd w) 0

/-- The words of two bytes each; an odd last byte is followed by a zero byte. -/
def wordsOf (order : Endian) : List UInt8 → List ℕ
  | [] => []
  | [b] => [leValue (order.arrange [b, 0])]
  | b :: b' :: bytes => leValue (order.arrange [b, b']) :: wordsOf order bytes

variable {w a b n : ℕ} {words : List ℕ}

section Carry

theorem foldCarry_modEq (w n : ℕ) : foldCarry w n ≡ n [MOD 2 ^ w - 1] := by
  have hpos : 0 < 2 ^ w := Nat.two_pow_pos w
  have hn : n = (2 ^ w - 1) * (n / 2 ^ w) + foldCarry w n := by
    calc n = 2 ^ w * (n / 2 ^ w) + n % 2 ^ w := (Nat.div_add_mod n _).symm
      _ = (2 ^ w - 1 + 1) * (n / 2 ^ w) + n % 2 ^ w := by rw [Nat.sub_add_cancel hpos]
      _ = (2 ^ w - 1) * (n / 2 ^ w) + foldCarry w n := by rw [foldCarry]; ring
  conv_rhs => rw [hn]
  exact (Nat.ModEq.modulus_mul_add).symm

theorem foldCarry_of_lt (h : n < 2 ^ w) : foldCarry w n = n := by
  rw [foldCarry, Nat.div_eq_of_lt h, Nat.mod_eq_of_lt h, Nat.zero_add]

theorem foldCarry_eq_zero_iff : foldCarry w n = 0 ↔ n = 0 := by
  constructor
  · intro h
    obtain ⟨hdiv, hmod⟩ := Nat.add_eq_zero_iff.mp h
    rw [← Nat.div_add_mod n (2 ^ w), hdiv, hmod, Nat.mul_zero]
  · rintro rfl
    exact foldCarry_of_lt (Nat.two_pow_pos w)

theorem onesAdd_lt (ha : a < 2 ^ w) (hb : b < 2 ^ w) : onesAdd w a b < 2 ^ w := by
  rw [onesAdd]
  rcases Nat.lt_or_ge (a + b) (2 ^ w) with hlt | hge
  · rwa [foldCarry_of_lt hlt]
  · obtain ⟨r, hr⟩ := Nat.exists_eq_add_of_le hge
    have hrlt : r + 1 < 2 ^ w := by omega
    rw [hr, foldCarry, Nat.add_div_left _ (Nat.two_pow_pos w), Nat.add_mod_left,
      Nat.div_eq_of_lt (by omega), Nat.mod_eq_of_lt (by omega), Nat.add_comm]
    exact hrlt

theorem eq_of_modEq (ha : a < 2 ^ w) (hb : b < 2 ^ w) (h : a ≡ b [MOD 2 ^ w - 1])
    (hzero : a = 0 ↔ b = 0) : a = b := by
  cases a with
  | zero => exact (hzero.mp rfl).symm
  | succ a =>
    cases b with
    | zero => exact hzero.mpr rfl
    | succ b =>
      have hab : a ≡ b [MOD 2 ^ w - 1] := Nat.ModEq.add_right_cancel' 1 h
      rw [hab.eq_of_lt_of_lt (by omega) (by omega)]

end Carry

section Sum

theorem onesSum_cons (a : ℕ) (words : List ℕ) :
    onesSum w (a :: words) = onesAdd w a (onesSum w words) := rfl

theorem onesSum_modEq (w : ℕ) (words : List ℕ) : onesSum w words ≡ words.sum [MOD 2 ^ w - 1] := by
  induction words with
  | nil => rfl
  | cons a words ih =>
    rw [onesSum_cons, List.sum_cons]
    exact (foldCarry_modEq w _).trans (ih.add_left a)

theorem onesSum_lt (h : ∀ a ∈ words, a < 2 ^ w) : onesSum w words < 2 ^ w := by
  induction words with
  | nil => exact Nat.two_pow_pos w
  | cons a words ih =>
    rw [List.forall_mem_cons] at h
    exact onesAdd_lt h.1 (ih h.2)

theorem onesSum_eq_zero_iff : onesSum w words = 0 ↔ words.sum = 0 := by
  induction words with
  | nil => exact iff_of_true rfl rfl
  | cons a words ih =>
    rw [onesSum_cons, onesAdd, foldCarry_eq_zero_iff, List.sum_cons, Nat.add_eq_zero_iff,
      Nat.add_eq_zero_iff, ih]

theorem onesSum_eq_iff (hw : 0 < w) (h : ∀ a ∈ words, a < 2 ^ w) :
    onesSum w words = 2 ^ w - 1 ↔ 0 < words.sum ∧ 2 ^ w - 1 ∣ words.sum := by
  have htwo : 2 ^ 1 ≤ 2 ^ w := Nat.pow_le_pow_right (by decide) hw
  have hmod := onesSum_modEq w words
  have hzero : onesSum w words = 0 ↔ words.sum = 0 := onesSum_eq_zero_iff
  rw [← Nat.modEq_zero_iff_dvd]
  constructor
  · intro hones
    rw [hones] at hmod hzero
    exact ⟨by omega, hmod.symm.trans Nat.modulus_modEq_zero⟩
  · rintro ⟨hpos, hdvd⟩
    have hones : words.sum ≡ 2 ^ w - 1 [MOD 2 ^ w - 1] := hdvd.trans Nat.modulus_modEq_zero.symm
    apply eq_of_modEq (onesSum_lt h) (by omega) (hmod.trans hones)
    exact iff_of_false (by omega) (by omega)

end Sum

section Bytes

variable {order : Endian} {bytes before behind : List UInt8} {b b' : UInt8}

theorem leValue_pair_lt (order : Endian) (b b' : UInt8) :
    leValue (order.arrange [b, b']) < 2 ^ 16 := by
  have hlength : (order.arrange [b, b']).length = 2 := Endian.length_arrange order [b, b']
  have hlt := leValue_lt (order.arrange [b, b'])
  rw [hlength] at hlt
  exact hlt.trans_eq (by norm_num)

theorem wordsOf_lt (order : Endian) (bytes : List UInt8) :
    ∀ a ∈ wordsOf order bytes, a < 2 ^ 16 := by
  induction bytes using wordsOf.induct with
  | case1 => exact List.forall_mem_nil _
  | case2 b =>
    rw [wordsOf, List.forall_mem_singleton]
    exact leValue_pair_lt order b 0
  | case3 b b' bytes ih =>
    rw [wordsOf, List.forall_mem_cons]
    exact ⟨leValue_pair_lt order b b', ih⟩

theorem length_wordsOf (order : Endian) (bytes : List UInt8) :
    (wordsOf order bytes).length = (bytes.length + 1) / 2 := by
  induction bytes using wordsOf.induct with
  | case1 => rfl
  | case2 b => rw [wordsOf, List.length_singleton, List.length_singleton]
  | case3 b b' bytes ih =>
    rw [wordsOf, List.length_cons, ih, List.length_cons, List.length_cons]
    omega

theorem wordsOf_append (h : before.length % 2 = 0) :
    wordsOf order (before ++ behind) = wordsOf order before ++ wordsOf order behind := by
  induction before using wordsOf.induct with
  | case1 => rfl
  | case2 b => cases h
  | case3 b b' before ih =>
    rw [List.length_cons, List.length_cons] at h
    rw [List.cons_append, List.cons_append, wordsOf, ih (by omega), wordsOf, List.cons_append]

/-- Changing the order of the bytes in each word multiplies the sum. -/
theorem sum_wordsOf_big (bytes : List UInt8) :
    (wordsOf .big bytes).sum ≡ 256 * (wordsOf .little bytes).sum [MOD 2 ^ 16 - 1] := by
  have hswap : ∀ b b' : UInt8, leValue (Endian.big.arrange [b, b']) ≡
      256 * leValue (Endian.little.arrange [b, b']) [MOD 2 ^ 16 - 1] := by
    intro b b'
    have hbig : leValue (Endian.big.arrange [b, b']) = 256 * b.toNat + b'.toNat := by
      simp [Endian.arrange, leValue, Nat.add_comm]
    have hlittle : 256 * leValue (Endian.little.arrange [b, b']) =
        (2 ^ 16 - 1) * b'.toNat + (256 * b.toNat + b'.toNat) := by
      simp only [Endian.arrange, leValue]
      omega
    rw [hbig, hlittle]
    exact Nat.ModEq.modulus_mul_add.symm
  induction bytes using wordsOf.induct with
  | case1 => rfl
  | case2 b =>
    rw [wordsOf, wordsOf, List.sum_singleton, List.sum_singleton]
    exact hswap b 0
  | case3 b b' bytes ih =>
    rw [wordsOf, wordsOf, List.sum_cons, List.sum_cons, Nat.mul_add]
    exact (hswap b b').add ih

theorem leValue_pair_eq_zero_iff :
    leValue (order.arrange [b, b']) = 0 ↔ b.toNat = 0 ∧ b'.toNat = 0 := by
  cases order <;> simp [Endian.arrange, leValue, and_comm]

theorem sum_wordsOf_eq_zero_iff :
    (wordsOf order bytes).sum = 0 ↔ ∀ b ∈ bytes, b.toNat = 0 := by
  induction bytes using wordsOf.induct with
  | case1 => simp [wordsOf]
  | case2 b => simp [wordsOf, leValue_pair_eq_zero_iff]
  | case3 b b' bytes ih =>
    rw [wordsOf, List.sum_cons, Nat.add_eq_zero_iff, leValue_pair_eq_zero_iff, ih,
      List.forall_mem_cons, List.forall_mem_cons, and_assoc]

/-- Whether all bits of the sum are ones does not depend on the order of the bytes. -/
theorem onesSum_wordsOf_iff (order order' : Endian) (bytes : List UInt8) :
    onesSum 16 (wordsOf order bytes) = 2 ^ 16 - 1 ↔
      onesSum 16 (wordsOf order' bytes) = 2 ^ 16 - 1 := by
  have hcoprime : Nat.Coprime (2 ^ 16 - 1) 256 := by decide
  have hbig : onesSum 16 (wordsOf .big bytes) = 2 ^ 16 - 1 ↔
      onesSum 16 (wordsOf .little bytes) = 2 ^ 16 - 1 := by
    rw [onesSum_eq_iff (by decide) (wordsOf_lt _ _), onesSum_eq_iff (by decide) (wordsOf_lt _ _),
      Nat.pos_iff_ne_zero, Nat.pos_iff_ne_zero, ne_eq, ne_eq, sum_wordsOf_eq_zero_iff,
      sum_wordsOf_eq_zero_iff, (sum_wordsOf_big bytes).dvd_iff dvd_rfl, hcoprime.dvd_mul_left]
  cases order with
  | little =>
    cases order' with
    | little => rfl
    | big => exact hbig.symm
  | big =>
    cases order' with
    | little => exact hbig
    | big => rfl

end Bytes

end Foundation
