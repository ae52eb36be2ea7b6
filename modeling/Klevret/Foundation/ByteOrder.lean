import Mathlib.Data.Vector.Basic
import Mathlib.Tactic.Ring

/-! # Byte order and object representations

A word of `w` bytes is a bit vector of width `8 * w`. The order in which a host
keeps its bytes decides how a word and its object representation correspond;
reading the representation in network order does not depend on the host.
-/

namespace Foundation

/-- The value of a byte string whose least significant byte comes first. -/
def leValue : List UInt8 → ℕ
  | [] => 0
  | b :: l => b.toNat + 256 * leValue l

/-- The first `w` base-256 digits of a number, least significant first. -/
def leBytes : ℕ → ℕ → List UInt8
  | 0, _ => []
  | w + 1, n => UInt8.ofNat n :: leBytes w (n / 256)

/-- The value of a byte string whose most significant byte comes first. -/
def beValue (l : List UInt8) : ℕ := leValue l.reverse

@[simp] theorem length_leBytes (w n : ℕ) : (leBytes w n).length = w := by
  induction w generalizing n with
  | zero => rfl
  | succ w ih => simp [leBytes, ih]

theorem leValue_lt (l : List UInt8) : leValue l < 256 ^ l.length := by
  induction l with
  | nil => simp [leValue]
  | cons b l ih =>
    have hb := b.toNat_lt
    simp only [leValue, List.length_cons, pow_succ]
    omega

theorem leBytes_leValue (l : List UInt8) : leBytes l.length (leValue l) = l := by
  induction l with
  | nil => rfl
  | cons b l ih =>
    have hb := b.toNat_lt
    have hd : (b.toNat + 256 * leValue l) / 256 = leValue l := by omega
    have hm : UInt8.ofNat (b.toNat + 256 * leValue l) = b := by
      apply UInt8.toNat_inj.mp
      rw [UInt8.toNat_ofNat']
      omega
    simp only [leValue, leBytes, List.length_cons, hd, hm, ih]

theorem leBytes_leValue_of_length {w : ℕ} {l : List UInt8} (h : l.length = w) :
    leBytes w (leValue l) = l := h ▸ leBytes_leValue l

theorem leValue_leBytes (w n : ℕ) : leValue (leBytes w n) = n % 256 ^ w := by
  induction w generalizing n with
  | zero => simp [leBytes, leValue, Nat.mod_one]
  | succ w ih =>
    rw [leBytes, leValue, ih, UInt8.toNat_ofNat', pow_succ' 256 w, Nat.mod_mul]

theorem beValue_singleton (b : UInt8) : beValue [b] = b.toNat := by simp [beValue, leValue]

theorem beValue_lt (l : List UInt8) : beValue l < 256 ^ l.length := by
  simpa [beValue] using leValue_lt l.reverse

theorem leValue_append (l m : List UInt8) :
    leValue (l ++ m) = leValue l + 256 ^ l.length * leValue m := by
  induction l with
  | nil => simp [leValue]
  | cons b l ih =>
    rw [List.cons_append, leValue, leValue, ih, List.length_cons, pow_succ]
    ring

theorem beValue_cons (b : UInt8) (l : List UInt8) :
    beValue (b :: l) = b.toNat * 256 ^ l.length + beValue l := by
  have hsingle : leValue [b] = b.toNat := rfl
  rw [beValue, List.reverse_cons, leValue_append, List.length_reverse, hsingle, ← beValue]
  ring

/-- The first bit decides whether a value is in the upper half. -/
theorem two_mul_beValue_lt_iff (b : UInt8) (l : List UInt8) :
    2 * beValue (b :: l) < 256 ^ (b :: l).length ↔ b.toNat < 128 := by
  have hl := beValue_lt l
  rw [beValue_cons, List.length_cons, pow_succ]
  constructor
  · intro h
    by_contra hge
    have hlead : 128 * 256 ^ l.length ≤ b.toNat * 256 ^ l.length :=
      Nat.mul_le_mul_right _ (Nat.not_lt.mp hge)
    omega
  · intro h
    have hlead : (b.toNat + 1) * 256 ^ l.length ≤ 128 * 256 ^ l.length :=
      Nat.mul_le_mul_right _ h
    rw [Nat.succ_mul] at hlead
    omega

/-- Byte strings of the same length are ordered like their values. -/
theorem beValue_lt_beValue_iff {l m : List UInt8} (h : l.length = m.length) :
    beValue l < beValue m ↔ l < m := by
  induction l generalizing m with
  | nil =>
    obtain rfl := List.length_eq_zero_iff.mp h.symm
    exact iff_of_false (Nat.lt_irrefl _) (List.lt_irrefl _)
  | cons a l ih =>
    cases m with
    | nil => cases h
    | cons b m =>
      rw [List.length_cons, List.length_cons, Nat.add_right_cancel_iff] at h
      rw [List.cons_lt_cons_iff, ← ih h, beValue_cons, beValue_cons, h, UInt8.lt_iff_toNat_lt,
        ← UInt8.toNat_inj]
      have hl := beValue_lt l
      have hm := beValue_lt m
      rw [h] at hl
      have hstep : ∀ {x y : ℕ}, x < y → x * 256 ^ m.length + 256 ^ m.length ≤ y * 256 ^ m.length :=
        fun hxy => (Nat.succ_mul _ _).symm.trans_le (Nat.mul_le_mul_right _ hxy)
      rcases Nat.lt_trichotomy a.toNat b.toNat with hab | hab | hba
      · have hlead := hstep hab
        exact iff_of_true (by omega) (Or.inl hab)
      · rw [hab]
        omega
      · have hlead := hstep hba
        omega

/-- The order in which a host keeps the bytes of a word in memory. -/
inductive Endian where
  | little
  | big
  deriving DecidableEq, Repr

/-- A byte string of fixed length. -/
abbrev Bytes (w : ℕ) := List.Vector UInt8 w

/-- A byte list of known length as a fixed-length byte string. -/
def Bytes.ofList {w : ℕ} (l : List UInt8) (h : l.length = w) : Bytes w := ⟨l, h⟩

@[simp] theorem Bytes.toList_ofList {w : ℕ} (l : List UInt8) (h : l.length = w) :
    (Bytes.ofList l h).toList = l := rfl

/-- The first bytes of a list, filled up with zeros. -/
def Bytes.pad {w : ℕ} (l : List UInt8) : Bytes w := ⟨l.takeD w 0, List.takeD_length w l 0⟩

theorem Bytes.toList_pad {w : ℕ} {l : List UInt8} (h : l.length = w) :
    (Bytes.pad l : Bytes w).toList = l := by
  change l.takeD w 0 = l
  rw [List.takeD_eq_take _ (by omega), List.take_of_length_le (by omega)]

theorem Bytes.toList_pad_of_le {w : ℕ} {l : List UInt8} (h : l.length ≤ w) :
    (Bytes.pad l : Bytes w).toList = l ++ List.replicate (w - l.length) 0 := by
  change l.takeD w 0 = _
  induction w generalizing l with
  | zero =>
    obtain rfl := List.length_eq_zero_iff.mp (Nat.le_zero.mp h)
    rfl
  | succ w ih =>
    cases l with
    | nil => exact List.takeD_nil _ _
    | cons b l =>
      rw [List.length_cons] at h
      rw [List.takeD_succ, List.head?_cons, List.tail_cons, ih (Nat.le_of_succ_le_succ h),
        List.length_cons, Nat.add_sub_add_right]
      rfl

theorem Bytes.pad_toList {w : ℕ} (v : Bytes w) : Bytes.pad v.toList = v :=
  List.Vector.toList_injective (toList_pad v.toList_length)

namespace Endian

/-- Memory order to least-significant-first order; its own inverse. -/
def arrange : Endian → List UInt8 → List UInt8
  | little, l => l
  | big, l => l.reverse

@[simp] theorem length_arrange (e : Endian) (l : List UInt8) :
    (e.arrange l).length = l.length := by
  cases e <;> simp [arrange]

@[simp] theorem arrange_arrange (e : Endian) (l : List UInt8) : e.arrange (e.arrange l) = l := by
  cases e <;> simp [arrange]

variable {w : ℕ}

/-- Reinterpret a byte array as the word it represents in memory. -/
def bitCast (e : Endian) (bytes : Bytes w) : BitVec (8 * w) :=
  BitVec.ofNat (8 * w) (leValue (e.arrange bytes.toList))

/-- The object representation of a word. -/
def objectBytes (e : Endian) (v : BitVec (8 * w)) : Bytes w :=
  ⟨e.arrange (leBytes w v.toNat), by simp⟩

theorem two_pow_eight_mul (w : ℕ) : 2 ^ (8 * w) = 256 ^ w := by
  rw [pow_mul]; norm_num

theorem toNat_bitCast (e : Endian) (bytes : Bytes w) :
    (e.bitCast bytes).toNat = leValue (e.arrange bytes.toList) := by
  rw [bitCast, BitVec.toNat_ofNat, two_pow_eight_mul, Nat.mod_eq_of_lt]
  simpa using leValue_lt (e.arrange bytes.toList)

theorem toNat_lt (v : BitVec (8 * w)) : v.toNat < 256 ^ w :=
  two_pow_eight_mul w ▸ v.isLt

@[simp] theorem toList_objectBytes (e : Endian) (v : BitVec (8 * w)) :
    (e.objectBytes v).toList = e.arrange (leBytes w v.toNat) := rfl

theorem objectBytes_beValue (e : Endian) (v : BitVec (8 * w)) {l : List UInt8}
    (hv : v.toNat = beValue l) (hl : l.length = w) :
    (e.objectBytes v).toList = e.arrange l.reverse := by
  rw [toList_objectBytes, hv, beValue, leBytes_leValue_of_length (by simpa using hl)]

@[simp] theorem objectBytes_bitCast (e : Endian) (bytes : Bytes w) :
    e.objectBytes (e.bitCast bytes) = bytes := by
  apply List.Vector.toList_injective
  rw [toList_objectBytes, toNat_bitCast, leBytes_leValue_of_length (by simp), arrange_arrange]

@[simp] theorem bitCast_objectBytes (e : Endian) (v : BitVec (8 * w)) :
    e.bitCast (e.objectBytes v) = v := by
  apply BitVec.eq_of_toNat_eq
  rw [toNat_bitCast, toList_objectBytes, arrange_arrange, leValue_leBytes,
    Nat.mod_eq_of_lt (toNat_lt v)]

end Endian

/-- Reverse the bytes of a word. -/
def byteswap {w : ℕ} (v : BitVec (8 * w)) : BitVec (8 * w) :=
  BitVec.ofNat (8 * w) (leValue (leBytes w v.toNat).reverse)

theorem toNat_byteswap {w : ℕ} (v : BitVec (8 * w)) :
    (byteswap v).toNat = leValue (leBytes w v.toNat).reverse := by
  rw [byteswap, BitVec.toNat_ofNat, Endian.two_pow_eight_mul, Nat.mod_eq_of_lt]
  simpa using leValue_lt (leBytes w v.toNat).reverse

@[simp] theorem byteswap_byteswap {w : ℕ} (v : BitVec (8 * w)) : byteswap (byteswap v) = v := by
  apply BitVec.eq_of_toNat_eq
  rw [toNat_byteswap, toNat_byteswap, leBytes_leValue_of_length (by simp), List.reverse_reverse,
    leValue_leBytes, Nat.mod_eq_of_lt (Endian.toNat_lt v)]

theorem byteswap_bitCast_little {w : ℕ} (bytes : Bytes w) :
    byteswap (Endian.little.bitCast bytes) = Endian.big.bitCast bytes := by
  apply BitVec.eq_of_toNat_eq
  rw [toNat_byteswap, Endian.toNat_bitCast, Endian.toNat_bitCast]
  simp only [Endian.arrange]
  rw [leBytes_leValue_of_length (by simp)]

theorem objectBytes_little_byteswap {w : ℕ} (v : BitVec (8 * w)) :
    Endian.little.objectBytes (byteswap v) = Endian.big.objectBytes v := by
  rw [← Endian.bitCast_objectBytes Endian.big v, ← byteswap_bitCast_little, byteswap_byteswap]
  simp [Endian.objectBytes_bitCast, byteswap_bitCast_little]

end Foundation
