import Klevret.Foundation.ByteOrder
import Klevret.Foundation.Outcome

/-! # Reading a byte buffer

Iterators into a buffer are positions. Only a read at or beyond the end, or a
cursor that moves beyond the end, is undefined; merely naming a position is not.
-/

namespace Foundation

/-- The byte at a position; reading at or beyond the end is undefined. -/
def deref (data : List UInt8) (i : ℕ) : Exec UInt8 :=
  match data[i]? with
  | some b => .ok b
  | none => .error .undefined

def byteAt (data : List UInt8) (i : ℕ) : Exec UInt8 :=
  match data[i]? with
  | some b => .ok b
  | none => .error (.throws .outOfRange)

/-- Move a cursor forward; leaving the buffer is undefined. -/
def advance (data : List UInt8) (i n : ℕ) : Exec ℕ :=
  if i + n ≤ data.length then .ok (i + n) else .error .undefined

def slice (data : List UInt8) (i : ℕ) : (n : ℕ) → Exec (Bytes n)
  | 0 => .ok .nil
  | n + 1 => do
    let b ← deref data i
    let l ← slice data (i + 1) n
    return b ::ᵥ l

/-- The bytes of a container built from a range of positions. -/
def copyRange (data : List UInt8) (first last : ℕ) : Exec (List UInt8) :=
  if last < first then .error .undefined
  else do
    let bytes ← slice data first (last - first)
    return bytes.toList

section Buffer

variable {data : List UInt8} {i n : ℕ}

theorem deref_eq_ok {b : UInt8} : deref data i = .ok b ↔ data[i]? = some b := by
  unfold deref
  cases data[i]? <;> simp

theorem deref_of_lt (h : i < data.length) : deref data i = .ok data[i] := by
  simp [deref_eq_ok, h]

theorem deref_of_le (h : data.length ≤ i) : deref data i = .error .undefined := by
  simp [deref, List.getElem?_eq_none h]

theorem byteAt_of_lt (h : i < data.length) : byteAt data i = .ok (data.getD i 0) := by
  simp [byteAt, h]

theorem deref_eq_getD (h : i < data.length) : deref data i = .ok (data.getD i 0) := by
  simp [deref, h]

theorem advance_of_le (h : i + n ≤ data.length) : advance data i n = .ok (i + n) := by
  simp [advance, h]

theorem length_take_drop (h : i + n ≤ data.length) : ((data.drop i).take n).length = n := by
  rw [List.length_take, List.length_drop]
  omega

theorem slice_of_le (h : i + n ≤ data.length) :
    slice data i n = .ok (.ofList ((data.drop i).take n) (length_take_drop h)) := by
  induction n generalizing i with
  | zero => rfl
  | succ n ih =>
    rw [slice, deref_of_lt (by omega), ih (by omega)]
    simp only [Exec.ok_bind, Exec.pure_eq_ok, Except.ok.injEq]
    apply List.Vector.toList_injective
    rw [List.Vector.toList_cons, Bytes.toList_ofList, Bytes.toList_ofList,
      List.drop_eq_getElem_cons (show i < data.length by omega), List.take_succ_cons]

theorem slice_eq_of_toList {v : Bytes n} (h : i + n ≤ data.length)
    (hv : v.toList = (data.drop i).take n) : slice data i n = .ok v := by
  rw [slice_of_le h]
  apply congrArg Except.ok
  exact List.Vector.toList_injective hv.symm

theorem slice_toList (v : Bytes n) : slice v.toList 0 n = .ok v := by
  have hlength : v.toList.length = n := v.toList_length
  apply slice_eq_of_toList (by omega)
  rw [List.drop_zero, List.take_of_length_le hlength.le]

theorem slice_of_lt (hn : 0 < n) (h : data.length < i + n) :
    slice data i n = .error .undefined := by
  induction n generalizing i with
  | zero => omega
  | succ n ih =>
    rcases Nat.lt_or_ge i data.length with hi | hi
    · rw [slice, deref_of_lt hi, ih (by omega) (by omega)]
      rfl
    · rw [slice, deref_of_le hi]
      rfl

theorem slice_eq_ok {l : Bytes n} (h : slice data i n = .ok l) :
    l.toList = (data.drop i).take n ∧ (0 < n → i + n ≤ data.length) := by
  rcases Nat.eq_zero_or_pos n with rfl | hn
  · simp
  rcases Nat.lt_or_ge data.length (i + n) with hi | hi
  · simp [slice_of_lt hn hi] at h
  · rw [slice_of_le hi] at h
    obtain rfl := Except.ok.inj h
    exact ⟨rfl, fun _ => hi⟩

theorem slice_one : slice data i 1 = (· ::ᵥ .nil) <$> deref data i := by
  simp only [slice]
  cases deref data i <;> rfl

theorem slice_eq_error {e : Stop} (h : slice data i n = .error e) : e = .undefined := by
  rcases Nat.eq_zero_or_pos n with rfl | hn
  · simp [slice] at h
  · rcases Nat.lt_or_ge data.length (i + n) with hi | hi
    · rw [slice_of_lt hn hi] at h
      exact (Except.error.inj h).symm
    · simp [slice_of_le hi] at h

theorem slice_add (m : ℕ) :
    slice data i (m + n) = do
      let a ← slice data i m
      let b ← slice data (i + m) n
      return .ofList (a.toList ++ b.toList) (by simp) := by
  rcases Nat.lt_or_ge data.length (i + m + n) with h | h
  · rcases Nat.eq_zero_or_pos (m + n) with h0 | h0
    · obtain ⟨rfl, rfl⟩ : m = 0 ∧ n = 0 := by omega
      rfl
    · rw [slice_of_lt h0 (by omega)]
      cases ha : slice data i m with
      | error e => rw [slice_eq_error ha]; rfl
      | ok a =>
        have hm := (slice_eq_ok ha).2
        rw [slice_of_lt (by omega) h]
        rfl
  · rw [slice_of_le (by omega), slice_of_le (by omega), slice_of_le h]
    simp only [Exec.ok_bind, Exec.pure_eq_ok, Bytes.toList_ofList]
    congr 2
    rw [List.take_add, List.drop_drop]

theorem copyRange_inside (hb : i + n ≤ data.length) :
    copyRange data i (i + n) = .ok ((data.drop i).take n) := by
  rw [copyRange, if_neg (by omega), Nat.add_sub_cancel_left, slice_of_le hb]
  rfl

theorem copyRange_outside (hn : 0 < n) (hb : data.length < i + n) :
    copyRange data i (i + n) = .error .undefined := by
  rw [copyRange, if_neg (by omega), Nat.add_sub_cancel_left, slice_of_lt hn hb]
  rfl

end Buffer

end Foundation
