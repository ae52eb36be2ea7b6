import Klevret.Foundation.Buffer

/-! # Endian helpers

The templates of `endians.hpp`. A value of an integral type of `w` bytes is a
bit vector of width `8 * w`; `std::endian::native` is a parameter of the whole
model, so every result below holds on hosts of either byte order.
-/

namespace Klevret

open Foundation

/-- The platform the program is compiled for. -/
class Host where
  /-- `std::endian::native` -/
  native : Endian

/-- An integral type, with its size in bytes. -/
structure IntegralType where
  size : ℕ
  signed : Bool
  size_mem : size ∈ [1, 2, 4, 8]

namespace IntegralType

variable (type : IntegralType)

/-- The number that an object of the type holds. -/
def toInt (value : BitVec (8 * type.size)) : ℤ :=
  if type.signed then value.toInt else value.toNat

/-- The number that bytes in network order stand for. The first bit of a signed number counts
negatively. -/
def ofNetwork (bytes : List UInt8) : ℤ :=
  if type.signed ∧ 128 ≤ (bytes.headD 0).toNat then beValue bytes - 256 ^ bytes.length
  else beValue bytes

theorem size_pos : 0 < type.size := by
  have hall : ∀ size ∈ [1, 2, 4, 8], 0 < size := by decide
  exact hall type.size type.size_mem

theorem size_lt : type.size < 2 ^ 64 := by
  have hall : ∀ size ∈ [1, 2, 4, 8], size < 2 ^ 64 := by decide
  exact hall type.size type.size_mem

variable {type}

theorem toInt_eq_ofNetwork {value : BitVec (8 * type.size)} {bytes : List UInt8}
    (hlength : bytes.length = type.size) (hvalue : value.toNat = beValue bytes) :
    type.toInt value = type.ofNetwork bytes := by
  obtain ⟨b, l, rfl⟩ := List.exists_cons_of_length_pos (hlength.symm ▸ type.size_pos)
  have hupper := two_mul_beValue_lt_iff b l
  unfold toInt ofNetwork
  cases type.signed with
  | false => simp [hvalue]
  | true =>
    rw [BitVec.toInt_eq_toNat_cond, hvalue, Endian.two_pow_eight_mul, ← hlength]
    by_cases hb : b.toNat < 128
    · rw [if_pos (hupper.mpr hb)]
      simp [hb]
    · rw [if_neg (hupper.not.mpr hb)]
      simp [Nat.not_lt.mp hb]

end IntegralType

variable [Host] {w : ℕ}

/-- `std::bit_cast` needs an array of exactly the size of the target type, so the size check of
the source is part of the type here. -/
def networkArrayToHostEndian (arr : Bytes w) : BitVec (8 * w) :=
  let result := Host.native.bitCast arr
  if Host.native = .little then byteswap result else result

/-- The iterator version, for the bytes of `data` from position `first` to position `last`. -/
def networkToHostEndian (w : ℕ) (data : List UInt8) (first last : ℕ) : Exec (BitVec (8 * w)) := do
  let distance : ℕ := (((last : ℤ) - first) % 2 ^ 64).toNat
  if distance ≠ w then
    throwRuntimeError s!"Ожидалось байт - {w}.Получено байт - {distance}."
  let buffer ← slice data first w
  let result := Host.native.bitCast buffer
  return if Host.native = .little then byteswap result else result

/-- `network_to_host_endian` of a single value. -/
def networkToHostEndianValue (value : BitVec (8 * w)) : BitVec (8 * w) :=
  if Host.native = .little then byteswap value else value

def hostToNetworkEndianArray (value : BitVec (8 * w)) : Bytes w :=
  let value := if Host.native = .little then byteswap value else value
  Host.native.objectBytes value

theorem networkArrayToHostEndian_eq (arr : Bytes w) :
    networkArrayToHostEndian arr = Endian.big.bitCast arr := by
  unfold networkArrayToHostEndian
  cases Host.native with
  | little => exact byteswap_bitCast_little arr
  | big => rfl

theorem hostToNetworkEndianArray_eq (value : BitVec (8 * w)) :
    hostToNetworkEndianArray value = Endian.big.objectBytes value := by
  unfold hostToNetworkEndianArray
  cases Host.native with
  | little => exact objectBytes_little_byteswap value
  | big => rfl

theorem toNat_networkArrayToHostEndian (arr : Bytes w) :
    (networkArrayToHostEndian arr).toNat = beValue arr.toList := by
  rw [networkArrayToHostEndian_eq, Endian.toNat_bitCast]
  rfl

@[simp] theorem hostToNetworkEndianArray_networkArrayToHostEndian (arr : Bytes w) :
    hostToNetworkEndianArray (networkArrayToHostEndian arr) = arr := by
  rw [hostToNetworkEndianArray_eq, networkArrayToHostEndian_eq, Endian.objectBytes_bitCast]

@[simp] theorem networkArrayToHostEndian_hostToNetworkEndianArray (value : BitVec (8 * w)) :
    networkArrayToHostEndian (hostToNetworkEndianArray value) = value := by
  rw [hostToNetworkEndianArray_eq, networkArrayToHostEndian_eq, Endian.bitCast_objectBytes]

theorem networkToHostEndian_add (hw : w < 2 ^ 64) (data : List UInt8) (first : ℕ) :
    networkToHostEndian w data first (first + w) =
      (do let buffer ← slice data first w; return networkArrayToHostEndian buffer) := by
  have hd : ((((first + w : ℕ) : ℤ) - first) % 2 ^ 64).toNat = w := by omega
  simp only [networkToHostEndian, hd, ne_eq, not_true_eq_false, if_false]
  rfl

/-- The four helpers agree with each other and with the numbers that bytes in network order stand
for. The length of a vector fits into a `ptrdiff_t`. -/
structure EndiansAgree (type : IntegralType) : Prop where
  array : ∀ arr : Bytes type.size,
    type.toInt (networkArrayToHostEndian arr) = type.ofNetwork arr.toList
  iterators : ∀ (data : List UInt8) (first last : ℕ), first ≤ last → last ≤ data.length →
    data.length < 2 ^ 63 → last - first = type.size →
      ∃ value, networkToHostEndian type.size data first last = .ok value ∧
        type.toInt value = type.ofNetwork ((data.drop first).take (last - first))
  throws : ∀ (data : List UInt8) (first last : ℕ), first ≤ last → last ≤ data.length →
    data.length < 2 ^ 63 → last - first ≠ type.size →
      (networkToHostEndian type.size data first last).Throws
  array_host : ∀ value : BitVec (8 * type.size),
    networkArrayToHostEndian (hostToNetworkEndianArray value) = value
  host_array : ∀ arr : Bytes type.size,
    hostToNetworkEndianArray (networkArrayToHostEndian arr) = arr
  iterators_host : ∀ value : BitVec (8 * type.size),
    networkToHostEndian type.size (hostToNetworkEndianArray value).toList 0 type.size = .ok value
  host_iterators : ∀ (data : List UInt8) (value : BitVec (8 * type.size)),
    data.length < 2 ^ 63 → networkToHostEndian type.size data 0 data.length = .ok value →
      (hostToNetworkEndianArray value).toList = data
  single_single : ∀ value : BitVec (8 * type.size),
    networkToHostEndianValue (networkToHostEndianValue value) = value
  iterators_object : ∀ value : BitVec (8 * type.size),
    networkToHostEndian type.size (Host.native.objectBytes value).toList 0 type.size =
      .ok (networkToHostEndianValue value)

section Agreement

variable {data : List UInt8} {first last : ℕ}

theorem networkToHostEndianValue_self (value : BitVec (8 * w)) :
    networkToHostEndianValue (networkToHostEndianValue value) = value := by
  unfold networkToHostEndianValue
  split_ifs
  · exact byteswap_byteswap value
  · rfl

theorem networkToHostEndianValue_eq (value : BitVec (8 * w)) :
    networkToHostEndianValue value = networkArrayToHostEndian (Host.native.objectBytes value) := by
  rw [networkArrayToHostEndian, Endian.bitCast_objectBytes]
  rfl

theorem networkToHostEndian_range (hw : w < 2 ^ 64) (h : first + w ≤ data.length) {arr : Bytes w}
    (harr : arr.toList = (data.drop first).take w) :
    networkToHostEndian w data first (first + w) = .ok (networkArrayToHostEndian arr) := by
  rw [networkToHostEndian_add hw, slice_eq_of_toList h harr]
  rfl

theorem networkToHostEndian_array (hw : w < 2 ^ 64) (arr : Bytes w) :
    networkToHostEndian w arr.toList 0 w = .ok (networkArrayToHostEndian arr) := by
  have hread := networkToHostEndian_add hw arr.toList 0
  rw [Nat.zero_add, slice_toList] at hread
  exact hread

theorem throws_networkToHostEndian (hle : first ≤ last) (hlt : last < 2 ^ 63)
    (hne : last - first ≠ w) : (networkToHostEndian w data first last).Throws := by
  have hdistance : (((last : ℤ) - first) % 2 ^ 64).toNat = last - first := by omega
  rw [networkToHostEndian, hdistance]
  simp only [hne, ne_eq, not_false_eq_true, if_true]
  exact Exec.throws_throws _

theorem hostToNetworkEndianArray_of_ok {value : BitVec (8 * w)} (hw : w < 2 ^ 64)
    (hlt : data.length < 2 ^ 63) (hok : networkToHostEndian w data 0 data.length = .ok value) :
    (hostToNetworkEndianArray value).toList = data := by
  by_cases hlength : data.length = w
  · have hread := networkToHostEndian_array hw (.ofList data hlength)
    rw [Bytes.toList_ofList] at hread
    rw [hlength, hread] at hok
    obtain rfl := Except.ok.inj hok
    rw [hostToNetworkEndianArray_networkArrayToHostEndian, Bytes.toList_ofList]
  · have hthrows : (networkToHostEndian w data 0 data.length).Throws := by
      apply throws_networkToHostEndian (Nat.zero_le _) hlt
      rwa [Nat.sub_zero]
    rw [hok] at hthrows
    exact absurd hthrows (Exec.not_throws_ok value)

end Agreement

theorem endiansAgree (type : IntegralType) : EndiansAgree type := by
  have hsize := type.size_lt
  have hnetwork : ∀ arr : Bytes type.size,
      type.toInt (networkArrayToHostEndian arr) = type.ofNetwork arr.toList := fun arr =>
    IntegralType.toInt_eq_ofNetwork arr.toList_length (toNat_networkArrayToHostEndian arr)
  constructor
  case array => exact hnetwork
  case iterators =>
    intro data first last hle hlast _ heq
    obtain rfl : last = first + type.size := by omega
    have hread := Bytes.toList_ofList _ (length_take_drop hlast)
    refine ⟨_, networkToHostEndian_range hsize hlast hread, ?_⟩
    rw [hnetwork, heq]
    rfl
  case throws =>
    intro data first last hle hlast hlt hne
    exact throws_networkToHostEndian hle (by omega) hne
  case array_host => exact networkArrayToHostEndian_hostToNetworkEndianArray
  case host_array => exact hostToNetworkEndianArray_networkArrayToHostEndian
  case iterators_host =>
    intro value
    rw [networkToHostEndian_array hsize, networkArrayToHostEndian_hostToNetworkEndianArray]
  case host_iterators =>
    intro data value hlt hok
    exact hostToNetworkEndianArray_of_ok hsize hlt hok
  case single_single => exact networkToHostEndianValue_self
  case iterators_object =>
    intro value
    rw [networkToHostEndian_array hsize, networkToHostEndianValue_eq]

end Klevret
