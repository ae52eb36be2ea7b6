import Klevret.Options.Consumption

/-! # What the values of an option mean

A value stands for the bytes of its element when it is of the alternative that
belongs to the payload type and has their value in network order. On whole
elements the constructor is shown to reject exactly the payloads that break the
constraint of the option, and to read every other payload element by element.
-/

namespace Klevret

open Foundation

/-- The types that a constraint is declared for. -/
def DhcpOptionPayloadType.isInteger : DhcpOptionPayloadType → Bool
  | .uint8 | .uint16 | .uint32 | .int32 | .uintEnum => true
  | _ => false

/-- The integer that an element is on the wire: big-endian, and in two's complement if signed. -/
def wireInteger (type : DhcpOptionPayloadType) (element : List UInt8) : ℤ :=
  if type = .int32 then (beValue element : ℤ).bmod (2 ^ 32) else beValue element

/-- The values that a constraint admits. -/
def IntConstraint.Admits (c : IntConstraint) (value : ℤ) : Prop :=
  match c.type with
  | .none => True
  | .fromMin => c.min ≤ value
  | .range => c.min ≤ value ∧ value ≤ c.max
  | .uintEnum => ∃ allowed ∈ c.allowedValues, (allowed : ℤ) = value

/-- The number in an integer alternative. -/
def DhcpOptionFieldRealValue.integer? : DhcpOptionFieldRealValue → Option ℤ
  | .int32 value => some value.toInt
  | .uint32 value => some value.toNat
  | .uint16 value => some value.toNat
  | .uint8 value => some value.toNat
  | _ => none

/-- The value is of the alternative of the type, and has the network-order value of the bytes. -/
inductive Denotes [Host] : DhcpOptionPayloadType → List UInt8 → DhcpOptionFieldRealValue → Prop
  | uint8 {bytes : List UInt8} {value : UInt8} :
      (value.toNat : ℤ) = wireInteger .uint8 bytes → Denotes .uint8 bytes (.uint8 value)
  | uintEnum {bytes : List UInt8} {value : UInt8} :
      (value.toNat : ℤ) = wireInteger .uintEnum bytes → Denotes .uintEnum bytes (.uint8 value)
  | uint16 {bytes : List UInt8} {value : UInt16} :
      (value.toNat : ℤ) = wireInteger .uint16 bytes → Denotes .uint16 bytes (.uint16 value)
  | uint32 {bytes : List UInt8} {value : UInt32} :
      (value.toNat : ℤ) = wireInteger .uint32 bytes → Denotes .uint32 bytes (.uint32 value)
  | int32 {bytes : List UInt8} {value : Int32} :
      value.toInt = wireInteger .int32 bytes → Denotes .int32 bytes (.int32 value)
  | flag {byte : UInt8} {value : Bool} :
      (value = true ↔ byte ≠ 0) → Denotes .flag [byte] (.bool value)
  | ipAddress {bytes : List UInt8} {ip : IPv4Address} :
      ip.toUInt32.toNat = beValue bytes → Denotes .ipAddress bytes (.ipv4Address ip)
  | subnetMask {bytes : List UInt8} {mask : IPv4SubnetMask} :
      mask.toNetworkData = bytes → Denotes .subnetMask bytes (.ipv4SubnetMask mask)
  | ipAddressWithSubnetMask {first second : List UInt8} {ip : IPv4Address}
      {mask : IPv4SubnetMask} :
      first.length = 4 → ip.toUInt32.toNat = beValue first → mask.toNetworkData = second →
      Denotes .ipAddressWithSubnetMask (first ++ second) (.addressWithMask ip mask)
  | twoIpAddresses {first second : List UInt8} {ip₁ ip₂ : IPv4Address} :
      first.length = 4 → ip₁.toUInt32.toNat = beValue first →
      ip₂.toUInt32.toNat = beValue second →
      Denotes .twoIpAddresses (first ++ second) (.twoAddresses ip₁ ip₂)
  | string {bytes : List UInt8} : Denotes .string bytes (.byteString bytes)
  | byteArray {bytes : List UInt8} : Denotes .byteArray bytes (.byteVector bytes)
  | vendorSpecificField {bytes : List UInt8} :
      Denotes .vendorSpecificField bytes (.byteVector bytes)

theorem Denotes.integer [Host] {type : DhcpOptionPayloadType} {bytes : List UInt8}
    {value : DhcpOptionFieldRealValue} {n : ℤ} (h : Denotes type bytes value)
    (hn : value.integer? = some n) : type.isInteger = true ∧ n = wireInteger type bytes := by
  cases h <;> simp only [DhcpOptionFieldRealValue.integer?, Option.some.injEq, reduceCtorEq] at hn
  all_goals
    next hv => exact ⟨rfl, hn.symm.trans hv⟩

namespace DhcpOption

/-- The elements of a payload; all of it is one where elements have no fixed size. -/
def wireElements (d : DhcpOptionDescription) (payload : List UInt8) : List (List UInt8) :=
  if d.payloadDescription.type.isElementwise then elements d payload else [payload]

/-- An integer outside the constraint, or a byte array that is too short. -/
def BreaksConstraint (d : DhcpOptionDescription) (payload : List UInt8) : Prop :=
  (d.payloadDescription.type.isInteger = true ∧ ∃ element ∈ wireElements d payload,
    ¬ d.payloadDescription.intConstraint.Admits (wireInteger d.payloadDescription.type element)) ∨
  (d.payloadDescription.type = .byteArray ∧
    payload.length < d.payloadDescription.minLenInElements)

/-- The option holds one value for each element, in order, and its integers meet the constraint. -/
structure Decodes [Host] (d : DhcpOptionDescription) (payload : List UInt8) (option : DhcpOption) :
    Prop where
  description_eq : option.description = d
  denotes : List.Forall₂ (Denotes d.payloadDescription.type) (wireElements d payload)
    option.realValues
  admitted : ∀ value ∈ option.realValues, ∀ n, value.integer? = some n →
    d.payloadDescription.intConstraint.Admits n

theorem int32_unconstrained_of_mem : ∀ row ∈ optionsDescriptions,
    row.2.payloadDescription.type = .int32 →
      row.2.payloadDescription.intConstraint.type = .none := by decide

variable {code : ℤ} {d : DhcpOptionDescription} {payload chunk : List UInt8}

theorem int32_unconstrained_of_lookup (h : optionsDescriptions.lookup code = some d)
    (ht : d.payloadDescription.type = .int32) :
    d.payloadDescription.intConstraint.type = .none := by
  exact int32_unconstrained_of_mem (code, d) (row_mem_of_lookup h) ht

theorem allows_iff (c : IntConstraint) (n : ℕ) : c.allows n n = true ↔ c.Admits n := by
  unfold IntConstraint.allows IntConstraint.Admits
  cases c.type <;> simp

theorem chunkAllowed_iff (hd : optionsDescriptions.lookup code = some d) :
    chunkAllowed d.payloadDescription chunk = true ↔
      (d.payloadDescription.type.isInteger = true →
        d.payloadDescription.intConstraint.Admits
          (wireInteger d.payloadDescription.type chunk)) := by
  by_cases hs : d.payloadDescription.type = .int32
  · have hnone := int32_unconstrained_of_lookup hd hs
    simp [chunkAllowed, IntConstraint.allows, IntConstraint.Admits, hs, hnone]
  · unfold chunkAllowed wireInteger
    rw [if_neg hs, ← allows_iff]
    cases ht : d.payloadDescription.type <;>
      simp only [ht, not_true_eq_false] at hs <;>
      simp [DhcpOptionPayloadType.isInteger]

theorem not_breaksConstraint_iff (hd : optionsDescriptions.lookup code = some d)
    (hne : payload ≠ []) :
    payloadAllowed d payload = true ↔ ¬ BreaksConstraint d payload := by
  unfold payloadAllowed BreaksConstraint wireElements
  cases h : d.payloadDescription.type.isElementwise with
  | true =>
    have hb := ne_byteArray_of_isElementwise h
    simp only [if_true, List.all_eq_true, chunkAllowed_iff hd, hb, false_and, or_false]
    push Not
    exact ⟨fun hall hi chunk hc => hall chunk hc hi, fun hall chunk hc hi => hall hi chunk hc⟩
  | false =>
    have hi : d.payloadDescription.type.isInteger = false := by
      cases ht : d.payloadDescription.type <;>
        simp only [ht, DhcpOptionPayloadType.isElementwise, Bool.true_eq_false] at h <;> rfl
    have he : payload.isEmpty = false := List.isEmpty_eq_false_iff.mpr hne
    by_cases hb : d.payloadDescription.type = .byteArray
    · simp [hb, he, DhcpOptionPayloadType.isInteger]
    · simp [hb, hi]

variable [Host]

theorem denotes_chunkValue (h : d.payloadDescription.type.isElementwise = true)
    (hlen : chunk.length = elementSize d) :
    Denotes d.payloadDescription.type chunk (chunkValue d.payloadDescription.type chunk) := by
  have hv := beValue_lt chunk
  rw [hlen] at hv
  unfold elementSize DhcpOptionPayloadDescription.getOneElementPayloadLengthInBytes at hlen hv
  cases ht : d.payloadDescription.type <;>
    simp only [ht, DhcpOptionPayloadType.isElementwise, Bool.false_eq_true, Int.reduceToNat]
      at h hlen hv
  case ipAddress => exact .ipAddress (IPv4Address.toNat_toUInt32_pad hlen)
  case subnetMask => exact .subnetMask (Bytes.toList_pad hlen)
  case ipAddressWithSubnetMask =>
    have h₁ : (chunk.take 4).length = 4 := by simp [hlen]
    have h₂ : (chunk.drop 4).length = 4 := by simp [hlen]
    conv_lhs => rw [← List.take_append_drop 4 chunk]
    exact .ipAddressWithSubnetMask h₁ (IPv4Address.toNat_toUInt32_pad h₁) (Bytes.toList_pad h₂)
  case twoIpAddresses =>
    have h₁ : (chunk.take 4).length = 4 := by simp [hlen]
    have h₂ : (chunk.drop 4).length = 4 := by simp [hlen]
    conv_lhs => rw [← List.take_append_drop 4 chunk]
    exact .twoIpAddresses h₁ (IPv4Address.toNat_toUInt32_pad h₁)
      (IPv4Address.toNat_toUInt32_pad h₂)
  case uint8 =>
    have hn : (UInt8.ofNat (beValue chunk)).toNat = beValue chunk := Nat.mod_eq_of_lt hv
    exact .uint8 (congrArg Nat.cast hn)
  case uintEnum =>
    have hn : (UInt8.ofNat (beValue chunk)).toNat = beValue chunk := Nat.mod_eq_of_lt hv
    exact .uintEnum (congrArg Nat.cast hn)
  case uint16 =>
    have hn : (UInt16.ofNat (beValue chunk)).toNat = beValue chunk := Nat.mod_eq_of_lt hv
    exact .uint16 (congrArg Nat.cast hn)
  case uint32 =>
    have hn : (UInt32.ofNat (beValue chunk)).toNat = beValue chunk := Nat.mod_eq_of_lt hv
    exact .uint32 (congrArg Nat.cast hn)
  case int32 =>
    apply Denotes.int32
    rw [Int32.toInt_ofNat', wireInteger, if_pos rfl]
    norm_num
  case flag =>
    obtain ⟨b, rfl⟩ := List.length_eq_one_iff.mp hlen
    apply Denotes.flag
    rw [bne_iff_ne, beValue_singleton, ne_eq, ne_eq, ← UInt8.toNat_inj]
    rfl

theorem denotes_payloadValues (ht : d.payloadDescription.type ≠ .none) (hne : payload ≠ []) :
    List.Forall₂ (Denotes d.payloadDescription.type) (wireElements d payload)
      (payloadValues d payload) := by
  unfold wireElements payloadValues
  cases h : d.payloadDescription.type.isElementwise with
  | true =>
    rw [if_pos rfl, if_pos rfl, List.forall₂_map_right_iff, List.forall₂_same]
    exact fun chunk hc => denotes_chunkValue h (length_of_mem_elements hc)
  | false =>
    have he : payload.isEmpty = false := List.isEmpty_eq_false_iff.mpr hne
    rw [if_neg Bool.false_ne_true, if_neg Bool.false_ne_true, he, if_neg Bool.false_ne_true]
    refine .cons ?_ .nil
    cases ht' : d.payloadDescription.type <;>
      simp only [ht', DhcpOptionPayloadType.isElementwise, Bool.true_eq_false, ne_eq,
        not_true_eq_false] at h ht
    case vendorSpecificField => exact .vendorSpecificField
    case byteArray => exact .byteArray
    case string => exact .string

theorem decodes_ofValues (hd : describe code payload.length = .ok d) (hne : payload ≠ [])
    (ha : payloadAllowed d payload = true) :
    Decodes d payload (ofValues d payload.length (payloadValues d payload)) := by
  obtain ⟨hlookup, -, ht⟩ := describe_eq_ok.mp hd
  have hdenotes := denotes_payloadValues (d := d) ht hne
  refine ⟨rfl, hdenotes, fun value hvalue n hn => ?_⟩
  obtain ⟨i, rfl⟩ := List.get_of_mem hvalue
  have hi : i < (wireElements d payload).length := by
    rw [hdenotes.length_eq]
    exact i.isLt
  obtain ⟨hint, rfl⟩ := (hdenotes.get hi i.isLt).integer hn
  by_contra hbad
  exact (not_breaksConstraint_iff hlookup hne).mp ha
    (Or.inl ⟨hint, _, List.get_mem _ ⟨i, hi⟩, hbad⟩)

/-- On whole elements the constructor throws exactly when the constraint is broken, and otherwise
returns the values of the elements. -/
theorem newWithin_correct (hd : describe code payload.length = .ok d)
    (hw : WholeElements d payload.length) (hne : payload ≠ []) (before after : List UInt8) :
    (Exec.Throws (newWithin code before payload after) ↔ BreaksConstraint d payload) ∧
      (¬ BreaksConstraint d payload →
        ∃ option, newWithin code before payload after = .ok option ∧ Decodes d payload option) := by
  have hallowed := not_breaksConstraint_iff (describe_eq_ok.mp hd).1 hne
  rw [newWithin_whole hd hw, readPayload]
  cases ha : payloadAllowed d payload with
  | false =>
    have hbreaks : BreaksConstraint d payload := by
      by_contra hn
      rw [hallowed.mpr hn] at ha
      cases ha
    exact ⟨iff_of_true ⟨_, rfl⟩ hbreaks, fun hn => absurd hbreaks hn⟩
  | true =>
    have hn := hallowed.mp ha
    exact ⟨iff_of_false (by simp) hn, fun _ => ⟨_, rfl, decodes_ofValues hd hne ha⟩⟩

end DhcpOption

end Klevret
