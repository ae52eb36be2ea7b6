import Klevret.Options.Decode

/-! # The element loop

For a payload of whole elements the loop of the constructor is a plain recursion
on the number of elements. A payload with a partial element is never left
through the exit test, so the loop runs into a failing read.
-/

namespace Klevret

open Foundation

/-- The types whose payload is consumed element by element. -/
def DhcpOptionPayloadType.isElementwise : DhcpOptionPayloadType → Bool
  | .none | .vendorSpecificField | .byteArray | .string => false
  | _ => true

namespace DhcpOption

/-- The value of an element on the wire, in network order whatever the host. -/
def chunkValue : DhcpOptionPayloadType → List UInt8 → DhcpOptionFieldRealValue
  | .ipAddress, chunk => .ipv4Address ⟨.pad chunk⟩
  | .subnetMask, chunk => .ipv4SubnetMask ⟨.pad chunk⟩
  | .ipAddressWithSubnetMask, chunk => .addressWithMask ⟨.pad (chunk.take 4)⟩ ⟨.pad (chunk.drop 4)⟩
  | .twoIpAddresses, chunk => .twoAddresses ⟨.pad (chunk.take 4)⟩ ⟨.pad (chunk.drop 4)⟩
  | .uint8, chunk => .uint8 (.ofNat (beValue chunk))
  | .uintEnum, chunk => .uint8 (.ofNat (beValue chunk))
  | .uint16, chunk => .uint16 (.ofNat (beValue chunk))
  | .uint32, chunk => .uint32 (.ofNat (beValue chunk))
  | .int32, chunk => .int32 (.ofNat (beValue chunk))
  | .flag, chunk => .bool (beValue chunk != 0)
  | .string, chunk => .byteString chunk
  | _, chunk => .byteVector chunk

/-- The constraint on an integer element of the wire. -/
def chunkAllowed (d : DhcpOptionPayloadDescription) (chunk : List UInt8) : Bool :=
  match d.type with
  | .uint8 | .uint16 | .uint32 | .uintEnum =>
    d.intConstraint.allows (beValue chunk) (beValue chunk)
  | .int32 =>
    d.intConstraint.allows (Int32.ofNat (beValue chunk)).toInt (beValue chunk)
  | _ => true

def Pushed.value : Pushed → DhcpOptionFieldRealValue
  | next value => value
  | last value => value

theorem value_map_next (x : Exec DhcpOptionFieldRealValue) :
    Pushed.value <$> Pushed.next <$> x = x := by
  cases x <;> rfl

variable {d : DhcpOptionDescription} {data : List UInt8} {iter payloadEnd : ℕ}

theorem ne_byteArray_of_isElementwise (h : d.payloadDescription.type.isElementwise = true) :
    d.payloadDescription.type ≠ .byteArray := by
  intro ht
  rw [ht] at h
  cases h

theorem elementSize_pos (h : d.payloadDescription.type.isElementwise = true) :
    0 < elementSize d := by
  unfold elementSize DhcpOptionPayloadDescription.getOneElementPayloadLengthInBytes
  cases ht : d.payloadDescription.type <;>
    simp [ht, DhcpOptionPayloadType.isElementwise] at h ⊢

/-- The check of an integer element, as a check of its bytes. -/
def requireAllowed (allowed : Bool) : Exec Unit :=
  if allowed then .ok () else throwRuntimeError "Значение опции не соответствует ограничениям"

theorem requireConstraint_ok (b : Bool) : requireConstraint (.ok b) = requireAllowed b := by
  cases b <;> rfl

theorem processUint8_eq
    (ht : d.payloadDescription.type = .uint8 ∨ d.payloadDescription.type = .uintEnum) :
    processUint8 d data iter = do
      let chunk ← slice data iter 1
      requireAllowed (chunkAllowed d.payloadDescription chunk.toList)
      return .uint8 (.ofNat (beValue chunk.toList)) := by
  rw [processUint8, slice_one]
  cases deref data iter with
  | error e => rfl
  | ok value =>
    have hv := (beValue_singleton value).symm
    rcases ht with ht | ht <;>
      simp [DhcpOptionPayloadDescription.isCorrectUint, ht, requireConstraint_ok, chunkAllowed,
        ← hv]

theorem processFlag_eq :
    processFlag data iter = do
      let chunk ← slice data iter 1
      return .bool (beValue chunk.toList != 0) := by
  rw [processFlag, slice_one]
  cases deref data iter with
  | error e => rfl
  | ok value =>
    have hv := (beValue_singleton value).symm
    simp [← hv, bne, ← UInt8.toNat_inj]

theorem processIpAddress_eq :
    processIpAddress data iter (iter + 4) = do
      let chunk ← slice data iter 4
      return .ipv4Address ⟨.pad chunk.toList⟩ := by
  rw [processIpAddress, IPv4Address.fromBigEndianBytes_add]
  cases slice data iter 4 with
  | error e => rfl
  | ok chunk => simp only [Exec.map_ok, Exec.ok_bind, Exec.pure_eq_ok, Bytes.pad_toList]

theorem processSubnetMask_eq :
    processSubnetMask data iter (iter + 4) = do
      let chunk ← slice data iter 4
      return .ipv4SubnetMask ⟨.pad chunk.toList⟩ := by
  rw [processSubnetMask, IPv4SubnetMask.fromBigEndianBytes_add]
  cases slice data iter 4 with
  | error e => rfl
  | ok chunk => simp only [Exec.map_ok, Exec.ok_bind, Exec.pure_eq_ok, Bytes.pad_toList]

theorem processIpAddressWithMask_eq :
    processIpAddressWithMask data iter (iter + 8) = do
      let chunk ← slice data iter 8
      return .addressWithMask ⟨.pad (chunk.toList.take 4)⟩ ⟨.pad (chunk.toList.drop 4)⟩ := by
  rw [processIpAddressWithMask, IPv4Address.fromBigEndianBytes_add,
    IPv4SubnetMask.fromBigEndianBytes_add data (iter + 4), slice_add (n := 4) 4]
  cases slice data iter 4 with
  | error e => rfl
  | ok a =>
    cases slice data (iter + 4) 4 with
    | error e => rfl
    | ok b => simp [Bytes.pad_toList]

theorem processTwoIpAddresses_eq :
    processTwoIpAddresses data iter (iter + 8) = do
      let chunk ← slice data iter 8
      return .twoAddresses ⟨.pad (chunk.toList.take 4)⟩ ⟨.pad (chunk.toList.drop 4)⟩ := by
  rw [processTwoIpAddresses, IPv4Address.fromBigEndianBytes_add,
    IPv4Address.fromBigEndianBytes_add data (iter + 4), slice_add (n := 4) 4]
  cases slice data iter 4 with
  | error e => rfl
  | ok a =>
    cases slice data (iter + 4) 4 with
    | error e => rfl
    | ok b => simp [Bytes.pad_toList]

variable [Host]

/-- The value that one pass of the loop reads at the cursor. -/
def elementValue (d : DhcpOptionDescription) (data : List UInt8) (iter : ℕ) :
    Exec DhcpOptionFieldRealValue :=
  Pushed.value <$> processElement d data iter iter

theorem processElement_eq_next (h : d.payloadDescription.type.isElementwise = true) :
    processElement d data iter payloadEnd = .next <$> elementValue d data iter := by
  unfold elementValue processElement
  cases ht : d.payloadDescription.type <;>
    simp [ht, DhcpOptionPayloadType.isElementwise] at h <;>
    simp only [value_map_next]

def decodeElements (d : DhcpOptionDescription) (data : List UInt8) (iter : ℕ) :
    (k : ℕ) → Exec (List DhcpOptionFieldRealValue)
  | 0 => .ok []
  | k + 1 => do
    let value ← elementValue d data iter
    let values ← decodeElements d data (iter + elementSize d) k
    return value :: values

theorem processUint16_eq (ht : d.payloadDescription.type = .uint16) :
    processUint16 d data iter (iter + 2) = do
      let chunk ← slice data iter 2
      requireAllowed (chunkAllowed d.payloadDescription chunk.toList)
      return .uint16 (.ofNat (beValue chunk.toList)) := by
  rw [processUint16, networkToHostEndian_add (by omega)]
  cases slice data iter 2 with
  | error e => rfl
  | ok chunk =>
    have hv : (UInt16.ofBitVec (networkArrayToHostEndian chunk)).toNat = beValue chunk.toList :=
      toNat_networkArrayToHostEndian chunk
    simp only [Exec.ok_bind, Exec.pure_eq_ok]
    generalize UInt16.ofBitVec (networkArrayToHostEndian chunk) = value at hv ⊢
    simp [DhcpOptionPayloadDescription.isCorrectUint, ht, requireConstraint_ok, chunkAllowed, ← hv]

theorem processUint32_eq (ht : d.payloadDescription.type = .uint32) :
    processUint32 d data iter (iter + 4) = do
      let chunk ← slice data iter 4
      requireAllowed (chunkAllowed d.payloadDescription chunk.toList)
      return .uint32 (.ofNat (beValue chunk.toList)) := by
  rw [processUint32, networkToHostEndian_add (by omega)]
  cases slice data iter 4 with
  | error e => rfl
  | ok chunk =>
    have hv : (UInt32.ofBitVec (networkArrayToHostEndian chunk)).toNat = beValue chunk.toList :=
      toNat_networkArrayToHostEndian chunk
    simp only [Exec.ok_bind, Exec.pure_eq_ok]
    generalize UInt32.ofBitVec (networkArrayToHostEndian chunk) = value at hv ⊢
    simp [DhcpOptionPayloadDescription.isCorrectUint, ht, requireConstraint_ok, chunkAllowed, ← hv]

theorem processInt32_eq (ht : d.payloadDescription.type = .int32) :
    processInt32 d data iter (iter + 4) = do
      let chunk ← slice data iter 4
      requireAllowed (chunkAllowed d.payloadDescription chunk.toList)
      return .int32 (.ofNat (beValue chunk.toList)) := by
  rw [processInt32, networkToHostEndian_add (by omega)]
  cases slice data iter 4 with
  | error e => rfl
  | ok chunk =>
    have hv : (UInt32.ofBitVec (networkArrayToHostEndian chunk)).toNat = beValue chunk.toList :=
      toNat_networkArrayToHostEndian chunk
    have hi : Int32.ofBitVec (networkArrayToHostEndian chunk) =
        (UInt32.ofBitVec (networkArrayToHostEndian chunk)).toInt32 := rfl
    simp only [Exec.ok_bind, Exec.pure_eq_ok, hi]
    generalize UInt32.ofBitVec (networkArrayToHostEndian chunk) = value at hv ⊢
    have hn : Int32.ofNat value.toNat = value.toInt32 :=
      congrArg UInt32.toInt32 (UInt32.ofNat_toNat (x := value))
    simp only [chunkAllowed, ht, ← hv, hn]
    simp [DhcpOptionPayloadDescription.isCorrectInt, ht, requireConstraint_ok]

theorem elementValue_eq (h : d.payloadDescription.type.isElementwise = true) :
    elementValue d data iter = do
      let chunk ← slice data iter (elementSize d)
      requireAllowed (chunkAllowed d.payloadDescription chunk.toList)
      return chunkValue d.payloadDescription.type chunk.toList := by
  have hs : elementSize d =
      d.payloadDescription.getOneElementPayloadLengthInBytes.toNat := rfl
  unfold elementValue processElement
  rw [hs]
  unfold DhcpOptionPayloadDescription.getOneElementPayloadLengthInBytes
  cases ht : d.payloadDescription.type <;>
    simp only [ht, DhcpOptionPayloadType.isElementwise, Bool.false_eq_true] at h <;>
    simp only [value_map_next, chunkValue, Int.reduceToNat]
  case ipAddress => simp [processIpAddress_eq, chunkAllowed, ht, requireAllowed]
  case subnetMask => simp [processSubnetMask_eq, chunkAllowed, ht, requireAllowed]
  case ipAddressWithSubnetMask =>
    simp [processIpAddressWithMask_eq, chunkAllowed, ht, requireAllowed]
  case twoIpAddresses => simp [processTwoIpAddresses_eq, chunkAllowed, ht, requireAllowed]
  case uint8 => exact processUint8_eq (Or.inl ht)
  case uint16 => exact processUint16_eq ht
  case uint32 => exact processUint32_eq ht
  case int32 => exact processInt32_eq ht
  case flag => simp [processFlag_eq, chunkAllowed, ht, requireAllowed]
  case uintEnum => exact processUint8_eq (Or.inr ht)

theorem elementValue_bounds (h : d.payloadDescription.type.isElementwise = true)
    {value : DhcpOptionFieldRealValue} (hv : elementValue d data iter = .ok value) :
    iter + elementSize d ≤ data.length := by
  rw [elementValue_eq h] at hv
  obtain ⟨chunk, hc, _⟩ := Exec.bind_eq_ok.mp hv
  exact (slice_eq_ok hc).2 (elementSize_pos h)

theorem elementPass_exit {values : List DhcpOptionFieldRealValue} :
    elementPass d data payloadEnd (payloadEnd, values) = .ok (.inr values) := by
  simp [elementPass]

theorem elementPass_element (h : d.payloadDescription.type.isElementwise = true)
    (hne : iter ≠ payloadEnd) (values : List DhcpOptionFieldRealValue) :
    elementPass d data payloadEnd (iter, values) =
      (fun value => .inl (iter + elementSize d, values ++ [value])) <$>
        elementValue d data iter := by
  simp only [elementPass, if_neg hne, processElement_eq_next h]
  cases hv : elementValue d data iter with
  | error e => rfl
  | ok value =>
    have ha := elementValue_bounds h hv
    simp [advance, ha]

theorem isElementwise_of_next {value : DhcpOptionFieldRealValue}
    (h : processElement d data iter payloadEnd = .ok (.next value)) :
    d.payloadDescription.type.isElementwise = true := by
  unfold processElement at h
  cases ht : d.payloadDescription.type <;> simp [ht] at h <;> rfl

theorem elementPass_next {values values' : List DhcpOptionFieldRealValue} {iter' : ℕ}
    (h : elementPass d data payloadEnd (iter, values) = .ok (.inl (iter', values'))) :
    d.payloadDescription.type.isElementwise = true ∧ iter' = iter + elementSize d ∧
      iter' ≤ data.length := by
  have hne : iter ≠ payloadEnd := by
    rintro rfl
    simp [elementPass_exit] at h
  have hw : d.payloadDescription.type.isElementwise = true := by
    cases hp : processElement d data iter payloadEnd with
    | error e => simp [elementPass, hne, hp] at h
    | ok pushed =>
      cases pushed with
      | last value => simp [elementPass, hne, hp] at h
      | next value => exact isElementwise_of_next hp
  rw [elementPass_element hw hne] at h
  obtain ⟨value, hv, hn⟩ := Exec.map_eq_ok.mp h
  obtain ⟨rfl, _⟩ := Prod.mk.inj (Sum.inl.inj hn)
  exact ⟨hw, rfl, elementValue_bounds hw hv⟩

theorem elementLoop_terminates (d : DhcpOptionDescription) (data : List UInt8)
    (iter payloadEnd : ℕ) :
    ∃ result, iterate (attempt (elementPass d data payloadEnd)) (data.length + 1) (iter, []) =
      some result := by
  apply iterate_terminates (I := fun _ => True) (fun s => data.length - s.1) _ trivial
    (by simp only; omega)
  rintro ⟨i, vs⟩ ⟨j, ws⟩ _ h
  obtain ⟨hw, rfl, hle⟩ := elementPass_next (attempt_eq_inl.mp h)
  have hs := elementSize_pos hw
  refine ⟨trivial, ?_⟩
  simp only
  omega

theorem elementLoop_eq {n : ℕ} {result : Exec (List DhcpOptionFieldRealValue)}
    (h : iterate (attempt (elementPass d data payloadEnd)) n (iter, []) = some result) :
    elementLoop d data iter payloadEnd = result := by
  obtain ⟨_, ht⟩ := elementLoop_terminates d data iter payloadEnd
  exact loop_eq ht h

/-- Over whole elements the loop agrees with the recursion, failures included. -/
theorem iterate_elementPass (h : d.payloadDescription.type.isElementwise = true) (k : ℕ)
    (values : List DhcpOptionFieldRealValue) (hend : payloadEnd = iter + k * elementSize d) {n : ℕ}
    (hn : k < n) :
    iterate (attempt (elementPass d data payloadEnd)) n (iter, values) =
      some ((values ++ ·) <$> decodeElements d data iter k) := by
  induction k generalizing iter values n with
  | zero =>
    obtain ⟨n, rfl⟩ : ∃ m, n = m + 1 := ⟨n - 1, by omega⟩
    have he : payloadEnd = iter := by simpa using hend
    subst he
    rw [iterate_exit (attempt_exit elementPass_exit)]
    simp [decodeElements]
  | succ k ih =>
    obtain ⟨n, rfl⟩ : ∃ m, n = m + 1 := ⟨n - 1, by omega⟩
    have hs := elementSize_pos h
    have hne : iter ≠ payloadEnd := by
      rw [hend, Nat.succ_mul]
      omega
    have hb : elementPass d data payloadEnd (iter, values) = _ := elementPass_element h hne values
    cases hv : elementValue d data iter with
    | error e =>
      rw [hv, Exec.map_error] at hb
      rw [iterate_exit (attempt_stop hb), decodeElements, hv]
      rfl
    | ok value =>
      rw [hv, Exec.map_ok] at hb
      rw [iterate_next (attempt_eq_inl.mpr hb),
        ih (values ++ [value]) (by rw [hend]; ring) (by omega), decodeElements, hv]
      cases decodeElements d data (iter + elementSize d) k <;> simp

theorem elementLoop_nil : elementLoop d data iter iter = .ok [] :=
  elementLoop_eq (n := 1) (iterate_exit (attempt_exit elementPass_exit))

theorem elementLoop_whole (h : d.payloadDescription.type.isElementwise = true) (k : ℕ) :
    elementLoop d data iter (iter + k * elementSize d) = decodeElements d data iter k := by
  rw [elementLoop_eq (iterate_elementPass h k [] rfl (Nat.lt_succ_self k))]
  cases decodeElements d data iter k <;> simp

/-- A range with a partial element is never left through the exit test: if no element is refused,
the loop ends in a read outside the buffer. -/
theorem elementLoop_partial (h : d.payloadDescription.type.isElementwise = true)
    (hall : ∀ chunk, chunkAllowed d.payloadDescription chunk = true)
    (hmis : ∀ k, payloadEnd ≠ iter + k * elementSize d) :
    elementLoop d data iter payloadEnd = .error .undefined := by
  obtain ⟨result, hr⟩ := elementLoop_terminates d data iter payloadEnd
  rw [elementLoop_eq hr]
  refine iterate_invariant (I := fun s => ∀ k, payloadEnd ≠ s.1 + k * elementSize d)
    (Q := (· = .error .undefined)) ?_ ?_ hmis hr
  · rintro ⟨i, vs⟩ ⟨j, ws⟩ hi hb k
    obtain ⟨_, rfl, _⟩ := elementPass_next (attempt_eq_inl.mp hb)
    have := hi (k + 1)
    simp only at this ⊢
    rwa [Nat.succ_mul, Nat.add_comm (k * _), ← Nat.add_assoc] at this
  · rintro ⟨i, vs⟩ x hi hb
    have hne : i ≠ payloadEnd := fun he => hi 0 (by simpa using he.symm)
    rcases attempt_eq_inr hb with ⟨b, _, hp⟩ | ⟨e, rfl, hp⟩
    · rw [elementPass_element h hne] at hp
      obtain ⟨_, _, hc⟩ := Exec.map_eq_ok.mp hp
      cases hc
    · rw [elementPass_element h hne, elementValue_eq h] at hp
      cases hs : slice data i (elementSize d) with
      | error e' =>
        rw [hs] at hp
        rw [← Except.error.inj hp, slice_eq_error hs]
      | ok chunk => simp [hs, hall, requireAllowed] at hp

end DhcpOption

end Klevret
