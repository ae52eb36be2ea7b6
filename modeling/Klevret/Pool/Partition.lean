import Klevret.Pool.Exclusion

/-! # The partition of the range

A pool that is constructed includes its whole range; the constructor does not
return from a range that ends at the last address of all. From then on an address
of the range is either included or excluded, and only an included address can be
reserved.
-/

namespace Klevret

open Foundation
open Std (ExtTreeSet)

section

variable [Host]

namespace AddressPool

/-- The range as it was at first, split into included and excluded addresses. -/
structure Partitioned (pool₀ pool : AddressPool) : Prop where
  range_unchanged : pool.getAddressesRange = pool₀.getAddressesRange
  inside : ∀ ip, pool.getAddressesRange.contains ip = true ↔
    Xor (pool.isAddressIncluded ip = true) (pool.isAddressExcluded ip = true)
  outside : ∀ ip, pool.getAddressesRange.contains ip = false →
    pool.isAddressIncluded ip = false ∧ pool.isAddressExcluded ip = false
  reserved_included : ∀ ip ∈ pool.reservedIpAddresses, pool.isAddressIncluded ip = true
  reservation_included : ∀ (mac : MacAddress) (ip : IPv4Address),
    pool.reservedMacAddresses[mac]? = some ip → pool.isAddressIncluded ip = true

/-- The included and the excluded addresses are disjoint and make up the range. -/
structure Splits (range : IPv4AddressRange) (included excluded : ExtTreeSet IPv4Address) :
    Prop where
  covers : ∀ ip, range.contains ip = true ↔ ip ∈ included ∨ ip ∈ excluded
  disjoint : ∀ ip, ip ∈ included → ip ∉ excluded

variable {pool pool' : AddressPool} {ip : IPv4Address}

theorem Splits.exclude {range : IPv4AddressRange} {included excluded : ExtTreeSet IPv4Address}
    (h : Splits range included excluded) (hin : ip ∈ included) :
    Splits range (included.erase ip) (excluded.insert ip) := by
  constructor
  · intro a
    rw [h.covers a, ExtTreeSet.mem_erase, ExtTreeSet.mem_insert, Std.LawfulEqCmp.compare_eq_iff_eq]
    by_cases he : ip = a
    · subst he
      simp [hin]
    · simp [he]
  · intro a ha
    rw [ExtTreeSet.mem_erase, ne_eq, Std.LawfulEqCmp.compare_eq_iff_eq] at ha
    rw [ExtTreeSet.mem_insert, Std.LawfulEqCmp.compare_eq_iff_eq, not_or]
    exact ⟨ha.1, h.disjoint a ha.2⟩

/-- What the constructor's loop has included: the addresses before the cursor. -/
structure Included (startIp endIp cursor : IPv4Address) (included : ExtTreeSet IPv4Address) :
    Prop where
  mem_iff : ∀ ip, ip ∈ included ↔ startIp.toUInt32.toNat ≤ ip.toUInt32.toNat ∧
    ip.toUInt32.toNat < cursor.toUInt32.toNat
  le_cursor : startIp.toUInt32.toNat ≤ cursor.toUInt32.toNat
  cursor_le : cursor.toUInt32.toNat ≤
    max startIp.toUInt32.toNat (endIp.toUInt32.toNat + 1)

theorem Included.increment {startIp endIp cursor : IPv4Address}
    {included : ExtTreeSet IPv4Address} (h : Included startIp endIp cursor included)
    (hle : cursor.toUInt32.toNat ≤ endIp.toUInt32.toNat)
    (hend : endIp.toUInt32.toNat + 1 < UInt32.size) :
    Included startIp endIp cursor.increment (included.insert cursor) := by
  have hnext := IPv4Address.toNat_increment ((Nat.succ_le_succ hle).trans_lt hend)
  have hstart := h.le_cursor
  constructor
  · intro ip
    have hcursor : cursor = ip ↔ cursor.toUInt32.toNat = ip.toUInt32.toNat := by
      rw [UInt32.toNat_inj, IPv4Address.toUInt32_injective.eq_iff]
    rw [ExtTreeSet.mem_insert, Std.LawfulEqCmp.compare_eq_iff_eq, hcursor, h.mem_iff, hnext]
    omega
  · omega
  · omega

theorem Included.whole {startIp endIp cursor : IPv4Address} {included : ExtTreeSet IPv4Address}
    (h : Included startIp endIp cursor included)
    (hlt : endIp.toUInt32.toNat < cursor.toUInt32.toNat) (ip : IPv4Address) :
    ip ∈ included ↔ startIp.toUInt32.toNat ≤ ip.toUInt32.toNat ∧
      ip.toUInt32.toNat ≤ endIp.toUInt32.toNat := by
  have hstart := h.le_cursor
  have hstop := h.cursor_le
  rw [h.mem_iff]
  omega

/-- The constructor's loop only ends when the whole range is included. On a range up to
255.255.255.255 the cursor wraps around, and the loop never ends. -/
theorem mem_iff_of_iterate {fuel : ℕ} {startIp endIp : IPv4Address}
    {included : ExtTreeSet IPv4Address}
    (h : iterate (includePass endIp) fuel (startIp, ∅) = some included) (ip : IPv4Address) :
    ip ∈ included ↔ startIp.toUInt32.toNat ≤ ip.toUInt32.toNat ∧
      ip.toUInt32.toNat ≤ endIp.toUInt32.toNat := by
  refine iterate_invariant (I := fun s : IPv4Address × ExtTreeSet IPv4Address =>
    endIp.toUInt32.toNat + 1 < UInt32.size → Included startIp endIp s.1 s.2)
    (Q := fun set => ip ∈ set ↔ startIp.toUInt32.toNat ≤ ip.toUInt32.toNat ∧
      ip.toUInt32.toNat ≤ endIp.toUInt32.toNat) ?_ ?_ ?_ h
  · rintro ⟨cursor, set⟩ s hI hs hend
    simp only [includePass, UInt32.le_iff_toNat_le] at hs
    split_ifs at hs with hle
    obtain rfl := Sum.inl.inj hs
    exact (hI hend).increment hle hend
  · rintro ⟨cursor, set⟩ result hI hs
    simp only [includePass, UInt32.le_iff_toNat_le] at hs
    split_ifs at hs with hle
    obtain rfl := Sum.inr.inj hs
    have hlt := Nat.not_le.mp hle
    have hend : endIp.toUInt32.toNat + 1 < UInt32.size :=
      Nat.lt_of_le_of_lt hlt cursor.toUInt32.toNat_lt
    exact (hI hend).whole hlt ip
  · intro _
    exact ⟨by simp, le_rfl, le_max_left _ _⟩

theorem new_eq_none {fuel : ℕ} {startIp endIp : IPv4Address} :
    new fuel startIp endIp = none ↔ iterate (includePass endIp) fuel (startIp, ∅) = none := by
  unfold new
  cases iterate (includePass endIp) fuel (startIp, ∅) with
  | none => simp
  | some included => simp

theorem exists_iterate_includePass {fuel : ℕ} (hfuel : 2 ^ 32 ≤ fuel)
    (startIp : IPv4Address) {endIp : IPv4Address}
    (hend : endIp.toUInt32.toNat + 1 < UInt32.size) :
    ∃ included, iterate (includePass endIp) fuel (startIp, ∅) = some included := by
  refine iterate_terminates (I := fun _ => True)
    (fun s : IPv4Address × ExtTreeSet IPv4Address =>
      endIp.toUInt32.toNat + 1 - s.1.toUInt32.toNat) ?_ trivial ?_
  · rintro ⟨cursor, set⟩ s - hs
    simp only [includePass, UInt32.le_iff_toNat_le] at hs
    split_ifs at hs with hle
    obtain rfl := Sum.inl.inj hs
    have hnext := IPv4Address.toNat_increment (show cursor.toUInt32.toNat + 1 < _ by omega)
    refine ⟨trivial, ?_⟩
    simp only [hnext]
    omega
  · simp only [UInt32.size] at hend
    omega

/-- No cursor lies beyond 255.255.255.255. -/
theorem iterate_includePass_eq_none {fuel : ℕ} (startIp : IPv4Address) {endIp : IPv4Address}
    (hend : endIp.toUInt32.toNat + 1 = UInt32.size) :
    iterate (includePass endIp) fuel (startIp, ∅) = none := by
  refine iterate_eq_none (I := fun _ => True) (fun _ _ _ _ => trivial) ?_ trivial
  rintro ⟨cursor, set⟩ result - hs
  have hle : cursor.toUInt32 ≤ endIp.toUInt32 := by
    have hlt : cursor.toUInt32.toNat < UInt32.size := cursor.toUInt32.toNat_lt
    rw [← hend] at hlt
    exact UInt32.le_iff_toNat_le.mpr (Nat.le_of_lt_succ hlt)
  simp [includePass, hle] at hs

/-- The constructor never returns exactly for a range that ends at 255.255.255.255; for all others
this much fuel is enough. -/
theorem new_eq_none_iff {fuel : ℕ} (hfuel : 2 ^ 32 ≤ fuel) (startIp endIp : IPv4Address) :
    new fuel startIp endIp = none ↔ endIp.toUInt32.toNat + 1 = UInt32.size := by
  rw [new_eq_none]
  constructor
  · intro hnone
    by_contra hend
    obtain ⟨included, h⟩ := exists_iterate_includePass hfuel startIp
      (Nat.lt_of_le_of_ne endIp.toUInt32.toNat_lt hend)
    exact absurd (h.symm.trans hnone) (Option.some_ne_none included)
  · exact iterate_includePass_eq_none startIp

theorem splits_of_new {fuel : ℕ} {startIp endIp : IPv4Address}
    (h : new fuel startIp endIp = some pool) :
    Splits pool.addressesRange pool.includedAddresses pool.excludedAddresses := by
  obtain ⟨included, hloop, hp⟩ := Option.bind_eq_some_iff.mp h
  obtain rfl := Option.some.inj hp
  constructor
  · intro ip
    rw [IPv4AddressRange.contains_iff, mem_iff_of_iterate hloop]
    simp
  · simp

theorem Consistent.splits_without (h : Consistent pool)
    (hs : Splits pool.addressesRange pool.includedAddresses pool.excludedAddresses)
    (a : IPv4Address) :
    (pool.without a).addressesRange = pool.addressesRange ∧
      Splits (pool.without a).addressesRange (pool.without a).includedAddresses
        (pool.without a).excludedAddresses := by
  by_cases hin : a ∈ pool.includedAddresses
  · rw [h.without_eq hin]
    exact ⟨rfl, hs.exclude hin⟩
  · simpa [AddressPool.without, hin] using hs

theorem PoolStep.splits {label : PoolLabel} (h : Consistent pool) (hs : PoolStep pool label pool')
    (hp : Splits pool.addressesRange pool.includedAddresses pool.excludedAddresses) :
    pool'.addressesRange = pool.addressesRange ∧
      Splits pool'.addressesRange pool'.includedAddresses pool'.excludedAddresses := by
  obtain ⟨op, outcome⟩ := label
  have he := hs.effect
  cases he with
  | exclude a => exact h.splits_without hp a
  | excludeRange a b =>
    refine h.foldl_without (P := fun p => p.addressesRange = pool.addressesRange ∧
      Splits p.addressesRange p.includedAddresses p.excludedAddresses) ⟨rfl, hp⟩ ?_
    rintro p a - hc ⟨hrange, hsplit⟩
    obtain ⟨hr, hs'⟩ := hc.splits_without hsplit a
    exact ⟨hr.trans hrange, hs'⟩
  | _ => exact ⟨rfl, hp⟩

theorem splits_run {labels : List PoolLabel} (h : Consistent pool)
    (hp : Splits pool.addressesRange pool.includedAddresses pool.excludedAddresses)
    (hr : Run PoolStep pool labels pool') :
    pool'.addressesRange = pool.addressesRange ∧
      Splits pool'.addressesRange pool'.includedAddresses pool'.excludedAddresses := by
  induction hr with
  | nil => exact ⟨rfl, hp⟩
  | cons hs _ ih =>
    obtain ⟨hrange, hsplit⟩ := hs.splits h hp
    obtain ⟨hrange', hsplit'⟩ := ih (h.step hs) hsplit
    exact ⟨hrange'.trans hrange, hsplit'⟩

theorem partitioned_of_splits {pool₀ : AddressPool} (h : Consistent pool)
    (hrange : pool.addressesRange = pool₀.addressesRange)
    (hs : Splits pool.addressesRange pool.includedAddresses pool.excludedAddresses) :
    Partitioned pool₀ pool where
  range_unchanged := hrange
  inside ip := by
    have hd := hs.disjoint ip
    simp only [getAddressesRange, isAddressIncluded, isAddressExcluded, ExtTreeSet.contains_iff_mem,
      hs.covers ip, xor_iff_or_and_not_and]
    tauto
  outside ip hout := by
    have hc := hs.covers ip
    rw [show pool.addressesRange.contains ip = false from hout] at hc
    simpa [isAddressIncluded, isAddressExcluded, ← Bool.not_eq_true] using hc
  reserved_included ip hr := by
    obtain ⟨mac, hmac⟩ := lookup_of_mem hr
    exact (isAddressIncluded_iff pool ip).mpr (h.included hmac)
  reservation_included mac ip hr :=
    (isAddressIncluded_iff pool ip).mpr (h.included (h.reserved _ _ hr))

/-- Every state of every run of a constructed pool keeps the range and its partition. -/
theorem partitioned_run {pool₀ : AddressPool} {labels : List PoolLabel} (hc : Constructed pool₀)
    (hr : Run PoolStep pool₀ labels pool) : Partitioned pool₀ pool := by
  have h := consistent_of_constructed hc
  obtain ⟨fuel, startIp, endIp, hnew⟩ := hc
  obtain ⟨hrange, hsplit⟩ := splits_run h (splits_of_new hnew) hr
  exact partitioned_of_splits (h.run hr) hrange hsplit

end AddressPool

end

namespace AddressPool

/-- An address is reserved, and the other one excluded. -/
theorem partitioned_sample :
    letI : Host := ⟨.little⟩
    Partitioned samplePool (replay perform samplePool [.reserveIp (sampleIp 1) (sampleMac 1),
      .excludeIpRange (sampleIp 2) (sampleIp 3)]).2 := by
  let host : Host := ⟨.little⟩
  exact partitioned_run constructed_samplePool (run_replay perform samplePool _)

end AddressPool

end Klevret
