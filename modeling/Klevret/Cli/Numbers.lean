import Klevret.Cli.CommandElement
import Klevret.Network.DottedText

/-! # Numbers on the command line

The cursor loops of the command line as runs of a text, and the values of runs
of digits. An `int` counts them, so a run has its value modulo `2 ^ 32`.
-/

namespace Klevret

open Foundation

theorem WrapperForParsing.span_new {p : UInt8 → Bool} (hp : p EOT = false) (text : List UInt8) :
    (new text).span p = (text.takeWhile p, new (text.dropWhile p)) := by
  induction text with
  | nil => simp [span, spanFrom, new, getNext, hp]
  | cons ch text ih =>
    have hstep : (new (ch :: text)).span p =
        if p ch then (ch :: ((new text).span p).1, ((new text).span p).2)
        else ([], new (ch :: text)) := by
      cases text with
      | nil => simp [span, spanFrom, new, getNext, hp]
      | cons c text => rfl
    rw [hstep, ih]
    cases h : p ch <;> simp [h]

namespace Cli

variable {digits : List UInt8}

theorem foldl_digits (n : ℤ) (h : ∀ ch ∈ digits, isDigit ch = true) :
    digits.foldl (fun result ch => result * 10 + .ofInt (ch.toNat - 48)) (Int32.ofInt n) =
      .ofInt (n * 10 ^ digits.length + decimal digits) := by
  induction digits generalizing n with
  | nil => simp [decimal]
  | cons ch digits ih =>
    rw [List.forall_mem_cons] at h
    have hstep : Int32.ofInt n * 10 + .ofInt (ch.toNat - 48) =
        .ofInt (n * 10 + (ch.toNat - 48)) := by
      rw [Int32.ofInt_add, Int32.ofInt_mul]
      rfl
    have hch : 48 ≤ ch.toNat := by
      have hd := h.1
      rw [isDigit, decide_eq_true_eq, UInt8.le_iff_toNat_le] at hd
      exact hd.1
    rw [List.foldl_cons, hstep, ih _ h.2, decimal_cons, List.length_cons]
    congr 1
    push_cast [Nat.cast_sub hch]
    ring

theorem intOfDigits_eq (h : ∀ ch ∈ digits, isDigit ch = true) :
    intOfDigits digits = .ofInt (decimal digits) := by
  have hfold := foldl_digits 0 h
  rwa [zero_mul, zero_add] at hfold

/-- Below `2 ^ 31` nothing wraps around. -/
theorem toInt_intOfDigits (h : ∀ ch ∈ digits, isDigit ch = true) :
    (intOfDigits digits).toInt = decimal digits ↔ decimal digits < 2 ^ 31 := by
  rw [intOfDigits_eq h, Int32.toInt_ofInt, Int32.size, Int.bmod_def]
  omega

theorem isNoOctet_eq_false {octet : Int32} :
    isNoOctet octet = false ↔ 0 ≤ octet.toInt ∧ octet.toInt ≤ 255 := by
  rw [isNoOctet, Bool.or_eq_false_iff, decide_eq_false_iff_not, decide_eq_false_iff_not, gt_iff_lt,
    Int32.lt_iff_toInt_lt, Int32.lt_iff_toInt_lt]
  simp only [Int32.reduceToInt, not_lt]

theorem toNat_of_isNoOctet {octet : Int32} (h : isNoOctet octet = false) :
    (octet.toUInt32.toUInt8.toNat : ℤ) = octet.toInt := by
  obtain ⟨hlow, hhigh⟩ := isNoOctet_eq_false.mp h
  have hle : 0 ≤ octet := Int32.le_iff_toInt_le.mpr (by simpa using hlow)
  have hnat : octet.toUInt32.toNat = octet.toInt.toNat := Int32.toNat_toUInt32_of_le hle
  rw [UInt32.toNat_toUInt8, hnat]
  omega

theorem isNoOctet_intOfDigits (h : ∀ ch ∈ digits, isDigit ch = true) :
    isNoOctet (intOfDigits digits) = false ↔ decimal digits % 2 ^ 32 ≤ 255 := by
  rw [isNoOctet_eq_false, intOfDigits_eq h, Int32.toInt_ofInt, Int32.size, Int.bmod_def]
  omega

theorem isDigit_of_mem_takeWhile {text : List UInt8} :
    ∀ ch ∈ text.takeWhile isDigit, isDigit ch = true := fun _ => List.mem_takeWhile_imp

theorem parseNumber_new (text : List UInt8) :
    parseNumber (.new text) =
      if text.takeWhile isDigit = [] then
        throwRuntimeError "Ошибка парсинга числа: ожидалась цифра"
      else .ok (intOfDigits (text.takeWhile isDigit), .new (text.dropWhile isDigit)) := by
  rw [parseNumber, WrapperForParsing.span_new (by decide)]
  cases text with
  | nil => rfl
  | cons ch text =>
    have hch : (WrapperForParsing.new (ch :: text)).ch = ch := rfl
    rw [hch]
    cases h : isDigit ch <;> simp [h]

theorem parseOctet_new (text : List UInt8) :
    parseOctet (.new text) =
      if isNoOctet (intOfDigits (text.takeWhile isDigit)) then
        throwRuntimeError "Октет должен быть в диапазоне [0..255]"
      else .ok ((intOfDigits (text.takeWhile isDigit)).toUInt32.toUInt8,
        .new (text.dropWhile isDigit)) := by
  rw [parseOctet, WrapperForParsing.span_new (by decide)]
  dsimp only
  split_ifs <;> rfl

/-- The text starts with a number of runs whose `int` values are octets. -/
structure ReadsInts (n : ℕ) (text : List UInt8) (runs : List (List UInt8)) (rest : List UInt8) :
    Prop where
  delimited : Delimited isDigit 46 text runs rest
  length_eq : runs.length = n
  le : ∀ run ∈ runs, decimal run % 2 ^ 32 ≤ 255

variable {n : ℕ} {text rest rest' run : List UInt8} {runs runs' : List (List UInt8)}

theorem readsInts_iff : ReadsInts n text runs rest ↔
    Delimited isDigit 46 text runs rest ∧ runs.length = n ∧
      ∀ run ∈ runs, decimal run % 2 ^ 32 ≤ 255 :=
  ⟨fun h => ⟨h.delimited, h.length_eq, h.le⟩, fun ⟨hruns, hlength, hle⟩ => ⟨hruns, hlength, hle⟩⟩

theorem ReadsInts.le_of_mem (h : ReadsInts n text runs' rest')
    (hruns : Delimited isDigit 46 text runs rest) (hlength : runs.length = n) (hmem : run ∈ runs) :
    decimal run % 2 ^ 32 ≤ 255 := by
  obtain ⟨rfl, -⟩ := hruns.unique (by decide) h.delimited (hlength.trans h.length_eq.symm)
  exact h.le run hmem

theorem readsInts_one : ReadsInts 1 text runs rest ↔
    runs = [text.takeWhile isDigit] ∧ rest = text.dropWhile isDigit ∧
      isNoOctet (intOfDigits (text.takeWhile isDigit)) = false := by
  rw [isNoOctet_intOfDigits isDigit_of_mem_takeWhile, readsInts_iff]
  exact Delimited.one_iff

theorem readsInts_succ : ReadsInts (n + 2) text runs rest ↔
    isNoOctet (intOfDigits (text.takeWhile isDigit)) = false ∧
      ∃ tail runs', text.dropWhile isDigit = 46 :: tail ∧
        runs = text.takeWhile isDigit :: runs' ∧ ReadsInts (n + 1) tail runs' rest := by
  simp only [isNoOctet_intOfDigits isDigit_of_mem_takeWhile, readsInts_iff]
  exact Delimited.succ_iff (by decide)

theorem check_new_eq_ok {wrap : WrapperForParsing} :
    (WrapperForParsing.new text).check 46 = .ok wrap ↔
      ∃ tail, text = 46 :: tail ∧ wrap = .new tail := by
  rw [WrapperForParsing.check]
  cases text with
  | nil => simp [WrapperForParsing.ch_new, WrapperForParsing.EOT]
  | cons ch text =>
    rw [WrapperForParsing.ch_new, WrapperForParsing.getNext_new, List.head?_cons,
      Option.getD_some]
    split_ifs with hch
    · simp [hch, eq_comm]
    · simp [hch]

def byteOf (run : List UInt8) : UInt8 := (intOfDigits run).toUInt32.toUInt8

theorem parseOctets_new_dot (n : ℕ) (text : List UInt8) :
    IPv4Address.parseOctets (n + 2) (.new text) =
      if isNoOctet (intOfDigits (text.takeWhile isDigit)) then
        throwRuntimeError "Октет должен быть в диапазоне [0..255]"
      else do
        let wrap ← (WrapperForParsing.new (text.dropWhile isDigit)).check 46
        let octets ← IPv4Address.parseOctets (n + 1) wrap
        return byteOf (text.takeWhile isDigit) ::ᵥ octets := by
  rw [IPv4Address.parseOctets, parseOctet_new]
  cases isNoOctet (intOfDigits (text.takeWhile isDigit)) <;> rfl

theorem parseOctets_new_last (text : List UInt8) :
    IPv4Address.parseOctets 1 (.new text) =
      if isNoOctet (intOfDigits (text.takeWhile isDigit)) then
        throwRuntimeError "Октет должен быть в диапазоне [0..255]"
      else .ok (byteOf (text.takeWhile isDigit) ::ᵥ .nil) := by
  rw [IPv4Address.parseOctets, parseOctet_new]
  cases isNoOctet (intOfDigits (text.takeWhile isDigit)) <;> rfl

/-- The constructor takes the runs as octets, and does not look behind the last one. -/
theorem parseOctets_of_readsInts (h : ReadsInts (n + 1) text runs rest) :
    ∃ octets : Bytes (n + 1), octets.toList = runs.map byteOf ∧
      IPv4Address.parseOctets (n + 1) (.new text) = .ok octets := by
  induction n generalizing text runs with
  | zero =>
    obtain ⟨rfl, -, ho⟩ := readsInts_one.mp h
    exact ⟨byteOf (text.takeWhile isDigit) ::ᵥ .nil, rfl, by simp [parseOctets_new_last, ho]⟩
  | succ n ih =>
    obtain ⟨ho, tail, runs, htail, rfl, htailRuns⟩ := readsInts_succ.mp h
    obtain ⟨octets, hoctets, hparse⟩ := ih htailRuns
    refine ⟨byteOf (text.takeWhile isDigit) ::ᵥ octets, by simp [hoctets], ?_⟩
    rw [parseOctets_new_dot, ho, if_neg Bool.false_ne_true,
      check_new_eq_ok.mpr ⟨tail, htail, rfl⟩, Exec.ok_bind, hparse]
    rfl

theorem exists_readsInts {octets : Bytes (n + 1)}
    (h : IPv4Address.parseOctets (n + 1) (.new text) = .ok octets) :
    ∃ runs rest, ReadsInts (n + 1) text runs rest := by
  induction n generalizing text with
  | zero =>
    rw [parseOctets_new_last] at h
    cases ho : isNoOctet (intOfDigits (text.takeWhile isDigit)) with
    | true => simp [ho] at h
    | false => exact ⟨_, _, readsInts_one.mpr ⟨rfl, rfl, ho⟩⟩
  | succ n ih =>
    rw [parseOctets_new_dot] at h
    cases ho : isNoOctet (intOfDigits (text.takeWhile isDigit)) with
    | true => simp [ho] at h
    | false =>
      rw [ho, if_neg Bool.false_ne_true] at h
      obtain ⟨wrap, hcheck, h⟩ := Exec.bind_eq_ok.mp h
      obtain ⟨tail, htail, rfl⟩ := check_new_eq_ok.mp hcheck
      obtain ⟨octets, hparse, -⟩ := Exec.bind_eq_ok.mp h
      obtain ⟨runs, rest, hruns⟩ := ih hparse
      exact ⟨_, rest, readsInts_succ.mpr ⟨ho, tail, runs, htail, rfl, hruns⟩⟩

/-- The loop of `parse_ipv4_address` with the octets that it computes. -/
def ipv4Octets : ℕ → WrapperForParsing → Option (List Int32)
  | 0, wrap => if wrap.ch = WrapperForParsing.EOT then some [] else none
  | n + 1, wrap =>
    match parseNumber wrap with
    | .error _ => none
    | .ok (octet, wrap) =>
      if isNoOctet octet then none
      else if 0 < n then
        if wrap.ch ≠ 46 then none else (ipv4Octets n wrap.getNext).map (octet :: ·)
      else (ipv4Octets n wrap).map (octet :: ·)

theorem isSome_ipv4Octets (n : ℕ) (wrap : WrapperForParsing) :
    (ipv4Octets n wrap).isSome = parseIpv4Octets n wrap := by
  induction n generalizing wrap with
  | zero =>
    rw [ipv4Octets, parseIpv4Octets]
    split_ifs with h <;> simp [h]
  | succ n ih =>
    rw [ipv4Octets, parseIpv4Octets]
    cases parseNumber wrap with
    | error e => rfl
    | ok r =>
      dsimp only
      split_ifs <;> simp [ih]

theorem ipv4Octets_new_dot (n : ℕ) (text : List UInt8) :
    ipv4Octets (n + 2) (.new text) =
      if text.takeWhile isDigit = [] ∨ isNoOctet (intOfDigits (text.takeWhile isDigit)) then none
      else if (text.dropWhile isDigit).head? = some 46 then
        (ipv4Octets (n + 1) (.new (text.dropWhile isDigit).tail)).map
          (intOfDigits (text.takeWhile isDigit) :: ·)
      else none := by
  have hdot : (WrapperForParsing.new (text.dropWhile isDigit)).ch = 46 ↔
      (text.dropWhile isDigit).head? = some 46 := WrapperForParsing.ch_new_eq_iff (by decide)
  rw [ipv4Octets, parseNumber_new]
  by_cases hrun : text.takeWhile isDigit = []
  · simp [hrun, throwRuntimeError]
  · cases ho : isNoOctet (intOfDigits (text.takeWhile isDigit)) <;> simp [hrun, ho, hdot]

theorem ipv4Octets_new_last (text : List UInt8) :
    ipv4Octets 1 (.new text) =
      if text.takeWhile isDigit = [] ∨ isNoOctet (intOfDigits (text.takeWhile isDigit)) then none
      else if (text.dropWhile isDigit).head?.getD WrapperForParsing.EOT = WrapperForParsing.EOT then
        some [intOfDigits (text.takeWhile isDigit)]
      else none := by
  rw [ipv4Octets, parseNumber_new]
  by_cases hrun : text.takeWhile isDigit = []
  · simp [hrun, throwRuntimeError]
  · rw [if_neg hrun, ← WrapperForParsing.ch_new]
    cases ho : isNoOctet (intOfDigits (text.takeWhile isDigit)) with
    | true => simp [ho]
    | false =>
      by_cases hend :
          (WrapperForParsing.new (text.dropWhile isDigit)).ch = WrapperForParsing.EOT <;>
        simp [ipv4Octets, hrun, hend, ho]

/-- The recogniser accepts the same runs as the constructor if none of them is empty and the text
ends behind the last one. -/
theorem ipv4Octets_new_eq_some {octets : List Int32} :
    ipv4Octets (n + 1) (.new text) = some octets ↔
      ∃ runs rest, ReadsInts (n + 1) text runs rest ∧ (∀ run ∈ runs, run ≠ []) ∧
        rest.head?.getD WrapperForParsing.EOT = WrapperForParsing.EOT ∧
        octets = runs.map intOfDigits := by
  induction n generalizing text octets with
  | zero =>
    rw [ipv4Octets_new_last]
    constructor
    · intro h
      split_ifs at h with hbad hend
      rw [not_or, Bool.not_eq_true] at hbad
      refine ⟨_, _, readsInts_one.mpr ⟨rfl, rfl, hbad.2⟩, ?_, hend, (Option.some.inj h).symm⟩
      rintro run hrun
      rw [List.mem_singleton.mp hrun]
      exact hbad.1
    · rintro ⟨runs, rest, h, hne, hend, rfl⟩
      obtain ⟨rfl, rfl, ho⟩ := readsInts_one.mp h
      rw [if_neg (by simp [ho, hne _ (List.mem_singleton_self _)]), if_pos hend]
      rfl
  | succ n ih =>
    rw [ipv4Octets_new_dot]
    constructor
    · intro h
      split_ifs at h with hbad hdot
      rw [not_or, Bool.not_eq_true] at hbad
      obtain ⟨octets', ho, rfl⟩ := Option.map_eq_some_iff.mp h
      obtain ⟨runs, rest, hruns, hne, hend, rfl⟩ := ih.mp ho
      obtain ⟨tail, htail⟩ := List.head?_eq_some_iff.mp hdot
      rw [htail, List.tail_cons] at hruns
      refine ⟨_, rest, readsInts_succ.mpr ⟨hbad.2, tail, runs, htail, rfl, hruns⟩, ?_, hend, rfl⟩
      rw [List.forall_mem_cons]
      exact ⟨hbad.1, hne⟩
    · rintro ⟨runs, rest, h, hne, hend, rfl⟩
      obtain ⟨ho, tail, runs, htail, rfl, hruns⟩ := readsInts_succ.mp h
      rw [List.forall_mem_cons] at hne
      have hoctets := ih.mpr ⟨runs, rest, hruns, hne.2, hend, rfl⟩
      simp [htail, hne.1, ho, hoctets]

end Cli

end Klevret
