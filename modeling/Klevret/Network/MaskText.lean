import Klevret.Network.DottedText
import Klevret.Network.SubnetMask

/-! # Reading a subnet mask from text

The textual constructor of `IPv4SubnetMask` checks the octets and never stores
them. Its table of octets has no 0, and an octet is only allowed behind 255, so
it accepts the masks of 25 bits and more; their memory stays as it was.
-/

namespace Klevret

open Foundation

def allowedMaskValues : List UInt8 := [128, 192, 224, 240, 248, 252, 254, 255]

namespace IPv4SubnetMask

/-- The constructor loop, for the octets that are still missing. -/
def parseOctets : (previousValue : UInt8) → (n : ℕ) → WrapperForParsing → Exec WrapperForParsing
  | _, 0, wrap => return wrap
  | previousValue, n + 1, wrap => do
    let (octet, wrap) ← parseOctet wrap
    if octet ∉ allowedMaskValues then
      throwRuntimeError "Ошибка парсинга маски подсети: недопустимое значение октета"
    if previousValue ≠ 255 then
      throwRuntimeError
        "Ошибка парсинга маски подсети: маска должна быть непрерывной цепочкой бит равных 1"
    if 0 < n then
      if wrap.ch ≠ 46 then throwRuntimeError "Ошибка парсинга маски подсети: ожидалась точка"
      parseOctets octet n wrap.getNext
    else parseOctets octet n wrap

/-- `IPv4SubnetMask(std::string)`; the octets of the new object are what its memory holds. -/
def ofString (memory : Bytes 4) (mask : List UInt8) : Exec IPv4SubnetMask := do
  let wrap ← parseOctets 255 4 (.new mask)
  if wrap.ch ≠ WrapperForParsing.EOT then
    throwLiteralPlusChar "Ошибка парсинга маски подсети: неизвестный символ: " wrap.ch
  return ⟨memory⟩

end IPv4SubnetMask

/-- A dotted quad whose bits are a number of ones and only zeros behind them. -/
structure IsMask (text : List UInt8) (runs : List (List UInt8)) (ones : ℕ) : Prop where
  quad : IsDottedQuad text runs
  ones_le : ones ≤ 32
  bits : beValue (runs.map fun run => UInt8.ofNat (decimal run)) = 2 ^ 32 - 2 ^ (32 - ones)

/-- The constructor returns the mask of the text, whatever memory it is given, and throws on all
texts that are none. -/
structure ParsesMask (text : List UInt8) : Prop where
  returns_iff : ∀ memory, (∃ mask, IPv4SubnetMask.ofString memory text = .ok mask) ↔
    ∃ runs ones, IsMask text runs ones
  value : ∀ memory mask runs ones, IPv4SubnetMask.ofString memory text = .ok mask →
    IsMask text runs ones →
      mask.toNetworkData = (runs.map fun run => UInt8.ofNat (decimal run)) ∧ mask.toPrefix = ones
  throws : (¬ ∃ runs ones, IsMask text runs ones) →
    ∀ memory, (IPv4SubnetMask.ofString memory text).Throws

/-- The octets are in the table, and behind another one than 255 there is none. -/
def Continues : (previousValue : UInt8) → List UInt8 → Prop
  | _, [] => True
  | previousValue, octet :: octets =>
    octet ∈ allowedMaskValues ∧ previousValue = 255 ∧ Continues octet octets

/-- Where the text starts with four such octets, another character follows that the message of the
refusal can be built for. -/
def QuadRefused (text : List UInt8) : Prop :=
  ∀ runs rest, ReadsOctets 4 text runs rest → Continues 255 (runs.map octetOf) →
    ∃ ch, rest.head? = some ch ∧ ch ≠ WrapperForParsing.EOT ∧ ch.toNat ≤ 94

variable {n : ℕ} {text rest : List UInt8} {runs : List (List UInt8)} {previousValue : UInt8}
  {memory memory' : Bytes 4} {mask : IPv4SubnetMask}

section Octets

theorem parseOctets_new_succ (n : ℕ) (previousValue : UInt8) (text : List UInt8) :
    IPv4SubnetMask.parseOctets previousValue (n + 1) (.new text) =
      if 255 < decimal (text.takeWhile isDigit) % 2 ^ 64 then
        throwRuntimeError "Ошибка парсинга IP-адреса, октет не может быть больше 255"
      else if octetOf (text.takeWhile isDigit) ∉ allowedMaskValues then
        throwRuntimeError "Ошибка парсинга маски подсети: недопустимое значение октета"
      else if previousValue ≠ 255 then
        throwRuntimeError
          "Ошибка парсинга маски подсети: маска должна быть непрерывной цепочкой бит равных 1"
      else if 0 < n then
        if (text.dropWhile isDigit).head? ≠ some 46 then
          throwRuntimeError "Ошибка парсинга маски подсети: ожидалась точка"
        else IPv4SubnetMask.parseOctets (octetOf (text.takeWhile isDigit)) n
          (.new (text.dropWhile isDigit).tail)
      else .ok (.new (text.dropWhile isDigit)) := by
  have hdot : (WrapperForParsing.new (text.dropWhile isDigit)).ch ≠ 46 ↔
      (text.dropWhile isDigit).head? ≠ some 46 :=
    (WrapperForParsing.ch_new_eq_iff (by decide)).not
  rw [IPv4SubnetMask.parseOctets, parseOctet_new]
  by_cases hlarge : 255 < decimal (text.takeWhile isDigit) % 2 ^ 64
  · rw [if_pos hlarge, if_pos hlarge, Exec.throwRuntimeError_bind]
  · rw [if_neg hlarge, if_neg hlarge, Exec.ok_bind]
    simp only [hdot, WrapperForParsing.getNext_new]
    cases n with
    | zero => split_ifs <;> rfl
    | succ n => simp only [Nat.succ_pos, if_true]; split_ifs <;> rfl

/-- The first octet passes the checks. -/
def Passes (previousValue : UInt8) (text : List UInt8) : Prop :=
  decimal (text.takeWhile isDigit) % 2 ^ 64 ≤ 255 ∧
    octetOf (text.takeWhile isDigit) ∈ allowedMaskValues ∧ previousValue = 255

theorem Passes.parseOctets_eq (h : Passes previousValue text) (n : ℕ) :
    IPv4SubnetMask.parseOctets previousValue (n + 1) (.new text) =
      if 0 < n then
        if (text.dropWhile isDigit).head? ≠ some 46 then
          throwRuntimeError "Ошибка парсинга маски подсети: ожидалась точка"
        else IPv4SubnetMask.parseOctets (octetOf (text.takeWhile isDigit)) n
          (.new (text.dropWhile isDigit).tail)
      else .ok (.new (text.dropWhile isDigit)) := by
  obtain ⟨hle, hallowed, hprevious⟩ := h
  rw [parseOctets_new_succ, if_neg (Nat.not_lt.mpr hle), if_neg (not_not.mpr hallowed),
    if_neg (not_not.mpr hprevious)]

theorem throws_of_not_passes (h : ¬ Passes previousValue text) (n : ℕ) :
    (IPv4SubnetMask.parseOctets previousValue (n + 1) (.new text)).Throws := by
  rw [parseOctets_new_succ]
  by_cases hlarge : 255 < decimal (text.takeWhile isDigit) % 2 ^ 64
  · rw [if_pos hlarge]
    exact Exec.throws_throws _
  · by_cases hallowed : octetOf (text.takeWhile isDigit) ∈ allowedMaskValues
    · have hprevious : previousValue ≠ 255 := fun hprevious =>
        h ⟨Nat.not_lt.mp hlarge, hallowed, hprevious⟩
      rw [if_neg hlarge, if_neg (not_not.mpr hallowed), if_pos hprevious]
      exact Exec.throws_throws _
    · rw [if_neg hlarge, if_pos hallowed]
      exact Exec.throws_throws _

theorem parseOctets_of_continues (h : ReadsOctets (n + 1) text runs rest)
    (hruns : Continues previousValue (runs.map octetOf)) :
    IPv4SubnetMask.parseOctets previousValue (n + 1) (.new text) = .ok (.new rest) := by
  induction n generalizing text runs previousValue with
  | zero =>
    obtain ⟨rfl, rfl, hle⟩ := readsOctets_one.mp h
    have hpasses : Passes previousValue text := ⟨hle, hruns.1, hruns.2.1⟩
    rw [hpasses.parseOctets_eq, if_neg (Nat.lt_irrefl 0)]
  | succ n ih =>
    obtain ⟨hle, tail, runs', htail, rfl, htailRuns⟩ := readsOctets_succ.mp h
    have hpasses : Passes previousValue text := ⟨hle, hruns.1, hruns.2.1⟩
    rw [hpasses.parseOctets_eq, if_pos (Nat.succ_pos n), htail, if_neg (by simp)]
    exact ih htailRuns hruns.2.2

/-- All other texts are refused. -/
theorem exists_continues_or_throws (n : ℕ) (previousValue : UInt8) (text : List UInt8) :
    (∃ runs rest, ReadsOctets (n + 1) text runs rest ∧
      Continues previousValue (runs.map octetOf)) ∨
      (IPv4SubnetMask.parseOctets previousValue (n + 1) (.new text)).Throws := by
  induction n generalizing previousValue text with
  | zero =>
    by_cases hpasses : Passes previousValue text
    · refine Or.inl ⟨_, _, readsOctets_one.mpr ⟨rfl, rfl, hpasses.1⟩, ?_⟩
      exact ⟨hpasses.2.1, hpasses.2.2, trivial⟩
    · exact Or.inr (throws_of_not_passes hpasses 0)
  | succ n ih =>
    by_cases hpasses : Passes previousValue text
    · by_cases hdot : (text.dropWhile isDigit).head? = some 46
      · obtain ⟨tail, htail⟩ := List.head?_eq_some_iff.mp hdot
        rw [hpasses.parseOctets_eq, if_pos (Nat.succ_pos n), if_neg (not_not.mpr hdot), htail,
          List.tail_cons]
        apply (ih (octetOf (text.takeWhile isDigit)) tail).imp_left
        rintro ⟨runs, rest, hreads, hruns⟩
        refine ⟨_, rest, readsOctets_succ.mpr ⟨hpasses.1, tail, runs, htail, rfl, hreads⟩, ?_⟩
        exact ⟨hpasses.2.1, hpasses.2.2, hruns⟩
      · rw [hpasses.parseOctets_eq, if_pos (Nat.succ_pos n), if_pos hdot]
        exact Or.inr (Exec.throws_throws _)
    · exact Or.inr (throws_of_not_passes hpasses (n + 1))

end Octets

section Text

theorem ofString_of_continues (h : ReadsOctets 4 text runs rest)
    (hruns : Continues 255 (runs.map octetOf)) (memory : Bytes 4) :
    IPv4SubnetMask.ofString memory text =
      if rest.head?.getD WrapperForParsing.EOT = WrapperForParsing.EOT then .ok ⟨memory⟩
      else throwLiteralPlusChar "Ошибка парсинга маски подсети: неизвестный символ: "
        (rest.head?.getD WrapperForParsing.EOT) := by
  rw [IPv4SubnetMask.ofString, parseOctets_of_continues h hruns, Exec.ok_bind,
    ← WrapperForParsing.ch_new]
  by_cases hch : (WrapperForParsing.new rest).ch = WrapperForParsing.EOT
  · simp [hch]
  · rw [if_neg hch, if_pos hch]
    exact throwLiteralPlusChar_bind _ _ _

theorem exists_reads_or_throws_ofString_mask (text : List UInt8) :
    (∃ runs rest, ReadsOctets 4 text runs rest ∧ Continues 255 (runs.map octetOf)) ∨
      ∀ memory, (IPv4SubnetMask.ofString memory text).Throws := by
  apply (exists_continues_or_throws 3 255 text).imp_right
  rintro ⟨e, he⟩ memory
  exact ⟨e, by rw [IPv4SubnetMask.ofString, he]; rfl⟩

/-- What is accepted is accepted with any memory, which is left as it is. -/
theorem ofString_memory (h : IPv4SubnetMask.ofString memory text = .ok mask)
    (memory' : Bytes 4) : IPv4SubnetMask.ofString memory' text = .ok ⟨memory'⟩ := by
  rcases exists_reads_or_throws_ofString_mask text with ⟨runs, rest, hreads, hruns⟩ | hthrows
  · rw [ofString_of_continues hreads hruns] at h ⊢
    split_ifs at h ⊢
    · rfl
    · exact absurd h throwLiteralPlusChar_ne_ok
  · have hmemory := hthrows memory
    rw [h] at hmemory
    exact absurd hmemory (Exec.not_throws_ok mask)

/-- No mask is parsed: the constructor throws, or it returns what the memory held. -/
theorem ParsesMask.not_isMask (h : ParsesMask text) : ¬ ∃ runs ones, IsMask text runs ones := by
  rintro ⟨runs, ones, hmask⟩
  have hreturns : ∀ memory, IPv4SubnetMask.ofString memory text = .ok ⟨memory⟩ := by
    obtain ⟨mask, hok⟩ := (h.returns_iff (.replicate 4 0)).mpr ⟨runs, ones, hmask⟩
    exact ofString_memory hok
  have hzeros := (h.value _ _ runs ones (hreturns (.replicate 4 0)) hmask).1
  have hothers := (h.value _ _ runs ones (hreturns (.replicate 4 1)) hmask).1
  exact absurd (hzeros.trans hothers.symm) (by decide)

theorem ParsesMask.quadRefused (h : ParsesMask text) : QuadRefused text := by
  intro runs rest hreads hruns
  obtain ⟨e, he⟩ := h.throws h.not_isMask (.replicate 4 0)
  rw [ofString_of_continues hreads hruns] at he
  split_ifs at he with hend
  have hthrows : (throwLiteralPlusChar "Ошибка парсинга маски подсети: неизвестный символ: "
      (rest.head?.getD WrapperForParsing.EOT) : Exec IPv4SubnetMask).Throws := ⟨e, he⟩
  rw [throws_throwLiteralPlusChar_iff] at hthrows
  cases hhead : rest.head? with
  | none => exact absurd (by rw [hhead]; rfl) hend
  | some ch =>
    rw [hhead] at hend hthrows
    exact ⟨ch, rfl, hend, hthrows.2⟩

/-- The textual constructor is right on a text exactly if the text is no mask and is refused. -/
theorem parsesMask_iff (text : List UInt8) :
    ParsesMask text ↔ (¬ ∃ runs ones, IsMask text runs ones) ∧ QuadRefused text := by
  constructor
  · exact fun h => ⟨h.not_isMask, h.quadRefused⟩
  · rintro ⟨hmask, hrefused⟩
    have hthrows : ∀ memory, (IPv4SubnetMask.ofString memory text).Throws := by
      rcases exists_reads_or_throws_ofString_mask text with ⟨runs, rest, hreads, hruns⟩ | hthrows
      · intro memory
        obtain ⟨ch, hhead, hEOT, hle⟩ := hrefused runs rest hreads hruns
        rw [ofString_of_continues hreads hruns, hhead, Option.getD_some, if_neg hEOT,
          throws_throwLiteralPlusChar_iff]
        refine ⟨?_, hle⟩
        rw [UInt8.lt_iff_toNat_lt]
        exact hle.trans_lt (by decide)
      · exact hthrows
    have hnot : ∀ memory mask, IPv4SubnetMask.ofString memory text ≠ .ok mask := by
      intro memory mask hok
      have hmemory := hthrows memory
      rw [hok] at hmemory
      exact Exec.not_throws_ok mask hmemory
    refine ⟨fun memory => ?_, fun memory mask _ _ hok _ => absurd hok (hnot memory mask), ?_⟩
    · exact iff_of_false (fun ⟨mask, hok⟩ => hnot memory mask hok) hmask
    · exact fun _ => hthrows

/-- The text `255.255.255.0`. -/
theorem not_parsesMask_sample :
    ¬ (∀ text, ParsesMask text) ∧ ¬ ParsesMask (literal "255.255.255.0") := by
  have hnot : ¬ ParsesMask (literal "255.255.255.0") := by
    intro h
    have htext : literal "255.255.255.0" = dottedText [255, 255, 255, 0] := by decide +kernel
    have hquad : IsDottedQuad (literal "255.255.255.0") _ :=
      htext ▸ @isDottedQuad_dottedText [255, 255, 255, 0] rfl
    exact h.not_isMask ⟨_, 24, hquad, by decide, by decide +kernel⟩
  exact ⟨fun h => hnot (h _), hnot⟩

end Text

end Klevret
