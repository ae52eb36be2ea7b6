import Klevret.Cli.Dispatch
import Klevret.Cli.Numbers

/-! # What the recognisers take for a token

Each recogniser is described by the texts that it accepts. Only a subnet mask
that does not begin with a digit makes one throw, and then the walk through the
tree throws with it.
-/

namespace Klevret.Cli

open Foundation

section Tokens

def IsQuotedWord (str : List UInt8) : Prop :=
  ∃ letters : List UInt8, (∀ ch ∈ letters, isAlpha ch = true) ∧ str = 34 :: (letters ++ [34])

structure IsMaskNumber (str : List UInt8) : Prop where
  ne_nil : str ≠ []
  digits : ∀ ch ∈ str, isDigit ch = true
  le : decimal str ≤ 32

/-- A text that begins with a quoted word. -/
def TakesString (str : List UInt8) : Prop :=
  ∃ letters rest : List UInt8, (∀ ch ∈ letters, isAlpha ch = true) ∧
    str = 34 :: (letters ++ 34 :: rest)

/-- Four numerals that are octets in an `int`, with the end of the text or its mark behind them. -/
def TakesIpv4Address (str : List UInt8) : Prop :=
  ∃ runs rest, ReadsInts 4 str runs rest ∧ (∀ run ∈ runs, run ≠ []) ∧
    rest.head?.getD WrapperForParsing.EOT = WrapperForParsing.EOT

/-- A text that begins with a numeral which is a prefix length in an `int`. -/
def TakesIpv4SubnetMask (str : List UInt8) : Prop :=
  str.takeWhile isDigit ≠ [] ∧ decimal (str.takeWhile isDigit) % 2 ^ 32 ≤ 32

/-- What an element takes of the parts of a line. -/
def Takes (str : List UInt8) (element : CommandElement) : Prop :=
  match element.type with
  | .none => False
  | .fixedWord => element.fixedValue = str
  | .string => TakesString str
  | .ipV4Address => TakesIpv4Address str
  | .ipV4SubnetMask => TakesIpv4SubnetMask str
  | .name | .ipV6Address | .ipV6SubnetMask => True

end Tokens

section Recognisers

variable {str : List UInt8} {element : CommandElement}

theorem isAlpha_quote : ∀ rest : List UInt8, ∀ ch ∈ (34 :: rest).head?, isAlpha ch = false := by
  rintro rest ch ⟨⟩
  rfl

theorem parseString_iff : parseString str = true ↔ TakesString str := by
  have hEOT : (34 : UInt8) ≠ WrapperForParsing.EOT := by decide
  cases str with
  | nil => simp [parseString, WrapperForParsing.ch_new, hEOT.symm, TakesString]
  | cons quote str =>
    rw [parseString, WrapperForParsing.ch_new, List.head?_cons, Option.getD_some,
      WrapperForParsing.getNext_new, List.tail_cons, WrapperForParsing.span_new (by decide)]
    constructor
    · intro h
      by_cases hquote : quote = 34
      · simp only [hquote, ne_eq, not_true_eq_false, if_false, beq_iff_eq,
          WrapperForParsing.ch_new_eq_iff hEOT] at h
        obtain ⟨rest, hrest⟩ := List.head?_eq_some_iff.mp h
        refine ⟨str.takeWhile isAlpha, rest, fun ch => List.mem_takeWhile_imp, ?_⟩
        rw [hquote, ← hrest, List.takeWhile_append_dropWhile]
      · simp [hquote] at h
    · rintro ⟨letters, rest, hletters, heq⟩
      obtain ⟨rfl, rfl⟩ := List.cons.inj heq
      simp [(span_run hletters (isAlpha_quote rest)).2, WrapperForParsing.ch_new]

theorem parseIpv4Address_iff : parseIpv4Address str = true ↔ TakesIpv4Address str := by
  rw [parseIpv4Address, ← isSome_ipv4Octets, Option.isSome_iff_exists]
  constructor
  · rintro ⟨octets, h⟩
    obtain ⟨runs, rest, hreads, hne, hend, -⟩ := ipv4Octets_new_eq_some.mp h
    exact ⟨runs, rest, hreads, hne, hend⟩
  · rintro ⟨runs, rest, hreads, hne, hend⟩
    exact ⟨_, ipv4Octets_new_eq_some.mpr ⟨runs, rest, hreads, hne, hend, rfl⟩⟩

theorem isNoMask_iff {digits : List UInt8} (h : ∀ ch ∈ digits, isDigit ch = true) :
    (intOfDigits digits < 0 ∨ intOfDigits digits > 32) ↔ ¬ decimal digits % 2 ^ 32 ≤ 32 := by
  rw [gt_iff_lt, Int32.lt_iff_toInt_lt, Int32.lt_iff_toInt_lt, intOfDigits_eq h, Int32.toInt_ofInt,
    Int32.size, Int.bmod_def]
  simp only [Int32.reduceToInt]
  omega

theorem parseIpv4SubnetMask_eq (str : List UInt8) :
    parseIpv4SubnetMask str =
      if str.takeWhile isDigit = [] then
        throwRuntimeError "Ошибка парсинга числа: ожидалась цифра"
      else .ok (decide (decimal (str.takeWhile isDigit) % 2 ^ 32 ≤ 32)) := by
  rw [parseIpv4SubnetMask, parseNumber_new]
  by_cases hrun : str.takeWhile isDigit = []
  · rw [if_pos hrun, if_pos hrun, Exec.throwRuntimeError_bind]
  · rw [if_neg hrun, if_neg hrun, Exec.ok_bind]
    dsimp only
    have hmask := @isNoMask_iff (str.takeWhile isDigit) isDigit_of_mem_takeWhile
    by_cases hle : decimal (str.takeWhile isDigit) % 2 ^ 32 ≤ 32
    · rw [if_neg (fun h => hmask.mp h hle), decide_eq_true hle]
      rfl
    · rw [if_pos (hmask.mpr hle), decide_eq_false hle]
      rfl

/-- An element answers what it takes, if it answers. -/
theorem takes_of_checkCommandElement {b : Bool} (h : checkCommandElement str element = .ok b) :
    b = true ↔ Takes str element := by
  unfold checkCommandElement at h
  unfold Takes
  cases ht : element.type with
  | none | fixedWord | name | ipV6Address | ipV6SubnetMask =>
    simp only [ht, Exec.pure_eq_ok, Except.ok.injEq] at h
    rw [← h]
    simp [parseName, parseIpv6Address, parseIpv6SubnetMask]
  | string =>
    simp only [ht, Exec.pure_eq_ok, Except.ok.injEq] at h
    rw [← h, parseString_iff]
  | ipV4Address =>
    simp only [ht, Exec.pure_eq_ok, Except.ok.injEq] at h
    rw [← h, parseIpv4Address_iff]
  | ipV4SubnetMask =>
    simp only [ht, parseIpv4SubnetMask_eq] at h
    split_ifs at h with hrun
    · exact absurd h Exec.throwRuntimeError_ne_ok
    · rw [← Except.ok.inj h, decide_eq_true_eq, TakesIpv4SubnetMask]
      exact (and_iff_right hrun).symm

theorem exists_checkCommandElement_iff :
    (∃ b, checkCommandElement str element = .ok b) ↔
      (element.type = .ipV4SubnetMask → str.takeWhile isDigit ≠ []) := by
  unfold checkCommandElement
  cases ht : element.type with
  | ipV4SubnetMask =>
    rw [parseIpv4SubnetMask_eq]
    split_ifs with hrun
    · simp [hrun]
    · simp [hrun]
  | _ => simp

end Recognisers

section Exactness

variable {str : List UInt8} {element : CommandElement}

/-- The recogniser of an element answers, and a token of the element is what it accepts. -/
def Recognises (str : List UInt8) (element : CommandElement) : Prop :=
  ∃ b, checkCommandElement str element = .ok b ∧
    (element.type = .string → (b = true ↔ IsQuotedWord str)) ∧
    (element.type = .ipV4Address → (b = true ↔ ∃ runs, IsDottedQuad str runs)) ∧
    (element.type = .ipV4SubnetMask → (b = true ↔ IsMaskNumber str))

/-- Nothing stands behind what a recogniser reads, its numbers do not wrap around, and a subnet mask
begins with a digit. -/
def EndsAsRead (str : List UInt8) (element : CommandElement) : Prop :=
  match element.type with
  | .string => ∀ letters rest : List UInt8, (∀ ch ∈ letters, isAlpha ch = true) →
      str = 34 :: (letters ++ 34 :: rest) → rest = []
  | .ipV4Address => ∀ runs rest, ReadsInts 4 str runs rest → (∀ run ∈ runs, run ≠ []) →
      rest.head?.getD WrapperForParsing.EOT = WrapperForParsing.EOT →
        rest = [] ∧ ∀ run ∈ runs, decimal run ≤ 255
  | .ipV4SubnetMask => str.takeWhile isDigit ≠ [] ∧
      (decimal (str.takeWhile isDigit) % 2 ^ 32 ≤ 32 →
        str.dropWhile isDigit = [] ∧ decimal (str.takeWhile isDigit) ≤ 32)
  | _ => True

theorem IsQuotedWord.takes (h : IsQuotedWord str) : TakesString str := by
  obtain ⟨letters, hletters, rfl⟩ := h
  exact ⟨letters, [], hletters, rfl⟩

theorem takesString_iff_isQuotedWord : (TakesString str ↔ IsQuotedWord str) ↔
    ∀ letters rest : List UInt8, (∀ ch ∈ letters, isAlpha ch = true) →
      str = 34 :: (letters ++ 34 :: rest) → rest = [] := by
  constructor
  · rintro h letters rest hletters rfl
    obtain ⟨letters', hletters', heq⟩ := h.mp ⟨letters, rest, hletters, rfl⟩
    have hrest := (span_run hletters (isAlpha_quote rest)).2
    rw [(List.cons.inj heq).2, (span_run hletters' (isAlpha_quote [])).2] at hrest
    exact (List.cons.inj hrest).2.symm
  · intro h
    refine ⟨?_, IsQuotedWord.takes⟩
    rintro ⟨letters, rest, hletters, heq⟩
    obtain rfl := h letters rest hletters heq
    exact ⟨letters, hletters, heq⟩

theorem takes_of_isDottedQuad {runs : List (List UInt8)} (h : IsDottedQuad str runs) :
    TakesIpv4Address str := by
  refine ⟨runs, [], ⟨h.delimited, h.length_eq, fun run hrun => ?_⟩, h.ne_nil, rfl⟩
  exact (Nat.mod_le _ _).trans (h.le run hrun)

theorem takesIpv4Address_iff_isDottedQuad :
    (TakesIpv4Address str ↔ ∃ runs, IsDottedQuad str runs) ↔
      ∀ runs rest, ReadsInts 4 str runs rest → (∀ run ∈ runs, run ≠ []) →
        rest.head?.getD WrapperForParsing.EOT = WrapperForParsing.EOT →
          rest = [] ∧ ∀ run ∈ runs, decimal run ≤ 255 := by
  constructor
  · intro h runs rest hreads hne hend
    obtain ⟨runs', hquad⟩ := h.mp ⟨runs, rest, hreads, hne, hend⟩
    obtain ⟨rfl, rfl⟩ := hreads.delimited.unique (by decide) hquad.delimited
      (hreads.length_eq.trans hquad.length_eq.symm)
    exact ⟨rfl, hquad.le⟩
  · intro h
    refine ⟨?_, fun ⟨runs, hquad⟩ => takes_of_isDottedQuad hquad⟩
    rintro ⟨runs, rest, hreads, hne, hend⟩
    obtain ⟨rfl, hle⟩ := h runs rest hreads hne hend
    exact ⟨runs, hreads.delimited, hreads.length_eq, hne, hle⟩

theorem isMaskNumber_iff : IsMaskNumber str ↔
    str.takeWhile isDigit ≠ [] ∧ str.dropWhile isDigit = [] ∧
      decimal (str.takeWhile isDigit) ≤ 32 := by
  have hself : str.dropWhile isDigit = [] → str.takeWhile isDigit = str := fun hdrop =>
    List.takeWhile_eq_self_iff.mpr (List.dropWhile_eq_nil_iff.mp hdrop)
  constructor
  · rintro ⟨hne, hdigits, hle⟩
    have hdrop := List.dropWhile_eq_nil_iff.mpr hdigits
    rw [hself hdrop]
    exact ⟨hne, hdrop, hle⟩
  · rintro ⟨hne, hdrop, hle⟩
    rw [hself hdrop] at hne hle
    exact ⟨hne, List.dropWhile_eq_nil_iff.mp hdrop, hle⟩

theorem takesIpv4SubnetMask_iff_isMaskNumber (hrun : str.takeWhile isDigit ≠ []) :
    (TakesIpv4SubnetMask str ↔ IsMaskNumber str) ↔
      (decimal (str.takeWhile isDigit) % 2 ^ 32 ≤ 32 →
        str.dropWhile isDigit = [] ∧ decimal (str.takeWhile isDigit) ≤ 32) := by
  rw [TakesIpv4SubnetMask, isMaskNumber_iff, and_iff_right hrun, and_iff_right hrun]
  refine ⟨Iff.mp, fun h => ⟨h, fun hmask => ?_⟩⟩
  exact (Nat.mod_le _ _).trans hmask.2

theorem recognises_iff (str : List UInt8) (element : CommandElement) :
    Recognises str element ↔ EndsAsRead str element := by
  have hanswer : Recognises str element ↔
      (∃ b, checkCommandElement str element = .ok b) ∧
      (element.type = .string → (Takes str element ↔ IsQuotedWord str)) ∧
      (element.type = .ipV4Address → (Takes str element ↔ ∃ runs, IsDottedQuad str runs)) ∧
      (element.type = .ipV4SubnetMask → (Takes str element ↔ IsMaskNumber str)) := by
    constructor
    · rintro ⟨b, hb, h⟩
      rw [takes_of_checkCommandElement hb] at h
      exact ⟨⟨b, hb⟩, h⟩
    · rintro ⟨⟨b, hb⟩, h⟩
      refine ⟨b, hb, ?_⟩
      rwa [takes_of_checkCommandElement hb]
  rw [hanswer, exists_checkCommandElement_iff]
  unfold EndsAsRead Takes
  cases ht : element.type with
  | string => simpa using takesString_iff_isQuotedWord
  | ipV4Address => simpa using takesIpv4Address_iff_isDottedQuad
  | ipV4SubnetMask =>
    simp only [reduceCtorEq, false_imp_iff, true_and, true_imp_iff]
    constructor
    · rintro ⟨hrun, h⟩
      exact ⟨hrun, (takesIpv4SubnetMask_iff_isMaskNumber hrun).mp h⟩
    · rintro ⟨hrun, h⟩
      exact ⟨hrun, (takesIpv4SubnetMask_iff_isMaskNumber hrun).mpr h⟩
  | _ => simp

end Exactness

section Walk

variable {H : Type} {entries : List (Entry CommandElement H)} {path : List CommandElement}
  {node : CommandTree H} {parts : List (List UInt8)} {stack : List CommandElementRealValue}

/-- The walk ends where every comparison does. -/
theorem exists_analyzeParts_iff (h : ∀ e ∈ entries, ({} : CommandElement) ∉ e.1)
    (hnode : node.childs = Trie.insertAll {} (Trie.after path entries) []) :
    (∃ r, analyzeParts parts node stack = .ok r) ↔
      ∀ part element, Trie.Meets Takes (entries.map Prod.fst) path parts part element →
        element.type = .ipV4SubnetMask → part.takeWhile isDigit ≠ [] := by
  induction parts generalizing node path stack with
  | nil =>
    refine iff_of_true ⟨_, rfl⟩ fun part element hmeets => ?_
    exact absurd hmeets Trie.not_meets_nil
  | cons part parts ih =>
    have hagree : ∀ element b, checkCommandElement part element = .ok b →
        (b = true ↔ Takes part element) := fun element b => takes_of_checkCommandElement
    have hfound := @Trie.exists_findM?_ok _ _ _ (Trie.choices path (entries.map Prod.fst)) hagree
    simp only [exists_checkCommandElement_iff] at hfound
    have hnext := @Trie.next_eq_findM? _ _ (checkCommandElement part) path (entries.map Prod.fst)
    cases hf : (Trie.choices path (entries.map Prod.fst)).findM? (checkCommandElement part) with
    | error e =>
      rw [hf] at hfound
      rw [analyzeParts_error h hnode (hnext.trans hf)]
      constructor
      · rintro ⟨r, hr⟩
        cases hr
      · intro hmeets
        obtain ⟨found, hfound⟩ := hfound.mpr fun element htried =>
          hmeets part element (.here htried)
        cases hfound
    | ok found =>
      -- what is compared with this part is harmless, so only the other parts count
      have hhere : ∀ part' element, (part' = part ∧
          Trie.Tried (Takes part) (Trie.choices path (entries.map Prod.fst)) element) →
            element.type = .ipV4SubnetMask → part'.takeWhile isDigit ≠ [] := by
        rintro _ element ⟨rfl, htried⟩
        exact hfound.mp ⟨found, hf⟩ element htried
      cases found with
      | none =>
        have hnone := Trie.not_takes_of_findM? hagree hf
        simp only [analyzeParts_skip h hnode (hnext.trans hf), ih hnode,
          Trie.meets_cons_of_skip hnone, or_imp, forall_and]
        exact (and_iff_right hhere).symm
      | some k =>
        obtain ⟨htried, hk⟩ := Trie.tried_of_findM? hagree hf
        obtain ⟨child, value, hchilds, hanalyze⟩ :=
          @analyzeParts_take _ _ _ _ _ _ parts stack h hnode (hnext.trans hf)
        simp only [hanalyze, ih hchilds, Trie.meets_cons_of_take htried hk, or_imp, forall_and]
        exact (and_iff_right hhere).symm

end Walk

/-- The recognisers are exact where the text ends as they read it, and a line is analysed if no
subnet mask is compared with a part that does not begin with a digit. -/
theorem recognisers_iff {H : Type} (str : List UInt8) (element : CommandElement)
    (commands : List (Command H)) (line : List UInt8) :
    (Recognises str element ↔ EndsAsRead str element) ∧
    ((∃ r, analyzeCommand line (createCommandTree commands) = .ok r) ↔
      ∀ part element,
        Trie.Meets Takes (commands.map Command.elements) [] (split line) part element →
          element.type = .ipV4SubnetMask → part.takeWhile isDigit ≠ []) := by
  refine ⟨recognises_iff str element, ?_⟩
  have hroot : (createCommandTree commands).childs =
      Trie.insertAll {} (Trie.after [] (commands.map fun c => (c.elements, c.handler))) [] := by
    rw [Trie.after_nil, childs_createCommandTree]
  have hkeys : (commands.map fun c => (c.elements, c.handler)).map Prod.fst =
      commands.map Command.elements := by simp
  rw [← hkeys]
  exact exists_analyzeParts_iff (not_mem_entries commands) hroot

def maskCommand : Command Unit :=
  (Command.new (literal "<IPv4SubnetMask>") (some ())).toOption.get (by decide)

/-- A quoted word with a letter behind it is accepted, and a letter in place of a subnet mask ends
the command line. -/
theorem not_recognisers_sample :
    ¬ (∀ str element, Recognises str element) ∧
    ¬ Recognises [34, 97, 34, 98] ⟨.string, []⟩ ∧
    ¬ Recognises (literal "x") ⟨.ipV4SubnetMask, []⟩ ∧
    ¬ ∃ r, analyzeCommand (literal "x") (createCommandTree [maskCommand]) = .ok r := by
  have hmask : ¬ Recognises (literal "x") ⟨.ipV4SubnetMask, []⟩ := by
    rw [recognises_iff]
    exact fun h => h.1 (by decide)
  refine ⟨fun h => hmask (h _ _), ?_, hmask, ?_⟩
  · rw [recognises_iff]
    intro h
    exact absurd (h [97] [98] (by simp [isAlpha]) (by decide)) (List.cons_ne_nil _ _)
  · rintro ⟨r, hr⟩
    have hthrows : analyzeCommand (literal "x") (createCommandTree [maskCommand]) =
        throwRuntimeError "Ошибка парсинга числа: ожидалась цифра" := by rfl
    exact absurd (hthrows.symm.trans hr) Exec.throwRuntimeError_ne_ok

end Klevret.Cli
