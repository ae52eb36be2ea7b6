import Klevret.Cli.Command
import Klevret.Cli.Numbers

/-! # Reading a rendered pattern

Words are rendered as themselves and variables by their names, with whitespace
between two elements. A pass of the constructor reads one element with the
whitespace before it, so what was rendered is read back.
-/

namespace Klevret.Cli

open Foundation

/-- The texts of the elements that a pattern may have. -/
inductive Renders : CommandElement → List UInt8 → Prop
  | fixedWord {word : List UInt8} :
      word ≠ [] → (∀ ch ∈ word, isAlpha ch = true) → Renders ⟨.fixedWord, word⟩ word
  | variableElement {name : List UInt8} {type : CommandElementType} :
      (name, type) ∈ strToElementTypeMap → Renders ⟨type, []⟩ (60 :: (name ++ [62]))

/-- Elements with whitespace before each of them. -/
inductive RendersTail : List CommandElement → List UInt8 → Prop
  | nil : RendersTail [] []
  | cons {space text rest : List UInt8} {element : CommandElement}
      {elements : List CommandElement} :
      space ≠ [] → (∀ ch ∈ space, isSpace ch = true) → Renders element text →
      RendersTail elements rest →
      RendersTail (element :: elements) (space ++ (text ++ rest))

/-- Before the first element there may be whitespace. -/
inductive RendersPattern : List CommandElement → List UInt8 → Prop
  | mk {space text rest : List UInt8} {element : CommandElement}
      {elements : List CommandElement} :
      (∀ ch ∈ space, isSpace ch = true) → Renders element text → RendersTail elements rest →
      RendersPattern (element :: elements) (space ++ (text ++ rest))

variable {element : CommandElement} {elements : List CommandElement}
  {text rest space name word pattern : List UInt8} {type : CommandElementType} {ch : UInt8}

section Characters

theorem isSpace_false_of_isAlpha (h : isAlpha ch = true) : isSpace ch = false := by
  simp only [isAlpha, isSpace, Bool.or_eq_true, decide_eq_true_eq, Bool.or_eq_false_iff,
    decide_eq_false_iff_not, UInt8.le_iff_toNat_le, ← UInt8.toNat_inj, UInt8.reduceToNat] at h ⊢
  omega

theorem isAlpha_false_of_isSpace (h : isSpace ch = true) : isAlpha ch = false := by
  cases ha : isAlpha ch with
  | false => rfl
  | true => rw [isSpace_false_of_isAlpha ha] at h; cases h

theorem ne_EOT_of_isAlpha (h : isAlpha ch = true) : ch ≠ WrapperForParsing.EOT := by
  rintro rfl
  cases h

theorem ne_EOT_of_isSpace (h : isSpace ch = true) : ch ≠ WrapperForParsing.EOT := by
  rintro rfl
  cases h

theorem isEnd_new_cons (h : ch ≠ WrapperForParsing.EOT) (text : List UInt8) :
    (WrapperForParsing.new (ch :: text)).isEnd = false := by
  rw [WrapperForParsing.isEnd, WrapperForParsing.ch_new]
  exact beq_eq_false_iff_ne.mpr h

end Characters

section Elements

theorem lookup_of_mem (h : (name, type) ∈ strToElementTypeMap) :
    strToElementTypeMap.lookup name = some type := by
  have hall : ∀ e ∈ strToElementTypeMap, strToElementTypeMap.lookup e.1 = some e.2 := by decide
  exact hall _ h

theorem name_of_mem (h : (name, type) ∈ strToElementTypeMap) :
    name ≠ [] ∧ ∀ ch ∈ name, isAlnum ch = true := by
  have hall : ∀ e ∈ strToElementTypeMap, e.1 ≠ [] ∧ e.1.all isAlnum = true := by decide
  obtain ⟨hne, halnum⟩ := hall _ h
  exact ⟨hne, List.all_eq_true.mp halnum⟩

theorem RendersTail.head (h : RendersTail elements text) :
    ∀ ch ∈ text.head?, isSpace ch = true := by
  cases h with
  | nil => exact fun ch hch => by cases hch
  | @cons space text rest element elements hne hspace _ _ =>
    obtain ⟨ch, space, rfl⟩ := List.exists_cons_of_ne_nil hne
    rintro ch ⟨⟩
    exact hspace _ List.mem_cons_self

theorem Renders.exists_cons (h : Renders element text) :
    ∃ ch text', text = ch :: text' ∧ isSpace ch = false ∧ ch ≠ WrapperForParsing.EOT := by
  cases h with
  | @fixedWord word hne halpha =>
    obtain ⟨ch, word, rfl⟩ := List.exists_cons_of_ne_nil hne
    have hch := halpha ch List.mem_cons_self
    exact ⟨ch, word, rfl, isSpace_false_of_isAlpha hch, ne_EOT_of_isAlpha hch⟩
  | variableElement _ => exact ⟨60, _, rfl, rfl, by decide⟩

theorem parseVariableElement_new (h : (name, type) ∈ strToElementTypeMap) (rest : List UInt8) :
    parseVariableElement (.new (60 :: (name ++ 62 :: rest))) = .ok (⟨type, []⟩, .new rest) := by
  obtain ⟨hne, halnum⟩ := name_of_mem h
  have hgt : ∀ ch ∈ (62 :: rest).head?, isAlnum ch = false := by
    rintro ch ⟨⟩
    rfl
  obtain ⟨htake, hdrop⟩ := span_run halnum hgt
  have hspan : (WrapperForParsing.new (name ++ 62 :: rest)).span isAlnum =
      (name, .new (62 :: rest)) := by
    rw [WrapperForParsing.span_new (by decide), htake, hdrop]
  rw [parseVariableElement, WrapperForParsing.getNext_new, List.tail_cons, hspan]
  simp [WrapperForParsing.ch_new, hne, lookup_of_mem h]

theorem parsePatternElement_new (h : Renders element text)
    (hrest : ∀ ch ∈ rest.head?, isSpace ch = true) :
    parsePatternElement (.new (text ++ rest)) = .ok (element, .new rest) := by
  cases h with
  | @fixedWord word hne halpha =>
    have hstop : ∀ ch ∈ rest.head?, isAlpha ch = false := fun ch hch =>
      isAlpha_false_of_isSpace (hrest ch hch)
    obtain ⟨htake, hdrop⟩ := span_run halpha hstop
    have hfirst : isAlpha (WrapperForParsing.new (text ++ rest)).ch = true := by
      obtain ⟨ch, word, rfl⟩ := List.exists_cons_of_ne_nil hne
      exact halpha ch List.mem_cons_self
    rw [parsePatternElement, if_pos hfirst, parseFixedWord,
      WrapperForParsing.span_new (by decide), htake, hdrop]
    rfl
  | @variableElement name type hmem =>
    have htext : 60 :: (name ++ [62]) ++ rest = 60 :: (name ++ 62 :: rest) := by simp
    rw [htext, parsePatternElement, WrapperForParsing.ch_new, List.head?_cons, Option.getD_some,
      if_neg (by decide), if_pos rfl, parseVariableElement_new hmem]

end Elements

theorem patternPass_new (before : List CommandElement)
    (hspace : ∀ ch ∈ space, isSpace ch = true) (h : Renders element text)
    (hrest : ∀ ch ∈ rest.head?, isSpace ch = true) :
    patternPass (before, .new (space ++ (text ++ rest))) =
      .ok (.inl (before ++ [element], .new rest)) := by
  obtain ⟨ch, text', rfl, hch, hEOT⟩ := h.exists_cons
  have hstop : ∀ c ∈ (ch :: text' ++ rest).head?, isSpace c = false := by
    rintro c ⟨⟩
    exact hch
  have hskip : (WrapperForParsing.new (space ++ (ch :: text' ++ rest))).skipWhitespaces =
      .new (ch :: text' ++ rest) := by
    rw [WrapperForParsing.skipWhitespaces, WrapperForParsing.span_new (by decide),
      (span_run hspace hstop).2]
  have hend : (WrapperForParsing.new (space ++ (ch :: text' ++ rest))).isEnd = false := by
    cases space with
    | nil => exact isEnd_new_cons hEOT _
    | cons c space => exact isEnd_new_cons (ne_EOT_of_isSpace (hspace c List.mem_cons_self)) _
  rw [patternPass, hend, hskip, parsePatternElement_new h hrest]
  rfl

theorem Renders.length_pos (h : Renders element text) : 0 < text.length := by
  obtain ⟨ch, text', rfl, -⟩ := h.exists_cons
  exact Nat.succ_pos _

theorem iterate_patternPass_tail (h : RendersTail elements text) (before : List CommandElement) :
    iterate (attempt patternPass) (text.length + 1) (before, .new text) =
      some (.ok (before ++ elements, .new [])) := by
  induction h generalizing before with
  | nil =>
    rw [List.append_nil]
    exact iterate_exit (attempt_exit rfl)
  | @cons space text rest element elements _ hspace hrenders htail ih =>
    have hpass := patternPass_new before hspace hrenders htail.head
    have hpos := hrenders.length_pos
    rw [iterate_next (attempt_eq_inl.mpr hpass)]
    have hrun := ih (before ++ [element])
    rw [List.append_assoc, List.singleton_append] at hrun
    apply iterate_mono hrun
    simp only [List.length_append]
    omega

theorem parsePattern_of_renders (h : RendersPattern elements pattern) :
    parsePattern pattern = .ok elements := by
  obtain @⟨space, text, rest, element, elements, hspace, hrenders, htail⟩ := h
  have hpass := patternPass_new [] hspace hrenders htail.head
  have hpos := hrenders.length_pos
  have hrun : iterate (attempt patternPass) ((space ++ (text ++ rest)).length + 1)
      ([], .new (space ++ (text ++ rest))) = some (.ok (element :: elements, .new [])) := by
    rw [iterate_next (attempt_eq_inl.mpr hpass)]
    apply iterate_mono (iterate_patternPass_tail htail [element])
    simp only [List.length_append]
    omega
  rw [parsePattern, loop, hrun]
  rfl

variable {H : Type}

/-- A pattern that was rendered from elements gives a command with these elements. -/
theorem Command.exists_new_of_renders (h : RendersPattern elements pattern) (handler : Option H) :
    ∃ command, Command.new pattern handler = .ok command ∧ command.elements = elements ∧
      command.handler = handler := by
  have hparse := parsePattern_of_renders h
  refine ⟨⟨elements, handler, typed_of_parsePattern hparse⟩, ?_, rfl, rfl⟩
  unfold Command.new
  split
  · rename_i e he
    rw [hparse] at he
    cases he
  · rename_i elements' helements
    obtain rfl : elements = elements' := Except.ok.inj (hparse.symm.trans helements)
    rfl

/-- The pattern `ip  <name>`, with a tabulator before it and two blanks in it. -/
theorem Command.exists_new_sample :
    RendersPattern [⟨.fixedWord, literal "ip"⟩, ⟨.name, []⟩]
      ([9] ++ (literal "ip" ++ ([32, 32] ++ (60 :: (literal "name" ++ [62]) ++ [])))) ∧
    ∃ command, Command.new
        ([9] ++ (literal "ip" ++ ([32, 32] ++ (60 :: (literal "name" ++ [62]) ++ [])))) (some ()) =
        .ok command ∧
      command.elements = [⟨.fixedWord, literal "ip"⟩, ⟨.name, []⟩] ∧
      command.handler = some () := by
  have hpattern : RendersPattern [⟨.fixedWord, literal "ip"⟩, ⟨.name, []⟩]
      ([9] ++ (literal "ip" ++ ([32, 32] ++ (60 :: (literal "name" ++ [62]) ++ [])))) :=
    .mk (List.all_eq_true.mp (by decide))
      (.fixedWord (by decide) (List.all_eq_true.mp (by decide)))
      (.cons (by decide) (List.all_eq_true.mp (by decide)) (.variableElement (by decide)) .nil)
  exact ⟨hpattern, Command.exists_new_of_renders hpattern (some ())⟩

end Klevret.Cli
