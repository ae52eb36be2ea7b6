import Klevret.Cli.CommandElement
import Klevret.Foundation.Loop
import Klevret.Foundation.TrieWalk

/-! # Commands, their tree and the line that is entered

A command is made from a pattern. All commands share a tree, in which a line is
looked up part by part; ENTER calls a handler that is the only child of the node
that was reached.
-/

namespace Klevret.Cli

open Foundation

def strToElementTypeMap : List (List UInt8 × CommandElementType) :=
  [(literal "string", .string), (literal "name", .name), (literal "IPv4Address", .ipV4Address),
    (literal "IPv4SubnetMask", .ipV4SubnetMask), (literal "IPv6Address", .ipV6Address),
    (literal "IPv6SubnetMask", .ipV6SubnetMask)]

section Pattern

def parseFixedWord (wrap : WrapperForParsing) : CommandElement × WrapperForParsing :=
  let (word, wrap) := wrap.span isAlpha
  (⟨.fixedWord, word⟩, wrap)

def parseVariableElement (wrap : WrapperForParsing) :
    Exec (CommandElement × WrapperForParsing) := do
  if wrap.ch ≠ 60 then throwRuntimeError "Ошибка парсинга шаблона команды: ожидалось <"
  let (variableElement, wrap) := wrap.getNext.span isAlnum
  if variableElement = [] then
    throwRuntimeError
      "Ошибка парсинга шаблона команды: вариативный элемент не может быть пустым <>"
  match strToElementTypeMap.lookup variableElement with
  | none =>
    throwRuntimeError ("Ошибка парсинга шаблона команды: неизвестный вариативный элемент <" ++
      String.ofList (variableElement.map fun ch => Char.ofNat ch.toNat) ++ ">")
  | some type =>
    if wrap.ch ≠ 62 then throwRuntimeError "Ошибка парсинга шаблона команды: ожидалось <"
    return (⟨type, []⟩, wrap.getNext)

def parsePatternElement (wrap : WrapperForParsing) : Exec (CommandElement × WrapperForParsing) :=
  if isAlpha wrap.ch then return parseFixedWord wrap
  else if wrap.ch = 60 then parseVariableElement wrap
  else throwRuntimeError "Ошибка парсинга шаблона команды: ожидалось слово или <элемент>"

/-- One pass of `while (!wrap.is_end())`. -/
def patternPass : List CommandElement × WrapperForParsing →
    Exec ((List CommandElement × WrapperForParsing) ⊕ (List CommandElement × WrapperForParsing))
  | (elements, wrap) => do
    if wrap.isEnd then return .inr (elements, wrap)
    let (element, wrap) ← parsePatternElement wrap.skipWhitespaces
    return .inl (elements ++ [element], wrap)

/-- Every pass reads a character of the pattern. -/
def parsePattern (pattern : List UInt8) : Exec (List CommandElement) := do
  let (elements, wrap) ← loop patternPass (pattern.length + 1) ([], .new pattern)
  if ¬ wrap.isEnd then
    throwRuntimeError "Ошибка парсинга шаблона команды: ожидался конец текста"
  return elements

variable {wrap wrap' : WrapperForParsing} {pattern : List UInt8} {element : CommandElement}
  {elements : List CommandElement}

theorem type_of_lookup {word : List UInt8} {type : CommandElementType}
    (h : strToElementTypeMap.lookup word = some type) : type ≠ .none := by
  obtain ⟨before, after, hmap, -⟩ := List.lookup_eq_some_iff.mp h
  have hmem : type ∈ strToElementTypeMap.map Prod.snd :=
    List.mem_map.mpr ⟨(word, type), by simp [hmap], rfl⟩
  rintro rfl
  exact absurd hmem (by decide)

theorem lookup_of_parseVariableElement (h : parseVariableElement wrap = .ok (element, wrap')) :
    ∃ word type, strToElementTypeMap.lookup word = some type ∧ element = ⟨type, []⟩ := by
  unfold parseVariableElement at h
  by_cases hlt : wrap.ch = 60
  · by_cases hempty : (wrap.getNext.span isAlnum).1 = []
    · simp [hlt, hempty] at h
    · cases hl : strToElementTypeMap.lookup (wrap.getNext.span isAlnum).1 with
      | none => simp [hlt, hempty, hl] at h
      | some type =>
        by_cases hgt : (wrap.getNext.span isAlnum).2.ch = 62
        · simp only [hlt, ne_eq, not_true_eq_false, if_false, hempty, hl, hgt, Exec.pure_eq_ok,
            Except.ok.injEq, Prod.mk.injEq] at h
          obtain ⟨rfl, -⟩ := h
          exact ⟨_, type, hl, rfl⟩
        · simp [hlt, hempty, hl, hgt] at h
  · simp [hlt] at h

theorem type_of_parsePatternElement (h : parsePatternElement wrap = .ok (element, wrap')) :
    element.type ≠ .none := by
  unfold parsePatternElement at h
  split_ifs at h
  · obtain ⟨rfl, -⟩ := Prod.mk.inj (Except.ok.inj h)
    exact CommandElementType.noConfusion
  · obtain ⟨word, type, hl, rfl⟩ := lookup_of_parseVariableElement h
    exact type_of_lookup hl
  · exact absurd h Exec.throwRuntimeError_ne_ok

theorem forall_of_parsePattern {P : CommandElement → Prop}
    (hread : ∀ wrap element wrap', parsePatternElement wrap = .ok (element, wrap') → P element)
    (h : parsePattern pattern = .ok elements) : ∀ element ∈ elements, P element := by
  unfold parsePattern at h
  obtain ⟨⟨result, wrap⟩, hloop, h⟩ := Exec.bind_eq_ok.mp h
  have hresult : ∀ element ∈ result, P element := by
    refine loop_invariant
      (I := fun s : List CommandElement × WrapperForParsing => ∀ element ∈ s.1, P element)
      (Q := fun r : List CommandElement × WrapperForParsing => ∀ element ∈ r.1, P element)
      ?_ ?_ (by simp) hloop
    · rintro ⟨elements, wrap⟩ s hI hpass
      cases hend : wrap.isEnd with
      | true => simp [patternPass, hend] at hpass
      | false =>
        simp only [patternPass, hend, Bool.false_eq_true, if_false, Exec.pure_eq_ok] at hpass
        obtain ⟨⟨element, wrap'⟩, helement, hs⟩ := Exec.bind_eq_ok.mp hpass
        obtain rfl := Sum.inl.inj (Except.ok.inj hs)
        intro e he
        rcases List.mem_append.mp he with he | he
        · exact hI e he
        · obtain rfl := List.mem_singleton.mp he
          exact hread _ _ _ helement
    · rintro ⟨elements, wrap⟩ r hI hpass
      cases hend : wrap.isEnd with
      | true =>
        obtain rfl : (elements, wrap) = r := by simpa [patternPass, hend] using hpass
        exact hI
      | false => simp [patternPass, hend] at hpass
  cases hend : wrap.isEnd with
  | true =>
    obtain rfl : result = elements := by simpa [hend] using h
    exact hresult
  | false => simp [hend] at h

theorem typed_of_parsePattern (h : parsePattern pattern = .ok elements) :
    ∀ element ∈ elements, element.type ≠ .none :=
  forall_of_parsePattern (fun _ _ _ => type_of_parsePatternElement) h

end Pattern

variable {H : Type}

/-- A handler is known by a value, or is null. -/
structure Command (H : Type) where
  elements : List CommandElement
  handler : Option H
  typed : ∀ element ∈ elements, element.type ≠ .none

/-- The constructor from a pattern. -/
def Command.new (pattern : List UInt8) (handler : Option H) : Exec (Command H) :=
  match h : parsePattern pattern with
  | .error e => .error e
  | .ok elements => .ok ⟨elements, handler, typed_of_parsePattern h⟩

/-- The key of a node is its element, its value the handler. -/
abbrev CommandTree (H : Type) := Trie CommandElement H

/-- The handler goes into a node of its own, whose element is the default one. -/
def addCommandToTree (treeRoot : CommandTree H) (command : Command H) : CommandTree H :=
  .node treeRoot.key treeRoot.value
    (Trie.insert {} command.handler command.elements treeRoot.childs)

def createCommandTree (allCommands : List (Command H)) : CommandTree H :=
  allCommands.foldl addCommandToTree (.node {} none [])

/-- `boost::algorithm::split` at blanks with `token_compress_on`: adjacent blanks count as one, and
blanks at an end leave an empty part there. The flag tells that the last character was a blank. -/
def splitFrom : Bool → List UInt8 → List (List UInt8)
  | _, [] => [[]]
  | merging, c :: cs =>
    if c = 32 then
      if merging then splitFrom true cs else [] :: splitFrom true cs
    else (splitFrom false cs).modifyHead (c :: ·)

def split (command : List UInt8) : List (List UInt8) := splitFrom false command

/-- The loop over the parts; the top of the stack is the head of the list. -/
def analyzeParts : List (List UInt8) → CommandTree H → List CommandElementRealValue →
    Exec (CommandTree H × List CommandElementRealValue)
  | [], current, stack => return (current, stack)
  | part :: parts, current, stack => do
    match ← Trie.first (checkCommandElement part) current.childs with
    | some child =>
      let value ← realValue part child.key.type
      analyzeParts parts child (value :: stack)
    | none => analyzeParts parts current stack

def analyzeCommand (command : List UInt8) (root : CommandTree H) :
    Exec (CommandTree H × List CommandElementRealValue) :=
  analyzeParts (split command) root []

/-- The handler that ENTER calls, if any, with its argument. -/
def pressEnter (root : CommandTree H) (input : List UInt8) :
    Exec (Option (H × List CommandElementRealValue)) := do
  let (current, stack) ← analyzeCommand input root
  return (Trie.only current.childs).map fun handler => (handler, stack)

end Klevret.Cli
