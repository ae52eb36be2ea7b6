import Klevret.Cli.Command
import Klevret.Foundation.TrieNodes

/-! # The argument stack

Each step of the walk pushes one value, made from the part that was taken there.
So the stack holds one value for each element on the path to the node that was
reached, the last one on top.
-/

namespace Klevret.Cli

open Foundation

/-- The value is of the alternative for an element type. -/
def CommandElementRealValue.BelongsTo (type : CommandElementType) :
    CommandElementRealValue → Prop
  | .ipV4Address _ => type = .ipV4Address
  | .ipV6Address _ => type = .ipV6Address
  | .ipV4SubnetMask _ => type = .ipV4SubnetMask
  | .ipV6SubnetMask _ => type = .ipV6SubnetMask
  | .string _ => type ∉ [.ipV4Address, .ipV6Address, .ipV4SubnetMask, .ipV6SubnetMask]

/-- One entry for each element of a path, made from the token that the element took. -/
inductive Mirrors :
    List (List UInt8) → List CommandElement → List CommandElementRealValue → Prop
  | nil : Mirrors [] [] []
  | cons {token : List UInt8} {element : CommandElement} {value : CommandElementRealValue}
      {tokens : List (List UInt8)} {path : List CommandElement}
      {entries : List CommandElementRealValue} :
      realValue token element.type = .ok value → value.BelongsTo element.type →
      Mirrors tokens path entries → Mirrors (token :: tokens) (element :: path) (value :: entries)

variable {H : Type} {line part : List UInt8} {parts : List (List UInt8)}
  {root node node' : CommandTree H} {stack stack' : List CommandElementRealValue}
  {element : CommandElement} {value : CommandElementRealValue}

theorem belongsTo_of_realValue {type : CommandElementType} (h : realValue part type = .ok value) :
    value.BelongsTo type := by
  cases type with
  | ipV4Address =>
    obtain ⟨ip, -, h⟩ := Exec.bind_eq_ok.mp h
    obtain rfl := Except.ok.inj h
    rfl
  | ipV6Address | ipV4SubnetMask | ipV6SubnetMask =>
    obtain rfl := Except.ok.inj h
    rfl
  | _ =>
    obtain rfl := Except.ok.inj h
    rw [CommandElementRealValue.BelongsTo]
    decide

theorem ne_default_of_accepted (h : checkCommandElement part element = .ok true) :
    element ≠ {} := by
  rintro rfl
  cases h

theorem exists_mirrors (h : analyzeParts parts node stack = .ok (node', stack')) :
    ∃ taken path entries, Trie.Reaches {} node path node' ∧ taken.Sublist parts ∧
      Mirrors taken path entries ∧ stack' = entries.reverse ++ stack := by
  induction parts generalizing node stack with
  | nil =>
    obtain ⟨rfl, rfl⟩ := Prod.mk.inj (Except.ok.inj h)
    exact ⟨[], [], [], .nil node, .slnil, .nil, rfl⟩
  | cons part parts ih =>
    rw [analyzeParts] at h
    obtain ⟨found, hfirst, h⟩ := Exec.bind_eq_ok.mp h
    cases found with
    | none =>
      obtain ⟨taken, path, entries, hpath, htaken, hmirrors, hstack⟩ := ih h
      exact ⟨taken, path, entries, hpath, htaken.cons _, hmirrors, hstack⟩
    | some child =>
      obtain ⟨hchild, haccepts⟩ := Trie.mem_of_first hfirst
      obtain ⟨value, hvalue, h⟩ := Exec.bind_eq_ok.mp h
      obtain ⟨taken, path, entries, hpath, htaken, hmirrors, rfl⟩ := ih h
      refine ⟨part :: taken, child.key :: path, value :: entries, ?_, htaken.cons_cons _, ?_, ?_⟩
      · exact .cons hchild (ne_default_of_accepted haccepts) hpath
      · exact .cons hvalue (belongsTo_of_realValue hvalue) hmirrors
      · rw [List.reverse_cons, List.append_assoc, List.singleton_append]

theorem mirrors_of_analyzeCommand (h : analyzeCommand line root = .ok (node, stack)) :
    ∃ taken path, Trie.Reaches {} root path node ∧ taken.Sublist (split line) ∧
      Mirrors taken path stack.reverse := by
  obtain ⟨taken, path, entries, hpath, htaken, hmirrors, rfl⟩ := exists_mirrors h
  refine ⟨taken, path, hpath, htaken, ?_⟩
  rwa [List.append_nil, List.reverse_reverse]

end Klevret.Cli
