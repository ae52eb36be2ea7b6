import Klevret.Cli.LineEditor
import Klevret.Cli.Patterns
import Klevret.Cli.TreeNodes

/-! # What TAB shows

Below the line TAB shows how the commands go on from the node that the line
leads to. The end of a command has no text of its own, and it is all that is
shown exactly where ENTER calls a handler.
-/

namespace Klevret.Cli

open Foundation

/-- `to_string(const CommandElement&)` -/
def CommandElement.toString (commandElement : CommandElement) : List UInt8 :=
  match commandElement.type with
  | .fixedWord => commandElement.fixedValue
  | .ipV4Address => literal "<IPv4 address>"
  | .ipV4SubnetMask => literal "<subnet mask (IPv4)>"
  | .ipV6Address => literal "<IPv6 address>"
  | .ipV6SubnetMask => literal "<subnet mask (IPv6)>"
  | .name => literal "<name>"
  | .string => literal "<string>"
  | .none => literal "<UNKNOWN>"

variable {H : Type}

/-- The lines that TAB writes between the line and the new prompt. -/
def pressTab (root : CommandTree H) (input : List UInt8) : Exec (List (List UInt8)) := do
  let (current, _) ← analyzeCommand input root
  return current.childs.map fun node => node.key.toString

variable {commands : List (Command H)} {line : List UInt8}

/-- The main loop goes on after TAB as it was, unless the hints throw. -/
theorem mainPass_TAB (root : CommandTree H) (call : H → List CommandElementRealValue → Exec Unit)
    (console : Console) (input : List UInt8) :
    mainPass root call console (Console.TAB :: input) =
      (fun _ => (console, input)) <$> pressTab root console.currentCommandInput := by
  have hne : Console.TAB ≠ 255 := by decide
  unfold mainPass pressTab
  simp only [Console.getkey, hne, if_false, if_true]
  cases analyzeCommand console.currentCommandInput root <;> rfl

theorem pressTab_iff {P : List (List UInt8) → Prop} :
    (∃ hints, pressTab (createCommandTree commands) line = .ok hints ∧ P hints) ↔
      ∃ taken path, LeadsTo (commands.map Command.elements) line taken path ∧
        P ((Trie.insertAll {}
          (Trie.after path (commands.map fun c => (c.elements, c.handler))) []).map
            fun node => node.key.toString) := by
  rw [← analyzeCommand_iff (P := fun childs => P (childs.map fun node => node.key.toString))]
  constructor
  · rintro ⟨hints, h, hP⟩
    obtain ⟨⟨node, stack⟩, hok, h⟩ := Exec.bind_eq_ok.mp h
    obtain rfl := Except.ok.inj h
    exact ⟨node, stack, hok, hP⟩
  · rintro ⟨node, stack, hok, hP⟩
    exact ⟨_, by simp [pressTab, hok], hP⟩

/-- TAB shows the elements that follow the line in the commands, each once and in the order of the
commands, and in its place among them a line for each command that ends. -/
theorem pressTab_shows_ways (commands : List (Command H)) (line : List UInt8)
    (hints : List (List UInt8)) :
    pressTab (createCommandTree commands) line = .ok hints ↔
      ∃ taken path, LeadsTo (commands.map Command.elements) line taken path ∧
        hints = (Trie.ways path (commands.map Command.elements)).map
          fun way => (way.getD {}).toString := by
  have hshown : ∀ path,
      (Trie.insertAll {} (Trie.after path (commands.map fun c => (c.elements, c.handler))) []).map
          (fun node => node.key.toString) =
        (Trie.ways path (commands.map Command.elements)).map fun way => (way.getD {}).toString := by
    intro path
    have hkeys := (Trie.layers_insertAll
      (Trie.not_mem_after (not_mem_entries commands) path)).keys_eq
    rw [Trie.ways_after, List.map_map] at hkeys
    have htexts := congrArg (List.map CommandElement.toString) hkeys
    simpa only [List.map_map, Function.comp_def] using htexts
  have hiff := @pressTab_iff _ commands line fun shown => hints = shown
  simpa only [hshown, exists_eq_right'] using hiff

example : pressTab (createCommandTree ipCommands) (literal "ip") =
    .ok [literal "<UNKNOWN>", literal "show"] := by decide +kernel

section Ends

variable {wrap wrap' : WrapperForParsing} {element : CommandElement} {pattern : List UInt8}

theorem forall_mem_span (p : UInt8 → Bool) (wrap : WrapperForParsing) :
    ∀ ch ∈ (wrap.span p).1, p ch = true := by
  obtain ⟨ch, rest⟩ := wrap
  unfold WrapperForParsing.span
  induction rest generalizing ch with
  | nil =>
    unfold WrapperForParsing.spanFrom
    split_ifs with hp
    · simpa using hp
    · exact List.forall_mem_nil _
  | cons c rest ih =>
    unfold WrapperForParsing.spanFrom
    split_ifs with hp
    · exact List.forall_mem_cons.mpr ⟨hp, ih c⟩
    · exact List.forall_mem_nil _

theorem letters_of_parsePatternElement (h : parsePatternElement wrap = .ok (element, wrap')) :
    ∀ ch ∈ element.fixedValue, isAlpha ch = true := by
  unfold parsePatternElement at h
  split_ifs at h
  · obtain ⟨rfl, -⟩ := Prod.mk.inj (Except.ok.inj h)
    exact forall_mem_span isAlpha wrap
  · obtain ⟨word, type, -, rfl⟩ := lookup_of_parseVariableElement h
    exact List.forall_mem_nil _
  · exact absurd h Exec.throwRuntimeError_ne_ok

theorem toString_ne_of_parsePatternElement
    (h : parsePatternElement wrap = .ok (element, wrap')) :
    element.toString ≠ CommandElement.toString {} := by
  have htype := type_of_parsePatternElement h
  have hletters := letters_of_parsePatternElement h
  obtain ⟨type, fixedValue⟩ := element
  intro heq
  cases type with
  | none => exact htype rfl
  | fixedWord =>
    obtain rfl : fixedValue = literal "<UNKNOWN>" := heq
    exact absurd (hletters 60 (by decide)) (by decide)
  | string | name | ipV4Address | ipV4SubnetMask | ipV6Address | ipV6SubnetMask =>
    exact absurd (show literal _ = literal _ from heq) (by decide)

theorem only_iff_shown {entries : List (Entry CommandElement H)}
    (h : ∀ e ∈ entries, ({} : CommandElement) ∉ e.1) (hvalues : ∀ e ∈ entries, e.2 ≠ none)
    (htexts : ∀ e ∈ entries, ∀ element ∈ e.1,
      element.toString ≠ CommandElement.toString {}) :
    (∃ v, Trie.only (Trie.insertAll {} entries []) = some v) ↔
      (Trie.insertAll {} entries []).map (fun node => node.key.toString) =
        [CommandElement.toString {}] := by
  constructor
  · rintro ⟨v, hv⟩
    rw [Trie.only_insertAll h] at hv
    rw [hv]
    rfl
  · intro hshown
    cases entries with
    | nil => cases hshown
    | cons e entries =>
      rw [List.forall_mem_cons] at h hvalues htexts
      obtain ⟨_ | ⟨k, ks⟩, v⟩ := e
      · rw [Trie.insertAll_leaf h.2, List.map_cons, List.cons.injEq, List.map_eq_nil_iff,
          Trie.insertAll_eq_nil] at hshown
        obtain ⟨-, rfl⟩ := hshown
        obtain ⟨w, rfl⟩ := Option.ne_none_iff_exists'.mp hvalues.1
        exact ⟨w, rfl⟩
      · rw [Trie.insertAll_path, List.map_cons, List.cons.injEq] at hshown
        exact absurd hshown.1 (htexts.1 k List.mem_cons_self)

theorem Command.new_eq_ok {handler : Option H} {command : Command H}
    (h : Command.new pattern handler = .ok command) :
    parsePattern pattern = .ok command.elements ∧ command.handler = handler := by
  unfold Command.new at h
  split at h
  · cases h
  · obtain rfl := Except.ok.inj h
    exact ⟨‹_›, rfl⟩

end Ends

/-- ENTER calls a handler exactly where TAB shows that the only way on is the end of a command. -/
theorem enter_iff_tab (h : ∀ command ∈ commands, ∃ pattern handler,
    Command.new pattern (some handler) = .ok command) :
    (∃ handler stack,
        pressEnter (createCommandTree commands) line = .ok (some (handler, stack))) ↔
      pressTab (createCommandTree commands) line = .ok [literal "<UNKNOWN>"] := by
  have hread : ∀ command ∈ commands, command.handler ≠ none ∧
      ∀ element ∈ command.elements, element.toString ≠ CommandElement.toString {} := by
    intro command hmem
    obtain ⟨pattern, handler, hnew⟩ := h command hmem
    obtain ⟨hparse, hhandler⟩ := Command.new_eq_ok hnew
    rw [hhandler]
    exact ⟨Option.some_ne_none handler,
      forall_of_parsePattern (fun _ _ _ => toString_ne_of_parsePatternElement) hparse⟩
  have hagree : ∀ path,
      (∃ v, Trie.only (Trie.insertAll {}
        (Trie.after path (commands.map fun c => (c.elements, c.handler))) []) = some v) ↔
      (Trie.insertAll {} (Trie.after path
        (commands.map fun c => (c.elements, c.handler))) []).map (fun node => node.key.toString) =
        [CommandElement.toString {}] := by
    intro path
    have hentry : ∀ e ∈ Trie.after path (commands.map fun c => (c.elements, c.handler)),
        ∃ command ∈ commands, path ++ e.1 = command.elements ∧ e.2 = command.handler := by
      rintro ⟨rest, handler⟩ he
      obtain ⟨command, hmem, heq⟩ := List.mem_map.mp (Trie.mem_after.mp he)
      obtain ⟨helements, hhandler⟩ := Prod.mk.inj heq
      exact ⟨command, hmem, helements.symm, hhandler.symm⟩
    refine only_iff_shown (Trie.not_mem_after (not_mem_entries commands) path) ?_ ?_
    · intro e he
      obtain ⟨command, hmem, -, hhandler⟩ := hentry e he
      rw [hhandler]
      exact (hread command hmem).1
    · intro e he element helement
      obtain ⟨command, hmem, helements, -⟩ := hentry e he
      apply (hread command hmem).2
      rw [← helements]
      exact List.mem_append_right _ helement
  -- both keys look up the same node, so only its children count
  have htab := @pressTab_iff _ commands line fun shown => shown = [CommandElement.toString {}]
  have henter := @analyzeCommand_iff _ commands line fun childs => ∃ v, Trie.only childs = some v
  simp only [hagree] at henter
  rw [exists_eq_right, ← henter] at htab
  rw [show literal "<UNKNOWN>" = CommandElement.toString {} from rfl, htab]
  constructor
  · rintro ⟨handler, stack, hok⟩
    obtain ⟨⟨node, stack'⟩, hanalyze, hmap⟩ := Exec.bind_eq_ok.mp hok
    obtain ⟨v, hv, -⟩ := Option.map_eq_some_iff.mp (Except.ok.inj hmap)
    exact ⟨node, stack', hanalyze, v, hv⟩
  · rintro ⟨node, stack, hanalyze, v, hv⟩
    exact ⟨v, stack, by simp [pressEnter, hanalyze, hv]⟩

/-- The typed word leads to the second of two commands that begin alike, and ends it. -/
theorem enter_iff_tab_sample :
    (∀ command ∈ ipCommands, ∃ pattern handler,
      Command.new pattern (some handler) = .ok command) ∧
    ((∃ handler stack, pressEnter (createCommandTree ipCommands) (literal "ip show") =
        .ok (some (handler, stack))) ↔
      pressTab (createCommandTree ipCommands) (literal "ip show") =
        .ok [literal "<UNKNOWN>"]) := by
  have hnew : ∀ command ∈ ipCommands, ∃ pattern handler,
      Command.new pattern (some handler) = .ok command := by
    intro command hmem
    rcases List.mem_pair.mp hmem with rfl | rfl
    · exact ⟨literal "ip", "ip", rfl⟩
    · exact ⟨literal "ip show", "ip show", rfl⟩
  exact ⟨hnew, enter_iff_tab hnew⟩

end Klevret.Cli
