import Klevret.Cli.Command
import Klevret.Foundation.Spelling

/-! # What ENTER calls

The tree of a list of commands is walked like the list itself: a part takes the
first element that accepts it, and is skipped where there is none. A handler is
called where a single command ends and no other goes on. So a line with a token
too many is obeyed, and a command that is the beginning of another one is not.
-/

namespace Klevret.Cli

open Foundation

def tokens (line : List UInt8) : List (List UInt8) := (line.splitOn 32).filter (· ≠ [])

/-- As many tokens as elements, each accepted by its element. -/
def Fits (tokens : List (List UInt8)) (elements : List CommandElement) : Prop :=
  List.Forall₂ (fun token element => checkCommandElement token element = .ok true) tokens elements

instance (tokens : List (List UInt8)) (elements : List CommandElement) :
    Decidable (Fits tokens elements) := inferInstanceAs (Decidable (List.Forall₂ _ _ _))

/-- A single command has this path, and no other goes on from it. -/
def Alone (patterns : List (List CommandElement)) (path : List CommandElement) : Prop :=
  patterns.filter (path <+: ·) = [path]

/-- The elements that follow a path in the patterns all refuse a part, and none of them throws. -/
abbrev Refused (patterns : List (List CommandElement)) (path : List CommandElement)
    (part : List UInt8) : Prop :=
  Trie.Refused checkCommandElement patterns path part

/-- Among the elements that follow the beginning of a path in the patterns, those that are listed
before its next one refuse the part of this one. -/
abbrev Foremost (patterns : List (List CommandElement)) (path : List CommandElement)
    (parts : List (List UInt8)) : Prop :=
  Trie.Foremost checkCommandElement patterns [] path parts

/-- Each token is foremost in its place, and the empty part before a blank at the beginning of the
line is refused. -/
def InPlace (patterns : List (List CommandElement)) (line : List UInt8)
    (path : List CommandElement) : Prop :=
  (line.head? = some 32 → Refused patterns [] []) ∧ Foremost patterns path (tokens line)

/-- The empty part before a blank at the beginning of the line takes the first place, the tokens
before the one at `j` move on by one place, and this one is refused. -/
def Displaced (patterns : List (List CommandElement)) (line : List UInt8)
    (path : List CommandElement) (j : ℕ) : Prop :=
  line.head? = some 32 ∧
    (∃ token, (tokens line)[j]? = some token ∧ Refused patterns (path.take (j + 1)) token) ∧
    Fits ([] :: (tokens line).eraseIdx j) path ∧
    Foremost patterns path ([] :: (tokens line).eraseIdx j)

/-- Each part of the line in turn takes the first element that accepts it, in the order of the
patterns that begin with the path so far; a part that none of them accepts is not taken. -/
abbrev LeadsTo (patterns : List (List CommandElement)) (line : List UInt8)
    (taken : List (List UInt8)) (path : List CommandElement) : Prop :=
  Trie.Leads checkCommandElement patterns [] (split line) taken path

/-- Whatever the handlers of commands with these patterns are, ENTER calls the handler of the only
command that the tokens of the line fit. -/
def DispatchComplete (patterns : List (List CommandElement)) (line : List UInt8) : Prop :=
  ∀ (H : Type) (commands : List (Command H)), commands.map Command.elements = patterns →
    ∀ command ∈ commands,
      (∀ other ∈ commands, Fits (tokens line) other.elements ↔
        other.elements = command.elements) →
      ∀ handler, command.handler = some handler →
        ∃ stack, pressEnter (createCommandTree commands) line = .ok (some (handler, stack))

variable {H : Type} {commands : List (Command H)} {line : List UInt8}

section Split

/-- The parts that are not empty are the words; an empty one may stand at the end, and without the
flag the first word stands at the beginning as it is. -/
theorem splitFrom_splitOn (l : List UInt8) :
    (∃ word words trail, (trail = [] ∨ trail = [[]]) ∧ l.splitOn 32 = word :: words ∧
      splitFrom false l = word :: (words.filter (· ≠ []) ++ trail)) ∧
    ∃ trail, (trail = [] ∨ trail = [[]]) ∧
      splitFrom true l = (l.splitOn 32).filter (· ≠ []) ++ trail := by
  induction l with
  | nil => exact ⟨⟨[], [], [], Or.inl rfl, rfl, rfl⟩, [[]], Or.inr rfl, rfl⟩
  | cons c cs ih =>
    obtain ⟨⟨word, words, trail, htrail, hwords, hparts⟩, trail', htrail', htrue⟩ := ih
    by_cases hc : c = 32
    · subst hc
      have hsplit : (32 :: cs).splitOn (32 : UInt8) = [] :: cs.splitOn 32 := by
        simp [List.splitOn_cons_eq_if_modifyHead]
      refine ⟨⟨[], cs.splitOn 32, trail', htrail', hsplit, ?_⟩, trail', htrail', ?_⟩
      · simp [splitFrom, htrue]
      · simp [splitFrom, htrue, hsplit]
    · have hsplit : (c :: cs).splitOn 32 = (c :: word) :: words := by
        simp [List.splitOn_cons_eq_if_modifyHead, hc, hwords]
      refine ⟨⟨c :: word, words, trail, htrail, hsplit, ?_⟩, trail, htrail, ?_⟩
      · simp [splitFrom, hc, hparts]
      · simp [splitFrom, hc, hparts, hsplit]

theorem split_eq (line : List UInt8) : ∃ trail, (trail = [] ∨ trail = [[]]) ∧
    split line = (if line.head? = some 32 then [[]] else []) ++ (tokens line ++ trail) := by
  obtain ⟨⟨word, words, trail, htrail, hwords, hparts⟩, -⟩ := splitFrom_splitOn line
  cases line with
  | nil => exact ⟨[[]], Or.inr rfl, rfl⟩
  | cons c cs =>
    refine ⟨trail, htrail, ?_⟩
    rw [split, tokens, hparts, hwords]
    by_cases hc : c = 32
    · subst hc
      obtain ⟨rfl, -⟩ : [] = word ∧ _ := by
        simpa [List.splitOn_cons_eq_if_modifyHead] using hwords
      simp
    · have hne : word ≠ [] := by
        rintro rfl
        rw [List.splitOn_cons_eq_if_modifyHead, if_neg (by simpa using hc)] at hwords
        cases hcs : cs.splitOn 32 <;> simp [hcs] at hwords
      simp [hc, hne]

end Split

section Walk

theorem childs_createCommandTree (commands : List (Command H)) :
    (createCommandTree commands).childs =
      Trie.insertAll {} (commands.map fun c => (c.elements, c.handler)) [] := by
  have hfold : ∀ (cs : List (Command H)) (t : CommandTree H),
      (cs.foldl addCommandToTree t).childs =
        Trie.insertAll {} (cs.map fun c => (c.elements, c.handler)) t.childs := by
    intro cs
    induction cs with
    | nil => exact fun t => rfl
    | cons c cs ih => exact fun t => ih _
  exact hfold commands _

theorem not_mem_entries (commands : List (Command H)) :
    ∀ e ∈ commands.map fun c => (c.elements, c.handler), ({} : CommandElement) ∉ e.1 := by
  rintro e he hmem
  obtain ⟨c, -, rfl⟩ := List.mem_map.mp he
  exact c.typed _ hmem rfl

variable {entries : List (Entry CommandElement H)} {path : List CommandElement}
  {element : CommandElement} {node : CommandTree H} {part : List UInt8}
  {parts : List (List UInt8)} {stack : List CommandElementRealValue}

theorem first_childs (h : ∀ e ∈ entries, ({} : CommandElement) ∉ e.1)
    (hnode : node.childs = Trie.insertAll {} (Trie.after path entries) []) (part : List UInt8) :
    Trie.first (checkCommandElement part) node.childs =
      Option.map (fun element =>
          .node element none (Trie.insertAll {} (Trie.after (path ++ [element]) entries) [])) <$>
        Trie.next (checkCommandElement part) path (entries.map Prod.fst) := by
  have hnone : checkCommandElement part {} = .ok false := rfl
  rw [hnode]
  exact Trie.first_after hnone h path

theorem analyzeParts_error (h : ∀ e ∈ entries, ({} : CommandElement) ∉ e.1)
    (hnode : node.childs = Trie.insertAll {} (Trie.after path entries) []) {e : Stop}
    (hnext : Trie.next (checkCommandElement part) path (entries.map Prod.fst) = .error e) :
    analyzeParts (part :: parts) node stack = .error e := by
  rw [analyzeParts, first_childs h hnode, hnext]
  rfl

theorem analyzeParts_skip (h : ∀ e ∈ entries, ({} : CommandElement) ∉ e.1)
    (hnode : node.childs = Trie.insertAll {} (Trie.after path entries) [])
    (hnext : Trie.next (checkCommandElement part) path (entries.map Prod.fst) = .ok none) :
    analyzeParts (part :: parts) node stack = analyzeParts parts node stack := by
  rw [analyzeParts, first_childs h hnode, hnext]
  rfl

theorem analyzeParts_take (h : ∀ e ∈ entries, ({} : CommandElement) ∉ e.1)
    (hnode : node.childs = Trie.insertAll {} (Trie.after path entries) [])
    (hnext : Trie.next (checkCommandElement part) path (entries.map Prod.fst) =
      .ok (some element)) :
    ∃ (child : CommandTree H) (value : CommandElementRealValue),
      child.childs = Trie.insertAll {} (Trie.after (path ++ [element]) entries) [] ∧
      analyzeParts (part :: parts) node stack = analyzeParts parts child (value :: stack) := by
  obtain ⟨value, hvalue⟩ := exists_realValue (Trie.accepts_of_next hnext)
  refine ⟨.node element none (Trie.insertAll {} (Trie.after (path ++ [element]) entries) []),
    value, rfl, ?_⟩
  rw [analyzeParts, first_childs h hnode, hnext]
  simp only [Exec.map_ok, Option.map_some, Exec.ok_bind, Trie.key, hvalue]

/-- The walk in the tree follows the patterns. -/
theorem analyzeParts_iff (h : ∀ e ∈ entries, ({} : CommandElement) ∉ e.1)
    (hnode : node.childs = Trie.insertAll {} (Trie.after path entries) [])
    {P : List (CommandTree H) → Prop} :
    (∃ node' stack', analyzeParts parts node stack = .ok (node', stack') ∧ P node'.childs) ↔
    ∃ taken q, Trie.Leads checkCommandElement (entries.map Prod.fst) path parts taken q ∧
      P (Trie.insertAll {} (Trie.after q entries) []) := by
  induction parts generalizing node path stack with
  | nil =>
    constructor
    · rintro ⟨node', stack', hok, hP⟩
      obtain ⟨rfl, rfl⟩ := Prod.mk.inj (Except.ok.inj hok)
      rw [hnode] at hP
      exact ⟨[], path, .done path, hP⟩
    · rintro ⟨taken, q, hleads, hP⟩
      obtain ⟨rfl, rfl⟩ := Trie.leads_nil.mp hleads
      rw [← hnode] at hP
      exact ⟨node, stack, rfl, hP⟩
  | cons part parts ih =>
    simp only [Trie.leads_cons]
    cases hnext : Trie.next (checkCommandElement part) path (entries.map Prod.fst) with
    | error e => simp [analyzeParts_error h hnode hnext]
    | ok found =>
      cases found with
      | none => simpa [analyzeParts_skip h hnode hnext] using ih hnode
      | some k =>
        obtain ⟨child, value, hchilds, hanalyze⟩ :=
          @analyzeParts_take _ _ _ _ _ _ parts stack h hnode hnext
        simp only [hanalyze, ih hchilds, Except.ok.injEq, Option.some.injEq, reduceCtorEq,
          false_and, or_false]
        constructor
        · rintro ⟨taken, q, hleads, hq⟩
          exact ⟨part :: taken, q, ⟨k, taken, rfl, rfl, hleads⟩, hq⟩
        · rintro ⟨_, q, ⟨_, taken, rfl, rfl, hleads⟩, hq⟩
          exact ⟨taken, q, hleads, hq⟩

theorem analyzeCommand_iff {P : List (CommandTree H) → Prop} :
    (∃ node stack, analyzeCommand line (createCommandTree commands) = .ok (node, stack) ∧
      P node.childs) ↔
    ∃ taken path, LeadsTo (commands.map Command.elements) line taken path ∧
      P (Trie.insertAll {}
        (Trie.after path (commands.map fun c => (c.elements, c.handler))) []) := by
  have hkeys : (commands.map fun c => (c.elements, c.handler)).map Prod.fst =
      commands.map Command.elements := by simp
  have hroot : (createCommandTree commands).childs =
      Trie.insertAll {} (Trie.after [] (commands.map fun c => (c.elements, c.handler))) [] := by
    rw [Trie.after_nil, childs_createCommandTree]
  rw [← hkeys]
  exact analyzeParts_iff (not_mem_entries commands) hroot

theorem pressEnter_iff {handler : H} :
    (∃ stack, pressEnter (createCommandTree commands) line = .ok (some (handler, stack))) ↔
      ∃ taken path, LeadsTo (commands.map Command.elements) line taken path ∧
        Alone (commands.map Command.elements) path ∧
        ∃ command ∈ commands, command.elements = path ∧ command.handler = some handler := by
  have hkeys : (commands.map fun c => (c.elements, c.handler)).map Prod.fst =
      commands.map Command.elements := by simp
  have honly := fun path => Trie.only_insertAll (w := handler)
    (Trie.not_mem_after (not_mem_entries commands) path)
  have hwalk := @analyzeCommand_iff _ commands line fun childs => Trie.only childs = some handler
  simp only [honly, Trie.after_eq_singleton, hkeys, List.mem_map, Prod.mk.injEq] at hwalk
  refine Iff.trans ?_ hwalk
  constructor
  · rintro ⟨stack, h⟩
    obtain ⟨⟨node, stack'⟩, hok, hmap⟩ := Exec.bind_eq_ok.mp h
    obtain ⟨v, hv, he⟩ := Option.map_eq_some_iff.mp (Except.ok.inj hmap)
    obtain ⟨rfl, -⟩ := Prod.mk.inj he
    exact ⟨node, stack', hok, hv⟩
  · rintro ⟨node, stack, hok, hv⟩
    exact ⟨stack, by simp [pressEnter, hok, hv]⟩

end Walk

/-- The same commands, each with its pattern in place of its handler. -/
def Command.withPattern (command : Command H) : Command (List CommandElement) :=
  ⟨command.elements, some command.elements, command.typed⟩

theorem map_withPattern (commands : List (Command H)) :
    (commands.map Command.withPattern).map Command.elements =
      commands.map Command.elements := by
  simp [Command.withPattern]

section Places

variable {patterns : List (List CommandElement)} {path : List CommandElement}
  {taken parts : List (List UInt8)} {j : ℕ}

theorem Alone.mem (h : Alone patterns path) : path ∈ patterns := by
  have hself : path ∈ [path] := List.mem_singleton_self path
  rw [← h] at hself
  exact List.mem_of_mem_filter hself

theorem choices_eq_nil (h : ∀ other ∈ patterns, path <+: other → other = path) :
    Trie.choices path patterns = [] := by
  refine List.filterMap_eq_nil_iff.mpr fun other ho => ?_
  cases hdrop : other.dropPrefix? path with
  | none => rfl
  | some rest =>
    have heq := Trie.dropPrefix?_eq_some.mp hdrop
    have hself := h other ho ⟨rest, heq.symm⟩
    obtain rfl : rest = [] := by simpa [heq] using hself
    rfl

theorem Alone.extends_nothing (h : Alone patterns path) :
    ∀ other ∈ patterns, path <+: other → other = path := by
  intro other ho hp
  have hmem : other ∈ patterns.filter (path <+: ·) :=
    List.mem_filter.mpr ⟨ho, decide_eq_true hp⟩
  rw [h] at hmem
  exact List.mem_singleton.mp hmem

theorem alone_of_nodup (hd : patterns.Nodup) (hmem : path ∈ patterns)
    (hlast : ∀ other ∈ patterns, path <+: other → other = path) : Alone patterns path := by
  have hperm : (patterns.filter (path <+: ·)).Perm [path] := by
    apply (List.perm_ext_iff_of_nodup (hd.filter _) (List.nodup_singleton path)).mpr
    intro other
    rw [List.mem_filter, decide_eq_true_eq, List.mem_singleton]
    constructor
    · rintro ⟨ho, hp⟩
      exact hlast other ho hp
    · rintro rfl
      exact ⟨hmem, List.prefix_rfl⟩
  exact List.perm_singleton.mp hperm

/-- Where the tokens fit a pattern, the line leads to it in two cases: each token stands in its own
place, or the empty part at the beginning displaces some of them. -/
theorem leadsTo_iff_of_fits (hmem : path ∈ patterns)
    (hlast : ∀ other ∈ patterns, path <+: other → other = path)
    (hfits : Fits (tokens line) path) :
    LeadsTo patterns line taken path ↔
      taken = tokens line ∧ InPlace patterns line path ∨
        ∃ j, taken = [] :: (tokens line).eraseIdx j ∧ Displaced patterns line path j := by
  obtain ⟨trail, -, hsplit⟩ := split_eq line
  have htrail : ∀ part ∈ trail, Refused patterns path part := by
    intro part _ element helement
    rw [choices_eq_nil hlast] at helement
    cases helement
  have hplace : Trie.Leads checkCommandElement patterns [] (tokens line ++ trail) taken path ↔
      taken = tokens line ∧ Foremost patterns path (tokens line) :=
    (Trie.leads_of_fits (p := []) hfits hmem).trans
      ⟨fun h => ⟨h.1, h.2.1⟩, fun h => ⟨h.1, h.2, htrail⟩⟩
  rw [LeadsTo, hsplit]
  unfold InPlace Displaced
  by_cases hblank : line.head? = some 32
  · rw [if_pos hblank, List.singleton_append, Trie.leads_cons_iff, hplace]
    constructor
    · rintro (⟨element, rest, hempty, htried, rfl, hleads⟩ | ⟨hempty, rfl, hforemost⟩)
      · obtain ⟨elements, rfl⟩ := hleads.exists_cons (p := [])
        obtain ⟨j, token, hj, rfl, hrefused, hfits', hforemost, -⟩ :=
          (Trie.leads_of_shifted (p := [element]) hfits hmem).mp hleads
        exact Or.inr ⟨j, rfl, hblank, ⟨token, hj, hrefused⟩, .cons hempty hfits',
          Trie.foremost_cons.mpr ⟨htried, hforemost⟩⟩
      · exact Or.inl ⟨rfl, fun _ => hempty, hforemost⟩
    · rintro (⟨rfl, hempty, hforemost⟩ | ⟨j, rfl, -, ⟨token, hj, hrefused⟩, hfits', hforemost⟩)
      · exact Or.inr ⟨hempty hblank, rfl, hforemost⟩
      · cases path with
        | nil => cases hfits'
        | cons element elements =>
          obtain ⟨hempty, hfits'⟩ := List.forall₂_cons.mp hfits'
          obtain ⟨htried, hforemost⟩ := Trie.foremost_cons.mp hforemost
          refine Or.inl ⟨element, _, hempty, htried, rfl, ?_⟩
          exact (Trie.leads_of_shifted (p := [element]) hfits hmem).mpr
            ⟨j, token, hj, rfl, hrefused, hfits', hforemost, htrail⟩
  · rw [if_neg hblank, List.nil_append, hplace]
    simp [hblank]

end Places

/-- ENTER is complete exactly when no pattern extends the one that the tokens fit, and each token is
foremost in its place, or the tokens are displaced by an empty part and lead to the pattern all the
same. -/
theorem dispatchComplete_iff (hd : (commands.map Command.elements).Nodup) :
    DispatchComplete (commands.map Command.elements) line ↔
      ∀ path ∈ commands.map Command.elements,
        (∀ other ∈ commands.map Command.elements, Fits (tokens line) other ↔ other = path) →
        (∀ other ∈ commands.map Command.elements, path <+: other → other = path) ∧
          (InPlace (commands.map Command.elements) line path ∨
            ∃ j, Displaced (commands.map Command.elements) line path j) := by
  constructor
  · intro hc path hpath hunique
    obtain ⟨command, hmem, rfl⟩ := List.mem_map.mp hpath
    have hunique' : ∀ other ∈ commands.map Command.withPattern,
        Fits (tokens line) other.elements ↔ other.elements = command.withPattern.elements := by
      intro other ho
      obtain ⟨c, hcm, rfl⟩ := List.mem_map.mp ho
      exact hunique _ (List.mem_map_of_mem hcm)
    obtain ⟨stack, hcall⟩ := hc _ _ (map_withPattern commands) command.withPattern
      (List.mem_map_of_mem hmem) hunique' _ rfl
    obtain ⟨taken, path, hl, ha, called, hcalled, rfl, hhandler⟩ :=
      pressEnter_iff.mp ⟨stack, hcall⟩
    obtain ⟨c, -, rfl⟩ := List.mem_map.mp hcalled
    obtain he : c.elements = command.elements := Option.some.inj hhandler
    rw [map_withPattern] at hl ha
    have hpath' : c.withPattern.elements = command.elements := he
    rw [hpath'] at hl ha
    have hfits := (hunique _ hpath).mpr rfl
    refine ⟨ha.extends_nothing, ?_⟩
    exact ((leadsTo_iff_of_fits hpath ha.extends_nothing hfits).mp hl).imp And.right
      (Exists.imp fun j => And.right)
  · intro hcond K others hpatterns command hmem hunique handler hhandler
    have hpath : command.elements ∈ commands.map Command.elements := by
      rw [← hpatterns]
      exact List.mem_map_of_mem hmem
    have hunique' : ∀ other ∈ commands.map Command.elements,
        Fits (tokens line) other ↔ other = command.elements := by
      rw [← hpatterns]
      intro other ho
      obtain ⟨c, hcm, rfl⟩ := List.mem_map.mp ho
      exact hunique c hcm
    obtain ⟨hlast, hplaces⟩ := hcond _ hpath hunique'
    have hleads : ∃ taken, LeadsTo (commands.map Command.elements) line taken command.elements := by
      simp only [leadsTo_iff_of_fits hpath hlast ((hunique' _ hpath).mpr rfl)]
      rcases hplaces with hplace | ⟨j, hdisplaced⟩
      · exact ⟨_, Or.inl ⟨rfl, hplace⟩⟩
      · exact ⟨_, Or.inr ⟨j, rfl, hdisplaced⟩⟩
    obtain ⟨taken, hl⟩ := hleads
    refine pressEnter_iff.mpr ⟨taken, _, ?_, ?_, command, hmem, rfl, hhandler⟩
    · rwa [hpatterns]
    · rw [hpatterns]
      exact alone_of_nodup hd hpath hlast

/-- A command whose pattern is the beginning of the pattern of the other. -/
def ipCommands : List (Command String) :=
  [(Command.new (literal "ip") (some "ip")).toOption.get (by decide),
    (Command.new (literal "ip show") (some "ip show")).toOption.get (by decide)]

theorem nodup_ipCommands : (ipCommands.map Command.elements).Nodup := by decide

theorem pressEnter_ip : pressEnter (createCommandTree ipCommands) (literal "ip") = .ok none := by
  decide +kernel

/-- The token of the first command alone. -/
theorem not_dispatchComplete_sample :
    (ipCommands.map Command.elements).Nodup ∧
      ¬ DispatchComplete (ipCommands.map Command.elements) (literal "ip") := by
  refine ⟨nodup_ipCommands, ?_⟩
  intro hc
  obtain ⟨stack, hcall⟩ :=
    hc String ipCommands rfl _ List.mem_cons_self (by decide +kernel) "ip" rfl
  simp [pressEnter_ip] at hcall

/-- Both tokens of the second command. -/
theorem dispatchComplete_sample :
    (ipCommands.map Command.elements).Nodup ∧
      DispatchComplete (ipCommands.map Command.elements) (literal "ip show") := by
  refine ⟨nodup_ipCommands, (dispatchComplete_iff nodup_ipCommands).mpr ?_⟩
  have hpatterns : ipCommands.map Command.elements =
      [[⟨.fixedWord, literal "ip"⟩],
        [⟨.fixedWord, literal "ip"⟩, ⟨.fixedWord, literal "show"⟩]] := by decide
  have htokens : tokens (literal "ip show") = [literal "ip", literal "show"] := by decide
  rw [hpatterns]
  intro path hpath hunique
  rcases List.mem_pair.mp hpath with rfl | rfl
  · have hfits := (hunique _ hpath).mpr rfl
    rw [htokens] at hfits
    exact absurd hfits.length_eq (by decide)
  · refine ⟨by decide, Or.inl ⟨fun hblank => absurd hblank (by decide), ?_⟩⟩
    rw [htokens]
    exact Trie.foremost_cons.mpr ⟨Trie.tried_cons.mpr (Or.inl rfl),
      Trie.foremost_cons.mpr ⟨Trie.tried_cons.mpr (Or.inl rfl), Trie.foremost_nil⟩⟩

end Klevret.Cli
