import Klevret.Cli.Dispatch
import Klevret.Foundation.TrieNodes

/-! # What the command tree holds

There is a node for each beginning of a registered pattern. Directly below it,
next to its words, are the handlers of the commands whose pattern ends there:
nodes with the default element.
-/

namespace Klevret.Cli

open Foundation

variable {H : Type}

/-- The tree holds the handlers of these commands in their order, and nothing else. -/
structure Represents (treeRoot : CommandTree H) (commands : List (Command H)) : Prop where
  handlers : ∀ elements node, Trie.Reaches {} treeRoot elements node →
    Trie.leaves {} node.childs =
      (commands.filter (·.elements = elements)).map fun command => .node {} command.handler []
  nodes : ∀ elements, (∃ node, Trie.Reaches {} treeRoot elements node) ↔
    elements = [] ∨ ∃ command ∈ commands, elements <+: command.elements
  distinct : ∀ node, treeRoot.Within node → (Trie.innerKeys {} node.childs).Nodup

/-- The tree of a list of commands represents it. -/
theorem represents_createCommandTree (commands : List (Command H)) :
    Represents (createCommandTree commands) commands := by
  have hentries := not_mem_entries commands
  have hroot := childs_createCommandTree commands
  constructor
  · intro elements node hnode
    rw [Trie.leaves_of_reaches hentries hroot hnode, List.filter_map, List.map_map]
    rfl
  · intro elements
    rw [Trie.exists_reaches_iff hentries hroot]
    simp only [List.mem_map, exists_exists_and_eq_and]
  · exact fun node hnode => Trie.nodup_of_within hentries hroot hnode

/-- Without a command there is still a root. -/
theorem not_nodes_empty : ¬ ∀ (commands : List (Command Unit)) (elements : List CommandElement),
    (∃ node, Trie.Reaches {} (createCommandTree commands) elements node) ↔
      ∃ command ∈ commands, elements <+: command.elements := by
  intro h
  obtain ⟨command, hmem, -⟩ := (h [] []).mp ⟨_, .nil _⟩
  exact absurd hmem List.not_mem_nil

end Klevret.Cli
