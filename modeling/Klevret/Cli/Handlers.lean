import Klevret.Api.PropertyTree
import Klevret.Cli.ArgumentStack
import Klevret.Cli.Dispatch
import Klevret.Cli.Octets

/-! # The handlers of the commands

A handler checks the size of the argument stack and takes its addresses from it
by their alternative. The patterns of the built-in commands are what makes that
safe: the stack mirrors the pattern whose handler is called.
-/

namespace Klevret.Cli

open Foundation

inductive CommandHandler where
  | cmdVersion
  | blank
  | cmdIpAddressIpv4
  | cmdDhcpPoolCreate
  | cmdDhcpPoolList
  deriving DecidableEq, Repr

/-- What a handler does: it writes a text, or sends a request and writes the reply. -/
inductive Action (T : Type) where
  | writeStr (str : String)
  | sendCmd (obj : T)

section Handlers

variable {T : Type} [PropertyTree T]

def checkArgsSize (cmd : List CommandElementRealValue) (numberOfArgs : ℕ) (cmdStr : String) :
    Exec Unit :=
  if cmd.length ≠ numberOfArgs then
    throwRuntimeError ("Внутренняя ошибка обработки команды " ++ cmdStr)
  else return

/-- `cmd.top()` and `cmd.pop()`, which an empty stack does not have -/
def popStack : List CommandElementRealValue →
    Exec (CommandElementRealValue × List CommandElementRealValue)
  | [] => .error .undefined
  | value :: cmd => .ok (value, cmd)

/-- `std::get<IPv4Address>` -/
def getIPv4Address : CommandElementRealValue → Exec IPv4Address
  | .ipV4Address ip => .ok ip
  | _ => .error (.throws .badVariantAccess)

/-- The object with the component that `send_cmd_and_get_reply` sends. -/
def sendCmdAndGetReply (obj : T) : Action T :=
  .sendCmd (PropertyTree.put obj "component" (literal "dhcp"))

def cmdIpAddressIpv4 (cmd : List CommandElementRealValue) : Exec (Action T) := do
  checkArgsSize cmd 3 "ip address <IPv4Address>"
  let (top, _) ← popStack cmd
  let ip ← getIPv4Address top
  let json := PropertyTree.put PropertyTree.empty "cmd" (literal "ip.address")
  let json := PropertyTree.put json "ip" ip.toString
  return sendCmdAndGetReply json

def cmdDhcpPoolCreate (cmd : List CommandElementRealValue) : Exec (Action T) := do
  checkArgsSize cmd 5 "dhcp pool create <IPv4Address> <IPv4Address>"
  let (top, cmd) ← popStack cmd
  let ipEnd ← getIPv4Address top
  let (top, _) ← popStack cmd
  let ipStart ← getIPv4Address top
  let json := PropertyTree.put PropertyTree.empty "component" (literal "dhcp")
  let json := PropertyTree.put json "cmd" (literal "dhcp.pool.create")
  let json := PropertyTree.put json "ip_start" ipStart.toString
  let json := PropertyTree.put json "ip_end" ipEnd.toString
  return sendCmdAndGetReply json

def cmdDhcpPoolList : Exec (Action T) := do
  let json := PropertyTree.put PropertyTree.empty "component" (literal "dhcp")
  let json := PropertyTree.put json "cmd" (literal "dhcp.pool.list")
  return sendCmdAndGetReply json

def CommandHandler.run (cmd : List CommandElementRealValue) : CommandHandler → Exec (Action T)
  | cmdVersion => return .writeStr "Клеврет. Версия 0.1 (в разработке)\n"
  | blank => return .writeStr "пустая команда\n"
  | cmdIpAddressIpv4 => Cli.cmdIpAddressIpv4 cmd
  | cmdDhcpPoolCreate => Cli.cmdDhcpPoolCreate cmd
  | cmdDhcpPoolList => Cli.cmdDhcpPoolList

end Handlers

/-- The built-in commands; each is constructed from its pattern. -/
def allCommands : Exec (List (Command CommandHandler)) :=
  [(literal "version", CommandHandler.cmdVersion), (literal "ip show", .blank),
    (literal "ip address show", .blank), (literal "ip address <IPv4Address>", .cmdIpAddressIpv4),
    (literal "dhcp pool create <IPv4Address> <IPv4Address>", .cmdDhcpPoolCreate),
    (literal "dhcp pool list", .cmdDhcpPoolList)].mapM
      fun (pattern, handler) => Command.new pattern (some handler)

def word (str : String) : CommandElement := ⟨.fixedWord, literal str⟩

/-- The elements of the built-in commands, with their handlers. -/
def builtin : List (Entry CommandElement CommandHandler) :=
  [([word "version"], some .cmdVersion), ([word "ip", word "show"], some .blank),
    ([word "ip", word "address", word "show"], some .blank),
    ([word "ip", word "address", ⟨.ipV4Address, []⟩], some .cmdIpAddressIpv4),
    ([word "dhcp", word "pool", word "create", ⟨.ipV4Address, []⟩, ⟨.ipV4Address, []⟩],
      some .cmdDhcpPoolCreate),
    ([word "dhcp", word "pool", word "list"], some .cmdDhcpPoolList)]

theorem exists_allCommands : ∃ commands, allCommands = .ok commands ∧
    (commands.map fun c => (c.elements, c.handler)) = builtin := by
  refine ⟨_, rfl, ?_⟩
  decide +kernel

section Dispatch

variable {H : Type} {commands : List (Command H)} {handler : H} {line : List UInt8}
  {stack entries : List CommandElementRealValue} {taken : List (List UInt8)}
  {path : List CommandElement} {element : CommandElement} {value : CommandElementRealValue}

theorem mirrors_of_pressEnter
    (h : pressEnter (createCommandTree commands) line = .ok (some (handler, stack))) :
    ∃ taken path, taken.Sublist (split line) ∧ Mirrors taken path stack.reverse ∧
      (path, some handler) ∈ commands.map fun c => (c.elements, c.handler) := by
  have hentries := not_mem_entries commands
  obtain ⟨⟨node, stack'⟩, hanalyze, h⟩ := Exec.bind_eq_ok.mp h
  obtain ⟨v, honly, heq⟩ := Option.map_eq_some_iff.mp (Except.ok.inj h)
  obtain ⟨rfl, rfl⟩ := Prod.mk.inj heq
  obtain ⟨taken, path, hpath, htaken, hmirrors⟩ := mirrors_of_analyzeCommand hanalyze
  rw [Trie.childs_of_reaches hentries (childs_createCommandTree commands) hpath,
    Trie.only_insertAll (Trie.not_mem_after hentries path)] at honly
  have hmem : ([], some v) ∈ Trie.after path (commands.map fun c => (c.elements, c.handler)) := by
    rw [honly]
    exact List.mem_singleton_self _
  refine ⟨taken, path, htaken, hmirrors, ?_⟩
  rwa [Trie.mem_after, List.append_nil] at hmem

theorem Mirrors.exists_cons (h : Mirrors taken (element :: path) entries) :
    ∃ value taken' entries', entries = value :: entries' ∧ value.BelongsTo element.type ∧
      Mirrors taken' path entries' := by
  cases h with
  | cons _ hbelongs h => exact ⟨_, _, _, rfl, hbelongs, h⟩

theorem Mirrors.eq_nil (h : Mirrors taken [] entries) : entries = [] := by
  cases h
  rfl

theorem exists_address_of_belongsTo (h : value.BelongsTo .ipV4Address) :
    ∃ ip, value = .ipV4Address ip := by
  cases value with
  | ipV4Address ip => exact ⟨ip, rfl⟩
  | string str => exact absurd List.mem_cons_self h
  | _ => cases h

def addresses (entries : List CommandElementRealValue) : List IPv4Address :=
  entries.filterMap fun
    | .ipV4Address ip => some ip
    | _ => none

theorem addresses_word {str : String} (h : value.BelongsTo (word str).type) :
    addresses (value :: entries) = addresses entries := by
  cases value with
  | ipV4Address ip => cases h
  | _ => rfl

/-- The object that `dhcp pool create` sends. -/
def poolCreateRequest (T : Type) [PropertyTree T] (ipStart ipEnd : IPv4Address) : T :=
  PropertyTree.put (PropertyTree.put (PropertyTree.put (PropertyTree.put
    (PropertyTree.put PropertyTree.empty "component" (literal "dhcp"))
    "cmd" (literal "dhcp.pool.create")) "ip_start" ipStart.toString) "ip_end" ipEnd.toString)
    "component" (literal "dhcp")

variable {T : Type} [PropertyTree T] {handler : CommandHandler}

variable (T) in
theorem run_cmdIpAddressIpv4
    (h : Mirrors taken [word "ip", word "address", ⟨.ipV4Address, []⟩] stack.reverse) :
    ∃ action : Action T, CommandHandler.cmdIpAddressIpv4.run stack = .ok action := by
  obtain ⟨ip, _, _, hstack, -, h⟩ := h.exists_cons
  obtain ⟨address, _, _, rfl, -, h⟩ := h.exists_cons
  obtain ⟨value, _, _, rfl, hvalue, h⟩ := h.exists_cons
  obtain rfl := h.eq_nil
  obtain ⟨ipAddress, rfl⟩ := exists_address_of_belongsTo hvalue
  obtain rfl : stack = [.ipV4Address ipAddress, address, ip] := by
    rw [← List.reverse_reverse stack, hstack]
    rfl
  exact ⟨_, rfl⟩

variable (T) in
theorem run_cmdDhcpPoolCreate
    (h : Mirrors taken [word "dhcp", word "pool", word "create", ⟨.ipV4Address, []⟩,
      ⟨.ipV4Address, []⟩] stack.reverse) :
    ∃ first second, addresses stack.reverse = [first, second] ∧
      CommandHandler.cmdDhcpPoolCreate.run stack =
        .ok (.sendCmd (poolCreateRequest T first second)) := by
  obtain ⟨dhcp, _, _, hstack, hdhcp, h⟩ := h.exists_cons
  obtain ⟨pool, _, _, rfl, hpool, h⟩ := h.exists_cons
  obtain ⟨create, _, _, rfl, hcreate, h⟩ := h.exists_cons
  obtain ⟨value, _, _, rfl, hvalue, h⟩ := h.exists_cons
  obtain ⟨value', _, _, rfl, hvalue', h⟩ := h.exists_cons
  obtain rfl := h.eq_nil
  obtain ⟨first, rfl⟩ := exists_address_of_belongsTo hvalue
  obtain ⟨second, rfl⟩ := exists_address_of_belongsTo hvalue'
  refine ⟨first, second, ?_, ?_⟩
  · rw [hstack, addresses_word hdhcp, addresses_word hpool, addresses_word hcreate]
    rfl
  · obtain rfl : stack = [.ipV4Address second, .ipV4Address first, create, pool, dhcp] := by
      rw [← List.reverse_reverse stack, hstack]
      rfl
    rfl

/-- No built-in handler fails on a stack that mirrors its pattern. -/
theorem runs_of_mirrors (hmem : (path, some handler) ∈ builtin)
    (h : Mirrors taken path stack.reverse) :
    ∃ action : Action T, handler.run stack = .ok action ∧
      (handler = .cmdDhcpPoolCreate → ∃ first second, addresses stack.reverse = [first, second] ∧
        action = .sendCmd (poolCreateRequest T first second)) := by
  simp only [builtin, List.mem_cons, List.not_mem_nil, or_false, Prod.mk.injEq,
    Option.some.injEq] at hmem
  rcases hmem with ⟨rfl, rfl⟩ | ⟨rfl, rfl⟩ | ⟨rfl, rfl⟩ | ⟨rfl, rfl⟩ | ⟨rfl, rfl⟩ | ⟨rfl, rfl⟩
  · exact ⟨_, rfl, nofun⟩
  · exact ⟨_, rfl, nofun⟩
  · exact ⟨_, rfl, nofun⟩
  · obtain ⟨action, hrun⟩ := run_cmdIpAddressIpv4 T h
    exact ⟨action, hrun, nofun⟩
  · obtain ⟨first, second, haddresses, hrun⟩ := run_cmdDhcpPoolCreate T h
    exact ⟨_, hrun, fun _ => ⟨first, second, haddresses, rfl⟩⟩
  · exact ⟨_, rfl, nofun⟩

end Dispatch

/-- The stack mirrors the path to the node that is returned, so the built-in handlers find what they
expect on it. -/
theorem stack_mirrors_path :
    (∀ (H : Type) (root node : CommandTree H) (line : List UInt8)
      (stack : List CommandElementRealValue), analyzeCommand line root = .ok (node, stack) →
        ∃ taken path, Trie.Reaches {} root path node ∧ taken.Sublist (split line) ∧
          Mirrors taken path stack.reverse) ∧
    ∃ commands, allCommands = .ok commands ∧
      ∀ (T : Type) [PropertyTree T] (line : List UInt8) (handler : CommandHandler)
        (stack : List CommandElementRealValue),
        pressEnter (createCommandTree commands) line = .ok (some (handler, stack)) →
          ∃ action : Action T, handler.run stack = .ok action ∧
            (handler = .cmdDhcpPoolCreate → ∃ first second,
              addresses stack.reverse = [first, second] ∧
                action = .sendCmd (poolCreateRequest T first second)) := by
  refine ⟨fun H root node line stack => mirrors_of_analyzeCommand, ?_⟩
  obtain ⟨commands, hcommands, hentries⟩ := exists_allCommands
  refine ⟨commands, hcommands, fun T _ line handler stack h => ?_⟩
  obtain ⟨taken, path, -, hmirrors, hmem⟩ := mirrors_of_pressEnter h
  rw [hentries] at hmem
  exact runs_of_mirrors hmem hmirrors

def poolCreateLine : List UInt8 := literal "dhcp pool create 10.0.0.1 10.0.0.9"

def poolCreateStack : List CommandElementRealValue :=
  [.ipV4Address ⟨.ofList [10, 0, 0, 9] rfl⟩, .ipV4Address ⟨.ofList [10, 0, 0, 1] rfl⟩,
    .string (literal "create"), .string (literal "pool"), .string (literal "dhcp")]

theorem pressEnter_poolCreate {commands : List (Command CommandHandler)}
    (h : allCommands = .ok commands) :
    pressEnter (createCommandTree commands) poolCreateLine =
      .ok (some (.cmdDhcpPoolCreate, poolCreateStack)) := by
  have hpress : (allCommands >>= fun c => pressEnter (createCommandTree c) poolCreateLine) =
      .ok (some (.cmdDhcpPoolCreate, poolCreateStack)) := by decide +kernel
  rwa [h] at hpress

/-- A line with the range of a pool. -/
theorem stack_mirrors_path_sample :
    letI := FlatTree.propertyTree (fun _ => .ok []) fun _ => .ok ⟨[]⟩
    ∃ commands node, allCommands = .ok commands ∧
      analyzeCommand poolCreateLine (createCommandTree commands) = .ok (node, poolCreateStack) ∧
      (∃ taken path, Trie.Reaches {} (createCommandTree commands) path node ∧
        taken.Sublist (split poolCreateLine) ∧ Mirrors taken path poolCreateStack.reverse) ∧
      ∃ first second, addresses poolCreateStack.reverse = [first, second] ∧
        CommandHandler.cmdDhcpPoolCreate.run poolCreateStack =
          .ok (.sendCmd (poolCreateRequest FlatTree first second)) := by
  let tree := FlatTree.propertyTree (fun _ => .ok []) fun _ => .ok ⟨[]⟩
  obtain ⟨hmirrors, commands, hcommands, hruns⟩ := stack_mirrors_path
  have hpress := pressEnter_poolCreate hcommands
  obtain ⟨⟨node, stack⟩, hanalyze, hmap⟩ := Exec.bind_eq_ok.mp hpress
  obtain ⟨_, -, heq⟩ := Option.map_eq_some_iff.mp (Except.ok.inj hmap)
  obtain ⟨-, rfl⟩ := Prod.mk.inj heq
  obtain ⟨action, hrun, hcreate⟩ := hruns FlatTree _ _ _ hpress
  obtain ⟨first, second, haddresses, rfl⟩ := hcreate rfl
  exact ⟨commands, node, hcommands, hanalyze, hmirrors _ _ _ _ _ hanalyze, first, second,
    haddresses, hrun⟩

end Klevret.Cli
