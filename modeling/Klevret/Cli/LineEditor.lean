import Klevret.Cli.Command
import Klevret.Foundation.Editor
import Klevret.Foundation.Run

/-! # The line of the command line

The main loop keeps the line and the position of the cursor, and changes them
with each key. A character goes to the end of the line wherever the cursor is,
so the line is the one that was typed only as long as that makes no difference.
-/

namespace Klevret.Cli

open Foundation

/-- The line of the console; the position is an `int`. -/
@[ext]
structure Console where
  currentCommandInput : List UInt8 := []
  currentCommandInputCursorPos : Int32 := 0
  deriving DecidableEq, Repr

namespace Console

def TAB : UInt8 := 9

def ENTER : UInt8 := 13

def ESC : UInt8 := 27

def SPACE : UInt8 := 32

def BACKSPACE : UInt8 := 127

/-- A byte of the input, or -1 if there is none. -/
def getkey : List UInt8 → UInt8 × List UInt8
  | [] => (255, [])
  | c :: input => (c, input)

/-- `current_command_input += c` and `current_command_input_cursor_pos++` -/
def append (console : Console) (c : UInt8) : Console :=
  ⟨console.currentCommandInput ++ [c], console.currentCommandInputCursorPos + 1⟩

/-- `str.erase(pos, 1)`, where a negative `int` becomes a position behind every string -/
def erase (str : List UInt8) (pos : Int32) : Exec (List UInt8) :=
  if 0 ≤ pos.toInt ∧ pos.toInt ≤ str.length then .ok (str.eraseIdx pos.toInt.toNat)
  else .error (.throws .outOfRange)

def backspace (console : Console) : Exec Console :=
  if console.currentCommandInputCursorPos ≠ 0 then do
    let input ← erase console.currentCommandInput (console.currentCommandInputCursorPos - 1)
    return ⟨input, console.currentCommandInputCursorPos - 1⟩
  else return console

def arrowLeft (console : Console) : Console :=
  if console.currentCommandInputCursorPos ≠ 0 then
    { console with
      currentCommandInputCursorPos := console.currentCommandInputCursorPos - 1 }
  else console

/-- The `int` is compared with a `size_t`, so a negative one is not less. -/
def arrowRight (console : Console) : Console :=
  if 0 ≤ console.currentCommandInputCursorPos.toInt ∧
      console.currentCommandInputCursorPos.toInt < console.currentCommandInput.length then
    { console with
      currentCommandInputCursorPos := console.currentCommandInputCursorPos + 1 }
  else console

end Console

inductive EscSequense where
  | arrowLeft
  | arrowRight
  | arrowUp
  | arrowDown
  | unknown
  deriving DecidableEq, Repr

def toEsqSequence (ch1 ch2 : UInt8) : EscSequense :=
  if ch1 = 91 ∧ ch2 = 68 then .arrowLeft
  else if ch1 = 91 ∧ ch2 = 67 then .arrowRight
  else .unknown

section MainLoop

variable {H : Type}

/-- A pass of the main loop, with the rest of the input; `call` is what the call of a handler does,
which may throw. The variable `prev` is never set, so TAB does not change the line. -/
def mainPass (root : CommandTree H) (call : H → List CommandElementRealValue → Exec Unit)
    (console : Console) (input : List UInt8) : Exec (Console × List UInt8) :=
  let (c, input) := Console.getkey input
  if c = 255 then return (console, input)
  else if c = Console.TAB then do
    let _ ← analyzeCommand console.currentCommandInput root
    return (console, input)
  else if c = Console.ENTER then do
    match ← pressEnter root console.currentCommandInput with
    | some (handler, stack) => call handler stack
    | none => pure ()
    return ({}, input)
  else if c = Console.BACKSPACE then do
    let console ← console.backspace
    return (console, input)
  else if c = Console.SPACE then return (console.append c, input)
  else if c = Console.ESC then
    let (ch1, input) := Console.getkey input
    let (ch2, input) := Console.getkey input
    match toEsqSequence ch1 ch2 with
    | .arrowLeft => return (console.arrowLeft, input)
    | .arrowRight => return (console.arrowRight, input)
    | _ => return (console, input)
  else return (console.append c, input)

end MainLoop

/-- The keys that edit the line. A character is a byte that has no branch of its own. -/
inductive Key where
  | character (c : UInt8)
      (h : c ∉ [255, Console.TAB, Console.ENTER, Console.BACKSPACE, Console.SPACE, Console.ESC])
  | space
  | backspace
  | left
  | right
  | enter

namespace Key

/-- What the terminal sends for a key. -/
def bytes : Key → List UInt8
  | character c _ => [c]
  | space => [Console.SPACE]
  | backspace => [Console.BACKSPACE]
  | left => [Console.ESC, 91, 68]
  | right => [Console.ESC, 91, 67]
  | enter => [Console.ENTER]

/-- What a key does in the reference editor. -/
def edit (editor : Editor UInt8) : Key → Editor UInt8
  | character c _ => editor.insert c
  | space => editor.insert Console.SPACE
  | backspace => editor.erase
  | left => editor.left
  | right => editor.right
  | enter => .empty

end Key

section Editing

variable {H : Type} (root : CommandTree H) (call : H → List CommandElementRealValue → Exec Unit)

/-- A key in the main loop and in the reference editor. -/
def KeyStep (s : Console × Editor UInt8) (key : Key) (t : Console × Editor UInt8) : Prop :=
  mainPass root call s.1 key.bytes = .ok (t.1, []) ∧ t.2 = key.edit s.2

/-- The main loop keeps the text and the position of the reference editor, so the position is in
the line, and BACKSPACE does not throw. -/
structure Agrees (s : Console × Editor UInt8) : Prop where
  text : s.1.currentCommandInput = s.2.text
  cursor : s.1.currentCommandInputCursorPos.toInt = s.2.position
  bounds : 0 ≤ s.1.currentCommandInputCursorPos.toInt ∧
    s.1.currentCommandInputCursorPos.toInt ≤ s.1.currentCommandInput.length
  erases : ∃ t, mainPass root call s.1 Key.backspace.bytes = .ok t

end Editing

/-- No other character follows the cursor where one is typed, and the position still fits into an
`int` behind it. -/
def AppendsAtCursor (s : Console × Editor UInt8) : Key → Prop
  | .character c _ => (∀ b ∈ s.2.after, b = c) ∧ s.2.position + 1 < 2 ^ 31
  | .space => (∀ b ∈ s.2.after, b = Console.SPACE) ∧ s.2.position + 1 < 2 ^ 31
  | .right => s.2.after ≠ [] → s.2.position + 1 < 2 ^ 31
  | _ => True

section Cursor

variable {i : Int32} {n : ℕ}

theorem toInt_add_one_iff (h : i.toInt = n) : (i + 1).toInt = (n + 1 : ℕ) ↔ n + 1 < 2 ^ 31 := by
  have hlt := i.toInt_lt
  rw [Int32.toInt_add, h, Int32.toInt_one, Int.bmod_def]
  omega

theorem toInt_sub_one (h : i.toInt = n) (hn : n ≠ 0) : (i - 1).toInt = (n - 1 : ℕ) := by
  have hlt := i.toInt_lt
  rw [Int32.toInt_sub, h, Int32.toInt_one, Int.bmod_def]
  omega

theorem eq_zero_iff (h : i.toInt = n) : i = 0 ↔ n = 0 := by
  rw [← Int32.toInt_inj, h, Int32.toInt_zero]
  exact Int.natCast_eq_zero

end Cursor

/-- The line is the text of the editor, and the position is its position. -/
structure Console.Matches (console : Console) (editor : Editor UInt8) : Prop where
  text : console.currentCommandInput = editor.text
  cursor : console.currentCommandInputCursorPos.toInt = editor.position

namespace Console.Matches

variable {console : Console} {editor : Editor UInt8}

theorem initial : Console.Matches {} .empty := ⟨rfl, rfl⟩

theorem append_iff (h : console.Matches editor) (c : UInt8) :
    (console.append c).Matches (editor.insert c) ↔
      (∀ b ∈ editor.after, b = c) ∧ editor.position + 1 < 2 ^ 31 := by
  rw [← editor.text_insert_eq_iff, ← toInt_add_one_iff h.cursor]
  constructor
  · rintro ⟨htext, hcursor⟩
    rw [append, h.text] at htext
    exact ⟨htext.symm, hcursor⟩
  · rintro ⟨htext, hcursor⟩
    refine ⟨?_, hcursor⟩
    rw [append, h.text]
    exact htext.symm

theorem backspace (h : console.Matches editor) :
    ∃ console', console.backspace = .ok console' ∧ console'.Matches editor.erase := by
  unfold Console.backspace
  by_cases hzero : editor.position = 0
  · refine ⟨console, if_neg (not_not.mpr ((eq_zero_iff h.cursor).mpr hzero)), ?_⟩
    rwa [editor.erase_of_position hzero]
  · have hpred := toInt_sub_one h.cursor hzero
    have hle := editor.position_le
    have herase : erase console.currentCommandInput (console.currentCommandInputCursorPos - 1) =
        .ok editor.erase.text := by
      rw [erase, hpred, h.text, if_pos (by omega), Int.toNat_natCast, editor.text_erase hzero]
    refine ⟨⟨editor.erase.text, console.currentCommandInputCursorPos - 1⟩, ?_, rfl, ?_⟩
    · rw [if_pos ((eq_zero_iff h.cursor).not.mpr hzero), herase]
      rfl
    · rw [hpred, editor.position_erase]

theorem arrowLeft (h : console.Matches editor) : console.arrowLeft.Matches editor.left := by
  unfold Console.arrowLeft
  by_cases hzero : editor.position = 0
  · rw [if_neg (not_not.mpr ((eq_zero_iff h.cursor).mpr hzero))]
    refine ⟨by rw [h.text, editor.text_left], ?_⟩
    rw [h.cursor, editor.position_left, hzero]
  · rw [if_pos ((eq_zero_iff h.cursor).not.mpr hzero)]
    refine ⟨by rw [h.text, editor.text_left], ?_⟩
    rw [toInt_sub_one h.cursor hzero, editor.position_left]

theorem arrowRight_iff (h : console.Matches editor) :
    console.arrowRight.Matches editor.right ↔
      (editor.after ≠ [] → editor.position + 1 < 2 ^ 31) := by
  have hlength := editor.length_text
  have htext : console.currentCommandInput = editor.right.text := by rw [h.text, editor.text_right]
  have hposition := editor.position_right
  unfold Console.arrowRight
  by_cases hafter : editor.after = []
  · have hend : ¬ editor.position < editor.text.length := by simp [hlength, hafter]
    rw [h.cursor, h.text, if_neg (by omega)]
    refine iff_of_true ⟨htext, ?_⟩ fun hne => absurd hafter hne
    rw [h.cursor, hposition, if_neg hend]
  · have hpos := List.length_pos_of_ne_nil hafter
    have hinside : editor.position < editor.text.length := by omega
    rw [h.cursor, h.text, if_pos (by omega)]
    rw [if_pos hinside] at hposition
    rw [← toInt_add_one_iff h.cursor]
    constructor
    · rintro hmatches -
      rw [← hposition]
      exact hmatches.cursor
    · intro hcursor
      refine ⟨h.text.symm.trans htext, ?_⟩
      rw [hposition]
      exact hcursor hafter

end Console.Matches

section Keys

variable {H : Type} {root : CommandTree H} {call : H → List CommandElementRealValue → Exec Unit}
  {console : Console} {s t u : Console × Editor UInt8} {key : Key} {keys : List Key}

theorem console_eq {rest : List UInt8} (h : (.ok (console, rest) : Exec _) = .ok (s.1, [])) :
    console = s.1 := (Prod.mk.inj (Except.ok.inj h)).1

theorem mainPass_character {c : UInt8}
    (h : c ∉ [255, Console.TAB, Console.ENTER, Console.BACKSPACE, Console.SPACE, Console.ESC]) :
    mainPass root call console [c] = .ok (console.append c, []) := by
  simp only [List.mem_cons, List.not_mem_nil, or_false, not_or] at h
  obtain ⟨hnone, htab, henter, hbackspace, hspace, hesc⟩ := h
  simp only [mainPass, Console.getkey, hnone, htab, henter, hbackspace, hspace, hesc, if_false,
    Exec.pure_eq_ok]

theorem mainPass_backspace : mainPass root call console Key.backspace.bytes =
    (fun console => (console, [])) <$> console.backspace := by
  change (do let console ← console.backspace; return (console, [])) = _
  cases console.backspace <;> rfl

theorem eq_empty_of_enter (h : mainPass root call console Key.enter.bytes = .ok (t.1, [])) :
    t.1 = {} := by
  obtain ⟨called, -, h⟩ := Exec.bind_eq_ok.mp h
  cases called with
  | none => exact (console_eq h).symm
  | some called =>
    obtain ⟨_, -, h⟩ := Exec.bind_eq_ok.mp h
    exact (console_eq h).symm

theorem agrees_iff_matches : Agrees root call s ↔ s.1.Matches s.2 := by
  constructor
  · exact fun h => ⟨h.text, h.cursor⟩
  · intro h
    have hle := s.2.position_le
    refine ⟨h.text, h.cursor, ?_, ?_⟩
    · rw [h.cursor, h.text]
      omega
    · obtain ⟨console, hok, -⟩ := h.backspace
      rw [mainPass_backspace, hok]
      exact ⟨_, rfl⟩

/-- A key keeps the agreement exactly where it appends at the cursor. -/
theorem KeyStep.matches_iff (h : KeyStep root call s key t) (hs : s.1.Matches s.2) :
    t.1.Matches t.2 ↔ AppendsAtCursor s key := by
  obtain ⟨hpass, hedit⟩ := h
  rw [hedit]
  cases key with
  | character c hc =>
    rw [Key.bytes, mainPass_character hc] at hpass
    rw [← console_eq hpass]
    exact hs.append_iff c
  | space =>
    have ht : s.1.append Console.SPACE = t.1 := console_eq hpass
    rw [← ht]
    exact hs.append_iff Console.SPACE
  | backspace =>
    obtain ⟨console, hok, hmatches⟩ := hs.backspace
    rw [mainPass_backspace, hok] at hpass
    rw [← console_eq hpass]
    exact iff_of_true hmatches trivial
  | left =>
    have ht : s.1.arrowLeft = t.1 := console_eq hpass
    rw [← ht]
    exact iff_of_true hs.arrowLeft trivial
  | right =>
    have ht : s.1.arrowRight = t.1 := console_eq hpass
    rw [← ht]
    exact hs.arrowRight_iff
  | enter =>
    rw [eq_empty_of_enter hpass]
    exact iff_of_true .initial trivial

theorem deterministic_keyStep : Deterministic (KeyStep root call) := by
  rintro s key ⟨console, editor⟩ ⟨console', editor'⟩ ⟨hpass, rfl⟩ ⟨hpass', rfl⟩
  obtain rfl := (Prod.mk.inj (Except.ok.inj (hpass.symm.trans hpass'))).1
  rfl

theorem matches_of_guarded (h : Run (Guarded (KeyStep root call) AppendsAtCursor) s keys t)
    (hs : s.1.Matches s.2) : t.1.Matches t.2 := by
  apply h.invariant (I := fun s => s.1.Matches s.2) _ hs
  exact fun s key t hs hstep => (hstep.1.matches_iff hs).mpr hstep.2

end Keys

/-- The main loop and the reference editor agree after every key exactly as long as each character
is typed where appending it is the same. -/
theorem lineEditor_agrees_iff {H : Type} {root : CommandTree H}
    {call : H → List CommandElementRealValue → Exec Unit} {keys : List Key}
    {u : Console × Editor UInt8} (h : Run (KeyStep root call) ({}, .empty) keys u) :
    (∀ typed rest v, keys = typed ++ rest → Run (KeyStep root call) ({}, .empty) typed v →
      Agrees root call v) ↔
      Run (Guarded (KeyStep root call) AppendsAtCursor) ({}, .empty) keys u := by
  apply Run.always_iff_guarded _ _ deterministic_keyStep h
  · exact fun typed v hv => agrees_iff_matches.mpr (matches_of_guarded hv .initial)
  · intro typed v key v' hv hstep hnot hagrees
    have hmatches := matches_of_guarded hv .initial
    exact hnot ((hstep.matches_iff hmatches).mp (agrees_iff_matches.mp hagrees))

/-- A tree without commands, so that ENTER calls nothing. -/
def noCommands : CommandTree Unit := createCommandTree []

theorem run_keys (c d : UInt8)
    (hc : c ∉ [255, Console.TAB, Console.ENTER, Console.BACKSPACE, Console.SPACE, Console.ESC])
    (hd : d ∉ [255, Console.TAB, Console.ENTER, Console.BACKSPACE, Console.SPACE, Console.ESC]) :
    Run (KeyStep noCommands fun _ _ => .ok ()) ({}, .empty)
      [.character c hc, .left, .character d hd] (⟨[c, d], 1⟩, ⟨[d], [c]⟩) := by
  have hleft : Console.arrowLeft ⟨[c], 1⟩ = ⟨[c], 0⟩ := by
    have hne : (1 : Int32) ≠ 0 := by decide
    have hsub : (1 : Int32) - 1 = 0 := by decide
    simp only [Console.arrowLeft, ne_eq, hne, not_false_eq_true, if_true, hsub]
  refine .cons (t := (⟨[c], 1⟩, ⟨[c], []⟩)) ⟨mainPass_character hc, rfl⟩ ?_
  refine .cons (t := (⟨[c], 0⟩, ⟨[], [c]⟩)) ⟨?_, rfl⟩ (.single ⟨mainPass_character hd, rfl⟩)
  exact congrArg (fun console => Except.ok (console, [])) hleft

/-- The letter `b` before the letter `a`: the line becomes `ab`. -/
theorem not_lineEditor_agrees_sample :
    ¬ ∀ (keys : List Key) (u : Console × Editor UInt8),
      Run (KeyStep noCommands fun _ _ => .ok ()) ({}, .empty) keys u →
        Agrees noCommands (fun _ _ => .ok ()) u := by
  intro h
  have htext := (h _ _ (run_keys 97 98 (by decide) (by decide))).text
  exact absurd htext (by decide)

/-- The letter `a` twice. -/
theorem lineEditor_agrees_sample :
    (∀ typed rest v,
      [Key.character 97 (by decide), .left, .character 97 (by decide)] = typed ++ rest →
      Run (KeyStep noCommands fun _ _ => .ok ()) ({}, .empty) typed v →
        Agrees noCommands (fun _ _ => .ok ()) v) ↔
      Run (Guarded (KeyStep noCommands fun _ _ => .ok ()) AppendsAtCursor) ({}, .empty)
        [.character 97 (by decide), .left, .character 97 (by decide)]
        (⟨[97, 97], 1⟩, ⟨[97], [97]⟩) :=
  lineEditor_agrees_iff (run_keys 97 97 (by decide) (by decide))

end Klevret.Cli
