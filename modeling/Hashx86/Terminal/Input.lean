import Hashx86.Lib.Run
import Hashx86.Terminal.Path

/-!
# Typing into the terminal (`TerminalApp::HandleScancode`)

What is typed is kept only on the screen: a command is read back from the last line of it, from the
column where the prompt ended.

* `appendText_current`: where a text that is wrapped ends.
* `pushPrompt_holds`: a prompt begins an input without characters.
* `press_holds`: what one key does to the input, while it stays on the line of the prompt.
* `command_typed`: on Enter the command is what was typed, if no key has wrapped the line.
-/

namespace Hashx86
namespace Terminal

open Lib

def maxLines : Nat := 1200
def maxCols : Nat := 160

/-- `max_i(20, (TERM_W - 20) / CHAR_W)` and `max_i(8, (TERM_H - 6) / CHAR_H)`. -/
def visibleCols : Nat := max 20 ((900 - 20) / 8)
def visibleRows : Nat := max 8 ((576 - 6) / 10)

/-! ## `TerminalBuffer` -/

/-- The lines of the screen; the last of them is `current`. -/
structure TerminalBuffer where
  older : List (List UInt8)
  current : List UInt8
  count : older.length < maxLines
  cols : ∀ l ∈ current :: older, l.length ≤ maxCols

namespace TerminalBuffer

def lineCount (b : TerminalBuffer) : Nat := b.older.length + 1

/-- The first line is lost when there are `maxLines`. -/
def newLine (b : TerminalBuffer) : TerminalBuffer where
  older := if b.lineCount < maxLines then b.older ++ [b.current] else (b.older ++ [b.current]).tail
  current := []
  count := by
    have hcount := b.count
    unfold lineCount
    split
    · rwa [List.length_append, List.length_singleton]
    · rw [List.length_tail, List.length_append, List.length_singleton]
      omega
  cols := by
    have hcols : ∀ l ∈ b.older ++ [b.current], l.length ≤ maxCols := by
      rw [List.forall_mem_append, List.forall_mem_singleton]
      exact ⟨fun l hl => b.cols l (List.mem_cons_of_mem _ hl), b.cols _ List.mem_cons_self⟩
    rw [List.forall_mem_cons]
    refine ⟨Nat.zero_le _, fun l hl => hcols l ?_⟩
    split at hl
    · exact hl
    · exact List.mem_of_mem_tail hl

/-- Another text in the current line. -/
def withCurrent (b : TerminalBuffer) (l : List UInt8) (h : l.length ≤ maxCols) : TerminalBuffer where
  older := b.older
  current := l
  count := b.count
  cols := List.forall_mem_cons.mpr ⟨h, fun l hl => b.cols l (List.mem_cons_of_mem _ hl)⟩

/-- A character behind those in the current line, if there is room. -/
def putChar (b : TerminalBuffer) (c : UInt8) : TerminalBuffer :=
  if h : b.current.length < maxCols then
    b.withCurrent (b.current ++ [c]) (by rw [List.length_append]; exact h)
  else b

def appendChar (b : TerminalBuffer) (c : UInt8) (wrapCols : Nat) : TerminalBuffer :=
  if min maxCols wrapCols ≤ b.current.length then b.newLine.putChar c else b.putChar c

def appendText (b : TerminalBuffer) (text : List UInt8) (wrapCols : Nat) : TerminalBuffer :=
  text.foldl (fun b c => b.appendChar c wrapCols) b

def backspace (b : TerminalBuffer) (protectColumns : Nat) : TerminalBuffer :=
  if protectColumns < b.current.length then
    b.withCurrent b.current.dropLast (by
      rw [List.length_dropLast]
      exact (Nat.sub_le _ _).trans (b.cols _ List.mem_cons_self))
  else b

end TerminalBuffer

/-! ## `TerminalApp` -/

/-- What `PushPrompt` shows behind the current path: ` $ `. -/
def promptMark : List UInt8 := [0x20, 0x24, 0x20]

structure App where
  terminal : TerminalBuffer
  scrollOffset : Nat
  capsLock : Bool
  inputStartColumn : Nat
  viewDirty : Bool
  foregroundPid : Int
  backgroundPid : Int
  currentPath : List UInt8

namespace App

def maxScroll (app : App) : Nat := app.terminal.lineCount - visibleRows

def printLine (app : App) (text : List UInt8) : App :=
  { app with terminal := (app.terminal.appendText text visibleCols).newLine }

def pushPrompt (app : App) : App :=
  let b := if app.terminal.current.length ≠ 0 then app.terminal.newLine else app.terminal
  let b := (b.appendText app.currentPath visibleCols).appendText promptMark visibleCols
  { app with terminal := b, inputStartColumn := b.current.length }

/-- A process has exited: a line that says so, and a prompt. -/
def processExited (app : App) : App :=
  { (app.printLine (ascii "[process exited]")).pushPrompt with
    scrollOffset := 0
    viewDirty := true }

/-- `PollForegroundProcess`, with what `syscall_is_process_alive` answers. -/
def pollForegroundProcess (app : App) (alive : Bool) : App :=
  if 0 < app.foregroundPid then
    if alive then app else { app with foregroundPid := -1 }.processExited
  else if 0 < app.backgroundPid then
    if alive then app else { app with backgroundPid := -1 }.processExited
  else app

def scrollUp (app : App) : App :=
  { app with scrollOffset := min app.maxScroll (app.scrollOffset + 2), viewDirty := true }

def scrollDown (app : App) : App :=
  { app with scrollOffset := app.scrollOffset - 2, viewDirty := true }

def updateView (app : App) : App :=
  { app with scrollOffset := min app.scrollOffset app.maxScroll, viewDirty := false }

end App

/-! ## Keys -/

def scEsc : UInt8 := 0x01
def scBackspace : UInt8 := 0x0E
def scTab : UInt8 := 0x0F
def scEnter : UInt8 := 0x1C
def scCapsLock : UInt8 := 0x3A
def scF11 : UInt8 := 0x57
def scF12 : UInt8 := 0x58

/-- The codes that have a character; those behind them have none. -/
def kNormalMap : List UInt8 :=
  [0, 0, 0x31, 0x32, 0x33, 0x34, 0x35, 0x36, 0x37, 0x38, 0x39, 0x30, 0x2D, 0x3D, 0, 0,
   0x71, 0x77, 0x65, 0x72, 0x74, 0x79, 0x75, 0x69, 0x6F, 0x70, 0x5B, 0x5D, 0x0A, 0, 0x61, 0x73,
   0x64, 0x66, 0x67, 0x68, 0x6A, 0x6B, 0x6C, 0x3B, 0x27, 0x60, 0, 0x5C, 0x7A, 0x78, 0x63, 0x76,
   0x62, 0x6E, 0x6D, 0x2C, 0x2E, 0x2F, 0, 0x2A, 0, 0x20, 0, 0, 0]

def kShiftMap : List UInt8 :=
  [0, 0, 0x21, 0x40, 0x23, 0x24, 0x25, 0x5E, 0x26, 0x2A, 0x28, 0x29, 0x5F, 0x2B, 0, 0,
   0x51, 0x57, 0x45, 0x52, 0x54, 0x59, 0x55, 0x49, 0x4F, 0x50, 0x7B, 0x7D, 0x0A, 0, 0x41, 0x53,
   0x44, 0x46, 0x47, 0x48, 0x4A, 0x4B, 0x4C, 0x3A, 0x22, 0x7E, 0, 0x7C, 0x5A, 0x58, 0x43, 0x56,
   0x42, 0x4E, 0x4D, 0x3C, 0x3E, 0x3F, 0, 0x2A, 0, 0x20, 0, 0, 0]

def isAlpha (c : UInt8) : Bool := (0x61 ≤ c && c ≤ 0x7A) || (0x41 ≤ c && c ≤ 0x5A)
def toUpper (c : UInt8) : UInt8 := if 0x61 ≤ c ∧ c ≤ 0x7A then c - 32 else c
def isPrintable (c : UInt8) : Bool := 32 ≤ c && c ≤ 126

def translateScancode (capsLock : Bool) (scancode : UInt8) (shiftPressed : Bool) : UInt8 :=
  if 128 ≤ scancode then 0
  else
    let base := kNormalMap.getD scancode.toNat 0
    if isAlpha base then
      if (shiftPressed && !capsLock) || (!shiftPressed && capsLock) then toUpper base else base
    else if shiftPressed then kShiftMap.getD scancode.toNat 0
    else base

/-- What the system is asked for: to end the process, to run a command, or to give a character to the
program in the foreground. -/
inductive Request where
  | exitGroup
  | executeCommand (cmd : List UInt8)
  | stdinPush (c : UInt8)
  deriving DecidableEq

/-- What `syscall_is_process_alive` answers, and, for a character that is given to a program,
`syscall_stdin_push` and `syscall_is_process_alive` after it. -/
structure Answers where
  alive : Bool
  pushed : Bool
  aliveThen : Bool

namespace App

/-- The command that Enter reads from the line. -/
def enteredCommand (app : App) : List UInt8 :=
  (app.terminal.current.drop app.inputStartColumn).take maxCols

/-- A key for the program in the foreground. -/
def forwardScancode (app : App) (a : Answers) (sc : UInt8) (shiftPressed : Bool) :
    App × Option Request :=
  let (app, forwarded) :=
    if sc = scF11 then (app.scrollUp, 0)
    else if sc = scF12 then (app.scrollDown, 0)
    else if sc = scEnter then (app, 0x0A)
    else if sc = scBackspace then (app, 0x08)
    else if sc = scTab then (app, 0x09)
    else if sc = scCapsLock then ({ app with capsLock := !app.capsLock }, 0)
    else
      let c := translateScancode app.capsLock sc shiftPressed
      (app, if isPrintable c then c else 0)
  let (app, request) :=
    if forwarded ≠ 0 then
      (if a.pushed then app else app.pollForegroundProcess a.aliveThen,
        some (.stdinPush forwarded))
    else (app, none)
  (if app.viewDirty then app.updateView else app, request)

/-- A key at the prompt. `ExecuteCommand` goes on from the app that Enter leaves. -/
def promptScancode (app : App) (sc : UInt8) (shiftPressed : Bool) : App × Option Request :=
  let (app, request) :=
    if sc = scEsc then (app, some .exitGroup)
    else if sc = scCapsLock then ({ app with capsLock := !app.capsLock }, none)
    else if sc = scBackspace then
      ({ app with terminal := app.terminal.backspace app.inputStartColumn, scrollOffset := 0 }, none)
    else if sc = scEnter then
      ({ app with terminal := app.terminal.newLine },
        some (.executeCommand app.enteredCommand))
    else if sc = scF11 then (app.scrollUp, none)
    else if sc = scF12 then (app.scrollDown, none)
    else
      let c := translateScancode app.capsLock sc shiftPressed
      (if isPrintable c then
        { app with terminal := app.terminal.appendChar c visibleCols, scrollOffset := 0 }
      else app, none)
  ({ app with scrollOffset := min app.scrollOffset app.maxScroll, viewDirty := true }, request)

def handleScancode (app : App) (a : Answers) (sc : UInt8) (shiftPressed : Bool) :
    App × Option Request :=
  let app := app.pollForegroundProcess a.alive
  if 0 < app.foregroundPid then app.forwardScancode a sc shiftPressed
  else app.promptScancode sc shiftPressed

end App

/-! ## What is asked -/

/-- A key other than Esc and Enter. -/
structure Press where
  answers : Answers
  sc : UInt8
  shiftPressed : Bool
  ne_esc : sc ≠ scEsc
  ne_enter : sc ≠ scEnter

def App.press (app : App) (p : Press) : App := (app.handleScancode p.answers p.sc p.shiftPressed).1

/-- The input since the last prompt, the Caps Lock, and whether a program runs in the background. -/
structure Typing where
  text : List UInt8
  capsLock : Bool
  background : Bool

namespace Typing

/-- The end of the program in the background brings a new prompt. -/
def poll (t : Typing) (alive : Bool) : Typing :=
  if t.background && !alive then { t with text := [], background := false } else t

/-- The input after one key: a character is added, and Backspace takes the last one away. -/
def key (t : Typing) (sc : UInt8) (shiftPressed : Bool) : Typing :=
  if sc = scCapsLock then { t with capsLock := !t.capsLock }
  else if sc = scBackspace then { t with text := t.text.dropLast }
  else if sc = scF11 ∨ sc = scF12 then t
  else
    let c := translateScancode t.capsLock sc shiftPressed
    if isPrintable c then { t with text := t.text ++ [c] } else t

def press (t : Typing) (p : Press) : Typing := (t.poll p.answers.alive).key p.sc p.shiftPressed

end Typing

/-- What has been typed when a prompt is shown. -/
def App.typing (app : App) : Typing := ⟨[], app.capsLock, decide (0 < app.backgroundPid)⟩

/-- The last line of a text that is wrapped. -/
def lastLine (text : List UInt8) : List UInt8 :=
  text.drop ((text.length - 1) / visibleCols * visibleCols)

/-- The line on which the input begins. -/
def promptLine (currentPath : List UInt8) : List UInt8 := lastLine (currentPath ++ promptMark)

/-- The input is on the line of the prompt. -/
def OnLine (currentPath : List UInt8) (t : Typing) : Prop :=
  (promptLine currentPath).length + t.text.length ≤ visibleCols

/-! ## Lines -/

theorem visibleCols_eq : visibleCols = 110 := by decide

theorem putChar_current {b : TerminalBuffer} (h : b.current.length < maxCols) (c : UInt8) :
    (b.putChar c).current = b.current ++ [c] := by
  rw [TerminalBuffer.putChar, dif_pos h]
  rfl

theorem appendChar_current (b : TerminalBuffer) (c : UInt8) :
    (b.appendChar c visibleCols).current =
      if visibleCols ≤ b.current.length then [c] else b.current ++ [c] := by
  have hmin : min maxCols visibleCols = visibleCols := by decide
  unfold TerminalBuffer.appendChar
  rw [hmin]
  by_cases hfull : visibleCols ≤ b.current.length
  · rw [if_pos hfull, if_pos hfull]
    exact putChar_current (b := b.newLine) (Nat.zero_lt_succ _) c
  · rw [if_neg hfull, if_neg hfull]
    rw [visibleCols_eq] at hfull
    have hroom : b.current.length < maxCols := by
      unfold maxCols
      omega
    exact putChar_current hroom c

theorem lastLine_concat (text : List UInt8) (c : UInt8) : lastLine (text ++ [c]) =
    if visibleCols ≤ (lastLine text).length then [c] else lastLine text ++ [c] := by
  unfold lastLine
  rw [visibleCols_eq, List.length_append, List.length_singleton, List.length_drop]
  split
  case isTrue hfull =>
    have hstart : (text.length + 1 - 1) / 110 * 110 = text.length := by omega
    rw [hstart, List.drop_left]
  case isFalse hroom =>
    have hstart : (text.length + 1 - 1) / 110 * 110 = (text.length - 1) / 110 * 110 := by omega
    rw [hstart, List.drop_append_of_le_length (by omega)]

/-- A text ends on its last line. -/
theorem appendText_current {b : TerminalBuffer} (hb : b.current = []) (text : List UInt8) :
    (b.appendText text visibleCols).current = lastLine text := by
  induction text using List.reverseRecOn with
  | nil => exact hb
  | append_singleton text c ih =>
    have hfold : b.appendText (text ++ [c]) visibleCols =
        (b.appendText text visibleCols).appendChar c visibleCols := List.foldl_append
    rw [hfold, appendChar_current, ih, lastLine_concat]

theorem appendText_append (b : TerminalBuffer) (text text' : List UInt8) (wrapCols : Nat) :
    (b.appendText text wrapCols).appendText text' wrapCols = b.appendText (text ++ text') wrapCols :=
  List.foldl_append.symm

/-! ## The prompt -/

/-- The screen and the app show the input that has been typed. -/
structure Holds (currentPath : List UInt8) (app : App) (t : Typing) : Prop where
  path : app.currentPath = currentPath
  current : app.terminal.current = promptLine currentPath ++ t.text
  column : app.inputStartColumn = (promptLine currentPath).length
  capsLock : app.capsLock = t.capsLock
  foreground : app.foregroundPid ≤ 0
  background : t.background = decide (0 < app.backgroundPid)

theorem pushPrompt_current (app : App) :
    app.pushPrompt.terminal.current = promptLine app.currentPath := by
  unfold App.pushPrompt
  dsimp only
  rw [appendText_append]
  split
  · exact appendText_current rfl _
  · rename_i hlen
    exact appendText_current (List.length_eq_zero_iff.mp (not_not.mp hlen)) _

theorem pushPrompt_inputStartColumn (app : App) :
    app.pushPrompt.inputStartColumn = app.pushPrompt.terminal.current.length := rfl

theorem pushPrompt_holds (app : App) (hfg : app.foregroundPid ≤ 0) :
    Holds app.currentPath app.pushPrompt app.typing where
  path := rfl
  current := by rw [pushPrompt_current, App.typing, List.append_nil]
  column := by rw [pushPrompt_inputStartColumn, pushPrompt_current]
  capsLock := rfl
  foreground := hfg
  background := rfl

variable {currentPath : List UInt8} {app : App} {t : Typing}

theorem processExited_holds (app : App) (hfg : app.foregroundPid ≤ 0) :
    Holds app.currentPath app.processExited app.typing :=
  have h := pushPrompt_holds (app.printLine (ascii "[process exited]")) hfg
  { path := h.path
    current := h.current
    column := h.column
    capsLock := h.capsLock
    foreground := h.foreground
    background := h.background }

/-- The end of a process leaves a prompt. -/
theorem poll_holds (h : Holds currentPath app t) (alive : Bool) :
    Holds currentPath (app.pollForegroundProcess alive) (t.poll alive) := by
  obtain rfl := h.path
  unfold App.pollForegroundProcess Typing.poll
  rw [if_neg (Int.not_lt.mpr h.foreground), h.background]
  by_cases hbg : 0 < app.backgroundPid
  · rw [if_pos hbg, decide_eq_true hbg, Bool.true_and]
    cases alive with
    | true => exact h
    | false =>
      rw [if_neg Bool.false_ne_true, if_pos Bool.not_false, ← h.capsLock]
      exact processExited_holds { app with backgroundPid := -1 } h.foreground
  · rw [if_neg hbg, decide_eq_false hbg]
    exact h

/-! ## One key -/

theorem backspace_current (b : TerminalBuffer) (protectColumns : Nat) :
    (b.backspace protectColumns).current =
      if protectColumns < b.current.length then b.current.dropLast else b.current := by
  unfold TerminalBuffer.backspace
  split <;> rfl

/-- Backspace takes nothing from the lines above, and nothing from in front of the input. -/
theorem backspace_keeps (b : TerminalBuffer) (protectColumns : Nat) :
    (b.backspace protectColumns).older = b.older ∧
      (b.backspace protectColumns).current.take protectColumns =
        b.current.take protectColumns := by
  refine ⟨?_, ?_⟩
  · unfold TerminalBuffer.backspace
    split <;> rfl
  · rw [backspace_current]
    split
    · rw [List.dropLast_eq_take, List.take_take, min_eq_left (by omega)]
    · rfl

/-- A key at the prompt does to the screen what it does to the input. -/
theorem key_holds (h : Holds currentPath app t) {sc : UInt8} (hesc : sc ≠ scEsc)
    (henter : sc ≠ scEnter) (shiftPressed : Bool)
    (hline : OnLine currentPath (t.key sc shiftPressed)) :
    Holds currentPath (app.promptScancode sc shiftPressed).1 (t.key sc shiftPressed) := by
  unfold App.promptScancode Typing.key at *
  rw [if_neg hesc, if_neg henter]
  by_cases hcaps : sc = scCapsLock
  · rw [if_pos hcaps, if_pos hcaps]
    exact { h with capsLock := congrArg (!·) h.capsLock }
  rw [if_neg hcaps] at hline ⊢
  rw [if_neg hcaps]
  by_cases hback : sc = scBackspace
  · rw [if_pos hback, if_pos hback]
    refine { h with current := ?_ }
    dsimp only
    rw [backspace_current, h.current, h.column, List.length_append]
    cases htext : t.text with
    | nil => simp
    | cons c text =>
      rw [if_pos (by simp), List.dropLast_append_of_ne_nil (List.cons_ne_nil c text)]
  rw [if_neg hback] at hline ⊢
  rw [if_neg hback]
  by_cases hf11 : sc = scF11
  · rw [if_pos hf11, if_pos (Or.inl hf11)]
    exact { h with }
  rw [if_neg hf11]
  by_cases hf12 : sc = scF12
  · rw [if_pos hf12, if_pos (Or.inr hf12)]
    exact { h with }
  rw [if_neg (not_or.mpr ⟨hf11, hf12⟩)] at hline ⊢
  rw [if_neg hf12, ← h.capsLock]
  rw [← h.capsLock] at hline
  dsimp only at hline ⊢
  by_cases hprint : isPrintable (translateScancode app.capsLock sc shiftPressed) = true
  · rw [if_pos hprint] at hline ⊢
    rw [if_pos hprint]
    refine { h with current := ?_, capsLock := rfl }
    unfold OnLine at hline
    rw [List.length_append, List.length_singleton] at hline
    dsimp only
    rw [appendChar_current, h.current, List.length_append, if_neg (by omega), List.append_assoc]
  · rw [if_neg hprint, if_neg hprint]
    exact { h with }

/-! ## Runs -/

theorem handleScancode_prompt (h : Holds currentPath app t) (a : Answers) (sc : UInt8)
    (shiftPressed : Bool) : app.handleScancode a sc shiftPressed =
      (app.pollForegroundProcess a.alive).promptScancode sc shiftPressed :=
  if_neg (Int.not_lt.mpr (poll_holds h a.alive).foreground)

theorem press_holds (h : Holds currentPath app t) (p : Press)
    (hline : OnLine currentPath (t.press p)) :
    Holds currentPath (app.press p) (t.press p) := by
  unfold App.press
  rw [handleScancode_prompt h]
  exact key_holds (poll_holds h p.answers.alive) p.ne_esc p.ne_enter p.shiftPressed hline

theorem run_holds (h : Holds currentPath app t) (ps : List Press)
    (hline : Along Typing.press (fun t p => OnLine currentPath (t.press p)) t ps) :
    Holds currentPath (run App.press app ps) (run Typing.press t ps) := by
  induction ps generalizing app t with
  | nil => exact h
  | cons p ps ih => exact ih (press_holds h p hline.1) hline.2

/-- The line holds what is read from it on Enter. -/
theorem enteredCommand_eq (h : Holds currentPath app t) : app.enteredCommand = t.text := by
  have hcols := app.terminal.cols _ List.mem_cons_self
  rw [h.current, List.length_append] at hcols
  unfold App.enteredCommand
  rw [h.current, h.column, List.drop_left]
  exact List.take_of_length_le (by omega)

/-- In a run of keys from a prompt in which no character wraps the line of the prompt, the prompt stays
whole, and Enter gives the command that has been typed. -/
theorem command_typed (app : App) (hfg : app.foregroundPid ≤ 0) (ps : List Press)
    (hline : Along Typing.press (fun t p => OnLine app.currentPath (t.press p)) app.typing ps)
    (a : Answers) (shiftPressed : Bool) :
    (run App.press app.pushPrompt ps).terminal.current =
        promptLine app.currentPath ++ (run Typing.press app.typing ps).text ∧
      (∃ text, ((run App.press app.pushPrompt ps).terminal.backspace
          (run App.press app.pushPrompt ps).inputStartColumn).current =
        promptLine app.currentPath ++ text) ∧
      ((run App.press app.pushPrompt ps).terminal.backspace
          (run App.press app.pushPrompt ps).inputStartColumn).older =
        (run App.press app.pushPrompt ps).terminal.older ∧
      ((run App.press app.pushPrompt ps).handleScancode a scEnter shiftPressed).2 =
        some (.executeCommand ((run Typing.press app.typing ps).poll a.alive).text) := by
  have h := run_holds (pushPrompt_holds app hfg) ps hline
  have hkeeps := backspace_keeps (run App.press app.pushPrompt ps).terminal
    (run App.press app.pushPrompt ps).inputStartColumn
  refine ⟨h.current, ?_, hkeeps.1, ?_⟩
  · have htake := hkeeps.2
    rw [h.current, h.column, List.take_left] at htake
    rw [h.column]
    exact ⟨_, (List.take_append_drop _ _).symm.trans (congrArg (· ++ _) htake)⟩
  · rw [handleScancode_prompt h, ← enteredCommand_eq (poll_holds h a.alive)]
    rfl

/-- The app when it starts: an empty screen and the root. -/
def App.start : App where
  terminal := ⟨[], [], by decide, by decide⟩
  scrollOffset := 0
  capsLock := false
  inputStartColumn := 0
  viewDirty := true
  foregroundPid := -1
  backgroundPid := -1
  currentPath := [slash]

/-- The key `a`. -/
def pressA : Press := ⟨⟨true, true, true⟩, 0x1E, false, by decide, by decide⟩

/-- From the start, `a` and Enter. -/
theorem command_a : ((run App.press App.start.pushPrompt [pressA]).handleScancode
    ⟨true, true, true⟩ scEnter false).2 = some (.executeCommand [0x61]) :=
  (command_typed App.start (by decide) [pressA] ⟨by unfold OnLine; decide, trivial⟩ _ _).2.2.2

/-- The last of 107 characters wraps the line, and nothing is left of the command. -/
theorem command_lost :
    (run Typing.press App.start.typing (List.replicate 107 pressA)).text.length = 107 ∧
      ((run App.press App.start.pushPrompt (List.replicate 107 pressA)).handleScancode
        ⟨true, true, true⟩ scEnter false).2 = some (.executeCommand []) := by
  decide +kernel

end Terminal
end Hashx86
