import Hashx86.Lib.Ring
import Hashx86.Lib.Run

/-!
# The keyboard (`core/drivers/keyboard.cpp`)

`handleInterrupt` is `KeyboardDriver::HandleInterrupt`: one byte of a scancode. The static variables
of the function and the globals of the modifier keys are fields of the driver.

* `queueInputChar_queue`: the queue keeps the last characters that fit.
* `keyChar_eq`: the two tables of the driver are a keyboard layout.
* `handle_press`, …: what one code does to the driver.
* `follows_iff`: along a stream of codes the driver follows the keys, exactly while Caps Lock does
  not repeat: each repeated code of it toggles the lock again.
-/

namespace Hashx86
namespace Keyboard

open Lib

/-- The calls of the event handler. -/
inductive Report where
  | specialDown (key : Nat)
  | specialUp (key : Nat)
  | keyDown (c : Char)
  deriving DecidableEq

def inputQueueSize : Nat := 256

/-- `KeyboardDriver`; `eventHandler` says that there is one, and a key state that it is not zero. The
characters given to the queue so far are `queued`. -/
structure Driver where
  eventHandler : Bool
  isExtendedScancode : Bool
  keyStatesNormal : Nat → Bool
  keyStatesExt : Nat → Bool
  keyStates : Nat → Bool
  leftShiftPressed : Bool
  rightShiftPressed : Bool
  leftCtrlPressed : Bool
  rightCtrlPressed : Bool
  leftAltPressed : Bool
  rightAltPressed : Bool
  capsLockActive : Bool
  inputQueue : Nat → Char
  inputHead : Nat
  inputTail : Nat
  queued : List Char

def Driver.new (eventHandler : Bool) : Driver where
  eventHandler := eventHandler
  isExtendedScancode := false
  keyStatesNormal := fun _ => false
  keyStatesExt := fun _ => false
  keyStates := fun _ => false
  leftShiftPressed := false
  rightShiftPressed := false
  leftCtrlPressed := false
  rightCtrlPressed := false
  leftAltPressed := false
  rightAltPressed := false
  capsLockActive := false
  inputQueue := fun _ => '\x00'
  inputHead := 0
  inputTail := 0
  queued := []

/-! ## The queue -/

/-- `QueueInputChar` -/
def Driver.queueInputChar (d : Driver) (c : Char) : Driver :=
  let nextHead := (d.inputHead + 1) % inputQueueSize
  { d with
    inputTail := if nextHead = d.inputTail then (d.inputTail + 1) % inputQueueSize else d.inputTail
    inputQueue := Function.update d.inputQueue d.inputHead c
    inputHead := nextHead
    queued := d.queued ++ [c] }

/-- The number of the characters in the queue. -/
def Driver.count (d : Driver) : Nat :=
  (d.inputHead + inputQueueSize - d.inputTail) % inputQueueSize

/-- The characters in the queue. -/
def Driver.queue (d : Driver) : List Char := window inputQueueSize d.inputQueue d.inputTail d.count

/-! ## The driver -/

def normalKeyMap : List Char :=
  ("\x00\x001234567890-=\x00" ++
    "\x00qwertyuiop[]\n\x00" ++
    "asdfghjkl;'`\x00\\" ++
    "zxcvbnm,./\x00*\x00 ").toList

def shiftKeyMap : List Char :=
  ("\x00\x00!@#$%^&*()_+\x00" ++
    "\x00QWERTYUIOP\x7b\x7d\n\x00" ++
    "ASDFGHJKL:\"~\x00|" ++
    "ZXCVBNM<>?\x00*\x00 ").toList

/-- The entry of a map, which is 0 behind the rows. -/
def mapped (keyMap : List Char) (key : Nat) : Char := keyMap.getD key '\x00'

/-- The character of a key that is not special; 0 for none. -/
def character (shiftPressed capsLockActive : Bool) (key : Nat) : Char :=
  if 'a' ≤ mapped normalKeyMap key ∧ mapped normalKeyMap key ≤ 'z' then
    if shiftPressed ^^ capsLockActive then mapped shiftKeyMap key else mapped normalKeyMap key
  else if shiftPressed then mapped shiftKeyMap key
  else mapped normalKeyMap key

/-- The keys of the `switch` on a pressed key that have no character. -/
def specialKeys : List Nat :=
  [0x2A, 0x36, 0x1D, 0x38, 0x3A, 0x01, 0x3B, 0x3C, 0x3D, 0x3E, 0x3F, 0x40, 0x41, 0x42, 0x43, 0x44,
    0x57, 0x58]

/-- The keys whose release is reported. -/
def specialUpKeys : List Nat :=
  [0x9C, 0xAA, 0xB6, 0x9D, 0xB8, 0x8F, 0x8E, 0x81, 0xBB, 0xBC, 0xBD, 0xBE, 0xBF, 0xC0, 0xC1, 0xC2,
    0xC3, 0xC4, 0xD7, 0xD8]

/-- The extended keys that are reported. -/
def extendedKeys : List Nat := [0x1D, 0x38, 0x48, 0x50, 0x4B, 0x4D, 0x53]
def extendedUpKeys : List Nat := [0x9D, 0xB8, 0xC8, 0xD0, 0xCB, 0xCD, 0xD3]

/-- The state of a key of the first table. -/
def Driver.setNormal (d : Driver) (key : Nat) (down : Bool) : Driver :=
  { d with
    keyStatesNormal := Function.update d.keyStatesNormal key down
    keyStates := Function.update d.keyStates key (down || d.keyStatesExt key) }

/-- The state of a key of the extended table. -/
def Driver.setExt (d : Driver) (key : Nat) (down : Bool) : Driver :=
  { d with
    keyStatesExt := Function.update d.keyStatesExt key down
    keyStates := Function.update d.keyStates key (d.keyStatesNormal key || down) }

/-- The modifier keys after an extended key. -/
def Driver.extendedModifier (d : Driver) (key : Nat) : Driver :=
  { d with
    rightCtrlPressed := if key = 0x1D then true else if key = 0x9D then false else d.rightCtrlPressed
    rightAltPressed := if key = 0x38 then true else if key = 0xB8 then false else d.rightAltPressed }

/-- A byte after the prefix. -/
def Driver.extended (d : Driver) (key : Nat) : Driver × List Report :=
  let d := if key < 0x80 then d.setExt key true else d.setExt (key &&& 0x7F) false
  (d.extendedModifier key, if !d.eventHandler then []
    else if key ∈ extendedKeys then [.specialDown key]
    else if key ∈ extendedUpKeys then [.specialUp key]
    else [])

/-- The `switch` on a pressed key. -/
def Driver.dispatch (d : Driver) (key : Nat) : Driver × List Report :=
  if key = 0x1C then (d.queueInputChar '\n', [.specialDown key])
  else if key = 0x0F then (d.queueInputChar '\t', [.specialDown key])
  else if key = 0x0E then (d.queueInputChar '\x08', [.specialDown key])
  else if key ∈ specialKeys then (d, [.specialDown key])
  else
    let c := character (d.leftShiftPressed || d.rightShiftPressed) d.capsLockActive key
    if c ≠ '\x00' then (d.queueInputChar c, [.keyDown c]) else (d, [])

/-- The modifier keys after a pressed key. -/
def Driver.pressModifier (d : Driver) (key : Nat) : Driver :=
  { d with
    leftShiftPressed := if key = 0x2A then true else d.leftShiftPressed
    rightShiftPressed := if key = 0x36 then true else d.rightShiftPressed
    leftCtrlPressed := if key = 0x1D then true else d.leftCtrlPressed
    leftAltPressed := if key = 0x38 then true else d.leftAltPressed
    capsLockActive := if key = 0x3A then !d.capsLockActive else d.capsLockActive }

/-- A pressed key. -/
def Driver.press (d : Driver) (key : Nat) : Driver × List Report :=
  let d := (d.setNormal key true).pressModifier key
  if !d.eventHandler then (d, []) else d.dispatch key

/-- The modifier keys after a released key. -/
def Driver.releaseModifier (d : Driver) (key : Nat) : Driver :=
  { d with
    leftShiftPressed := if key = 0xAA then false else d.leftShiftPressed
    rightShiftPressed := if key = 0xB6 then false else d.rightShiftPressed
    leftCtrlPressed := if key = 0x9D then false else d.leftCtrlPressed
    leftAltPressed := if key = 0xB8 then false else d.leftAltPressed }

/-- A released key. -/
def Driver.release (d : Driver) (key : Nat) : Driver × List Report :=
  let d := (d.setNormal (key &&& 0x7F) false).releaseModifier key
  (d, if !d.eventHandler then [] else if key ∈ specialUpKeys then [.specialUp key] else [])

/-- One byte from the keyboard. -/
def handleInterrupt (d : Driver) (key : Nat) : Driver × List Report :=
  if key = 0xE0 then ({ d with isExtendedScancode := true }, [])
  else if d.isExtendedScancode then { d with isExtendedScancode := false }.extended key
  else if key < 0x80 then d.press key
  else d.release key

/-- Bytes one after the other, and all that is reported. -/
def handle (d : Driver) : List Nat → Driver × List Report
  | [] => (d, [])
  | key :: keys => ((handle (handleInterrupt d key).1 keys).1,
      (handleInterrupt d key).2 ++ (handle (handleInterrupt d key).1 keys).2)

/-! ## Keys and codes -/

/-- A scancode: a key goes down (again, if it is held) or up. The code of a released key 0x60 would
be the prefix. -/
structure Code where
  extended : Bool
  key : Nat
  up : Bool
  lt : key < 0x80
  noPrefix : up = true → key ≠ 0x60

def Code.bytes (c : Code) : List Nat :=
  (if c.extended then [0xE0] else []) ++ [if c.up then c.key + 0x80 else c.key]

/-- The rows of the keys with a character: the first key, the characters, and those with Shift. -/
def rows : List (Nat × String × String) :=
  [(0x02, "1234567890-=", "!@#$%^&*()_+"), (0x10, "qwertyuiop[]", "QWERTYUIOP\x7b\x7d"),
    (0x1E, "asdfghjkl;'`", "ASDFGHJKL:\"~"), (0x2B, "\\zxcvbnm,./", "|ZXCVBNM<>?"),
    (0x37, "*", "*"), (0x39, " ", " ")]

/-- The character of a key: Shift xor Caps Lock for the letters, Shift for the others. -/
def layout (shift caps : Bool) (key : Nat) : Option Char :=
  if key = 0x1C then some '\n'
  else if key = 0x0F then some '\t'
  else if key = 0x0E then some '\x08'
  else
    (rows.findSome? fun (first, plain, shifted) =>
      if first ≤ key then (plain.toList.zip shifted.toList)[key - first]? else none).map
        fun (plain, shifted) =>
          if (if plain.isLower then shift ^^ caps else shift) then shifted else plain

/-- What the person at the keyboard does: the keys that are held, a Caps Lock that each press of its
key toggles, and the characters of the keys that were pressed or repeated. -/
structure Keys where
  held : Bool × Nat → Bool
  caps : Bool
  typed : List Char

def Keys.new : Keys := ⟨fun _ => false, false, []⟩

def Keys.shift (s : Keys) : Bool := s.held (false, 0x2A) || s.held (false, 0x36)

def Keys.code (s : Keys) (c : Code) : Keys where
  held := Function.update s.held (c.extended, c.key) !c.up
  caps := if c.extended = false ∧ c.key = 0x3A ∧ c.up = false ∧ s.held (false, 0x3A) = false
    then !s.caps else s.caps
  typed := s.typed ++
    if c.extended || c.up then [] else (layout s.shift s.caps c.key).toList

/-- The driver follows the keys. -/
structure Follows (d : Driver) (s : Keys) : Prop where
  keyStates : ∀ k < 0x80, d.keyStates k = (s.held (false, k) || s.held (true, k))
  leftShift : d.leftShiftPressed = s.held (false, 0x2A)
  rightShift : d.rightShiftPressed = s.held (false, 0x36)
  leftCtrl : d.leftCtrlPressed = s.held (false, 0x1D)
  rightCtrl : d.rightCtrlPressed = s.held (true, 0x1D)
  leftAlt : d.leftAltPressed = s.held (false, 0x38)
  rightAlt : d.rightAltPressed = s.held (true, 0x38)
  caps : d.capsLockActive = s.caps
  queued : d.queued = s.typed
  queue : d.queue = s.typed.drop (s.typed.length - (inputQueueSize - 1))

/-- Caps Lock repeats in this code. -/
def CapsRepeat (s : Keys) (c : Code) : Prop :=
  c.extended = false ∧ c.key = 0x3A ∧ c.up = false ∧ s.held (false, 0x3A) = true

/-! ## The tables -/

/-- The character that the driver queues for a pressed key. -/
def keyChar (shiftPressed capsLockActive : Bool) (key : Nat) : Option Char :=
  if key = 0x1C then some '\n'
  else if key = 0x0F then some '\t'
  else if key = 0x0E then some '\x08'
  else if key ∈ specialKeys then none
  else
    let c := character shiftPressed capsLockActive key
    if c ≠ '\x00' then some c else none

theorem keyChar_eq (shift caps : Bool) {key : Nat} (h : key < 0x80) :
    keyChar shift caps key = layout shift caps key := by
  have hall : ∀ (shift caps : Bool) (key : Fin 0x80),
      keyChar shift caps key = layout shift caps key := by decide +kernel
  exact hall shift caps ⟨key, h⟩

/-! ## The queue keeps the last characters -/

/-- The head and the tail are indices of the queue. -/
structure Driver.Indexed (d : Driver) : Prop where
  head : d.inputHead < inputQueueSize
  tail : d.inputTail < inputQueueSize

theorem Driver.Indexed.queueInputChar {d : Driver} (h : d.Indexed) (c : Char) :
    (d.queueInputChar c).Indexed := by
  refine ⟨Nat.mod_lt _ (by decide), ?_⟩
  unfold Driver.queueInputChar
  dsimp only
  split
  · exact Nat.mod_lt _ (by decide)
  · exact h.tail

/-- The queue as a ring. -/
def Driver.ring (d : Driver) : RingQueue Char := ⟨d.inputQueue, d.inputHead, d.inputTail⟩

theorem Driver.Indexed.ring {d : Driver} (h : d.Indexed) : d.ring.Indexed inputQueueSize :=
  ⟨h.head, h.tail⟩

theorem queue_eq (d : Driver) : d.queue = d.ring.list inputQueueSize := rfl

/-- The queue has the last characters of all that were given to it. -/
theorem queue_last {d : Driver} (h : d.Indexed) {cs : List Char}
    (hq : d.queue = cs.drop (cs.length - (inputQueueSize - 1))) (c : Char) :
    (d.queueInputChar c).queue =
      (cs ++ [c]).drop ((cs ++ [c]).length - (inputQueueSize - 1)) := by
  have hkept : d.ring.list inputQueueSize = keepLast (inputQueueSize - 1) cs := hq
  calc (d.queueInputChar c).queue
      = (d.ring.push inputQueueSize c).list inputQueueSize := rfl
    _ = keepLast (inputQueueSize - 1) (d.ring.list inputQueueSize ++ [c]) :=
        RingQueue.list_push h.ring c
    _ = keepLast (inputQueueSize - 1) (cs ++ [c]) := by rw [hkept, keepLast_append]

/-! ## One code -/

/-- The driver between two codes. -/
structure Inv (d : Driver) (s : Keys) : Prop where
  handler : d.eventHandler = true
  noPrefix : d.isExtendedScancode = false
  normal : ∀ k, d.keyStatesNormal k = s.held (false, k)
  ext : ∀ k, d.keyStatesExt k = s.held (true, k)
  indexed : d.Indexed
  follows : Follows d s

theorem handle_extended {d : Driver} (hp : d.isExtendedScancode = false) {b : Nat} (hb : b ≠ 0xE0) :
    (handle d [0xE0, b]).1 = (d.extended b).1 := by
  have hd : { d with isExtendedScancode := false } = d := by rw [← hp]
  have h1 : handleInterrupt d 0xE0 = ({ d with isExtendedScancode := true }, []) := if_pos rfl
  have h2 : handleInterrupt { d with isExtendedScancode := true } b =
      { d with isExtendedScancode := false }.extended b := by
    rw [handleInterrupt, if_neg hb]
    rfl
  rw [handle, handle, handle, h1, h2, hd]

theorem handle_normal {d : Driver} (hp : d.isExtendedScancode = false) {b : Nat} (hb : b ≠ 0xE0) :
    (handle d [b]).1 = if b < 0x80 then (d.press b).1 else (d.release b).1 := by
  rw [handle, handle, handleInterrupt, if_neg hb, hp, if_neg Bool.false_ne_true]
  split <;> rfl

/-- The byte of a released key without its high bit. -/
theorem released_key {key : Nat} (h : key < 0x80) : (key + 0x80) &&& 0x7F = key := by
  rw [show (0x7F : Nat) = 2 ^ 7 - 1 from rfl, Nat.and_two_pow_sub_one_eq_mod]
  omega

theorem dispatch_eq (d : Driver) (key : Nat) :
    (d.dispatch key).1 =
      match keyChar (d.leftShiftPressed || d.rightShiftPressed) d.capsLockActive key with
      | some c => d.queueInputChar c
      | none => d := by
  unfold Driver.dispatch keyChar
  dsimp only
  split_ifs <;> rfl

/-- The keys that are held after a code. -/
theorem held_code (s : Keys) (c : Code) (e : Bool) (k : Nat) :
    (s.code c).held (e, k) = if e = c.extended ∧ k = c.key then !c.up else s.held (e, k) := by
  refine (Function.update_apply s.held (c.extended, c.key) (!c.up) (e, k)).trans ?_
  simp only [Prod.mk.injEq]

section KeyStates

variable {d : Driver} {s : Keys} {c : Code}

/-- The tables of the driver are those of the keys. -/
structure Tables (d : Driver) (s : Keys) : Prop where
  normal : ∀ k, d.keyStatesNormal k = s.held (false, k)
  ext : ∀ k, d.keyStatesExt k = s.held (true, k)
  keyStates : ∀ k < 0x80, d.keyStates k = (s.held (false, k) || s.held (true, k))

theorem Inv.tables (h : Inv d s) : Tables d s := ⟨h.normal, h.ext, h.follows.keyStates⟩

theorem setNormal_tables (h : Tables d s) (he : c.extended = false) :
    Tables (d.setNormal c.key !c.up) (s.code c) := by
  refine ⟨fun k => ?_, fun k => ?_, fun k hk => ?_⟩
  · refine (Function.update_apply _ _ _ k).trans ?_
    rw [held_code, he, h.normal k]
    simp
  · refine (h.ext k).trans ?_
    rw [held_code, he]
    simp
  · refine (Function.update_apply _ _ _ k).trans ?_
    rw [held_code, held_code, he, h.keyStates k hk, h.ext]
    by_cases hkey : k = c.key <;> simp [hkey]

theorem setExt_tables (h : Tables d s) (he : c.extended = true) :
    Tables (d.setExt c.key !c.up) (s.code c) := by
  refine ⟨fun k => ?_, fun k => ?_, fun k hk => ?_⟩
  · refine (h.normal k).trans ?_
    rw [held_code, he]
    simp
  · refine (Function.update_apply _ _ _ k).trans ?_
    rw [held_code, he, h.ext k]
    simp
  · refine (Function.update_apply _ _ _ k).trans ?_
    rw [held_code, held_code, he, h.keyStates k hk, h.normal]
    by_cases hkey : k = c.key <;> simp [hkey]

end KeyStates

/-- The modifier keys of the driver are those that are held. -/
structure Modifiers (d : Driver) (s : Keys) : Prop where
  leftShift : d.leftShiftPressed = s.held (false, 0x2A)
  rightShift : d.rightShiftPressed = s.held (false, 0x36)
  leftCtrl : d.leftCtrlPressed = s.held (false, 0x1D)
  rightCtrl : d.rightCtrlPressed = s.held (true, 0x1D)
  leftAlt : d.leftAltPressed = s.held (false, 0x38)
  rightAlt : d.rightAltPressed = s.held (true, 0x38)

section Modifiers

variable {d : Driver} {s : Keys} {c : Code}

theorem Inv.modifiers (h : Inv d s) : Modifiers d s :=
  ⟨h.follows.leftShift, h.follows.rightShift, h.follows.leftCtrl, h.follows.rightCtrl,
    h.follows.leftAlt, h.follows.rightAlt⟩

theorem held_same {e : Bool} (he : c.extended = e) (k : Nat) :
    (s.code c).held (e, k) = if c.key = k then !c.up else s.held (e, k) := by
  rw [held_code, he]
  simp only [true_and, eq_comm]

theorem held_other {e : Bool} (he : c.extended ≠ e) (k : Nat) :
    (s.code c).held (e, k) = s.held (e, k) := by
  rw [held_code, if_neg fun h => he h.1.symm]

theorem pressModifier_modifiers (h : Modifiers d s) (he : c.extended = false) (hu : c.up = false) :
    Modifiers (d.pressModifier c.key) (s.code c) := by
  have hother : c.extended ≠ true := by simp [he]
  constructor
  · rw [held_same he, ← h.leftShift, hu]
    rfl
  · rw [held_same he, ← h.rightShift, hu]
    rfl
  · rw [held_same he, ← h.leftCtrl, hu]
    rfl
  · exact h.rightCtrl.trans (held_other hother _).symm
  · rw [held_same he, ← h.leftAlt, hu]
    rfl
  · exact h.rightAlt.trans (held_other hother _).symm

theorem releaseModifier_modifiers (h : Modifiers d s) (he : c.extended = false)
    (hu : c.up = true) : Modifiers (d.releaseModifier (c.key + 0x80)) (s.code c) := by
  have hother : c.extended ≠ true := by simp [he]
  have hflag : ∀ (k : Nat) (old : Bool), (if c.key + 0x80 = k + 0x80 then false else old) =
      if c.key = k then !c.up else old := fun k old => by
    rw [hu]
    simp only [Nat.add_right_cancel_iff, Bool.not_true]
  constructor
  · rw [held_same he, ← h.leftShift, ← hflag]
    rfl
  · rw [held_same he, ← h.rightShift, ← hflag]
    rfl
  · rw [held_same he, ← h.leftCtrl, ← hflag]
    rfl
  · exact h.rightCtrl.trans (held_other hother _).symm
  · rw [held_same he, ← h.leftAlt, ← hflag]
    rfl
  · exact h.rightAlt.trans (held_other hother _).symm

theorem extendedModifier_modifiers (h : Modifiers d s) (he : c.extended = true) :
    Modifiers (d.extendedModifier (if c.up then c.key + 0x80 else c.key)) (s.code c) := by
  have hother : c.extended ≠ false := by simp [he]
  have hlt := c.lt
  have hflag : ∀ k < 0x80, ∀ old : Bool,
      (if (if c.up then c.key + 0x80 else c.key) = k then true
        else if (if c.up then c.key + 0x80 else c.key) = k + 0x80 then false else old) =
        if c.key = k then !c.up else old := by
    intro k hk old
    cases c.up with
    | false =>
      by_cases hkey : c.key = k
      · simp [hkey]
      · have hne : ¬ c.key = k + 0x80 := by omega
        simp [hkey, hne]
    | true =>
      have hne : ¬ c.key + 0x80 = k := by omega
      simp [hne]
  constructor
  · exact h.leftShift.trans (held_other hother _).symm
  · exact h.rightShift.trans (held_other hother _).symm
  · exact h.leftCtrl.trans (held_other hother _).symm
  · rw [held_same he, ← h.rightCtrl, ← hflag _ (by decide)]
    rfl
  · exact h.leftAlt.trans (held_other hother _).symm
  · rw [held_same he, ← h.rightAlt, ← hflag _ (by decide)]
    rfl

end Modifiers

/-- The modifiers that a key changes have no part in its own character. -/
theorem keyChar_press {d : Driver} {s : Keys} (hm : Modifiers d s)
    (hc : d.capsLockActive = s.caps) {key : Nat} (hk : key < 0x80) :
    keyChar ((d.pressModifier key).leftShiftPressed || (d.pressModifier key).rightShiftPressed)
      (d.pressModifier key).capsLockActive key = layout s.shift s.caps key := by
  by_cases hmod : key = 0x2A ∨ key = 0x36 ∨ key = 0x3A
  · have hnone : ∀ shift caps, keyChar shift caps key = none := by
      rcases hmod with rfl | rfl | rfl <;> decide
    rw [hnone, ← keyChar_eq _ _ hk, hnone]
  · rw [not_or, not_or] at hmod
    rw [← keyChar_eq _ _ hk]
    unfold Driver.pressModifier Keys.shift
    simp only [if_neg hmod.1, if_neg hmod.2.1, if_neg hmod.2.2, hm.leftShift, hm.rightShift, hc]

/-- What `QueueInputChar` leaves of an invariant that holds but for the character. -/
theorem inv_queued {d : Driver} {held : Bool × Nat → Bool} {caps : Bool} {cs : List Char}
    (h : Inv d ⟨held, caps, cs⟩) (c : Option Char) :
    Inv (match c with | some c => d.queueInputChar c | none => d) ⟨held, caps, cs ++ c.toList⟩ := by
  cases c with
  | none =>
    rw [Option.toList_none, List.append_nil]
    exact h
  | some c =>
    have hf := h.follows
    exact ⟨h.handler, h.noPrefix, h.normal, h.ext, h.indexed.queueInputChar c,
      ⟨hf.keyStates, hf.leftShift, hf.rightShift, hf.leftCtrl, hf.rightCtrl, hf.leftAlt,
        hf.rightAlt, hf.caps, congrArg (· ++ [c]) hf.queued, queue_last h.indexed hf.queue c⟩⟩

/-- The invariant after a code without a character, from its parts. -/
theorem inv_of_parts {d d' : Driver} {s : Keys} (h : Inv d s) {c : Code}
    (hd' : d'.eventHandler = d.eventHandler ∧ d'.isExtendedScancode = d.isExtendedScancode ∧
      d'.inputHead = d.inputHead ∧ d'.inputTail = d.inputTail ∧ d'.inputQueue = d.inputQueue ∧
      d'.queued = d.queued)
    (ht : Tables d' (s.code c)) (hm : Modifiers d' (s.code c))
    (hcaps : d'.capsLockActive = (s.code c).caps) :
    Inv d' { s.code c with typed := s.typed } := by
  obtain ⟨hh, hp, hhead, htail, hcells, hqueued⟩ := hd'
  have hqueue : d'.queue = d.queue := by
    unfold Driver.queue Driver.count
    rw [hhead, htail, hcells]
  exact ⟨hh.trans h.handler, hp.trans h.noPrefix, ht.normal, ht.ext,
    ⟨hhead ▸ h.indexed.head, htail ▸ h.indexed.tail⟩,
    ⟨ht.keyStates, hm.leftShift, hm.rightShift, hm.leftCtrl, hm.rightCtrl, hm.leftAlt, hm.rightAlt,
      hcaps, hqueued.trans h.follows.queued, hqueue.trans h.follows.queue⟩⟩

theorem typed_code (s : Keys) (c : Code) :
    s.code c = { { s.code c with typed := s.typed } with
      typed := s.typed ++
        if c.extended || c.up then [] else (layout s.shift s.caps c.key).toList } := rfl

/-- The driver after an extended code. -/
theorem handle_extended_code {d : Driver} (hp : d.isExtendedScancode = false) {c : Code}
    (he : c.extended = true) :
    (handle d c.bytes).1 = (d.setExt c.key !c.up).extendedModifier
      (if c.up then c.key + 0x80 else c.key) := by
  have hlt := c.lt
  have hno := c.noPrefix
  cases hu : c.up with
  | true =>
    have hbytes : c.bytes = [0xE0, c.key + 0x80] := by simp [Code.bytes, he, hu]
    have hkey := hno hu
    rw [hbytes, handle_extended hp (by omega), Driver.extended, if_neg (by omega),
      released_key hlt]
    rfl
  | false =>
    have hbytes : c.bytes = [0xE0, c.key] := by simp [Code.bytes, he, hu]
    rw [hbytes, handle_extended hp (by omega), Driver.extended, if_pos hlt]
    rfl

/-- The driver after the code of a released key. -/
theorem handle_release {d : Driver} (hp : d.isExtendedScancode = false) {c : Code}
    (he : c.extended = false) (hu : c.up = true) :
    (handle d c.bytes).1 = (d.setNormal c.key !c.up).releaseModifier (c.key + 0x80) := by
  have hlt := c.lt
  have hkey := c.noPrefix hu
  have hbytes : c.bytes = [c.key + 0x80] := by simp [Code.bytes, he, hu]
  rw [hbytes, handle_normal hp (by omega), if_neg (by omega), Driver.release, released_key hlt, hu]
  rfl

/-- The driver after the code of a pressed key, before the character. -/
theorem handle_press {d : Driver} (hp : d.isExtendedScancode = false) (hh : d.eventHandler = true)
    {c : Code} (he : c.extended = false) (hu : c.up = false) :
    (handle d c.bytes).1 = (((d.setNormal c.key !c.up).pressModifier c.key).dispatch c.key).1 := by
  have hlt := c.lt
  have hbytes : c.bytes = [c.key] := by simp [Code.bytes, he, hu]
  have hhandler : ((d.setNormal c.key true).pressModifier c.key).eventHandler = true := hh
  rw [hbytes, handle_normal hp (by omega), if_pos hlt, Driver.press, hhandler, hu]
  rfl

theorem dispatch_caps (d : Driver) (key : Nat) :
    (d.dispatch key).1.capsLockActive = d.capsLockActive := by
  rw [dispatch_eq]
  split <;> rfl

/-- The lock of the driver after a code is that of the keys, but after a repeat of Caps Lock. -/
theorem caps_code {d : Driver} {s : Keys} (h : Inv d s) (c : Code) :
    (handle d c.bytes).1.capsLockActive = (s.code c).caps ↔ ¬ CapsRepeat s c := by
  have hc := h.follows.caps
  cases he : c.extended with
  | true =>
    rw [handle_extended_code h.noPrefix he]
    refine iff_of_true ?_ fun hr => Bool.false_ne_true (hr.1.symm.trans he)
    refine hc.trans (if_neg fun hk => ?_).symm
    exact Bool.false_ne_true (hk.1.symm.trans he)
  | false =>
    cases hu : c.up with
    | true =>
      rw [handle_release h.noPrefix he hu]
      refine iff_of_true ?_ fun hr => Bool.false_ne_true (hr.2.2.1.symm.trans hu)
      refine hc.trans (if_neg fun hk => ?_).symm
      exact Bool.false_ne_true (hk.2.2.1.symm.trans hu)
    | false =>
      rw [handle_press h.noPrefix h.handler he hu, dispatch_caps]
      unfold CapsRepeat Keys.code Driver.pressModifier
      by_cases hkey : c.key = 0x3A
      · cases s.held (false, 0x3A) <;> simp [he, hu, hkey, hc, Driver.setNormal]
      · simp [hkey, hc, Driver.setNormal]

/-- A code keeps the invariant, where Caps Lock does not repeat. -/
theorem inv_code {d : Driver} {s : Keys} (h : Inv d s) {c : Code} (hr : ¬ CapsRepeat s c) :
    Inv (handle d c.bytes).1 (s.code c) := by
  have hcaps := (caps_code h c).mpr hr
  have hm := h.modifiers
  rw [typed_code]
  cases he : c.extended with
  | true =>
    rw [handle_extended_code h.noPrefix he] at hcaps ⊢
    have ht := setExt_tables h.tables he
    have hm' : Modifiers (d.setExt c.key !c.up) s :=
      ⟨hm.leftShift, hm.rightShift, hm.leftCtrl, hm.rightCtrl, hm.leftAlt, hm.rightAlt⟩
    rw [Bool.true_or, if_pos rfl, List.append_nil]
    exact inv_of_parts h ⟨rfl, rfl, rfl, rfl, rfl, rfl⟩ ⟨ht.normal, ht.ext, ht.keyStates⟩
      (extendedModifier_modifiers hm' he) hcaps
  | false =>
    have ht := setNormal_tables h.tables he
    have hm' : Modifiers (d.setNormal c.key !c.up) s :=
      ⟨hm.leftShift, hm.rightShift, hm.leftCtrl, hm.rightCtrl, hm.leftAlt, hm.rightAlt⟩
    cases hu : c.up with
    | true =>
      rw [handle_release h.noPrefix he hu] at hcaps ⊢
      rw [Bool.or_true, if_pos rfl, List.append_nil]
      exact inv_of_parts h ⟨rfl, rfl, rfl, rfl, rfl, rfl⟩ ⟨ht.normal, ht.ext, ht.keyStates⟩
        (releaseModifier_modifiers hm' he hu) hcaps
    | false =>
      rw [handle_press h.noPrefix h.handler he hu] at hcaps ⊢
      rw [dispatch_caps] at hcaps
      have hbefore : Inv ((d.setNormal c.key !c.up).pressModifier c.key)
          { s.code c with typed := s.typed } :=
        inv_of_parts h ⟨rfl, rfl, rfl, rfl, rfl, rfl⟩ ⟨ht.normal, ht.ext, ht.keyStates⟩
          (pressModifier_modifiers hm' he hu) hcaps
      have hafter := inv_queued hbefore (layout s.shift s.caps c.key)
      rw [dispatch_eq, keyChar_press hm' h.follows.caps c.lt]
      exact hafter

/-! ## Streams of codes -/

theorem inv_new : Inv (Driver.new true) Keys.new :=
  ⟨rfl, rfl, fun _ => rfl, fun _ => rfl, ⟨by decide, by decide⟩,
    ⟨fun _ _ => rfl, rfl, rfl, rfl, rfl, rfl, rfl, rfl, rfl, rfl⟩⟩

/-- The driver and the keys after a code. -/
def next (p : Driver × Keys) (c : Code) : Driver × Keys :=
  ((handle p.1 c.bytes).1, p.2.code c)

/-- After each code the driver follows the keys, exactly while no code is a repeat of Caps Lock. -/
theorem follows_iff (cs : List Code) :
    Along next (fun p c => Follows (next p c).1 (next p c).2) (Driver.new true, Keys.new) cs ↔
      Along next (fun p c => ¬ CapsRepeat p.2 c) (Driver.new true, Keys.new) cs :=
  Along.iff_of_inv (I := fun p : Driver × Keys => Inv p.1 p.2) (fun _ _ h hr => inv_code h hr)
    (fun _ c h => ⟨fun hf => (caps_code h c).mp hf.caps, fun hr => (inv_code h hr).follows⟩)
    inv_new

/-- The code of Caps Lock going down. -/
def capsDown : Code := ⟨false, 0x3A, false, by decide, fun h => absurd h Bool.false_ne_true⟩

/-- Caps Lock is pressed and held until it repeats once. -/
theorem capsDown_twice : ¬ Along next (fun p c => Follows (next p c).1 (next p c).2)
    (Driver.new true, Keys.new) [capsDown, capsDown] := fun h =>
  Bool.false_ne_true h.2.1.caps

end Keyboard
end Hashx86
