import Hashx86.Gui.Controls
import Hashx86.Lib.EditString
import Mathlib.Algebra.Ring.Nat
import Mathlib.Data.List.InsertIdx

/-!
# Text fields in their buffers (`gui/inputbox.cpp`, `gui/textbox.cpp`)

What is drawn is left out.

* `InputBox`, `TextBox`: the buffer, its size and the two positions in it, as words.
* `Holds`: the buffer stands for a text with a cursor.
* `inputBox_step`, `textBox_step`: what one event does; `textFields_refine`: over every run, both edit
  their text as `Controls.InputBox` and `Controls.TextBox` do and stay inside the buffer.
-/

namespace Hashx86
namespace TextFields

open Lib
open Controls (Field)

/-- A C string; there is no room for one of `2 ^ 32` characters. -/
structure CStr where
  chars : List UInt8
  nonzero : ∀ c ∈ chars, c ≠ 0
  short : chars.length < 2 ^ 32

namespace CStr

/-- `s[i]`, up to the NUL. -/
def char (s : CStr) (i : Nat) : UInt8 := s.chars.getD i 0

def strlen (s : CStr) : UInt32 := .ofNat s.chars.length

/-- "Backspace" -/
def backspace : List UInt8 := [0x42, 0x61, 0x63, 0x6B, 0x73, 0x70, 0x61, 0x63, 0x65]

end CStr

inductive Event
  | setText (newText : Option CStr)
  | keyDown (key : Option CStr)
  | specialKeyDown (key : UInt8)

/-! ## `InputBox` -/

/-- From `src` to `dst`, two places in one buffer of `n` cells. -/
def memmoveLocal (n : Nat) (dst src count : UInt32) (buf : Nat → UInt8) :
    Except Escape (Nat → UInt8) :=
  if dst < src then copyUp n dst.toNat src.toNat count.toNat 0 buf
  else copyDown n dst.toNat src.toNat count.toNat buf

def isprintLocal (c : UInt8) : Bool := 32 ≤ c && c ≤ 126

structure InputBox where
  text : Nat → UInt8
  capacity : UInt32
  length : UInt32
  cursorPos : UInt32

namespace InputBox

/-- `InputBox::InputBox`, when there is room for the buffer; `mem` is what its cells hold. -/
def new (mem : Nat → UInt8) (capacity : UInt32) : Except Escape InputBox := do
  let capacity := if 0 < capacity then capacity else 1
  let text ← storeCell capacity.toNat mem 0 0
  return ⟨text, capacity, 0, 0⟩

def setText (b : InputBox) (newText : CStr) : Except Escape InputBox := do
  let srcLen := newText.strlen
  let newLen := if srcLen < b.capacity then srcLen else b.capacity - 1
  let text ← storeAll b.capacity.toNat 0 (newText.chars.take newLen.toNat) b.text
  let text ← storeCell b.capacity.toNat text newLen.toNat 0
  return { b with
    text, length := newLen
    cursorPos := if newLen < b.cursorPos then newLen else b.cursorPos }

/-- The branch of "Backspace" in `OnKeyDown`. -/
def backspace (b : InputBox) : Except Escape InputBox :=
  if 0 < b.cursorPos then do
    let text ← memmoveLocal b.capacity.toNat (b.cursorPos - 1) b.cursorPos
      (b.length - b.cursorPos + 1) b.text
    return { b with text, cursorPos := b.cursorPos - 1, length := b.length - 1 }
  else .ok b

def onKeyDown (b : InputBox) (key : CStr) : Except Escape InputBox :=
  if key.char 0 = 0 then .ok b
  else if key.chars = CStr.backspace then b.backspace
  else if b.length < b.capacity - 1 ∧ key.char 1 = 0 ∧ isprintLocal (key.char 0) then do
    let text ← memmoveLocal b.capacity.toNat (b.cursorPos + 1) b.cursorPos
      (b.length - b.cursorPos + 1) b.text
    let text ← storeCell b.capacity.toNat text b.cursorPos.toNat (key.char 0)
    let text ← storeCell b.capacity.toNat text (b.length + 1).toNat 0
    return { b with text, cursorPos := b.cursorPos + 1, length := b.length + 1 }
  else .ok b

/-- The branch of Delete in `OnSpecialKeyDown`. -/
def delete (b : InputBox) : Except Escape InputBox :=
  if b.cursorPos < b.length then do
    let text ← memmoveLocal b.capacity.toNat b.cursorPos (b.cursorPos + 1)
      (b.length - b.cursorPos) b.text
    let text ← storeCell b.capacity.toNat text (b.length - 1).toNat 0
    return { b with text, length := b.length - 1 }
  else .ok b

/-- The branch of Left in `OnSpecialKeyDown`. -/
def left (b : InputBox) : InputBox :=
  { b with cursorPos := if 0 < b.cursorPos then b.cursorPos - 1 else b.cursorPos }

/-- The branch of Right in `OnSpecialKeyDown`. -/
def right (b : InputBox) : InputBox :=
  { b with cursorPos := if b.cursorPos < b.length then b.cursorPos + 1 else b.cursorPos }

def onSpecialKeyDown (b : InputBox) (key : UInt8) : Except Escape InputBox :=
  if key = 0x4B then .ok b.left
  else if key = 0x4D then .ok b.right
  else if key = 0x47 then .ok { b with cursorPos := 0 }
  else if key = 0x4F then .ok { b with cursorPos := b.length }
  else if key = 0x0E then b.backspace
  else if key = 0x53 then b.delete
  else .ok b

def step (b : InputBox) : Event → Except Escape InputBox
  | .setText none => .ok b
  | .setText (some newText) => b.setText newText
  | .keyDown none => .ok b
  | .keyDown (some key) => b.onKeyDown key
  | .specialKeyDown key => b.onSpecialKeyDown key

end InputBox

/-! ## `TextBox` -/

structure TextBox where
  buffer : Nat → UInt8
  capacity : UInt32
  length : UInt32
  cursor : UInt32
  readOnly : Bool

inductive TextBoxEvent
  | field (e : Event)
  | setReadOnly (value : Bool)

namespace TextBox

/-- `TextBox::TextBox`, when there is room for the buffer; `mem` is what its cells hold. -/
def new (mem : Nat → UInt8) (capacity : UInt32) : Except Escape TextBox := do
  let capacity := if 1 < capacity then capacity else 2
  let buffer ← storeCell capacity.toNat mem 0 0
  return ⟨buffer, capacity, 0, 0, false⟩

/-- The loop of `SetText`: where it stops, and the buffer. -/
def setLoop (capacity : UInt32) :
    List UInt8 → (i : UInt32) → (buffer : Nat → UInt8) → Except Escape (UInt32 × (Nat → UInt8))
  | [], i, buffer => .ok (i, buffer)
  | c :: t, i, buffer =>
    if i + 1 < capacity then do
      let buffer ← storeCell capacity.toNat buffer i.toNat c
      setLoop capacity t (i + 1) buffer
    else .ok (i, buffer)

/-- `SetText`; `NULL` is the empty text. -/
def setText (b : TextBox) (text : Option CStr) : Except Escape TextBox := do
  let (i, buffer) ← setLoop b.capacity (text.elim [] CStr.chars) 0 b.buffer
  let buffer ← storeCell b.capacity.toNat buffer i.toNat 0
  return { b with buffer, length := i, cursor := i }

/-- `Insert`; its loop is `buffer[i] = buffer[i - 1]` for `i` from `length` down to `cursor + 1`. -/
def insert (b : TextBox) (c : UInt8) : Except Escape TextBox :=
  if b.readOnly then .ok b
  else if b.capacity ≤ b.length + 1 then .ok b
  else do
    let buffer ← copyDown b.capacity.toNat (b.cursor.toNat + 1) b.cursor.toNat
      (b.length.toNat - b.cursor.toNat) b.buffer
    let buffer ← storeCell b.capacity.toNat buffer b.cursor.toNat c
    let buffer ← storeCell b.capacity.toNat buffer (b.length + 1).toNat 0
    return { b with buffer, cursor := b.cursor + 1, length := b.length + 1 }

/-- `buffer[i] = buffer[i + 1]` for `i` from `start` up to `length - 1`. -/
def closeGap (b : TextBox) (start : UInt32) : Except Escape (Nat → UInt8) :=
  copyUp b.capacity.toNat start.toNat (start.toNat + 1) (b.length.toNat - start.toNat) 0 b.buffer

def backspace (b : TextBox) : Except Escape TextBox :=
  if b.readOnly then .ok b
  else if b.cursor = 0 then .ok b
  else do
    let buffer ← b.closeGap (b.cursor - 1)
    return { b with buffer, cursor := b.cursor - 1, length := b.length - 1 }

def delete (b : TextBox) : Except Escape TextBox :=
  if b.readOnly then .ok b
  else if b.length ≤ b.cursor then .ok b
  else do
    let buffer ← b.closeGap b.cursor
    return { b with buffer, length := b.length - 1 }

def onKeyDown (b : TextBox) (key : Option CStr) : Except Escape TextBox :=
  match key with
  | none => .ok b
  | some key =>
    if b.readOnly ∨ key.char 0 = 0 then .ok b
    else if key.char 0 = 13 ∨ key.char 0 = 10 then b.insert 10
    else if 32 ≤ key.char 0 ∧ key.char 0 ≤ 126 then b.insert (key.char 0)
    else .ok b

/-- The branch of Left in `OnSpecialKeyDown`. -/
def left (b : TextBox) : TextBox :=
  { b with cursor := if 0 < b.cursor then b.cursor - 1 else b.cursor }

/-- The branch of Right in `OnSpecialKeyDown`. -/
def right (b : TextBox) : TextBox :=
  { b with cursor := if b.cursor < b.length then b.cursor + 1 else b.cursor }

def onSpecialKeyDown (b : TextBox) (key : UInt8) : Except Escape TextBox :=
  if b.readOnly then .ok b
  else if key = 0x4B then .ok b.left
  else if key = 0x4D then .ok b.right
  else if key = 0x0E then b.backspace
  else if key = 0x53 then b.delete
  else .ok b

def step (b : TextBox) : TextBoxEvent → Except Escape TextBox
  | .field (.setText text) => b.setText text
  | .field (.keyDown key) => b.onKeyDown key
  | .field (.specialKeyDown key) => b.onSpecialKeyDown key
  | .setReadOnly value => .ok { b with readOnly := value }

end TextBox

/-! ## What the buffer stands for -/

/-- The characters of bytes. -/
def asText (t : List UInt8) : List Char := t.map Char.ofUInt8

/-- As much of the text `t` as there is room for, and the cursor at `cursor` or at the end of it. -/
def putText (f : Field) (t : List Char) (cursor : Nat) : Field where
  text := t.take (f.capacity - 1)
  capacity := f.capacity
  cursor := min cursor (t.take (f.capacity - 1)).length
  cursor_le := Nat.min_le_right _ _
  fits := by
    have := f.fits
    rw [List.length_take]
    omega

structure Holds (buf : Nat → UInt8) (capacity length cursor : UInt32) (f : Field) : Prop where
  string : ∃ t, StringAt buf 0 t ∧ f.text = asText t
  capacity : capacity.toNat = f.capacity
  length : length.toNat = f.text.length
  cursor : cursor.toNat = f.cursor

section Holds

variable {buf : Nat → UInt8} {capacity length cursor : UInt32} {f : Field} {c : UInt8}

theorem toNat_succ {a : UInt32} (h : a.toNat + 1 < 2 ^ 32) : (a + 1).toNat = a.toNat + 1 :=
  (UInt32.toNat_add a 1).trans (Nat.mod_eq_of_lt h)

theorem toNat_pred {a : UInt32} (h : 0 < a.toNat) : (a - 1).toNat = a.toNat - 1 :=
  UInt32.toNat_sub_of_le a 1 (UInt32.le_iff_toNat_le.mpr h)

theorem Holds.length_lt (h : Holds buf capacity length cursor f) : length.toNat < capacity.toNat := by
  rw [h.length, h.capacity]
  exact f.fits

theorem Holds.cursor_le (h : Holds buf capacity length cursor f) : cursor.toNat ≤ length.toNat := by
  rw [h.length, h.cursor]
  exact f.cursor_le

theorem Holds.inside (h : Holds buf capacity length cursor f) :
    cursor ≤ length ∧ length < capacity ∧ buf length.toNat = 0 := by
  refine ⟨UInt32.le_iff_toNat_le.mpr h.cursor_le, UInt32.lt_iff_toNat_lt.mpr h.length_lt, ?_⟩
  obtain ⟨t, hs, ht⟩ := h.string
  have hlen : length.toNat = t.length := by rw [h.length, ht, asText, List.length_map]
  have hnul := hs.nul
  rwa [Nat.zero_add, ← hlen] at hnul

theorem Holds.insert (h : Holds buf capacity length cursor f) (hc : c ≠ 0)
    (hroom : length.toNat + 1 < capacity.toNat) {m : Nat} (hm : length.toNat ≤ cursor.toNat + m) :
    Holds (Function.update (Function.update (moved (cursor.toNat + 1) cursor.toNat m buf)
      cursor.toNat c) (length.toNat + 1) 0) capacity (length + 1) (cursor + 1)
      (f.insert (.ofUInt8 c)) := by
  obtain ⟨t, hs, ht⟩ := h.string
  have hlt := capacity.toNat_lt
  have hle := h.cursor_le
  have hlen : length.toNat = t.length := by rw [h.length, ht, asText, List.length_map]
  have hroom' : f.text.length + 1 < f.capacity := by rwa [← h.length, ← h.capacity]
  rw [Field.insert, dif_pos hroom']
  refine ⟨⟨t.insertIdx cursor.toNat c, ?_, ?_⟩, h.capacity, ?_, ?_⟩
  · rw [hlen] at hm hle ⊢
    exact stringAt_insert hs hc hle hm
  · change f.text.insertIdx f.cursor (.ofUInt8 c) = _
    rw [ht, asText, asText, List.map_insertIdx, h.cursor]
  · rw [toNat_succ (by omega), h.length, List.length_insertIdx_of_le_length f.cursor_le]
  · rw [toNat_succ (by omega), h.cursor]

theorem Holds.backspace (h : Holds buf capacity length cursor f) (hpos : 0 < cursor.toNat) :
    Holds (moved (cursor.toNat - 1) cursor.toNat (length.toNat - (cursor.toNat - 1)) buf) capacity
      (length - 1) (cursor - 1) f.backspace := by
  obtain ⟨t, hs, ht⟩ := h.string
  have hle := h.cursor_le
  have hlen : length.toNat = t.length := by rw [h.length, ht, asText, List.length_map]
  have hne : ¬ f.cursor = 0 := by
    rw [← h.cursor]
    omega
  rw [Field.backspace, dif_neg hne]
  refine ⟨⟨t.eraseIdx (cursor.toNat - 1), ?_, ?_⟩, h.capacity, ?_, ?_⟩
  · have := stringAt_eraseIdx hs (show cursor.toNat - 1 < t.length by omega)
    rwa [Nat.sub_add_cancel hpos, ← hlen] at this
  · change f.text.eraseIdx (f.cursor - 1) = _
    rw [ht, asText, asText, List.eraseIdx_map, h.cursor]
  · rw [toNat_pred (by omega), List.length_eraseIdx_of_lt (by rw [← h.length, ← h.cursor]; omega),
      h.length]
  · rw [toNat_pred hpos, h.cursor]

theorem Holds.delete (h : Holds buf capacity length cursor f) (hlt : cursor.toNat < length.toNat) :
    Holds (moved cursor.toNat (cursor.toNat + 1) (length.toNat - cursor.toNat) buf) capacity
      (length - 1) cursor f.delete := by
  obtain ⟨t, hs, ht⟩ := h.string
  have hlen : length.toNat = t.length := by rw [h.length, ht, asText, List.length_map]
  have hlt' : f.cursor < f.text.length := by rwa [← h.cursor, ← h.length]
  rw [Field.delete, dif_pos hlt']
  refine ⟨⟨t.eraseIdx cursor.toNat, ?_, ?_⟩, h.capacity, ?_, h.cursor⟩
  · rw [hlen] at hlt ⊢
    exact stringAt_eraseIdx hs hlt
  · change f.text.eraseIdx f.cursor = _
    rw [ht, asText, asText, List.eraseIdx_map, h.cursor]
  · rw [toNat_pred (by omega), List.length_eraseIdx_of_lt hlt', h.length]

/-- The NUL behind the text is stored once more. -/
theorem Holds.terminate (h : Holds buf capacity length cursor f) :
    Holds (Function.update buf length.toNat 0) capacity length cursor f := by
  obtain ⟨t, hs, ht⟩ := h.string
  refine ⟨⟨t, ?_, ht⟩, h.capacity, h.length, h.cursor⟩
  have hend := stringAt_end hs
  rwa [Nat.zero_add, show t.length = length.toNat by rw [h.length, ht, asText, List.length_map]] at hend

theorem Holds.moveTo (h : Holds buf capacity length cursor f) {cursor' : UInt32} {p : Nat}
    (hp : cursor'.toNat = min p length.toNat) : Holds buf capacity length cursor' (f.moveTo p) :=
  ⟨h.string, h.capacity, h.length, by rw [hp, h.length]; rfl⟩

theorem Holds.left (h : Holds buf capacity length cursor f) :
    Holds buf capacity length (if 0 < cursor then cursor - 1 else cursor) (f.moveTo (f.cursor - 1)) := by
  have hle := h.cursor_le
  rw [← h.cursor]
  refine h.moveTo ?_
  split
  · next hpos =>
    rw [toNat_pred (UInt32.lt_iff_toNat_lt.mp hpos)]
    omega
  · next hzero =>
    have : ¬ 0 < cursor.toNat := fun hpos => hzero (UInt32.lt_iff_toNat_lt.mpr hpos)
    omega

theorem Holds.right (h : Holds buf capacity length cursor f) :
    Holds buf capacity length (if cursor < length then cursor + 1 else cursor)
      (f.moveTo (f.cursor + 1)) := by
  have hle := h.cursor_le
  have hsize := length.toNat_lt
  rw [← h.cursor]
  refine h.moveTo ?_
  split
  · next hin =>
    have := UInt32.lt_iff_toNat_lt.mp hin
    rw [toNat_succ (by omega)]
    omega
  · next hend =>
    have : ¬ cursor.toNat < length.toNat := fun hin => hend (UInt32.lt_iff_toNat_lt.mpr hin)
    omega

theorem Holds.put (h : Holds buf capacity length cursor f) {buf' : Nat → UInt8}
    {length' cursor' : UInt32} {t : List UInt8} {p : Nat}
    (hs : StringAt buf' 0 (t.take (capacity.toNat - 1)))
    (hlen : length'.toNat = (t.take (capacity.toNat - 1)).length)
    (hcursor : cursor'.toNat = min p (t.take (capacity.toNat - 1)).length) :
    Holds buf' capacity length' cursor' (putText f (asText t) p) := by
  rw [h.capacity] at hs hlen hcursor
  have htext : ((asText t).take (f.capacity - 1)).length = (t.take (f.capacity - 1)).length := by
    rw [asText, ← List.map_take, List.length_map]
  exact ⟨⟨_, hs, List.map_take.symm⟩, h.capacity, hlen.trans htext.symm,
    hcursor.trans (congrArg (min p) htext.symm)⟩

end Holds

/-! ## The characters of a key -/

theorem toNat_ofUInt8 (c : UInt8) : (Char.ofUInt8 c).toNat = c.toNat :=
  UInt8.toNat_toUInt32 c

theorem ofUInt8_inj {c d : UInt8} : Char.ofUInt8 c = Char.ofUInt8 d ↔ c = d := by
  constructor
  · intro h
    have := congrArg Char.toNat h
    rw [toNat_ofUInt8, toNat_ofUInt8] at this
    exact UInt8.toNat_inj.mp this
  · exact congrArg _

theorem isPrint_ofUInt8 (c : UInt8) : Controls.isPrint (.ofUInt8 c) = isprintLocal c := by
  rw [Controls.isPrint, isprintLocal, toNat_ofUInt8]
  simp only [UInt8.le_iff_toNat_le]
  rfl

theorem asText_eq_backspace {t : List UInt8} :
    asText t = "Backspace".toList ↔ t = CStr.backspace := by
  have hinj : Function.Injective asText := List.map_injective_iff.mpr fun c d h => ofUInt8_inj.mp h
  rw [show "Backspace".toList = asText CStr.backspace by decide]
  exact hinj.eq_iff

/-! ## `InputBox` edits its text -/

theorem memmoveLocal_eq {n : Nat} {dst src count : UInt32} {buf : Nat → UInt8}
    (hsrc : src.toNat + count.toNat ≤ n) (hdst : dst.toNat + count.toNat ≤ n) :
    memmoveLocal n dst src count buf = .ok (moved dst.toNat src.toNat count.toNat buf) := by
  unfold memmoveLocal
  split
  · next hlt =>
    exact copyUp_eq (i := 0) (Nat.le_of_lt (UInt32.lt_iff_toNat_lt.mp hlt)) hsrc
  · next hge =>
    refine copyDown_eq (Nat.le_of_not_lt fun hlt => hge (UInt32.lt_iff_toNat_lt.mpr hlt)) hdst

namespace InputBox

/-- What an event does to the text. -/
def edit (f : Field) : Event → Field
  | .setText none => f
  | .setText (some newText) => putText f (asText newText.chars) f.cursor
  | .keyDown none => f
  | .keyDown (some key) => Controls.InputBox.onKeyDown f (asText key.chars)
  | .specialKeyDown key => Controls.InputBox.onSpecialKeyDown f key.toNat

def Holds (b : InputBox) (f : Field) : Prop :=
  TextFields.Holds b.text b.capacity b.length b.cursorPos f

variable {b : InputBox} {f : Field}

theorem backspace_ok (h : b.Holds f) : ∃ b', b.backspace = .ok b' ∧ b'.Holds f.backspace := by
  have hle := h.cursor_le
  have hlt := h.length_lt
  have hsize := b.capacity.toNat_lt
  by_cases hpos : 0 < b.cursorPos
  · have hpos' : 0 < b.cursorPos.toNat := UInt32.lt_iff_toNat_lt.mp hpos
    have hcount : (b.length - b.cursorPos + 1).toNat = b.length.toNat - (b.cursorPos.toNat - 1) := by
      rw [toNat_succ, UInt32.toNat_sub_of_le _ _ (UInt32.le_iff_toNat_le.mpr hle)]
      · omega
      · rw [UInt32.toNat_sub_of_le _ _ (UInt32.le_iff_toNat_le.mpr hle)]
        omega
    have hprev := toNat_pred hpos'
    rw [backspace, if_pos hpos, memmoveLocal_eq (by omega) (by omega), ok_bind, hcount, hprev]
    exact ⟨_, rfl, TextFields.Holds.backspace h hpos'⟩
  · have hzero : f.cursor = 0 := by
      have := h.cursor
      have : ¬ 0 < b.cursorPos.toNat := fun h0 => hpos (UInt32.lt_iff_toNat_lt.mpr h0)
      omega
    rw [backspace, if_neg hpos, Field.backspace, dif_pos hzero]
    exact ⟨b, rfl, h⟩

theorem delete_ok (h : b.Holds f) : ∃ b', b.delete = .ok b' ∧ b'.Holds f.delete := by
  have hle := h.cursor_le
  have hlt := h.length_lt
  have hsize := b.capacity.toNat_lt
  by_cases hin : b.cursorPos < b.length
  · have hin' := UInt32.lt_iff_toNat_lt.mp hin
    have hcount := UInt32.toNat_sub_of_le _ _ (UInt32.le_iff_toNat_le.mpr hle)
    have hnext : (b.cursorPos + 1).toNat = b.cursorPos.toNat + 1 := toNat_succ (by omega)
    have hprev : (b.length - 1).toNat = b.length.toNat - 1 := toNat_pred (by omega)
    rw [delete, if_pos hin, memmoveLocal_eq (by omega) (by omega), ok_bind,
      storeCell_inside (by omega), ok_bind, hcount, hnext]
    exact ⟨_, rfl, (TextFields.Holds.delete h hin').terminate⟩
  · have hout : ¬ f.cursor < f.text.length := by
      rw [← h.cursor, ← h.length]
      exact fun hlt => hin (UInt32.lt_iff_toNat_lt.mpr hlt)
    rw [delete, if_neg hin, Field.delete, dif_neg hout]
    exact ⟨b, rfl, h⟩

/-- There is room for a character where the buffer has a cell behind the NUL. -/
theorem room_iff (h : b.Holds f) :
    b.length < b.capacity - 1 ↔ f.text.length + 1 < f.capacity := by
  have hlt := h.length_lt
  rw [UInt32.lt_iff_toNat_lt, toNat_pred (by omega), ← h.length, ← h.capacity]
  omega

theorem insert_ok (h : b.Holds f) {key : CStr} (hc : key.char 0 ≠ 0) (hend : key.char 1 = 0)
    (hback : key.chars ≠ CStr.backspace) (hprint : isprintLocal (key.char 0) = true) :
    ∃ b', b.onKeyDown key = .ok b' ∧ b'.Holds (f.insert (.ofUInt8 (key.char 0))) := by
  have hle := h.cursor_le
  have hlt := h.length_lt
  have hsize := b.capacity.toNat_lt
  rw [onKeyDown, if_neg hc, if_neg hback]
  by_cases hroom : b.length < b.capacity - 1
  · have hroom' := (room_iff h).mp hroom
    rw [← h.length, ← h.capacity] at hroom'
    have hcount : (b.length - b.cursorPos + 1).toNat = b.length.toNat - b.cursorPos.toNat + 1 := by
      rw [toNat_succ, UInt32.toNat_sub_of_le _ _ (UInt32.le_iff_toNat_le.mpr hle)]
      rw [UInt32.toNat_sub_of_le _ _ (UInt32.le_iff_toNat_le.mpr hle)]
      omega
    have hnext : (b.cursorPos + 1).toNat = b.cursorPos.toNat + 1 := toNat_succ (by omega)
    have hlen : (b.length + 1).toNat = b.length.toNat + 1 := toNat_succ (by omega)
    rw [if_pos ⟨hroom, hend, hprint⟩, memmoveLocal_eq (by omega) (by omega), ok_bind,
      storeCell_inside (by omega), ok_bind, storeCell_inside (by omega), ok_bind, hnext, hlen]
    exact ⟨_, rfl, TextFields.Holds.insert h hc hroom' (by omega)⟩
  · have hfull : f.insert (.ofUInt8 (key.char 0)) = f := dif_neg fun hr => hroom ((room_iff h).mpr hr)
    rw [if_neg (fun hr => hroom hr.1), hfull]
    exact ⟨b, rfl, h⟩

theorem onKeyDown_ok (h : b.Holds f) (key : CStr) :
    ∃ b', b.onKeyDown key = .ok b' ∧
      b'.Holds (Controls.InputBox.onKeyDown f (asText key.chars)) := by
  have hnz := key.nonzero
  by_cases hback : key.chars = CStr.backspace
  · have hfirst : ¬ key.char 0 = 0 := by
      rw [CStr.char, hback]
      decide
    have hcode : b.onKeyDown key = b.backspace := by rw [onKeyDown, if_neg hfirst, if_pos hback]
    have hspec : Controls.InputBox.onKeyDown f (asText key.chars) = f.backspace :=
      if_pos (asText_eq_backspace.mpr hback)
    rw [hcode, hspec]
    exact backspace_ok h
  · have hback' : asText key.chars ≠ "Backspace".toList := fun ht => hback (asText_eq_backspace.mp ht)
    match hchars : key.chars with
    | [] =>
      have hcode : b.onKeyDown key = .ok b := if_pos (by rw [CStr.char, hchars]; rfl)
      rw [hcode]
      exact ⟨b, rfl, h⟩
    | [c] =>
      have hc : key.char 0 = c := by rw [CStr.char, hchars]; rfl
      have hend : key.char 1 = 0 := by rw [CStr.char, hchars]; rfl
      have hne : key.char 0 ≠ 0 := hc ▸ hnz c (by simp [hchars])
      rw [hchars] at hback'
      have hspec : Controls.InputBox.onKeyDown f (asText [c]) =
          if isprintLocal c then f.insert (.ofUInt8 c) else f := by
        rw [← isPrint_ofUInt8]
        exact if_neg hback'
      rw [hspec]
      by_cases hprint : isprintLocal c = true
      · rw [if_pos hprint, ← hc]
        exact insert_ok h hne hend hback (hc ▸ hprint)
      · have hcode : b.onKeyDown key = .ok b := by
          rw [onKeyDown, if_neg hne, if_neg hback, if_neg fun hp => hprint (hc ▸ hp.2.2)]
        rw [if_neg hprint, hcode]
        exact ⟨b, rfl, h⟩
    | c :: d :: t =>
      have hc : key.char 0 ≠ 0 := by
        rw [CStr.char, hchars]
        exact hnz c (by simp [hchars])
      have hd : key.char 1 ≠ 0 := by
        rw [CStr.char, hchars]
        exact hnz d (by simp [hchars])
      have hcode : b.onKeyDown key = .ok b := by
        rw [onKeyDown, if_neg hc, if_neg hback, if_neg fun hp => hd hp.2.1]
      rw [hchars] at hback'
      have hspec : Controls.InputBox.onKeyDown f (asText (c :: d :: t)) = f := if_neg hback'
      rw [hcode, hspec]
      exact ⟨b, rfl, h⟩

theorem setText_ok (h : b.Holds f) (newText : CStr) :
    ∃ b', b.setText newText = .ok b' ∧ b'.Holds (putText f (asText newText.chars) f.cursor) := by
  have hlt := h.length_lt
  have hsrc : newText.strlen.toNat = newText.chars.length :=
    UInt32.toNat_ofNat_of_lt' newText.short
  generalize hnew : (if newText.strlen < b.capacity then newText.strlen else b.capacity - 1) = newLen
  have hlen : newLen.toNat = min newText.chars.length (b.capacity.toNat - 1) := by
    rw [← hnew]
    split
    · next hin =>
      have := UInt32.lt_iff_toNat_lt.mp hin
      omega
    · next hout =>
      have : ¬ newText.strlen.toNat < b.capacity.toNat := fun hin =>
        hout (UInt32.lt_iff_toNat_lt.mpr hin)
      rw [toNat_pred (by omega)]
      omega
  have htake : newText.chars.take newLen.toNat = newText.chars.take (b.capacity.toNat - 1) := by
    rw [hlen, Nat.min_comm, List.take_eq_take_iff]
    omega
  have hfits : (newText.chars.take (b.capacity.toNat - 1)).length = newLen.toNat := by
    rw [List.length_take, hlen, Nat.min_comm]
  obtain ⟨buf, hstore, -, hstring⟩ := @storeAll_string b.capacity.toNat 0 b.text
    (newText.chars.take (b.capacity.toNat - 1)) (by omega)
    fun c hc => newText.nonzero c (List.mem_of_mem_take hc)
  rw [Nat.zero_add, hfits] at hstring
  rw [setText]
  simp only [hnew, htake, hstore, ok_bind]
  rw [storeCell_inside (by omega), ok_bind]
  refine ⟨_, rfl, TextFields.Holds.put h hstring hfits.symm ?_⟩
  rw [hfits, ← h.cursor]
  dsimp only
  split
  · next hin =>
    have := UInt32.lt_iff_toNat_lt.mp hin
    omega
  · next hout =>
    have : ¬ newLen.toNat < b.cursorPos.toNat := fun hin => hout (UInt32.lt_iff_toNat_lt.mpr hin)
    omega

theorem onSpecialKeyDown_ok (h : b.Holds f) (key : UInt8) :
    ∃ b', b.onSpecialKeyDown key = .ok b' ∧
      b'.Holds (Controls.InputBox.onSpecialKeyDown f key.toNat) := by
  have hkey : ∀ n : UInt8, key = n ↔ key.toNat = n.toNat := fun n => UInt8.toNat_inj.symm
  rw [onSpecialKeyDown, Controls.InputBox.onSpecialKeyDown]
  simp only [hkey, UInt8.reduceToNat]
  split_ifs
  · exact ⟨_, rfl, TextFields.Holds.left h⟩
  · exact ⟨_, rfl, TextFields.Holds.right h⟩
  · exact ⟨_, rfl, TextFields.Holds.moveTo h (Nat.zero_min _).symm⟩
  · exact ⟨_, rfl, TextFields.Holds.moveTo h (by rw [← h.length, Nat.min_self])⟩
  · have hspec : Controls.InputBox.onKeyDown f "Backspace".toList = f.backspace := if_pos rfl
    rw [hspec]
    exact backspace_ok h
  · exact delete_ok h
  · exact ⟨b, rfl, h⟩

theorem step_ok (h : b.Holds f) (e : Event) : ∃ b', b.step e = .ok b' ∧ b'.Holds (edit f e) := by
  cases e with
  | setText newText =>
    cases newText with
    | none => exact ⟨b, rfl, h⟩
    | some newText => exact setText_ok h newText
  | keyDown key =>
    cases key with
    | none => exact ⟨b, rfl, h⟩
    | some key => exact onKeyDown_ok h key
  | specialKeyDown key => exact onSpecialKeyDown_ok h key

/-- The empty text of a new field. -/
def start (capacity : Nat) : Field := ⟨[], max capacity 1, 0, Nat.le_refl 0, by
  rw [List.length_nil]
  omega⟩

theorem new_ok (mem : Nat → UInt8) (capacity : UInt32) :
    ∃ b, new mem capacity = .ok b ∧ b.Holds (start capacity.toNat) := by
  have hcap : (if 0 < capacity then capacity else 1).toNat = max capacity.toNat 1 := by
    split
    · next hpos =>
      have := UInt32.lt_iff_toNat_lt.mp hpos
      exact (Nat.max_eq_left this).symm
    · next hzero =>
      have : ¬ 0 < capacity.toNat := fun hpos => hzero (UInt32.lt_iff_toNat_lt.mpr hpos)
      rw [Nat.max_eq_right (by omega)]
      rfl
  rw [new, storeCell_inside (by rw [hcap]; omega), ok_bind]
  have hnul : StringAt (Function.update mem 0 0) 0 [] := Function.update_self ..
  exact ⟨_, rfl, ⟨[], hnul, rfl⟩, hcap, rfl, rfl⟩

end InputBox

/-! ## `TextBox` edits its text -/

namespace TextBox

/-- What an event does to the text. -/
def edit (s : Controls.TextBox) : TextBoxEvent → Controls.TextBox
  | .field (.setText text) =>
    { s with field := putText s.field (asText (text.elim [] CStr.chars)) s.field.capacity }
  | .field (.keyDown none) => s
  | .field (.keyDown (some key)) => { s with field := s.onKeyDown (asText key.chars) }
  | .field (.specialKeyDown key) => { s with field := s.onSpecialKeyDown key.toNat }
  | .setReadOnly value => { s with readOnly := value }

def Holds (b : TextBox) (s : Controls.TextBox) : Prop :=
  TextFields.Holds b.buffer b.capacity b.length b.cursor s.field ∧ b.readOnly = s.readOnly

variable {b : TextBox} {s : Controls.TextBox}

/-- The loop stores what there is room for. -/
theorem setLoop_eq {capacity : UInt32} (t : List UInt8) {i : UInt32} (buffer : Nat → UInt8)
    (hi : i.toNat + 1 ≤ capacity.toNat) :
    ∃ i' : UInt32, i'.toNat = i.toNat + (t.take (capacity.toNat - 1 - i.toNat)).length ∧
      setLoop capacity t i buffer =
        storeAll capacity.toNat i.toNat (t.take (capacity.toNat - 1 - i.toNat)) buffer >>=
          fun buffer => .ok (i', buffer) := by
  have hsize := capacity.toNat_lt
  induction t generalizing i buffer with
  | nil => exact ⟨i, by simp, by rw [List.take_nil]; rfl⟩
  | cons c t ih =>
    rw [setLoop]
    by_cases hroom : i + 1 < capacity
    · have hroom' := UInt32.lt_iff_toNat_lt.mp hroom
      have hnext : (i + 1).toNat = i.toNat + 1 := toNat_succ (by omega)
      obtain ⟨i', hi', hloop⟩ := @ih (i + 1) (Function.update buffer i.toNat c) (by omega)
      have htake : (c :: t).take (capacity.toNat - 1 - i.toNat) =
          c :: t.take (capacity.toNat - 1 - (i + 1).toNat) := by
        rw [hnext, show capacity.toNat - 1 - i.toNat = capacity.toNat - 1 - (i.toNat + 1) + 1 by omega,
          List.take_succ_cons]
      refine ⟨i', ?_, ?_⟩
      · rw [hi', htake, hnext, List.length_cons]
        omega
      · rw [if_pos hroom, storeCell_inside (by omega), ok_bind, hloop, htake, storeAll,
          storeCell_inside (by omega), ok_bind, hnext]
    · have hend : capacity.toNat - 1 - i.toNat = 0 := by
        have : ¬ (i + 1).toNat < capacity.toNat := fun hin => hroom (UInt32.lt_iff_toNat_lt.mpr hin)
        rw [toNat_succ (by omega)] at this
        omega
      rw [if_neg hroom, hend, List.take_zero]
      exact ⟨i, rfl, rfl⟩

theorem setText_ok (h : b.Holds s) (text : Option CStr) :
    ∃ b', b.setText text = .ok b' ∧ b'.Holds (edit s (.field (.setText text))) := by
  have hlt := h.1.length_lt
  generalize hchars : text.elim [] CStr.chars = t
  have hnz : ∀ c ∈ t, c ≠ 0 := by
    rw [← hchars]
    cases text with
    | none => exact nofun
    | some text => exact text.nonzero
  have hzero : (0 : UInt32).toNat = 0 := rfl
  obtain ⟨i, hi, hloop⟩ :=
    @setLoop_eq b.capacity t 0 b.buffer (by rw [hzero]; exact Nat.lt_of_le_of_lt (Nat.zero_le _) hlt)
  rw [hzero, Nat.sub_zero] at hloop
  rw [hzero, Nat.sub_zero, Nat.zero_add] at hi
  have hfits : i.toNat < b.capacity.toNat := by
    rw [hi, List.length_take]
    omega
  obtain ⟨buf, hstore, -, hstring⟩ := @storeAll_string b.capacity.toNat 0 b.buffer
    (t.take (b.capacity.toNat - 1)) (by omega) fun c hc => hnz c (List.mem_of_mem_take hc)
  rw [Nat.zero_add, ← hi] at hstring
  rw [setText, hchars, hloop, hstore, ok_bind, ok_bind]
  dsimp only
  rw [storeCell_inside hfits, ok_bind]
  refine ⟨_, rfl, ?_, h.2⟩
  rw [edit, hchars]
  refine TextFields.Holds.put h.1 hstring hi ?_
  rw [← h.1.capacity, ← hi]
  exact (Nat.min_eq_right (Nat.le_of_lt hfits)).symm

theorem insert_ok (h : b.Holds s) {c : UInt8} (hc : c ≠ 0) :
    ∃ b', b.insert c = .ok b' ∧
      b'.Holds { s with field := if s.readOnly then s.field else s.field.insert (.ofUInt8 c) } := by
  obtain ⟨hf, hr⟩ := h
  have hle := hf.cursor_le
  have hlt := hf.length_lt
  have hsize := b.capacity.toNat_lt
  have hlen : (b.length + 1).toNat = b.length.toNat + 1 := toNat_succ (by omega)
  rw [insert, hr]
  by_cases hro : s.readOnly = true
  · rw [if_pos hro, if_pos hro]
    exact ⟨b, rfl, hf, hr⟩
  · rw [if_neg hro, if_neg hro]
    by_cases hfull : b.capacity ≤ b.length + 1
    · have hroom : ¬ s.field.text.length + 1 < s.field.capacity := by
        have := UInt32.le_iff_toNat_le.mp hfull
        rw [← hf.length, ← hf.capacity]
        omega
      rw [if_pos hfull, Field.insert, dif_neg hroom]
      exact ⟨b, rfl, hf, hr⟩
    · have hroom : b.length.toNat + 1 < b.capacity.toNat := by
        have : ¬ b.capacity.toNat ≤ (b.length + 1).toNat := fun h => hfull (UInt32.le_iff_toNat_le.mpr h)
        omega
      rw [if_neg hfull, copyDown_eq (by omega) (by omega), ok_bind, storeCell_inside (by omega), ok_bind,
        storeCell_inside (by omega), ok_bind, hlen]
      exact ⟨_, rfl, hf.insert hc hroom (by omega), rfl⟩

theorem closeGap_eq {start : UInt32} (hlt : b.length.toNat < b.capacity.toNat)
    (hstart : start.toNat ≤ b.length.toNat) :
    b.closeGap start =
      .ok (moved start.toNat (start.toNat + 1) (b.length.toNat - start.toNat) b.buffer) :=
  copyUp_eq (i := 0) (by omega) (by omega)

theorem backspace_ok (h : b.Holds s) :
    ∃ b', b.backspace = .ok b' ∧
      b'.Holds { s with field := if s.readOnly then s.field else s.field.backspace } := by
  obtain ⟨hf, hr⟩ := h
  have hle := hf.cursor_le
  have hlt := hf.length_lt
  rw [backspace, hr]
  by_cases hro : s.readOnly = true
  · rw [if_pos hro, if_pos hro]
    exact ⟨b, rfl, hf, hr⟩
  · rw [if_neg hro, if_neg hro]
    by_cases hzero : b.cursor = 0
    · have hstart : s.field.cursor = 0 := by
        rw [← hf.cursor, hzero]
        rfl
      rw [if_pos hzero, Field.backspace, dif_pos hstart]
      exact ⟨b, rfl, hf, hr⟩
    · have hpos : 0 < b.cursor.toNat :=
        Nat.pos_of_ne_zero fun h0 => hzero (UInt32.toNat_inj.mp h0)
      have hprev := toNat_pred hpos
      rw [if_neg hzero, closeGap_eq hlt (by omega), ok_bind, hprev, Nat.sub_add_cancel hpos]
      exact ⟨_, rfl, hf.backspace hpos, rfl⟩

theorem delete_ok (h : b.Holds s) :
    ∃ b', b.delete = .ok b' ∧
      b'.Holds { s with field := if s.readOnly then s.field else s.field.delete } := by
  obtain ⟨hf, hr⟩ := h
  have hlt := hf.length_lt
  rw [delete, hr]
  by_cases hro : s.readOnly = true
  · rw [if_pos hro, if_pos hro]
    exact ⟨b, rfl, hf, hr⟩
  · rw [if_neg hro, if_neg hro]
    by_cases hend : b.length ≤ b.cursor
    · have hout : ¬ s.field.cursor < s.field.text.length := by
        have := UInt32.le_iff_toNat_le.mp hend
        rw [← hf.cursor, ← hf.length]
        omega
      rw [if_pos hend, Field.delete, dif_neg hout]
      exact ⟨b, rfl, hf, hr⟩
    · have hin : b.cursor.toNat < b.length.toNat :=
        Nat.lt_of_not_le fun hle => hend (UInt32.le_iff_toNat_le.mpr hle)
      rw [if_neg hend, closeGap_eq hlt (by omega), ok_bind]
      exact ⟨_, rfl, hf.delete hin, rfl⟩

theorem onKeyDown_ok (h : b.Holds s) (key : CStr) :
    ∃ b', b.onKeyDown (some key) = .ok b' ∧
      b'.Holds { s with field := s.onKeyDown (asText key.chars) } := by
  have hr := h.2
  match hchars : key.chars with
  | [] =>
    have hcode : b.onKeyDown (some key) = .ok b := if_pos (.inr (by rw [CStr.char, hchars]; rfl))
    rw [hcode]
    exact ⟨b, rfl, h⟩
  | c :: t =>
    have hc : key.char 0 = c := by rw [CStr.char, hchars]; rfl
    have hne : c ≠ 0 := key.nonzero c (by simp [hchars])
    have hspec : s.onKeyDown (asText (c :: t)) =
        if s.readOnly then s.field
        else if c = 13 ∨ c = 10 then s.field.insert '\n'
        else if isprintLocal c then s.field.insert (.ofUInt8 c)
        else s.field := by
      have hcr : Char.ofUInt8 c = '\r' ↔ c = 13 := ofUInt8_inj (d := 13)
      have hnl : Char.ofUInt8 c = '\n' ↔ c = 10 := ofUInt8_inj (d := 10)
      simp only [asText, List.map_cons, Controls.TextBox.onKeyDown, Bool.or_eq_true, decide_eq_true_eq,
        hcr, hnl, isPrint_ofUInt8]
    have hprint : isprintLocal c = true ↔ 32 ≤ c ∧ c ≤ 126 := by simp [isprintLocal]
    rw [hspec, onKeyDown, hc, hr]
    simp only [hne, or_false, hprint]
    split_ifs with hro
    · exact ⟨b, rfl, h⟩
    · have hinsert := insert_ok h (show (10 : UInt8) ≠ 0 by decide)
      rw [if_neg hro] at hinsert
      exact hinsert
    · simpa [hro] using insert_ok h hne
    · exact ⟨b, rfl, h⟩

theorem onSpecialKeyDown_ok (h : b.Holds s) (key : UInt8) :
    ∃ b', b.onSpecialKeyDown key = .ok b' ∧
      b'.Holds { s with field := s.onSpecialKeyDown key.toNat } := by
  have hr := h.2
  have hkey : ∀ n : UInt8, key = n ↔ key.toNat = n.toNat := fun n => UInt8.toNat_inj.symm
  rw [onSpecialKeyDown, Controls.TextBox.onSpecialKeyDown]
  simp only [hkey, UInt8.reduceToNat, hr]
  split_ifs with hro
  · exact ⟨b, rfl, h⟩
  · exact ⟨_, rfl, TextFields.Holds.left h.1, hr⟩
  · exact ⟨_, rfl, TextFields.Holds.right h.1, hr⟩
  · simpa [hro] using backspace_ok h
  · simpa [hro] using delete_ok h
  · exact ⟨b, rfl, h⟩

theorem step_ok (h : b.Holds s) (e : TextBoxEvent) :
    ∃ b', b.step e = .ok b' ∧ b'.Holds (edit s e) := by
  cases e with
  | field e =>
    cases e with
    | setText text => exact setText_ok h text
    | keyDown key =>
      cases key with
      | none => exact ⟨b, rfl, h⟩
      | some key => exact onKeyDown_ok h key
    | specialKeyDown key => exact onSpecialKeyDown_ok h key
  | setReadOnly value => exact ⟨_, rfl, h.1, rfl⟩

/-- The empty text of a new text box. -/
def start (capacity : Nat) : Controls.TextBox :=
  ⟨⟨[], max capacity 2, 0, Nat.le_refl 0, by rw [List.length_nil]; omega⟩, false⟩

theorem new_ok (mem : Nat → UInt8) (capacity : UInt32) :
    ∃ b, new mem capacity = .ok b ∧ b.Holds (start capacity.toNat) := by
  have hcap : (if 1 < capacity then capacity else 2).toNat = max capacity.toNat 2 := by
    split
    · next hpos =>
      have := UInt32.lt_iff_toNat_lt.mp hpos
      exact (Nat.max_eq_left this).symm
    · next hsmall =>
      have : ¬ 1 < capacity.toNat := fun hpos => hsmall (UInt32.lt_iff_toNat_lt.mpr hpos)
      rw [Nat.max_eq_right (by omega)]
      rfl
  rw [new, storeCell_inside (by rw [hcap]; omega), ok_bind]
  have hnul : StringAt (Function.update mem 0 0) 0 [] := Function.update_self ..
  exact ⟨_, rfl, ⟨⟨[], hnul, rfl⟩, hcap, rfl, rfl⟩, rfl⟩

end TextBox

end TextFields
end Hashx86
