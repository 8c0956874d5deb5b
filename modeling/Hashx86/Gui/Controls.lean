import Hashx86.Lib.Run

/-!
# Controls (`gui/button.cpp`, `gui/slider.cpp`, `gui/scrollbar.cpp`, `gui/listview.cpp`, ...)

The widgets with a value, a text or a click event, and their handlers. A handler gets the fields of
`Widget` (`Base`), its own state and an event, and gives both back with the events that it posts.

* `Range`, `Field`: a value in its range, a text with a cursor. They carry their invariants.
* `Widget.step`, `Widget.posts`: one event; `Widget.shown`: what a user sees of the state.
-/

namespace Hashx86
namespace Controls

/-- The fields of `Widget` that the handlers use. -/
structure Base where
  pid : Nat
  id : Nat
  x : Int
  y : Int
  w : Int
  h : Int
  enabled : Bool
  isVisible : Bool
  isFocused : Bool
  mouseCaptured : Bool
  deriving DecidableEq

/-- `PostEvent` of `ON_CLICK` to a process. -/
structure Post where
  pid : Nat
  widgetID : Nat
  param1 : Int
  deriving DecidableEq

/-- What the containers call on a widget. The coordinates are the container's. -/
inductive Event where
  | mouseDown (x y : Int) (button : Nat)
  | mouseUp (x y : Int) (button : Nat)
  | mouseMove (newx newy : Int)
  | mouseWheel (delta : Int)
  /-- A wheel on the `ScrollContainer` of a vertical bar, which sets the bar's value. -/
  | containerWheel (delta : Int)
  | keyDown (key : List Char)
  | specialKeyDown (key : Nat)
  | setFocus (result : Bool)

structure Out (σ : Type) where
  base : Base
  state : σ
  posts : List Post

variable {σ : Type}

/-- Nothing happens. -/
def Out.same (b : Base) (s : σ) : Out σ := ⟨b, s, []⟩

def Base.containsCoordinate (b : Base) (x y : Int) : Bool :=
  b.x ≤ x && x < b.x + b.w && b.y ≤ y && y < b.y + b.h

/-- An event for the owner; there is none for PID 0. -/
def Base.post (b : Base) (param1 : Int) : List Post :=
  if b.pid = 0 then [] else [⟨b.pid, b.id, param1⟩]

/-- `!enabled || !isVisible` -/
def Base.off (b : Base) : Bool := !b.enabled || !b.isVisible

/-- `Resize`, whose allocation succeeds. -/
def Base.resize (b : Base) (newW newH : Int) : Base :=
  if newW < 0 || newH < 0 then b else { b with w := newW, h := newH }

@[simp] theorem Base.resize_enabled (b : Base) (newW newH : Int) :
    (b.resize newW newH).enabled = b.enabled := by
  unfold Base.resize
  split <;> rfl

@[simp] theorem Base.resize_mouseCaptured (b : Base) (newW newH : Int) :
    (b.resize newW newH).mouseCaptured = b.mouseCaptured := by
  unfold Base.resize
  split <;> rfl

def guiMulDivU32 (num den : Nat) : Nat := if den = 0 then 0 else num / den % 0x100000000

def guiMulDivSigned (a b d : Int) : Int :=
  if d ≤ 0 then 0
  else
    let magnitude := guiMulDivU32 (a.natAbs * b.natAbs) d.toNat
    if decide (a < 0) ≠ decide (b < 0) then -(magnitude : Int) else magnitude

/-- A value in its range, which is not empty. -/
structure Range where
  lo : Int
  hi : Int
  value : Int
  lo_le : lo ≤ value
  le_hi : value ≤ hi

def Range.clamp (r : Range) (v : Int) : Int :=
  if v < r.lo then r.lo else if r.hi < v then r.hi else v

theorem Range.lo_le_clamp (r : Range) (v : Int) : r.lo ≤ r.clamp v := by
  have := r.lo_le
  have := r.le_hi
  unfold Range.clamp
  split
  · exact Int.le_refl _
  · split <;> omega

theorem Range.clamp_le_hi (r : Range) (v : Int) : r.clamp v ≤ r.hi := by
  have := r.lo_le
  have := r.le_hi
  unfold Range.clamp
  split
  · omega
  · split <;> omega

def Range.set (r : Range) (v : Int) : Range :=
  ⟨r.lo, r.hi, r.clamp v, r.lo_le_clamp v, r.clamp_le_hi v⟩

/-- The event of `SetValue`, if the value changes. -/
def Range.posts (r : Range) (b : Base) (v : Int) : List Post :=
  if r.clamp v = r.value then [] else b.post (r.clamp v)

/-! ## `Button` -/

structure Button where
  isPressed : Bool
  isHovered : Bool

def Button.handle (b : Base) (s : Button) : Event → Out Button
  | .mouseDown _ _ button =>
    if b.off || button ≠ 1 then .same b s else ⟨b, { s with isPressed := true }, []⟩
  | .mouseUp x y button =>
    if !b.isVisible || button ≠ 1 then .same b s
    else if !s.isPressed then .same b s
    else
      let s := { s with isPressed := false }
      if !b.enabled || !b.containsCoordinate x y then ⟨b, s, []⟩ else ⟨b, s, b.post 0⟩
  | .mouseMove newx newy =>
    let inside := b.enabled && b.containsCoordinate newx newy
    ⟨b, ⟨s.isPressed && inside, inside⟩, []⟩
  | .keyDown key =>
    if b.off then .same b s
    else if key.head?.any (fun c => c = '\r' || c = '\n' || c = ' ') then ⟨b, s, b.post 0⟩
    else .same b s
  | _ => .same b s

/-! ## `Slider` -/

structure Slider where
  range : Range
  dragging : Bool
  dragOffset : Int

def kThumbSize : Int := 12

def Slider.span (s : Slider) : Nat := (s.range.hi - s.range.lo).toNat

def Slider.usableWidth (b : Base) : Int := max 0 (b.w - kThumbSize)

def Slider.thumbX (b : Base) (s : Slider) : Int :=
  let usable := Slider.usableWidth b
  if s.span = 0 || usable ≤ 0 then 0
  else
    let pos := guiMulDivU32 ((s.range.value - s.range.lo).toNat * usable.toNat) s.span
    if usable < pos then usable else pos

def Slider.valueForThumbX (b : Base) (s : Slider) (thumbX : Int) : Int :=
  let usable := Slider.usableWidth b
  if s.span = 0 || usable ≤ 0 then s.range.lo
  else
    let thumbX := if thumbX < 0 then 0 else if usable < thumbX then usable else thumbX
    let result := s.range.lo + guiMulDivU32 (thumbX.toNat * s.span) usable.toNat
    if s.range.hi < result then s.range.hi else result

def Slider.setValue (b : Base) (s : Slider) (v : Int) : Out Slider :=
  ⟨b, { s with range := s.range.set v }, s.range.posts b v⟩

def Slider.keyStep (s : Slider) : Int := max 1 (s.span / 10 : Nat)

def Slider.handle (b : Base) (s : Slider) : Event → Out Slider
  | .mouseDown x _ button =>
    if b.off || button ≠ 1 then .same b s
    else
      let localX := x - b.x
      let thumbX := s.thumbX b
      let out :=
        if thumbX ≤ localX && localX < thumbX + kThumbSize then
          ⟨b, { s with dragOffset := localX - thumbX }, []⟩
        else
          let s := { s with dragOffset := kThumbSize / 2 }
          s.setValue b (s.valueForThumbX b (localX - s.dragOffset))
      ⟨{ out.base with mouseCaptured := true }, { out.state with dragging := true }, out.posts⟩
  | .mouseMove newx _ =>
    if !s.dragging || b.off then .same b s
    else s.setValue b (s.valueForThumbX b (newx - b.x - s.dragOffset))
  | .mouseUp _ _ button =>
    if button ≠ 1 then .same b s
    else ⟨{ b with mouseCaptured := false }, { s with dragging := false }, []⟩
  | .mouseWheel delta => if b.off then .same b s else s.setValue b (s.range.value + delta)
  | .specialKeyDown key =>
    if b.off then .same b s
    else if key = 0x4B || key = 0x50 then s.setValue b (s.range.value - 1)
    else if key = 0x4D || key = 0x48 then s.setValue b (s.range.value + 1)
    else if key = 0x49 then s.setValue b (s.range.value + s.keyStep)
    else if key = 0x51 then s.setValue b (s.range.value - s.keyStep)
    else if key = 0x47 then s.setValue b s.range.lo
    else if key = 0x4F then s.setValue b s.range.hi
    else .same b s
  | _ => .same b s

/-! ## `ScrollBar` -/

/-- `range.hi` is `MaxValue()`. -/
structure ScrollBar where
  range : Range
  maxValue : Int
  pageSize : Int
  vertical : Bool
  dragging : Bool
  dragStart : Int
  dragValue : Int
  hi_eq : range.hi = if maxValue - pageSize < range.lo then range.lo else maxValue - pageSize

def ScrollBar.trackLength (b : Base) (s : ScrollBar) : Int := if s.vertical then b.h else b.w

def ScrollBar.thumbLength (b : Base) (s : ScrollBar) : Int :=
  let span := s.maxValue - s.range.lo
  let track := s.trackLength b
  if span = 0 || track ≤ 0 then max 0 track
  else if span ≤ s.pageSize then track
  else
    let len : Int := guiMulDivU32 (track.toNat * s.pageSize.toNat) span.toNat
    let len := if len < 16 then 16 else len
    if track < len then track else len

def ScrollBar.valueRange (s : ScrollBar) : Int :=
  let r := s.range.hi - s.range.lo
  if r < 1 then 1 else if 2147483647 < r then 2147483647 else r

def ScrollBar.thumbPos (b : Base) (s : ScrollBar) : Int :=
  let track := s.trackLength b
  let thumb := s.thumbLength b
  if track ≤ thumb then 0
  else guiMulDivU32 ((s.range.value - s.range.lo).toNat * (track - thumb).toNat) s.valueRange.toNat

def ScrollBar.setValue (b : Base) (s : ScrollBar) (v : Int) : Out ScrollBar :=
  ⟨b, { s with range := s.range.set v, hi_eq := s.hi_eq }, s.range.posts b v⟩

/-- The position of the pointer along the bar. -/
def ScrollBar.along (b : Base) (s : ScrollBar) (x y : Int) : Int :=
  if s.vertical then y - b.y else x - b.x

def ScrollBar.handle (b : Base) (s : ScrollBar) : Event → Out ScrollBar
  | .mouseDown x y button =>
    if b.off || button ≠ 1 then .same b s
    else
      let pos := s.along b x y
      let thumb := s.thumbLength b
      let thumbPos := s.thumbPos b
      if thumbPos ≤ pos && pos < thumbPos + thumb then
        ⟨{ b with mouseCaptured := true },
          { s with dragging := true, dragStart := pos, dragValue := s.range.value }, []⟩
      else if pos < thumbPos then s.setValue b (s.range.value - s.pageSize)
      else s.setValue b (s.range.value + s.pageSize)
  | .mouseMove newx newy =>
    if !s.dragging || b.off then .same b s
    else
      let usable := s.trackLength b - s.thumbLength b
      if usable ≤ 0 then .same b s
      else
        let deltaPx := max (-usable) (min usable (s.along b newx newy - s.dragStart))
        s.setValue b (s.dragValue + guiMulDivSigned deltaPx s.valueRange usable)
  | .mouseUp _ _ _ => ⟨{ b with mouseCaptured := false }, { s with dragging := false }, []⟩
  | .mouseWheel delta => if b.off then .same b s else s.setValue b (s.range.value - delta)
  | .containerWheel delta => s.setValue b (s.range.value - delta)
  | _ => .same b s

/-! ## `ListView` -/

structure ListView where
  itemCount : Int
  scrollOffset : Int
  selectedIndex : Int
  hoveredIndex : Int
  itemHeight : Int
  isDraggingThumb : Bool
  dragStartY : Int
  dragStartOffset : Int

def headerHeight : Int := 22

def scrollbarWidth : Int := 8

def ListView.visibleItems (b : Base) (s : ListView) : Int :=
  let contentH := b.h - headerHeight - 2
  if 0 < s.itemHeight && 0 < contentH then contentH / s.itemHeight else 0

def ListView.needScrollbar (b : Base) (s : ListView) : Bool :=
  let contentH := b.h - headerHeight - 2
  if contentH ≤ 0 || s.itemHeight ≤ 0 || b.w ≤ scrollbarWidth + 2 then false
  else contentH / s.itemHeight < s.itemCount

/-- The row at a height; -1 for none. -/
def ListView.hitRow (b : Base) (s : ListView) (localY : Int) : Int :=
  let visible := s.visibleItems b
  let top := headerHeight + 1
  if visible ≤ 0 || s.itemCount ≤ 0 || localY < top || top + visible * s.itemHeight ≤ localY then -1
  else
    let row := s.scrollOffset + (localY - top) / s.itemHeight
    if row < 0 || s.itemCount ≤ row then -1 else row

def ListView.thumbHeight (s : ListView) (visibleItems sbH : Int) : Int :=
  if visibleItems ≤ 0 || sbH ≤ 0 || s.itemCount ≤ 0 then 0
  else
    let thumbH : Int := guiMulDivU32 (visibleItems.toNat * sbH.toNat) s.itemCount.toNat
    min sbH (max 10 thumbH)

def ListView.thumbY (s : ListView) (visibleItems sbH thumbH : Int) : Int :=
  let top := headerHeight + 1
  let travel := sbH - thumbH
  if visibleItems ≤ 0 || s.itemCount ≤ visibleItems || travel ≤ 0 then top
  else top + guiMulDivU32 (s.scrollOffset.toNat * travel.toNat) (s.itemCount - visibleItems).toNat

/-- The largest scroll offset, or 0. -/
def ListView.maxOffset (b : Base) (s : ListView) : Int := max 0 (s.itemCount - s.visibleItems b)

def ListView.clampScrollOffset (b : Base) (s : ListView) : ListView :=
  { s with scrollOffset := min (s.maxOffset b) (max 0 s.scrollOffset) }

def ListView.ensureSelectionVisible (b : Base) (s : ListView) : ListView :=
  let visible := s.visibleItems b
  let s :=
    if 0 ≤ s.selectedIndex then
      if s.selectedIndex < s.scrollOffset then { s with scrollOffset := s.selectedIndex }
      else if 0 < visible && s.scrollOffset + visible ≤ s.selectedIndex then
        { s with scrollOffset := s.selectedIndex - visible + 1 }
      else s
    else s
  s.clampScrollOffset b

/-- The row that a special key selects. -/
def ListView.keyRow (b : Base) (s : ListView) (key : Nat) : Option Int :=
  let last := s.itemCount - 1
  let visible := s.visibleItems b
  let i := s.selectedIndex
  if key = 0x48 then some (if i < 0 then last else if 0 < i then i - 1 else i)
  else if key = 0x50 then some (if i < 0 then 0 else if i < last then i + 1 else i)
  else if key = 0x47 then some 0
  else if key = 0x4F then some last
  else if key = 0x49 then some (if i < 0 then 0 else max 0 (i - visible))
  else if key = 0x51 then some (if i < 0 then 0 else min last (i + visible))
  else none

/-- The right end of the rows. -/
def ListView.rowRight (b : Base) (s : ListView) : Int :=
  if s.needScrollbar b then b.w - scrollbarWidth - 1 else b.w - 1

def ListView.handle (b : Base) (s : ListView) : Event → Out ListView
  | .mouseDown x y button =>
    if b.off || button ≠ 1 then .same b s
    else
      let localX := x - b.x
      let localY := y - b.y
      if s.needScrollbar b && b.w - scrollbarWidth - 1 ≤ localX && localX < b.w &&
          headerHeight < localY && localY < b.h then
        let visibleItems := s.visibleItems b
        let sbH := b.h - headerHeight - 2
        let thumbH := s.thumbHeight visibleItems sbH
        let thumbY := s.thumbY visibleItems sbH thumbH
        if thumbY ≤ localY && localY < thumbY + thumbH then
          ⟨{ b with mouseCaptured := true }, { s with
            isDraggingThumb := true, dragStartY := localY, dragStartOffset := s.scrollOffset }, []⟩
        else
          let newOff := s.scrollOffset + if localY < thumbY then -visibleItems else visibleItems
          ⟨b, { s with scrollOffset := min (s.maxOffset b) (max 0 newOff) }, []⟩
      else
        let clickedItem := s.hitRow b localY
        if 0 ≤ clickedItem && 0 ≤ localX && localX < s.rowRight b then
          ⟨b, { s with selectedIndex := clickedItem }, b.post 0⟩
        else .same b s
  | .mouseMove newx newy =>
    if b.off then .same b s
    else
      let localX := newx - b.x
      let localY := newy - b.y
      if s.isDraggingThumb then
        let visibleItems := s.visibleItems b
        let sbH := b.h - headerHeight - 2
        let travel := sbH - s.thumbHeight visibleItems sbH
        let range := s.itemCount - visibleItems
        if visibleItems ≤ 0 || range ≤ 0 || travel ≤ 0 then .same b s
        else
          let delta := max (-travel) (min travel (localY - s.dragStartY))
          let newOff := s.dragStartOffset + guiMulDivSigned delta range travel
          ⟨b, { s with scrollOffset := min range (max 0 newOff) }, []⟩
      else if !b.isFocused then .same b s
      else
        let hovered := s.hitRow b localY
        if 0 ≤ hovered && 0 ≤ localX && localX < s.rowRight b then
          ⟨b, { s with hoveredIndex := hovered }, []⟩
        else ⟨b, { s with hoveredIndex := if 0 ≤ s.hoveredIndex then -1 else s.hoveredIndex }, []⟩
  | .mouseUp _ _ _ => ⟨{ b with mouseCaptured := false }, { s with isDraggingThumb := false }, []⟩
  | .mouseWheel delta =>
    if b.off || s.visibleItems b ≤ 0 then .same b s
    else ⟨b, { s with
      scrollOffset := min (s.maxOffset b) (max 0 (s.scrollOffset - delta * 3)) }, []⟩
  | .keyDown key =>
    if b.off then .same b s
    else if key.head?.any (fun c => c = '\r' || c = '\n' || c = ' ') && 0 ≤ s.selectedIndex then
      ⟨b, s, b.post 0⟩
    else .same b s
  | .specialKeyDown key =>
    if b.off || s.itemCount ≤ 0 then .same b s
    else
      match s.keyRow b key with
      | none => .same b s
      | some i => ⟨b, ({ s with selectedIndex := i } : ListView).ensureSelectionVisible b, []⟩
  | _ => .same b s

/-! ## `SpinBox` -/

structure SpinBox where
  range : Range
  step : Int
  pressed : Bool

def SpinBox.setValue (b : Base) (s : SpinBox) (v : Int) : Out SpinBox :=
  ⟨b, { s with range := s.range.set v }, s.range.posts b v⟩

def SpinBox.handle (b : Base) (s : SpinBox) : Event → Out SpinBox
  | .mouseDown x y button =>
    if b.off || button ≠ 1 || !b.containsCoordinate x y then .same b s
    else ⟨b, { s with pressed := true }, []⟩
  | .mouseUp x y button =>
    if button ≠ 1 then .same b s
    else
      let wasPressed := s.pressed
      let s := { s with pressed := false }
      if b.off || !wasPressed || !b.containsCoordinate x y then ⟨b, s, []⟩
      else s.setValue b (s.range.value + if y - b.y < b.h / 2 then s.step else -s.step)
  | .mouseWheel delta => if b.off then .same b s else s.setValue b (s.range.value + delta * s.step)
  | .specialKeyDown key =>
    if b.off then .same b s
    else if key = 0x48 then s.setValue b (s.range.value + s.step)
    else if key = 0x50 then s.setValue b (s.range.value - s.step)
    else .same b s
  | _ => .same b s

/-! ## `ComboBox` -/

structure ComboBox where
  count : Int
  selected : Int
  isOpen : Bool
  pressed : Bool
  closedHeight : Int

def itemHeight : Int := 22

/-- `SetOpen`: the box grows by its list. -/
def ComboBox.setOpen (b : Base) (s : ComboBox) (value : Bool) : Base × ComboBox :=
  if s.isOpen = value then (b, s)
  else
    let newH := if value then s.closedHeight + s.count * itemHeight else s.closedHeight
    (b.resize b.w newH, { s with isOpen := value })

def ComboBox.select (b : Base) (s : ComboBox) (index : Int) : Out ComboBox :=
  if index < 0 || s.count ≤ index then .same b s
  else
    let (b, s) := ComboBox.setOpen b { s with selected := index } false
    ⟨b, s, b.post index⟩

def ComboBox.handle (b : Base) (s : ComboBox) : Event → Out ComboBox
  | .mouseDown x y button =>
    if b.off || button ≠ 1 || !b.containsCoordinate x y then .same b s
    else ⟨b, { s with pressed := true }, []⟩
  | .mouseUp x y button =>
    if button ≠ 1 then .same b s
    else
      let wasPressed := s.pressed
      let s := { s with pressed := false }
      if b.off || !wasPressed || !b.containsCoordinate x y then ⟨b, s, []⟩
      else if !s.isOpen then
        let (b, s) := s.setOpen b true
        ⟨b, s, []⟩
      else if s.closedHeight ≤ y - b.y then s.select b ((y - b.y - s.closedHeight) / itemHeight)
      else
        let (b, s) := s.setOpen b false
        ⟨b, s, []⟩
  | .setFocus result =>
    -- `OnFocusLost` closes the list
    if b.isFocused && !result then
      let (b, s) := s.setOpen b false
      ⟨b, s, []⟩
    else .same b s
  | _ => .same b s

/-! ## `InputBox` and `TextBox` -/

/-- A text in a buffer, with the cursor in it. -/
structure Field where
  text : List Char
  capacity : Nat
  cursor : Nat
  cursor_le : cursor ≤ text.length
  fits : text.length < capacity

def Field.insert (f : Field) (c : Char) : Field :=
  if h : f.text.length + 1 < f.capacity then
    { f with
      text := f.text.insertIdx f.cursor c
      cursor := f.cursor + 1
      cursor_le := by
        rw [List.length_insertIdx_of_le_length f.cursor_le]
        exact Nat.succ_le_succ f.cursor_le
      fits := by rwa [List.length_insertIdx_of_le_length f.cursor_le] }
  else f

def Field.backspace (f : Field) : Field :=
  if h : f.cursor = 0 then f
  else
    have hlt : f.cursor - 1 < f.text.length := by
      have := f.cursor_le
      omega
    { f with
      text := f.text.eraseIdx (f.cursor - 1)
      cursor := f.cursor - 1
      cursor_le := by
        have := f.cursor_le
        rw [List.length_eraseIdx_of_lt hlt]
        omega
      fits := by
        have := f.fits
        rw [List.length_eraseIdx_of_lt hlt]
        omega }

def Field.delete (f : Field) : Field :=
  if h : f.cursor < f.text.length then
    { f with
      text := f.text.eraseIdx f.cursor
      cursor_le := by
        rw [List.length_eraseIdx_of_lt h]
        omega
      fits := by
        have := f.fits
        rw [List.length_eraseIdx_of_lt h]
        omega }
  else f

def Field.moveTo (f : Field) (cursor : Nat) : Field :=
  { f with cursor := min cursor f.text.length, cursor_le := Nat.min_le_right _ _ }

/-- Printable ASCII. -/
def isPrint (c : Char) : Bool := 32 ≤ c.toNat && c.toNat ≤ 126

def InputBox.onKeyDown (f : Field) (key : List Char) : Field :=
  if key = "Backspace".toList then f.backspace
  else
    match key with
    | [c] => if isPrint c then f.insert c else f
    | _ => f

def InputBox.onSpecialKeyDown (f : Field) (key : Nat) : Field :=
  if key = 0x4B then f.moveTo (f.cursor - 1)
  else if key = 0x4D then f.moveTo (f.cursor + 1)
  else if key = 0x47 then f.moveTo 0
  else if key = 0x4F then f.moveTo f.text.length
  else if key = 0x0E then InputBox.onKeyDown f "Backspace".toList
  else if key = 0x53 then f.delete
  else f

def InputBox.handle (b : Base) (f : Field) : Event → Out Field
  | .keyDown key => ⟨b, InputBox.onKeyDown f key, []⟩
  | .specialKeyDown key => ⟨b, InputBox.onSpecialKeyDown f key, []⟩
  | _ => .same b f

structure TextBox where
  field : Field
  readOnly : Bool

def TextBox.onKeyDown (s : TextBox) (key : List Char) : Field :=
  match key with
  | [] => s.field
  | c :: _ =>
    if s.readOnly then s.field
    else if c = '\r' || c = '\n' then s.field.insert '\n'
    else if isPrint c then s.field.insert c
    else s.field

def TextBox.onSpecialKeyDown (s : TextBox) (key : Nat) : Field :=
  if s.readOnly then s.field
  else if key = 0x4B then s.field.moveTo (s.field.cursor - 1)
  else if key = 0x4D then s.field.moveTo (s.field.cursor + 1)
  else if key = 0x0E then s.field.backspace
  else if key = 0x53 then s.field.delete
  else s.field

def TextBox.handle (b : Base) (s : TextBox) : Event → Out TextBox
  | .keyDown key => ⟨b, { s with field := s.onKeyDown key }, []⟩
  | .specialKeyDown key => ⟨b, { s with field := s.onSpecialKeyDown key }, []⟩
  | _ => .same b s

/-! ## All controls -/

inductive Control where
  | button (s : Button)
  | slider (s : Slider)
  | scrollBar (s : ScrollBar)
  | listView (s : ListView)
  | spinBox (s : SpinBox)
  | comboBox (s : ComboBox)
  | inputBox (f : Field)
  | textBox (s : TextBox)

def Out.map {τ : Type} (f : σ → τ) (o : Out σ) : Out τ := ⟨o.base, f o.state, o.posts⟩

def Control.handle (b : Base) : Control → Event → Out Control
  | .button s, e => (s.handle b e).map .button
  | .slider s, e => (s.handle b e).map .slider
  | .scrollBar s, e => (s.handle b e).map .scrollBar
  | .listView s, e => (s.handle b e).map .listView
  | .spinBox s, e => (s.handle b e).map .spinBox
  | .comboBox s, e => (s.handle b e).map .comboBox
  | .inputBox f, e => (InputBox.handle b f e).map .inputBox
  | .textBox s, e => (s.handle b e).map .textBox

/-- Value, selection and scroll position, and the text. -/
def Control.shown : Control → List Int × List Char
  | .button _ => ([], [])
  | .slider s => ([s.range.value], [])
  | .scrollBar s => ([s.range.value], [])
  | .listView s => ([s.selectedIndex, s.scrollOffset], [])
  | .spinBox s => ([s.range.value], [])
  | .comboBox s => ([s.selected], [])
  | .inputBox f => ([], f.text)
  | .textBox s => ([], s.field.text)

structure Widget where
  base : Base
  control : Control

/-- The widget after the event. The focus flag is `Widget::SetFocus`'s own. -/
def Widget.step (v : Widget) (e : Event) : Widget :=
  let out := v.control.handle v.base e
  match e with
  | .setFocus result => ⟨{ out.base with isFocused := result }, out.state⟩
  | _ => ⟨out.base, out.state⟩

def Widget.posts (v : Widget) (e : Event) : List Post := (v.control.handle v.base e).posts

def Widget.shown (v : Widget) : List Int × List Char := v.control.shown

def Widget.setEnabled (v : Widget) (value : Bool) : Widget :=
  if v.base.enabled = value then v
  else
    let v := { v with base := { v.base with enabled := value } }
    if value then v
    else Widget.step { v with base := { v.base with mouseCaptured := false } } (.setFocus false)

end Controls
end Hashx86
