import Hashx86.Gui.MathUtil
import Hashx86.Gui.Sizing
import Hashx86.Lib.Run

/-!
# The list view (`gui/listview.cpp`)

The texts of cells and titles, which only the drawing reads, are left out.

* `Stored`: the slots below the item count are valid and the row height is positive; every operation
  keeps it (`Stored.step`).
* `Kept`: the offset and the selected and hovered rows are in their bounds.
* `ensureSelectionVisible_spec`: what brings the selected row into view.
* `kept_along_iff`: the bounds hold along a run exactly where no `Resize` leaves the offset past the
  end and no page-down overflows (`Admits`).
-/

namespace Hashx86

open Lib

structure ListViewItem where
  type : UInt8
  valid : Bool

structure ListView extends Sizing.Widget where
  enabled : Bool
  isVisible : Bool
  isFocused : Bool
  mouseCaptured : Bool
  items : Vector ListViewItem 64
  /-- The widths of the columns. -/
  columns : List Int32
  itemCount : Int32
  scrollOffset : Int32
  selectedIndex : Int32
  hoveredIndex : Int32
  itemHeight : Int32
  isDraggingThumb : Bool
  dragStartY : Int32
  dragStartOffset : Int32

namespace ListView

def MAX_ITEMS : Int32 := 64
def HEADER_HEIGHT : Int32 := 22
def SCROLLBAR_WIDTH : Int32 := 8
def MAX_COLUMNS : Nat := 4

/-- `ListView::ListView`, or an `Abort` of `Widget::Widget`. -/
def construct (attr : Sizing.Attr) (w h : Int32) (mem : Bool × Bool) : Option ListView :=
  (Sizing.newWidget .plain attr w h mem).map fun v =>
    { toWidget := v, enabled := true, isVisible := true, isFocused := false, mouseCaptured := false,
      items := Vector.replicate 64 { type := 0, valid := false }, columns := [], itemCount := 0,
      scrollOffset := 0, selectedIndex := -1, hoveredIndex := -1, itemHeight := 18,
      isDraggingThumb := false, dragStartY := 0, dragStartOffset := 0 }

/-! ## Geometry -/

/-- `h - LISTVIEW_HEADER_HEIGHT - 2`. -/
def contentHeight (h : Int32) : Int32 := h - HEADER_HEIGHT - 2

/-- `GetVisibleItemCount` for a height and a row height. -/
def visibleAt (h itemHeight : Int32) : Int32 :=
  if 0 < itemHeight ∧ 0 < contentHeight h then contentHeight h / itemHeight else 0

/-- `GetVisibleItemCount`. -/
def getVisibleItemCount (l : ListView) : Int32 := visibleAt l.h l.itemHeight

/-- `NeedScrollbar`. -/
def needScrollbar (l : ListView) : Bool :=
  if contentHeight l.h ≤ 0 ∨ l.itemHeight ≤ 0 then false
  else if l.w ≤ SCROLLBAR_WIDTH + 2 then false
  else contentHeight l.h / l.itemHeight < l.itemCount

/-- `HitRow`. -/
def hitRow (l : ListView) (localY : Int32) : Int32 :=
  let visible := l.getVisibleItemCount
  if visible ≤ 0 ∨ l.itemCount ≤ 0 then -1
  else
    let top := HEADER_HEIGHT + 1
    let rowsHeight := visible.toInt64 * l.itemHeight.toInt64
    if localY < top ∨ top.toInt64 + rowsHeight ≤ localY.toInt64 then -1
    else
      let row := l.scrollOffset + (localY - top) / l.itemHeight
      if row < 0 ∨ l.itemCount ≤ row then -1 else row

/-- `ScrollbarThumbHeight`. -/
def scrollbarThumbHeight (l : ListView) (visibleItems sbH : Int32) : Int32 :=
  if visibleItems ≤ 0 ∨ sbH ≤ 0 ∨ l.itemCount ≤ 0 then 0
  else
    holdLength 10 sbH <|
      guiMulDivU32 (visibleItems.toInt64.toUInt64 * sbH.toInt64.toUInt64) l.itemCount.toUInt32

/-- `ScrollbarThumbY`. -/
def scrollbarThumbY (l : ListView) (visibleItems sbH thumbH : Int32) : Int32 :=
  let top := HEADER_HEIGHT + 1
  if visibleItems ≤ 0 ∨ l.itemCount ≤ visibleItems then top
  else
    let travel := sbH - thumbH
    if travel ≤ 0 then top
    else
      let offset := guiMulDivU32 (l.scrollOffset.toInt64.toUInt64 * travel.toInt64.toUInt64)
        (l.itemCount - visibleItems).toUInt32
      top + offset.toInt32

/-- The thumb that is drawn and that a press finds. -/
def thumbHeight (l : ListView) : Int32 :=
  l.scrollbarThumbHeight l.getVisibleItemCount (contentHeight l.h)

def thumbY (l : ListView) : Int32 :=
  l.scrollbarThumbY l.getVisibleItemCount (contentHeight l.h) l.thumbHeight

/-! ## Items and selection -/

/-- `Clear`. -/
def clear (l : ListView) : ListView :=
  { l with
    itemCount := 0
    scrollOffset := 0
    selectedIndex := -1
    hoveredIndex := -1
    items := l.items.map fun item => { item with valid := false } }

/-- `AddColumn`. -/
def addColumn (l : ListView) (width : Int32) : ListView :=
  if MAX_COLUMNS ≤ l.columns.length then l else { l with columns := l.columns ++ [width] }

/-- `AddItem`. -/
def addItem (l : ListView) (type : UInt8) : ListView :=
  if MAX_ITEMS ≤ l.itemCount then l
  else
    { l with
      items := l.items.setIfInBounds l.itemCount.toInt.toNat { type, valid := true }
      itemCount := l.itemCount + 1 }

/-- `int maxOff = itemCount - visible`, and no less than zero. -/
def maxOffset (l : ListView) (visible : Int32) : Int32 :=
  if l.itemCount - visible < 0 then 0 else l.itemCount - visible

/-- `ClampScrollOffset`. -/
def clampScrollOffset (l : ListView) : ListView :=
  let maxOff := l.maxOffset l.getVisibleItemCount
  let off := if l.scrollOffset < 0 then 0 else l.scrollOffset
  { l with scrollOffset := if maxOff < off then maxOff else off }

/-- `EnsureSelectionVisible`. -/
def ensureSelectionVisible (l : ListView) : ListView :=
  let visible := l.getVisibleItemCount
  let off :=
    if 0 ≤ l.selectedIndex then
      if l.selectedIndex < l.scrollOffset then l.selectedIndex
      else if 0 < visible ∧ l.scrollOffset + visible ≤ l.selectedIndex then
        l.selectedIndex - visible + 1
      else l.scrollOffset
    else l.scrollOffset
  clampScrollOffset { l with scrollOffset := off }

/-- `SetItemHeight`. -/
def setItemHeight (l : ListView) (h : Int32) : ListView :=
  let h := if h < 10 then 10 else h
  let h := if 0 < contentHeight l.h ∧ contentHeight l.h < h then contentHeight l.h else h
  clampScrollOffset { l with itemHeight := h }

/-- `SetSelectedIndex`. -/
def setSelectedIndex (l : ListView) (index : Int32) : ListView :=
  if index < -1 ∨ l.itemCount ≤ index then l
  else
    let l := { l with selectedIndex := index }
    if 0 ≤ index then l.ensureSelectionVisible else l

/-- The row that a key selects, if it is one of those that navigate. -/
def keyRow (l : ListView) (key : UInt8) : Option Int32 :=
  let visible := l.getVisibleItemCount
  let last := l.itemCount - 1
  let selected := l.selectedIndex
  if key = 0x48 then some (if selected < 0 then last else if 0 < selected then selected - 1 else selected)
  else if key = 0x50 then
    some (if selected < 0 then 0 else if selected < last then selected + 1 else selected)
  else if key = 0x47 then some 0
  else if key = 0x4F then some last
  else if key = 0x49 then
    let row := if selected < 0 then 0 else selected - visible
    some (if row < 0 then 0 else row)
  else if key = 0x51 then
    some (if selected < 0 then 0
      else if last < selected + visible then last else selected + visible)
  else none

/-- `OnSpecialKeyDown`. -/
def onSpecialKeyDown (l : ListView) (key : UInt8) : ListView :=
  if !l.enabled || !l.isVisible || l.itemCount ≤ 0 then l
  else
    match l.keyRow key with
    | none => l
    | some row => ensureSelectionVisible { l with selectedIndex := row }

/-! ## The mouse -/

/-- `w - LISTVIEW_SCROLLBAR_WIDTH - 1`, or `w - 1` without a scrollbar. -/
def rowRight (l : ListView) : Int32 :=
  if l.needScrollbar then l.w - SCROLLBAR_WIDTH - 1 else l.w - 1

/-- The column of the scrollbar. -/
def onGutter (l : ListView) (localX localY : Int32) : Bool :=
  l.needScrollbar && l.w - SCROLLBAR_WIDTH - 1 ≤ localX && localX < l.w &&
    HEADER_HEIGHT < localY && localY < l.h

/-- An offset of 64 bits, held to the range of the list. -/
def heldOffset (l : ListView) (next : Int64) (maxOff : Int32) : ListView :=
  let next := if next < 0 then 0 else next
  let next := if maxOff.toInt64 < next then maxOff.toInt64 else next
  { l with scrollOffset := next.toInt32 }

/-- A press in the column of the scrollbar: the thumb, or a page toward the place. -/
def pressGutter (l : ListView) (localY : Int32) : ListView :=
  let visibleItems := l.getVisibleItemCount
  if l.thumbY ≤ localY ∧ localY < l.thumbY + l.thumbHeight then
    { l with
      isDraggingThumb := true
      dragStartY := localY
      dragStartOffset := l.scrollOffset
      mouseCaptured := true }
  else
    let page := if localY < l.thumbY then -visibleItems else visibleItems
    l.heldOffset (l.scrollOffset.toInt64 + page.toInt64) (l.maxOffset visibleItems)

/-- `OnMouseDown`. -/
def onMouseDown (l : ListView) (mx my : Int32) (button : UInt8) : ListView :=
  if !l.enabled || !l.isVisible then l
  else if button ≠ 1 then l
  else
    let localX := mx - l.x
    let localY := my - l.y
    if l.onGutter localX localY then l.pressGutter localY
    else
      let clickedItem := l.hitRow localY
      if 0 ≤ clickedItem ∧ 0 ≤ localX ∧ localX < l.rowRight then
        { l with selectedIndex := clickedItem }
      else l

/-- `OnMouseWheel`. -/
def onMouseWheel (l : ListView) (delta : Int32) : ListView :=
  if !l.enabled || !l.isVisible then l
  else
    let visibleItems := l.getVisibleItemCount
    if visibleItems ≤ 0 then l
    else l.heldOffset (l.scrollOffset.toInt64 - delta.toInt64 * 3) (l.maxOffset visibleItems)

/-- `OnMouseUp`. -/
def onMouseUp (l : ListView) : ListView :=
  { l with isDraggingThumb := false, mouseCaptured := false }

/-- The part of `OnMouseMove` that drags the thumb. -/
def dragTo (l : ListView) (localY : Int32) : ListView :=
  let visibleItems := l.getVisibleItemCount
  if visibleItems ≤ 0 ∨ l.itemCount ≤ visibleItems then l
  else
    let travel := contentHeight l.h - l.thumbHeight
    if travel ≤ 0 then l
    else
      let range := l.itemCount - visibleItems
      let deltaOff := guiMulDivSigned (heldDelta localY l.dragStartY travel).toInt32 range travel
      l.heldOffset (l.dragStartOffset.toInt64 + deltaOff.toInt64) range

/-- `OnMouseMove`. -/
def onMouseMove (l : ListView) (mx my : Int32) : ListView :=
  if !l.enabled || !l.isVisible then l
  else
    let localX := mx - l.x
    let localY := my - l.y
    if l.isDraggingThumb then l.dragTo localY
    else if !l.isFocused then l
    else
      let hovered := l.hitRow localY
      if 0 ≤ hovered ∧ 0 ≤ localX ∧ localX < l.rowRight then { l with hoveredIndex := hovered }
      else if 0 ≤ l.hoveredIndex then { l with hoveredIndex := -1 }
      else l

/-- What is done to a list: its own entry points, `Resize`, and the places that move, hide, disable
or focus any widget. `mem` is the answer of the allocator. -/
inductive Op
  | addItem (type : UInt8)
  | clear
  | addColumn (width : Int32)
  | setItemHeight (h : Int32)
  | setSelectedIndex (index : Int32)
  | resize (w h : Int32) (mem : Bool)
  | key (key : UInt8)
  | wheel (delta : Int32)
  | down (mx my : Int32) (button : UInt8)
  | move (mx my : Int32)
  | up
  | place (x y : Int32)
  | gate (enabled isVisible isFocused : Bool)

def step (l : ListView) : Op → ListView
  | .addItem type => l.addItem type
  | .clear => l.clear
  | .addColumn width => l.addColumn width
  | .setItemHeight h => l.setItemHeight h
  | .setSelectedIndex index => l.setSelectedIndex index
  | .resize w h mem => { l with toWidget := (l.toWidget.resize mem w h).2 }
  | .key key => l.onSpecialKeyDown key
  | .wheel delta => l.onMouseWheel delta
  | .down mx my button => l.onMouseDown mx my button
  | .move mx my => l.onMouseMove mx my
  | .up => l.onMouseUp
  | .place x y => { l with x, y }
  | .gate enabled isVisible isFocused => { l with enabled, isVisible, isFocused }

/-! ## What holds of the storage -/

theorem toInt_visibleAt (h itemHeight : Int32) :
    (visibleAt h itemHeight).toInt =
      if 0 < itemHeight.toInt ∧ 0 < (contentHeight h).toInt then
        (contentHeight h).toInt / itemHeight.toInt
      else 0 := by
  rw [visibleAt]
  simp only [Int32.lt_iff_toInt_lt, Int32.toInt_zero]
  split
  next hpos =>
    have hne : itemHeight ≠ -1 := by
      rintro rfl
      exact absurd hpos.1 (by decide)
    rw [Int32.toInt_div_of_ne_right _ _ hne, Int.tdiv_eq_ediv_of_nonneg (Int.le_of_lt hpos.2)]
  next => rfl

theorem visibleAt_nonneg (h itemHeight : Int32) : 0 ≤ (visibleAt h itemHeight).toInt := by
  rw [toInt_visibleAt]
  split
  next hpos => exact Int.ediv_nonneg (Int.le_of_lt hpos.2) (Int.le_of_lt hpos.1)
  next => exact Int.le_refl _

/-- The slots below the item count are valid, and the rows have a height. -/
structure Stored (l : ListView) : Prop where
  count : 0 ≤ l.itemCount.toInt ∧ l.itemCount.toInt ≤ 64
  rowHeight : 0 < l.itemHeight.toInt
  valid : ∀ (i : Nat) (hi : i < 64), (i : Int) < l.itemCount.toInt → l.items[i].valid

theorem stored_construct {attr : Sizing.Attr} {w h : Int32} {mem : Bool × Bool} {l : ListView}
    (hl : construct attr w h mem = some l) : l.Stored := by
  obtain ⟨v, -, rfl⟩ := Option.map_eq_some_iff.mp hl
  constructor
  case count => exact ⟨Int.le_refl _, (by decide : (0 : Int32).toInt ≤ 64)⟩
  case rowHeight => exact (by decide : 0 < (18 : Int32).toInt)
  case valid =>
    intro i hi hlt
    have h0 : (i : Int) < (0 : Int32).toInt := hlt
    rw [Int32.toInt_zero] at h0
    omega

variable {l : ListView}

theorem Stored.addItem (hl : l.Stored) (type : UInt8) : (l.addItem type).Stored := by
  obtain ⟨hlow, hhigh⟩ := hl.count
  rw [ListView.addItem]
  split
  · exact hl
  next hroom =>
    have h64 : MAX_ITEMS.toInt = 64 := by decide
    rw [Int32.le_iff_toInt_le, h64] at hroom
    have hone : (1 : Int32).toInt = 1 := by decide
    have hcount := toInt_add_eq (m := l.itemCount) (n := 1) (by omega) (by omega)
    rw [hone] at hcount
    constructor
    case count =>
      show 0 ≤ (l.itemCount + 1).toInt ∧ (l.itemCount + 1).toInt ≤ 64
      omega
    case rowHeight => exact hl.rowHeight
    case valid =>
      intro i hi hlt
      have hlt' : (i : Int) < (l.itemCount + 1).toInt := hlt
      show ((l.items.setIfInBounds l.itemCount.toInt.toNat { type, valid := true })[i]).valid
      rw [Vector.getElem_setIfInBounds]
      split
      · rfl
      · exact hl.valid i hi (by omega)

theorem Stored.clear (hl : l.Stored) : l.clear.Stored := by
  constructor
  case count => exact ⟨Int.le_refl _, (by decide : (0 : Int32).toInt ≤ 64)⟩
  case rowHeight => exact hl.rowHeight
  case valid =>
    intro i hi hlt
    have h0 : (i : Int) < (0 : Int32).toInt := hlt
    rw [Int32.toInt_zero] at h0
    omega

theorem Stored.setItemHeight (hl : l.Stored) (h : Int32) : (l.setItemHeight h).Stored := by
  constructor
  case count => exact hl.count
  case rowHeight =>
    have hmax := toInt_ite_max32 h 10
    rw [show (10 : Int32).toInt = 10 by decide] at hmax
    show 0 < (if 0 < contentHeight l.h ∧ contentHeight l.h < (if h < 10 then 10 else h)
      then contentHeight l.h else if h < 10 then 10 else h).toInt
    generalize (if h < 10 then 10 else h) = held at hmax
    split
    next hpos =>
      rw [Int32.lt_iff_toInt_lt, Int32.toInt_zero] at hpos
      exact hpos.1
    next => omega
  case valid => exact hl.valid

/-- The storage is the same. -/
structure SameStore (l l' : ListView) : Prop where
  items : l'.items = l.items
  itemCount : l'.itemCount = l.itemCount
  itemHeight : l'.itemHeight = l.itemHeight

theorem Stored.of_same (hl : l.Stored) {l' : ListView} (h : SameStore l l') : l'.Stored := by
  constructor
  case count =>
    rw [h.itemCount]
    exact hl.count
  case rowHeight =>
    rw [h.itemHeight]
    exact hl.rowHeight
  case valid =>
    rw [h.itemCount]
    intro i hi hlt
    simp only [h.items]
    exact hl.valid i hi hlt

/-- Bringing a selected row into view moves the window only. -/
theorem sameStore_select (l : ListView) (row : Int32) :
    SameStore l (ensureSelectionVisible { l with selectedIndex := row }) := by
  unfold ensureSelectionVisible clampScrollOffset
  exact ⟨rfl, rfl, rfl⟩

theorem sameStore_setSelectedIndex (l : ListView) (index : Int32) :
    SameStore l (l.setSelectedIndex index) := by
  rw [setSelectedIndex]
  split
  · exact ⟨rfl, rfl, rfl⟩
  · dsimp only
    split
    · exact sameStore_select l index
    · exact ⟨rfl, rfl, rfl⟩

theorem sameStore_onSpecialKeyDown (l : ListView) (key : UInt8) :
    SameStore l (l.onSpecialKeyDown key) := by
  rw [onSpecialKeyDown]
  split
  · exact ⟨rfl, rfl, rfl⟩
  · split
    · exact ⟨rfl, rfl, rfl⟩
    · exact sameStore_select l _

theorem sameStore_heldOffset (l : ListView) (next : Int64) (maxOff : Int32) :
    SameStore l (l.heldOffset next maxOff) := by
  unfold heldOffset
  exact ⟨rfl, rfl, rfl⟩

theorem sameStore_pressGutter (l : ListView) (localY : Int32) :
    SameStore l (l.pressGutter localY) := by
  rw [pressGutter]
  dsimp only
  split
  · exact ⟨rfl, rfl, rfl⟩
  · exact sameStore_heldOffset l _ _

theorem sameStore_onMouseDown (l : ListView) (mx my : Int32) (button : UInt8) :
    SameStore l (l.onMouseDown mx my button) := by
  rw [onMouseDown]
  split
  · exact ⟨rfl, rfl, rfl⟩
  split
  · exact ⟨rfl, rfl, rfl⟩
  dsimp only
  split
  · exact sameStore_pressGutter l _
  · split
    · exact ⟨rfl, rfl, rfl⟩
    · exact ⟨rfl, rfl, rfl⟩

theorem sameStore_onMouseWheel (l : ListView) (delta : Int32) :
    SameStore l (l.onMouseWheel delta) := by
  rw [onMouseWheel]
  split
  · exact ⟨rfl, rfl, rfl⟩
  · dsimp only
    split
    · exact ⟨rfl, rfl, rfl⟩
    · exact sameStore_heldOffset l _ _

theorem sameStore_dragTo (l : ListView) (localY : Int32) : SameStore l (l.dragTo localY) := by
  rw [dragTo]
  dsimp only
  split
  · exact ⟨rfl, rfl, rfl⟩
  · split
    · exact ⟨rfl, rfl, rfl⟩
    · exact sameStore_heldOffset l _ _

theorem sameStore_onMouseMove (l : ListView) (mx my : Int32) :
    SameStore l (l.onMouseMove mx my) := by
  rw [onMouseMove]
  split
  · exact ⟨rfl, rfl, rfl⟩
  dsimp only
  split
  · exact sameStore_dragTo l _
  split
  · exact ⟨rfl, rfl, rfl⟩
  split
  · exact ⟨rfl, rfl, rfl⟩
  split
  · exact ⟨rfl, rfl, rfl⟩
  · exact ⟨rfl, rfl, rfl⟩

theorem Stored.step (hl : l.Stored) (op : Op) : (l.step op).Stored := by
  cases op with
  | addItem type => exact hl.addItem type
  | clear => exact hl.clear
  | addColumn width =>
    show (l.addColumn width).Stored
    rw [ListView.addColumn]
    split
    · exact hl
    · exact ⟨hl.count, hl.rowHeight, hl.valid⟩
  | setItemHeight h => exact hl.setItemHeight h
  | setSelectedIndex index => exact hl.of_same (sameStore_setSelectedIndex l index)
  | resize w h mem => exact ⟨hl.count, hl.rowHeight, hl.valid⟩
  | key key => exact hl.of_same (sameStore_onSpecialKeyDown l key)
  | wheel delta => exact hl.of_same (sameStore_onMouseWheel l delta)
  | down mx my button => exact hl.of_same (sameStore_onMouseDown l mx my button)
  | move mx my => exact hl.of_same (sameStore_onMouseMove l mx my)
  | up => exact ⟨hl.count, hl.rowHeight, hl.valid⟩
  | place x y => exact ⟨hl.count, hl.rowHeight, hl.valid⟩
  | gate enabled isVisible isFocused => exact ⟨hl.count, hl.rowHeight, hl.valid⟩

theorem stored_run (hl : l.Stored) (ops : List Op) : (run step l ops).Stored :=
  run_inv (Q := fun _ _ => True) (fun _ op h _ => h.step op) hl (along_true step l ops)

/-! ## The bounds -/

/-- The last offset that fills the window. -/
def limit (l : ListView) : Int := max 0 (l.itemCount.toInt - l.getVisibleItemCount.toInt)

/-- The offset and the two rows are in their bounds. -/
structure Kept (l : ListView) : Prop where
  scroll : 0 ≤ l.scrollOffset.toInt ∧ l.scrollOffset.toInt ≤ l.limit
  selected : -1 ≤ l.selectedIndex.toInt ∧ l.selectedIndex.toInt < l.itemCount.toInt
  hovered : -1 ≤ l.hoveredIndex.toInt ∧ l.hoveredIndex.toInt < l.itemCount.toInt

/-- The selected row is in the window, if the window shows a row. -/
def Shown (l : ListView) : Prop :=
  0 < l.getVisibleItemCount.toInt → l.scrollOffset.toInt ≤ l.selectedIndex.toInt ∧
    l.selectedIndex.toInt < l.scrollOffset.toInt + l.getVisibleItemCount.toInt

theorem visible_nonneg (l : ListView) : 0 ≤ l.getVisibleItemCount.toInt :=
  visibleAt_nonneg l.h l.itemHeight

theorem Stored.toInt_maxOffset (hl : l.Stored) {visible : Int32} (hv : 0 ≤ visible.toInt) :
    (l.maxOffset visible).toInt = max 0 (l.itemCount.toInt - visible.toInt) := by
  obtain ⟨hlow, hhigh⟩ := hl.count
  have hlt := visible.toInt_lt
  have hsub := toInt_sub_eq (m := l.itemCount) (n := visible) (by omega) (by omega)
  have hmax := toInt_ite_max32 (l.itemCount - visible) 0
  rw [Int32.toInt_zero, hsub] at hmax
  rw [maxOffset, hmax]
  exact Int.max_comm _ _

theorem Stored.limit_eq (hl : l.Stored) : (l.maxOffset l.getVisibleItemCount).toInt = l.limit :=
  hl.toInt_maxOffset l.visible_nonneg

theorem limit_nonneg (l : ListView) : 0 ≤ l.limit := by
  rw [limit]
  exact Int.le_max_left _ _

/-- `heldOffset` leaves the offset between zero and the bound it was given. -/
theorem toInt_heldOffset (l : ListView) (next : Int64) (maxOff : Int32) (hm : 0 ≤ maxOff.toInt) :
    (l.heldOffset next maxOff).scrollOffset.toInt = min (max next.toInt 0) maxOff.toInt := by
  have hlt := maxOff.toInt_lt
  have hmax := toInt_ite_max next 0
  have hmin := toInt_ite_min maxOff.toInt64 (if next < 0 then 0 else next)
  rw [Int64.toInt_zero] at hmax
  rw [Int32.toInt_toInt64, hmax] at hmin
  rw [heldOffset]
  show (if maxOff.toInt64 < (if next < 0 then 0 else next) then maxOff.toInt64
    else if next < 0 then 0 else next).toInt32.toInt = _
  rw [toInt_narrow (by rw [Fits32]; omega), hmin]
  omega

theorem Stored.toInt_clampScrollOffset (hl : l.Stored) :
    l.clampScrollOffset.scrollOffset.toInt = min (max l.scrollOffset.toInt 0) l.limit := by
  have hlim := hl.limit_eq
  have hmax := toInt_ite_max32 l.scrollOffset 0
  have hmin := toInt_ite_min32 (l.maxOffset l.getVisibleItemCount)
    (if l.scrollOffset < 0 then 0 else l.scrollOffset)
  rw [Int32.toInt_zero] at hmax
  rw [hmax, hlim] at hmin
  rw [clampScrollOffset]
  exact hmin.trans (Int.min_comm _ _)

theorem Kept.heldOffset (hs : l.Stored) (hk : l.Kept) (next : Int64) :
    (l.heldOffset next (l.maxOffset l.getVisibleItemCount)).Kept := by
  have hlim := hs.limit_eq
  have hnn := l.limit_nonneg
  have hoff := l.toInt_heldOffset next (l.maxOffset l.getVisibleItemCount) (by omega)
  constructor
  case scroll =>
    rw [hoff, hlim]
    show 0 ≤ min (max next.toInt 0) l.limit ∧ min (max next.toInt 0) l.limit ≤ l.limit
    omega
  case selected => exact hk.selected
  case hovered => exact hk.hovered

/-! ## Selection -/

/-- `EnsureSelectionVisible` puts the offset in its bounds and the selected row in the window. -/
theorem ensureSelectionVisible_spec (hs : l.Stored) (hsel : 0 ≤ l.selectedIndex.toInt)
    (hcount : l.selectedIndex.toInt < l.itemCount.toInt) (hoff : 0 ≤ l.scrollOffset.toInt)
    (hlim : l.scrollOffset.toInt ≤ l.limit) :
    (0 ≤ l.ensureSelectionVisible.scrollOffset.toInt ∧
      l.ensureSelectionVisible.scrollOffset.toInt ≤ l.limit) ∧ l.ensureSelectionVisible.Shown := by
  obtain ⟨hlow, hhigh⟩ := hs.count
  have hv := l.visible_nonneg
  have hvlt := l.getVisibleItemCount.toInt_lt
  have hlimit : l.limit = max 0 (l.itemCount.toInt - l.getVisibleItemCount.toInt) := rfl
  have hone : (1 : Int32).toInt = 1 := by decide
  have hadd := toInt_add_eq (m := l.scrollOffset) (n := l.getVisibleItemCount) (by omega) (by omega)
  have hsub := toInt_sub_eq (m := l.selectedIndex) (n := l.getVisibleItemCount) (by omega) (by omega)
  have hsub1 := toInt_add_eq (m := l.selectedIndex - l.getVisibleItemCount) (n := 1) (by omega)
    (by omega)
  have hclamp : ∀ off : Int32,
      (clampScrollOffset { l with scrollOffset := off }).scrollOffset.toInt =
        min (max off.toInt 0) l.limit :=
    fun off => Stored.toInt_clampScrollOffset (l := { l with scrollOffset := off })
      (hs.of_same ⟨rfl, rfl, rfl⟩)
  have hshown : ∀ off : Int32,
      (0 < l.getVisibleItemCount.toInt → min (max off.toInt 0) l.limit ≤ l.selectedIndex.toInt ∧
        l.selectedIndex.toInt < min (max off.toInt 0) l.limit + l.getVisibleItemCount.toInt) →
      (0 ≤ (clampScrollOffset { l with scrollOffset := off }).scrollOffset.toInt ∧
        (clampScrollOffset { l with scrollOffset := off }).scrollOffset.toInt ≤ l.limit) ∧
        (clampScrollOffset { l with scrollOffset := off }).Shown := by
    intro off h
    constructor
    · rw [hclamp off]
      omega
    · intro hpos
      rw [hclamp off]
      exact h hpos
  rw [ensureSelectionVisible]
  simp only [if_pos hsel, Int32.lt_iff_toInt_lt, Int32.le_iff_toInt_le, hadd, Int32.toInt_zero]
  by_cases habove : l.selectedIndex.toInt < l.scrollOffset.toInt
  · -- the row is above the window
    rw [if_pos habove]
    apply hshown
    omega
  · rw [if_neg habove]
    by_cases hbelow : 0 < l.getVisibleItemCount.toInt ∧
        l.scrollOffset.toInt + l.getVisibleItemCount.toInt ≤ l.selectedIndex.toInt
    · -- the row is below the window
      rw [if_pos hbelow]
      apply hshown
      omega
    · rw [if_neg hbelow]
      apply hshown
      omega

theorem Kept.select (hs : l.Stored) (hk : l.Kept) {r : Int32} (hrow : 0 ≤ r.toInt)
    (hcount : r.toInt < l.itemCount.toInt) :
    (ensureSelectionVisible { l with selectedIndex := r }).Kept ∧
      (ensureSelectionVisible { l with selectedIndex := r }).Shown := by
  have hspec := ensureSelectionVisible_spec (l := { l with selectedIndex := r })
    (hs.of_same ⟨rfl, rfl, rfl⟩) hrow hcount hk.scroll.1 hk.scroll.2
  refine ⟨⟨hspec.1, ?_, hk.hovered⟩, hspec.2⟩
  show -1 ≤ r.toInt ∧ r.toInt < l.itemCount.toInt
  omega

/-! ## Keys -/

/-- The page-down key with a row selected: the sum of `selectedIndex += visible` fits. -/
def PageFits (l : ListView) (key : UInt8) : Prop :=
  key = 0x51 → 0 ≤ l.selectedIndex.toInt →
    l.selectedIndex.toInt + l.getVisibleItemCount.toInt < 2 ^ 31

/-- A key that navigates selects a row of the list, unless page-down overflows. -/
theorem keyRow_bounds (hs : l.Stored) (hk : l.Kept) (hpos : 0 < l.itemCount.toInt) {key : UInt8}
    {row : Int32} (hrow : l.keyRow key = some row) (hfit : l.PageFits key) :
    0 ≤ row.toInt ∧ row.toInt < l.itemCount.toInt := by
  obtain ⟨hlow, hhigh⟩ := hs.count
  obtain ⟨hsel, hsel'⟩ := hk.selected
  have hv := l.visible_nonneg
  have hvlt := l.getVisibleItemCount.toInt_lt
  have hone : (1 : Int32).toInt = 1 := by decide
  have hlast := toInt_sub_eq (m := l.itemCount) (n := 1) (by omega) (by omega)
  rw [keyRow] at hrow
  simp only [Int32.lt_iff_toInt_lt, Int32.toInt_zero] at hrow
  split at hrow
  · -- up
    have hsub := toInt_sub_eq (m := l.selectedIndex) (n := 1)
    obtain rfl := Option.some.inj hrow
    split
    · omega
    · split
      · have := hsub (by omega) (by omega)
        omega
      · omega
  split at hrow
  · -- down
    have hadd := toInt_add_eq (m := l.selectedIndex) (n := 1) (by omega) (by omega)
    obtain rfl := Option.some.inj hrow
    split
    · rw [Int32.toInt_zero]
      omega
    · split
      · omega
      · omega
  split at hrow
  · -- home
    obtain rfl := Option.some.inj hrow
    rw [Int32.toInt_zero]
    omega
  split at hrow
  · -- end
    obtain rfl := Option.some.inj hrow
    omega
  split at hrow
  · -- page up
    obtain rfl := Option.some.inj hrow
    by_cases hneg : l.selectedIndex.toInt < 0
    · rw [if_pos hneg, Int32.toInt_zero, if_neg (by omega), Int32.toInt_zero]
      omega
    · have hsub := toInt_sub_eq (m := l.selectedIndex) (n := l.getVisibleItemCount) (by omega)
        (by omega)
      rw [if_neg hneg, hsub]
      split
      · rw [Int32.toInt_zero]
        omega
      · omega
  split at hrow
  next hkey =>
    -- page down
    obtain rfl := Option.some.inj hrow
    split
    · rw [Int32.toInt_zero]
      omega
    next hneg =>
      have hadd := toInt_add_eq (m := l.selectedIndex) (n := l.getVisibleItemCount) (by omega)
        (hfit hkey (by omega))
      split
      · omega
      · omega
  · cases hrow

/-- Page-down past the largest word selects a row below -1. -/
theorem keyRow_overflow (hs : l.Stored) (hk : l.Kept) (hsel : 0 ≤ l.selectedIndex.toInt)
    (hbig : 2 ^ 31 ≤ l.selectedIndex.toInt + l.getVisibleItemCount.toInt) :
    ∃ row, l.keyRow 0x51 = some row ∧ row.toInt < -1 := by
  obtain ⟨hlow, hhigh⟩ := hs.count
  have hsel' := hk.selected.2
  have hvlt := l.getVisibleItemCount.toInt_lt
  have hone : (1 : Int32).toInt = 1 := by decide
  have hlast := toInt_sub_eq (m := l.itemCount) (n := 1) (by omega) (by omega)
  have hwrap := toInt_add_wrap hbig
  refine ⟨l.selectedIndex + l.getVisibleItemCount, ?_, by omega⟩
  rw [keyRow]
  simp only [Int32.lt_iff_toInt_lt, Int32.toInt_zero]
  rw [if_neg (by decide), if_neg (by decide), if_neg (by decide), if_neg (by decide),
    if_neg (by decide), if_pos trivial, if_neg (by omega), if_neg (by omega)]

/-! ## The other operations -/

theorem kept_construct {attr : Sizing.Attr} {w h : Int32} {mem : Bool × Bool}
    (hl : construct attr w h mem = some l) : l.Kept := by
  obtain ⟨v, -, rfl⟩ := Option.map_eq_some_iff.mp hl
  have h0 : (0 : Int32).toInt = 0 := by decide
  constructor
  case scroll =>
    refine ⟨(by decide : 0 ≤ (0 : Int32).toInt), ?_⟩
    exact limit_nonneg _
  case selected => exact (by decide : -1 ≤ (-1 : Int32).toInt ∧ (-1 : Int32).toInt < (0 : Int32).toInt)
  case hovered => exact (by decide : -1 ≤ (-1 : Int32).toInt ∧ (-1 : Int32).toInt < (0 : Int32).toInt)

theorem Kept.addItem (hs : l.Stored) (hk : l.Kept) (type : UInt8) : (l.addItem type).Kept := by
  obtain ⟨hlow, hhigh⟩ := hs.count
  obtain ⟨hoff, hlim⟩ := hk.scroll
  have hsel := hk.selected
  have hhov := hk.hovered
  rw [ListView.addItem]
  split
  · exact hk
  · have hone : (1 : Int32).toInt = 1 := by decide
    have hcount := toInt_add_eq (m := l.itemCount) (n := 1) (by omega) (by omega)
    rw [limit] at hlim
    constructor
    case scroll =>
      show 0 ≤ l.scrollOffset.toInt ∧ l.scrollOffset.toInt ≤
        max 0 ((l.itemCount + 1).toInt - l.getVisibleItemCount.toInt)
      omega
    case selected =>
      show -1 ≤ l.selectedIndex.toInt ∧ l.selectedIndex.toInt < (l.itemCount + 1).toInt
      omega
    case hovered =>
      show -1 ≤ l.hoveredIndex.toInt ∧ l.hoveredIndex.toInt < (l.itemCount + 1).toInt
      omega

theorem kept_clear (l : ListView) : l.clear.Kept := by
  constructor
  case scroll =>
    refine ⟨(by decide : 0 ≤ (0 : Int32).toInt), ?_⟩
    exact limit_nonneg _
  case selected => exact (by decide : -1 ≤ (-1 : Int32).toInt ∧ (-1 : Int32).toInt < (0 : Int32).toInt)
  case hovered => exact (by decide : -1 ≤ (-1 : Int32).toInt ∧ (-1 : Int32).toInt < (0 : Int32).toInt)

theorem Kept.setItemHeight (hs : l.Stored) (hk : l.Kept) (h : Int32) :
    (l.setItemHeight h).Kept := by
  have hs' := hs.setItemHeight h
  rw [ListView.setItemHeight] at hs' ⊢
  generalize (if 0 < contentHeight l.h ∧ contentHeight l.h < (if h < 10 then 10 else h)
    then contentHeight l.h else if h < 10 then 10 else h) = held at hs' ⊢
  have hclamp := Stored.toInt_clampScrollOffset (l := { l with itemHeight := held })
    ⟨hs'.count, hs'.rowHeight, hs'.valid⟩
  have hnn := limit_nonneg { l with itemHeight := held }
  constructor
  case scroll =>
    rw [hclamp]
    show 0 ≤ min (max _ 0) (limit { l with itemHeight := held }) ∧
      min (max _ 0) (limit { l with itemHeight := held }) ≤ limit { l with itemHeight := held }
    omega
  case selected => exact hk.selected
  case hovered => exact hk.hovered

theorem Kept.setSelectedIndex (hs : l.Stored) (hk : l.Kept) (index : Int32) :
    (l.setSelectedIndex index).Kept ∧
      (0 ≤ index.toInt → index.toInt < l.itemCount.toInt → (l.setSelectedIndex index).Shown) := by
  have hm1 : (-1 : Int32).toInt = -1 := by decide
  rw [ListView.setSelectedIndex]
  simp only [Int32.lt_iff_toInt_lt, Int32.le_iff_toInt_le, hm1, Int32.toInt_zero]
  by_cases hout : index.toInt < -1 ∨ l.itemCount.toInt ≤ index.toInt
  · rw [if_pos hout]
    exact ⟨hk, fun h0 h1 => absurd hout (by omega)⟩
  · rw [if_neg hout]
    by_cases h0 : 0 ≤ index.toInt
    · rw [if_pos h0]
      have hsel := hk.select hs (r := index) h0 (by omega)
      exact ⟨hsel.1, fun _ _ => hsel.2⟩
    · rw [if_neg h0]
      refine ⟨⟨hk.scroll, ?_, hk.hovered⟩, fun h => absurd h h0⟩
      show -1 ≤ index.toInt ∧ index.toInt < l.itemCount.toInt
      omega

/-- `HitRow` finds a row of the list or -1. -/
theorem hitRow_bounds (hs : l.Stored) (localY : Int32) :
    -1 ≤ (l.hitRow localY).toInt ∧ (l.hitRow localY).toInt < l.itemCount.toInt := by
  have hlow := hs.count.1
  have hm1 : (-1 : Int32).toInt = -1 := by decide
  rw [hitRow]
  simp only [Int32.lt_iff_toInt_lt, Int32.le_iff_toInt_le, Int32.toInt_zero]
  split
  · omega
  · split
    · omega
    · split
      · omega
      · omega

theorem Kept.onMouseDown (hs : l.Stored) (hk : l.Kept) (mx my : Int32) (button : UInt8) :
    (l.onMouseDown mx my button).Kept := by
  rw [ListView.onMouseDown]
  split
  · exact hk
  split
  · exact hk
  dsimp only
  split
  · rw [pressGutter]
    dsimp only
    split
    · exact ⟨hk.scroll, hk.selected, hk.hovered⟩
    · exact hk.heldOffset hs _
  · split
    · exact ⟨hk.scroll, hitRow_bounds hs _, hk.hovered⟩
    · exact hk

theorem Kept.dragTo (hs : l.Stored) (hk : l.Kept) (localY : Int32) : (l.dragTo localY).Kept := by
  obtain ⟨hlow, hhigh⟩ := hs.count
  have hv := l.visible_nonneg
  have hvlt := l.getVisibleItemCount.toInt_lt
  rw [ListView.dragTo]
  dsimp only
  split
  · exact hk
  next hmore =>
    split
    · exact hk
    · -- the range of a drag is the range of the list
      have hrange : l.itemCount - l.getVisibleItemCount = l.maxOffset l.getVisibleItemCount := by
        have hsub := toInt_sub_eq (m := l.itemCount) (n := l.getVisibleItemCount) (by omega)
          (by omega)
        rw [maxOffset, if_neg]
        rw [Int32.lt_iff_toInt_lt, hsub, Int32.toInt_zero]
        simp only [Int32.le_iff_toInt_le] at hmore
        omega
      rw [hrange]
      exact hk.heldOffset hs _

theorem Kept.onMouseMove (hs : l.Stored) (hk : l.Kept) (mx my : Int32) :
    (l.onMouseMove mx my).Kept := by
  have hlow := hs.count.1
  rw [ListView.onMouseMove]
  split
  · exact hk
  dsimp only
  split
  · exact hk.dragTo hs _
  split
  · exact hk
  split
  · exact ⟨hk.scroll, hk.selected, hitRow_bounds hs _⟩
  split
  · refine ⟨hk.scroll, hk.selected, ?_⟩
    show -1 ≤ (-1 : Int32).toInt ∧ (-1 : Int32).toInt < l.itemCount.toInt
    have hm1 : (-1 : Int32).toInt = -1 := by decide
    omega
  · exact hk

theorem Kept.onMouseWheel (hs : l.Stored) (hk : l.Kept) (delta : Int32) :
    (l.onMouseWheel delta).Kept := by
  rw [ListView.onMouseWheel]
  split
  · exact hk
  dsimp only
  split
  · exact hk
  · exact hk.heldOffset hs _

/-! ## Every run -/

/-- What a step needs: a `Resize` that answers does not leave the offset past the end of the list,
and a page-down does not overflow. -/
def Admits (l : ListView) : Op → Prop
  | .resize w h mem => (l.toWidget.resize mem w h).1 = true →
    l.scrollOffset.toInt ≤ max 0 (l.itemCount.toInt - (visibleAt h l.itemHeight).toInt)
  | .key key => l.enabled → l.isVisible → 0 < l.itemCount.toInt → l.PageFits key
  | _ => True

/-- The steps that select a row and bring it into view. -/
def Navigates (l : ListView) : Op → Prop
  | .key key => l.enabled ∧ l.isVisible ∧ 0 < l.itemCount.toInt ∧ (l.keyRow key).isSome
  | .setSelectedIndex index => 0 ≤ index.toInt ∧ index.toInt < l.itemCount.toInt
  | _ => False

/-- The bounds hold after the step, and a row that it selected is shown. -/
def Correct (l : ListView) (op : Op) : Prop :=
  (l.step op).Kept ∧ (l.Navigates op → (l.step op).Shown)

/-- After a `Resize` the bounds hold exactly where the offset is not past the end. -/
theorem kept_resize_iff (hk : l.Kept) (w h : Int32) (mem : Bool) :
    (l.step (.resize w h mem)).Kept ↔ l.Admits (.resize w h mem) := by
  have hstep : l.step (.resize w h mem) =
      { l with toWidget := (l.toWidget.resize mem w h).2 } := rfl
  cases hr : (l.toWidget.resize mem w h).1 with
  | false =>
    have hsame := Sizing.Widget.resize_false hr
    constructor
    · intro _ htrue
      rw [hr] at htrue
      cases htrue
    · intro _
      rw [hstep, hsame]
      exact hk
  | true =>
    obtain ⟨cache, hcache⟩ := Sizing.Widget.resize_true hr
    rw [hstep, hcache]
    constructor
    · intro h' _
      exact h'.scroll.2
    · intro h'
      exact ⟨⟨hk.scroll.1, h' hr⟩, hk.selected, hk.hovered⟩

theorem correct_key_iff (hs : l.Stored) (hk : l.Kept) (key : UInt8) :
    l.Correct (.key key) ↔ l.Admits (.key key) := by
  by_cases hon : l.enabled ∧ l.isVisible ∧ 0 < l.itemCount.toInt
  · obtain ⟨hen, hvis, hpos⟩ := hon
    have hcount : ¬ l.itemCount ≤ 0 := by
      rw [toInt_nonpos]
      omega
    have hstep : l.step (.key key) = match l.keyRow key with
        | none => l
        | some row => ensureSelectionVisible { l with selectedIndex := row } := by
      show l.onSpecialKeyDown key = _
      rw [onSpecialKeyDown, if_neg (by simp [hen, hvis, hcount])]
    constructor
    · rintro ⟨hkept, -⟩ - - -
      intro hkey hsel
      apply Int.lt_of_not_ge
      intro hbig
      obtain ⟨row, hrow, hneg⟩ := keyRow_overflow hs hk hsel hbig
      rw [hstep, hkey, hrow] at hkept
      have hsel' : -1 ≤ row.toInt := hkept.selected.1
      omega
    · intro hadm
      have hfit := hadm hen hvis hpos
      rw [Correct, hstep]
      cases hrow : l.keyRow key with
      | none =>
        refine ⟨hk, ?_⟩
        rintro ⟨-, -, -, hsome⟩
        rw [hrow] at hsome
        cases hsome
      | some row =>
        obtain ⟨h0, hlt⟩ := keyRow_bounds hs hk hpos hrow hfit
        have hsel := hk.select hs h0 hlt
        exact ⟨hsel.1, fun _ => hsel.2⟩
  · have hstep : l.step (.key key) = l := by
      show l.onSpecialKeyDown key = _
      rw [onSpecialKeyDown, if_pos]
      have h := hon
      simp only [Bool.or_eq_true, Bool.not_eq_true', decide_eq_true_eq, toInt_nonpos]
      grind
    constructor
    · intro _ hen hvis hpos
      exact absurd ⟨hen, hvis, hpos⟩ hon
    · intro _
      rw [Correct, hstep]
      exact ⟨hk, fun hn => absurd ⟨hn.1, hn.2.1, hn.2.2.1⟩ hon⟩

theorem correct_iff (hs : l.Stored) (hk : l.Kept) (op : Op) : l.Correct op ↔ l.Admits op := by
  cases op with
  | resize w h mem =>
    rw [← kept_resize_iff hk w h mem]
    exact ⟨fun h' => h'.1, fun h' => ⟨h', False.elim⟩⟩
  | key key => exact correct_key_iff hs hk key
  | setSelectedIndex index =>
    have hset := hk.setSelectedIndex hs index
    exact ⟨fun _ => trivial, fun _ => ⟨hset.1, fun hn => hset.2 hn.1 hn.2⟩⟩
  | addItem type => exact ⟨fun _ => trivial, fun _ => ⟨hk.addItem hs type, False.elim⟩⟩
  | clear => exact ⟨fun _ => trivial, fun _ => ⟨kept_clear l, False.elim⟩⟩
  | setItemHeight h => exact ⟨fun _ => trivial, fun _ => ⟨hk.setItemHeight hs h, False.elim⟩⟩
  | wheel delta => exact ⟨fun _ => trivial, fun _ => ⟨hk.onMouseWheel hs delta, False.elim⟩⟩
  | down mx my button =>
    exact ⟨fun _ => trivial, fun _ => ⟨hk.onMouseDown hs mx my button, False.elim⟩⟩
  | move mx my => exact ⟨fun _ => trivial, fun _ => ⟨hk.onMouseMove hs mx my, False.elim⟩⟩
  | addColumn width =>
    refine ⟨fun _ => trivial, fun _ => ⟨?_, False.elim⟩⟩
    show (l.addColumn width).Kept
    rw [addColumn]
    split
    · exact hk
    · exact ⟨hk.scroll, hk.selected, hk.hovered⟩
  | up | place | gate =>
    exact ⟨fun _ => trivial, fun _ => ⟨⟨hk.scroll, hk.selected, hk.hovered⟩, False.elim⟩⟩

/-- The bounds hold after every step of a run, and every selected row is brought into view, exactly
where each step is admitted. -/
theorem kept_along_iff {attr : Sizing.Attr} {w h : Int32} {mem : Bool × Bool} {l : ListView}
    (hl : construct attr w h mem = some l) (ops : List Op) :
    Along step Correct l ops ↔ Along step Admits l ops := by
  apply Along.iff_of_inv (I := fun l => l.Stored ∧ l.Kept)
  · intro l op hi ha
    exact ⟨hi.1.step op, ((correct_iff hi.1 hi.2 op).mpr ha).1⟩
  · intro l op hi
    exact correct_iff hi.1 hi.2 op
  · exact ⟨stored_construct hl, kept_construct hl⟩

def sampleAttr : Sizing.Attr :=
  { parent := none, x := 10, y := 10, minWidth := 0, minHeight := 0,
    padding := { t := 0, r := 0, b := 0, l := 0 }, sizeMode := .fixed, text := none }

theorem kept_along_iff_100_42 :
    ∃ l, construct sampleAttr 100 42 (true, true) = some l ∧
      (Along step Correct l [.addItem 0, .key 0x4F, .wheel (-1)] ↔
        Along step Admits l [.addItem 0, .key 0x4F, .wheel (-1)]) := by
  have hsome : (construct sampleAttr 100 42 (true, true)).isSome := by decide +kernel
  obtain ⟨l, hl⟩ := Option.isSome_iff_exists.mp hsome
  exact ⟨l, hl, kept_along_iff hl [.addItem 0, .key 0x4F, .wheel (-1)]⟩

/-- A list of one visible row, scrolled to the last of three items, that is made tall enough for all
three; and a page-down in a list whose window holds more than `2 ^ 31 - 26` rows. -/
theorem not_kept_after_resize :
    (construct sampleAttr 100 42 (true, true)).any (fun l =>
      let l := run step l [.addItem 0, .addItem 0, .addItem 0, .key 0x4F, .resize 100 78 true]
      l.scrollOffset = 2 ∧ l.itemCount = 3 ∧ l.getVisibleItemCount = 3 ∧ l.limit = 0) ∧
    (construct sampleAttr 100 25 (true, true)).any (fun l =>
      let l := run step l (.setItemHeight 10 :: .resize 0 Int32.maxValue true ::
        (List.replicate 26 (.addItem 0) ++ [.setSelectedIndex 25, .key 0x51]))
      l.selectedIndex = Int32.minValue) ∧
    ∀ l, construct sampleAttr 100 42 (true, true) = some l →
      ¬ Along step Correct l [.addItem 0, .addItem 0, .addItem 0, .key 0x4F, .resize 100 78 true] := by
  have hrun : (construct sampleAttr 100 42 (true, true)).any (fun l =>
      let l := run step l [.addItem 0, .addItem 0, .addItem 0, .key 0x4F, .resize 100 78 true]
      l.scrollOffset = 2 ∧ l.itemCount = 3 ∧ l.getVisibleItemCount = 3 ∧ l.limit = 0) := by
    decide +kernel
  refine ⟨hrun, by decide +kernel, ?_⟩
  rintro l hl ⟨-, -, -, -, hlast, -⟩
  rw [hl, Option.any_some, decide_eq_true_iff] at hrun
  obtain ⟨hoff, -, -, hlim⟩ := hrun
  have hscroll : (run step l [.addItem 0, .addItem 0, .addItem 0, .key 0x4F,
      .resize 100 78 true]).scrollOffset.toInt ≤ limit (run step l [.addItem 0, .addItem 0,
      .addItem 0, .key 0x4F, .resize 100 78 true]) := hlast.1.scroll.2
  rw [hoff, hlim] at hscroll
  revert hscroll
  decide

end ListView
end Hashx86
