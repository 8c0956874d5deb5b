import Hashx86.Lib.Run
import Hashx86.Lib.Word64

/-!
# The scrollbar of the terminal view (`gui/terminalview.cpp`)

The view is told by its process how many lines there are, how many of them are visible and how far
they are scrolled. The text, the fonts and the queue of keys are left out.

* `Bounded`: the offset is in its range; every operation keeps it (`Bounded.step`).
* `thumbPlaced_iff`: the thumb is in its track, and at its ends for the extreme offsets, exactly
  where the way of the thumb times the last offset fits a word (`Scales`).
* `toInt_onMouseMove`: the offset of a drag without an overflow (`Admits`); `onMouseMove_antitone`:
  it decreases as the pointer goes down.
-/

namespace Hashx86

open Lib

structure TerminalView where
  x : Int32
  y : Int32
  w : Int32
  h : Int32
  isVisible : Bool
  scrollTotal : Int32
  scrollVisible : Int32
  scrollOffset : Int32
  pendingScrollAction : Int32
  isDraggingThumb : Bool
  dragStartY : Int32
  dragStartOffset : Int32
  /-- The `ON_CLICK` events of the view in the queue of its process. -/
  clicks : Nat

namespace TerminalView

/-- `TerminalView::TerminalView`. -/
def construct (x y w h : Int32) : TerminalView :=
  { x, y, w, h, isVisible := true, scrollTotal := 0, scrollVisible := 0, scrollOffset := 0,
    pendingScrollAction := 0, isDraggingThumb := false, dragStartY := 0, dragStartOffset := 0,
    clicks := 0 }

/-- `setScrollMeta`. -/
def setScrollMeta (l : TerminalView) (totalLines visibleLines offset : Int32) : TerminalView :=
  let scrollTotal := if totalLines < 0 then 0 else totalLines
  let scrollVisible := if visibleLines < 0 then 0 else visibleLines
  let maxOffset := if scrollVisible < scrollTotal then scrollTotal - scrollVisible else 0
  { l with
    scrollTotal
    scrollVisible
    scrollOffset := if offset < 0 then 0 else if maxOffset < offset then maxOffset else offset }

/-- `consumeScrollAction`. -/
def consumeScrollAction (l : TerminalView) : Int32 × TerminalView :=
  (l.pendingScrollAction, { l with pendingScrollAction := 0 })

/-! ## Geometry -/

def scrollBarW : Int32 := 12
def scrollBtnH : Int32 := 12
def scrollBarY : Int32 := 2
def trackY : Int32 := scrollBarY + scrollBtnH

def scrollBarX (l : TerminalView) : Int32 := l.w - scrollBarW - 2
def scrollBarH (l : TerminalView) : Int32 := l.h - 2 * 2
def trackH (l : TerminalView) : Int32 := l.scrollBarH - scrollBtnH * 2

/-- `MaxOffset`. -/
def maxOffset (l : TerminalView) : Int32 :=
  if l.scrollTotal ≤ l.scrollVisible then 0 else l.scrollTotal - l.scrollVisible

/-- `ThumbH`. -/
def thumbH (l : TerminalView) : Int32 :=
  if l.scrollTotal ≤ 0 ∨ l.scrollVisible ≤ 0 ∨ l.scrollTotal ≤ l.scrollVisible then l.trackH
  else
    let th := l.trackH * l.scrollVisible / l.scrollTotal
    let th := if th < 10 then 10 else th
    if l.trackH < th then l.trackH else th

/-- What the thumb can move by. -/
def travel (l : TerminalView) : Int32 := l.trackH - l.thumbH

/-- `ThumbY`. The thumb is at the top for the last offset. -/
def thumbY (l : TerminalView) : Int32 :=
  if l.maxOffset ≤ 0 then trackY
  else trackY + l.travel - l.travel * l.scrollOffset / l.maxOffset

/-! ## The pointer -/

/-- `OnMouseDown`, where `handler` tells whether the process of the view has an event handler. -/
def onMouseDown (l : TerminalView) (mx my : Int32) (button : UInt8) (handler : Bool) :
    TerminalView :=
  if !l.isVisible || button != 1 || !handler then l
  else
    let l := { l with clicks := l.clicks + 1 }
    let localX := mx - l.x
    let localY := my - l.y
    let downY := scrollBarY + l.scrollBarH - scrollBtnH
    if localX < l.scrollBarX ∨ l.scrollBarX + scrollBarW ≤ localX ∨ localY < scrollBarY ∨
        scrollBarY + l.scrollBarH ≤ localY then l
    else if scrollBarY ≤ localY ∧ localY < scrollBarY + scrollBtnH then
      { l with pendingScrollAction := 1 }
    else if downY ≤ localY ∧ localY < downY + scrollBtnH then
      { l with pendingScrollAction := -1 }
    else if l.thumbY ≤ localY ∧ localY < l.thumbY + l.thumbH then
      { l with
        isDraggingThumb := true
        dragStartY := localY
        dragStartOffset := l.scrollOffset }
    else if localY < l.thumbY then { l with pendingScrollAction := 5 }
    else { l with pendingScrollAction := -5 }

/-- `OnMouseUp`. -/
def onMouseUp (l : TerminalView) (button : UInt8) : TerminalView :=
  if button = 1 then { l with isDraggingThumb := false } else l

/-- The offset that `OnMouseMove` computes, held to the range. -/
def dragOffset (l : TerminalView) (newy : Int32) : Int32 :=
  let localY := newy - l.y
  let dy := localY - l.dragStartY
  let deltaOffset := -(dy * l.maxOffset) / l.travel
  let newOffset := l.dragStartOffset + deltaOffset
  let newOffset := if newOffset < 0 then 0 else newOffset
  if l.maxOffset < newOffset then l.maxOffset else newOffset

/-- `OnMouseMove`. The action stands for an offset, below the actions of the buttons. -/
def onMouseMove (l : TerminalView) (newy : Int32) (handler : Bool) : TerminalView :=
  if !l.isDraggingThumb then l
  else if l.travel ≤ 0 ∨ l.maxOffset ≤ 0 then l
  else
    let newOffset := l.dragOffset newy
    if newOffset ≠ l.scrollOffset then
      { l with
        scrollOffset := newOffset
        pendingScrollAction := -(1000000 + newOffset)
        clicks := if handler then l.clicks + 1 else l.clicks }
    else l

/-- What is done to a view: its own entry points, and the places that move, resize or hide any
widget. -/
inductive Op
  | scrollMeta (totalLines visibleLines offset : Int32)
  | consume
  | down (mx my : Int32) (button : UInt8) (handler : Bool)
  | up (button : UInt8)
  | move (newy : Int32) (handler : Bool)
  | place (x y w h : Int32)
  | setVisible (visible : Bool)

def step (l : TerminalView) : Op → TerminalView
  | .scrollMeta totalLines visibleLines offset => l.setScrollMeta totalLines visibleLines offset
  | .consume => l.consumeScrollAction.2
  | .down mx my button handler => l.onMouseDown mx my button handler
  | .up button => l.onMouseUp button
  | .move newy handler => l.onMouseMove newy handler
  | .place x y w h => { l with x, y, w, h }
  | .setVisible visible => { l with isVisible := visible }

variable {l : TerminalView}

/-! ## The range of the offset -/

/-- The counts are not negative, and the offset is between the ends. -/
structure Bounded (l : TerminalView) : Prop where
  total : 0 ≤ l.scrollTotal.toInt
  visible : 0 ≤ l.scrollVisible.toInt
  low : 0 ≤ l.scrollOffset.toInt
  high : l.scrollOffset.toInt ≤ max 0 (l.scrollTotal.toInt - l.scrollVisible.toInt)

theorem Bounded.toInt_maxOffset (hb : l.Bounded) :
    l.maxOffset.toInt = max 0 (l.scrollTotal.toInt - l.scrollVisible.toInt) := by
  have ht := hb.total
  have hv := hb.visible
  have hlt := l.scrollTotal.toInt_lt
  rw [maxOffset]
  split
  next hle =>
    rw [Int32.le_iff_toInt_le] at hle
    rw [Int32.toInt_zero]
    omega
  next hle =>
    rw [Int32.le_iff_toInt_le] at hle
    rw [toInt_sub_eq (by omega) (by omega)]
    omega

/-- What the process passes, with negative counts taken for zero. -/
theorem toInt_setScrollMeta (l : TerminalView) (totalLines visibleLines offset : Int32) :
    (l.setScrollMeta totalLines visibleLines offset).scrollTotal.toInt = max 0 totalLines.toInt ∧
      (l.setScrollMeta totalLines visibleLines offset).scrollVisible.toInt =
        max 0 visibleLines.toInt ∧
      (l.setScrollMeta totalLines visibleLines offset).scrollOffset.toInt =
        min (max 0 offset.toInt)
          (max 0 (max 0 totalLines.toInt - max 0 visibleLines.toInt)) := by
  have hlt := totalLines.toInt_lt
  have htotal := toInt_ite_max32 totalLines 0
  have hvisible := toInt_ite_max32 visibleLines 0
  rw [Int32.toInt_zero] at htotal hvisible
  refine ⟨by rw [Int.max_comm]; exact htotal, by rw [Int.max_comm]; exact hvisible, ?_⟩
  rw [setScrollMeta]
  dsimp only
  generalize (if totalLines < 0 then 0 else totalLines) = total at htotal ⊢
  generalize (if visibleLines < 0 then 0 else visibleLines) = visible at hvisible ⊢
  have hmax : (if visible < total then total - visible else 0).toInt =
      max 0 (total.toInt - visible.toInt) := by
    split
    next h =>
      rw [Int32.lt_iff_toInt_lt] at h
      rw [toInt_sub_eq (by omega) (by omega)]
      omega
    next h =>
      rw [Int32.lt_iff_toInt_lt] at h
      rw [Int32.toInt_zero]
      omega
  generalize (if visible < total then total - visible else 0) = last at hmax ⊢
  have hmin := toInt_ite_min32 last offset
  split
  next h =>
    rw [Int32.lt_iff_toInt_lt, Int32.toInt_zero] at h
    rw [Int32.toInt_zero]
    omega
  next h =>
    rw [Int32.lt_iff_toInt_lt, Int32.toInt_zero] at h
    omega

theorem bounded_setScrollMeta (l : TerminalView) (totalLines visibleLines offset : Int32) :
    (l.setScrollMeta totalLines visibleLines offset).Bounded := by
  obtain ⟨htotal, hvisible, hoffset⟩ := l.toInt_setScrollMeta totalLines visibleLines offset
  constructor
  · omega
  · omega
  · omega
  · omega

/-- The offset of a drag is held to the range, whatever its products come out as. -/
theorem Bounded.dragOffset (hb : l.Bounded) (newy : Int32) :
    0 ≤ (l.dragOffset newy).toInt ∧
      (l.dragOffset newy).toInt ≤ max 0 (l.scrollTotal.toInt - l.scrollVisible.toInt) := by
  have hmax := hb.toInt_maxOffset
  rw [TerminalView.dragOffset]
  generalize l.dragStartOffset + -((newy - l.y - l.dragStartY) * l.maxOffset) / l.travel = off
  have hlow := toInt_ite_max32 off 0
  have hhigh := toInt_ite_min32 l.maxOffset (if off < 0 then 0 else off)
  rw [Int32.toInt_zero] at hlow
  omega

theorem Bounded.onMouseMove (hb : l.Bounded) (newy : Int32) (handler : Bool) :
    (l.onMouseMove newy handler).Bounded := by
  have hoff := hb.dragOffset newy
  rw [TerminalView.onMouseMove]
  split
  · exact hb
  · split
    · exact hb
    · dsimp only
      split
      · exact ⟨hb.total, hb.visible, hoff.1, hoff.2⟩
      · exact hb

theorem Bounded.onMouseDown (hb : l.Bounded) (mx my : Int32) (button : UInt8) (handler : Bool) :
    (l.onMouseDown mx my button handler).Bounded := by
  have hkeep : ∀ l' : TerminalView, l'.scrollTotal = l.scrollTotal →
      l'.scrollVisible = l.scrollVisible → l'.scrollOffset = l.scrollOffset → l'.Bounded := by
    intro l' ht hv ho
    exact ⟨by rw [ht]; exact hb.total, by rw [hv]; exact hb.visible, by rw [ho]; exact hb.low,
      by rw [ht, hv, ho]; exact hb.high⟩
  rw [TerminalView.onMouseDown]
  dsimp only
  split_ifs <;> exact hkeep _ rfl rfl rfl

theorem Bounded.step (hb : l.Bounded) (op : Op) : (l.step op).Bounded := by
  cases op with
  | scrollMeta totalLines visibleLines offset =>
    exact l.bounded_setScrollMeta totalLines visibleLines offset
  | down mx my button handler => exact hb.onMouseDown mx my button handler
  | move newy handler => exact hb.onMouseMove newy handler
  | up button =>
    show (l.onMouseUp button).Bounded
    rw [onMouseUp]
    split
    · exact ⟨hb.total, hb.visible, hb.low, hb.high⟩
    · exact hb
  | consume | place | setVisible => exact ⟨hb.total, hb.visible, hb.low, hb.high⟩

theorem bounded_construct (x y w h : Int32) : (construct x y w h).Bounded :=
  ⟨Int.le_refl 0, Int.le_refl 0, Int.le_refl 0, Int.le_refl 0⟩

/-! ## The thumb -/

def withOffset (l : TerminalView) (off : Int32) : TerminalView := { l with scrollOffset := off }

theorem toInt_trackY : trackY.toInt = 14 := by decide

/-- `TrackH` of a view that is high enough for a track. -/
theorem toInt_trackH (hh : 28 < l.h.toInt) : l.trackH.toInt = l.h.toInt - 28 := by
  have hlt := l.h.toInt_lt
  have h4 : (2 * 2 : Int32).toInt = 4 := by decide
  have h24 : (scrollBtnH * 2).toInt = 24 := by decide
  have hbar := toInt_sub_eq (m := l.h) (n := 2 * 2) (by omega) (by omega)
  have htrack := toInt_sub_eq (m := l.h - 2 * 2) (n := scrollBtnH * 2) (by omega) (by omega)
  rw [trackH, scrollBarH]
  omega

theorem thumbH_of_le (hle : l.scrollTotal ≤ l.scrollVisible) : l.thumbH = l.trackH := by
  rw [thumbH, if_pos (Or.inr (Or.inr hle))]

/-- The thumb is the whole track, or 10 pixels of it at least. -/
theorem thumbH_spec (l : TerminalView) :
    l.thumbH = l.trackH ∨ 10 ≤ l.thumbH.toInt ∧ l.thumbH.toInt < l.trackH.toInt := by
  rw [thumbH]
  split
  · exact Or.inl rfl
  · dsimp only
    generalize l.trackH * l.scrollVisible / l.scrollTotal = th
    have hlow := toInt_ite_max32 th 10
    have h10 : (10 : Int32).toInt = 10 := by decide
    generalize (if th < 10 then 10 else th) = th' at hlow ⊢
    split
    · exact Or.inl rfl
    next h =>
      rw [Int32.lt_iff_toInt_lt] at h
      obtain heq | hne := Decidable.em (th' = l.trackH)
      · exact Or.inl heq
      · rw [← Int32.toInt_inj] at hne
        exact Or.inr ⟨by omega, by omega⟩

theorem toInt_travel (l : TerminalView) :
    l.travel.toInt = l.trackH.toInt - l.thumbH.toInt ∧ 0 ≤ l.travel.toInt := by
  have hlt := l.trackH.toInt_lt
  rw [travel]
  obtain heq | ⟨hlow, hhigh⟩ := l.thumbH_spec
  · rw [heq, Int32.sub_self, Int32.toInt_zero]
    omega
  · rw [toInt_sub_eq (by omega) (by omega)]
    omega

/-- Where there is nothing to scroll, the thumb does not move. -/
theorem travel_eq_zero (hb : l.Bounded) (hm : l.maxOffset.toInt ≤ 0) : l.travel.toInt = 0 := by
  have hmax := hb.toInt_maxOffset
  have hle : l.scrollTotal ≤ l.scrollVisible := by
    rw [Int32.le_iff_toInt_le]
    omega
  rw [travel, thumbH_of_le hle, Int32.sub_self, Int32.toInt_zero]

/-- The way of the thumb times the last offset fits a word. -/
def Scales (l : TerminalView) : Prop := l.travel.toInt * l.maxOffset.toInt < 2 ^ 31

instance (l : TerminalView) : Decidable l.Scales := inferInstanceAs (Decidable (_ < _))

/-- The product that places the thumb. -/
theorem toInt_travel_mul (hb : l.Bounded) (hs : l.Scales) :
    (l.travel * l.scrollOffset).toInt = l.travel.toInt * l.scrollOffset.toInt := by
  have htr := l.toInt_travel.2
  have hmax := hb.toInt_maxOffset
  have hlow := hb.low
  have hhigh := hb.high
  have hnn := Int.mul_nonneg htr hlow
  have hle : l.travel.toInt * l.scrollOffset.toInt ≤ l.travel.toInt * l.maxOffset.toInt :=
    Int.mul_le_mul_of_nonneg_left (by omega) htr
  rw [Scales] at hs
  rw [Int32.toInt_mul]
  exact Int.bmod_eq_of_le (by omega) (by omega)

theorem toInt_div_of_pos {m n : Int32} (hm : 0 ≤ m.toInt) (hn : 0 < n.toInt) :
    (m / n).toInt = m.toInt / n.toInt := by
  have hne : n ≠ -1 := by
    rintro rfl
    revert hn
    decide
  rw [Int32.toInt_div_of_ne_right _ _ hne, Int.tdiv_eq_ediv_of_nonneg hm]

/-- `ThumbY`: down from the top by the part of the way that is not scrolled. -/
theorem toInt_thumbY (hb : l.Bounded) (hh : 28 < l.h.toInt) (hs : l.Scales) :
    l.thumbY.toInt =
        14 + l.travel.toInt - l.travel.toInt * l.scrollOffset.toInt / l.maxOffset.toInt ∧
      l.travel.toInt * l.scrollOffset.toInt / l.maxOffset.toInt ≤ l.travel.toInt ∧
      0 ≤ l.travel.toInt * l.scrollOffset.toInt / l.maxOffset.toInt := by
  obtain ⟨htr, htr0⟩ := l.toInt_travel
  have htrack := toInt_trackH hh
  have hlt := l.h.toInt_lt
  have hmax := hb.toInt_maxOffset
  have hlow := hb.low
  have hhigh := hb.high
  have hthumb : 0 < l.thumbH.toInt := by
    obtain heq | ⟨h10, -⟩ := l.thumbH_spec
    · rw [heq]
      omega
    · omega
  rw [thumbY]
  split
  next hm =>
    rw [Int32.le_iff_toInt_le, Int32.toInt_zero] at hm
    rw [travel_eq_zero hb hm, Int.zero_mul, Int.zero_ediv, toInt_trackY]
    omega
  next hm =>
    rw [Int32.le_iff_toInt_le, Int32.toInt_zero] at hm
    have hprod := toInt_travel_mul hb hs
    have hnn := Int.mul_nonneg htr0 hlow
    have hdiv := toInt_div_of_pos (m := l.travel * l.scrollOffset) (n := l.maxOffset) (by omega)
      (by omega)
    rw [hprod] at hdiv
    have hq0 : 0 ≤ l.travel.toInt * l.scrollOffset.toInt / l.maxOffset.toInt :=
      Int.ediv_nonneg hnn (by omega)
    have hq : l.travel.toInt * l.scrollOffset.toInt / l.maxOffset.toInt ≤ l.travel.toInt := by
      apply Int.ediv_le_of_le_mul (by omega)
      exact Int.mul_le_mul_of_nonneg_left (by omega) htr0
    have hsum := toInt_add_eq (m := trackY) (n := l.travel) (by rw [toInt_trackY]; omega)
      (by rw [toInt_trackY]; omega)
    rw [toInt_trackY] at hsum
    refine ⟨?_, hq, hq0⟩
    rw [toInt_sub_eq (by omega) (by omega), hsum, hdiv]

/-- The thumb is in its track for every offset, at the top for the last one and at the bottom for
the first. -/
structure ThumbPlaced (l : TerminalView) : Prop where
  inside : ∀ off, (l.withOffset off).Bounded → trackY.toInt ≤ (l.withOffset off).thumbY.toInt ∧
    (l.withOffset off).thumbY.toInt + l.thumbH.toInt ≤ trackY.toInt + l.trackH.toInt
  top : (l.withOffset l.maxOffset).thumbY = trackY
  bottom : (l.withOffset 0).thumbY.toInt + l.thumbH.toInt = trackY.toInt + l.trackH.toInt

theorem Bounded.withOffset (hb : l.Bounded) {off : Int32} (hlow : 0 ≤ off.toInt)
    (hhigh : off.toInt ≤ l.maxOffset.toInt) : (l.withOffset off).Bounded := by
  have hmax := hb.toInt_maxOffset
  exact ⟨hb.total, hb.visible, hlow, by show off.toInt ≤ _; exact hmax ▸ hhigh⟩

theorem thumbPlaced_of_scales (hb : l.Bounded) (hh : 28 < l.h.toInt) (hs : l.Scales) :
    l.ThumbPlaced := by
  obtain ⟨htr, htr0⟩ := l.toInt_travel
  have hmax := hb.toInt_maxOffset
  have hy : ∀ off, (l.withOffset off).Bounded → (l.withOffset off).thumbY.toInt =
        14 + l.travel.toInt - l.travel.toInt * off.toInt / l.maxOffset.toInt ∧
      l.travel.toInt * off.toInt / l.maxOffset.toInt ≤ l.travel.toInt ∧
      0 ≤ l.travel.toInt * off.toInt / l.maxOffset.toInt :=
    fun off hoff => toInt_thumbY hoff hh hs
  constructor
  case inside =>
    intro off hoff
    have hoff := hy off hoff
    rw [toInt_trackY]
    omega
  case top =>
    have hlast := hy l.maxOffset (hb.withOffset (by omega) (Int.le_refl _))
    rw [← Int32.toInt_inj, toInt_trackY, hlast.1]
    obtain h0 | hpos : l.maxOffset.toInt = 0 ∨ 0 < l.maxOffset.toInt := by omega
    · rw [travel_eq_zero hb (by omega), Int.zero_mul, Int.zero_ediv]
      omega
    · rw [Int.mul_ediv_cancel _ (by omega)]
      omega
  case bottom =>
    have hfirst := hy 0 (hb.withOffset (Int.le_refl _) (by rw [Int32.toInt_zero]; omega))
    rw [Int32.toInt_zero, Int.mul_zero, Int.zero_ediv] at hfirst
    rw [toInt_trackY]
    omega

/-- A product that does not fit is not there at the division that should take the last offset to
the whole way. -/
theorem scales_of_top (hb : l.Bounded) (ht : (l.withOffset l.maxOffset).thumbY = trackY) :
    l.Scales := by
  obtain ⟨htr, htr0⟩ := l.toInt_travel
  have hmax := hb.toInt_maxOffset
  rw [Scales]
  obtain h0 | hpos : l.maxOffset.toInt = 0 ∨ 0 < l.maxOffset.toInt := by omega
  · rw [h0, Int.mul_zero]
    decide
  · have hne : l.maxOffset ≠ -1 := by
      intro h
      rw [h] at hpos
      revert hpos
      decide
    have hdef : (l.withOffset l.maxOffset).thumbY =
        trackY + l.travel - l.travel * l.maxOffset / l.maxOffset := by
      have hm : ¬ l.maxOffset ≤ 0 := by
        rw [Int32.le_iff_toInt_le, Int32.toInt_zero]
        omega
      exact if_neg hm
    have hquot : l.travel * l.maxOffset / l.maxOffset = l.travel := by
      rw [hdef] at ht
      grind
    have hback := congrArg Int32.toInt hquot
    rw [Int32.toInt_div_of_ne_right _ _ hne] at hback
    have hlt := (l.travel * l.maxOffset).toInt_lt
    obtain hneg | hnn := Int.lt_or_le (l.travel * l.maxOffset).toInt 0
    · have hle := Int.tdiv_le_tdiv hpos (Int.le_of_lt hneg)
      rw [hback, Int.zero_tdiv] at hle
      rw [show l.travel.toInt = 0 by omega, Int.zero_mul]
      decide
    · have hle := Int.mul_tdiv_self_le (k := l.maxOffset.toInt) hnn
      rw [hback, Int.mul_comm] at hle
      omega

/-- The thumb is placed exactly where its way times the last offset fits. -/
theorem thumbPlaced_iff (hb : l.Bounded) (hh : 28 < l.h.toInt) : l.ThumbPlaced ↔ l.Scales :=
  ⟨fun h => scales_of_top hb h.top, thumbPlaced_of_scales hb hh⟩

/-! ## Drags -/

/-- Where the pointer asks to be scrolled to, before it is held to the range. -/
def asked (l : TerminalView) (newy : Int32) : Int :=
  l.dragStartOffset.toInt +
    (-((newy.toInt - l.y.toInt - l.dragStartY.toInt) * l.maxOffset.toInt)).tdiv l.travel.toInt

/-- The pointer is near enough for the sums and products of a drag, and the offset it asks for has an
action. -/
structure Reaches (l : TerminalView) (newy : Int32) : Prop where
  localY : Fits32 (newy.toInt - l.y.toInt)
  dy : Fits32 (newy.toInt - l.y.toInt - l.dragStartY.toInt)
  product : ((newy.toInt - l.y.toInt - l.dragStartY.toInt) * l.maxOffset.toInt).natAbs < 2 ^ 31
  sum : Fits32 (l.asked newy)
  action : min (l.asked newy) l.maxOffset.toInt + 1000000 < 2 ^ 31

theorem toInt_dragOffset (htr : 0 < l.travel.toInt) {newy : Int32} (hr : l.Reaches newy) :
    (l.dragOffset newy).toInt = min l.maxOffset.toInt (max 0 (l.asked newy)) := by
  obtain ⟨⟨hy, hy'⟩, ⟨hd, hd'⟩, hprod, ⟨hs, hs'⟩, -⟩ := hr
  have hlocal := toInt_sub_eq (m := newy) (n := l.y) hy hy'
  have hdy := toInt_sub_eq (m := newy - l.y) (n := l.dragStartY) (by omega) (by omega)
  rw [hlocal] at hdy
  have hmul : (-((newy - l.y - l.dragStartY) * l.maxOffset)).toInt =
      -((newy.toInt - l.y.toInt - l.dragStartY.toInt) * l.maxOffset.toInt) := by
    have hfit : ((newy - l.y - l.dragStartY) * l.maxOffset).toInt =
        (newy.toInt - l.y.toInt - l.dragStartY.toInt) * l.maxOffset.toInt := by
      rw [Int32.toInt_mul, hdy]
      exact Int.bmod_eq_of_le (by omega) (by omega)
    rw [Int32.toInt_neg, hfit]
    exact Int.bmod_eq_of_le (by omega) (by omega)
  have hne : l.travel ≠ -1 := by
    intro h
    rw [h] at htr
    revert htr
    decide
  have hdiv := Int32.toInt_div_of_ne_right (-((newy - l.y - l.dragStartY) * l.maxOffset)) l.travel
    hne
  rw [hmul] at hdiv
  have hsum : (l.dragStartOffset +
      -((newy - l.y - l.dragStartY) * l.maxOffset) / l.travel).toInt = l.asked newy := by
    rw [toInt_add_eq (by rw [hdiv]; exact hs) (by rw [hdiv]; exact hs'), hdiv]
    rfl
  rw [dragOffset]
  generalize l.dragStartOffset + -((newy - l.y - l.dragStartY) * l.maxOffset) / l.travel = off
    at hsum ⊢
  have hlow := toInt_ite_max32 off 0
  have hhigh := toInt_ite_min32 l.maxOffset (if off < 0 then 0 else off)
  rw [Int32.toInt_zero] at hlow
  omega

theorem asked_antitone (htr : 0 < l.travel.toInt) (hm : 0 ≤ l.maxOffset.toInt) {newy newy' : Int32}
    (hle : newy ≤ newy') : l.asked newy' ≤ l.asked newy := by
  rw [Int32.le_iff_toInt_le] at hle
  have hmul := Int.mul_le_mul_of_nonneg_right
    (show newy.toInt - l.y.toInt - l.dragStartY.toInt ≤
      newy'.toInt - l.y.toInt - l.dragStartY.toInt by omega) hm
  have hdiv := Int.tdiv_le_tdiv htr (Int.neg_le_neg hmul)
  rw [asked, asked]
  omega

/-- The steps without an overflow: the thumb of the new geometry can be placed, and a drag stays in
reach. -/
def Admits (l : TerminalView) : Op → Prop
  | .scrollMeta totalLines visibleLines offset =>
    28 < l.h.toInt → (l.setScrollMeta totalLines visibleLines offset).Scales
  | .place x y w h => 28 < h.toInt → { l with x, y, w, h }.Scales
  | .move newy _ => l.isDraggingThumb → 0 < l.travel.toInt → 0 < l.maxOffset.toInt → l.Reaches newy
  | _ => True

/-- What a move does while the thumb is dragged. -/
theorem onMouseMove_of_dragging (hdrag : l.isDraggingThumb) (htr : 0 < l.travel.toInt)
    (hm : 0 < l.maxOffset.toInt) (newy : Int32) (handler : Bool) :
    l.onMouseMove newy handler = if l.dragOffset newy ≠ l.scrollOffset then
      { l with
        scrollOffset := l.dragOffset newy
        pendingScrollAction := -(1000000 + l.dragOffset newy)
        clicks := if handler then l.clicks + 1 else l.clicks }
    else l := by
  rw [onMouseMove, if_neg (by simp [hdrag]), if_neg]
  simp only [Int32.le_iff_toInt_le, Int32.toInt_zero]
  omega

theorem scrollOffset_onMouseMove (hdrag : l.isDraggingThumb) (htr : 0 < l.travel.toInt)
    (hm : 0 < l.maxOffset.toInt) (newy : Int32) (handler : Bool) :
    (l.onMouseMove newy handler).scrollOffset = l.dragOffset newy := by
  rw [onMouseMove_of_dragging hdrag htr hm]
  split
  · rfl
  next h => exact (Decidable.not_not.mp h).symm

/-- A move changes nothing where the thumb is not dragged or has no way. -/
theorem onMouseMove_of_idle (h : ¬ (l.isDraggingThumb ∧ 0 < l.travel.toInt ∧ 0 < l.maxOffset.toInt))
    (newy : Int32) (handler : Bool) : l.onMouseMove newy handler = l := by
  rw [onMouseMove]
  split
  · rfl
  next hdrag =>
    rw [if_pos]
    simp only [Int32.le_iff_toInt_le, Int32.toInt_zero]
    simp only [Bool.not_eq_true', Bool.not_eq_false] at hdrag
    simp only [hdrag, true_and] at h
    omega

/-- The lower the pointer, the smaller the offset. -/
theorem onMouseMove_antitone {newy newy' : Int32} {handler : Bool}
    (ha : l.Admits (.move newy handler)) (ha' : l.Admits (.move newy' handler))
    (hle : newy ≤ newy') :
    (l.onMouseMove newy' handler).scrollOffset ≤ (l.onMouseMove newy handler).scrollOffset := by
  by_cases h : l.isDraggingThumb ∧ 0 < l.travel.toInt ∧ 0 < l.maxOffset.toInt
  · obtain ⟨hdrag, htr, hm⟩ := h
    have hasked := asked_antitone htr (Int.le_of_lt hm) hle
    rw [scrollOffset_onMouseMove hdrag htr hm, scrollOffset_onMouseMove hdrag htr hm,
      Int32.le_iff_toInt_le, toInt_dragOffset htr (ha hdrag htr hm),
      toInt_dragOffset htr (ha' hdrag htr hm)]
    omega
  · rw [onMouseMove_of_idle h, onMouseMove_of_idle h]
    exact Int32.le_refl _

/-- The offset after two moves is that of the second. -/
theorem onMouseMove_twice (l : TerminalView) (newy newy' : Int32) (handler handler' : Bool) :
    ((l.onMouseMove newy handler).onMouseMove newy' handler').scrollOffset =
      (l.onMouseMove newy' handler').scrollOffset := by
  by_cases h : l.isDraggingThumb ∧ 0 < l.travel.toInt ∧ 0 < l.maxOffset.toInt
  · obtain ⟨hdrag, htr, hm⟩ := h
    rw [scrollOffset_onMouseMove hdrag htr hm, onMouseMove_of_dragging hdrag htr hm]
    split
    · refine (scrollOffset_onMouseMove ?_ ?_ ?_ newy' handler').trans rfl
      · exact hdrag
      · exact htr
      · exact hm
    · exact scrollOffset_onMouseMove hdrag htr hm newy' handler'
  · rw [onMouseMove_of_idle h]

end TerminalView
end Hashx86
