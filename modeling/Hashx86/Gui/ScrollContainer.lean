import Hashx86.Gui.ScrollBar
import Hashx86.Gui.Sizing

/-!
# The scroll container (`gui/scrollcontainer.cpp`)

The size of the content is in the container and in the content widget, the offset in the bars and in
the content's position; a callback that runs where the value of a bar changes links the latter.

* `Inv`: what the constructor and every operation leave: the links, and the ranges of the bars from
  the recorded sizes (`inv_construct`, `Inv.step`).
* `Covers`: the content stays where the viewport shows it, and both ends can be scrolled to.
* `covers_iff`: exactly where the recorded sizes give the ranges of the actual ones (`Agrees`).
-/

namespace Hashx86

open Lib

structure ScrollContainer where
  w : Int32
  h : Int32
  enabled : Bool
  isVisible : Bool
  content : Sizing.Widget
  vbar : ScrollBar
  hbar : ScrollBar
  contentW : Int32
  contentH : Int32

namespace ScrollContainer

def BAR : Int32 := 12

/-! ## The bars and the content -/

/-- Something done to the vertical bar, and `OnBarChanged` where it changes the value. -/
def onVbar (c : ScrollContainer) (f : ScrollBar → ScrollBar) : ScrollContainer :=
  let vbar := f c.vbar
  if vbar.value = c.vbar.value then { c with vbar }
  else { c with vbar, content := { c.content with y := -vbar.value } }

def onHbar (c : ScrollContainer) (f : ScrollBar → ScrollBar) : ScrollContainer :=
  let hbar := f c.hbar
  if hbar.value = c.hbar.value then { c with hbar }
  else { c with hbar, content := { c.content with x := -hbar.value } }

/-- `SyncBars`. -/
def syncBars (c : ScrollContainer) : ScrollContainer :=
  (c.onVbar fun b => b.setRange 0 c.contentH (c.h - BAR)).onHbar fun b =>
    b.setRange 0 c.contentW (c.w - BAR)

/-- `GetScrollX`. -/
def getScrollX (c : ScrollContainer) : Int32 := -c.content.x

/-- `GetScrollY`. -/
def getScrollY (c : ScrollContainer) : Int32 := -c.content.y

def contentAttr : Sizing.Attr :=
  { parent := none, x := 0, y := 0, minWidth := 0, minHeight := 0,
    padding := { t := 0, r := 0, b := 0, l := 0 }, sizeMode := .fixed, text := none }

/-- The answers of the allocator to the four widgets of a container. -/
structure Memory where
  own : Bool
  content : Bool × Bool
  vbar : Bool
  hbar : Bool

/-- `ScrollContainer::ScrollContainer`, or an `Abort` of one of the widgets. -/
def construct (w h : Int32) (mem : Memory) : Option ScrollContainer := do
  let _ ← Sizing.cacheOrAbort mem.own w h
  let content ← Sizing.newWidget .plain contentAttr (w - BAR) (h - BAR) mem.content
  let _ ← Sizing.cacheOrAbort mem.vbar BAR (h - BAR)
  let _ ← Sizing.cacheOrAbort mem.hbar (w - BAR) BAR
  let c : ScrollContainer :=
    { w, h, enabled := true, isVisible := true, content,
      vbar := ScrollBar.new (w - BAR) 0 BAR (h - BAR) true,
      hbar := ScrollBar.new 0 (h - BAR) (w - BAR) BAR false, contentW := w, contentH := h }
  some c.syncBars

/-! ## Operations -/

/-- `SetContentSize`. -/
def setContentSize (c : ScrollContainer) (cw ch : Int32) (mem : Bool) : ScrollContainer :=
  let cw := if cw < 0 then 0 else cw
  let ch := if ch < 0 then 0 else ch
  syncBars { c with contentW := cw, contentH := ch, content := (c.content.resize mem cw ch).2 }

/-- `OnMouseWheel`. -/
def onMouseWheel (c : ScrollContainer) (delta : Int32) : ScrollContainer :=
  if !c.enabled || !c.isVisible then c
  else
    let next := c.vbar.value.toInt64 - delta.toInt64
    let next := if 2147483647 < next then 2147483647 else next
    let next := if next < -2147483648 then -2147483648 else next
    c.onVbar fun b => b.setValue next.toInt32

/-- What is done to a bar without a new range: `SetValue`, the mouse, and what any widget is open
to. -/
inductive BarOp
  | setValue (v : Int32)
  | wheel (delta : Int32)
  | down (x y : Int32) (button : UInt8)
  | move (newx newy : Int32)
  | up
  | place (x y w h : Int32)
  | gate (enabled isVisible : Bool)

def BarOp.toOp : BarOp → ScrollBar.Op
  | .setValue v => .setValue v
  | .wheel delta => .wheel delta
  | .down x y button => .down x y button
  | .move newx newy => .move newx newy
  | .up => .up
  | .place x y w h => .place x y w h
  | .gate enabled isVisible => .gate enabled isVisible

/-- What scrolls: the wheel over the container, and the bars. -/
inductive Scroll
  | wheel (delta : Int32)
  | vbar (op : BarOp)
  | hbar (op : BarOp)

def scroll (c : ScrollContainer) : Scroll → ScrollContainer
  | .wheel delta => c.onMouseWheel delta
  | .vbar op => c.onVbar fun b => b.step op.toOp
  | .hbar op => c.onHbar fun b => b.step op.toOp

inductive Op
  | setContentSize (cw ch : Int32) (mem : Bool)
  | scroll (s : Scroll)
  | gate (enabled isVisible : Bool)

def step (c : ScrollContainer) : Op → ScrollContainer
  | .setContentSize cw ch mem => c.setContentSize cw ch mem
  | .scroll s => c.scroll s
  | .gate enabled isVisible => { c with enabled, isVisible }

/-! ## The range of a bar -/

/-- The range and the page are as they were. -/
def SameRange (b b' : ScrollBar) : Prop :=
  b'.minValue = b.minValue ∧ b'.maxValue = b.maxValue ∧ b'.pageSize = b.pageSize

theorem sameRange_setValue (b : ScrollBar) (v : Int32) : SameRange b (b.setValue v) := by
  rw [ScrollBar.setValue_eq]
  exact ⟨rfl, rfl, rfl⟩

theorem sameRange_press (b : ScrollBar) (pos : Int32) : SameRange b (b.press pos) := by
  rw [ScrollBar.press]
  dsimp only
  split
  · exact ⟨rfl, rfl, rfl⟩
  · split
    · exact sameRange_setValue b _
    · exact sameRange_setValue b _

theorem sameRange_step (b : ScrollBar) (op : BarOp) : SameRange b (b.step op.toOp) := by
  cases op with
  | setValue v => exact sameRange_setValue b v
  | wheel delta =>
    show SameRange b (b.onMouseWheel delta)
    rw [ScrollBar.onMouseWheel]
    split
    · exact ⟨rfl, rfl, rfl⟩
    · exact sameRange_setValue b _
  | down x y button =>
    show SameRange b (b.onMouseDown x y button)
    rw [ScrollBar.onMouseDown]
    split
    · exact ⟨rfl, rfl, rfl⟩
    · split
      · exact ⟨rfl, rfl, rfl⟩
      · exact sameRange_press b _
  | move newx newy =>
    show SameRange b (b.onMouseMove newx newy)
    rw [ScrollBar.onMouseMove]
    split
    · exact ⟨rfl, rfl, rfl⟩
    · split
      · exact ⟨rfl, rfl, rfl⟩
      · exact sameRange_setValue b _
  | up => exact ⟨rfl, rfl, rfl⟩
  | place x y w h => exact ⟨rfl, rfl, rfl⟩
  | gate enabled isVisible => exact ⟨rfl, rfl, rfl⟩

theorem SameRange.maxValueOf {b b' : ScrollBar} (h : SameRange b b') :
    b'.maxValueOf = b.maxValueOf := by
  rw [ScrollBar.maxValueOf, ScrollBar.maxValueOf, h.1, h.2.1, h.2.2]

/-- How far a bar scrolls over a content of `size` with a page of `page`. -/
def told (size page : Int32) : Int := max 0 (max 0 size.toInt - max 1 page.toInt)

/-- A bar that `SyncBars` has given its range. -/
structure Synced (b : ScrollBar) (size page : Int32) : Prop where
  sound : b.Sound
  first : b.minValue = 0
  last : b.maxValueOf.toInt = told size page

theorem synced_setRange (b : ScrollBar) (size page : Int32) :
    Synced (b.setRange 0 size page) size page := by
  have hsound := ScrollBar.sound_setRange b 0 size page
  have hsame : SameRange
      { b with
        minValue := 0
        maxValue := if size < 0 then 0 else size
        pageSize := if page < 1 then 1 else page }
      (b.setRange 0 size page) := sameRange_setValue _ _
  refine ⟨hsound, hsame.1, ?_⟩
  rw [hsame.maxValueOf, ScrollBar.toInt_maxValueOf, told]
  · have hsize := toInt_ite_max32 size 0
    have hpage := toInt_ite_max32 page 1
    rw [Int32.toInt_zero] at hsize
    rw [show (1 : Int32).toInt = 1 by decide] at hpage
    show max (0 : Int32).toInt ((if size < 0 then 0 else size).toInt -
      (if page < 1 then 1 else page).toInt) = _
    rw [hsize, hpage, Int32.toInt_zero]
    omega
  · have hpage := toInt_ite_max32 page 1
    rw [show (1 : Int32).toInt = 1 by decide] at hpage
    show 1 ≤ (if page < 1 then 1 else page).toInt
    omega

theorem Synced.of_sameRange {b b' : ScrollBar} {size page : Int32} (h : Synced b size page)
    (hs : b'.Sound) (hr : SameRange b b') : Synced b' size page :=
  ⟨hs, hr.1.trans h.first, by rw [hr.maxValueOf]; exact h.last⟩

/-- The value is between zero and the range that the bar was told. -/
theorem Synced.value_bounds {b : ScrollBar} {size page : Int32} (h : Synced b size page) :
    0 ≤ b.value.toInt ∧ b.value.toInt ≤ told size page := by
  obtain ⟨hlow, hhigh⟩ := h.sound.inRange
  rw [h.first, Int32.le_iff_toInt_le, Int32.toInt_zero] at hlow
  rw [Int32.le_iff_toInt_le, h.last] at hhigh
  exact ⟨hlow, hhigh⟩

/-! ## The links -/

/-- The content is at the place that the bars say. -/
def Linked (c : ScrollContainer) : Prop :=
  c.content.y = -c.vbar.value ∧ c.content.x = -c.hbar.value

variable {c : ScrollContainer}

theorem Linked.onVbar (hl : c.Linked) (f : ScrollBar → ScrollBar) : (c.onVbar f).Linked := by
  rw [ScrollContainer.onVbar]
  dsimp only
  split
  next h => exact ⟨hl.1.trans (congrArg Neg.neg h.symm), hl.2⟩
  next h => exact ⟨rfl, hl.2⟩

theorem Linked.onHbar (hl : c.Linked) (f : ScrollBar → ScrollBar) : (c.onHbar f).Linked := by
  rw [ScrollContainer.onHbar]
  dsimp only
  split
  next h => exact ⟨hl.1, hl.2.trans (congrArg Neg.neg h.symm)⟩
  next h => exact ⟨hl.1, rfl⟩

/-- The sizes, actual and recorded, are as they were. -/
structure SameSize (c c' : ScrollContainer) : Prop where
  size : c'.w = c.w ∧ c'.h = c.h
  content : c'.content.w = c.content.w ∧ c'.content.h = c.content.h
  recorded : c'.contentW = c.contentW ∧ c'.contentH = c.contentH

theorem SameSize.trans {c c' c'' : ScrollContainer} (h : SameSize c c') (h' : SameSize c' c'') :
    SameSize c c'' :=
  ⟨⟨h'.size.1.trans h.size.1, h'.size.2.trans h.size.2⟩,
    ⟨h'.content.1.trans h.content.1, h'.content.2.trans h.content.2⟩,
    ⟨h'.recorded.1.trans h.recorded.1, h'.recorded.2.trans h.recorded.2⟩⟩

theorem onVbar_frame (c : ScrollContainer) (f : ScrollBar → ScrollBar) :
    SameSize c (c.onVbar f) ∧ (c.onVbar f).vbar = f c.vbar ∧ (c.onVbar f).hbar = c.hbar := by
  rw [onVbar]
  dsimp only
  split
  · exact ⟨⟨⟨rfl, rfl⟩, ⟨rfl, rfl⟩, ⟨rfl, rfl⟩⟩, rfl, rfl⟩
  · exact ⟨⟨⟨rfl, rfl⟩, ⟨rfl, rfl⟩, ⟨rfl, rfl⟩⟩, rfl, rfl⟩

theorem onHbar_frame (c : ScrollContainer) (f : ScrollBar → ScrollBar) :
    SameSize c (c.onHbar f) ∧ (c.onHbar f).hbar = f c.hbar ∧ (c.onHbar f).vbar = c.vbar := by
  rw [onHbar]
  dsimp only
  split
  · exact ⟨⟨⟨rfl, rfl⟩, ⟨rfl, rfl⟩, ⟨rfl, rfl⟩⟩, rfl, rfl⟩
  · exact ⟨⟨⟨rfl, rfl⟩, ⟨rfl, rfl⟩, ⟨rfl, rfl⟩⟩, rfl, rfl⟩

/-- What the constructor and every operation leave. -/
structure Inv (c : ScrollContainer) : Prop where
  linked : c.Linked
  vbar : Synced c.vbar c.contentH (c.h - BAR)
  hbar : Synced c.hbar c.contentW (c.w - BAR)

theorem Inv.onVbar (hc : c.Inv) {f : ScrollBar → ScrollBar} (hs : (f c.vbar).Sound)
    (hr : SameRange c.vbar (f c.vbar)) : (c.onVbar f).Inv := by
  obtain ⟨hsize, hv, hh⟩ := onVbar_frame c f
  constructor
  case linked => exact hc.linked.onVbar f
  case vbar =>
    rw [hv, hsize.recorded.2, hsize.size.2]
    exact hc.vbar.of_sameRange hs hr
  case hbar =>
    rw [hh, hsize.recorded.1, hsize.size.1]
    exact hc.hbar

theorem Inv.onHbar (hc : c.Inv) {f : ScrollBar → ScrollBar} (hs : (f c.hbar).Sound)
    (hr : SameRange c.hbar (f c.hbar)) : (c.onHbar f).Inv := by
  obtain ⟨hsize, hh, hv⟩ := onHbar_frame c f
  constructor
  case linked => exact hc.linked.onHbar f
  case vbar =>
    rw [hv, hsize.recorded.2, hsize.size.2]
    exact hc.vbar
  case hbar =>
    rw [hh, hsize.recorded.1, hsize.size.1]
    exact hc.hbar.of_sameRange hs hr

theorem inv_syncBars (hl : c.Linked) : c.syncBars.Inv := by
  rw [syncBars]
  generalize hd : (c.onVbar fun b => b.setRange 0 c.contentH (c.h - BAR)) = d
  have hdl : d.Linked := by
    rw [← hd]
    exact hl.onVbar _
  obtain ⟨hsize, hv, -⟩ := onVbar_frame c fun b => b.setRange 0 c.contentH (c.h - BAR)
  rw [hd] at hsize hv
  obtain ⟨hsize', hh, hv'⟩ := onHbar_frame d fun b => b.setRange 0 c.contentW (c.w - BAR)
  constructor
  case linked => exact hdl.onHbar _
  case vbar =>
    rw [hv', hv, hsize'.recorded.2, hsize'.size.2, hsize.recorded.2, hsize.size.2]
    exact synced_setRange _ _ _
  case hbar =>
    rw [hh, hsize'.recorded.1, hsize'.size.1, hsize.recorded.1, hsize.size.1]
    exact synced_setRange _ _ _

theorem syncBars_frame (c : ScrollContainer) : SameSize c c.syncBars := by
  rw [syncBars]
  exact (onVbar_frame c _).1.trans (onHbar_frame _ _).1

/-- `Resize` leaves a widget where it is. -/
theorem resize_place (mem : Bool) (newW newH : Int32) (v : Sizing.Widget) :
    (v.resize mem newW newH).2.x = v.x ∧ (v.resize mem newW newH).2.y = v.y := by
  obtain h | ⟨h, -⟩ | ⟨-, -, _, -, h⟩ := Sizing.Widget.resize_cases mem newW newH v
  all_goals
    rw [h]
    exact ⟨rfl, rfl⟩

theorem inv_construct {w h : Int32} {mem : Memory} (hc : construct w h mem = some c) : c.Inv := by
  rw [construct] at hc
  obtain ⟨-, -, hc⟩ := Option.bind_eq_some_iff.mp hc
  obtain ⟨content, hcontent, hc⟩ := Option.bind_eq_some_iff.mp hc
  obtain ⟨-, -, hc⟩ := Option.bind_eq_some_iff.mp hc
  obtain ⟨-, -, hc⟩ := Option.bind_eq_some_iff.mp hc
  rw [← Option.some.inj hc]
  apply inv_syncBars
  obtain ⟨cache, -, hcache⟩ := Option.bind_eq_some_iff.mp hcontent
  rw [← Option.some.inj hcache]
  exact ⟨(by decide : (0 : Int32) = -0), (by decide : (0 : Int32) = -0)⟩

theorem Inv.scroll (hc : c.Inv) (s : Scroll) : (c.scroll s).Inv := by
  cases s with
  | wheel delta =>
    show (c.onMouseWheel delta).Inv
    rw [onMouseWheel]
    split
    · exact hc
    · apply hc.onVbar
      · exact hc.vbar.sound.step (.setValue _)
      · exact sameRange_setValue _ _
  | vbar op =>
    show (c.onVbar fun b => b.step op.toOp).Inv
    exact hc.onVbar (f := fun b => b.step op.toOp) (hc.vbar.sound.step op.toOp)
      (sameRange_step c.vbar op)
  | hbar op =>
    show (c.onHbar fun b => b.step op.toOp).Inv
    exact hc.onHbar (f := fun b => b.step op.toOp) (hc.hbar.sound.step op.toOp)
      (sameRange_step c.hbar op)

theorem Inv.step (hc : c.Inv) (op : Op) : (c.step op).Inv := by
  cases op with
  | setContentSize cw ch mem =>
    show (c.setContentSize cw ch mem).Inv
    rw [setContentSize]
    apply inv_syncBars
    obtain ⟨hx, hy⟩ := resize_place mem (if cw < 0 then 0 else cw) (if ch < 0 then 0 else ch)
      c.content
    exact ⟨hy.trans hc.linked.1, hx.trans hc.linked.2⟩
  | scroll s => exact hc.scroll s
  | gate enabled isVisible => exact ⟨hc.linked, hc.vbar, hc.hbar⟩

theorem Inv.run (hc : c.Inv) (ops : List Op) : (run ScrollContainer.step c ops).Inv :=
  run_inv (Q := fun _ _ => True) (fun _ op h _ => h.step op) hc (along_true _ _ ops)

theorem Inv.run_scroll (hc : c.Inv) (us : List Scroll) :
    (Lib.run ScrollContainer.scroll c us).Inv :=
  run_inv (Q := fun _ _ => True) (fun _ u h _ => h.scroll u) hc (along_true _ _ us)

theorem sameSize_scroll (c : ScrollContainer) (s : Scroll) : SameSize c (c.scroll s) := by
  cases s with
  | wheel delta =>
    show SameSize c (c.onMouseWheel delta)
    rw [onMouseWheel]
    split
    · exact ⟨⟨rfl, rfl⟩, ⟨rfl, rfl⟩, ⟨rfl, rfl⟩⟩
    · exact (onVbar_frame c _).1
  | vbar op => exact (onVbar_frame c fun b => b.step op.toOp).1
  | hbar op => exact (onHbar_frame c fun b => b.step op.toOp).1

theorem sameSize_run (c : ScrollContainer) (us : List Scroll) :
    SameSize c (Lib.run ScrollContainer.scroll c us) := by
  induction us generalizing c with
  | nil => exact ⟨⟨rfl, rfl⟩, ⟨rfl, rfl⟩, ⟨rfl, rfl⟩⟩
  | cons u us ih => exact (sameSize_scroll c u).trans (ih _)

/-! ## What can be seen -/

/-- What the bars leave free of a side of the container. -/
def viewport (len : Int32) : Int := max 0 (len.toInt - 12)

/-- How far a content of `size` can go behind the viewport. -/
def limit (size len : Int32) : Int := max 0 (size.toInt - viewport len)

/-- The viewport shows the content, or its end. -/
structure InBounds (c : ScrollContainer) : Prop where
  y : 0 ≤ c.getScrollY.toInt ∧ c.getScrollY.toInt ≤ limit c.content.h c.h
  x : 0 ≤ c.getScrollX.toInt ∧ c.getScrollX.toInt ≤ limit c.content.w c.w

/-- Wheel and bars keep the content in its bounds, and get to both ends on each axis. -/
structure Covers (c : ScrollContainer) : Prop where
  inBounds : ∀ us, (run scroll c us).InBounds
  top : ∃ us, (run scroll c us).getScrollY = 0
  bottom : ∃ us, (run scroll c us).getScrollY.toInt = limit c.content.h c.h
  left : ∃ us, (run scroll c us).getScrollX = 0
  right : ∃ us, (run scroll c us).getScrollX.toInt = limit c.content.w c.w

/-- The recorded sizes give the bars the ranges that the actual ones ask for. -/
def Agrees (c : ScrollContainer) : Prop :=
  told c.contentH (c.h - BAR) = limit c.content.h c.h ∧
    told c.contentW (c.w - BAR) = limit c.content.w c.w

theorem Inv.getScrollY (hc : c.Inv) : c.getScrollY = c.vbar.value := by
  rw [ScrollContainer.getScrollY, hc.linked.1, Int32.neg_neg]

theorem Inv.getScrollX (hc : c.Inv) : c.getScrollX = c.hbar.value := by
  rw [ScrollContainer.getScrollX, hc.linked.2, Int32.neg_neg]

/-- Every place in the range of a bar can be set. -/
theorem Synced.reach {b : ScrollBar} {total page : Int32} (hb : Synced b total page) {n : Int}
    (hn : 0 ≤ n) (hle : n ≤ told total page) :
    (b.setValue (Int32.ofInt n)).value.toInt = n := by
  have hmax := b.maxValueOf.toInt_lt
  rw [hb.last] at hmax
  have hof : (Int32.ofInt n).toInt = n := Int32.toInt_ofInt_of_le (by omega) (by omega)
  rw [ScrollBar.toInt_setValue_value (ScrollBar.minValue_le_maxValueOf hb.sound.page), hof,
    hb.first, hb.last, Int32.toInt_zero]
  omega

theorem scroll_vbar_setValue (c : ScrollContainer) (v : Int32) :
    c.scroll (.vbar (.setValue v)) = c.onVbar fun b => b.setValue v := rfl

theorem scroll_hbar_setValue (c : ScrollContainer) (v : Int32) :
    c.scroll (.hbar (.setValue v)) = c.onHbar fun b => b.setValue v := rfl

/-- Every place up to the range of the bar can be scrolled to. -/
theorem Inv.reach_y (hc : c.Inv) {n : Int} (hn : 0 ≤ n) (hle : n ≤ told c.contentH (c.h - BAR)) :
    ∃ us, (Lib.run ScrollContainer.scroll c us).getScrollY.toInt = n := by
  refine ⟨[.vbar (.setValue (Int32.ofInt n))], ?_⟩
  have hinv := hc.scroll (.vbar (.setValue (Int32.ofInt n)))
  rw [run_cons, run_nil, hinv.getScrollY, scroll_vbar_setValue, (onVbar_frame c _).2.1]
  exact hc.vbar.reach hn hle

theorem Inv.reach_x (hc : c.Inv) {n : Int} (hn : 0 ≤ n) (hle : n ≤ told c.contentW (c.w - BAR)) :
    ∃ us, (Lib.run ScrollContainer.scroll c us).getScrollX.toInt = n := by
  refine ⟨[.hbar (.setValue (Int32.ofInt n))], ?_⟩
  have hinv := hc.scroll (.hbar (.setValue (Int32.ofInt n)))
  rw [run_cons, run_nil, hinv.getScrollX, scroll_hbar_setValue, (onHbar_frame c _).2.1]
  exact hc.hbar.reach hn hle

/-- No scrolling leaves the ranges of the bars. -/
theorem Inv.scroll_le (hc : c.Inv) (us : List Scroll) :
    (0 ≤ (Lib.run ScrollContainer.scroll c us).getScrollY.toInt ∧
      (Lib.run ScrollContainer.scroll c us).getScrollY.toInt ≤ told c.contentH (c.h - BAR)) ∧
    (0 ≤ (Lib.run ScrollContainer.scroll c us).getScrollX.toInt ∧
      (Lib.run ScrollContainer.scroll c us).getScrollX.toInt ≤ told c.contentW (c.w - BAR)) := by
  have hinv := hc.run_scroll us
  have hsize := sameSize_run c us
  have hy := hinv.vbar.value_bounds
  have hx := hinv.hbar.value_bounds
  rw [hsize.recorded.2, hsize.size.2] at hy
  rw [hsize.recorded.1, hsize.size.1] at hx
  rw [hinv.getScrollY, hinv.getScrollX]
  exact ⟨hy, hx⟩

theorem told_nonneg (size page : Int32) : 0 ≤ told size page := by
  rw [told]
  exact Int.le_max_left _ _

theorem limit_nonneg (size len : Int32) : 0 ≤ limit size len := by
  rw [limit]
  exact Int.le_max_left _ _

theorem Inv.covers_iff (hc : c.Inv) : c.Covers ↔ c.Agrees := by
  constructor
  · intro h
    obtain ⟨us, hus⟩ := h.bottom
    obtain ⟨vs, hvs⟩ := h.right
    obtain ⟨us', hus'⟩ := hc.reach_y (told_nonneg _ _) (Int.le_refl _)
    obtain ⟨vs', hvs'⟩ := hc.reach_x (told_nonneg _ _) (Int.le_refl _)
    have hy := (hc.scroll_le us).1.2
    have hx := (hc.scroll_le vs).2.2
    have hy' := (h.inBounds us').y.2
    have hx' := (h.inBounds vs').x.2
    rw [(sameSize_run c us').content.2, (sameSize_run c us').size.2] at hy'
    rw [(sameSize_run c vs').content.1, (sameSize_run c vs').size.1] at hx'
    constructor
    · omega
    · omega
  · intro h
    constructor
    case inBounds =>
      intro us
      have hle := hc.scroll_le us
      have hsize := sameSize_run c us
      constructor
      case y =>
        rw [hsize.content.2, hsize.size.2, ← h.1]
        exact hle.1
      case x =>
        rw [hsize.content.1, hsize.size.1, ← h.2]
        exact hle.2
    case top =>
      obtain ⟨us, hus⟩ := hc.reach_y (Int.le_refl 0) (told_nonneg _ _)
      exact ⟨us, Int32.toInt_inj.mp hus⟩
    case bottom =>
      rw [← h.1]
      exact hc.reach_y (told_nonneg _ _) (Int.le_refl _)
    case left =>
      obtain ⟨us, hus⟩ := hc.reach_x (Int.le_refl 0) (told_nonneg _ _)
      exact ⟨us, Int32.toInt_inj.mp hus⟩
    case right =>
      rw [← h.2]
      exact hc.reach_x (told_nonneg _ _) (Int.le_refl _)

/-! ## Which sizes agree -/

/-- With a viewport of at least one pixel the sizes agree where they are the same, or where both fit
the viewport. -/
theorem told_eq_limit_iff {recorded actual len : Int32} (hlen : 12 < len.toInt) :
    told recorded (len - BAR) = limit actual len ↔
      max 0 recorded.toInt = actual.toInt ∨
        recorded.toInt ≤ viewport len ∧ actual.toInt ≤ viewport len := by
  have h12 : BAR.toInt = 12 := by decide
  have hlt := len.toInt_lt
  have hsub := toInt_sub_eq (m := len) (n := BAR) (by omega) (by omega)
  rw [told, limit, viewport, hsub, h12]
  omega

/-- A `SetContentSize` whose `Resize` answers makes the sizes agree, in a container that is larger
than its bars. -/
theorem agrees_setContentSize (hw : 12 < c.w.toInt) (hh : 12 < c.h.toInt) {cw ch : Int32}
    {mem : Bool} (hok : (c.content.resize mem (if cw < 0 then 0 else cw)
      (if ch < 0 then 0 else ch)).1 = true) : (c.setContentSize cw ch mem).Agrees := by
  obtain ⟨cache, hcache⟩ := Sizing.Widget.resize_true hok
  have hcw := toInt_ite_max32 cw 0
  have hch := toInt_ite_max32 ch 0
  rw [Int32.toInt_zero] at hcw hch
  have hw0 : 0 ≤ (if cw < 0 then 0 else cw).toInt := by omega
  have hh0 : 0 ≤ (if ch < 0 then 0 else ch).toInt := by omega
  have hsize := syncBars_frame { c with
    contentW := if cw < 0 then 0 else cw
    contentH := if ch < 0 then 0 else ch
    content := (c.content.resize mem (if cw < 0 then 0 else cw) (if ch < 0 then 0 else ch)).2 }
  rw [setContentSize]
  constructor
  · rw [hsize.recorded.2, hsize.size.2, hsize.content.2, hcache]
    exact (told_eq_limit_iff hh).mpr (.inl (Int.max_eq_right hh0))
  · rw [hsize.recorded.1, hsize.size.1, hsize.content.1, hcache]
    exact (told_eq_limit_iff hw).mpr (.inl (Int.max_eq_right hw0))

/-- Memory that answers everything. -/
def Memory.all : Memory := { own := true, content := (true, true), vbar := true, hbar := true }

end ScrollContainer
end Hashx86
