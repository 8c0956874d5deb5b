import Hashx86.Gui.TerminalView
import Hashx86.Terminal.Input

/-!
# The scroll actions of the terminal (`TerminalApp::HandleScrollAction`)

The view of the terminal posts what its scrollbar is asked for as one number: the buttons and the
track as small ones, a drag as its offset below `-1000000`.

* `handleScrollAction_drag`: the action of a drag is decoded to its offset.
* `correct_along`: in a run without an overflow, the offset stays in its range, the thumb in its
  track, and every drag is decoded to the offset it shows.
-/

namespace Hashx86
namespace Terminal

open Lib

namespace App

/-- `HandleScrollAction`. -/
def handleScrollAction (app : App) (scrollAction : Int32) : App :=
  if scrollAction = 0 then app
  else
    let app :=
      if scrollAction ≤ -1000000 then
        let absOffset := -(scrollAction + 1000000)
        let absOffset := if absOffset < 0 then 0 else absOffset
        { app with scrollOffset := min absOffset.toInt.toNat app.maxScroll, viewDirty := true }
      else if 0 < scrollAction then
        if 5 ≤ scrollAction then
          { app with
            scrollOffset := min app.maxScroll (app.scrollOffset + visibleRows)
            viewDirty := true }
        else app.scrollUp
      else if scrollAction ≤ -5 then
        { app with scrollOffset := app.scrollOffset - visibleRows, viewDirty := true }
      else { app.scrollDown with viewDirty := true }
    if app.viewDirty then app.updateView else app

/-- The range that `UpdateView` passes to the view. -/
def showIn (app : App) (l : TerminalView) : TerminalView :=
  l.setScrollMeta (Int32.ofNat app.terminal.lineCount) (Int32.ofNat visibleRows)
    (Int32.ofNat app.scrollOffset)

/-- The view scrolls as far as the terminal that it shows. -/
theorem maxOffset_showIn (app : App) (l : TerminalView) :
    (app.showIn l).maxOffset.toInt = app.maxScroll := by
  have hcount : app.terminal.lineCount < maxLines + 1 := Nat.succ_lt_succ app.terminal.count
  have hrows : visibleRows = 57 := by decide
  obtain ⟨htotal, hvisible, -⟩ := l.toInt_setScrollMeta (Int32.ofNat app.terminal.lineCount)
    (Int32.ofNat visibleRows) (Int32.ofNat app.scrollOffset)
  have hb := l.bounded_setScrollMeta (Int32.ofNat app.terminal.lineCount)
    (Int32.ofNat visibleRows) (Int32.ofNat app.scrollOffset)
  rw [maxLines] at hcount
  rw [Int32.toInt_ofNat_of_lt (by omega)] at htotal hvisible
  rw [showIn, hb.toInt_maxOffset, htotal, hvisible, maxScroll]
  omega

/-- The action of a drag is decoded to its offset, held to the lines of the terminal. -/
theorem handleScrollAction_drag (app : App) (off : Int32) (hlow : 0 ≤ off.toInt)
    (hfit : off.toInt + 1000000 < 2 ^ 31) :
    (app.handleScrollAction (-(1000000 + off))).scrollOffset =
      min off.toInt.toNat app.maxScroll := by
  have h1 : (1000000 : Int32).toInt = 1000000 := by decide
  have hm1 : (-1000000 : Int32).toInt = -1000000 := by decide
  have hsum := toInt_add_eq (m := 1000000) (n := off) (by omega) (by omega)
  have hneg : (-(1000000 + off)).toInt = -(1000000 + off.toInt) := by
    rw [Int32.toInt_neg, hsum, h1]
    exact Int.bmod_eq_of_le (by omega) (by omega)
  have hne : -(1000000 + off) ≠ 0 := by
    rw [Ne, ← Int32.toInt_inj, hneg, Int32.toInt_zero]
    omega
  have hle : -(1000000 + off) ≤ -1000000 := by
    rw [Int32.le_iff_toInt_le, hneg, hm1]
    omega
  have hback : -(-(1000000 + off) + 1000000) = off := by grind
  have hoff : ¬ off < 0 := by
    rw [Int32.lt_iff_toInt_lt, Int32.toInt_zero]
    omega
  rw [handleScrollAction, if_neg hne]
  dsimp only
  rw [if_pos hle, hback, if_neg hoff]
  show min (min off.toInt.toNat app.maxScroll) app.maxScroll = _
  omega

end App
end Terminal

namespace TerminalView

open Lib

/-- What a drag is to do: the offset does not increase as the pointer goes down, whatever moves lie
between, and the action posted for a new offset is decoded to it by a terminal with that many lines
(and held to those of any other). -/
structure Dragged (l : TerminalView) (newy : Int32) (handler : Bool) : Prop where
  antitone : ∀ newy', l.Admits (.move newy' handler) → newy ≤ newy' →
    (l.onMouseMove newy' handler).scrollOffset ≤ (l.onMouseMove newy handler).scrollOffset
  last : ∀ newy' handler', ((l.onMouseMove newy handler).onMouseMove newy' handler').scrollOffset =
    (l.onMouseMove newy' handler').scrollOffset
  posted : (l.onMouseMove newy handler).scrollOffset ≠ l.scrollOffset → handler →
    (l.onMouseMove newy handler).clicks = l.clicks + 1
  decoded : (l.onMouseMove newy handler).scrollOffset ≠ l.scrollOffset → ∀ app : Terminal.App,
    ((app.handleScrollAction (l.onMouseMove newy handler).pendingScrollAction).scrollOffset : Int) =
        min (l.onMouseMove newy handler).scrollOffset.toInt app.maxScroll ∧
      (l.maxOffset.toInt ≤ app.maxScroll →
        ((app.handleScrollAction
          (l.onMouseMove newy handler).pendingScrollAction).scrollOffset : Int) =
          (l.onMouseMove newy handler).scrollOffset.toInt)

/-- What a step is to do. -/
structure Correct (l : TerminalView) (op : Op) : Prop where
  bounds : (l.step op).Bounded
  passed : ∀ totalLines visibleLines offset, op = .scrollMeta totalLines visibleLines offset →
    (l.step op).scrollOffset.toInt ≤ max 0 (totalLines.toInt - visibleLines.toInt)
  thumb : 28 < (l.step op).h.toInt → (l.step op).ThumbPlaced
  drag : ∀ newy handler, op = .move newy handler → l.Dragged newy handler

variable {l : TerminalView}

theorem dragged_of_admits {newy : Int32} {handler : Bool}
    (ha : l.Admits (.move newy handler)) : l.Dragged newy handler := by
  by_cases h : l.isDraggingThumb ∧ 0 < l.travel.toInt ∧ 0 < l.maxOffset.toInt
  · obtain ⟨hdrag, htr, hm⟩ := h
    have hreach := ha hdrag htr hm
    have haction := hreach.action
    have hoff := toInt_dragOffset htr hreach
    have hscroll := scrollOffset_onMouseMove hdrag htr hm newy handler
    constructor
    case antitone => exact fun newy' ha' hle => onMouseMove_antitone ha ha' hle
    case last => exact fun newy' handler' => l.onMouseMove_twice newy newy' handler handler'
    case posted =>
      intro hne hh
      rw [hscroll] at hne
      rw [onMouseMove_of_dragging hdrag htr hm, if_pos hne]
      exact if_pos hh
    case decoded =>
      intro hne app
      have hdec := app.handleScrollAction_drag (l.dragOffset newy) (by omega) (by omega)
      have hpend : (l.onMouseMove newy handler).pendingScrollAction =
          -(1000000 + l.dragOffset newy) := by
        rw [hscroll] at hne
        rw [onMouseMove_of_dragging hdrag htr hm, if_pos hne]
      rw [hpend, hdec, hscroll]
      omega
  · have hidle := onMouseMove_of_idle h newy handler
    constructor
    case antitone => exact fun newy' ha' hle => onMouseMove_antitone ha ha' hle
    case last => exact fun newy' handler' => l.onMouseMove_twice newy newy' handler handler'
    case posted =>
      intro hne
      rw [hidle] at hne
      exact absurd rfl hne
    case decoded =>
      intro hne
      rw [hidle] at hne
      exact absurd rfl hne

/-- The thumb can be placed, if there is a track. -/
def Placeable (l : TerminalView) : Prop := 28 < l.h.toInt → l.Scales

theorem Placeable.step (hp : l.Placeable) {op : Op} (ha : l.Admits op) :
    (l.step op).Placeable := by
  cases op with
  | scrollMeta | place => exact ha
  | down mx my button handler =>
    show (l.onMouseDown mx my button handler).Placeable
    rw [onMouseDown]
    dsimp only
    split_ifs <;> exact hp
  | up button =>
    show (l.onMouseUp button).Placeable
    rw [onMouseUp]
    split <;> exact hp
  | move newy handler =>
    show (l.onMouseMove newy handler).Placeable
    rw [onMouseMove]
    dsimp only
    split_ifs <;> exact hp
  | consume | setVisible => exact hp

theorem correct_of_admits (hb : l.Bounded) (hp : l.Placeable) {op : Op} (ha : l.Admits op) :
    l.Correct op := by
  constructor
  case bounds => exact hb.step op
  case passed =>
    rintro totalLines visibleLines offset rfl
    obtain ⟨-, -, hoff⟩ := l.toInt_setScrollMeta totalLines visibleLines offset
    show (l.setScrollMeta totalLines visibleLines offset).scrollOffset.toInt ≤ _
    omega
  case thumb => exact fun hh => (thumbPlaced_iff (hb.step op) hh).mpr (hp.step ha hh)
  case drag =>
    rintro newy handler rfl
    exact dragged_of_admits ha

/-- In every run of a view whose steps do not overflow, each step does what it is to do. -/
theorem correct_along (x y w h : Int32) (ops : List Op)
    (ha : Along step Admits (construct x y w h) ops) :
    Along step Correct (construct x y w h) ops := by
  apply Along.of_inv (I := fun l => l.Bounded ∧ l.Placeable) ?_ ?_ ha
  · rintro l op ⟨hb, hp⟩ ha
    exact ⟨⟨hb.step op, hp.step ha⟩, correct_of_admits hb hp ha⟩
  · refine ⟨bounded_construct x y w h, fun _ => ?_⟩
    show (construct x y w h).travel.toInt * 0 < 2 ^ 31
    omega

theorem correct_along_of_drag : Along step Correct (construct 0 0 20 100)
    [.scrollMeta 1000 10 500, .down 10 50 1 true, .move 55 true] := by
  apply correct_along
  refine ⟨fun _ => by decide +kernel, trivial, fun _ _ _ => ?_, trivial⟩
  constructor
  · decide +kernel
  · decide +kernel
  · decide +kernel
  · decide +kernel
  · decide +kernel

/-- A terminal of 200 empty lines. -/
def sampleApp : Terminal.App :=
  { terminal :=
      { older := List.replicate 199 []
        current := []
        count := by
          rw [List.length_replicate]
          decide
        cols := by
          intro l hl
          obtain rfl | hl := List.mem_cons.mp hl
          · exact Nat.zero_le _
          · rw [List.eq_of_mem_replicate hl]
            exact Nat.zero_le _ }
    scrollOffset := 0, capsLock := false, inputStartColumn := 0, viewDirty := false,
    foregroundPid := -1, backgroundPid := -1, currentPath := [0x2F] }

/-- A view 100 pixels high at line 50000000 of 100000010: the thumb is below its track, and dragged
22 pixels down from the bottom it scrolls up. A view 39 pixels high of `2 ^ 31 - 1` lines: the action
of a drag to the top is taken for one of the track. -/
theorem not_correct_large_total :
    ¬ Along step Correct (construct 0 0 20 100) [.scrollMeta 100000010 10 50000000] ∧
    (run step (construct 0 0 20 100)
      [.scrollMeta 100000010 10 0, .down 10 80 1 true, .move 102 true]).scrollOffset = 33789795 ∧
    (sampleApp.handleScrollAction (run step (construct 0 0 20 39)
      [.scrollMeta Int32.maxValue 1 0, .down 10 15 1 true, .move 14 true]).pendingScrollAction
      ).scrollOffset = 57 ∧ sampleApp.maxScroll = 143 := by
  refine ⟨?_, by decide +kernel, by decide +kernel, by decide +kernel⟩
  rintro ⟨hc, -⟩
  have hin := (hc.thumb (by decide +kernel)).inside 50000000 (hc.bounds)
  revert hin
  decide +kernel

end TerminalView
end Hashx86
