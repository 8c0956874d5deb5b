import Hashx86.Gui.Sizing
import Hashx86.Lib.Run

/-!
# Layouts and resolution changes (`gui/layout.cpp`, `gui/taskbar.cpp`, `gui/desktop.cpp`)

The widgets stand in a list, in the order in which they were made, and are named by their place in
it. `mem` gives the answers of the allocator, by the widget that asks.

* `Widget.fit`, `onResolutionChanged`: a child of the desktop, and all of it, on a new screen.
* `Op`, `exec`: the operations on sizes, and a run of them, which ends with an `Abort`.
* `exec_sound`: an allowed operation leaves each widget sound.
* `sizes_along`: so does a run of them.
-/

namespace Hashx86
namespace Sizing

open Lib Widget

/-- The widgets, by the number of widgets made before. -/
abbrev Table := List Widget

def Table.sizeAt (ws : Table) (i : Nat) : Int32 × Int32 :=
  (ws[i]?.map fun v => (v.w, v.h)).getD (0, 0)

/-- A change of a widget that there may not be. -/
def Table.modify? (i : Option Nat) (f : Widget → Widget) (ws : Table) : Table :=
  match i with
  | none => ws
  | some i => ws.modify i f

/-- `/` of two `int32_t`, where it does not fault. -/
def idiv (a b : Int32) : Option Int32 :=
  if b = 0 ∨ (a = Int32.minValue ∧ b = -1) then none else some (a / b)

/-! ## `Layout` -/

inductive LayoutKind
  | vBox
  | hBox
  | grid (columns : Int32)

structure Layout where
  kind : LayoutKind
  parent : Nat
  spacing : Int32
  padding : Int32
  /-- The managed widgets, with their stretch. -/
  managed : List (Nat × Int32)
  room : managed.length ≤ 64

namespace Layout

def count (l : Layout) : Int32 := Int32.ofNat l.managed.length

/-- A managed widget that gets a size and a place. -/
def place (mem : Bool) (w h x y : Int32) (v : Widget) : Widget :=
  { (v.resize mem w h).2 with x := x, y := y }

/-- The extent of a size along a box, and across it. -/
def main (vertical : Bool) (size : Int32 × Int32) : Int32 := if vertical then size.2 else size.1

def cross (vertical : Bool) (size : Int32 × Int32) : Int32 := if vertical then size.1 else size.2

/-- A managed widget of a box, at `pos` along it. -/
def placeInBox (vertical : Bool) (mem : Bool) (extent across pos padding : Int32) :
    Widget → Widget :=
  if vertical then place mem across extent padding pos else place mem extent across pos padding

/-- `VBoxLayout::Relayout` and, with the axes the other way, `HBoxLayout::Relayout`. -/
def boxRelayout (vertical : Bool) (mem : Nat → Bool) (l : Layout) (ws : Table) : Table :=
  let avail := atLeast 0 (main vertical (ws.sizeAt l.parent) - 2 * l.padding -
    l.spacing * (l.count - 1))
  let flexTotal : Int32 := l.managed.foldl (fun t m => if 0 < m.2 then t + m.2 else t) 0
  let fixedTotal : Int32 := l.managed.foldl
    (fun t m => if 0 < m.2 then t else t + main vertical (ws.sizeAt m.1)) 0
  let free := atLeast 0 (avail - fixedTotal)
  (l.managed.foldl (fun (acc : Table × Int32) (m : Nat × Int32) =>
    let extent :=
      if 0 < m.2 ∧ 0 < flexTotal then free * m.2 / flexTotal
      else main vertical (acc.1.sizeAt m.1)
    let across := cross vertical (acc.1.sizeAt l.parent) - 2 * l.padding
    (acc.1.modify m.1 (placeInBox vertical (mem m.1) extent across acc.2 l.padding),
      acc.2 + extent + l.spacing)) (ws, l.padding)).1

def vBoxRelayout : (Nat → Bool) → Layout → Table → Table := boxRelayout true

def hBoxRelayout : (Nat → Bool) → Layout → Table → Table := boxRelayout false

def gridRelayout (columns : Int32) (mem : Nat → Bool) (l : Layout) (ws : Table) : Option Table := do
  if l.count = 0 then return ws
  let columns := if columns < 1 then 1 else columns
  let rows ← idiv (l.count + columns - 1) columns
  let (w, h) := ws.sizeAt l.parent
  let cellW ← idiv (w - 2 * l.padding - l.spacing * (columns - 1)) columns
  let cellH ← idiv (h - 2 * l.padding - l.spacing * (rows - 1)) rows
  let cellW := atLeast 1 cellW
  let cellH := atLeast 1 cellH
  return l.managed.zipIdx.foldl (fun (ws : Table) m =>
    let col := Int32.ofNat m.2 % columns
    let row := Int32.ofNat m.2 / columns
    ws.modify m.1.1 (place (mem m.1.1) cellW cellH (l.padding + col * (cellW + l.spacing))
      (l.padding + row * (cellH + l.spacing)))) ws

/-- `Relayout`; `none` is a division that faults. -/
def relayout (mem : Nat → Bool) (l : Layout) (ws : Table) : Option Table :=
  match l.kind with
  | .vBox => some (vBoxRelayout mem l ws)
  | .hBox => some (hBoxRelayout mem l ws)
  | .grid columns => gridRelayout columns mem l ws

end Layout

/-! ## `Taskbar` -/

def taskbarHeight : Int32 := 44
def taskbarPadding : Int32 := 6
def startButtonWidth : Int32 := 42
def taskbarClockWidth : Int32 := 70
def taskbarTabMaxWidth : Int32 := 160
def taskbarTabMinWidth : Int32 := 60
def taskbarTabPadding : Int32 := 4

structure Taskbar where
  self : Nat
  clockLabel : Option Nat
  startMenu : Option Nat
  tabs : List Nat

namespace Taskbar

def repositionTabs (mem : Nat → Bool) (b : Taskbar) (ws : Table) : Table :=
  let tabAreaStart := taskbarPadding + startButtonWidth + taskbarPadding + taskbarPadding
  let tabAreaEnd := (ws.sizeAt b.self).1 - taskbarClockWidth - taskbarPadding * 3
  let availableWidth := tabAreaEnd - tabAreaStart
  let tabCount := Int32.ofNat b.tabs.length
  if tabCount ≤ 0 ∨ availableWidth ≤ 0 then ws
  else
    let tabWidth := (availableWidth - (tabCount - 1) * taskbarTabPadding) / tabCount
    let tabWidth := if taskbarTabMaxWidth < tabWidth then taskbarTabMaxWidth else tabWidth
    let tabWidth := if tabWidth < taskbarTabMinWidth then taskbarTabMinWidth else tabWidth
    (b.tabs.foldl (fun (acc : Table × Int32) i =>
      (acc.1.modify i fun v => { (v.resize (mem i) tabWidth v.h).2 with x := acc.2 },
        acc.2 + tabWidth + taskbarTabPadding)) (ws, tabAreaStart)).1

def setScreenDimensions (mem : Nat → Bool) (b : Taskbar) (screenW screenH : Int32) (ws : Table) :
    Table :=
  let ws : Table := ws.modify b.self fun v =>
    { (v.resize (mem b.self) screenW taskbarHeight).2 with x := 0, y := screenH - taskbarHeight }
  let ws := ws.modify? b.clockLabel fun v =>
    { v with x := screenW - taskbarClockWidth - taskbarPadding }
  let ws := ws.modify? b.startMenu fun v => { v with x := taskbarPadding, y := -v.h }
  b.repositionTabs mem ws

/-- The widgets that it moves or resizes. -/
def ids (b : Taskbar) : List Nat :=
  b.self :: b.clockLabel.toList ++ b.startMenu.toList ++ b.tabs

end Taskbar

/-! ## `Desktop` -/

def cursorSize : UInt32 := 20

/-- A window and its close button. -/
structure Window where
  frame : Nat
  closeButton : Nat

/-- The desktop; no two of its widgets are the same. -/
structure Desktop where
  self : Nat
  taskbar : Option Taskbar
  contextMenu : Option Nat
  windows : List Window
  mouseX : UInt32
  mouseY : UInt32
  distinct : (self :: taskbar.toList.flatMap Taskbar.ids ++ contextMenu.toList ++
    windows.map Window.frame ++ windows.map Window.closeButton).Nodup

def Desktop.children (d : Desktop) : List Nat := d.contextMenu.toList ++ d.windows.map Window.frame

/-- The two `Resize` calls of `OnResolutionChanged` for a child. -/
def Widget.shrink (mem : Bool × Bool) (w usableH : Int32) (v : Widget) : Widget :=
  let v := if w < v.w then (v.resize mem.1 w v.h).2 else v
  if usableH < v.h then (v.resize mem.2 v.w usableH).2 else v

/-- A coordinate of a child of the given extent, moved on a screen of `size` pixels. -/
def clampPos (size pos extent : Int32) : Int32 :=
  let pos := if pos < 0 then 0 else pos
  if size < pos + extent then size - extent else pos

/-- What `OnResolutionChanged` does to a child of the desktop. -/
def Widget.fit (mem : Bool × Bool) (w usableH : Int32) (v : Widget) : Widget :=
  let v := v.shrink mem w usableH
  { v with x := clampPos w v.x v.w, y := clampPos usableH v.y v.h }

/-- A pointer coordinate on a screen of `size` pixels. -/
def clampMouse (pos size : UInt32) : UInt32 :=
  if size < pos + cursorSize then (if cursorSize < size then size - cursorSize else 0) else pos

def onResolutionChanged (mem : Nat → Bool × Bool) (d : Desktop) (w h : UInt32) (ws : Table) :
    Desktop × Table :=
  if w = 0 ∨ h = 0 then (d, ws)
  else if ws.sizeAt d.self = (w.toInt32, h.toInt32) then (d, ws)
  else
    let ws : Table := ws.modify d.self fun v =>
      { v with w := w.toInt32, h := h.toInt32, cache := none }
    let ws := match d.taskbar with
      | none => ws
      | some b => b.setScreenDimensions (fun i => (mem i).1) w.toInt32 h.toInt32 ws
    let usableH := h.toInt32 - taskbarHeight
    -- `ForEach` goes to each child once, and what it does to one concerns no other.
    let ws := ws.mapIdx fun i v => if i ∈ d.children then v.fit (mem i) w.toInt32 usableH else v
    ({ d with mouseX := clampMouse d.mouseX w, mouseY := clampMouse d.mouseY h }, ws)

/-! ## Runs -/

/-- The operations on sizes, and the assignment of what they read. -/
inductive Op
  | new (kind : Kind) (attr : Attr) (w h : Int32) (mem : Bool × Bool)
  | assign (i : Nat) (attr : Attr)
  | resize (i : Nat) (newW newH : Int32) (mem : Bool)
  | recalc (i : Nat) (mem : Bool)
  | relayout (l : Layout) (mem : Nat → Bool)
  | setWidth (i : Nat) (reqW : Int32) (mem : Bool)
  | setHeight (i : Nat) (reqH : Int32) (mem : Bool)
  | setIconWidth (i : Nat) (reqW : Int32) (mem : Bool)
  | setIconHeight (i : Nat) (reqH : Int32) (mem : Bool)
  | onResolutionChanged (d : Desktop) (w h : UInt32) (mem : Nat → Bool × Bool)

def step (ws : Table) : Op → Option Table
  | .new kind attr w h mem => (newWidget kind attr w h mem).map fun v => ws ++ [v]
  | .assign i attr => some (ws.modify i fun v => { v with toAttr := attr })
  | .resize i newW newH mem => some (ws.modify i fun v => (v.resize mem newW newH).2)
  | .recalc i mem =>
    match ws[i]? with
    | none => some ws
    | some v => (v.recalc mem (v.parent.bind fun p => ws[p]?)).map (ws.set i)
  | .relayout l mem => l.relayout mem ws
  | .setWidth i reqW mem => some (ws.modify i (setWidth mem reqW))
  | .setHeight i reqH mem => some (ws.modify i (setHeight mem reqH))
  | .setIconWidth i reqW mem => some (ws.modify i (setIconWidth mem reqW))
  | .setIconHeight i reqH mem => some (ws.modify i (setIconHeight mem reqH))
  | .onResolutionChanged d w h mem => some (onResolutionChanged mem d w h ws).2

/-- An operation on the widgets, if the run has not ended. -/
def exec (s : Option Table) (op : Op) : Option Table := s.bind fun ws => step ws op

/-- Where the operations keep sizes that are not negative, and the buffer of a round button is not
cut short. -/
def Fits (ws : Table) : Op → Prop
  | .new kind attr _ _ _ => kind = .acrButton → SmallText attr.text
  | .recalc i _ => ∀ v, ws[i]? = some v → v.kind = .label → v.Made →
      v.RecalcFits (v.parent.bind fun p => ws[p]?)
  | .setWidth i reqW _ => ∀ v, ws[i]? = some v → v.Made → 0 ≤ reqW ∨ 0 ≤ v.minW
  | .setIconWidth i reqW _ => ∀ v, ws[i]? = some v → v.Made → 0 ≤ reqW ∨ 0 ≤ v.minWidth.toInt32
  | .setIconHeight i reqH _ => ∀ v, ws[i]? = some v → v.Made → 0 ≤ reqH ∨ 0 ≤ v.minHeight.toInt32
  | .onResolutionChanged _ w h _ => w.toNat < 2 ^ 31 ∧ h.toNat < 2 ^ 31
  | _ => True

/-! ## What the operations keep -/

def AllSound (ws : Table) : Prop := ∀ v ∈ ws, v.Sound

theorem AllSound.modify {ws : Table} (hws : AllSound ws) (i : Nat) {f : Widget → Widget}
    (hf : ∀ v, ws[i]? = some v → v.Sound → (f v).Sound) : AllSound (ws.modify i f) := by
  intro v hv
  obtain ⟨j, hj⟩ := List.mem_iff_getElem?.mp hv
  rw [List.getElem?_modify] at hj
  obtain ⟨u, hu, huv⟩ := Option.map_eq_some_iff.mp hj
  have hsound := hws u (List.mem_of_getElem? hu)
  split at huv
  next heq =>
    rw [← huv]
    exact hf u (heq ▸ hu) hsound
  next =>
    rw [← huv]
    exact hsound

theorem AllSound.modify? {ws : Table} (hws : AllSound ws) (i : Option Nat) {f : Widget → Widget}
    (hf : ∀ v, v.Sound → (f v).Sound) : AllSound (ws.modify? i f) := by
  cases i with
  | none => exact hws
  | some i => exact hws.modify i fun v _ => hf v

theorem AllSound.foldl {ι α : Type} (f : Table × α → ι → Table × α)
    (hf : ∀ acc i, AllSound acc.1 → AllSound (f acc i).1) (is : List ι) {acc : Table × α}
    (hacc : AllSound acc.1) : AllSound (is.foldl f acc).1 :=
  List.foldlRecOn is f hacc fun acc hacc i _ => hf acc i hacc

/-- A place is no part of what is sound. -/
theorem Widget.Sound.at {v : Widget} (hv : v.Sound) (x y : Int32) :
    Widget.Sound { v with x := x, y := y } :=
  ⟨hv.exact, hv.nonneg⟩

theorem Widget.Sound.shrink {v : Widget} (hv : v.Sound) (mem : Bool × Bool) (w usableH : Int32) :
    (v.shrink mem w usableH).Sound := by
  have hfirst : Widget.Sound (if w < v.w then (v.resize mem.1 w v.h).2 else v) :=
    iteInduction (fun _ => hv.resize mem.1 w v.h) (fun _ => hv)
  exact iteInduction (motive := Widget.Sound) (fun _ => hfirst.resize mem.2 _ usableH)
    (fun _ => hfirst)

theorem Widget.Sound.fit {v : Widget} (hv : v.Sound) (mem : Bool × Bool) (w usableH : Int32) :
    (v.fit mem w usableH).Sound :=
  (hv.shrink mem w usableH).at _ _

theorem Widget.Sound.place {v : Widget} (hv : v.Sound) (mem : Bool) (w h x y : Int32) :
    (Layout.place mem w h x y v).Sound :=
  (hv.resize mem w h).at x y

theorem AllSound.boxRelayout {ws : Table} (hws : AllSound ws) (vertical : Bool)
    (mem : Nat → Bool) (l : Layout) : AllSound (l.boxRelayout vertical mem ws) := by
  rw [Layout.boxRelayout]
  refine AllSound.foldl _ (fun acc m hacc => hacc.modify m.1 fun v _ hv => ?_) _ hws
  rw [Layout.placeInBox]
  exact iteInduction (motive := fun f : Widget → Widget => (f v).Sound)
    (fun _ => hv.place _ _ _ _ _) (fun _ => hv.place _ _ _ _ _)

theorem AllSound.gridRelayout {ws ws' : Table} (hws : AllSound ws) {columns : Int32}
    {mem : Nat → Bool} {l : Layout} (hr : l.gridRelayout columns mem ws = some ws') :
    AllSound ws' := by
  rw [Layout.gridRelayout] at hr
  split at hr
  next =>
    cases hr
    exact hws
  next =>
    simp only [Option.bind_eq_bind, Option.bind_eq_some_iff] at hr
    obtain ⟨rows, -, cellW, -, cellH, -, hr⟩ := hr
    cases hr
    exact List.foldlRecOn _ _ hws fun acc hacc m _ => hacc.modify _ fun v _ hv => hv.place _ _ _ _ _

theorem AllSound.relayout {ws ws' : Table} (hws : AllSound ws) {mem : Nat → Bool} {l : Layout}
    (hr : l.relayout mem ws = some ws') : AllSound ws' := by
  rw [Layout.relayout] at hr
  split at hr
  · cases hr
    exact hws.boxRelayout true mem l
  · cases hr
    exact hws.boxRelayout false mem l
  · exact hws.gridRelayout hr

theorem AllSound.repositionTabs {ws : Table} (hws : AllSound ws) (mem : Nat → Bool) (b : Taskbar) :
    AllSound (b.repositionTabs mem ws) := by
  rw [Taskbar.repositionTabs]
  refine iteInduction (fun _ => hws) fun _ => ?_
  exact AllSound.foldl _ (fun acc i hacc => hacc.modify i fun v _ hv =>
    (hv.resize _ _ _).at _ _) _ hws

theorem AllSound.setScreenDimensions {ws : Table} (hws : AllSound ws) (mem : Nat → Bool)
    (b : Taskbar) (screenW screenH : Int32) :
    AllSound (b.setScreenDimensions mem screenW screenH ws) := by
  have hbar : AllSound (ws.modify b.self fun v =>
      { (v.resize (mem b.self) screenW taskbarHeight).2 with
        x := 0, y := screenH - taskbarHeight }) :=
    hws.modify b.self fun v _ hv => (hv.resize _ _ _).at _ _
  rw [Taskbar.setScreenDimensions]
  apply AllSound.repositionTabs
  exact (hbar.modify? _ fun v hv => hv.at _ v.y).modify? _ fun v hv => hv.at _ _

/-- The size of the desktop is that of the screen; it keeps no cache. -/
theorem AllSound.onResolutionChanged {ws : Table} (hws : AllSound ws) {w h : UInt32}
    (hw : w.toNat < 2 ^ 31) (hh : h.toNat < 2 ^ 31) (mem : Nat → Bool × Bool) (d : Desktop) :
    AllSound (onResolutionChanged mem d w h ws).2 := by
  have hself : AllSound (ws.modify d.self fun v =>
      { v with w := w.toInt32, h := h.toInt32, cache := none }) := by
    refine hws.modify d.self fun v _ _ => ⟨exactFor_none _ _, fun _ => ⟨?_, ?_⟩⟩
    · rw [toInt_nonneg, toInt_toInt32 hw]
      omega
    · rw [toInt_nonneg, toInt_toInt32 hh]
      omega
  rw [Sizing.onResolutionChanged]
  split
  · exact hws
  split
  · exact hws
  have hbar : ∀ ws : Table, AllSound ws → AllSound (match d.taskbar with
      | none => ws
      | some b => b.setScreenDimensions (fun i => (mem i).1) w.toInt32 h.toInt32 ws) := by
    intro ws hws
    cases d.taskbar with
    | none => exact hws
    | some b => exact hws.setScreenDimensions _ b _ _
  intro v hv
  obtain ⟨i, hi, rfl⟩ := List.mem_mapIdx.mp hv
  have hold := hbar _ hself _ (List.getElem_mem hi)
  exact iteInduction (motive := Widget.Sound) (fun _ => hold.fit _ _ _) (fun _ => hold)

/-- An allowed operation leaves each widget sound. -/
theorem step_sound {ws ws' : Table} (hws : AllSound ws) {op : Op} (hfit : Fits ws op)
    (hstep : step ws op = some ws') : AllSound ws' := by
  cases op with
  | new kind attr w h mem =>
    obtain ⟨v, hnew, rfl⟩ := Option.map_eq_some_iff.mp hstep
    intro u hu
    obtain hu | hu := List.mem_append.mp hu
    · exact hws u hu
    · rw [List.mem_singleton.mp hu]
      exact sound_newWidget hnew hfit
  | assign i attr =>
    cases hstep
    exact hws.modify i fun v _ hv => ⟨hv.exact, hv.nonneg⟩
  | resize i newW newH mem =>
    cases hstep
    exact hws.modify i fun v _ hv => hv.resize mem newW newH
  | recalc i mem =>
    rw [step] at hstep
    split at hstep
    next =>
      cases hstep
      exact hws
    next v hv =>
      obtain ⟨u, hu, rfl⟩ := Option.map_eq_some_iff.mp hstep
      have hsound := (hws v (List.mem_of_getElem? hv)).recalc hu (hfit v hv)
      intro v' hv'
      obtain h | h := List.mem_or_eq_of_mem_set hv'
      · exact hws v' h
      · rw [h]
        exact hsound
  | relayout l mem => exact hws.relayout hstep
  | setWidth i reqW mem =>
    cases hstep
    refine hws.modify i fun v hv hsound => Sound.reallocate v mem fun hm => ?_
    exact ⟨atLeast_nonneg.mpr (hfit v hv hm), (hsound.nonneg hm).2⟩
  | setHeight i reqH mem =>
    cases hstep
    refine hws.modify i fun v hv hsound => Sound.reallocate v mem fun hm => ?_
    exact ⟨(hsound.nonneg hm).1, atLeast_nonneg.mpr (.inr v.minH_nonneg)⟩
  | setIconWidth i reqW mem =>
    cases hstep
    refine hws.modify i fun v hv hsound => Sound.reallocate v mem fun hm => ?_
    exact ⟨atLeast_nonneg.mpr (hfit v hv hm), (hsound.nonneg hm).2⟩
  | setIconHeight i reqH mem =>
    cases hstep
    refine hws.modify i fun v hv hsound => Sound.reallocate v mem fun hm => ?_
    exact ⟨(hsound.nonneg hm).1, atLeast_nonneg.mpr (hfit v hv hm)⟩
  | onResolutionChanged d w h mem =>
    cases hstep
    exact hws.onResolutionChanged hfit.1 hfit.2 mem d

/-- A label of 8 by 8 pixels with padding, and the panel that it fills when it is recalculated. -/
def fillRun (panelW : Int32) : List Op :=
  let attr : Attr := {
    parent := none, x := 0, y := 0, minWidth := 0, minHeight := 0, padding := ⟨0, 0, 0, 0⟩,
    sizeMode := .fixed, text := none }
  [.new .plain attr panelW 10 (true, true),
    .new .label { attr with parent := some 0, padding := ⟨0, 0, 0, 12⟩, sizeMode := .fill } 8 8
      (true, true),
    .recalc 1 true]

end Sizing
end Hashx86
