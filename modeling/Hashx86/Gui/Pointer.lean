import Hashx86.Lib.Rose
import Hashx86.Gui.Controls

/-!
# The pointer (`gui/desktop.cpp`, `gui/widget.cpp`, `gui/window.cpp`, `gui/taskbar.cpp`)

How a press, a move and a release of button 1 go through the tree, and the flags that a widget
keeps from a press to the release: `IsPressed`, the capture, and the drags of title bars and thumbs.

* `Item`: one widget with its class (`Part`). `Item.held`: some flag is up.
* `onMouseDown`, `onMouseMove`, `onMouseUp`: the event on a subtree.
* `Screen.press`, `Screen.move`, `Screen.release`: the desktop's handlers, which choose between the
  modal dialog, the windows, the start menu and the taskbar.
-/

namespace Hashx86
namespace Pointer

open Lib Controls

/-! ## Widgets -/

structure TerminalView where
  scrollTotal : Int
  scrollVisible : Int
  scrollOffset : Int
  isDraggingThumb : Bool
  dragStartY : Int
  dragStartOffset : Int

inductive Part where
  | control (c : Control)
  /-- `CheckBox`, `RadioButton`, `Toggle` and `Table` -/
  | check (pressed : Bool)
  | terminal (t : TerminalView)
  /-- `StartMenuButton` and `StartMenuPowerButton` -/
  | menuButton (isPressed isHovered : Bool)
  | startButton (isPressed : Bool)
  /-- A widget that the pointer sets no flag of. -/
  | plain
  | composite
  | tabs (tabCount pressedTab : Int)
  | window (isDragging : Bool)

structure Item where
  base : Base
  part : Part

instance : Keyed Item := ⟨fun v => v.base.id⟩

abbrev Tree := Rose Item

def Part.isComposite : Part → Bool
  | .composite | .tabs _ _ | .window _ => true
  | _ => false

/-- `IsPressed` of a leaf -/
def Part.isPressed : Part → Bool
  | .control (.button s) => s.isPressed
  | .control (.spinBox s) => s.pressed
  | .control (.comboBox s) => s.pressed
  | .check pressed => pressed
  | .menuButton isPressed _ => isPressed
  | .startButton isPressed => isPressed
  | _ => false

/-- A thumb, a title bar or a tab is held. -/
def Part.dragging : Part → Bool
  | .control (.slider s) => s.dragging
  | .control (.scrollBar s) => s.dragging
  | .control (.listView s) => s.isDraggingThumb
  | .terminal t => t.isDraggingThumb
  | .tabs _ pressedTab => 0 ≤ pressedTab
  | .window isDragging => isDragging
  | _ => false

def Item.held (v : Item) : Bool := v.base.mouseCaptured || v.part.isPressed || v.part.dragging

/-! ## `TerminalView` -/

namespace TerminalView

variable (b : Base) (t : TerminalView)

def trackH : Int := b.h - 4 - 24

def maxOffset : Int := if t.scrollTotal ≤ t.scrollVisible then 0 else t.scrollTotal - t.scrollVisible

def thumbH : Int :=
  let trackH := trackH b
  if t.scrollTotal ≤ 0 || t.scrollVisible ≤ 0 || t.scrollTotal ≤ t.scrollVisible then trackH
  else min trackH (max 10 ((trackH * t.scrollVisible).tdiv t.scrollTotal))

def thumbY : Int :=
  let trackY := 14
  let maxOff := t.maxOffset
  if maxOff ≤ 0 then trackY
  else
    let travel := trackH b - t.thumbH b
    trackY + travel - (travel * t.scrollOffset).tdiv maxOff

def onMouseDown (x y : Int) : TerminalView :=
  if !b.isVisible then t
  else
    let localX := x - b.x
    let localY := y - b.y
    let barX := b.w - 14
    let thumbY := t.thumbY b
    if localX < barX || barX + 12 ≤ localX || localY < 14 || b.h - 14 ≤ localY then t
    else if thumbY ≤ localY && localY < thumbY + t.thumbH b then
      { t with isDraggingThumb := true, dragStartY := localY, dragStartOffset := t.scrollOffset }
    else t

def onMouseMove (newy : Int) : TerminalView :=
  if !t.isDraggingThumb then t
  else
    let dy := newy - b.y - t.dragStartY
    let travel := trackH b - t.thumbH b
    let maxOff := t.maxOffset
    if travel ≤ 0 || maxOff ≤ 0 then t
    else
      let newOffset := t.dragStartOffset - (dy * maxOff).tdiv travel
      { t with scrollOffset := min maxOff (max 0 newOffset) }

end TerminalView

/-! ## A leaf -/

def Item.control (v : Item) (c : Control) (e : Event) : Item :=
  let out := c.handle v.base e
  ⟨out.base, .control out.state⟩

def Item.onMouseDown (v : Item) (x y : Int) : Item :=
  match v.part with
  | .control c => v.control c (.mouseDown x y 1)
  | .check _ =>
    if v.base.off || !v.base.containsCoordinate x y then v else { v with part := .check true }
  | .terminal t => { v with part := .terminal (t.onMouseDown v.base x y) }
  | .menuButton _ isHovered =>
    if v.base.isVisible then { v with part := .menuButton true isHovered } else v
  | .startButton _ => if v.base.isVisible then { v with part := .startButton true } else v
  | _ => v

def Item.onMouseMove (v : Item) (newx newy : Int) : Item :=
  let inside := v.base.containsCoordinate newx newy
  match v.part with
  | .control c => v.control c (.mouseMove newx newy)
  | .terminal t => { v with part := .terminal (t.onMouseMove v.base newy) }
  | .menuButton isPressed isHovered =>
    if inside then { v with part := .menuButton isPressed true }
    else if isHovered then { v with part := .menuButton false false }
    else v
  | .startButton isPressed => { v with part := .startButton (isPressed && inside) }
  | _ => v

def Item.onMouseUp (v : Item) (x y : Int) : Item :=
  match v.part with
  | .control c => v.control c (.mouseUp x y 1)
  | .check _ => { v with part := .check false }
  | .terminal t => { v with part := .terminal { t with isDraggingThumb := false } }
  | .menuButton isPressed isHovered =>
    if v.base.isVisible && isPressed then { v with part := .menuButton false false }
    else { v with part := .menuButton isPressed isHovered }
  | .startButton isPressed =>
    if v.base.isVisible && isPressed then { v with part := .startButton false } else v
  | _ => v

/-! ## Containers -/

mutual
/-- `IsPressed` -/
def isPressed : Tree → Bool
  | .node v cs => if v.part.isComposite then anyPressed cs else v.part.isPressed

def anyPressed : List Tree → Bool
  | [] => false
  | c :: cs => c.label.base.isVisible && isPressed c || anyPressed cs
end

mutual
/-- `IsMouseCaptured` -/
def isMouseCaptured : Tree → Bool
  | .node v cs => v.base.mouseCaptured || v.part.isComposite && anyReports cs

/-- A visible child is captured or pressed. -/
def anyReports : List Tree → Bool
  | [] => false
  | c :: cs => c.label.base.isVisible && (isMouseCaptured c || isPressed c) || anyReports cs
end

def reports (t : Tree) : Bool := isMouseCaptured t || isPressed t

def contains (t : Tree) (x y : Int) : Bool := t.label.base.containsCoordinate x y

/-- A visible child under the pointer. -/
def under (t : Tree) (x y : Int) : Bool := t.label.base.isVisible && contains t x y

def tabsHeight : Int := 24

def tabWidth : Int := 80

/-- The tab that a press takes. -/
def Item.tabAt (v : Item) (tabCount x y : Int) : Option Int :=
  let localX := x - v.base.x
  let localY := y - v.base.y
  if 0 ≤ localX && localX < v.base.w && 0 ≤ localY && localY < tabsHeight &&
      localX / tabWidth < tabCount then some (localX / tabWidth)
  else none

/-- The title bar, left of the close button. -/
def Item.header (v : Item) (x y : Int) : Bool :=
  v.base.x ≤ x && x ≤ v.base.x + v.base.w - 26 && v.base.y ≤ y && y ≤ v.base.y + 25

mutual
/-- `OnMouseDown`, but for the focus -/
def onMouseDown (x y : Int) : Tree → Tree
  | .node v cs =>
    if !v.part.isComposite then .node (v.onMouseDown x y) cs
    else if v.base.off then .node v cs
    else
      let pressed := (pressOf (x - v.base.x) (y - v.base.y) 128 cs).1
      match v.part with
      | .tabs tabCount _ =>
        match v.tabAt tabCount x y with
        | some i => .node ⟨{ v.base with mouseCaptured := true }, .tabs tabCount i⟩ cs
        | none => .node v pressed
      | .window isDragging =>
        .node { v with part := .window (v.header x y || isDragging) } pressed
      | _ => .node v pressed

/-- The press on the topmost visible child under the pointer. `ReverseForEach` looks at the first
`room` children. -/
def pressOf (x y : Int) (room : Nat) : List Tree → List Tree × Bool
  | [] => ([], false)
  | c :: cs =>
    let r := pressOf x y (room - 1) cs
    let hit := !r.2 && decide (0 < room) && under c x y
    ((if hit then onMouseDown x y c else c) :: r.1, r.2 || hit)
end

mutual
/-- `OnMouseMove` -/
def onMouseMove (oldx oldy newx newy : Int) : Tree → Tree
  | .node v cs =>
    if !v.part.isComposite then .node (v.onMouseMove newx newy) cs
    else
      let moved := moveOf (oldx - v.base.x) (oldy - v.base.y) (newx - v.base.x) (newy - v.base.y) cs
      match v.part with
      | .window isDragging =>
        if !v.base.isVisible then .node v cs
        else if !v.base.enabled then .node { v with part := .window false } cs
        else if v.base.containsCoordinate oldx oldy && isDragging then
          .node { v with base := { v.base with
            x := v.base.x + (newx - oldx), y := v.base.y + (newy - oldy) } } cs
        else .node
          { v with part := .window (isDragging && v.base.containsCoordinate oldx oldy) } moved
      | _ => if v.base.off then .node v cs else .node v moved

/-- The move on the visible children that it concerns. -/
def moveOf (oldx oldy newx newy : Int) : List Tree → List Tree
  | [] => []
  | c :: cs =>
    (if c.label.base.isVisible && (contains c oldx oldy || contains c newx newy || reports c) then
      onMouseMove oldx oldy newx newy c
    else c) :: moveOf oldx oldy newx newy cs
end

mutual
/-- `OnMouseUp` -/
def onMouseUp (x y : Int) : Tree → Tree
  | .node v cs =>
    if !v.part.isComposite then .node (v.onMouseUp x y) cs
    else
      let released :=
        if v.base.isVisible then
          (releaseOf (x - v.base.x) (y - v.base.y) v.base.enabled 128 cs).1
        else cs
      match v.part with
      | .tabs tabCount _ =>
        .node ⟨{ v.base with mouseCaptured := false }, .tabs tabCount (-1)⟩ released
      | .window _ => .node { v with part := .window false } released
      | _ => .node v released

/-- The release on the topmost visible child under the pointer, and on those that are captured or
pressed. -/
def releaseOf (x y : Int) (enabled : Bool) (room : Nat) : List Tree → List Tree × Bool
  | [] => ([], false)
  | c :: cs =>
    let r := releaseOf x y enabled (room - 1) cs
    let hit := !r.2 && decide (0 < room) && enabled && under c x y
    ((if hit || reports c then onMouseUp x y c else c) :: r.1, r.2 || hit)
end

/-! ## The taskbar -/

/-- The taskbar is no child of the desktop, and its start menu none of its children. -/
structure Taskbar where
  base : Base
  children : List Tree
  startMenu : Tree

namespace Taskbar

variable (k : Taskbar)

/-- `StartMenuContains`, for an open menu -/
def menuContains (x y : Int) : Bool :=
  k.startMenu.label.base.isVisible && contains k.startMenu (x - k.base.x) (y - k.base.y)

/-- The press on the topmost child under the pointer, hidden or not. -/
def pressChildren (x y : Int) (room : Nat) : List Tree → List Tree × Bool
  | [] => ([], false)
  | c :: cs =>
    let r := pressChildren x y (room - 1) cs
    let hit := !r.2 && decide (0 < room) && contains c x y
    ((if hit then Pointer.onMouseDown x y c else c) :: r.1, r.2 || hit)

def onMouseDown (x y : Int) : Taskbar :=
  let localX := x - k.base.x
  let localY := y - k.base.y
  if k.menuContains x y then { k with startMenu := Pointer.onMouseDown localX localY k.startMenu }
  else { k with children := (pressChildren localX localY 128 k.children).1 }

def onMouseUp (x y : Int) : Taskbar :=
  let localX := x - k.base.x
  let localY := y - k.base.y
  if k.menuContains x y then { k with startMenu := Pointer.onMouseUp localX localY k.startMenu }
  else
    { k with children := k.children.map fun c =>
        if contains c localX localY then Pointer.onMouseUp localX localY c else c }

def onMouseMove (oldx oldy newx newy : Int) : Taskbar :=
  let ox := oldx - k.base.x
  let oy := oldy - k.base.y
  let nx := newx - k.base.x
  let ny := newy - k.base.y
  { k with
    startMenu :=
      if k.startMenu.label.base.isVisible then Pointer.onMouseMove ox oy nx ny k.startMenu
      else k.startMenu
    children := k.children.map fun c =>
      if contains c ox oy || contains c nx ny then Pointer.onMouseMove ox oy nx ny c else c }

end Taskbar

/-! ## The desktop -/

/-- `modal` is the key of the desktop's child that is the modal dialog. -/
structure Screen where
  desktop : Tree
  taskbar : Taskbar
  modal : Option Nat
  mouseX : Int
  mouseY : Int
  pointerDown : Bool

namespace Screen

variable (s : Screen)

/-- A modal dialog is shown. -/
def modalShown : Bool :=
  s.desktop.children.any fun c => s.modal = some c.key && c.label.base.isVisible

/-- `f` on the modal dialog. -/
def onModal (f : Tree → Tree) : Tree :=
  .node s.desktop.label (s.desktop.children.map fun c => if s.modal = some c.key then f c else c)

/-- The pointer is over the start menu or the taskbar. -/
def overTaskbar : Bool :=
  s.taskbar.menuContains s.mouseX s.mouseY ||
    s.taskbar.base.containsCoordinate s.mouseX s.mouseY

/-- `HandleMouseDown` of button 1 -/
def press : Screen :=
  let t :=
    if s.modalShown then { s with desktop := s.onModal (onMouseDown s.mouseX s.mouseY) }
    else if s.overTaskbar then { s with taskbar := s.taskbar.onMouseDown s.mouseX s.mouseY }
    else { s with desktop := onMouseDown s.mouseX s.mouseY s.desktop }
  { t with pointerDown := true }

/-- `HandleMouseUp` of button 1 -/
def release : Screen :=
  let t :=
    if s.modalShown then { s with desktop := s.onModal (onMouseUp s.mouseX s.mouseY) }
    else if anyReports s.desktop.children then
      { s with desktop := onMouseUp s.mouseX s.mouseY s.desktop }
    else if s.overTaskbar then { s with taskbar := s.taskbar.onMouseUp s.mouseX s.mouseY }
    else { s with desktop := onMouseUp s.mouseX s.mouseY s.desktop }
  { t with pointerDown := false }

/-- The coordinate after a move, on the screen. -/
def clampTo (size v : Int) : Int :=
  let v := if v < 0 then 0 else v
  if size ≤ v then size - 1 else v

/-- `HandleMouseMove` -/
def move (dx dy : Int) : Screen :=
  let newX := clampTo s.desktop.label.base.w (s.mouseX + dx)
  let newY := clampTo s.desktop.label.base.h (s.mouseY + dy)
  let t := { s with mouseX := newX, mouseY := newY }
  if s.modalShown then
    { t with desktop := s.onModal (onMouseMove s.mouseX s.mouseY newX newY) }
  else
    { t with
      desktop := onMouseMove s.mouseX s.mouseY newX newY s.desktop
      taskbar := s.taskbar.onMouseMove s.mouseX s.mouseY newX newY }

end Screen

end Pointer
end Hashx86
