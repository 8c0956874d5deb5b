import Hashx86.Lib.Rose
import Hashx86.Lib.Run

/-!
# The widget tree (`gui/widget.cpp`, `gui/window.cpp`)

A tree of widgets with their focus and their caches. A widget is named by its key, which its
siblings do not share, and reached by the path of keys from the root. `C` is the content that a
leaf paints. Each operation marks dirty what the source marks: the widget and all above it.
-/

namespace Hashx86
namespace WidgetTree

open Lib

inductive Shape where
  | leaf
  | composite
  | window
  deriving DecidableEq, Repr

/-- The pixels of a cache, by column and row. -/
abbrev Image := Int → Int → BitVec 32

structure Node (C : Type) where
  id : Nat
  shape : Shape
  x : Int
  y : Int
  w : Int
  h : Int
  isVisible : Bool
  enabled : Bool
  isFocussable : Bool
  isFocused : Bool
  focusedChild : Option Nat
  isDirty : Bool
  content : C
  cache : Image

instance (C : Type) : Keyed (Node C) := ⟨Node.id⟩

abbrev Tree (C : Type) := Rose (Node C)

variable {C : Type}

def Shape.isComposite : Shape → Bool
  | .leaf => false
  | _ => true

def Node.isComposite (v : Node C) : Bool := v.shape.isComposite

/-- `MarkDirty` for one widget. -/
def Node.dirty (b : Bool) (v : Node C) : Node C := { v with isDirty := v.isDirty || b }

/-- `MarkDirty` of the widget at the path: it and all above it. -/
def markDirty (π : List Nat) (t : Tree C) : Tree C :=
  t.along (Node.dirty true) (Rose.relabel (Node.dirty true)) π

/-! ## Focus -/

mutual
/-- `SetFocus`: the focused child of a container follows it. -/
def setFocus (result : Bool) : Tree C → Tree C
  | .node v cs =>
    if v.isFocused = result then .node v cs
    else
      .node { v with isFocused := result, isDirty := true }
        (setFocusOf result (if v.isComposite then v.focusedChild else none) cs)

def setFocusOf (result : Bool) (focusedChild : Option Nat) : List (Tree C) → List (Tree C)
  | [] => []
  | c :: cs =>
    (if focusedChild = some c.key then setFocus result c else c) ::
      setFocusOf result focusedChild cs
end

/-- The children with the one of the key last. -/
def raiseKey (i : Nat) (cs : List (Tree C)) : List (Tree C) :=
  cs.filter (·.key ≠ i) ++ cs.filter (·.key = i)

/-- What `GetFocus` makes of its argument: a child that may not be focused counts as null. -/
def granted (widget : Option Nat) (t : Tree C) : Option Nat :=
  if t.children.any fun c => widget = some c.key ∧ !c.label.isFocussable then none else widget

/-- Whether the `SetFocus` calls of `GetFocus` change a flag, which marks the container dirty. A
widget that is not in the list has this container as its parent. -/
def shifts (old new : Option Nat) (t : Tree C) : Bool :=
  t.children.any (fun c => old = some c.key && c.label.isFocused) ||
    t.children.any (fun c => new = some c.key && !c.label.isFocused) ||
    old.any (fun i => t.children.all (·.key ≠ i)) || new.any (fun i => t.children.all (·.key ≠ i))

/-- `CompositeWidget::GetFocus` up to the call on the parent, and whether it marked the container
dirty. -/
def focusStep (widget : Option Nat) (t : Tree C) : Tree C × Bool :=
  let v := t.label
  let new := granted widget t
  if v.focusedChild = new then (t, false)
  else
    let cs := t.children.map fun c =>
      if v.focusedChild = some c.key then setFocus false c
      else if new = some c.key then setFocus true c
      else c
    let cs := match new with
      | none => cs
      | some i => raiseKey i cs
    let marks := shifts v.focusedChild new t
    (.node { v.dirty marks with focusedChild := new } cs, marks)

/-- `CompositeWidget::GetFocus` of the container at the path: it asks its parent for focus in turn,
up to the root. -/
def getFocus : List Nat → Option Nat → Tree C → Tree C × Bool
  | [], widget, t => focusStep widget t
  | i :: π, widget, t =>
    let marks := t.children.any fun c => c.key = i && (getFocus π widget c).2
    let t := .node (t.label.dirty marks)
      (Rose.mapKey i (fun c => (getFocus π widget c).1) t.children)
    let (t, shifted) := focusStep (some i) t
    (t, marks || shifted)

/-- `GetFocus` of the container at the path, if there is one. -/
def requestFocus (π : List Nat) (widget : Option Nat) (t : Tree C) : Tree C :=
  if (t.get? π).any (·.label.isComposite) then (getFocus π widget t).1 else t

/-- `RequestTopmostFocus` of the widget at the path: it becomes its container's last child. -/
def requestTopmostFocus (π : List Nat) (t : Tree C) : Tree C :=
  match π.getLast? with
  | none => t
  | some k => markDirty π.dropLast
    (t.along id (fun s => .node s.label (raiseKey k s.children)) π.dropLast)

/-- What the handling of an event asks of the tree. -/
inductive Call where
  | getFocus (π : List Nat) (widget : Option Nat)
  | topmost (π : List Nat)
  deriving DecidableEq

def Call.step (t : Tree C) : Call → Tree C
  | .getFocus π widget => requestFocus π widget t
  | .topmost π => requestTopmostFocus π t

/-- The end of `SetFocussable` and `SetEnabled`: the focus is taken from the widget at the path, and
from its container's `focusedChild`. -/
def dropFocus (π : List Nat) (t : Tree C) : Tree C :=
  let t := t.along (Node.dirty true) (setFocus false) π
  if π = [] then t else requestFocus π.dropLast none t

def setFocussable (π : List Nat) (focussable : Bool) (t : Tree C) : Tree C :=
  let focused := (t.get? π).any (·.label.isFocused)
  let t := t.along id (Rose.relabel fun v => { v with isFocussable := focussable }) π
  if !focussable && focused then dropFocus π t else t

def setEnabled (π : List Nat) (value : Bool) (t : Tree C) : Tree C :=
  if (t.get? π).all (·.label.enabled = value) then t
  else
    let focused := (t.get? π).any (·.label.isFocused)
    let t := t.along id (Rose.relabel fun v => { v with enabled := value }) π
    markDirty π (if !value && focused then dropFocus π t else t)

/-! ## Children -/

def addChild (π : List Nat) (child : Tree C) (t : Tree C) : Tree C :=
  if (t.get? π).all fun s => s.children.any (·.key = child.key) then t
  else markDirty π (t.along id (fun s => .node s.label (s.children ++ [child])) π)

/-- `CompositeWidget::RemoveChild` -/
def removeChild (π : List Nat) (child : Nat) (t : Tree C) : Tree C :=
  let takes (s : Tree C) := s.label.focusedChild = some child || s.children.any (·.key = child)
  if (t.get? π).any takes then
    markDirty π (t.along id (fun s => .node
      { s.label with
        focusedChild := if s.label.focusedChild = some child then none else s.label.focusedChild }
      (s.children.filter (·.key ≠ child))) π)
  else t

/-! ## The pointer and the Tab key -/

/-- `ContainsCoordinate` -/
def Node.contains (v : Node C) (x y : Int) : Bool :=
  v.x ≤ x && x < v.x + v.w && v.y ≤ y && y < v.y + v.h

/-- The title bar of a window, left of the close button. -/
def Node.header (v : Node C) (x y : Int) : Bool :=
  v.x ≤ x && x ≤ v.x + v.w - 26 && v.y ≤ y && y ≤ v.y + 25

mutual
/-- The calls that a press makes in the subtree of the widget at the path `π`: that of a leaf for
itself, then those of the containers from the inside out. -/
def onMouseDown (π : List Nat) (x y : Int) (button : Nat) : Tree C → List Call
  | .node v cs =>
    if !v.isComposite then
      if v.isFocussable then [.getFocus π.dropLast (some v.id)] else []
    else if !v.enabled || !v.isVisible then []
    else
      let drag := if v.shape = .window && v.header x y && button = 1 then [.topmost π] else []
      match pressed π (x - v.x) (y - v.y) button 128 cs with
      | none => drag ++ [.getFocus π none]
      | some (i, rs) => drag ++ rs ++ [.getFocus π (some i)]

/-- The topmost child that the press hits, with its calls. `ReverseForEach` looks at the first
`room` children. -/
def pressed (π : List Nat) (x y : Int) (button room : Nat) :
    List (Tree C) → Option (Nat × List Call)
  | [] => none
  | c :: cs =>
    if room = 0 then none
    else
      match pressed π x y button (room - 1) cs with
      | some r => some r
      | none =>
        if c.label.isVisible && c.label.contains x y then
          some (c.key, onMouseDown (π ++ [c.key]) x y button c)
        else none
end

mutual
/-- `HasFocusableDescendant` -/
def hasFocusable : Tree C → Bool
  | .node _ cs => anyFocusable cs

def anyFocusable : List (Tree C) → Bool
  | [] => false
  | c :: cs => c.label.isVisible && (c.label.isFocussable || hasFocusable c) || anyFocusable cs
end

mutual
/-- `CollectTabStops`: the paths of the focus stops, in tab order. -/
def tabStops (π : List Nat) : Tree C → List (List Nat)
  | .node _ cs => stopsOf π cs

def stopsOf (π : List Nat) : List (Tree C) → List (List Nat)
  | [] => []
  | c :: cs =>
    (if !c.label.isVisible then []
      else if !c.label.isFocussable then
        if c.label.isComposite then tabStops (π ++ [c.key]) c else []
      else if c.label.isComposite && hasFocusable c then tabStops (π ++ [c.key]) c
      else [π ++ [c.key]]) ++ stopsOf π cs
end

mutual
/-- `FindDeepestFocused` -/
def deepestFocused (π : List Nat) : Tree C → Option (List Nat)
  | .node _ cs => focusedOf π cs

def focusedOf (π : List Nat) : List (Tree C) → Option (List Nat)
  | [] => none
  | c :: cs =>
    if c.label.isFocused then
      some ((deepestFocused (π ++ [c.key]) c).getD (π ++ [c.key]))
    else focusedOf π cs
end

/-- `OnTabFocus` at the root: the stop after (or before) the current one is asked for. -/
def onTabFocus (backwards : Bool) (t : Tree C) : List Call :=
  if !t.label.enabled || !t.label.isVisible then []
  else
    let stops := tabStops [] t
    let current := (deepestFocused [] t).bind fun π => stops.findIdx? (· = π)
    let next := match current with
      | none => if backwards then stops.length - 1 else 0
      | some i =>
        if backwards then if i = 0 then stops.length - 1 else i - 1 else (i + 1) % stops.length
    match stops[next]? with
    | none => []
    | some π => [.getFocus π.dropLast π.getLast?]

mutual
/-- The path to the leaf at the end of the `focusedChild` pointers, where each container lets the
event pass. -/
def follow (passes : Node C → Bool) : Tree C → Option (List Nat)
  | .node v cs =>
    if !v.isComposite then some []
    else if passes v then followOf passes v.focusedChild cs
    else none

def followOf (passes : Node C → Bool) (focusedChild : Option Nat) :
    List (Tree C) → Option (List Nat)
  | [] => none
  | c :: cs =>
    if focusedChild = some c.key then (follow passes c).map (c.key :: ·)
    else followOf passes focusedChild cs
end

/-- `OnKeyDown` at the root: the path of the widget that the key reaches. -/
def onKeyDown (t : Tree C) : Option (List Nat) := follow (fun v => v.enabled && v.isVisible) t

end WidgetTree
end Hashx86
