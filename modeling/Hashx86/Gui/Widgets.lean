import Hashx86.Lib.Run
import Mathlib.Algebra.Group.Nat.Defs
import Mathlib.Data.List.Basic
import Mathlib.Logic.Function.Basic

/-!
# Widgets of processes (`gui/Hgui.cpp`, `gui/widget.cpp`, `gui/window.cpp`, `gui/taskbar.cpp`)

The heap of widgets with the three places that refer to them: the registry of `HguiHandler`, the
parent pointers and the child lists; the windows that wait for deferred destruction; and the tabs
of the taskbar. A widget is named by the number of its allocation. The desktop is widget 0, it is
registered with the id 0 and never freed; its own kernel widgets (PID 0) are left out.

A request is one step: it runs with interrupts off. A process is a PID other than 0; one that has
exited makes no request.
-/

namespace Hashx86
namespace Gui

open Lib

abbrev Ptr := Nat

/-- What a widget is. A control is a button, icon button, label, list view or terminal view. -/
inductive Kind where
  | desktop
  | window
  | closeButton
  | control
  deriving DecidableEq, Repr

structure Widget where
  kind : Kind
  pid : Nat
  id : Nat
  parent : Option Ptr
  childrenList : List Ptr
  isVisible : Bool
  deriving DecidableEq, Repr

structure TaskbarTab where
  pid : Nat
  windowWidget : Ptr
  deriving DecidableEq, Repr

/-- The state of the GUI. `freed` has the widgets freed, `next` is the number of allocations, and
`staleReads` has the freed widgets that a click on a tab read. -/
structure GuiState where
  heap : Ptr → Option Widget
  next : Ptr
  freed : List Ptr
  widgetIDCounter : Nat
  hguiWidgets : List Ptr
  pendingWidgetDestroy : List Ptr
  tabs : List TaskbarTab
  tabCount : Int
  exited : List Nat
  staleReads : List Ptr

def taskbarTabMaxTabs : Int := 10

def theDesktop : Ptr := 0

def GuiState.init : GuiState where
  heap := Function.update (fun _ => none) theDesktop (some ⟨.desktop, 0, 0, none, [], true⟩)
  next := 1
  freed := []
  widgetIDCounter := 1000
  hguiWidgets := [theDesktop]
  pendingWidgetDestroy := []
  tabs := []
  tabCount := 0
  exited := []
  staleReads := []

def Kind.isComposite : Kind → Bool
  | .desktop | .window => true
  | _ => false

/-- A write to an allocated widget. -/
def modify (g : GuiState) (p : Ptr) (f : Widget → Widget) : GuiState :=
  { g with heap := Function.update g.heap p ((g.heap p).map f) }

/-- `HguiHandler::FindWidgetByID`: the last registered widget with the id. -/
def findWidgetByID (g : GuiState) (searchID : Nat) : Option Ptr :=
  g.hguiWidgets.foldl
    (fun found c => if (g.heap c).any (·.id == searchID) then some c else found) none

/-! ## The tree -/

/-- `Widget::AddChild`: whether it succeeds, and the state after. -/
def addChild (g : GuiState) (p c : Ptr) : Bool × GuiState :=
  match g.heap p, g.heap c with
  | some w, some v =>
    if v.parent ≠ none ∧ v.parent ≠ some p then (false, g)
    else if c ∈ w.childrenList then (false, g)
    else
      (true, modify (modify g p fun w => { w with childrenList := w.childrenList ++ [c] }) c
        fun v => { v with parent := some p })
  | _, _ => (false, g)

/-- `CompositeWidget::RemoveChild` -/
def removeChild (g : GuiState) (p c : Ptr) : GuiState :=
  if (g.heap p).any fun w => decide (c ∈ w.childrenList) then
    modify (modify g p fun w => { w with childrenList := w.childrenList.erase c }) c
      fun v => if v.parent = some p then { v with parent := none } else v
  else g

/-- A child raised to the top of its container (`CompositeWidget::GetFocus`,
`RequestTopmostFocus`). -/
def raise (g : GuiState) (p c : Ptr) : GuiState :=
  modify g p fun w =>
    if c ∈ w.childrenList then { w with childrenList := w.childrenList.erase c ++ [c] } else w

/-- The end of `~Widget`: the widget leaves a parent that it still has and the registry, and its
memory is freed. -/
def freeWidget (g : GuiState) (p : Ptr) : GuiState :=
  let g := match (g.heap p).bind (·.parent) with
    | none => g
    | some q => removeChild g q p
  { g with
    heap := Function.update g.heap p none
    freed := p :: g.freed
    hguiWidgets := g.hguiWidgets.erase p }

/-- `delete widget`: the children are taken from the list, unlinked and deleted, then the widget is
freed. `fuel` bounds the depth of the calls. A widget that is not allocated is freed again. -/
def destroy : Nat → GuiState → Ptr → GuiState
  | 0, g, _ => g
  | fuel + 1, g, p =>
    match g.heap p with
    | none => { g with freed := p :: g.freed }
    | some w =>
      let g := w.childrenList.foldl
        (fun g c =>
          let g := modify g p fun w => { w with childrenList := w.childrenList.tail }
          destroy fuel (modify g c fun v => { v with parent := none }) c) g
      freeWidget g p

/-! ## The taskbar -/

/-- `Taskbar::AddTab` -/
def addTab (g : GuiState) (pid : Nat) (window : Ptr) : GuiState :=
  if taskbarTabMaxTabs ≤ g.tabCount then g
  else if g.tabs.any (·.pid == pid) then g
  else { g with tabs := ⟨pid, window⟩ :: g.tabs, tabCount := g.tabCount + 1 }

/-- The removal of the first tab that satisfies `found`. -/
def removeTab (g : GuiState) (found : TaskbarTab → Bool) : GuiState :=
  if g.tabs.any found then { g with tabs := g.tabs.eraseP found, tabCount := g.tabCount - 1 }
  else g

/-- `Taskbar::RemoveTabByPID` -/
def removeTabByPID (g : GuiState) (pid : Nat) : GuiState := removeTab g (·.pid == pid)

/-- `Taskbar::RemoveTabByWindow` -/
def removeTabByWindow (g : GuiState) (window : Ptr) : GuiState :=
  removeTab g (·.windowWidget == window)

/-- `TaskbarTab::OnMouseDown`: the window and its parent are read. -/
def clickTab (g : GuiState) (i : Nat) : GuiState :=
  match g.tabs[i]? with
  | none => g
  | some t =>
    match g.heap t.windowWidget with
    | none => { g with staleReads := t.windowWidget :: g.staleReads }
    | some w =>
      match w.parent with
      | none => g
      | some p => if (g.heap p).isNone then { g with staleReads := p :: g.staleReads } else g

/-! ## Requests -/

/-- `CREATE` for a window (`HandleWindow`) or a control: `copied` is whether the texts of a control
could be copied. -/
def create (g : GuiState) (pid parentID : Nat) (window copied : Bool) : GuiState :=
  match findWidgetByID g parentID with
  | none => g
  | some p =>
    match g.heap p with
    | none => g
    | some parent =>
      if !parent.kind.isComposite then g
      else if !window && parent.id == 0 then g
      else if !window && !copied then g
      else
        let newID := g.widgetIDCounter
        let n := g.next
        if window then
          { g with
            widgetIDCounter := (g.widgetIDCounter + 1) % 2 ^ 32
            next := n + 2
            heap := Function.update
              (Function.update g.heap n (some ⟨.window, pid, newID, some p, [n + 1], true⟩))
              (n + 1) (some ⟨.closeButton, pid, 0, some n, [], true⟩)
            hguiWidgets := n :: g.hguiWidgets }
        else
          { g with
            widgetIDCounter := (g.widgetIDCounter + 1) % 2 ^ 32
            next := n + 1
            heap := Function.update g.heap n (some ⟨.control, pid, newID, some p, [], true⟩)
            hguiWidgets := n :: g.hguiWidgets }

/-- `ADD_CHILD` -/
def handleAddChild (g : GuiState) (pid parentID childID : Nat) : GuiState :=
  match findWidgetByID g parentID, findWidgetByID g childID with
  | some p, some c =>
    match g.heap p, g.heap c with
    | some parent, some child =>
      if !parent.kind.isComposite then g
      else if child.pid ≠ pid then g
      else if parent.pid ≠ pid ∧ parent.id ≠ 0 then g
      else
        let g := (addChild g p c).2
        if parent.id = 0 then addTab g child.pid c else g
    | _, _ => g
  | _, _ => g

/-- The window that a widget is or lies in, found along the parent pointers. -/
def enclosingWindow : Nat → GuiState → Ptr → Option Ptr
  | 0, _, _ => none
  | fuel + 1, g, p =>
    match g.heap p with
    | none => none
    | some w =>
      if w.kind = .window then some p
      else
        match w.parent with
        | none => none
        | some q => enclosingWindow fuel g q

/-- The walk of `DELETE` over the descendants: each takes the first registered widget of its id out
of the registry. -/
def unregisterTree : Nat → GuiState → List Ptr → GuiState
  | 0, g, _ => g
  | _ + 1, g, [] => g
  | fuel + 1, g, cur :: toRemove =>
    match g.heap cur with
    | none => unregisterTree fuel g toRemove
    | some w =>
      unregisterTree fuel
        { g with hguiWidgets := g.hguiWidgets.eraseP fun c => (g.heap c).any (·.id == w.id) }
        (toRemove ++ w.childrenList)

/-- The detachment from the parent, and the deletion. -/
def detachAndDestroy (g : GuiState) (p : Ptr) : GuiState :=
  let g := match (g.heap p).bind (·.parent) with
    | none => g
    | some q => removeChild g q p
  destroy g.next g p

/-- `DELETE` -/
def handleDelete (g : GuiState) (pid id : Nat) : GuiState :=
  match findWidgetByID g id with
  | none => g
  | some target =>
    if (g.heap target).all (·.pid != pid) then g
    else
      let g := match enclosingWindow g.next g target with
        | none => g
        | some win => removeTabByWindow g win
      detachAndDestroy (unregisterTree g.next g [target]) target

/-- The widget is shown on the desktop: it and its ancestors are visible and listed. -/
def onScreen : Nat → GuiState → Ptr → Bool
  | 0, _, _ => false
  | fuel + 1, g, p =>
    match g.heap p with
    | none => false
    | some w =>
      w.isVisible && (p == theDesktop ||
        match w.parent with
        | none => false
        | some q =>
          (g.heap q).any (fun v => decide (p ∈ v.childrenList)) && onScreen fuel g q)

/-- `Window::OnClose`, called by a click on the close button: `posted` is whether the owner has an
event handler that takes the close event. -/
def onClose (g : GuiState) (w : Ptr) (posted : Bool) : GuiState :=
  match g.heap w with
  | none => g
  | some win =>
    if win.kind ≠ .window ∨ !onScreen g.next g w then g
    else if posted then g
    else
      let g := modify g w fun win => { win with isVisible := false }
      let g := match win.parent with
        | none => g
        | some q => removeChild g q w
      { g with pendingWidgetDestroy := g.pendingWidgetDestroy ++ [w] }

/-- `DrainDeferredWidgetDeletes` -/
def drain (g : GuiState) : GuiState :=
  g.pendingWidgetDestroy.foldl
    (fun g p => destroy g.next { g with pendingWidgetDestroy := g.pendingWidgetDestroy.tail } p) g

/-- `Desktop::RemoveAppByPID` -/
def desktopRemoveApp (g : GuiState) (pid : Nat) : GuiState :=
  let children := ((g.heap theDesktop).map (·.childrenList)).getD []
  let g := match children.find? fun c => (g.heap c).any (·.pid == pid) with
    | none => g
    | some c => removeChild g theDesktop c
  removeTabByPID g pid

/-- The widgets of a process in the registry, and those of them whose parent is not one. -/
def appWidgets (g : GuiState) (pid : Nat) : List Ptr :=
  g.hguiWidgets.filter fun c => (g.heap c).any (·.pid == pid)

def appRoots (g : GuiState) (pid : Nat) : List Ptr :=
  (appWidgets g pid).filter fun c =>
    (g.heap c).all fun w => w.parent.all fun q => decide (q ∉ appWidgets g pid)

/-- `HguiHandler::RemoveAppByPID` -/
def hguiRemoveApp (g : GuiState) (pid : Nat) : GuiState :=
  (appRoots g pid).foldl
    (fun g w => detachAndDestroy { g with hguiWidgets := g.hguiWidgets.erase w } w) g

/-- The end of a process (`CleanupExitedProcessGui`). -/
def exitProcess (g : GuiState) (pid : Nat) : GuiState :=
  if pid = 0 then g
  else
    let g := hguiRemoveApp (desktopRemoveApp g pid) pid
    { g with exited := pid :: g.exited }

inductive GuiOp where
  | create (pid parentID : Nat) (window copied : Bool)
  | addChild (pid parentID childID : Nat)
  | delete (pid id : Nat)
  | close (w : Ptr) (posted : Bool)
  | drain
  | exit (pid : Nat)
  | raise (p c : Ptr)
  | clickTab (i : Nat)

/-- The process that makes a request. -/
def GuiOp.caller : GuiOp → Option Nat
  | .create pid .. | .addChild pid .. | .delete pid .. | .exit pid => some pid
  | _ => none

def GuiOp.step (g : GuiState) (op : GuiOp) : GuiState :=
  if op.caller.any fun pid => decide (pid = 0 ∨ pid ∈ g.exited) then g
  else
    match op with
    | .create pid parentID window copied => Gui.create g pid parentID window copied
    | .addChild pid parentID childID => handleAddChild g pid parentID childID
    | .delete pid id => handleDelete g pid id
    | .close w posted => onClose g w posted
    | .drain => Gui.drain g
    | .exit pid => exitProcess g pid
    | .raise p c => Gui.raise g p c
    | .clickTab i => Gui.clickTab g i

end Gui
end Hashx86
