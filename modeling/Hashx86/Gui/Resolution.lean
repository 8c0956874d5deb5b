import Hashx86.Gui.Relayout

/-!
# Windows on a new screen (`ApplyDisplayMode`, `Desktop::OnResolutionChanged`)

* `clampPos_iff`: when a coordinate that is clamped keeps the widget on the screen.
* `fit_inside_iff`: when a child of the desktop is on the screen after the relayout.
* `getElem?_frame`, `getElem?_closeButton`: the frame of a window is fitted, its button left alone.
* `relaid_iff`: when all windows are on the new screen with their close buttons.
-/

namespace Hashx86
namespace Sizing

open Lib Widget

/-! ## `ApplyDisplayMode` -/

/-- The geometry of a surface: one that `RasterSurface::Resize` accepts. -/
structure Geometry where
  width : UInt32
  height : UInt32
  pos : 0 < width.toNat ∧ 0 < height.toNat
  small : width.toNat * height.toNat ≤ 0x3FFFFFFF

structure System where
  graphicsDriver : Option Geometry
  stopGuiRendering : Bool
  activeInstance : Option Desktop
  widgets : Table

/-- `SetVideoMode` of the driver, by the geometry that it then has. -/
abbrev SetVideoMode := UInt16 → UInt16 → Option Geometry

def applyDisplayMode (setVideoMode : SetVideoMode) (mem : Nat → Bool × Bool) (s : System)
    (width height : UInt16) : Bool × System :=
  match s.graphicsDriver with
  | none => (false, s)
  | some g =>
    if width = 0 ∨ height = 0 then (false, s)
    else if width.toUInt32 = g.width ∧ height.toUInt32 = g.height then (true, s)
    else if s.stopGuiRendering then (false, s)
    else
      match setVideoMode width height with
      | none => (false, s)
      | some g' =>
        match s.activeInstance with
        | none => (true, { s with graphicsDriver := some g' })
        | some d =>
          let r := onResolutionChanged mem d g'.width g'.height s.widgets
          (true, { s with graphicsDriver := some g', activeInstance := some r.1, widgets := r.2 })

theorem Geometry.lt (g : Geometry) : g.width.toNat < 2 ^ 30 ∧ g.height.toNat < 2 ^ 30 := by
  have hw : g.width.toNat ≤ g.width.toNat * g.height.toNat := Nat.le_mul_of_pos_right _ g.pos.2
  have hh : g.height.toNat ≤ g.width.toNat * g.height.toNat := Nat.le_mul_of_pos_left _ g.pos.1
  have hsmall := g.small
  omega

/-! ## One child of the desktop -/

/-- Neither `Resize` of the child fails. -/
def Resized (mem : Bool × Bool) (w usableH : Int32) (v : Widget) : Prop :=
  (w < v.w → (v.resize mem.1 w v.h).1 = true) ∧
    (usableH < v.h →
      let v := if w < v.w then (v.resize mem.1 w v.h).2 else v
      (v.resize mem.2 v.w usableH).1 = true)

/-- It lies in `[0, w) × [0, h)`. -/
def Inside (w h : Int32) (v : Widget) : Prop :=
  (0 ≤ v.x.toInt ∧ v.x.toInt + v.w.toInt ≤ w.toInt) ∧
    (0 ≤ v.y.toInt ∧ v.y.toInt + v.h.toInt ≤ h.toInt)

/-- Where neither `Resize` fails, the child has the smaller of the extents. -/
theorem shrink_eq {mem : Bool × Bool} {w usableH : Int32} {v : Widget}
    (hr : Resized mem w usableH v) :
    ∃ cache, v.shrink mem w usableH =
      { v with
        w := if w < v.w then w else v.w
        h := if usableH < v.h then usableH else v.h
        cache := cache } := by
  obtain ⟨hwide, hhigh⟩ := hr
  -- The first call leaves the height as it is, so the second asks for it as it was.
  have hfirst : ∃ cache, (if w < v.w then (v.resize mem.1 w v.h).2 else v) =
      { v with w := if w < v.w then w else v.w, cache := cache } := by
    split
    next hlt =>
      obtain ⟨cache, h⟩ := resize_true (hwide hlt)
      exact ⟨cache, h⟩
    next => exact ⟨v.cache, rfl⟩
  obtain ⟨cache, hfirst⟩ := hfirst
  rw [shrink]
  simp only [hfirst] at hhigh ⊢
  split
  next hlt =>
    obtain ⟨cache, h⟩ := resize_true (hhigh hlt)
    exact ⟨cache, h⟩
  next => exact ⟨cache, rfl⟩

theorem clampPos_iff {size : Int32} (pos extent : Int32) (hsize : 0 < size.toInt)
    (hextent : extent.toInt ≤ size.toInt) :
    (0 ≤ (clampPos size pos extent).toInt ∧
      (clampPos size pos extent).toInt + extent.toInt ≤ size.toInt) ↔
      max pos.toInt 0 + extent.toInt < 2 ^ 31 := by
  have hlo := extent.le_toInt
  have hhi := size.toInt_lt
  have hpos : ∃ p : Int32, (if pos < 0 then 0 else pos) = p ∧ p.toInt = max pos.toInt 0 := by
    split
    next hneg =>
      rw [Int32.lt_iff_toInt_lt, Int32.toInt_zero] at hneg
      exact ⟨0, rfl, by rw [Int32.toInt_zero]; omega⟩
    next hneg =>
      rw [Int32.lt_iff_toInt_lt, Int32.toInt_zero] at hneg
      exact ⟨pos, rfl, by omega⟩
  obtain ⟨p, hp, hmax⟩ := hpos
  have hrange := p.toInt_lt
  rw [clampPos, hp, ← hmax]
  by_cases hfit : p.toInt + extent.toInt < 2 ^ 31
  · have hsum := toInt_add_eq (by omega) hfit
    split
    next hpast =>
      rw [Int32.lt_iff_toInt_lt, hsum] at hpast
      rw [toInt_sub_eq (by omega) (by omega)]
      omega
    next hin =>
      rw [Int32.lt_iff_toInt_lt, hsum] at hin
      omega
  · have hsum := toInt_add_wrap (m := p) (n := extent) (by omega)
    split
    next hpast =>
      rw [Int32.lt_iff_toInt_lt, hsum] at hpast
      omega
    next => omega

/-- The position of a child, moved onto the screen, and the smaller of the extents stay in the range
of an `int32_t`. -/
def InRange (w usableH : Int32) (v : Widget) : Prop :=
  max v.x.toInt 0 + min v.w.toInt w.toInt < 2 ^ 31 ∧
    max v.y.toInt 0 + min v.h.toInt usableH.toInt < 2 ^ 31

theorem toInt_lesser (a b : Int32) : (if b < a then b else a).toInt = min a.toInt b.toInt := by
  split
  next hlt =>
    rw [Int32.lt_iff_toInt_lt] at hlt
    omega
  next hge =>
    rw [Int32.lt_iff_toInt_lt] at hge
    omega

theorem fit_extent {mem : Bool × Bool} {w usableH : Int32} {v : Widget}
    (hr : Resized mem w usableH v) :
    (v.fit mem w usableH).w.toInt = min v.w.toInt w.toInt ∧
      (v.fit mem w usableH).h.toInt = min v.h.toInt usableH.toInt := by
  obtain ⟨cache, hshrink⟩ := shrink_eq hr
  rw [fit, hshrink]
  exact ⟨toInt_lesser v.w w, toInt_lesser v.h usableH⟩

theorem fit_inside_iff {mem : Bool × Bool} {w usableH : Int32} {v : Widget} (hw : 0 < w.toInt)
    (hh : 0 < usableH.toInt) (hr : Resized mem w usableH v) :
    Inside w usableH (v.fit mem w usableH) ↔ InRange w usableH v := by
  obtain ⟨cache, hshrink⟩ := shrink_eq hr
  have hx := clampPos_iff v.x (if w < v.w then w else v.w) hw
    (by rw [toInt_lesser]; omega)
  have hy := clampPos_iff v.y (if usableH < v.h then usableH else v.h) hh
    (by rw [toInt_lesser]; omega)
  rw [toInt_lesser] at hx hy
  rw [Inside, fit, hshrink, InRange, ← hx, ← hy]
  simp only [toInt_lesser]

/-! ## All windows -/

theorem getElem?_modify? {ws : Table} {i : Nat} {o : Option Nat} (hne : i ∉ o.toList)
    (f : Widget → Widget) : (ws.modify? o f)[i]? = ws[i]? := by
  cases o with
  | none => rfl
  | some j =>
    have hji : j ≠ i := by simpa [eq_comm] using hne
    exact List.getElem?_modify_ne f ws hji

theorem getElem?_repositionTabs {b : Taskbar} {i : Nat} (hi : i ∉ b.tabs) (mem : Nat → Bool)
    (ws : Table) : (b.repositionTabs mem ws)[i]? = ws[i]? := by
  rw [Taskbar.repositionTabs]
  refine iteInduction (motive := fun ws' : Table => ws'[i]? = ws[i]?) (fun _ => rfl) fun _ => ?_
  exact List.foldlRecOn (motive := fun acc : Table × Int32 => acc.1[i]? = ws[i]?) b.tabs _ rfl
    fun acc hacc j hj =>
      (List.getElem?_modify_ne _ _ (ne_of_mem_of_not_mem hj hi)).trans hacc

/-- The taskbar moves and resizes its own widgets only. -/
theorem getElem?_setScreenDimensions {b : Taskbar} {i : Nat} (hi : i ∉ b.ids) (mem : Nat → Bool)
    (screenW screenH : Int32) (ws : Table) :
    (b.setScreenDimensions mem screenW screenH ws)[i]? = ws[i]? := by
  simp only [Taskbar.ids, List.cons_append, List.mem_cons, List.mem_append, not_or] at hi
  obtain ⟨hself, ⟨hclock, hmenu⟩, htabs⟩ := hi
  rw [Taskbar.setScreenDimensions, getElem?_repositionTabs htabs, getElem?_modify? hmenu,
    getElem?_modify? hclock]
  exact List.getElem?_modify_ne _ _ (Ne.symm hself)

/-- What is on the screen, and what the desktop does to a widget that is none of its own. -/
theorem getElem?_onResolutionChanged {d : Desktop} {w h : UInt32} {ws : Table} {i : Nat}
    (hw : w ≠ 0) (hh : h ≠ 0) (hsize : ws.sizeAt d.self ≠ (w.toInt32, h.toInt32))
    (hself : i ≠ d.self) (hbar : i ∉ d.taskbar.toList.flatMap Taskbar.ids)
    (mem : Nat → Bool × Bool) :
    (onResolutionChanged mem d w h ws).2[i]? = ws[i]?.map fun v =>
      if i ∈ d.children then v.fit (mem i) w.toInt32 (h.toInt32 - taskbarHeight) else v := by
  rw [onResolutionChanged, if_neg (by simp [hw, hh]), if_neg hsize]
  rw [List.getElem?_mapIdx]
  congr 1
  cases hd : d.taskbar with
  | none => exact List.getElem?_modify_ne _ _ (Ne.symm hself)
  | some b =>
    rw [hd] at hbar
    exact (getElem?_setScreenDimensions (by simpa using hbar) _ _ _ _).trans
      (List.getElem?_modify_ne _ _ (Ne.symm hself))

/-- The pointer of a screen is on a new one after the clamp. -/
theorem clampMouse_lt {pos size : UInt32} (hpos : pos.toNat < 2 ^ 30) (hsize : 0 < size.toNat) :
    (clampMouse pos size).toNat < size.toNat := by
  have h20 : cursorSize.toNat = 20 := rfl
  have hsum : (pos + cursorSize).toNat = pos.toNat + 20 := by
    rw [UInt32.toNat_add, h20, Nat.mod_eq_of_lt (by omega)]
  rw [clampMouse]
  split
  next hpast =>
    split
    next hlt =>
      have hle : cursorSize ≤ size := UInt32.le_of_lt hlt
      rw [UInt32.toNat_sub_of_le _ _ hle, h20]
      omega
    next => exact hsize
  next hin =>
    rw [UInt32.lt_iff_toNat_lt, hsum] at hin
    omega

/-- A change of the screen from `g` to `g'` that works, on a desktop of the size of the screen. -/
structure Change (setVideoMode : SetVideoMode) (mem : Nat → Bool × Bool) (s s' : System)
    (width height : UInt16) (g g' : Geometry) (d : Desktop) : Prop where
  applied : applyDisplayMode setVideoMode mem s width height = (true, s')
  before : s.graphicsDriver = some g
  after : s'.graphicsDriver = some g'
  changed : (g'.width, g'.height) ≠ (g.width, g.height)
  higher : taskbarHeight.toInt < g'.height.toNat
  active : s.activeInstance = some d
  sized : s.widgets.sizeAt d.self = (g.width.toInt32, g.height.toInt32)
  mouse : d.mouseX < g.width ∧ d.mouseY < g.height

section Change

variable {setVideoMode : SetVideoMode} {mem : Nat → Bool × Bool} {s s' : System}
  {width height : UInt16} {g g' : Geometry} {d : Desktop}

theorem Change.relayout (hc : Change setVideoMode mem s s' width height g g' d) :
    s'.activeInstance = some (onResolutionChanged mem d g'.width g'.height s.widgets).1 ∧
      s'.widgets = (onResolutionChanged mem d g'.width g'.height s.widgets).2 := by
  have happ := hc.applied
  simp only [applyDisplayMode, hc.before, hc.active] at happ
  split at happ
  · cases happ
  split at happ
  next =>
    have hafter := hc.after
    cases happ
    rw [hc.before] at hafter
    cases hafter
    exact absurd rfl hc.changed
  split at happ
  · cases happ
  split at happ
  next => cases happ
  next g₁ hmode =>
    have hafter := hc.after
    cases happ
    cases hafter
    exact ⟨rfl, rfl⟩

/-- The desktop has not the size of the new screen yet. -/
theorem Change.resized (hc : Change setVideoMode mem s s' width height g g' d) :
    s.widgets.sizeAt d.self ≠ (g'.width.toInt32, g'.height.toInt32) := by
  rw [hc.sized]
  intro heq
  obtain ⟨hw, hh⟩ := Prod.mk.inj heq
  have hw' : g'.width = g.width := congrArg Int32.toUInt32 hw.symm
  have hh' : g'.height = g.height := congrArg Int32.toUInt32 hh.symm
  exact hc.changed (Prod.ext hw' hh')

end Change

/-- Each window whose `Resize` calls work lies above the taskbar, with its close button in it. -/
def Relaid (mem : Nat → Bool × Bool) (w usableH : Int32) (d : Desktop) (ws ws' : Table) : Prop :=
  ∀ win ∈ d.windows, ∀ v c, ws[win.frame]? = some v → ws[win.closeButton]? = some c →
    Resized (mem win.frame) w usableH v →
    ∃ v' c', ws'[win.frame]? = some v' ∧ ws'[win.closeButton]? = some c' ∧
      Inside w usableH v' ∧ Inside v'.w v'.h c'

/-- The close button of each such window is in what the new screen leaves of it. -/
def KeepsButtons (mem : Nat → Bool × Bool) (w usableH : Int32) (d : Desktop) (ws : Table) : Prop :=
  ∀ win ∈ d.windows, ∀ v c, ws[win.frame]? = some v → ws[win.closeButton]? = some c →
    Resized (mem win.frame) w usableH v →
    InRange w usableH v ∧
      (0 ≤ c.x.toInt ∧ c.x.toInt + c.w.toInt ≤ min v.w.toInt w.toInt) ∧
      (0 ≤ c.y.toInt ∧ c.y.toInt + c.h.toInt ≤ min v.h.toInt usableH.toInt)

section Windows

variable {setVideoMode : SetVideoMode} {mem : Nat → Bool × Bool} {s s' : System}
  {width height : UInt16} {g g' : Geometry} {d : Desktop}

theorem Geometry.ne_zero (g : Geometry) : g.width ≠ 0 ∧ g.height ≠ 0 := by
  obtain ⟨hw, hh⟩ := g.pos
  exact ⟨fun h => by simp [h] at hw, fun h => by simp [h] at hh⟩

theorem Change.getElem? (hc : Change setVideoMode mem s s' width height g g' d) {i : Nat}
    (hself : i ≠ d.self) (hbar : i ∉ d.taskbar.toList.flatMap Taskbar.ids) :
    s'.widgets[i]? = s.widgets[i]?.map fun v =>
      if i ∈ d.children then v.fit (mem i) g'.width.toInt32 (g'.height.toInt32 - taskbarHeight)
      else v := by
  rw [hc.relayout.2]
  exact getElem?_onResolutionChanged g'.ne_zero.1 g'.ne_zero.2 hc.resized hself hbar mem

theorem Change.frame (hc : Change setVideoMode mem s s' width height g g' d) {win : Window}
    (hwin : win ∈ d.windows) : s'.widgets[win.frame]? = s.widgets[win.frame]?.map
      (Widget.fit (mem win.frame) g'.width.toInt32 (g'.height.toInt32 - taskbarHeight)) := by
  have hmem : win.frame ∈ d.windows.map Window.frame := List.mem_map_of_mem hwin
  have hapart := (List.nodup_append.mp (List.nodup_append.mp d.distinct).1).2.2
  have hne : ∀ i ∈ d.self :: d.taskbar.toList.flatMap Taskbar.ids, i ≠ win.frame :=
    fun i hi => hapart i (List.mem_append_left _ hi) _ hmem
  rw [hc.getElem? (Ne.symm (hne _ List.mem_cons_self))
    fun hbar => hne _ (List.mem_cons_of_mem _ hbar) rfl]
  simp only [Desktop.children, List.mem_append, hmem, or_true, if_true]

theorem Change.closeButton (hc : Change setVideoMode mem s s' width height g g' d) {win : Window}
    (hwin : win ∈ d.windows) : s'.widgets[win.closeButton]? = s.widgets[win.closeButton]? := by
  have hmem : win.closeButton ∈ d.windows.map Window.closeButton := List.mem_map_of_mem hwin
  have hapart := (List.nodup_append.mp d.distinct).2.2
  have hown : ∀ i ∈ d.self :: d.taskbar.toList.flatMap Taskbar.ids, i ≠ win.closeButton :=
    fun i hi => hapart i (List.mem_append_left _ (List.mem_append_left _ hi)) _ hmem
  have hchild : win.closeButton ∉ d.children := by
    intro hi
    obtain hi | hi := List.mem_append.mp hi
    · exact hapart _ (List.mem_append_left _ (List.mem_append_right _ hi)) _ hmem rfl
    · exact hapart _ (List.mem_append_right _ hi) _ hmem rfl
  rw [hc.getElem? (Ne.symm (hown _ List.mem_cons_self))
    fun hbar => hown _ (List.mem_cons_of_mem _ hbar) rfl]
  simp only [hchild, if_false, Option.map_id']

theorem Change.mouse_lt (hc : Change setVideoMode mem s s' width height g g' d) :
    ∃ d', s'.activeInstance = some d' ∧ d'.mouseX < g'.width ∧ d'.mouseY < g'.height := by
  have hold := g.lt
  have hpos := g'.pos
  obtain ⟨hx, hy⟩ := hc.mouse
  rw [UInt32.lt_iff_toNat_lt] at hx hy
  refine ⟨_, hc.relayout.1, ?_⟩
  rw [onResolutionChanged, if_neg (by simp [g'.ne_zero]), if_neg hc.resized]
  exact ⟨UInt32.lt_iff_toNat_lt.mpr (clampMouse_lt (by omega) hpos.1),
    UInt32.lt_iff_toNat_lt.mpr (clampMouse_lt (by omega) hpos.2)⟩

theorem Change.relaid (hc : Change setVideoMode mem s s' width height g g' d) :
    Relaid mem g'.width.toInt32 (g'.height.toInt32 - taskbarHeight) d s.widgets s'.widgets ↔
      KeepsButtons mem g'.width.toInt32 (g'.height.toInt32 - taskbarHeight) d s.widgets := by
  have hnew := g'.lt
  have hpos := g'.pos
  have hw : g'.width.toInt32.toInt = g'.width.toNat := toInt_toInt32 (by omega)
  have hh : g'.height.toInt32.toInt = g'.height.toNat := toInt_toInt32 (by omega)
  have h44 : taskbarHeight.toInt = 44 := by decide
  have hhigher := hc.higher
  have husable : (g'.height.toInt32 - taskbarHeight).toInt = g'.height.toNat - 44 := by
    rw [toInt_sub_eq (by omega) (by omega), hh, h44]
  refine forall_congr' fun win => forall_congr' fun hwin => forall_congr' fun v =>
    forall_congr' fun c => forall_congr' fun hv => forall_congr' fun hbtn =>
      forall_congr' fun hr => ?_
  have hinside := fit_inside_iff (by omega) (by omega) hr
  obtain ⟨hfitW, hfitH⟩ := fit_extent hr
  rw [hc.frame hwin, hc.closeButton hwin, hv, hbtn]
  simp only [Option.map_some, Option.some.injEq, exists_and_left, exists_eq_left', hinside]
  refine and_congr_right fun _ => ?_
  rw [Inside, hfitW, hfitH]

end Windows

/-! ## From 1024 by 768 to 800 by 600 -/

def xga : Geometry := ⟨1024, 768, by decide, by decide⟩

def svga : Geometry := ⟨800, 600, by decide, by decide⟩

/-- A widget with its cache. -/
def drawn (parent : Option Nat) (x y w h : Int32) : Widget where
  parent := parent
  x := x
  y := y
  minWidth := 0
  minHeight := 0
  padding := ⟨0, 0, 0, 0⟩
  sizeMode := .fixed
  text := none
  kind := .plain
  w := w
  h := h
  cache := some (area w h).toNat
  made := (w, h)

def desk : Desktop where
  self := 0
  taskbar := some { self := 1, clockLabel := none, startMenu := none, tabs := [] }
  contextMenu := none
  windows := [{ frame := 2, closeButton := 3 }]
  mouseX := 1010
  mouseY := 384
  distinct := by decide

/-- The desktop with a window whose close button is where the constructor puts it. -/
def oneWindow (x y w h : Int32) : System where
  graphicsDriver := some xga
  stopGuiRendering := false
  activeInstance := some desk
  widgets := [drawn none 0 0 1024 768, drawn (some 0) 0 724 1024 44, drawn (some 0) x y w h,
    drawn (some 2) (w - 22) 4 20 20]

theorem oneWindow_change (x y w h : Int32) :
    Change (fun _ _ => some svga) (fun _ => (true, true)) (oneWindow x y w h)
      (applyDisplayMode (fun _ _ => some svga) (fun _ => (true, true))
        (oneWindow x y w h) 800 600).2
      800 600 xga svga desk where
  applied := rfl
  before := rfl
  after := rfl
  changed := by decide
  higher := by decide
  active := rfl
  sized := rfl
  mouse := by decide

end Sizing
end Hashx86
