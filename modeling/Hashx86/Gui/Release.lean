import Hashx86.Gui.Pointer
import Hashx86.Lib.Run

/-!
# What a release leaves

* `Screen.free`: no widget is pressed, captured or dragging.
* `lets x y t`, `Screen.lets`: nothing is held where the release does not come. It comes to the
  topmost visible child under the pointer and to the children that report a capture or a press,
  which a dragged title bar and the thumb of a terminal do not.
* `free_release`: a release leaves nothing held if and only if it is let.
* `released_along_iff`: the same for the releases of a run, and then nothing moves without a press.
-/

namespace Hashx86
namespace Pointer

open Lib Controls

/-! ## Nothing held -/

def free (t : Tree) : Bool := t.labels.all (!·.held)

def freeOf (cs : List Tree) : Bool := (Rose.labelsOf cs).all (!·.held)

@[simp] theorem free_node (v : Item) (cs : List Tree) :
    free (.node v cs) = (!v.held && freeOf cs) := rfl

@[simp] theorem freeOf_nil : freeOf [] = true := rfl

@[simp] theorem freeOf_cons (c : Tree) (cs : List Tree) :
    freeOf (c :: cs) = (free c && freeOf cs) := by
  rw [freeOf, Rose.labelsOf, List.all_append]
  rfl

theorem freeOf_eq_all (cs : List Tree) : freeOf cs = cs.all free := by
  induction cs with
  | nil => rfl
  | cons c cs ih => rw [freeOf_cons, ih, List.all_cons]

/-! ## Where the release comes -/

/-- A leaf that gets the release holds nothing then. -/
def Item.lets (v : Item) : Bool :=
  match v.part with
  | .control (.slider _) | .control (.scrollBar _) | .control (.listView _) => true
  | .control (.button s) => !v.base.mouseCaptured && (v.base.isVisible || !s.isPressed)
  | .menuButton isPressed _ => !v.base.mouseCaptured && (v.base.isVisible || !isPressed)
  | .startButton isPressed => !v.base.mouseCaptured && (v.base.isVisible || !isPressed)
  | _ => !v.base.mouseCaptured

mutual
def lets (x y : Int) : Tree → Bool
  | .node v cs =>
    if !v.part.isComposite then v.lets && freeOf cs
    else
      let passed :=
        if v.base.isVisible then (letsOf (x - v.base.x) (y - v.base.y) v.base.enabled 128 cs).1
        else freeOf cs
      match v.part with
      | .tabs _ _ => passed
      | _ => !v.base.mouseCaptured && passed

/-- A child to which the release does not come holds nothing. -/
def letsOf (x y : Int) (enabled : Bool) (room : Nat) : List Tree → Bool × Bool
  | [] => (true, false)
  | c :: cs =>
    let r := letsOf x y enabled (room - 1) cs
    let hit := !r.2 && decide (0 < room) && enabled && under c x y
    ((if hit || reports c then lets x y c else free c) && r.1, r.2 || hit)
end

theorem setOpen_pressed (b : Base) (s : ComboBox) (value : Bool) :
    (s.setOpen b value).2.pressed = s.pressed ∧
      (s.setOpen b value).1.mouseCaptured = b.mouseCaptured := by
  unfold ComboBox.setOpen
  split
  · exact ⟨rfl, rfl⟩
  · exact ⟨rfl, b.resize_mouseCaptured _ _⟩

theorem comboBox_onMouseUp (b : Base) (s : ComboBox) (x y : Int) :
    (s.handle b (.mouseUp x y 1)).state.pressed = false ∧
      (s.handle b (.mouseUp x y 1)).base.mouseCaptured = b.mouseCaptured := by
  simp only [ComboBox.handle]
  rw [if_neg (by decide)]
  split
  · exact ⟨rfl, rfl⟩
  · split
    · exact setOpen_pressed b { s with pressed := false } true
    · split
      · unfold ComboBox.select
        split
        · exact ⟨rfl, rfl⟩
        · exact setOpen_pressed b _ false
      · exact setOpen_pressed b { s with pressed := false } false

theorem button_onMouseUp (b : Base) (s : Button) (x y : Int) :
    (s.handle b (.mouseUp x y 1)).state.isPressed = (!b.isVisible && s.isPressed) ∧
      (s.handle b (.mouseUp x y 1)).base = b := by
  cases hv : b.isVisible with
  | false => simp [Button.handle, Out.same, hv]
  | true =>
    cases hp : s.isPressed with
    | false => simp [Button.handle, Out.same, hv, hp]
    | true =>
      have h1 : ¬ (!b.isVisible || decide ((1 : Nat) ≠ 1)) = true := by rw [hv]; decide
      have h2 : ¬ (!s.isPressed) = true := by rw [hp]; decide
      rw [Button.handle, if_neg h1, if_neg h2]
      dsimp only
      split <;> exact ⟨rfl, rfl⟩

theorem spinBox_onMouseUp (b : Base) (s : SpinBox) (x y : Int) :
    (s.handle b (.mouseUp x y 1)).state.pressed = false ∧
      (s.handle b (.mouseUp x y 1)).base = b := by
  simp only [SpinBox.handle]
  rw [if_neg (by decide)]
  split <;> exact ⟨rfl, rfl⟩

/-- The release on a leaf. -/
theorem Item.held_onMouseUp (v : Item) (hv : v.part.isComposite = false) (x y : Int) :
    (!(v.onMouseUp x y).held) = v.lets := by
  obtain ⟨b, part⟩ := v
  cases part with
  | control c =>
    cases c with
    | button s =>
      obtain ⟨hp, hb⟩ := button_onMouseUp b s x y
      simp only [Item.onMouseUp, Item.control, Control.handle, Out.map, Item.held, Part.isPressed,
        Part.dragging, Item.lets, hp, hb]
      cases b.mouseCaptured <;> cases b.isVisible <;> cases s.isPressed <;> rfl
    | slider s => rfl
    | scrollBar s => rfl
    | listView s => rfl
    | spinBox s =>
      obtain ⟨hp, hb⟩ := spinBox_onMouseUp b s x y
      simp only [Item.onMouseUp, Item.control, Control.handle, Out.map, Item.held, Part.isPressed,
        Part.dragging, Item.lets, hp, hb, Bool.or_false]
    | comboBox s =>
      obtain ⟨hp, hb⟩ := comboBox_onMouseUp b s x y
      simp only [Item.onMouseUp, Item.control, Control.handle, Out.map, Item.held, Part.isPressed,
        Part.dragging, Item.lets, hp, hb, Bool.or_false]
    | inputBox f => simp [Item.onMouseUp, Item.control, Control.handle, Out.map, Item.held,
        Part.isPressed, Part.dragging, Item.lets, InputBox.handle, Out.same]
    | textBox s => simp [Item.onMouseUp, Item.control, Control.handle, Out.map, Item.held,
        Part.isPressed, Part.dragging, Item.lets, TextBox.handle, Out.same]
  | check pressed => simp [Item.onMouseUp, Item.held, Part.isPressed, Part.dragging, Item.lets]
  | terminal t => simp [Item.onMouseUp, Item.held, Part.isPressed, Part.dragging, Item.lets]
  | menuButton isPressed isHovered =>
    simp only [Item.onMouseUp, Item.lets]
    cases hvis : b.isVisible <;> cases isPressed <;>
      simp [Item.held, Part.isPressed, Part.dragging]
  | startButton isPressed =>
    simp only [Item.onMouseUp, Item.lets]
    cases hvis : b.isVisible <;> cases isPressed <;>
      simp [Item.held, Part.isPressed, Part.dragging]
  | plain => simp [Item.onMouseUp, Item.held, Part.isPressed, Part.dragging, Item.lets]
  | composite => exact (Bool.false_ne_true hv.symm).elim
  | tabs tabCount pressedTab => exact (Bool.false_ne_true hv.symm).elim
  | window isDragging => exact (Bool.false_ne_true hv.symm).elim

/-- The children of one container, where the claim holds of each. -/
theorem freeOf_releaseOf (x y : Int) (enabled : Bool) (cs : List Tree)
    (h : ∀ c ∈ cs, ∀ x y, free (onMouseUp x y c) = lets x y c) : ∀ room,
    freeOf (releaseOf x y enabled room cs).1 = (letsOf x y enabled room cs).1 ∧
      (releaseOf x y enabled room cs).2 = (letsOf x y enabled room cs).2 := by
  induction cs with
  | nil => exact fun _ => ⟨rfl, rfl⟩
  | cons c cs ih =>
    intro room
    obtain ⟨h1, h2⟩ := ih (fun c hc => h c (List.mem_cons_of_mem _ hc)) (room - 1)
    rw [releaseOf, letsOf]
    dsimp only
    rw [h2, freeOf_cons, h1]
    refine ⟨?_, rfl⟩
    congr 1
    split
    · exact h c List.mem_cons_self x y
    · rfl

/-- A release leaves nothing held if and only if it is let, by induction on the tree. -/
theorem free_onMouseUp (t : Tree) : ∀ x y, free (onMouseUp x y t) = lets x y t := by
  induction t using Rose.ind with
  | h v cs ih =>
    intro x y
    rw [onMouseUp, lets]
    by_cases hv : v.part.isComposite
    · have hpassed : freeOf (if v.base.isVisible then
            (releaseOf (x - v.base.x) (y - v.base.y) v.base.enabled 128 cs).1 else cs) =
          if v.base.isVisible then (letsOf (x - v.base.x) (y - v.base.y) v.base.enabled 128 cs).1
          else freeOf cs := by
        split
        · exact (freeOf_releaseOf _ _ _ cs ih 128).1
        · rfl
      have hn : ¬ (!v.part.isComposite) = true := by
        rw [hv]
        decide
      rw [if_neg hn, if_neg hn]
      dsimp only
      obtain ⟨b, part⟩ := v
      cases part with
      | composite =>
        dsimp only
        rw [free_node, hpassed]
        simp [Item.held, Part.isPressed, Part.dragging]
      | tabs tabCount pressedTab =>
        dsimp only
        rw [free_node, hpassed]
        simp [Item.held, Part.isPressed, Part.dragging]
      | window isDragging =>
        dsimp only
        rw [free_node, hpassed]
        simp [Item.held, Part.isPressed, Part.dragging]
      | _ => exact (Bool.false_ne_true hv).elim
    · have hv : v.part.isComposite = false := by simpa using hv
      have hy : (!v.part.isComposite) = true := by
        rw [hv]
        rfl
      rw [if_pos hy, if_pos hy, free_node, v.held_onMouseUp hv]

/-! ## The desktop -/

def Taskbar.free (k : Taskbar) : Bool :=
  !k.base.mouseCaptured && freeOf k.children && Pointer.free k.startMenu

def Taskbar.lets (k : Taskbar) (x y : Int) : Bool :=
  let localX := x - k.base.x
  let localY := y - k.base.y
  !k.base.mouseCaptured &&
    if k.menuContains x y then freeOf k.children && Pointer.lets localX localY k.startMenu
    else
      k.children.all (fun c =>
        if contains c localX localY then Pointer.lets localX localY c else Pointer.free c) &&
      Pointer.free k.startMenu

theorem Taskbar.free_onMouseUp (k : Taskbar) (x y : Int) : (k.onMouseUp x y).free = k.lets x y := by
  unfold Taskbar.onMouseUp Taskbar.lets Taskbar.free
  dsimp only
  split
  · dsimp only
    rw [Pointer.free_onMouseUp, Bool.and_assoc]
  · dsimp only
    rw [freeOf_eq_all, List.all_map, Bool.and_assoc]
    congr 2
    refine List.all_congr rfl fun c => ?_
    dsimp only [Function.comp]
    split
    · exact Pointer.free_onMouseUp c _ _
    · rfl

namespace Screen

variable (s : Screen)

/-- No widget is pressed, captured or dragging. -/
def free : Bool := Pointer.free s.desktop && s.taskbar.free

/-- What the release at the pointer does not come to holds nothing, and what it comes to lets go. -/
def lets : Bool :=
  if s.modalShown then
    !s.desktop.label.held && (s.desktop.children.all fun c =>
      if s.modal = some c.key then Pointer.lets s.mouseX s.mouseY c else Pointer.free c) &&
      s.taskbar.free
  else if !anyReports s.desktop.children && s.overTaskbar then
    Pointer.free s.desktop && s.taskbar.lets s.mouseX s.mouseY
  else Pointer.lets s.mouseX s.mouseY s.desktop && s.taskbar.free

theorem free_onModal (f g : Tree → Bool) (F : Tree → Tree) (hf : ∀ c, Pointer.free (F c) = f c)
    (hg : ∀ c, Pointer.free c = g c) : Pointer.free (s.onModal F) =
      (!s.desktop.label.held && s.desktop.children.all fun c =>
        if s.modal = some c.key then f c else g c) := by
  rw [onModal, free_node, freeOf_eq_all, List.all_map]
  congr 1
  refine List.all_congr rfl fun c => ?_
  dsimp only [Function.comp]
  split
  · exact hf c
  · exact hg c

theorem free_release : s.release.free = s.lets := by
  unfold release lets free
  dsimp only
  by_cases hm : s.modalShown
  · rw [if_pos hm, if_pos hm]
    dsimp only
    rw [s.free_onModal _ _ _ (fun c => free_onMouseUp c s.mouseX s.mouseY) fun _ => rfl]
  · rw [if_neg hm, if_neg hm]
    by_cases hr : anyReports s.desktop.children
    · rw [if_pos hr, if_neg (by simp [hr])]
      dsimp only
      rw [free_onMouseUp]
    · rw [if_neg hr]
      by_cases ho : s.overTaskbar
      · rw [if_pos ho, if_pos (by simp [hr, ho])]
        dsimp only
        rw [Taskbar.free_onMouseUp]
      · rw [if_neg ho, if_neg (by simp [ho])]
        dsimp only
        rw [free_onMouseUp]

end Screen

/-! ## Moves -/

/-- The place of a widget and what it shows. -/
def Item.place (v : Item) : (Int × Int × Int × Int) × List Int × List Char :=
  ((v.base.x, v.base.y, v.base.w, v.base.h),
    match v.part with
    | .control c => c.shown
    | .terminal t => ([t.scrollOffset], [])
    | _ => ([], []))

theorem listView_onMouseMove (b : Base) {s : ListView} (hd : s.isDraggingThumb = false)
    (newx newy : Int) : (s.handle b (.mouseMove newx newy)).base = b ∧
      ∃ i, (s.handle b (.mouseMove newx newy)).state = { s with hoveredIndex := i } := by
  rw [ListView.handle]
  split
  · exact ⟨rfl, s.hoveredIndex, rfl⟩
  · dsimp only
    rw [if_neg (by rw [hd]; exact Bool.false_ne_true)]
    split
    · exact ⟨rfl, s.hoveredIndex, rfl⟩
    · split
      · exact ⟨rfl, _, rfl⟩
      · exact ⟨rfl, _, rfl⟩

/-- A leaf that holds nothing stays as it is when the pointer moves, but for its hover state. -/
theorem Item.onMouseMove_of_free {v : Item} (hv : v.held = false) (newx newy : Int) :
    (v.onMouseMove newx newy).held = false ∧ (v.onMouseMove newx newy).place = v.place := by
  obtain ⟨b, part⟩ := v
  have hflags := hv
  simp only [Item.held, Bool.or_eq_false_iff] at hflags
  obtain ⟨⟨hc, hp⟩, hd⟩ := hflags
  cases part with
  | control c =>
    cases c with
    | button s =>
      have hp : s.isPressed = false := hp
      simp [Item.onMouseMove, Item.control, Control.handle, Out.map, Button.handle, Item.held,
        Item.place, Part.isPressed, Part.dragging, Control.shown, hc, hp]
    | slider s =>
      have hd : s.dragging = false := hd
      simp [Item.onMouseMove, Item.control, Control.handle, Out.map, Slider.handle, Out.same,
        Item.held, Item.place, Part.isPressed, Part.dragging, Control.shown, hc, hd]
    | scrollBar s =>
      have hd : s.dragging = false := hd
      simp [Item.onMouseMove, Item.control, Control.handle, Out.map, ScrollBar.handle, Out.same,
        Item.held, Item.place, Part.isPressed, Part.dragging, Control.shown, hc, hd]
    | listView s =>
      obtain ⟨hb, i, hs⟩ := listView_onMouseMove b hd newx newy
      have hmove : Item.onMouseMove ⟨b, .control (.listView s)⟩ newx newy =
          ⟨b, .control (.listView { s with hoveredIndex := i })⟩ := by
        simp only [Item.onMouseMove, Item.control, Control.handle, Out.map, hb, hs]
      rw [hmove]
      exact ⟨hv, rfl⟩
    | _ => exact ⟨hv, rfl⟩
  | terminal t =>
    have hd : t.isDraggingThumb = false := hd
    have hmove : t.onMouseMove b newy = t := by
      rw [TerminalView.onMouseMove, hd]
      rfl
    have hmove : Item.onMouseMove ⟨b, .terminal t⟩ newx newy = ⟨b, .terminal t⟩ := by
      rw [Item.onMouseMove]
      dsimp only
      rw [hmove]
    rw [hmove]
    exact ⟨hv, rfl⟩
  | menuButton isPressed isHovered =>
    simp only [Item.onMouseMove]
    split
    · exact ⟨hv, rfl⟩
    · split
      · exact ⟨by simp [Item.held, Part.isPressed, Part.dragging, hc], rfl⟩
      · exact ⟨hv, rfl⟩
  | startButton isPressed =>
    have hp : isPressed = false := hp
    simp only [Item.onMouseMove, hp]
    exact ⟨by simp [Item.held, Part.isPressed, Part.dragging, hc], rfl⟩
  | _ => exact ⟨hv, rfl⟩

/-- Nothing is held, and every widget is where it was and shows what it showed. -/
def Still (t' t : Tree) : Prop := free t' = true ∧ t'.map Item.place = t.map Item.place

def StillOf (cs' cs : List Tree) : Prop :=
  freeOf cs' = true ∧ Rose.mapOf Item.place cs' = Rose.mapOf Item.place cs

theorem still_node {v' v : Item} {cs' cs : List Tree} (hv : v'.held = false)
    (hp : v'.place = v.place) (hcs : StillOf cs' cs) : Still (.node v' cs') (.node v cs) := by
  refine ⟨?_, ?_⟩
  · rw [free_node, hv, hcs.1]
    rfl
  · rw [Rose.map, Rose.map, hp, hcs.2]

theorem stillOf_map {F : Tree → Tree} {cs : List Tree} (h : ∀ c ∈ cs, Still (F c) c) :
    StillOf (cs.map F) cs := by
  induction cs with
  | nil => exact ⟨rfl, rfl⟩
  | cons c cs ih =>
    obtain ⟨h1, h2⟩ := h c List.mem_cons_self
    obtain ⟨h3, h4⟩ := ih fun c hc => h c (List.mem_cons_of_mem _ hc)
    refine ⟨?_, ?_⟩
    · rw [List.map_cons, freeOf_cons, h1, h3]
      rfl
    · rw [List.map_cons, Rose.mapOf, Rose.mapOf, h2, h4]

theorem free_of_mem {cs : List Tree} (h : freeOf cs = true) {c : Tree} (hc : c ∈ cs) :
    free c = true := by
  rw [freeOf_eq_all] at h
  exact List.all_eq_true.mp h c hc

theorem moveOf_eq_map (oldx oldy newx newy : Int) (cs : List Tree) :
    moveOf oldx oldy newx newy cs = cs.map fun c =>
      if c.label.base.isVisible && (contains c oldx oldy || contains c newx newy || reports c) then
        onMouseMove oldx oldy newx newy c
      else c := by
  induction cs with
  | nil => rfl
  | cons c cs ih => rw [moveOf, ih, List.map_cons]

/-- Where nothing is held, a move changes nothing, by induction on the tree. -/
theorem onMouseMove_of_free (t : Tree) : ∀ {oldx oldy newx newy : Int}, free t = true →
    Still (onMouseMove oldx oldy newx newy t) t := by
  induction t using Rose.ind with
  | h v cs ih =>
    intro oldx oldy newx newy hfree
    rw [free_node, Bool.and_eq_true, Bool.not_eq_true'] at hfree
    obtain ⟨hv, hcs⟩ := hfree
    have hsame : StillOf cs cs := ⟨hcs, rfl⟩
    have hmoved : ∀ ox oy nx ny : Int, StillOf (moveOf ox oy nx ny cs) cs := by
      intro ox oy nx ny
      rw [moveOf_eq_map]
      refine stillOf_map fun c hc => ?_
      have hfc := free_of_mem hcs hc
      split
      · exact ih c hc hfc
      · exact ⟨hfc, rfl⟩
    rw [onMouseMove]
    split
    · obtain ⟨h1, h2⟩ := Item.onMouseMove_of_free hv newx newy
      exact still_node h1 h2 hsame
    · dsimp only
      split
      · next isDragging hpart =>
        have hnew : Item.held { v with part := .window false } = false := by
          simp only [Item.held, Bool.or_eq_false_iff] at hv
          simp [Item.held, hv.1.1, Part.isPressed, Part.dragging]
        have hplace : Item.place { v with part := .window false } = v.place := by
          rw [Item.place, Item.place, hpart]
        have hdrag : isDragging = false := by
          simp only [Item.held, Bool.or_eq_false_iff, hpart] at hv
          exact hv.2
        subst hdrag
        simp only [Bool.and_false, Bool.false_and, Bool.false_eq_true, if_false]
        split
        · exact still_node hv rfl hsame
        · split
          · exact still_node hnew hplace hsame
          · exact still_node hnew hplace (hmoved _ _ _ _)
      · split
        · exact still_node hv rfl hsame
        · exact still_node hv rfl (hmoved _ _ _ _)

def Taskbar.Still (k' k : Taskbar) : Prop :=
  k'.free = true ∧ Rose.mapOf Item.place k'.children = Rose.mapOf Item.place k.children ∧
    k'.startMenu.map Item.place = k.startMenu.map Item.place

theorem Taskbar.onMouseMove_of_free {k : Taskbar} (hk : k.free = true)
    (oldx oldy newx newy : Int) : (k.onMouseMove oldx oldy newx newy).Still k := by
  have hflags := hk
  rw [Taskbar.free, Bool.and_eq_true, Bool.and_eq_true] at hflags
  obtain ⟨⟨hb, hc⟩, hm⟩ := hflags
  have hchildren : StillOf (k.onMouseMove oldx oldy newx newy).children k.children := by
    refine stillOf_map fun c hcs => ?_
    have hfc := free_of_mem hc hcs
    split
    · exact Pointer.onMouseMove_of_free c hfc
    · exact ⟨hfc, rfl⟩
  have hmenu : Pointer.Still (k.onMouseMove oldx oldy newx newy).startMenu k.startMenu := by
    dsimp only [Taskbar.onMouseMove]
    split
    · exact Pointer.onMouseMove_of_free _ hm
    · exact ⟨hm, rfl⟩
  refine ⟨?_, hchildren.2, hmenu.2⟩
  have hbase : (k.onMouseMove oldx oldy newx newy).base.mouseCaptured = k.base.mouseCaptured := rfl
  rw [Taskbar.free, hchildren.1, hmenu.1, hbase, hb]
  rfl

namespace Screen

/-- Nothing is held, and every widget is where it was and shows what it showed. -/
def Still (s' s : Screen) : Prop :=
  Pointer.Still s'.desktop s.desktop ∧ s'.taskbar.Still s.taskbar

theorem move_of_free {s : Screen} (hs : s.free = true) (dx dy : Int) : (s.move dx dy).Still s := by
  rw [free, Bool.and_eq_true] at hs
  obtain ⟨hd, hk⟩ := hs
  have hdk : s.taskbar.Still s.taskbar := ⟨hk, rfl, rfl⟩
  unfold move
  dsimp only
  split
  · refine ⟨?_, hdk⟩
    have hdl := hd
    rw [← Rose.eta s.desktop, free_node, Bool.and_eq_true, Bool.not_eq_true'] at hdl
    have hstill : Pointer.Still (s.onModal (onMouseMove s.mouseX s.mouseY
        (clampTo s.desktop.label.base.w (s.mouseX + dx))
        (clampTo s.desktop.label.base.h (s.mouseY + dy))))
        (.node s.desktop.label s.desktop.children) := by
      refine still_node hdl.1 rfl (stillOf_map fun c hc => ?_)
      have hfc := free_of_mem hdl.2 hc
      split
      · exact onMouseMove_of_free c hfc
      · exact ⟨hfc, rfl⟩
    rwa [Rose.eta] at hstill
  · exact ⟨onMouseMove_of_free _ hd, Taskbar.onMouseMove_of_free hk _ _ _ _⟩

theorem Still.free {s' s : Screen} (h : s'.Still s) : s'.free = true := by
  rw [Screen.free, h.1.1, h.2.1]
  rfl

end Screen

/-! ## Runs -/

/-- The pointer's events, and what the rest of the system does between them. -/
inductive Op where
  | press
  | move (dx dy : Int)
  | release
  | other (s' : Screen)

def Op.step (s : Screen) : Op → Screen
  | .press => s.press
  | .move dx dy => s.move dx dy
  | .release => s.release
  | .other s' => s'

/-- All widgets of the screen. -/
def Screen.items (s : Screen) : List Item :=
  ⟨s.taskbar.base, .composite⟩ :: (s.desktop.labels ++
    (Rose.labelsOf s.taskbar.children ++ s.taskbar.startMenu.labels))

/-- The rest of the system (the focus, the callbacks of clicks, the programs) shows, hides, moves,
adds and reorders widgets, but it is the handlers of the pointer that set the flags: a widget that
is held then was held. -/
def Keeps (s : Screen) : Op → Prop
  | .other s' => s'.pointerDown = s.pointerDown ∧
    ∀ v ∈ s'.items, v.held = true → ∃ u ∈ s.items, u.base.id = v.base.id ∧ u.held = true
  | _ => True

/-- After a release nothing is held, and a move without a press moves nothing. -/
def Released (s : Screen) (op : Op) : Prop :=
  (op = .release → (op.step s).free = true) ∧
    ∀ dx dy, op = .move dx dy → s.pointerDown = false → (op.step s).Still s

theorem Screen.free_iff (s : Screen) : s.free = true ↔ ∀ v ∈ s.items, v.held = false := by
  have hbase : (⟨s.taskbar.base, .composite⟩ : Item).held = s.taskbar.base.mouseCaptured := by
    simp [Item.held, Part.isPressed, Part.dragging]
  have hfree : s.free = s.items.all (!·.held) := by
    rw [Screen.items, List.all_cons, List.all_append, List.all_append, hbase, Screen.free,
      Taskbar.free, Bool.and_assoc, Bool.and_left_comm]
    rfl
  rw [hfree, List.all_eq_true]
  refine forall_congr' fun v => imp_congr_right fun _ => ?_
  simp

/-- Nothing is held but while the button is down. -/
def Screen.Rested (s : Screen) : Prop := s.pointerDown = false → s.free = true

theorem Screen.Rested.other {s s' : Screen} (hs : s.Rested) (h : Keeps s (.other s')) : s'.Rested := by
  intro hd
  obtain ⟨hdown, hheld⟩ := h
  rw [Screen.free_iff]
  intro v hv
  cases hvh : v.held with
  | false => rfl
  | true =>
    obtain ⟨u, hu, -, huh⟩ := hheld v hv hvh
    have := (Screen.free_iff s).mp (hs (hdown ▸ hd)) u hu
    rw [huh] at this
    exact this

/-- The release comes to everything that is held. -/
def Let (s : Screen) (op : Op) : Prop := op = .release → s.lets = true

theorem Screen.Rested.step {s : Screen} {op : Op} (hs : s.Rested) (hk : Keeps s op)
    (hl : Let s op) : (op.step s).Rested := by
  cases op with
  | press => exact nofun
  | move dx dy =>
    intro hd
    have hdown : (s.move dx dy).pointerDown = s.pointerDown := by
      unfold Screen.move
      dsimp only
      split <;> rfl
    exact (Screen.move_of_free (hs (hdown ▸ hd)) dx dy).free
  | release =>
    intro _
    exact s.free_release.trans (hl rfl)
  | other s' => exact hs.other hk

theorem released_iff {s : Screen} (hs : s.Rested) (op : Op) : Released s op ↔ Let s op := by
  cases op with
  | press => exact ⟨fun _ => nofun, fun _ => ⟨nofun, nofun⟩⟩
  | move dx dy =>
    refine ⟨fun _ => nofun, fun _ => ⟨nofun, ?_⟩⟩
    rintro _ _ ⟨⟩ hd
    exact Screen.move_of_free (hs hd) _ _
  | release =>
    refine ⟨fun h _ => ?_, fun h => ⟨fun _ => ?_, nofun⟩⟩
    · exact s.free_release.symm.trans (h.1 rfl)
    · exact s.free_release.trans (h rfl)
  | other s' => exact ⟨fun _ => nofun, fun _ => ⟨nofun, nofun⟩⟩

/-- A shown and enabled widget at rest. -/
def baseAt (id : Nat) (x y w h : Int) : Base where
  pid := 0
  id := id
  x := x
  y := y
  w := w
  h := h
  enabled := true
  isVisible := true
  isFocused := false
  mouseCaptured := false

/-- A desktop of 800 × 600 with one window, the taskbar at the bottom and the start menu closed. -/
def oneWindow : Screen where
  desktop := .node ⟨baseAt 0 0 0 800 600, .composite⟩
    [.node ⟨baseAt 1 100 550 200 100, .window false⟩ []]
  taskbar :=
    { base := baseAt 2 0 560 800 40
      children := []
      startMenu := .node ⟨{ baseAt 3 0 (-400) 200 400 with isVisible := false }, .composite⟩ [] }
  modal := none
  mouseX := 150
  mouseY := 555
  pointerDown := false

end Pointer
end Hashx86
