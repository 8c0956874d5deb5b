import Hashx86.Gui.Sizing
import Hashx86.Lib.Run

/-!
# The combo box (`gui/combobox.cpp`)

What is drawn and posted is left out. `Widget::Resize` is not virtual: the class does not see a
`Resize` from outside. `mem` is the answer of the allocator.

* `ComboBox`, `step`: the box, and an operation or an input on it.
* `act`, `step_act`: an event leaves the list as it is, opens it, closes it or makes it longer.
* `Good`: the selection is one of the items, the height is the one that the box was given, with that
  of the list while it is open, and a click on a row selects it.
* `good_along`: along which runs the box is good.
-/

namespace Hashx86
namespace DropDown

open Lib Sizing

def maxItems : Nat := 16

def itemHeight : Int32 := 22

structure ComboBox where
  base : Widget
  enabled : Bool
  isVisible : Bool
  items : List (List UInt8)
  room : items.length ≤ maxItems
  selected : Int32
  isOpen : Bool
  pressed : Bool
  closedHeight : Int32

namespace ComboBox

/-- `ComboBox::ComboBox`, on the widget that `Widget::Widget` has made with the same height. -/
def new (base : Widget) : ComboBox :=
  { base, enabled := true, isVisible := true, items := [], room := Nat.zero_le _, selected := -1,
    isOpen := false, pressed := false, closedHeight := base.h }

def count (s : ComboBox) : Int32 := .ofNat s.items.length

/-- The box asks for the height `newH`; it keeps its height where `Resize` refuses. -/
def resizeTo (mem : Bool) (newH : Int32) (s : ComboBox) : ComboBox :=
  { s with base := (s.base.resize mem s.base.w newH).2 }

/-- `closedHeight + count * ITEM_HEIGHT` -/
def openHeight (s : ComboBox) : Int32 := s.closedHeight + s.count * itemHeight

/-- One item more, and the first one is selected where none was. -/
def append (s : ComboBox) (label : List UInt8) (h : s.items.length < maxItems) : ComboBox :=
  { s with
    items := s.items ++ [label.take 47]
    room := by
      rw [List.length_append]
      exact h
    selected := if s.selected < 0 then 0 else s.selected }

def addItem (mem : Bool) (label : Option (List UInt8)) (s : ComboBox) : Bool × ComboBox :=
  match label with
  | none => (false, s)
  | some label =>
    if h : s.items.length < maxItems then
      let s := s.append label h
      (true, if s.isOpen then s.resizeTo mem s.openHeight else s)
    else (false, s)

def setOpen (mem value : Bool) (s : ComboBox) : ComboBox :=
  if s.isOpen = value then s
  else { s with isOpen := value }.resizeTo mem (if value then s.openHeight else s.closedHeight)

def clear (mem : Bool) (s : ComboBox) : ComboBox :=
  { s with items := [], room := Nat.zero_le _, selected := -1 }.setOpen mem false

def select (mem : Bool) (index : Int32) (s : ComboBox) : ComboBox :=
  if index < 0 ∨ s.count ≤ index then s else { s with selected := index }.setOpen mem false

def setSelected (index : Int32) (s : ComboBox) : ComboBox :=
  if index < -1 ∨ s.count ≤ index then s else { s with selected := index }

def containsCoordinate (s : ComboBox) (x y : Int32) : Bool :=
  s.base.x ≤ x && x < s.base.x + s.base.w && s.base.y ≤ y && y < s.base.y + s.base.h

def onMouseDown (x y : Int32) (button : UInt8) (s : ComboBox) : ComboBox :=
  if !s.enabled || !s.isVisible || button ≠ 1 then s
  else if !s.containsCoordinate x y then s
  else { s with pressed := true }

def onMouseUp (mem : Bool) (x y : Int32) (button : UInt8) (s : ComboBox) : ComboBox :=
  if button ≠ 1 then s
  else
    let wasPressed := s.pressed
    let s := { s with pressed := false }
    if !s.enabled || !s.isVisible || !wasPressed then s
    else if !s.containsCoordinate x y then s
    else
      let localY := y - s.base.y
      if !s.isOpen then s.setOpen mem true
      else if s.closedHeight ≤ localY then s.select mem ((localY - s.closedHeight) / itemHeight)
      else s.setOpen mem false

def onFocusLost (mem : Bool) (s : ComboBox) : ComboBox :=
  if s.isOpen then s.setOpen mem false else s

end ComboBox

inductive Event
  | addItem (label : Option (List UInt8))
  | clear
  | setSelected (index : Int32)
  | setOpen (value : Bool)
  | mouseDown (x y : Int32) (button : UInt8)
  | mouseUp (x y : Int32) (button : UInt8)
  | focusLost
  /-- From outside. -/
  | resize (newW newH : Int32)
  | move (x y : Int32)

namespace ComboBox

def step (mem : Bool) (s : ComboBox) : Event → ComboBox
  | .addItem label => (s.addItem mem label).2
  | .clear => s.clear mem
  | .setSelected index => s.setSelected index
  | .setOpen value => s.setOpen mem value
  | .mouseDown x y button => s.onMouseDown x y button
  | .mouseUp x y button => s.onMouseUp mem x y button
  | .focusLost => s.onFocusLost mem
  | .resize newW newH => { s with base := (s.base.resize mem newW newH).2 }
  | .move x y => { s with base := { s.base with x := x, y := y } }

/-! ## What an event does to the list -/

/-- The list is left as it is, also by a `Resize` from outside, opened, closed, or made longer while it
is open. -/
inductive Act
  | stay
  | outside (newW newH : Int32)
  | unfold
  | fold
  | grow
  deriving DecidableEq

/-- `OnMouseUp` acts on a press of the box. -/
def takes (s : ComboBox) (x y : Int32) (button : UInt8) : Bool :=
  button = 1 && s.enabled && s.isVisible && s.pressed && s.containsCoordinate x y

/-- The row of the list at `y`. -/
def rowAt (s : ComboBox) (y : Int32) : Int32 := (y - s.base.y - s.closedHeight) / itemHeight

def act (s : ComboBox) : Event → Act
  | .addItem label =>
    if s.isOpen ∧ label.isSome ∧ s.items.length < maxItems then .grow else .stay
  | .clear => if s.isOpen then .fold else .stay
  | .setOpen value => if s.isOpen = value then .stay else if value then .unfold else .fold
  | .focusLost => if s.isOpen then .fold else .stay
  | .mouseUp x y button =>
    if !s.takes x y button then .stay
    else if !s.isOpen then .unfold
    else if s.closedHeight ≤ y - s.base.y ∧ (s.rowAt y < 0 ∨ s.count ≤ s.rowAt y) then .stay
    else .fold
  | .resize newW newH => .outside newW newH
  | .setSelected _ => .stay
  | .mouseDown _ _ _ => .stay
  | .move _ _ => .stay

section Act

variable {mem value : Bool} {s : ComboBox} {e : Event} {x y : Int32} {button : UInt8}

theorem setOpen_same (h : s.isOpen = value) : s.setOpen mem value = s := if_pos h

theorem setOpen_base (h : s.isOpen ≠ value) :
    (s.setOpen mem value).base =
      (s.base.resize mem s.base.w (if value then s.openHeight else s.closedHeight)).2 := by
  rw [setOpen, if_neg h]
  rfl

@[simp] theorem setOpen_isOpen (mem value : Bool) (s : ComboBox) :
    (s.setOpen mem value).isOpen = value := by
  unfold setOpen
  split
  · assumption
  · rfl

@[simp] theorem setOpen_items (mem value : Bool) (s : ComboBox) :
    (s.setOpen mem value).items = s.items := by
  unfold setOpen
  split <;> rfl

@[simp] theorem setOpen_selected (mem value : Bool) (s : ComboBox) :
    (s.setOpen mem value).selected = s.selected := by
  unfold setOpen
  split <;> rfl

@[simp] theorem setOpen_closedHeight (mem value : Bool) (s : ComboBox) :
    (s.setOpen mem value).closedHeight = s.closedHeight := by
  unfold setOpen
  split <;> rfl

/-- The press is over. -/
def released (s : ComboBox) : ComboBox := { s with pressed := false }

theorem onMouseUp_of_takes (h : s.takes x y button = true) :
    s.onMouseUp mem x y button =
      if !s.isOpen then s.released.setOpen mem true
      else if s.closedHeight ≤ y - s.base.y then s.released.select mem (s.rowAt y)
      else s.released.setOpen mem false := by
  simp only [takes, Bool.and_eq_true, decide_eq_true_eq] at h
  obtain ⟨⟨⟨⟨hbutton, henabled⟩, hvisible⟩, hpressed⟩, hin⟩ := h
  have hin' : ComboBox.containsCoordinate { s with pressed := false } x y = true := hin
  rw [onMouseUp, if_neg (not_not.mpr hbutton)]
  dsimp only
  rw [if_neg (by rw [henabled, hvisible, hpressed]; decide), if_neg (by rw [hin']; decide)]
  rfl

theorem onMouseUp_of_not_takes (h : s.takes x y button = false) :
    s.onMouseUp mem x y button = s ∨ s.onMouseUp mem x y button = s.released := by
  unfold onMouseUp
  by_cases hbutton : button = 1
  · right
    rw [if_neg (not_not.mpr hbutton)]
    dsimp only
    split
    · rfl
    · next hon =>
      have hin : s.containsCoordinate x y = false := by
        simp only [takes, hbutton] at h
        simp_all
      have hin' : ComboBox.containsCoordinate { s with pressed := false } x y = false := hin
      rw [hin']
      rfl
  · exact .inl (if_pos hbutton)

theorem step_closedHeight (mem : Bool) (s : ComboBox) (e : Event) :
    (s.step mem e).closedHeight = s.closedHeight := by
  cases e with
  | addItem label =>
    simp only [step, addItem]
    split
    · rfl
    · split
      · dsimp only
        split <;> rfl
      · rfl
  | clear => exact setOpen_closedHeight ..
  | setSelected index =>
    simp only [step, setSelected]
    split <;> rfl
  | setOpen value => exact setOpen_closedHeight ..
  | mouseDown x y button =>
    simp only [step, onMouseDown]
    split
    · rfl
    · split <;> rfl
  | mouseUp x y button =>
    rw [step]
    cases htakes : s.takes x y button with
    | true =>
      rw [onMouseUp_of_takes htakes, select]
      split
      · exact setOpen_closedHeight ..
      · split
        · split
          · rfl
          · exact setOpen_closedHeight ..
        · exact setOpen_closedHeight ..
    | false =>
      obtain h | h := @onMouseUp_of_not_takes mem _ _ _ _ htakes
      · rw [h]
      · rw [h]
        rfl
  | focusLost =>
    simp only [step, onFocusLost]
    split
    · exact setOpen_closedHeight ..
    · rfl
  | resize newW newH => rfl
  | move x y => rfl

/-- `closedHeight + count * ITEM_HEIGHT` with one item more. -/
def growHeight (s : ComboBox) : Int32 := s.closedHeight + .ofNat (s.items.length + 1) * itemHeight

/-- What the acts do to the list and to the size. -/
def Does (mem : Bool) (s s' : ComboBox) : Act → Prop
  | .stay =>
    s'.isOpen = s.isOpen ∧ (s.isOpen = true → s'.items = s.items) ∧ s'.base.h = s.base.h
  | .outside newW newH =>
    s'.isOpen = s.isOpen ∧ s'.items = s.items ∧ s'.base = (s.base.resize mem newW newH).2
  | .unfold =>
    s.isOpen = false ∧ s'.isOpen = true ∧ s'.items = s.items ∧
      s'.base = (s.base.resize mem s.base.w s.openHeight).2
  | .fold =>
    s.isOpen = true ∧ s'.isOpen = false ∧ s'.base = (s.base.resize mem s.base.w s.closedHeight).2
  | .grow =>
    s.isOpen = true ∧ s'.isOpen = true ∧ s'.items.length = s.items.length + 1 ∧
      s'.base = (s.base.resize mem s.base.w s.growHeight).2

theorem does_refl (mem : Bool) (s : ComboBox) : Does mem s s .stay := ⟨rfl, fun _ => rfl, rfl⟩

theorem does_fold (h : s.isOpen = true) : Does mem s (s.setOpen mem false) .fold :=
  ⟨h, setOpen_isOpen .., setOpen_base (by rw [h]; decide)⟩

theorem does_unfold (h : s.isOpen = false) : Does mem s (s.setOpen mem true) .unfold :=
  ⟨h, setOpen_isOpen .., setOpen_items .., setOpen_base (by rw [h]; decide)⟩

theorem does_addItem (label : Option (List UInt8)) :
    Does mem s (s.addItem mem label).2 (s.act (.addItem label)) := by
  cases label with
  | none =>
    have hact : s.act (.addItem none) = .stay := if_neg fun h => by simpa using h.2.1
    rw [hact]
    exact does_refl mem s
  | some label =>
    by_cases hroom : s.items.length < maxItems
    · have hcode : (s.addItem mem (some label)).2 =
          if s.isOpen then (s.append label hroom).resizeTo mem (s.append label hroom).openHeight
          else s.append label hroom := by
        rw [addItem, dif_pos hroom]
        rfl
      rw [hcode]
      by_cases hopen : s.isOpen = true
      · have hact : s.act (.addItem (some label)) = .grow := if_pos ⟨hopen, rfl, hroom⟩
        rw [hact, if_pos hopen]
        refine ⟨hopen, hopen, by simp [resizeTo, append], ?_⟩
        simp only [resizeTo, openHeight, growHeight, count, append, List.length_append,
          List.length_singleton]
      · have hact : s.act (.addItem (some label)) = .stay := if_neg fun h => hopen h.1
        rw [hact, if_neg hopen]
        exact ⟨rfl, fun h => absurd h hopen, rfl⟩
    · have hact : s.act (.addItem (some label)) = .stay := if_neg fun h => hroom h.2.2
      have hcode : (s.addItem mem (some label)).2 = s := by rw [addItem, dif_neg hroom]
      rw [hact, hcode]
      exact does_refl mem s

theorem does_mouseUp (x y : Int32) (button : UInt8) :
    Does mem s (s.onMouseUp mem x y button) (s.act (.mouseUp x y button)) := by
  rw [act]
  by_cases htakes : s.takes x y button = true
  · have htakes' : ¬ (!s.takes x y button) = true := by rw [htakes]; decide
    rw [onMouseUp_of_takes htakes, if_neg htakes']
    by_cases hopen : s.isOpen = true
    · have hopen' : ¬ (!s.isOpen) = true := by rw [hopen]; decide
      rw [if_neg hopen', if_neg hopen']
      by_cases hbelow : s.closedHeight ≤ y - s.base.y
      · rw [if_pos hbelow, select]
        by_cases hout : s.rowAt y < 0 ∨ s.count ≤ s.rowAt y
        · have hinvalid : s.rowAt y < 0 ∨ s.released.count ≤ s.rowAt y := hout
          rw [if_pos hinvalid, if_pos ⟨hbelow, hout⟩]
          exact ⟨rfl, fun _ => rfl, rfl⟩
        · have hvalid : ¬ (s.rowAt y < 0 ∨ s.released.count ≤ s.rowAt y) := hout
          rw [if_neg hvalid, if_neg fun h => hout h.2]
          exact ⟨hopen, setOpen_isOpen .., setOpen_base (by rw [released, hopen]; decide)⟩
      · rw [if_neg hbelow, if_neg fun h => hbelow h.1]
        exact ⟨hopen, setOpen_isOpen .., setOpen_base (by rw [released, hopen]; decide)⟩
    · have hclosed : s.isOpen = false := by simpa using hopen
      have hopen' : (!s.isOpen) = true := by rw [hclosed]; rfl
      rw [if_pos hopen', if_pos hopen']
      exact ⟨hclosed, setOpen_isOpen .., setOpen_items .., setOpen_base (by rw [released, hclosed]; decide)⟩
  · have hnot : s.takes x y button = false := by simpa using htakes
    have hnot' : (!s.takes x y button) = true := by rw [hnot]; rfl
    rw [if_pos hnot']
    obtain h | h := @onMouseUp_of_not_takes mem _ _ _ _ hnot
    · rw [h]
      exact does_refl mem s
    · rw [h]
      exact ⟨rfl, fun _ => rfl, rfl⟩

/-- Only a `Resize` from outside acts as one. -/
theorem act_outside {newW newH : Int32} (h : s.act e = .outside newW newH) :
    e = .resize newW newH := by
  cases e with
  | resize w h' =>
    cases h
    rfl
  | addItem label =>
    rw [act] at h
    split at h <;> cases h
  | clear =>
    rw [act] at h
    split at h <;> cases h
  | focusLost =>
    rw [act] at h
    split at h <;> cases h
  | setOpen value =>
    rw [act] at h
    split at h
    · cases h
    · split at h <;> cases h
  | mouseUp x y button =>
    rw [act] at h
    split at h
    · cases h
    · split at h
      · cases h
      · split at h <;> cases h
  | _ => cases h

/-- Each event does what its act says. -/
theorem step_does (mem : Bool) (s : ComboBox) (e : Event) : Does mem s (s.step mem e) (s.act e) := by
  cases e with
  | addItem label => exact does_addItem label
  | clear =>
    rw [act, step, clear]
    by_cases hopen : s.isOpen = true
    · rw [if_pos hopen]
      exact ⟨hopen, setOpen_isOpen .., setOpen_base (by rw [hopen]; decide)⟩
    · have hclosed : s.isOpen = false := by simpa using hopen
      rw [if_neg hopen, setOpen_same (by exact hclosed)]
      exact ⟨rfl, fun h => absurd h hopen, rfl⟩
  | setSelected index =>
    rw [act, step, setSelected]
    split
    · exact does_refl mem s
    · exact ⟨rfl, fun _ => rfl, rfl⟩
  | setOpen value =>
    rw [act, step]
    by_cases hsame : s.isOpen = value
    · rw [if_pos hsame, setOpen_same hsame]
      exact does_refl mem s
    · rw [if_neg hsame]
      cases value with
      | true => exact does_unfold (by simpa using hsame)
      | false => exact does_fold (by simpa using hsame)
  | mouseDown x y button =>
    rw [act, step, onMouseDown]
    split
    · exact does_refl mem s
    · split
      · exact does_refl mem s
      · exact ⟨rfl, fun _ => rfl, rfl⟩
  | mouseUp x y button => exact does_mouseUp x y button
  | focusLost =>
    rw [act, step, onFocusLost]
    split
    · next hopen => exact does_fold hopen
    · exact does_refl mem s
  | resize newW newH => exact ⟨rfl, rfl, rfl⟩
  | move x y => exact ⟨rfl, fun _ => rfl, rfl⟩

end Act

/-! ## The selection -/

/-- The selected item is one of the items, or there is none. -/
def Selects (s : ComboBox) : Prop :=
  -1 ≤ s.selected.toInt ∧ s.selected.toInt < s.items.length

theorem toInt_count (s : ComboBox) : s.count.toInt = s.items.length := by
  have hroom := s.room
  rw [maxItems] at hroom
  exact Int32.toInt_ofNat_of_lt (by omega)

theorem Selects.select {s : ComboBox} (h : s.Selects) (mem : Bool) (index : Int32) :
    (s.select mem index).Selects := by
  rw [ComboBox.select]
  split
  · exact h
  · next hvalid =>
    obtain ⟨hlo, hhi⟩ := not_or.mp hvalid
    rw [Int32.lt_iff_toInt_lt, Int32.toInt_zero] at hlo
    rw [Int32.le_iff_toInt_le, toInt_count] at hhi
    rw [Selects, setOpen_selected, setOpen_items]
    exact ⟨by dsimp only; omega, by dsimp only; omega⟩

theorem Selects.setOpen {s : ComboBox} (h : s.Selects) (mem value : Bool) :
    (s.setOpen mem value).Selects := by
  rw [Selects, setOpen_selected, setOpen_items]
  exact h

theorem Selects.step {s : ComboBox} (h : s.Selects) (mem : Bool) (e : Event) :
    (s.step mem e).Selects := by
  cases e with
  | addItem label =>
    rw [ComboBox.step]
    cases label with
    | none => exact h
    | some label =>
      rw [addItem]
      split
      · next hroom =>
        have happend : (s.append label hroom).Selects := by
          obtain ⟨hlo, hhi⟩ := h
          rw [Selects, append, List.length_append, List.length_singleton]
          dsimp only
          split
          · rw [Int32.toInt_zero]
            omega
          · omega
        dsimp only
        split
        · exact happend
        · exact happend
      · exact h
  | clear =>
    have hcleared : Selects { s with items := [], room := Nat.zero_le _, selected := -1 } := by
      rw [Selects]
      dsimp only
      decide
    exact hcleared.setOpen mem false
  | setSelected index =>
    rw [ComboBox.step, setSelected]
    split
    · exact h
    · next hvalid =>
      obtain ⟨hlo, hhi⟩ := not_or.mp hvalid
      rw [Int32.lt_iff_toInt_lt] at hlo
      rw [Int32.le_iff_toInt_le, toInt_count] at hhi
      have hone : (-1 : Int32).toInt = -1 := rfl
      exact ⟨by dsimp only; omega, by dsimp only; omega⟩
  | setOpen value => exact h.setOpen mem value
  | mouseDown x y button =>
    rw [ComboBox.step, onMouseDown]
    split
    · exact h
    · split
      · exact h
      · exact h
  | mouseUp x y button =>
    rw [ComboBox.step]
    have hreleased : s.released.Selects := h
    by_cases htakes : s.takes x y button = true
    · rw [onMouseUp_of_takes htakes]
      split
      · exact hreleased.setOpen mem true
      · split
        · exact hreleased.select mem _
        · exact hreleased.setOpen mem false
    · obtain hsame | hsame := @onMouseUp_of_not_takes mem s x y button (by simpa using htakes)
      · rw [hsame]
        exact h
      · rw [hsame]
        exact h
  | focusLost =>
    rw [ComboBox.step, onFocusLost]
    split
    · exact h.setOpen mem false
    · exact h
  | resize newW newH => exact h
  | move x y => exact h

/-! ## The height -/

/-- The height of the list. -/
def list (s : ComboBox) : Int := if s.isOpen then 22 * s.items.length else 0

theorem list_open {s : ComboBox} (h : s.isOpen = true) : s.list = 22 * s.items.length := if_pos h

theorem list_closed {s : ComboBox} (h : s.isOpen = false) : s.list = 0 :=
  if_neg (by rw [h]; decide)

/-- The height without the list is still the one of the constructor. -/
def Steady (s : ComboBox) : Prop := s.closedHeight.toInt + s.list = s.base.h.toInt

theorem resize_h (v : Widget) (mem : Bool) (newW newH : Int32) :
    (v.resize mem newW newH).2.h = if (v.resize mem newW newH).1 then newH else v.h := by
  split
  · next hdone =>
    obtain ⟨cache, hsize⟩ := Widget.resize_true hdone
    rw [hsize]
  · next hrefused => rw [Widget.resize_false (by simpa using hrefused)]

theorem resize_nonneg {v : Widget} {mem : Bool} {newW newH : Int32}
    (h : (v.resize mem newW newH).1 = true) : 0 ≤ newH.toInt := by
  by_cases hneg : newW < 0 ∨ newH < 0
  · rw [Widget.resize, if_pos hneg] at h
    cases h
  · have := (not_or.mp hneg).2
    rw [Int32.lt_iff_toInt_lt, Int32.toInt_zero] at this
    omega

/-- A height that is not negative has not wrapped. -/
theorem toInt_listHeight {c : Int32} {n : Nat} (hn : n ≤ maxItems)
    (h : 0 ≤ (c + .ofNat n * itemHeight).toInt) :
    (c + .ofNat n * itemHeight).toInt = c.toInt + 22 * n := by
  have hall : ∀ k : Fin 17, (Int32.ofNat k * itemHeight).toInt = 22 * (k : Nat) := by decide
  have hrows := hall ⟨n, Nat.lt_succ_of_le hn⟩
  dsimp only at hrows
  rw [maxItems] at hn
  have hc := c.toInt_lt
  have hc' := c.le_toInt
  by_cases hwrap : c.toInt + (Int32.ofNat n * itemHeight).toInt < 2 ^ 31
  · rw [toInt_add_eq (by omega) hwrap, hrows]
  · rw [toInt_add_wrap (by omega)] at h
    omega

/-! ## Clicks on the rows -/

/-- A press and a release of the left button at one point. -/
def click (mem : Bool) (x y : Int32) (s : ComboBox) : ComboBox :=
  (s.onMouseDown x y 1).onMouseUp mem x y 1

/-- The point is on row `i` of the list, which is open and reacts. -/
structure OnRow (s : ComboBox) (x y : Int32) (i : Nat) : Prop where
  isOpen : s.isOpen = true
  enabled : s.enabled = true
  isVisible : s.isVisible = true
  inside : s.containsCoordinate x y = true
  first : s.closedHeight.toInt + 22 * i ≤ y.toInt - s.base.y.toInt
  last : y.toInt - s.base.y.toInt < s.closedHeight.toInt + 22 * (i + 1)

theorem click_eq {s : ComboBox} {x y : Int32} {i : Nat} (h : s.OnRow x y i) (mem : Bool) :
    s.click mem x y =
      if s.closedHeight ≤ y - s.base.y then s.released.select mem (s.rowAt y)
      else s.released.setOpen mem false := by
  have hdown : s.onMouseDown x y 1 = { s with pressed := true } := by
    rw [onMouseDown, if_neg (by rw [h.enabled, h.isVisible]; decide),
      if_neg (by rw [h.inside]; decide)]
  have htakes : takes { s with pressed := true } x y 1 = true := by
    have hin : containsCoordinate { s with pressed := true } x y = true := h.inside
    rw [takes, hin, h.enabled, h.isVisible]
    rfl
  rw [click, hdown, onMouseUp_of_takes htakes, if_neg (by rw [h.isOpen]; decide)]
  rfl

/-- Below the top of a box that is not turned over. -/
theorem localY_eq {s : ComboBox} {x y : Int32} (h : s.containsCoordinate x y = true)
    (hh : 0 ≤ s.base.h.toInt) :
    (y - s.base.y).toInt = y.toInt - s.base.y.toInt ∧ 0 ≤ y.toInt - s.base.y.toInt ∧
      y.toInt - s.base.y.toInt < s.base.h.toInt := by
  simp only [containsCoordinate, Bool.and_eq_true, decide_eq_true_eq] at h
  obtain ⟨⟨-, htop⟩, hbottom⟩ := h
  rw [Int32.le_iff_toInt_le] at htop
  rw [Int32.lt_iff_toInt_lt] at hbottom
  have hy := s.base.y.le_toInt
  have hlt := s.base.h.toInt_lt
  have hin : y.toInt - s.base.y.toInt < s.base.h.toInt := by
    by_cases hwrap : s.base.y.toInt + s.base.h.toInt < 2 ^ 31
    · rw [toInt_add_eq (by omega) hwrap] at hbottom
      omega
    · rw [toInt_add_wrap (by omega)] at hbottom
      omega
  exact ⟨toInt_sub_eq (by omega) (by omega), by omega, hin⟩

/-- In a list that stands below the closed box, a click selects the item on whose row it is. -/
theorem click_row {s : ComboBox} (hs : s.Selects)
    (hopen : s.items = [] ∨ s.Steady ∧ 0 ≤ s.base.h.toInt) {x y : Int32} {i : Nat}
    (h : s.OnRow x y i) (mem : Bool) : (s.click mem x y).selected.toInt = i ↔ i < s.items.length := by
  rw [click_eq h]
  rcases hopen with hnil | ⟨hsteady, hh⟩
  · obtain ⟨hlo, hhi⟩ := hs
    rw [hnil, List.length_nil] at hhi ⊢
    have hcount : s.released.count.toInt = 0 := by
      rw [toInt_count]
      change (s.items.length : Int) = 0
      rw [hnil]
      rfl
    refine iff_of_false (fun hi => ?_) (Nat.not_lt_zero i)
    split at hi
    · rw [select, if_pos ?_] at hi
      · change s.selected.toInt = i at hi
        omega
      · rw [Int32.lt_iff_toInt_lt, Int32.le_iff_toInt_le, hcount, Int32.toInt_zero]
        omega
    · rw [setOpen_selected] at hi
      change s.selected.toInt = i at hi
      omega
  · obtain ⟨hlocal, hlo, hhi⟩ := localY_eq h.inside hh
    rw [Steady, list_open h.isOpen] at hsteady
    have hroom := s.room
    rw [maxItems] at hroom
    have hfirst := h.first
    have hlast := h.last
    have hdiff : (y - s.base.y - s.closedHeight).toInt =
        y.toInt - s.base.y.toInt - s.closedHeight.toInt := by
      rw [toInt_sub_eq (by rw [hlocal]; omega) (by rw [hlocal]; omega), hlocal]
    have hrow : (s.rowAt y).toInt = i := by
      rw [rowAt, Int32.toInt_div_of_ne_right _ _ (by decide), hdiff,
        Int.tdiv_eq_ediv_of_nonneg (by omega), show itemHeight.toInt = 22 from rfl]
      omega
    have hvalid : ¬ (s.rowAt y < 0 ∨ s.released.count ≤ s.rowAt y) := by
      rw [Int32.lt_iff_toInt_lt, Int32.le_iff_toInt_le, toInt_count, hrow, Int32.toInt_zero]
      change ¬ ((i : Int) < 0 ∨ (s.items.length : Int) ≤ i)
      omega
    rw [if_pos (by rw [Int32.le_iff_toInt_le, hlocal]; omega), select, if_neg hvalid, setOpen_selected]
    exact iff_of_true hrow (by omega)

end ComboBox

/-! ## Runs -/

/-- The box, and the last height that it was given while it was closed. -/
structure Held where
  box : ComboBox
  given : Int32

namespace Held

def new (base : Widget) : Held := ⟨.new base, base.h⟩

def step (s : Held) (i : Bool × Event) : Held where
  box := s.box.step i.1 i.2
  given :=
    match i.2 with
    | .resize newW newH =>
      if s.box.isOpen = false ∧ (s.box.base.resize i.1 newW newH).1 then newH else s.given
    | _ => s.given

/-- The selection is one of the items or none, none of no items; the height is the one that the box
was given, with that of the list while it is open; and a click on a row selects its item. -/
structure Good (s : Held) : Prop where
  selects : s.box.Selects
  empty : s.box.items = [] → s.box.selected = -1
  height : s.box.base.h.toInt = s.given.toInt + s.box.list
  rows : ∀ mem x y i, s.box.OnRow x y i →
    ((s.box.click mem x y).selected.toInt = i ↔ i < s.box.items.length)

/-- What an event must not meet: a `Resize` from outside that changes the height of the open box, and
one of the box's own when the height of the constructor is no longer that of the box, or that is
refused where the height of the list matters. -/
def Allowed (s : ComboBox) (i : Bool × Event) : Prop :=
  match s.act i.2 with
  | .stay => True
  | .outside newW newH =>
    s.isOpen = true → (s.base.resize i.1 newW newH).1 = true → newH = s.base.h
  | .unfold => if (s.base.resize i.1 s.base.w s.openHeight).1 then s.Steady else s.items = []
  | .fold => if (s.base.resize i.1 s.base.w s.closedHeight).1 then s.Steady else s.items = []
  | .grow => (s.base.resize i.1 s.base.w s.growHeight).1 = true ∧ s.Steady

/-- The height, and where the list of an open box stands. -/
structure Inv (s : Held) : Prop where
  selects : s.box.Selects
  height : s.box.base.h.toInt = s.given.toInt + s.box.list
  opened : s.box.isOpen = true → s.box.items = [] ∨ s.box.Steady ∧ 0 ≤ s.box.base.h.toInt

theorem Inv.good {s : Held} (h : s.Inv) : s.Good where
  selects := h.selects
  empty hnil := by
    obtain ⟨hlo, hhi⟩ := h.selects
    rw [hnil, List.length_nil] at hhi
    exact Int32.toInt_inj.mp (show s.box.selected.toInt = -1 by omega)
  height := h.height
  rows mem x y i hrow := ComboBox.click_row h.selects (h.opened hrow.isOpen) hrow mem

theorem inv_new (base : Widget) : (new base).Inv where
  selects := by
    rw [new, ComboBox.Selects]
    dsimp only [ComboBox.new]
    decide
  height := (Int.add_zero _).symm
  opened h := absurd h Bool.false_ne_true

variable {s : Held} {mem : Bool} {e : Event}

/-- Only a `Resize` from outside gives a height. -/
theorem step_given (he : ∀ newW newH, s.box.act e ≠ .outside newW newH) :
    (s.step (mem, e)).given = s.given := by
  cases e with
  | resize newW newH => exact absurd rfl (he newW newH)
  | _ => rfl

/-- The height is right after an event exactly when the event is allowed. -/
theorem height_iff (h : s.Inv) :
    (s.step (mem, e)).box.base.h.toInt = (s.step (mem, e)).given.toInt + (s.step (mem, e)).box.list ↔
      Allowed s.box (mem, e) := by
  have hdoes := s.box.step_does mem e
  have hheight := h.height
  have hroom := s.box.room
  have hbox : (s.step (mem, e)).box = s.box.step mem e := rfl
  rw [hbox, Allowed]
  dsimp only
  cases hact : s.box.act e with
  | stay =>
    rw [hact] at hdoes
    obtain ⟨hopen, hitems, hh⟩ := hdoes
    rw [step_given (by rw [hact]; nofun), hh, hheight, ComboBox.list, ComboBox.list, hopen]
    refine iff_of_true ?_ trivial
    split
    · next ho => rw [hitems ho]
    · rfl
  | outside newW newH =>
    rw [hact] at hdoes
    obtain ⟨hopen, hitems, hbase⟩ := hdoes
    obtain rfl := ComboBox.act_outside hact
    have hgiven : (s.step (mem, .resize newW newH)).given =
        if s.box.isOpen = false ∧ (s.box.base.resize mem newW newH).1 then newH else s.given := rfl
    rw [hbase, ComboBox.resize_h]
    cases ho : s.box.isOpen with
    | false =>
      rw [ho] at hopen
      rw [hgiven, ho, ComboBox.list_closed hopen]
      rw [ComboBox.list_closed ho] at hheight
      refine iff_of_true ?_ (fun h => absurd h (by decide))
      split
      · next hdone =>
        rw [if_pos ⟨rfl, hdone⟩]
        omega
      · next hrefused =>
        rw [if_neg fun h => hrefused h.2]
        exact hheight
    | true =>
      have hkept : (s.step (mem, .resize newW newH)).given = s.given :=
        if_neg fun h => Bool.false_ne_true (h.1.symm.trans ho)
      rw [ho] at hopen
      rw [ComboBox.list_open hopen, hitems, hkept]
      rw [ComboBox.list_open ho] at hheight
      split
      · next hdone =>
        refine Iff.trans ?_ (⟨fun h _ _ => h, fun h => h rfl hdone⟩ : newH = s.box.base.h ↔ _)
        rw [← Int32.toInt_inj]
        omega
      · next hrefused =>
        exact iff_of_true (by omega) fun _ hdone => absurd hdone hrefused
  | unfold =>
    rw [hact] at hdoes
    obtain ⟨hclosed, hopen, hitems, hbase⟩ := hdoes
    rw [step_given (by rw [hact]; nofun), hbase, ComboBox.resize_h, ComboBox.list_open hopen, hitems]
    dsimp only
    rw [ComboBox.list_closed hclosed] at hheight
    split
    · next hdone =>
      have hnew := ComboBox.toInt_listHeight hroom (ComboBox.resize_nonneg hdone)
      rw [ComboBox.openHeight, ComboBox.count, hnew, ComboBox.Steady, ComboBox.list_closed hclosed]
      omega
    · rw [hheight, ← List.length_eq_zero_iff]
      omega
  | fold =>
    rw [hact] at hdoes
    obtain ⟨hopen, hclosed, hbase⟩ := hdoes
    rw [step_given (by rw [hact]; nofun), hbase, ComboBox.resize_h, ComboBox.list_closed hclosed]
    dsimp only
    rw [ComboBox.list_open hopen] at hheight
    split
    · rw [ComboBox.Steady, ComboBox.list_open hopen]
      omega
    · rw [hheight, ← List.length_eq_zero_iff]
      omega
  | grow =>
    rw [hact] at hdoes
    obtain ⟨hopen, hopen', hitems, hbase⟩ := hdoes
    have hfits : s.box.items.length + 1 ≤ maxItems := by
      rw [← hitems]
      exact (s.box.step mem e).room
    rw [step_given (by rw [hact]; nofun), hbase, ComboBox.resize_h, ComboBox.list_open hopen', hitems]
    dsimp only
    rw [ComboBox.list_open hopen] at hheight
    split
    · next hdone =>
      have hnew := ComboBox.toInt_listHeight hfits (ComboBox.resize_nonneg hdone)
      rw [and_iff_right hdone, ComboBox.growHeight, hnew, ComboBox.Steady, ComboBox.list_open hopen]
      omega
    · next hrefused =>
      refine iff_of_false (fun hh => ?_) fun h => hrefused h.1
      rw [hheight] at hh
      omega

/-- An allowed event leaves an open list where it stands below the closed box. -/
theorem opened_step (h : s.Inv) (hallowed : Allowed s.box (mem, e))
    (hopen' : (s.box.step mem e).isOpen = true) :
    (s.box.step mem e).items = [] ∨
      (s.box.step mem e).Steady ∧ 0 ≤ (s.box.step mem e).base.h.toInt := by
  have hdoes := s.box.step_does mem e
  have hclosed' := s.box.step_closedHeight mem e
  have hopened := h.opened
  have hroom := s.box.room
  rw [ComboBox.Steady, hclosed', ComboBox.list_open hopen']
  rw [Allowed] at hallowed
  dsimp only at hallowed
  cases hact : s.box.act e with
  | stay =>
    rw [hact] at hdoes
    obtain ⟨hsame, hitems, hh⟩ := hdoes
    have hopen : s.box.isOpen = true := hsame.symm.trans hopen'
    rw [hitems hopen, hh]
    rw [ComboBox.Steady, ComboBox.list_open hopen] at hopened
    exact hopened hopen
  | outside newW newH =>
    rw [hact] at hdoes hallowed
    obtain ⟨hsame, hitems, hbase⟩ := hdoes
    have hopen : s.box.isOpen = true := hsame.symm.trans hopen'
    have hh : (s.box.step mem e).base.h = s.box.base.h := by
      rw [hbase, ComboBox.resize_h]
      split
      · next hdone => exact hallowed hopen hdone
      · rfl
    rw [hitems, hh]
    rw [ComboBox.Steady, ComboBox.list_open hopen] at hopened
    exact hopened hopen
  | unfold =>
    rw [hact] at hdoes hallowed
    obtain ⟨hclosed, -, hitems, hbase⟩ := hdoes
    dsimp only at hallowed
    rw [hitems, hbase, ComboBox.resize_h]
    split
    · next hdone =>
      have hnonneg := ComboBox.resize_nonneg hdone
      have hnew := ComboBox.toInt_listHeight hroom hnonneg
      exact .inr ⟨hnew.symm, hnonneg⟩
    · next hrefused =>
      rw [if_neg hrefused] at hallowed
      exact .inl hallowed
  | fold =>
    rw [hact] at hdoes
    exact absurd (hdoes.2.1.symm.trans hopen') (by decide)
  | grow =>
    rw [hact] at hdoes hallowed
    obtain ⟨-, -, hitems, hbase⟩ := hdoes
    have hfits : s.box.items.length + 1 ≤ maxItems := by
      rw [← hitems]
      exact (s.box.step mem e).room
    have hnonneg := ComboBox.resize_nonneg hallowed.1
    have hnew := ComboBox.toInt_listHeight hfits hnonneg
    rw [hitems, hbase, ComboBox.resize_h, if_pos hallowed.1]
    exact .inr ⟨hnew.symm, hnonneg⟩

/-- An allowed event keeps the invariant. -/
theorem Inv.step (h : s.Inv) (hallowed : Allowed s.box (mem, e)) : (s.step (mem, e)).Inv where
  selects := h.selects.step mem e
  height := (height_iff h).mpr hallowed
  opened := opened_step h hallowed

/-- The box is good after every event of a run exactly when every event of it is allowed. -/
theorem good_along (base : Widget) (is : List (Bool × Event)) :
    ((new base).Good ∧ Along Held.step (fun s i => (s.step i).Good) (new base) is) ↔
      Along Held.step (fun s i => Allowed s.box i) (new base) is := by
  rw [and_iff_right (inv_new base).good]
  refine Along.iff_of_inv (I := Inv) (fun s i h hq => h.step hq) (fun s i h => ?_) (inv_new base)
  exact ⟨fun hgood => (height_iff h).mp hgood.height, fun hq => (h.step hq).good⟩

/-- A box of 120 by 24 pixels with one item. -/
def narrow : Widget where
  parent := none
  x := 0
  y := 0
  minWidth := 0
  minHeight := 0
  padding := ⟨0, 0, 0, 0⟩
  sizeMode := .fixed
  text := none
  kind := .plain
  w := 120
  h := 24
  cache := some 2880
  made := (120, 24)

/-- The closed box gets 60 pixels; after its list was opened and closed it has 24 again. -/
theorem height_not_restored :
    ¬ ∀ (base : Widget) (is : List (Bool × Event)),
      Along Held.step (fun s i => (s.step i).Good) (new base) is := by
  intro h
  have hrun := h narrow [(true, .addItem (some [65])), (true, .resize 120 60), (true, .setOpen true),
    (true, .setOpen false)]
  have hgood := hrun.2.2.2.1
  have hheight := hgood.height
  revert hheight
  decide

end Held

end DropDown
end Hashx86
