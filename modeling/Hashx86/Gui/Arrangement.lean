import Hashx86.Gui.BoxLayout
import Hashx86.Gui.GridLayout

/-!
# Layouts arrange their widgets (`gui/layout.cpp`)

* `Fits`: no sum or product of `Relayout` leaves 32 bits.
* `Arranged`: the managed widgets are disjoint, in order, and inside the padded parent where there is
  room for them.
* `relayout_arranged`: `Relayout` arranges its widgets, and a second one changes nothing;
  `not_arranged`: but widgets that refuse their size may overlap.
-/

namespace Hashx86
namespace Sizing
namespace Layout

open Lib

variable {l : Layout} {ws ws' : Table} {mem : Nat → Bool}

/-- Where no sum or product of `Relayout` leaves 32 bits. -/
def Fits (l : Layout) (ws : Table) : Prop :=
  match l.kind with
  | .vBox => l.BoxFits true ws
  | .hBox => l.BoxFits false ws
  | .grid columns => l.GridFits (l.gridSize columns).1 (l.gridSize columns).2 ws

/-- The padded parent has room for the fixed extents and the gaps of a box, or for a pixel in each
column and row of a grid and the gaps. -/
def Room (l : Layout) (ws : Table) : Prop :=
  match l.kind with
  | .vBox => (l.fixedExtents true ws).sum ≤ l.avail true ws
  | .hBox => (l.fixedExtents false ws).sum ≤ l.avail false ws
  | .grid columns => l.CellsFit (ws.sizeAt l.parent).1.toInt (l.gridSize columns).1 ∧
      l.CellsFit (ws.sizeAt l.parent).2.toInt (l.gridSize columns).2

/-- What `Relayout` makes of the widgets `ws`. -/
structure Arranged (l : Layout) (ws ws' : Table) : Prop where
  all : ∀ k < l.managed.length, ∃ v, l.child ws' k = some v
  disjoint : ∀ i j v u, i ≠ j → l.child ws' i = some v → l.child ws' j = some u →
    ∀ X Y, ¬ (Covers v X Y ∧ Covers u X Y)
  ordered : l.Ordered ws'
  inside : l.Room ws → ∀ k v, l.child ws' k = some v → l.Inside ws v

theorem Fits.rows_pos (hfits : l.Fits ws) (columns : Int32) (hkind : l.kind = .grid columns)
    (hpos : 0 < l.managed.length) : 0 < l.gridRows columns := by
  unfold Fits at hfits
  rw [hkind] at hfits
  obtain ⟨hrows, hrpos⟩ := toInt_gridRows hfits hpos
  exact toInt_pos.mpr (by omega)

theorem Placed.arranged (hplaced : l.Placed mem (l.spot ws) ws ws') (hs : 0 ≤ l.spacing)
    (hp : 0 ≤ l.padding) (hown : l.Owns ws) (hfits : l.Fits ws) (hacc : l.Accepts mem ws) :
    l.Arranged ws ws' := by
  have hordered : l.Ordered ws' ∧ (l.Room ws → ∀ k v, l.child ws' k = some v → l.Inside ws v) := by
    unfold Ordered Room
    unfold Fits at hfits
    cases hkind : l.kind with
    | vBox =>
      have hspot : l.spot ws = l.boxSpot true ws := by
        funext k m
        rw [spot, hkind]
      rw [hkind] at hfits
      exact ⟨hplaced.inLine hs hp hown hacc hspot hfits,
        fun hroom k v hv => hplaced.box_inside hs hp hown hacc hspot hfits hroom hv⟩
    | hBox =>
      have hspot : l.spot ws = l.boxSpot false ws := by
        funext k m
        rw [spot, hkind]
      rw [hkind] at hfits
      exact ⟨hplaced.inLine hs hp hown hacc hspot hfits,
        fun hroom k v hv => hplaced.box_inside hs hp hown hacc hspot hfits hroom hv⟩
    | grid columns =>
      have hspot : l.spot ws = fun k _ => l.gridSpot columns ws k := by
        funext k m
        rw [spot, hkind]
      rw [hkind] at hfits
      exact ⟨hplaced.inGrid hs hp hown hacc hspot hfits, fun hroom k v hv =>
        hplaced.grid_inside hs hp hown hacc hspot hfits hroom.1 hroom.2 hv⟩
  refine ⟨fun k hk => ?_, fun i j v u hij hv hu => hordered.1.disjoint hs hij hv hu, hordered.1,
    hordered.2⟩
  obtain ⟨v, hv, -⟩ := hplaced.has_spot hown hacc hk
  exact ⟨v, (child_eq hk).trans hv⟩

/-- `Relayout` arranges its widgets, and a second one changes nothing. -/
theorem relayout_arranged (l : Layout) (ws : Table) (mem : Nat → Bool) (hs : 0 ≤ l.spacing)
    (hp : 0 ≤ l.padding) (hown : l.Owns ws) (hfits : l.Fits ws) (hacc : l.Accepts mem ws) :
    ∃ ws', l.relayout mem ws = some ws' ∧ l.Arranged ws ws' ∧
      ∀ mem', l.relayout mem' ws' = some ws' := by
  obtain ⟨ws', hrun, hplaced⟩ := relayout_placed hown hfits.rows_pos mem
  exact ⟨ws', hrun, hplaced.arranged hs hp hown hfits hacc,
    relayout_again hplaced hown hacc hfits.rows_pos⟩

/-- A panel with the given size. -/
def panel (w h : Int32) : Widget where
  parent := none
  x := 0
  y := 0
  minWidth := 0
  minHeight := 0
  padding := ⟨0, 0, 0, 0⟩
  sizeMode := .fixed
  text := none
  kind := .plain
  w := w
  h := h
  cache := some (w.toInt * h.toInt).toNat
  made := (w, h)

/-- A bar of 20 pixels above a page that gets the rest. -/
def barAndPage : Layout where
  kind := .vBox
  parent := 0
  spacing := 4
  padding := 4
  managed := [(1, 0), (2, 1)]
  room := by decide

def barAndPageWidgets : Table := [panel 100 200, panel 30 20, panel 10 10]

theorem barAndPage_arranged : ∃ ws',
    barAndPage.relayout (fun _ => true) barAndPageWidgets = some ws' ∧
      barAndPage.Arranged barAndPageWidgets ws' ∧ ∀ mem', barAndPage.relayout mem' ws' = some ws' := by
  have hbar : (Widget.resize true (barAndPage.spot barAndPageWidgets 0 (1, 0)).w
      (barAndPage.spot barAndPageWidgets 0 (1, 0)).h (panel 30 20)).1 = true := by decide
  have hpage : (Widget.resize true (barAndPage.spot barAndPageWidgets 1 (2, 1)).w
      (barAndPage.spot barAndPageWidgets 1 (2, 1)).h (panel 10 10)).1 = true := by decide
  refine relayout_arranged barAndPage _ _ (by decide) (by decide) ⟨by decide, by decide, by decide⟩
    ⟨by decide, by decide, by decide, by decide, by decide⟩ fun k hk v hv => ?_
  match k, hk with
  | 0, _ =>
    cases hv
    exact hbar
  | 1, _ =>
    cases hv
    exact hpage

/-- Two pages in a panel that is narrower than its padding. -/
def narrowPages : Layout where
  kind := .vBox
  parent := 0
  spacing := 0
  padding := 10
  managed := [(1, 1), (2, 1)]
  room := by decide

/-- Three cells beside each other. -/
def threeCells : Layout where
  kind := .grid 3
  parent := 0
  spacing := 0
  padding := 0
  managed := [(1, 0), (2, 0), (3, 0)]
  room := by decide

/-- The pages refuse their sizes and are moved nevertheless, so that they overlap. And a cell has a
pixel where the panel has none for it. -/
theorem not_arranged :
    (¬ ∀ (l : Layout) (ws : Table) (mem : Nat → Bool), 0 ≤ l.spacing → 0 ≤ l.padding → l.Owns ws →
      ∃ ws', l.relayout mem ws = some ws' ∧ l.Arranged ws ws') ∧
    ¬ ∀ (l : Layout) (columns : Int32) (ws ws' : Table) (mem : Nat → Bool), l.kind = .grid columns →
      0 ≤ l.spacing → 0 ≤ l.padding → l.Owns ws →
      l.spacing.toInt * ((l.gridSize columns).1 - 1) ≤
        (ws.sizeAt l.parent).1.toInt - 2 * l.padding.toInt →
      l.spacing.toInt * ((l.gridSize columns).2 - 1) ≤
        (ws.sizeAt l.parent).2.toInt - 2 * l.padding.toInt →
      l.relayout mem ws = some ws' → ∀ k v, l.child ws' k = some v → l.Inside ws v := by
  constructor
  · intro h
    obtain ⟨ws', hrun, harranged⟩ := h narrowPages [panel 10 100, panel 5 50, panel 5 50]
      (fun _ => true) (by decide) (by decide) ⟨by decide, by decide, by decide⟩
    cases hrun
    exact harranged.disjoint 0 1 _ _ (by decide) rfl rfl 12 55 ⟨by decide, by decide⟩
  · intro h
    have hinside := h threeCells 3 [panel 2 10, panel 1 1, panel 1 1, panel 1 1] _ (fun _ => true) rfl
      (by decide) (by decide) ⟨by decide, by decide, by decide⟩ (by decide) (by decide) rfl 2 _ rfl
    exact absurd hinside.1.2 (by decide)

end Layout
end Sizing
end Hashx86
