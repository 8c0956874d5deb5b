import Hashx86.Gui.Arranged
import Hashx86.Lib.Strip
import Hashx86.Lib.Word64

/-!
# Grids (`GridLayout` in `gui/layout.cpp`)

* `cellExtent`, `cellStart`: the cells along an axis; a cell has at least one pixel.
* `GridFits`: where no sum or product leaves 32 bits; `Placed.grid`: then each widget is in its cell.
* `Placed.inGrid`, `Placed.grid_inside`: so the widgets are in rows and columns, and inside where there
  is room.
-/

namespace Hashx86
namespace Sizing
namespace Layout

open Lib

variable {l : Layout} {ws ws' : Table} {mem : Nat → Bool}

/-- The extent of one of `cells` cells along an axis of the parent with the extent `size`. -/
def cellExtent (l : Layout) (size cells : Int) : Int :=
  max 1 ((size - 2 * l.padding.toInt - l.spacing.toInt * (cells - 1)).tdiv cells)

/-- Where the `j`-th cell begins. -/
def cellStart (l : Layout) (size cells j : Int) : Int :=
  l.padding.toInt + j * (l.cellExtent size cells + l.spacing.toInt)

/-- `cells` cells with the gaps between them, a pixel each, fit in the padded parent. -/
def CellsFit (l : Layout) (size cells : Int) : Prop :=
  cells + l.spacing.toInt * (cells - 1) ≤ size - 2 * l.padding.toInt

/-- A cell has a pixel, or the cells fit. -/
theorem cellExtent_cases (l : Layout) (size : Int) {cells : Int} (hcells : 0 < cells) :
    l.cellExtent size cells = 1 ∨ l.cellExtent size cells * cells + l.spacing.toInt * (cells - 1) ≤
      size - 2 * l.padding.toInt := by
  rw [cellExtent]
  generalize hn : size - 2 * l.padding.toInt - l.spacing.toInt * (cells - 1) = n
  obtain hneg | hnonneg := Int.lt_or_le n 0
  · have hquot : 0 ≤ (-n).tdiv cells := Int.tdiv_nonneg (by omega) (Int.le_of_lt hcells)
    rw [Int.neg_tdiv] at hquot
    exact .inl (max_eq_left (by omega))
  · obtain hle | hgt := Int.lt_or_le (n.tdiv cells) 1
    · exact .inl (max_eq_left (Int.le_of_lt hle))
    · rw [max_eq_right hgt, Int.tdiv_eq_ediv_of_nonneg hnonneg]
      have hmul := Int.ediv_mul_le n (Int.ne_of_gt hcells)
      exact .inr (by omega)

theorem cells_fit {size cells : Int} (hcells : 0 < cells) (hfit : l.CellsFit size cells) :
    l.cellExtent size cells * cells + l.spacing.toInt * (cells - 1) ≤ size - 2 * l.padding.toInt := by
  obtain hone | hfits := l.cellExtent_cases size hcells
  · rw [hone, Int.one_mul]
    exact hfit
  · exact hfits

/-- Where the cells fit each of them is inside. -/
theorem cellEnd_le {size cells j : Int} (hs : 0 ≤ l.spacing.toInt) (hj : j < cells)
    (hfits : l.cellExtent size cells * cells + l.spacing.toInt * (cells - 1) ≤
      size - 2 * l.padding.toInt) :
    l.cellStart size cells j + l.cellExtent size cells ≤ size - l.padding.toInt := by
  have hextent : 1 ≤ l.cellExtent size cells := le_max_left 1 _
  have hmul := Int.mul_le_mul_of_nonneg_right (show j ≤ cells - 1 by omega)
    (show 0 ≤ l.cellExtent size cells + l.spacing.toInt by omega)
  rw [Int.sub_mul, Int.one_mul, Int.mul_add cells, Int.mul_comm cells (l.cellExtent size cells),
    Int.mul_comm cells l.spacing.toInt] at hmul
  rw [Int.mul_sub, Int.mul_one] at hfits
  rw [cellStart]
  omega

/-- A later cell begins at least the spacing after the end of this one. -/
theorem cellStart_le {size cells i j : Int} (hs : 0 ≤ l.spacing.toInt) (hij : i < j) :
    l.cellStart size cells i + l.cellExtent size cells + l.spacing.toInt ≤ l.cellStart size cells j := by
  have hextent : 1 ≤ l.cellExtent size cells := le_max_left 1 _
  have hmul := Int.mul_le_mul_of_nonneg_right (show i + 1 ≤ j by omega)
    (show 0 ≤ l.cellExtent size cells + l.spacing.toInt by omega)
  rw [Int.add_mul, Int.one_mul] at hmul
  rw [cellStart, cellStart]
  omega

theorem cellStart_succ {size cells : Int} (j : Int) : l.cellStart size cells (j + 1) =
    l.cellStart size cells j + l.cellExtent size cells + l.spacing.toInt := by
  rw [cellStart, cellStart, Int.add_mul, Int.one_mul]
  omega

theorem padding_le_cellStart {size cells j : Int} (hs : 0 ≤ l.spacing.toInt) (hj : 0 ≤ j) :
    l.padding.toInt ≤ l.cellStart size cells j := by
  have hextent : 1 ≤ l.cellExtent size cells := le_max_left 1 _
  have hmul := Int.mul_nonneg hj (show 0 ≤ l.cellExtent size cells + l.spacing.toInt by omega)
  rw [cellStart]
  omega

/-- Where no sum or product for a grid leaves 32 bits, with `c` columns and `r` rows. -/
structure GridFits (c r : Int) (l : Layout) (ws : Table) : Prop where
  count : l.managed.length + c - 1 < 2 ^ 31
  width : -2 ^ 31 ≤ (ws.sizeAt l.parent).1.toInt - 2 * l.padding.toInt - l.spacing.toInt * (c - 1)
  height : -2 ^ 31 ≤ (ws.sizeAt l.parent).2.toInt - 2 * l.padding.toInt - l.spacing.toInt * (r - 1)
  places : ∀ k < l.managed.length, l.padding.toInt + k % c * (1 + l.spacing.toInt) < 2 ^ 31 ∧
    l.padding.toInt + k / c * (1 + l.spacing.toInt) < 2 ^ 31

theorem toInt_cell (hs : 0 ≤ l.spacing) (hp : 0 ≤ l.padding) {size cells : Int32} (hcells : 0 < cells)
    (hfits : -2 ^ 31 ≤ size.toInt - 2 * l.padding.toInt - l.spacing.toInt * (cells.toInt - 1)) :
    (l.cell size cells).toInt = l.cellExtent size.toInt cells.toInt := by
  have hpos := toInt_pos.mp hcells
  have hpad := toInt_nonneg.mp hp
  have hgaps := Int.mul_nonneg (toInt_nonneg.mp hs) (show 0 ≤ cells.toInt - 1 by omega)
  have hlt := size.toInt_lt
  have hne : cells ≠ -1 := by
    rintro rfl
    exact absurd hpos (by decide)
  have hrest : (size - 2 * l.padding - l.spacing * (cells - 1)).toInt =
      size.toInt - 2 * l.padding.toInt - l.spacing.toInt * (cells.toInt - 1) := by
    refine toInt_of_eq ?_ ⟨hfits, by omega⟩
    rw [Int32.ofInt_sub, Int32.ofInt_sub, Int32.ofInt_mul, Int32.ofInt_mul, Int32.ofInt_sub,
      Int32.ofInt_toInt, Int32.ofInt_toInt, Int32.ofInt_toInt, Int32.ofInt_toInt]
    rfl
  rw [cell, toInt_atLeast, Int32.toInt_div_of_ne_right _ _ hne, hrest, cellExtent, Int32.toInt_one]

theorem toInt_cellStart (hs : 0 ≤ l.spacing) (hp : 0 ≤ l.padding) {size cells a : Int32}
    (hcells : 0 < cells)
    (hfits : -2 ^ 31 ≤ size.toInt - 2 * l.padding.toInt - l.spacing.toInt * (cells.toInt - 1))
    (ha : 0 ≤ a.toInt) (ha' : a.toInt < cells.toInt)
    (hplace : l.padding.toInt + a.toInt * (1 + l.spacing.toInt) < 2 ^ 31) :
    (l.padding + a * (l.cell size cells + l.spacing)).toInt =
      l.cellStart size.toInt cells.toInt a.toInt := by
  have hpos := toInt_pos.mp hcells
  have hgap := toInt_nonneg.mp hs
  have hpad := toInt_nonneg.mp hp
  have hlt := size.toInt_lt
  have hextent : 1 ≤ l.cellExtent size.toInt cells.toInt := le_max_left 1 _
  have hnonneg := Int.mul_nonneg ha
    (show 0 ≤ l.cellExtent size.toInt cells.toInt + l.spacing.toInt by omega)
  refine toInt_of_eq ?_ ⟨by rw [cellStart]; omega, ?_⟩
  · rw [cellStart, ← toInt_cell hs hp hcells hfits, Int32.ofInt_add, Int32.ofInt_mul, Int32.ofInt_add,
      Int32.ofInt_toInt, Int32.ofInt_toInt, Int32.ofInt_toInt, Int32.ofInt_toInt]
  · obtain hone | hfit := l.cellExtent_cases size.toInt hpos
    · rw [cellStart, hone]
      exact hplace
    · have hend := cellEnd_le hgap ha' hfit
      omega

section Grid

variable {columns : Int32} (hs : 0 ≤ l.spacing) (hp : 0 ≤ l.padding)

/-- The columns and the rows of a grid. -/
def gridSize (columns : Int32) (l : Layout) : Nat × Nat :=
  ((gridColumns columns).toInt.toNat,
    (l.managed.length + (gridColumns columns).toInt.toNat - 1) / (gridColumns columns).toInt.toNat)

theorem toInt_gridColumns (columns : Int32) (l : Layout) :
    (gridColumns columns).toInt = (l.gridSize columns).1 ∧ 0 < (l.gridSize columns).1 := by
  have hpos := toInt_pos.mp (gridColumns_pos columns)
  have hcast := Int.toNat_of_nonneg (Int.le_of_lt hpos)
  exact ⟨hcast.symm, by rw [gridSize]; omega⟩

theorem toInt_gridRows (hfits : l.GridFits (l.gridSize columns).1 (l.gridSize columns).2 ws)
    (hpos : 0 < l.managed.length) :
    (l.gridRows columns).toInt = (l.gridSize columns).2 ∧ 0 < (l.gridSize columns).2 := by
  obtain ⟨hc, hcpos⟩ := toInt_gridColumns columns l
  have hcount := hfits.count
  have hne : gridColumns columns ≠ -1 := by
    intro heq
    rw [heq] at hc
    have hminus : (-1 : Int32).toInt = -1 := by decide
    omega
  have hsum : (l.count + gridColumns columns - 1).toInt =
      l.managed.length + (l.gridSize columns).1 - 1 := by
    rw [← hc]
    refine toInt_of_eq ?_ ⟨by omega, by omega⟩
    rw [Int32.ofInt_sub, Int32.ofInt_add, Int32.ofInt_toInt, Int32.ofInt_eq_ofNat]
    rfl
  have hcast : (l.managed.length + (l.gridSize columns).1 - 1 : Int) =
      ((l.managed.length + (l.gridSize columns).1 - 1 : Nat) : Int) := by omega
  have hrows : (l.gridRows columns).toInt = (l.gridSize columns).2 := by
    rw [gridRows, Int32.toInt_div_of_ne_right _ _ hne, hsum, hc, Int.tdiv_eq_ediv_of_nonneg (by omega),
      hcast]
    rfl
  refine ⟨hrows, ?_⟩
  exact Nat.div_pos (by omega) hcpos

/-- The spot of the `k`-th widget of a grid, in its row and column. -/
structure AtCell (columns : Int32) (l : Layout) (ws : Table) (k : Nat) (v : Widget) : Prop where
  x : v.x.toInt = l.cellStart (ws.sizeAt l.parent).1.toInt (l.gridSize columns).1
    (k % (l.gridSize columns).1 : Nat)
  y : v.y.toInt = l.cellStart (ws.sizeAt l.parent).2.toInt (l.gridSize columns).2
    (k / (l.gridSize columns).1 : Nat)
  w : v.w.toInt = l.cellExtent (ws.sizeAt l.parent).1.toInt (l.gridSize columns).1
  h : v.h.toInt = l.cellExtent (ws.sizeAt l.parent).2.toInt (l.gridSize columns).2

/-- A widget stands in one of the rows. -/
theorem row_lt {k : Nat} (hk : k < l.managed.length) :
    k / (l.gridSize columns).1 < (l.gridSize columns).2 := by
  obtain ⟨-, hcpos⟩ := toInt_gridColumns columns l
  have hrows : (l.gridSize columns).2 =
      (l.managed.length + (l.gridSize columns).1 - 1) / (l.gridSize columns).1 := rfl
  rw [hrows, Nat.div_lt_iff_lt_mul hcpos]
  have hup := Nat.lt_div_mul_add (a := l.managed.length + (l.gridSize columns).1 - 1) hcpos
  omega

include hs hp in
theorem Placed.grid (hplaced : l.Placed mem (l.spot ws) ws ws') (h : l.Owns ws)
    (hacc : l.Accepts mem ws) (hspot : l.spot ws = fun k _ => l.gridSpot columns ws k)
    (hfits : l.GridFits (l.gridSize columns).1 (l.gridSize columns).2 ws) {k : Nat} {v : Widget}
    (hv : l.child ws' k = some v) : l.AtCell columns ws k v := by
  have hk := lt_of_child hv
  obtain ⟨v', hv', hw, hh, hx, hy, -⟩ := hplaced.has_spot h hacc hk
  rw [child_eq hk, hv'] at hv
  obtain rfl := Option.some.inj hv
  rw [hspot] at hw hh hx hy
  obtain ⟨hc, hcpos⟩ := toInt_gridColumns columns l
  obtain ⟨hr, hrpos⟩ := toInt_gridRows hfits (Nat.zero_lt_of_lt hk)
  have hC : 0 < gridColumns columns := gridColumns_pos columns
  have hR : 0 < l.gridRows columns := toInt_pos.mpr (by omega)
  have hroom := l.room
  have hindex : (Int32.ofNat k).toInt = k := Int32.toInt_ofNat_of_lt (by omega)
  have hcol : (Int32.ofNat k % gridColumns columns).toInt = (k % (l.gridSize columns).1 : Nat) := by
    rw [Int32.toInt_mod, hindex, hc, Int.tmod_eq_emod_of_nonneg (Int.natCast_nonneg k)]
    rfl
  have hrow : (Int32.ofNat k / gridColumns columns).toInt = (k / (l.gridSize columns).1 : Nat) := by
    have hne : gridColumns columns ≠ -1 := by
      intro heq
      rw [heq] at hC
      exact absurd hC (by decide)
    rw [Int32.toInt_div_of_ne_right _ _ hne, hindex, hc,
      Int.tdiv_eq_ediv_of_nonneg (Int.natCast_nonneg k)]
    rfl
  have hwidth := hfits.width
  have hheight := hfits.height
  obtain ⟨hplaceX, hplaceY⟩ := hfits.places k hk
  rw [← hc] at hwidth
  rw [← hr] at hheight
  constructor
  · rw [hx, ← hc, ← hcol]
    refine toInt_cellStart hs hp hC hwidth ?_ ?_ ?_
    · rw [hcol]
      exact Int.natCast_nonneg _
    · rw [hcol, hc]
      exact_mod_cast Nat.mod_lt k hcpos
    · rw [hcol]
      exact hplaceX
  · rw [hy, ← hr, ← hrow]
    refine toInt_cellStart hs hp hR hheight ?_ ?_ ?_
    · rw [hrow]
      exact Int.natCast_nonneg _
    · rw [hrow, hr]
      exact_mod_cast row_lt hk
    · rw [hrow]
      exact hplaceY
  · rw [hw, ← hc]
    exact toInt_cell hs hp hC hwidth
  · rw [hh, ← hr]
    exact toInt_cell hs hp hR hheight

include hs hp in
theorem Placed.inGrid (hplaced : l.Placed mem (l.spot ws) ws ws') (h : l.Owns ws)
    (hacc : l.Accepts mem ws) (hspot : l.spot ws = fun k _ => l.gridSpot columns ws k)
    (hfits : l.GridFits (l.gridSize columns).1 (l.gridSize columns).2 ws) :
    l.InGrid (l.gridSize columns).1 ws' := by
  have hgap := toInt_nonneg.mp hs
  have hcell : ∀ k v, l.child ws' k = some v → l.AtCell columns ws k v := fun k v hv =>
    hplaced.grid hs hp h hacc hspot hfits hv
  obtain ⟨-, hcpos⟩ := toInt_gridColumns columns l
  constructor
  · intro k v u hsame hv hu
    obtain ⟨hrow, hcol⟩ := next_in_row hsame
    have hvx := (hcell k v hv).x
    have hvy := (hcell k v hv).y
    have hux := (hcell (k + 1) u hu).x
    have huy := (hcell (k + 1) u hu).y
    rw [hcol, Int.natCast_succ, cellStart_succ, ← hvx, ← (hcell k v hv).w] at hux
    rw [hrow, ← hvy] at huy
    exact ⟨Int32.toInt_inj.mp huy, hux⟩
  · intro k v u hv hu
    have hux := (hcell _ u hu).x
    have huy := (hcell _ u hu).y
    rw [Nat.add_mod_right, ← (hcell k v hv).x] at hux
    rw [Nat.add_div_right k hcpos, Int.natCast_succ, cellStart_succ, ← (hcell k v hv).y,
      ← (hcell k v hv).h] at huy
    exact ⟨Int32.toInt_inj.mp hux, huy⟩
  · intro i j v u hij hv hu
    obtain ⟨hrow, hcol⟩ | hrow := row_or_below hij
    · have huy := (hcell j u hu).y
      rw [← hrow, ← (hcell i v hv).y] at huy
      refine .inl ⟨Int32.toInt_inj.mp huy, ?_⟩
      rw [(hcell i v hv).x, (hcell i v hv).w, (hcell j u hu).x]
      exact cellStart_le hgap (Int.ofNat_lt.mpr hcol)
    · right
      rw [(hcell i v hv).y, (hcell i v hv).h, (hcell j u hu).y]
      exact cellStart_le hgap (Int.ofNat_lt.mpr hrow)

include hs hp in
/-- Where a pixel for each column and row and the gaps fit in the padded parent, so does each widget. -/
theorem Placed.grid_inside (hplaced : l.Placed mem (l.spot ws) ws ws') (h : l.Owns ws)
    (hacc : l.Accepts mem ws) (hspot : l.spot ws = fun k _ => l.gridSpot columns ws k)
    (hfits : l.GridFits (l.gridSize columns).1 (l.gridSize columns).2 ws)
    (hwidth : l.CellsFit (ws.sizeAt l.parent).1.toInt (l.gridSize columns).1)
    (hheight : l.CellsFit (ws.sizeAt l.parent).2.toInt (l.gridSize columns).2) {k : Nat} {v : Widget}
    (hv : l.child ws' k = some v) : l.Inside ws v := by
  have hgap := toInt_nonneg.mp hs
  have hk := lt_of_child hv
  have hcell := hplaced.grid hs hp h hacc hspot hfits hv
  obtain ⟨-, hcpos⟩ := toInt_gridColumns columns l
  obtain ⟨-, hrpos⟩ := toInt_gridRows hfits (Nat.zero_lt_of_lt hk)
  have hright := cellEnd_le hgap (Int.ofNat_lt.mpr (Nat.mod_lt k hcpos))
    (cells_fit (Int.natCast_pos.mpr hcpos) hwidth)
  have hbottom := cellEnd_le hgap (Int.ofNat_lt.mpr (row_lt hk))
    (cells_fit (Int.natCast_pos.mpr hrpos) hheight)
  rw [← hcell.x, ← hcell.w] at hright
  rw [← hcell.y, ← hcell.h] at hbottom
  refine ⟨⟨Int32.le_iff_toInt_le.mpr ?_, hright⟩, Int32.le_iff_toInt_le.mpr ?_, hbottom⟩
  · rw [hcell.x]
    exact padding_le_cellStart hgap (Int.natCast_nonneg _)
  · rw [hcell.y]
    exact padding_le_cellStart hgap (Int.natCast_nonneg _)

end Grid

end Layout
end Sizing
end Hashx86
