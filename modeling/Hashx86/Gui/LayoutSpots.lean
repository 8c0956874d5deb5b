import Hashx86.Gui.Relayout
import Hashx86.Lib.ModifyFold
import Mathlib.Data.List.Basic

/-!
# Where a layout puts its widgets (`gui/layout.cpp`)

* `Spot`, `spot`: the size and the place that `Relayout` computes for a managed widget.
* `Placed`, `relayout_placed`: `Relayout` asks each managed widget to take its spot, once, and leaves
  the other widgets alone.
* `Accepts`: no managed widget refuses its size; `Placed.has_spot`: then each of them is in its spot.
* `relayout_again`: and a second `Relayout` changes nothing.
-/

namespace Hashx86
namespace Sizing
namespace Layout

open Lib

variable {l : Layout} {ws ws' : Table} {mem : Nat → Bool} {vertical : Bool}

/-! ## Spots -/

structure Spot where
  w : Int32
  h : Int32
  x : Int32
  y : Int32

/-- A managed widget that is asked to take its spot. -/
def Spot.put (s : Spot) (mem : Bool) : Widget → Widget := place mem s.w s.h s.x s.y

def flexTotal (l : Layout) : Int32 :=
  l.managed.foldl (fun t m => if 0 < m.2 then t + m.2 else t) 0

def fixedTotal (vertical : Bool) (l : Layout) (ws : Table) : Int32 :=
  l.managed.foldl (fun t m => if 0 < m.2 then t else t + main vertical (ws.sizeAt m.1)) 0

def free (vertical : Bool) (l : Layout) (ws : Table) : Int32 :=
  atLeast 0 (atLeast 0 (main vertical (ws.sizeAt l.parent) - 2 * l.padding -
    l.spacing * (l.count - 1)) - l.fixedTotal vertical ws)

def extent (vertical : Bool) (l : Layout) (ws : Table) (m : Nat × Int32) : Int32 :=
  if 0 < m.2 ∧ 0 < l.flexTotal then l.free vertical ws * m.2 / l.flexTotal
  else main vertical (ws.sizeAt m.1)

def across (vertical : Bool) (l : Layout) (ws : Table) : Int32 :=
  cross vertical (ws.sizeAt l.parent) - 2 * l.padding

/-- The place along a box after the widgets `ms`. -/
def boxPos (vertical : Bool) (l : Layout) (ws : Table) (ms : List (Nat × Int32)) : Int32 :=
  ms.foldl (fun pos m => pos + l.extent vertical ws m + l.spacing) l.padding

def boxSpot (vertical : Bool) (l : Layout) (ws : Table) (k : Nat) (m : Nat × Int32) : Spot :=
  let extent := l.extent vertical ws m
  let across := l.across vertical ws
  let pos := l.boxPos vertical ws (l.managed.take k)
  if vertical then ⟨across, extent, l.padding, pos⟩ else ⟨extent, across, pos, l.padding⟩

/-- The columns that `GridLayout::GridLayout` keeps. -/
def gridColumns (columns : Int32) : Int32 := if columns < 1 then 1 else columns

def gridRows (columns : Int32) (l : Layout) : Int32 :=
  (l.count + gridColumns columns - 1) / gridColumns columns

/-- The extent of a cell, of a parent with the extent `size` that has `cells` of them. -/
def cell (l : Layout) (size cells : Int32) : Int32 :=
  atLeast 1 ((size - 2 * l.padding - l.spacing * (cells - 1)) / cells)

def gridSpot (columns : Int32) (l : Layout) (ws : Table) (k : Nat) : Spot :=
  let cellW := l.cell (ws.sizeAt l.parent).1 (gridColumns columns)
  let cellH := l.cell (ws.sizeAt l.parent).2 (l.gridRows columns)
  ⟨cellW, cellH, l.padding + Int32.ofNat k % gridColumns columns * (cellW + l.spacing),
    l.padding + Int32.ofNat k / gridColumns columns * (cellH + l.spacing)⟩

/-- The spot of the managed widget `m`, which is the `k`-th. -/
def spot (l : Layout) (ws : Table) (k : Nat) (m : Nat × Int32) : Spot :=
  match l.kind with
  | .vBox => l.boxSpot true ws k m
  | .hBox => l.boxSpot false ws k m
  | .grid columns => l.gridSpot columns ws k

/-! ## What a run of `Relayout` does -/

/-- The managed widgets are different ones, of the table, and not the parent. -/
structure Owns (l : Layout) (ws : Table) : Prop where
  distinct : (l.managed.map Prod.fst).Nodup
  parent : l.parent ∉ l.managed.map Prod.fst
  exist : ∀ m ∈ l.managed, m.1 < ws.length

/-- Each managed widget has been asked once to take its spot. -/
structure Placed (l : Layout) (mem : Nat → Bool) (spot : Nat → Nat × Int32 → Spot)
    (ws ws' : Table) : Prop where
  managed : ∀ (k : Nat) (hk : k < l.managed.length), ws'[l.managed[k].1]? =
    ws[l.managed[k].1]?.map ((spot k l.managed[k]).put (mem l.managed[k].1))
  others : ∀ i ∉ l.managed.map Prod.fst, ws'[i]? = ws[i]?

/-- One widget of a box. -/
def boxStep (vertical : Bool) (mem : Nat → Bool) (l : Layout) (flexTotal free : Int32)
    (acc : Table × Int32) (m : Nat × Int32) : Table × Int32 :=
  let extent :=
    if 0 < m.2 ∧ 0 < flexTotal then free * m.2 / flexTotal
    else main vertical (acc.1.sizeAt m.1)
  let across := cross vertical (acc.1.sizeAt l.parent) - 2 * l.padding
  (acc.1.modify m.1 (placeInBox vertical (mem m.1) extent across acc.2 l.padding),
    acc.2 + extent + l.spacing)

theorem boxRelayout_eq (vertical : Bool) (mem : Nat → Bool) (l : Layout) (ws : Table) :
    l.boxRelayout vertical mem ws = (l.managed.foldl
      (l.boxStep vertical mem l.flexTotal (l.free vertical ws)) (ws, l.padding)).1 := rfl

theorem sizeAt_congr {i : Nat} (h : ws'[i]? = ws[i]?) : Table.sizeAt ws' i = Table.sizeAt ws i := by
  rw [Table.sizeAt, Table.sizeAt, h]

/-- A managed widget is none of those before it. -/
theorem Owns.not_before (h : l.Owns ws) {k : Nat} (hk : k < l.managed.length) :
    l.managed[k].1 ∉ (l.managed.take k).map Prod.fst := by
  intro hmem
  have hnodup := h.distinct
  rw [← List.take_append_drop k l.managed, List.map_append, List.nodup_append] at hnodup
  refine hnodup.2.2 _ hmem _ (List.mem_map_of_mem (?_ : l.managed[k] ∈ _)) rfl
  rw [List.drop_eq_getElem_cons hk]
  exact List.mem_cons_self

theorem Owns.parent_not_before (h : l.Owns ws) (k : Nat) :
    l.parent ∉ (l.managed.take k).map Prod.fst := fun hmem =>
  h.parent (List.map_subset _ (List.take_subset k l.managed) hmem)

/-- Before its turn a managed widget has the size that it had at first, and so has the parent; and the
place is that after the widgets before. -/
theorem boxStep_before (vertical : Bool) (mem : Nat → Bool) (h : l.Owns ws) {k : Nat} (hk : k < l.managed.length) :
    let acc := (l.managed.take k).foldl (l.boxStep vertical mem l.flexTotal (l.free vertical ws))
      (ws, l.padding)
    acc.1.sizeAt l.managed[k].1 = ws.sizeAt l.managed[k].1 ∧
      acc.1.sizeAt l.parent = ws.sizeAt l.parent ∧
      acc.2 = l.boxPos vertical ws (l.managed.take k) := by
  have hsame : ∀ j ≤ k, ∀ i ∉ (l.managed.take j).map Prod.fst,
      ((l.managed.take j).foldl (l.boxStep vertical mem l.flexTotal (l.free vertical ws))
        (ws, l.padding)).1[i]? = ws[i]? := fun j _ i hi =>
    foldl_modify_ne Prod.fst Prod.fst (fun _ _ => rfl) _ (ws, l.padding) hi
  refine ⟨sizeAt_congr (hsame k (Nat.le_refl k) _ (h.not_before hk)),
    sizeAt_congr (hsame k (Nat.le_refl k) _ (h.parent_not_before k)), ?_⟩
  induction k with
  | zero => rfl
  | succ k ih =>
    have hk' : k < l.managed.length := by omega
    have hsize := sizeAt_congr (hsame k (Nat.le_succ k) _ (h.not_before hk'))
    rw [List.take_succ_eq_append_getElem hk', List.foldl_append, boxPos, List.foldl_append, ← boxPos,
      ← ih hk' fun j hj => hsame j (by omega)]
    simp only [List.foldl_cons, List.foldl_nil, boxStep, extent, hsize]

theorem boxRelayout_placed (h : l.Owns ws) (vertical : Bool) (mem : Nat → Bool) :
    l.Placed mem (l.boxSpot vertical ws) ws (l.boxRelayout vertical mem ws) := by
  rw [boxRelayout_eq]
  refine ⟨fun k hk => ?_, fun i hi => ?_⟩
  · obtain ⟨hsize, hparent, hpos⟩ := boxStep_before vertical mem h hk
    rw [foldl_modify_getElem? Prod.fst Prod.fst (fun _ _ => rfl) h.distinct _ hk]
    dsimp only
    rw [hsize, hparent, hpos, placeInBox, boxSpot]
    cases vertical <;> rfl
  · exact foldl_modify_ne Prod.fst Prod.fst (fun _ _ => rfl) _ _ hi

theorem idiv_pos {a b : Int32} (hb : 0 < b) : idiv a b = some (a / b) := by
  have hpos := toInt_pos.mp hb
  refine if_neg fun h => ?_
  obtain rfl | ⟨-, rfl⟩ := h
  · exact absurd hpos (by decide)
  · exact absurd hpos (by decide)

theorem gridColumns_pos (columns : Int32) : 0 < gridColumns columns := by
  rw [gridColumns]
  grind

theorem toInt_count (l : Layout) : l.count.toInt = l.managed.length := by
  have hroom := l.room
  exact Int32.toInt_ofNat_of_lt (by omega)

/-- One widget of a grid. -/
def gridStep (columns : Int32) (mem : Nat → Bool) (l : Layout) (ws₀ : Table) (ws : Table)
    (m : (Nat × Int32) × Nat) : Table :=
  ws.modify m.1.1 ((l.gridSpot columns ws₀ m.2).put (mem m.1.1))

theorem gridStep_eq (columns : Int32) (mem : Nat → Bool) (l : Layout) (ws₀ ws : Table)
    (m : (Nat × Int32) × Nat) : l.gridStep columns mem ws₀ ws m =
      ws.modify m.1.1 ((l.gridSpot columns ws₀ m.2).put (mem m.1.1)) := rfl

theorem gridRelayout_eq {columns : Int32}
    (hrows : 0 < l.managed.length → 0 < l.gridRows columns) (mem : Nat → Bool) (ws : Table) : l.gridRelayout columns mem ws =
      some (l.managed.zipIdx.foldl (l.gridStep columns mem ws) ws) := by
  rw [gridRelayout]
  by_cases hnone : l.count = 0
  · have hlen := l.toInt_count
    rw [hnone, Int32.toInt_zero] at hlen
    obtain hnil : l.managed = [] := List.eq_nil_of_length_eq_zero (by omega)
    rw [if_pos hnone, hnil]
    rfl
  · have hpos : 0 < l.managed.length := by
      refine Nat.pos_of_ne_zero fun hzero => hnone ?_
      rw [count, hzero]
      rfl
    rw [if_neg hnone]
    show (idiv (l.count + gridColumns columns - 1) (gridColumns columns) >>= _) = _
    rw [idiv_pos (gridColumns_pos columns), Option.bind_eq_bind, Option.bind_some]
    show (idiv _ (gridColumns columns) >>= _) = _
    rw [idiv_pos (gridColumns_pos columns), Option.bind_eq_bind, Option.bind_some]
    show (idiv _ (l.gridRows columns) >>= _) = _
    rw [idiv_pos (hrows hpos), Option.bind_eq_bind, Option.bind_some]
    rfl

theorem gridRelayout_placed (h : l.Owns ws) (columns : Int32) (mem : Nat → Bool) :
    l.Placed mem (fun k _ => l.gridSpot columns ws k) ws
      (l.managed.zipIdx.foldl (l.gridStep columns mem ws) ws) := by
  have hkeys : l.managed.zipIdx.map (fun m => m.1.1) = l.managed.map Prod.fst := by
    conv => rhs; rw [← List.zipIdx_map_fst 0 l.managed, List.map_map]
    rfl
  refine ⟨fun k hk => ?_, fun i hi => ?_⟩
  · have hk' : k < l.managed.zipIdx.length := by
      rw [List.length_zipIdx]
      exact hk
    have hget := foldl_modify_getElem? id (fun m => m.1.1) (l.gridStep_eq columns mem ws)
      (hkeys ▸ h.distinct) ws hk'
    rw [List.getElem_zipIdx, Nat.zero_add] at hget
    exact hget
  · rw [← hkeys] at hi
    exact foldl_modify_ne id (fun m => m.1.1) (l.gridStep_eq columns mem ws) _ ws hi

theorem relayout_placed (h : l.Owns ws)
    (hrows : ∀ columns, l.kind = .grid columns → 0 < l.managed.length → 0 < l.gridRows columns)
    (mem : Nat → Bool) : ∃ ws', l.relayout mem ws = some ws' ∧ l.Placed mem (l.spot ws) ws ws' := by
  unfold relayout spot
  cases hkind : l.kind with
  | vBox => exact ⟨_, rfl, boxRelayout_placed h true mem⟩
  | hBox => exact ⟨_, rfl, boxRelayout_placed h false mem⟩
  | grid columns =>
    exact ⟨_, gridRelayout_eq (hrows columns hkind) mem ws, gridRelayout_placed h columns mem⟩

/-! ## The second time -/

/-- No managed widget refuses the size of its spot. -/
def Accepts (l : Layout) (mem : Nat → Bool) (ws : Table) : Prop :=
  ∀ (k : Nat) (hk : k < l.managed.length) (v : Widget), ws[l.managed[k].1]? = some v →
    (v.resize (mem l.managed[k].1) (l.spot ws k l.managed[k]).w (l.spot ws k l.managed[k]).h).1 = true

/-- A size that is not refused is not negative. -/
theorem resize_nonneg {mem : Bool} {newW newH : Int32} {v : Widget}
    (hr : (v.resize mem newW newH).1 = true) : 0 ≤ newW ∧ 0 ≤ newH := by
  rw [Widget.resize] at hr
  split at hr
  · cases hr
  next hneg => grind

/-- A widget that has its spot stays as it is. -/
theorem put_of_eq {s : Spot} {v : Widget} (mem : Bool) (hnonneg : 0 ≤ s.w ∧ 0 ≤ s.h) (hw : v.w = s.w)
    (hh : v.h = s.h) (hx : v.x = s.x) (hy : v.y = s.y) : s.put mem v = v := by
  have hpos : ¬ (s.w < 0 ∨ s.h < 0) := by grind
  have hresize : v.resize mem s.w s.h = (true, v) := by
    rw [Widget.resize, if_neg hpos, if_pos ⟨hw.symm, hh.symm⟩]
  rw [Spot.put, place, hresize, ← hx, ← hy]

/-- Where nothing is refused each managed widget is in its spot. -/
theorem Placed.has_spot (hplaced : l.Placed mem (l.spot ws) ws ws') (h : l.Owns ws)
    (hacc : l.Accepts mem ws) {k : Nat} (hk : k < l.managed.length) :
    ∃ v, ws'[l.managed[k].1]? = some v ∧ v.w = (l.spot ws k l.managed[k]).w ∧
      v.h = (l.spot ws k l.managed[k]).h ∧ v.x = (l.spot ws k l.managed[k]).x ∧
      v.y = (l.spot ws k l.managed[k]).y ∧ 0 ≤ v.w ∧ 0 ≤ v.h := by
  have hv := List.getElem?_eq_getElem (h.exist _ (List.getElem_mem hk))
  have hnew := hplaced.managed k hk
  rw [hv, Option.map_some] at hnew
  have htrue := hacc k hk _ hv
  obtain ⟨cache, hresize⟩ := Widget.resize_true htrue
  obtain ⟨hw, hh⟩ := resize_nonneg htrue
  rw [Spot.put, place, hresize] at hnew
  exact ⟨_, hnew, rfl, rfl, rfl, rfl, hw, hh⟩

theorem Placed.sizeAt_parent {spot : Nat → Nat × Int32 → Spot} (hplaced : l.Placed mem spot ws ws')
    (h : l.Owns ws) : ws'.sizeAt l.parent = ws.sizeAt l.parent :=
  sizeAt_congr (hplaced.others _ h.parent)

theorem Placed.sizeAt_managed (hplaced : l.Placed mem (l.spot ws) ws ws') (h : l.Owns ws)
    (hacc : l.Accepts mem ws) {k : Nat} (hk : k < l.managed.length) :
    ws'.sizeAt l.managed[k].1 = ((l.spot ws k l.managed[k]).w, (l.spot ws k l.managed[k]).h) := by
  obtain ⟨v, hv, hw, hh, -⟩ := hplaced.has_spot h hacc hk
  rw [Table.sizeAt, hv, ← hw, ← hh]
  rfl

/-- What is computed for a box depends on the sizes of the parent and of the widgets that get no share. -/
theorem extent_congr (hparent : ws'.sizeAt l.parent = ws.sizeAt l.parent)
    (hfixed : ∀ m ∈ l.managed, ¬ (0 < m.2 ∧ 0 < l.flexTotal) →
      main vertical (ws'.sizeAt m.1) = main vertical (ws.sizeAt m.1))
    {m : Nat × Int32} (hm : m ∈ l.managed) : l.extent vertical ws' m = l.extent vertical ws m := by
  have htotal : l.fixedTotal vertical ws' = l.fixedTotal vertical ws := by
    refine List.foldl_ext _ _ _ fun t m hm => ?_
    by_cases hflex : 0 < m.2
    · rw [if_pos hflex, if_pos hflex]
    · rw [if_neg hflex, if_neg hflex, hfixed m hm fun h => hflex h.1]
  rw [extent, extent, free, free, hparent, htotal]
  split
  · rfl
  next hno => exact hfixed m hm hno

theorem boxSpot_congr (hparent : ws'.sizeAt l.parent = ws.sizeAt l.parent)
    (hfixed : ∀ m ∈ l.managed, ¬ (0 < m.2 ∧ 0 < l.flexTotal) →
      main vertical (ws'.sizeAt m.1) = main vertical (ws.sizeAt m.1))
    (k : Nat) {m : Nat × Int32} (hm : m ∈ l.managed) :
    l.boxSpot vertical ws' k m = l.boxSpot vertical ws k m := by
  have hpos : l.boxPos vertical ws' (l.managed.take k) = l.boxPos vertical ws (l.managed.take k) := by
    refine List.foldl_ext _ _ _ fun pos m hm => ?_
    rw [extent_congr hparent hfixed (List.mem_of_mem_take hm)]
  rw [boxSpot, boxSpot, hpos, extent_congr hparent hfixed hm, across, across, hparent]

/-- A widget of a box that gets no share keeps its extent. -/
theorem main_boxSpot (ws : Table) (k : Nat) {m : Nat × Int32} (hfixed : ¬ (0 < m.2 ∧ 0 < l.flexTotal)) :
    main vertical ((l.boxSpot vertical ws k m).w, (l.boxSpot vertical ws k m).h) =
      main vertical (ws.sizeAt m.1) := by
  have hextent : l.extent vertical ws m = main vertical (ws.sizeAt m.1) := if_neg hfixed
  rw [boxSpot, hextent]
  cases vertical <;> rfl

/-- The spots are the same when the widgets are in them. -/
theorem Placed.spot_eq (hplaced : l.Placed mem (l.spot ws) ws ws') (h : l.Owns ws)
    (hacc : l.Accepts mem ws) {k : Nat} {m : Nat × Int32} (hm : m ∈ l.managed) :
    l.spot ws' k m = l.spot ws k m := by
  have hparent := hplaced.sizeAt_parent h
  have hbox : ∀ vertical, l.spot ws = l.boxSpot vertical ws → ∀ m ∈ l.managed,
      ¬ (0 < m.2 ∧ 0 < l.flexTotal) →
      main vertical (ws'.sizeAt m.1) = main vertical (ws.sizeAt m.1) := by
    intro vertical hspot m hm hfixed
    obtain ⟨j, hj, rfl⟩ := List.mem_iff_getElem.mp hm
    rw [hplaced.sizeAt_managed h hacc hj, hspot, main_boxSpot ws j hfixed]
  unfold spot
  cases hkind : l.kind with
  | vBox =>
    refine boxSpot_congr hparent (hbox true ?_) k hm
    funext k m
    rw [spot, hkind]
  | hBox =>
    refine boxSpot_congr hparent (hbox false ?_) k hm
    funext k m
    rw [spot, hkind]
  | grid columns =>
    dsimp only
    rw [gridSpot, gridSpot, hparent]

/-- A second `Relayout` changes nothing. -/
theorem relayout_again (hplaced : l.Placed mem (l.spot ws) ws ws') (h : l.Owns ws)
    (hacc : l.Accepts mem ws)
    (hrows : ∀ columns, l.kind = .grid columns → 0 < l.managed.length → 0 < l.gridRows columns)
    (mem' : Nat → Bool) : l.relayout mem' ws' = some ws' := by
  have hown : l.Owns ws' := by
    refine ⟨h.distinct, h.parent, fun m hm => ?_⟩
    obtain ⟨k, hk, rfl⟩ := List.mem_iff_getElem.mp hm
    obtain ⟨v, hv, -⟩ := hplaced.has_spot h hacc hk
    exact (List.getElem?_eq_some_iff.mp hv).1
  obtain ⟨ws'', hrun, hagain⟩ := relayout_placed hown hrows mem'
  rw [hrun]
  refine congrArg some (List.ext_getElem? fun i => ?_)
  by_cases hi : i ∈ l.managed.map Prod.fst
  · obtain ⟨m, hm, rfl⟩ := List.mem_map.mp hi
    obtain ⟨k, hk, rfl⟩ := List.mem_iff_getElem.mp hm
    obtain ⟨v, hv, hw, hh, hx, hy, hnonneg⟩ := hplaced.has_spot h hacc hk
    rw [hagain.managed k hk, hplaced.spot_eq h hacc hm, hv, Option.map_some,
      put_of_eq _ (hw ▸ hh ▸ hnonneg) hw hh hx hy]
  · exact hagain.others i hi

end Layout
end Sizing
end Hashx86
