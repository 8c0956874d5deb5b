import Hashx86.Gui.Arranged
import Hashx86.Lib.Strip
import Hashx86.Lib.Word64

/-!
# Boxes (`VBoxLayout` and `HBoxLayout` in `gui/layout.cpp`)

* `BoxFits`: where no sum or product leaves 32 bits; `toInt_extent`, `toInt_boxPos`: then the extents
  and the places are those of the integers.
* `sum_lens_le`: the widgets get at most what is left for them.
* `Placed.inLine`, `Placed.box_inside`: so they are in line, and inside where there is room.
-/

namespace Hashx86
namespace Sizing
namespace Layout

open Lib

variable {l : Layout} {ws ws' : Table} {mem : Nat → Bool} {vertical : Bool}

def stretches (l : Layout) : List Int := l.managed.map fun m => max 0 m.2.toInt

/-- The extents of the widgets without a stretch. -/
def fixedExtents (vertical : Bool) (l : Layout) (ws : Table) : List Int :=
  l.managed.map fun m => if 0 < m.2 then 0 else (main vertical (ws.sizeAt m.1)).toInt

def gaps (l : Layout) : Int := l.spacing.toInt * (l.managed.length - 1)

/-- What the padding and the gaps leave of the parent. -/
def avail (vertical : Bool) (l : Layout) (ws : Table) : Int :=
  (main vertical (ws.sizeAt l.parent)).toInt - 2 * l.padding.toInt - l.gaps

/-- What is left for the widgets with a stretch. -/
def spare (vertical : Bool) (l : Layout) (ws : Table) : Int :=
  max 0 (max 0 (l.avail vertical ws) - (l.fixedExtents vertical ws).sum)

/-- Where no sum or product for a box leaves 32 bits. -/
structure BoxFits (vertical : Bool) (l : Layout) (ws : Table) : Prop where
  avail : -2 ^ 31 ≤ l.avail vertical ws
  across : -2 ^ 31 ≤ (cross vertical (ws.sizeAt l.parent)).toInt - 2 * l.padding.toInt
  fixed : l.padding.toInt + (l.fixedExtents vertical ws).sum + l.gaps < 2 ^ 31
  stretch : l.stretches.sum < 2 ^ 31
  share : ∀ m ∈ l.managed, l.spare vertical ws * m.2.toInt < 2 ^ 31

theorem toInt_flexTotal (hfit : l.stretches.sum < 2 ^ 31) : l.flexTotal.toInt = l.stretches.sum := by
  have hterm : ∀ m : Nat × Int32, (if 0 < m.2 then m.2 else 0).toInt = max 0 m.2.toInt := by
    intro m
    split
    next h => rw [max_eq_right (Int.le_of_lt (toInt_pos.mp h))]
    next h => rw [max_eq_left (Int.not_lt.mp fun hpos => h (toInt_pos.mpr hpos)), Int32.toInt_zero]
  have hfold : l.flexTotal = l.managed.foldl (fun t m => t + if 0 < m.2 then m.2 else 0) 0 := by
    refine List.foldl_ext _ _ _ fun t m _ => ?_
    split
    · rfl
    · rw [Int32.add_zero]
  have hsum := toInt_foldl_add (g := fun m : Nat × Int32 => if 0 < m.2 then m.2 else 0) l.managed
    (fun m _ => by rw [hterm]; omega) (t := 0) (Int.le_refl 0)
  simp only [hterm, Int32.toInt_zero, Int.zero_add] at hsum
  rw [hfold, hsum hfit]
  rfl

theorem toInt_fixedTotal (hfixed : ∀ n ∈ l.fixedExtents vertical ws, 0 ≤ n)
    (hfit : (l.fixedExtents vertical ws).sum < 2 ^ 31) :
    (l.fixedTotal vertical ws).toInt = (l.fixedExtents vertical ws).sum := by
  have hterm : ∀ m : Nat × Int32, (if 0 < m.2 then 0 else main vertical (ws.sizeAt m.1)).toInt =
      if 0 < m.2 then 0 else (main vertical (ws.sizeAt m.1)).toInt := by
    intro m
    split <;> rfl
  have hfold : l.fixedTotal vertical ws = l.managed.foldl
      (fun t m => t + if 0 < m.2 then 0 else main vertical (ws.sizeAt m.1)) 0 := by
    refine List.foldl_ext _ _ _ fun t m _ => ?_
    split
    · rw [Int32.add_zero]
    · rfl
  have hsum := toInt_foldl_add
    (g := fun m : Nat × Int32 => if 0 < m.2 then 0 else main vertical (ws.sizeAt m.1)) l.managed
    (fun m hm => by rw [hterm]; exact hfixed _ (List.mem_map_of_mem hm)) (t := 0) (Int.le_refl 0)
  simp only [hterm, Int32.toInt_zero, Int.zero_add] at hsum
  rw [hfold, hsum hfit]
  rfl

/-- The part of the spare extent that a widget with the stretch `n` gets. -/
def share (vertical : Bool) (l : Layout) (ws : Table) (n : Int) : Int :=
  (l.spare vertical ws * n).tdiv l.stretches.sum

/-- The extents of the widgets of a box. -/
def lens (vertical : Bool) (l : Layout) (ws : Table) : List Int :=
  l.managed.map fun m => (if 0 < m.2 then 0 else (main vertical (ws.sizeAt m.1)).toInt) +
    l.share vertical ws (max 0 m.2.toInt)

section Box

variable (hs : 0 ≤ l.spacing) (hp : 0 ≤ l.padding) (hpos : 0 < l.managed.length)
  (hfixed : ∀ n ∈ l.fixedExtents vertical ws, 0 ≤ n)

include hs hpos in
theorem gaps_nonneg : 0 ≤ l.gaps :=
  Int.mul_nonneg (toInt_nonneg.mp hs) (by omega)

theorem stretches_nonneg : ∀ n ∈ l.stretches, 0 ≤ n := by
  intro n hn
  obtain ⟨m, -, rfl⟩ := List.mem_map.mp hn
  exact le_max_left 0 _

include hs hp hpos hfixed in
theorem toInt_free (hfits : l.BoxFits vertical ws) :
    (l.free vertical ws).toInt = l.spare vertical ws := by
  have hgaps := gaps_nonneg hs hpos
  have hpad := toInt_nonneg.mp hp
  have hsum := List.sum_nonneg hfixed
  have hfixedSum := hfits.fixed
  have hwidth := (main vertical (ws.sizeAt l.parent)).toInt_lt
  have havail : (main vertical (ws.sizeAt l.parent) - 2 * l.padding -
      l.spacing * (l.count - 1)).toInt = l.avail vertical ws := by
    refine toInt_of_eq ?_ ⟨hfits.avail, by rw [avail]; omega⟩
    rw [avail, gaps, Int32.ofInt_sub, Int32.ofInt_sub, Int32.ofInt_mul, Int32.ofInt_mul,
      Int32.ofInt_sub, Int32.ofInt_toInt, Int32.ofInt_toInt, Int32.ofInt_toInt, Int32.ofInt_eq_ofNat]
    rfl
  have hlow := hfits.avail
  have htotal := toInt_fixedTotal hfixed (by omega)
  have hsub := toInt_sub_eq (m := atLeast 0 (main vertical (ws.sizeAt l.parent) - 2 * l.padding -
      l.spacing * (l.count - 1))) (n := l.fixedTotal vertical ws)
  rw [toInt_atLeast, htotal, havail, Int32.toInt_zero] at hsub
  have havailLt : l.avail vertical ws < 2 ^ 31 := by
    rw [avail]
    omega
  rw [free, toInt_atLeast, hsub (by omega) (by omega), Int32.toInt_zero, spare]

include hs hp hpos hfixed in
theorem toInt_extent (hfits : l.BoxFits vertical ws) {m : Nat × Int32} (hm : m ∈ l.managed) :
    (l.extent vertical ws m).toInt = (if 0 < m.2 then 0 else (main vertical (ws.sizeAt m.1)).toInt) +
      l.share vertical ws (max 0 m.2.toInt) := by
  have hflex := toInt_flexTotal hfits.stretch
  by_cases hstretch : 0 < m.2
  · have hn := toInt_pos.mp hstretch
    have hle : m.2.toInt ≤ l.stretches.sum := by
      have hmem : max 0 m.2.toInt ∈ l.stretches := List.mem_map_of_mem hm
      exact Int.le_trans (le_max_right 0 _) (List.single_le_sum stretches_nonneg _ hmem)
    have hspare : 0 ≤ l.spare vertical ws := le_max_left 0 _
    have hprod := Int.mul_nonneg hspare (Int.le_of_lt hn)
    have hmul : (l.free vertical ws * m.2).toInt = l.spare vertical ws * m.2.toInt := by
      refine toInt_of_eq ?_ ⟨by omega, hfits.share m hm⟩
      rw [← toInt_free hs hp hpos hfixed hfits, Int32.ofInt_mul, Int32.ofInt_toInt, Int32.ofInt_toInt]
    have hne : l.flexTotal ≠ -1 := by
      intro heq
      rw [heq] at hflex
      have hminus : (-1 : Int32).toInt = -1 := by decide
      omega
    rw [extent, if_pos ⟨hstretch, toInt_pos.mpr (by omega)⟩, Int32.toInt_div_of_ne_right _ _ hne, hmul,
      hflex, if_pos hstretch, Int.zero_add, share, max_eq_right (Int.le_of_lt hn)]
  · have hn : m.2.toInt ≤ 0 := Int.not_lt.mp fun h => hstretch (toInt_pos.mpr h)
    rw [extent, if_neg fun h => hstretch h.1, if_neg hstretch, share, max_eq_left hn, Int.mul_zero,
      Int.zero_tdiv, Int.add_zero]

/-- The extents are together at most the fixed ones and the spare one. -/
theorem sum_lens_le (vertical : Bool) (l : Layout) (ws : Table) : (l.lens vertical ws).sum ≤
    (l.fixedExtents vertical ws).sum + l.spare vertical ws := by
  have hspare : 0 ≤ l.spare vertical ws := le_max_left 0 _
  have hsplit : (l.lens vertical ws).sum = (l.fixedExtents vertical ws).sum +
      (l.stretches.map fun n => l.share vertical ws n).sum := by
    rw [lens, List.sum_map_add, fixedExtents, stretches, List.map_map]
    rfl
  have hshares := shares_le hspare (l.stretches_nonneg)
  rw [hsplit]
  exact Int.add_le_add_left hshares _

include hfixed in
theorem lens_nonneg : ∀ n ∈ l.lens vertical ws, 0 ≤ n := by
  intro n hn
  obtain ⟨m, hm, rfl⟩ := List.mem_map.mp hn
  have hspare : 0 ≤ l.spare vertical ws := le_max_left 0 _
  have hshare : 0 ≤ l.share vertical ws (max 0 m.2.toInt) := by
    rw [share]
    exact Int.tdiv_nonneg (Int.mul_nonneg hspare (le_max_left 0 _)) (List.sum_nonneg stretches_nonneg)
  exact Int.add_nonneg (hfixed _ (List.mem_map_of_mem hm)) hshare

include hp hfixed in
/-- The last widget ends before `2 ^ 31`. -/
theorem lens_lt (hfits : l.BoxFits vertical ws) :
    l.padding.toInt + (l.lens vertical ws).sum + l.gaps < 2 ^ 31 := by
  have hle := l.sum_lens_le vertical ws
  have hpad := toInt_nonneg.mp hp
  have hfixedSum := hfits.fixed
  have hsum := List.sum_nonneg hfixed
  have hsize := (main vertical (ws.sizeAt l.parent)).toInt_lt
  rw [spare, avail] at hle
  omega

/-- The place along the box of the `k`-th widget. -/
def start (vertical : Bool) (l : Layout) (ws : Table) (k : Nat) : Int :=
  pieceStart l.padding.toInt l.spacing.toInt (l.lens vertical ws) k

theorem length_lens : (l.lens vertical ws).length = l.managed.length := List.length_map _

theorem lt_length_lens {k : Nat} (hk : k < l.managed.length) : k < (l.lens vertical ws).length :=
  length_lens.symm ▸ hk

include hs hp hpos hfixed in
theorem extent_eq_lens (hfits : l.BoxFits vertical ws) {k : Nat} (hk : k < l.managed.length)
    (hk' : k < (l.lens vertical ws).length) :
    (l.extent vertical ws l.managed[k]).toInt = (l.lens vertical ws)[k] := by
  rw [toInt_extent hs hp hpos hfixed hfits (List.getElem_mem hk)]
  simp only [lens, List.getElem_map]

include hs hfixed in
/-- A widget ends before the last one does. -/
theorem start_add_le {k : Nat} (hk : k < (l.lens vertical ws).length) :
    l.start vertical ws k + (l.lens vertical ws)[k] ≤
      l.padding.toInt + (l.lens vertical ws).sum + l.gaps := by
  have hgaps : l.gaps = ((l.lens vertical ws).length - 1) * l.spacing.toInt := by
    rw [length_lens, gaps, Int.mul_comm]
  rw [hgaps]
  exact pieceEnd_le (lens_nonneg hfixed) (toInt_nonneg.mp hs) hk

include hs hp hpos hfixed in
theorem toInt_boxPos (hfits : l.BoxFits vertical ws) {k : Nat} (hk : k < l.managed.length) :
    (l.boxPos vertical ws (l.managed.take k)).toInt = l.start vertical ws k := by
  have hlt := lens_lt hp hfixed hfits
  have hpad := toInt_nonneg.mp hp
  have hgap := toInt_nonneg.mp hs
  induction k with
  | zero => exact pieceStart_zero.symm
  | succ k ih =>
    have hk' : k < l.managed.length := by omega
    have hlen := extent_eq_lens hs hp hpos hfixed hfits hk' (lt_length_lens hk')
    have hnonneg := lens_nonneg hfixed _ (List.getElem_mem (lt_length_lens hk'))
    have hstart : l.start vertical ws (k + 1) = _ := pieceStart_succ (lt_length_lens hk')
    have hfirst : _ ≤ l.start vertical ws k :=
      first_le_pieceStart (lens_nonneg hfixed) hgap k
    have hnonneg' := lens_nonneg hfixed _ (List.getElem_mem (lt_length_lens hk))
    have hend := start_add_le hs hfixed (lt_length_lens hk)
    rw [← start] at hstart
    rw [List.take_succ_eq_append_getElem hk', boxPos, List.foldl_append, ← boxPos]
    have hadd := toInt_add_eq (m := l.boxPos vertical ws (l.managed.take k))
      (n := l.extent vertical ws l.managed[k])
    rw [ih hk', hlen] at hadd
    have hnext := toInt_add_eq (m := l.boxPos vertical ws (l.managed.take k) +
      l.extent vertical ws l.managed[k]) (n := l.spacing)
    rw [hadd (by omega) (by omega)] at hnext
    rw [hstart]
    exact hnext (by omega) (by omega)

/-- The widgets of a box after `Relayout`, along it and across. -/
theorem Placed.box (hplaced : l.Placed mem (l.spot ws) ws ws') (h : l.Owns ws)
    (hacc : l.Accepts mem ws) (hspot : l.spot ws = l.boxSpot vertical ws) {k : Nat}
    (hk : k < l.managed.length) {v : Widget} (hv : l.child ws' k = some v) :
    along vertical v = ((l.boxPos vertical ws (l.managed.take k)).toInt,
        (l.extent vertical ws l.managed[k]).toInt) ∧
      along (!vertical) v = (l.padding.toInt, (l.across vertical ws).toInt) ∧
      0 ≤ v.w.toInt ∧ 0 ≤ v.h.toInt := by
  obtain ⟨v', hv', hw, hh, hx, hy, hnonneg⟩ := hplaced.has_spot h hacc hk
  rw [child_eq hk, hv'] at hv
  obtain rfl := Option.some.inj hv
  rw [hspot] at hw hh hx hy
  rw [toInt_nonneg, toInt_nonneg] at hnonneg
  refine ⟨?_, ?_, hnonneg⟩
  · rw [along, hw, hh, hx, hy, boxSpot]
    cases vertical <;> rfl
  · rw [along, hw, hh, hx, hy, boxSpot]
    cases vertical <;> rfl

/-- A size that is kept is not refused, so it is not negative. -/
theorem fixedExtents_nonneg (h : l.Owns ws) (hacc : l.Accepts mem ws)
    (hspot : l.spot ws = l.boxSpot vertical ws) : ∀ n ∈ l.fixedExtents vertical ws, 0 ≤ n := by
  intro n hn
  obtain ⟨m, hm, rfl⟩ := List.mem_map.mp hn
  split
  · exact Int.le_refl 0
  next hfixed =>
    obtain ⟨k, hk, rfl⟩ := List.mem_iff_getElem.mp hm
    have hv := List.getElem?_eq_getElem (h.exist _ hm)
    obtain ⟨hw, hh⟩ := resize_nonneg (hacc k hk _ hv)
    rw [hspot] at hw hh
    rw [← main_boxSpot ws k fun hflex => hfixed hflex.1]
    unfold main
    split
    · exact toInt_nonneg.mp hh
    · exact toInt_nonneg.mp hw

include hs hp in
theorem Placed.inLine (hplaced : l.Placed mem (l.spot ws) ws ws') (h : l.Owns ws)
    (hacc : l.Accepts mem ws) (hspot : l.spot ws = l.boxSpot vertical ws)
    (hfits : l.BoxFits vertical ws) : l.InLine vertical ws' := by
  have hfixed := fixedExtents_nonneg h hacc hspot
  have hgap := toInt_nonneg.mp hs
  have hchild : ∀ k v, l.child ws' k = some v → ∃ hk : k < (l.lens vertical ws).length,
      along vertical v = (l.start vertical ws k, (l.lens vertical ws)[k]) := by
    intro k v hv
    have hk := lt_of_child hv
    have hpos : 0 < l.managed.length := Nat.zero_lt_of_lt hk
    refine ⟨lt_length_lens hk, ?_⟩
    rw [(hplaced.box h hacc hspot hk hv).1, toInt_boxPos hs hp hpos hfixed hfits hk,
      extent_eq_lens hs hp hpos hfixed hfits hk (lt_length_lens hk)]
  constructor
  · intro k v u hv hu
    obtain ⟨hk, hv⟩ := hchild k v hv
    obtain ⟨_, hu⟩ := hchild (k + 1) u hu
    rw [hv, hu]
    exact pieceStart_succ hk
  · intro i j v u hij hv hu
    obtain ⟨hi, hv⟩ := hchild i v hv
    obtain ⟨hj, hu⟩ := hchild j u hu
    rw [hv, hu]
    exact pieceStart_le (lens_nonneg hfixed) hgap hij (Nat.le_of_lt hj) hi

include hs hp in
/-- Where the fixed extents and the gaps fit in the padded parent, so does each widget. -/
theorem Placed.box_inside (hplaced : l.Placed mem (l.spot ws) ws ws') (h : l.Owns ws)
    (hacc : l.Accepts mem ws) (hspot : l.spot ws = l.boxSpot vertical ws)
    (hfits : l.BoxFits vertical ws) (hroom : (l.fixedExtents vertical ws).sum ≤ l.avail vertical ws)
    {k : Nat} {v : Widget} (hv : l.child ws' k = some v) : l.Inside ws v := by
  have hfixed := fixedExtents_nonneg h hacc hspot
  have hk := lt_of_child hv
  have hpos : 0 < l.managed.length := Nat.zero_lt_of_lt hk
  obtain ⟨halong, hacross, hw, hh⟩ := hplaced.box h hacc hspot hk hv
  have hstart : l.padding.toInt ≤ l.start vertical ws k :=
    first_le_pieceStart (lens_nonneg hfixed) (toInt_nonneg.mp hs) k
  have hend := start_add_le hs hfixed (lt_length_lens hk)
  have hsum := l.sum_lens_le vertical ws
  have hpad := toInt_nonneg.mp hp
  have hsize := (cross vertical (ws.sizeAt l.parent)).toInt_lt
  have hcross : (l.across vertical ws).toInt =
      (cross vertical (ws.sizeAt l.parent)).toInt - 2 * l.padding.toInt := by
    refine toInt_of_eq ?_ ⟨hfits.across, by omega⟩
    rw [across, Int32.ofInt_sub, Int32.ofInt_mul, Int32.ofInt_toInt, Int32.ofInt_toInt]
    rfl
  have hlen := extent_eq_lens hs hp hpos hfixed hfits hk (lt_length_lens hk)
  have hspare : l.spare vertical ws ≤ l.avail vertical ws - (l.fixedExtents vertical ws).sum := by
    have hnonneg := List.sum_nonneg hfixed
    rw [spare]
    omega
  rw [inside_iff vertical, halong, hacross, hcross, hlen,
    toInt_boxPos hs hp hpos hfixed hfits hk]
  rw [avail] at hspare
  dsimp only
  omega

end Box

end Layout
end Sizing
end Hashx86
