import Hashx86.Gui.ListView

/-!
# The layout of the list view (`gui/listview.cpp`)

* `drawnRows`: the rectangles that `RedrawToCache` fills for the rows.
* `hitRow_iff`: `HitRow` finds a row exactly in its rectangle (`InLayout`), and nothing elsewhere.
* `ThumbFits`: the thumb in its track, at the ends for the extreme offsets, and drags over the whole
  travel; `thumbFits_of_visible`: in every list that shows a row.
-/

namespace Hashx86
namespace ListView

open Lib

/-! ## The rows -/

/-- A row as it is drawn: the fill of `(1, y)` to `(w - 1, y + height)`. -/
structure DrawnRow where
  row : Int32
  y : Int32
  height : Int32

def DrawnRow.Covers (r : DrawnRow) (localY : Int32) : Prop :=
  r.y.toInt ≤ localY.toInt ∧ localY.toInt < r.y.toInt + r.height.toInt

/-- `endItem` of `RedrawToCache`. -/
def endItem (l : ListView) : Int32 :=
  let e := l.scrollOffset + l.getVisibleItemCount
  if l.itemCount < e then l.itemCount else e

/-- The body of the loop over the rows, `k` rows below the first. -/
def drawRow (l : ListView) (k : Nat) : Option DrawnRow :=
  let i := l.scrollOffset + Int32.ofNat k
  if (l.items[i.toInt.toNat]?).any ListViewItem.valid then
    some { row := i, y := HEADER_HEIGHT + 1 + (i - l.scrollOffset) * l.itemHeight,
           height := l.itemHeight }
  else none

/-- The loop over the rows of `RedrawToCache`. -/
def drawnRows (l : ListView) : List DrawnRow :=
  (List.range (l.endItem.toInt - l.scrollOffset.toInt).toNat).filterMap l.drawRow

/-- The rows between the offset and the end of the window. -/
def rowCount (l : ListView) : Int :=
  min l.getVisibleItemCount.toInt (l.itemCount.toInt - l.scrollOffset.toInt)

variable {l : ListView}

/-- The offset is in its range. -/
def Scrolled (l : ListView) : Prop := 0 ≤ l.scrollOffset.toInt ∧ l.scrollOffset.toInt ≤ l.limit

theorem Scrolled.add_lt (hs : l.Stored) (ho : l.Scrolled) :
    l.scrollOffset.toInt + l.getVisibleItemCount.toInt < 2 ^ 31 := by
  have hcount := hs.count
  have hv := l.visible_nonneg
  have hvlt := l.getVisibleItemCount.toInt_lt
  have hlim := ho.2
  rw [limit] at hlim
  omega

theorem toInt_endItem (hs : l.Stored) (ho : l.Scrolled) :
    l.endItem.toInt = l.scrollOffset.toInt + l.rowCount := by
  have hv := l.visible_nonneg
  have hsum := ho.add_lt hs
  have hadd := toInt_add_eq (m := l.scrollOffset) (n := l.getVisibleItemCount)
    (by have := ho.1; omega) hsum
  have hmin := toInt_ite_min32 l.itemCount (l.scrollOffset + l.getVisibleItemCount)
  rw [hadd] at hmin
  rw [endItem, hmin, rowCount]
  omega

/-- The rows of the window fit the content. -/
theorem visible_mul_le (hs : l.Stored) :
    l.getVisibleItemCount.toInt * l.itemHeight.toInt ≤ max 0 (contentHeight l.h).toInt := by
  have hv := toInt_visibleAt l.h l.itemHeight
  rw [getVisibleItemCount, hv]
  split
  next hpos =>
    have hle := Int.ediv_mul_le (contentHeight l.h).toInt (b := l.itemHeight.toInt)
      (by have := hs.rowHeight; omega)
    omega
  next =>
    rw [Int.zero_mul]
    exact Int.le_max_left _ _

/-- `LISTVIEW_HEADER_HEIGHT + 1`. -/
theorem toInt_top : (HEADER_HEIGHT + 1).toInt = 23 := by decide

/-- A row of the window has room under the header. -/
theorem row_mul_le (hs : l.Stored) {k : Int} (hk : 0 ≤ k) (hlt : k < l.getVisibleItemCount.toInt) :
    0 ≤ k * l.itemHeight.toInt ∧
      k * l.itemHeight.toInt + l.itemHeight.toInt ≤ (contentHeight l.h).toInt := by
  have hih := hs.rowHeight
  have hle := visible_mul_le hs
  have hstep : (k + 1) * l.itemHeight.toInt ≤
      l.getVisibleItemCount.toInt * l.itemHeight.toInt :=
    Int.mul_le_mul_of_nonneg_right (by omega) (Int.le_of_lt hih)
  rw [Int.add_mul, Int.one_mul] at hstep
  have hnn : 0 ≤ k * l.itemHeight.toInt := Int.mul_nonneg hk (Int.le_of_lt hih)
  omega

/-- A row of the window starts on a word: it is among the 64 first, or taller than the header. -/
theorem row_top_lt (hs : l.Stored) {k : Int} (hk : 0 ≤ k) (h64 : k < 64)
    (hlt : k < l.getVisibleItemCount.toInt) : 23 + k * l.itemHeight.toInt < 2 ^ 31 := by
  have hrow := row_mul_le hs hk hlt
  have hch := (contentHeight l.h).toInt_lt
  obtain hsmall | hbig := Int.lt_or_le l.itemHeight.toInt 24
  · have hle : k * l.itemHeight.toInt ≤ 64 * 24 :=
      Int.mul_le_mul (by omega) (by omega) (Int.le_of_lt hs.rowHeight) (by omega)
    omega
  · omega

/-- What the loop draws `k` rows below the first. -/
theorem drawRow_eq (hs : l.Stored) (ho : l.Scrolled) {k : Nat} (hk : (k : Int) < l.rowCount) :
    ∃ r, l.drawRow k = some r ∧ r.row.toInt = l.scrollOffset.toInt + k ∧
      r.y.toInt = 23 + k * l.itemHeight.toInt ∧ r.height = l.itemHeight := by
  have hcount := hs.count
  have hoff := ho.1
  rw [rowCount] at hk
  have hkn : (Int32.ofNat k).toInt = k := Int32.toInt_ofNat_of_lt (by omega)
  have hi := toInt_add_eq (m := l.scrollOffset) (n := Int32.ofNat k) (by omega) (by omega)
  have hback := toInt_sub_eq (m := l.scrollOffset + Int32.ofNat k) (n := l.scrollOffset) (by omega)
    (by omega)
  rw [hi, hkn, show l.scrollOffset.toInt + k - l.scrollOffset.toInt = k by omega] at hback
  have hrow := row_mul_le hs (k := k) (by omega) (by omega)
  have htop := row_top_lt hs (k := k) (by omega) (by omega) (by omega)
  have hmul : ((l.scrollOffset + Int32.ofNat k - l.scrollOffset) * l.itemHeight).toInt =
      k * l.itemHeight.toInt := by
    rw [Int32.toInt_mul, hback]
    exact Int.bmod_eq_of_le (by omega) (by omega)
  have hy := toInt_add_eq (m := HEADER_HEIGHT + 1)
    (n := (l.scrollOffset + Int32.ofNat k - l.scrollOffset) * l.itemHeight)
    (by rw [toInt_top]; omega) (by rw [toInt_top]; omega)
  rw [toInt_top, hmul] at hy
  have hvalid := hs.valid (l.scrollOffset + Int32.ofNat k).toInt.toNat (by omega) (by omega)
  refine ⟨{ row := l.scrollOffset + Int32.ofNat k
            y := HEADER_HEIGHT + 1 +
              (l.scrollOffset + Int32.ofNat k - l.scrollOffset) * l.itemHeight
            height := l.itemHeight }, ?_, ?_, hy, rfl⟩
  · rw [drawRow, if_pos]
    rw [Vector.getElem?_eq_getElem (by omega)]
    exact hvalid
  · rw [hi, hkn]

/-- The rows that are drawn: one for each place of the window down to the last item. -/
theorem mem_drawnRows (hs : l.Stored) (ho : l.Scrolled) {r : DrawnRow} (hr : r ∈ l.drawnRows) :
    ∃ k : Nat, (k : Int) < l.rowCount ∧ r.row.toInt = l.scrollOffset.toInt + k ∧
      r.y.toInt = 23 + k * l.itemHeight.toInt ∧ r.height = l.itemHeight := by
  have hend := toInt_endItem hs ho
  obtain ⟨k, hk, hrow⟩ := List.mem_filterMap.mp hr
  rw [List.mem_range] at hk
  have hlt : (k : Int) < l.rowCount := by omega
  obtain ⟨r', hr', h⟩ := drawRow_eq hs ho hlt
  rw [hrow] at hr'
  obtain rfl := Option.some.inj hr'
  exact ⟨k, hlt, h⟩

theorem exists_drawnRow (hs : l.Stored) (ho : l.Scrolled) {k : Nat} (hk : (k : Int) < l.rowCount) :
    ∃ r ∈ l.drawnRows, r.row.toInt = l.scrollOffset.toInt + k ∧
      r.y.toInt = 23 + k * l.itemHeight.toInt ∧ r.height = l.itemHeight := by
  have hend := toInt_endItem hs ho
  obtain ⟨r, hr, h⟩ := drawRow_eq hs ho hk
  refine ⟨r, List.mem_filterMap.mpr ⟨k, ?_, hr⟩, h⟩
  rw [List.mem_range]
  omega

/-- `HitRow` over the integers. -/
theorem toInt_hitRow (hs : l.Stored) (ho : l.Scrolled) (y : Int32) :
    (l.hitRow y).toInt =
      if 23 ≤ y.toInt ∧ y.toInt < 23 + l.getVisibleItemCount.toInt * l.itemHeight.toInt ∧
          l.scrollOffset.toInt + (y.toInt - 23) / l.itemHeight.toInt < l.itemCount.toInt then
        l.scrollOffset.toInt + (y.toInt - 23) / l.itemHeight.toInt
      else -1 := by
  have hcount := hs.count
  have hoff := ho.1
  have hih := hs.rowHeight
  have hv := l.visible_nonneg
  have hsum := ho.add_lt hs
  have hvis := visible_mul_le hs
  have hch := (contentHeight l.h).toInt_lt
  have hylt := y.toInt_lt
  have hm1 : (-1 : Int32).toInt = -1 := by decide
  have hrows : (l.getVisibleItemCount.toInt64 * l.itemHeight.toInt64).toInt =
      l.getVisibleItemCount.toInt * l.itemHeight.toInt := by
    have hnn := Int.mul_nonneg hv (Int.le_of_lt hih)
    rw [Int64.toInt_mul, Int32.toInt_toInt64, Int32.toInt_toInt64]
    exact Int.bmod_eq_of_le (by omega) (by omega)
  have hbottom : ((HEADER_HEIGHT + 1).toInt64 +
      l.getVisibleItemCount.toInt64 * l.itemHeight.toInt64).toInt =
      23 + l.getVisibleItemCount.toInt * l.itemHeight.toInt := by
    have hnn := Int.mul_nonneg hv (Int.le_of_lt hih)
    rw [Int64.toInt_add, hrows, Int32.toInt_toInt64, toInt_top]
    exact Int.bmod_eq_of_le (by omega) (by omega)
  rw [hitRow]
  simp only [Int32.lt_iff_toInt_lt, Int32.le_iff_toInt_le, Int64.le_iff_toInt_le, hbottom, toInt_top,
    Int32.toInt_zero, Int32.toInt_toInt64]
  by_cases hempty : l.getVisibleItemCount.toInt ≤ 0 ∨ l.itemCount.toInt ≤ 0
  · rw [if_pos hempty, hm1, if_neg]
    rintro ⟨hlow, hhigh, hrow⟩
    have hq : 0 ≤ (y.toInt - 23) / l.itemHeight.toInt :=
      Int.ediv_nonneg (by omega) (Int.le_of_lt hih)
    obtain h | h := hempty
    · rw [show l.getVisibleItemCount.toInt = 0 by omega, Int.zero_mul] at hhigh
      omega
    · omega
  · rw [if_neg hempty]
    by_cases hout : y.toInt < 23 ∨
        23 + l.getVisibleItemCount.toInt * l.itemHeight.toInt ≤ y.toInt
    · rw [if_pos hout, hm1, if_neg (by omega)]
    · rw [if_neg hout]
      have hsub := toInt_sub_eq (m := y) (n := HEADER_HEIGHT + 1) (by rw [toInt_top]; omega)
        (by rw [toInt_top]; omega)
      rw [toInt_top] at hsub
      have hne : l.itemHeight ≠ -1 := by
        intro h
        rw [h, hm1] at hih
        omega
      have hdiv : ((y - (HEADER_HEIGHT + 1)) / l.itemHeight).toInt =
          (y.toInt - 23) / l.itemHeight.toInt := by
        rw [Int32.toInt_div_of_ne_right _ _ hne, hsub, Int.tdiv_eq_ediv_of_nonneg (by omega)]
      have hq : 0 ≤ (y.toInt - 23) / l.itemHeight.toInt :=
        Int.ediv_nonneg (by omega) (Int.le_of_lt hih)
      have hqlt : (y.toInt - 23) / l.itemHeight.toInt < l.getVisibleItemCount.toInt :=
        Int.ediv_lt_of_lt_mul hih (by omega)
      have hadd := toInt_add_eq (m := l.scrollOffset)
        (n := (y - (HEADER_HEIGHT + 1)) / l.itemHeight) (by omega) (by omega)
      rw [hdiv] at hadd
      rw [hadd]
      by_cases hrow : l.scrollOffset.toInt + (y.toInt - 23) / l.itemHeight.toInt < l.itemCount.toInt
      · rw [if_neg (by omega), if_pos (by omega), hadd]
      · rw [if_pos (by omega), if_neg (by omega), hm1]

/-- `HitRow` is the inverse of the layout of the rows. -/
def InLayout (l : ListView) (y : Int32) : Prop :=
  (∀ r ∈ l.drawnRows, l.hitRow y = r.row ↔ r.Covers y) ∧
    ((∀ r ∈ l.drawnRows, ¬ r.Covers y) → l.hitRow y = -1)

theorem hitRow_iff (hs : l.Stored) (ho : l.Scrolled) (y : Int32) : l.InLayout y := by
  have hih := hs.rowHeight
  have hoff := ho.1
  have hhit := toInt_hitRow hs ho y
  have hm1 : (-1 : Int32).toInt = -1 := by decide
  constructor
  · intro r hr
    obtain ⟨k, hk, hrow, hy, hheight⟩ := mem_drawnRows hs ho hr
    rw [rowCount] at hk
    rw [← Int32.toInt_inj, hrow, hhit, DrawnRow.Covers, hy, hheight]
    constructor
    · intro h
      split at h
      next hin =>
        have hq : (y.toInt - 23) / l.itemHeight.toInt = k := by omega
        have hlow := Int.mul_ediv_add_emod (y.toInt - 23) l.itemHeight.toInt
        have hmod := Int.emod_lt_of_pos (y.toInt - 23) hih
        have hmod' := Int.emod_nonneg (y.toInt - 23) (b := l.itemHeight.toInt) (by omega)
        rw [hq, Int.mul_comm] at hlow
        omega
      next => omega
    · rintro ⟨hlow, hhigh⟩
      have hrowle := row_mul_le hs (k := k) (by omega) (by omega)
      have hq : (y.toInt - 23) / l.itemHeight.toInt = k := by
        apply Int.le_antisymm
        · apply Int.le_of_lt_add_one
          apply Int.ediv_lt_of_lt_mul hih
          rw [Int.add_mul]
          omega
        · exact Int.le_ediv_of_mul_le hih (by omega)
      have hstep : ((k : Int) + 1) * l.itemHeight.toInt ≤
          l.getVisibleItemCount.toInt * l.itemHeight.toInt :=
        Int.mul_le_mul_of_nonneg_right (by omega) (Int.le_of_lt hih)
      rw [Int.add_mul, Int.one_mul] at hstep
      rw [hq, if_pos (by omega)]
  · intro hnone
    apply Int32.toInt_inj.mp
    rw [hm1, hhit, if_neg]
    rintro ⟨hlow, hhigh, hrow⟩
    have hq : 0 ≤ (y.toInt - 23) / l.itemHeight.toInt :=
      Int.ediv_nonneg (by omega) (Int.le_of_lt hih)
    have hqlt : (y.toInt - 23) / l.itemHeight.toInt < l.getVisibleItemCount.toInt :=
      Int.ediv_lt_of_lt_mul hih (by omega)
    obtain ⟨r, hr, -, hy, hheight⟩ := exists_drawnRow hs ho
      (k := ((y.toInt - 23) / l.itemHeight.toInt).toNat) (by rw [rowCount]; omega)
    apply hnone r hr
    have hdiv := Int.mul_ediv_add_emod (y.toInt - 23) l.itemHeight.toInt
    have hmod := Int.emod_lt_of_pos (y.toInt - 23) hih
    have hmod' := Int.emod_nonneg (y.toInt - 23) (b := l.itemHeight.toInt) (by omega)
    rw [Int.toNat_of_nonneg hq, Int.mul_comm] at hy
    rw [DrawnRow.Covers, hy, hheight]
    omega

/-! ## The thumb -/

def withOffset (l : ListView) (off : Int32) : ListView := { l with scrollOffset := off }

/-- What the thumb can move by. -/
def thumbTravel (l : ListView) : Int := (contentHeight l.h).toInt - l.thumbHeight.toInt

/-- A list with a scrollbar has more items than it shows. -/
theorem needScrollbar_spec (hn : l.needScrollbar) :
    0 < (contentHeight l.h).toInt ∧ l.getVisibleItemCount.toInt < l.itemCount.toInt := by
  rw [needScrollbar] at hn
  split at hn
  · cases hn
  next hpos =>
    split at hn
    · cases hn
    · have hlt := of_decide_eq_true hn
      simp only [Int32.le_iff_toInt_le, Int32.toInt_zero] at hpos
      rw [getVisibleItemCount, visibleAt, if_pos]
      · exact ⟨by omega, Int32.lt_iff_toInt_lt.mp hlt⟩
      · simp only [Int32.lt_iff_toInt_lt, Int32.toInt_zero]
        omega

theorem limit_eq_of_needScrollbar (hn : l.needScrollbar) :
    l.limit = l.itemCount.toInt - l.getVisibleItemCount.toInt := by
  have hlt := (needScrollbar_spec hn).2
  rw [limit]
  omega

/-- The share of the track that shows the window, held between 10 pixels and the track. -/
theorem toInt_thumbHeight (hs : l.Stored) (hn : l.needScrollbar) :
    l.thumbHeight.toInt =
      if l.getVisibleItemCount.toInt = 0 then 0
      else min (contentHeight l.h).toInt (max 10
        (l.getVisibleItemCount.toInt.toNat * (contentHeight l.h).toInt.toNat /
          l.itemCount.toInt.toNat : Nat)) := by
  obtain ⟨hch, hlt⟩ := needScrollbar_spec hn
  have hcount := hs.count
  have hv := l.visible_nonneg
  have hclt := (contentHeight l.h).toInt_lt
  rw [thumbHeight, scrollbarThumbHeight]
  simp only [Int32.le_iff_toInt_le, Int32.toInt_zero]
  by_cases h0 : l.getVisibleItemCount.toInt = 0
  · rw [if_pos (by omega), if_pos h0, Int32.toInt_zero]
  · have hvn := toNat_widen (n := l.getVisibleItemCount) hv
    have hcn := toNat_widen (n := contentHeight l.h) (by omega)
    have hin := toNat_unsigned (n := l.itemCount) (by omega)
    have hq : l.getVisibleItemCount.toInt.toNat * (contentHeight l.h).toInt.toNat /
        l.itemCount.toInt.toNat ≤ (contentHeight l.h).toInt.toNat := scale_le _ (by omega)
    have hdiv := toNat_mulDiv (m := l.getVisibleItemCount.toInt64.toUInt64)
      (n := (contentHeight l.h).toInt64.toUInt64) (d := l.itemCount.toUInt32) (by omega)
      (by omega) (by rw [hvn, hcn, hin]; omega)
    rw [hvn, hcn, hin] at hdiv
    rw [if_neg (by omega), if_neg h0, toInt_holdLength _ hch, hdiv]
    rfl

theorem contentHeight_of_pos {h : Int32} (hpos : 0 < h.toInt) :
    (contentHeight h).toInt = h.toInt - 24 := by
  have hlt := h.toInt_lt
  have h22 : HEADER_HEIGHT.toInt = 22 := by decide
  have h2 : (2 : Int32).toInt = 2 := by decide
  have hsub := toInt_sub_eq (m := h) (n := HEADER_HEIGHT) (by omega) (by omega)
  have hsub' := toInt_sub_eq (m := h - HEADER_HEIGHT) (n := 2) (by omega) (by omega)
  rw [contentHeight, hsub', hsub]
  omega

/-- The thumb is no longer than the track, and its way down ends on a word. -/
theorem thumbTravel_bounds (hs : l.Stored) (hn : l.needScrollbar) :
    0 ≤ l.thumbHeight.toInt ∧ 0 ≤ l.thumbTravel ∧
      (0 < l.getVisibleItemCount.toInt → l.thumbTravel + 23 < 2 ^ 31) := by
  obtain ⟨hch, hlt⟩ := needScrollbar_spec hn
  have hcount := hs.count
  have hv := l.visible_nonneg
  have hclt := (contentHeight l.h).toInt_lt
  have hth := toInt_thumbHeight hs hn
  rw [thumbTravel]
  by_cases h0 : l.getVisibleItemCount.toInt = 0
  · rw [if_pos h0] at hth
    omega
  · rw [if_neg h0] at hth
    -- of a track this long the thumb is at least a 64th
    have hshare : (contentHeight l.h).toInt.toNat / 64 ≤
        l.getVisibleItemCount.toInt.toNat * (contentHeight l.h).toInt.toNat /
          l.itemCount.toInt.toNat := by
      apply Nat.div_le_div
      · exact Nat.le_mul_of_pos_left _ (by omega)
      · omega
      · omega
    omega

/-- `ScrollbarThumbY` is the share of the travel. -/
theorem toInt_thumbY (hs : l.Stored) (hn : l.needScrollbar) (ho : l.Scrolled) :
    l.thumbY.toInt =
      if 0 < l.getVisibleItemCount.toInt ∧ 0 < l.thumbTravel then
        23 + ((l.scrollOffset.toInt.toNat * l.thumbTravel.toNat / l.limit.toNat : Nat) : Int)
      else 23 := by
  obtain ⟨hch, hlt⟩ := needScrollbar_spec hn
  have hcount := hs.count
  have hv := l.visible_nonneg
  have hclt := (contentHeight l.h).toInt_lt
  obtain ⟨hth, htr, hroom⟩ := thumbTravel_bounds hs hn
  have hlim := limit_eq_of_needScrollbar hn
  have htrav : (contentHeight l.h - l.thumbHeight).toInt = l.thumbTravel := by
    rw [thumbTravel] at htr ⊢
    exact toInt_sub_eq (by omega) (by omega)
  have hrange := toInt_sub_eq (m := l.itemCount) (n := l.getVisibleItemCount) (by omega) (by omega)
  rw [← hlim] at hrange
  rw [thumbY, scrollbarThumbY]
  simp only [Int32.le_iff_toInt_le, Int32.toInt_zero, htrav]
  by_cases hvis : 0 < l.getVisibleItemCount.toInt
  · rw [if_neg (by omega)]
    by_cases hpos : 0 < l.thumbTravel
    · obtain ⟨hlow, hhigh⟩ := ho
      rw [if_neg (by omega), if_pos ⟨hvis, hpos⟩]
      have hon := toNat_widen (n := l.scrollOffset) hlow
      have htn := toNat_widen (n := contentHeight l.h - l.thumbHeight) (by omega)
      have hrn := toNat_unsigned (n := l.itemCount - l.getVisibleItemCount) (by omega)
      rw [htrav] at htn
      rw [hrange] at hrn
      have hq : l.scrollOffset.toInt.toNat * l.thumbTravel.toNat / l.limit.toNat ≤
          l.thumbTravel.toNat := scale_le _ (by omega)
      have hdiv := toNat_mulDiv (m := l.scrollOffset.toInt64.toUInt64)
        (n := (contentHeight l.h - l.thumbHeight).toInt64.toUInt64)
        (d := (l.itemCount - l.getVisibleItemCount).toUInt32) (by omega) (by omega)
        (by rw [hon, htn, hrn]; omega)
      rw [hon, htn, hrn] at hdiv
      have hword := toInt_toInt32 (n := guiMulDivU32 (l.scrollOffset.toInt64.toUInt64 *
        (contentHeight l.h - l.thumbHeight).toInt64.toUInt64)
        (l.itemCount - l.getVisibleItemCount).toUInt32) (by omega)
      have hroom' := hroom hvis
      rw [toInt_add_eq (by rw [toInt_top]; omega) (by rw [toInt_top]; omega), toInt_top, hword, hdiv]
    · rw [if_pos (by omega), if_neg (by omega), toInt_top]
  · rw [if_pos (by omega), if_neg (by omega), toInt_top]

/-- The thumb is in its track, moves down with the offset and is at the top for the first. -/
structure ThumbInTrack (l : ListView) : Prop where
  inside : ∀ off, (l.withOffset off).Scrolled → 23 ≤ (l.withOffset off).thumbY.toInt ∧
    (l.withOffset off).thumbY.toInt + l.thumbHeight.toInt ≤ 23 + (contentHeight l.h).toInt
  mono : ∀ off off', (l.withOffset off).Scrolled → (l.withOffset off').Scrolled → off ≤ off' →
    (l.withOffset off).thumbY ≤ (l.withOffset off').thumbY
  top : (l.withOffset 0).thumbY.toInt = 23

theorem thumbInTrack (hs : l.Stored) (hn : l.needScrollbar) : l.ThumbInTrack := by
  obtain ⟨hth, htr, -⟩ := thumbTravel_bounds hs hn
  have hs' : ∀ off, (l.withOffset off).Stored := fun off => hs.of_same ⟨rfl, rfl, rfl⟩
  have hy : ∀ off, (l.withOffset off).Scrolled → (l.withOffset off).thumbY.toInt =
      if 0 < l.getVisibleItemCount.toInt ∧ 0 < l.thumbTravel then
        23 + ((off.toInt.toNat * l.thumbTravel.toNat / l.limit.toNat : Nat) : Int)
      else 23 := fun off ho => toInt_thumbY (hs' off) hn ho
  have hlim := l.limit_nonneg
  constructor
  case inside =>
    intro off ho
    have hle : off.toInt.toNat * l.thumbTravel.toNat / l.limit.toNat ≤ l.thumbTravel.toNat := by
      apply scale_le
      have hhigh : off.toInt ≤ l.limit := ho.2
      omega
    rw [hy off ho]
    generalize off.toInt.toNat * l.thumbTravel.toNat / l.limit.toNat = q at hle
    rw [thumbTravel] at htr hle
    split
    · omega
    · omega
  case mono =>
    intro off off' ho ho' hle
    rw [Int32.le_iff_toInt_le] at hle ⊢
    rw [hy off ho, hy off' ho']
    have hmono := scale_mono (o := off.toInt.toNat) (p := off'.toInt.toNat) l.thumbTravel.toNat
      l.limit.toNat (by omega)
    split
    · omega
    · omega
  case top =>
    rw [hy 0 ⟨Int.le_refl _, hlim⟩, Int32.toInt_zero]
    simp

/-! ## Drags -/

/-- A pointer in the column of the scrollbar and on the thumb. -/
def OnThumb (l : ListView) (mx my : Int32) : Prop :=
  l.onGutter (mx - l.x) (my - l.y) ∧ l.thumbY.toInt ≤ (my - l.y).toInt ∧
    (my - l.y).toInt < l.thumbY.toInt + l.thumbHeight.toInt

/-- A press at `(mx, my)`, the moves along `through`, and a last move to `(mx', my')`. -/
def dragged (l : ListView) (mx my : Int32) (through : List (Int32 × Int32)) (mx' my' : Int32) :
    ListView :=
  run step l (.down mx my 1 :: (through.map (fun p => .move p.1 p.2) ++ [.move mx' my']))

theorem toInt_dragTo (hs : l.Stored) (hn : l.needScrollbar)
    (hv : 0 < l.getVisibleItemCount.toInt) (htr : 0 < l.thumbTravel) (localY : Int32) :
    (l.dragTo localY).scrollOffset.toInt =
      min (max (l.dragStartOffset.toInt +
        (max (min (localY.toInt - l.dragStartY.toInt) l.thumbTravel) (-l.thumbTravel) *
          l.limit).tdiv l.thumbTravel) 0) l.limit := by
  obtain ⟨hch, hlt⟩ := needScrollbar_spec hn
  have hcount := hs.count
  have hclt := (contentHeight l.h).toInt_lt
  have hth := (thumbTravel_bounds hs hn).1
  have hlim := limit_eq_of_needScrollbar hn
  have htrav : (contentHeight l.h - l.thumbHeight).toInt = l.thumbTravel := by
    rw [thumbTravel] at htr ⊢
    exact toInt_sub_eq (by omega) (by omega)
  have hrange := toInt_sub_eq (m := l.itemCount) (n := l.getVisibleItemCount) (by omega) (by omega)
  rw [← hlim] at hrange
  have hscaled := toInt_scaledDelta localY l.dragStartY
    (contentHeight l.h - l.thumbHeight) (by omega) (l.itemCount - l.getVisibleItemCount) (by omega)
  rw [htrav, hrange] at hscaled
  have hadd := toInt_add64 l.dragStartOffset (guiMulDivSigned
    (heldDelta localY l.dragStartY (contentHeight l.h - l.thumbHeight)).toInt32
    (l.itemCount - l.getVisibleItemCount) (contentHeight l.h - l.thumbHeight))
  rw [hscaled] at hadd
  rw [dragTo]
  simp only [Int32.le_iff_toInt_le, Int32.toInt_zero, htrav]
  rw [if_neg (by omega), if_neg (by omega), toInt_heldOffset _ _ _ (by omega), hadd, hrange]

theorem dragTo_eq (l : ListView) (localY : Int32) : ∃ off, l.dragTo localY = l.withOffset off := by
  rw [dragTo]
  dsimp only
  split
  · exact ⟨l.scrollOffset, rfl⟩
  · split
    · exact ⟨l.scrollOffset, rfl⟩
    · exact ⟨_, rfl⟩

theorem onMouseMove_of_dragging (hen : l.enabled) (hvis : l.isVisible) (hdrag : l.isDraggingThumb)
    (mx my : Int32) : l.onMouseMove mx my = l.dragTo (my - l.y) := by
  rw [onMouseMove, if_neg (by simp [hen, hvis])]
  exact if_pos hdrag

/-- While the thumb is dragged, moves change nothing but the offset. -/
theorem run_moves_eq (hen : l.enabled) (hvis : l.isVisible) (hdrag : l.isDraggingThumb)
    (through : List (Int32 × Int32)) :
    ∃ off, run step l (through.map fun p => .move p.1 p.2) = l.withOffset off := by
  induction through generalizing l with
  | nil => exact ⟨l.scrollOffset, rfl⟩
  | cons p through ih =>
    have hmove : l.step (.move p.1 p.2) = l.dragTo (p.2 - l.y) :=
      onMouseMove_of_dragging hen hvis hdrag p.1 p.2
    obtain ⟨off, hoff⟩ := l.dragTo_eq (p.2 - l.y)
    rw [List.map_cons, run_cons, hmove, hoff]
    exact ih (l := l.withOffset off) hen hvis hdrag

theorem down_onThumb (hs : l.Stored) (hn : l.needScrollbar) (ho : l.Scrolled) (hen : l.enabled)
    (hvis : l.isVisible) {mx my : Int32} (hon : l.OnThumb mx my) :
    l.step (.down mx my 1) = { l with
      isDraggingThumb := true
      dragStartY := my - l.y
      dragStartOffset := l.scrollOffset
      mouseCaptured := true } := by
  obtain ⟨hgutter, hlow, hhigh⟩ := hon
  have hin := (thumbInTrack hs hn).inside l.scrollOffset ho
  have hth := (thumbTravel_bounds hs hn).1
  have hh : 23 ≤ (my - l.y).toInt ∧ (my - l.y).toInt < l.h.toInt := by
    have h22 : HEADER_HEIGHT.toInt = 22 := by decide
    simp only [onGutter, Bool.and_eq_true, decide_eq_true_eq, Int32.lt_iff_toInt_lt] at hgutter
    omega
  have hch := contentHeight_of_pos (h := l.h) (by omega)
  have hlt := l.h.toInt_lt
  rw [show l.withOffset l.scrollOffset = l from rfl] at hin
  have hadd := toInt_add_eq (m := l.thumbY) (n := l.thumbHeight) (by omega) (by omega)
  show l.onMouseDown mx my 1 = _
  rw [onMouseDown, if_neg (by simp [hen, hvis]), if_neg (by simp)]
  dsimp only
  rw [if_pos hgutter, pressGutter]
  dsimp only
  rw [if_pos]
  rw [Int32.le_iff_toInt_le, Int32.lt_iff_toInt_lt, hadd]
  exact ⟨hlow, hhigh⟩

/-- The offset at the end of a drag is that of its start and of how far it went, whatever lies
between. -/
theorem toInt_dragged (hs : l.Stored) (hn : l.needScrollbar) (ho : l.Scrolled) (hen : l.enabled)
    (hvis : l.isVisible) (hv : 0 < l.getVisibleItemCount.toInt) (htr : 0 < l.thumbTravel)
    {mx my : Int32} (hon : l.OnThumb mx my) (through : List (Int32 × Int32)) (mx' my' : Int32) :
    (l.dragged mx my through mx' my').scrollOffset.toInt =
      min (max (l.scrollOffset.toInt +
        (max (min ((my' - l.y).toInt - (my - l.y).toInt) l.thumbTravel) (-l.thumbTravel) *
          l.limit).tdiv l.thumbTravel) 0) l.limit := by
  have hdown := down_onThumb hs hn ho hen hvis hon
  obtain ⟨off, hoff⟩ := run_moves_eq (l := l.step (.down mx my 1)) (by rw [hdown]; exact hen)
    (by rw [hdown]; exact hvis) (by rw [hdown]) through
  rw [dragged, run_cons, run_append, hoff, run_cons, run_nil, hdown]
  have hmove := onMouseMove_of_dragging (l := withOffset { l with
    isDraggingThumb := true
    dragStartY := my - l.y
    dragStartOffset := l.scrollOffset
    mouseCaptured := true } off) hen hvis rfl mx' my'
  refine (congrArg (fun l => l.scrollOffset.toInt) hmove).trans ?_
  refine (toInt_dragTo ?_ ?_ ?_ ?_ _).trans ?_
  · exact hs.of_same ⟨rfl, rfl, rfl⟩
  · exact hn
  · exact hv
  · exact htr
  · rfl

/-- The thumb is at the bottom for the last offset, and a drag over the whole travel goes from one
extreme to the other. -/
structure ThumbReaches (l : ListView) : Prop where
  bottom : (l.withOffset (Int32.ofInt l.limit)).thumbY.toInt + l.thumbHeight.toInt =
    23 + (contentHeight l.h).toInt
  down : l.enabled → l.isVisible → 0 < l.thumbTravel → ∀ mx my through mx' my',
    (l.withOffset 0).OnThumb mx my → (my' - l.y).toInt = (my - l.y).toInt + l.thumbTravel →
    ((l.withOffset 0).dragged mx my through mx' my').scrollOffset.toInt = l.limit
  up : l.enabled → l.isVisible → 0 < l.thumbTravel → ∀ mx my through mx' my',
    (l.withOffset (Int32.ofInt l.limit)).OnThumb mx my →
    (my' - l.y).toInt = (my - l.y).toInt - l.thumbTravel →
    ((l.withOffset (Int32.ofInt l.limit)).dragged mx my through mx' my').scrollOffset.toInt = 0

theorem thumbReaches (hs : l.Stored) (hn : l.needScrollbar)
    (hv : 0 < l.getVisibleItemCount.toInt) : l.ThumbReaches := by
  obtain ⟨hch, hlt⟩ := needScrollbar_spec hn
  obtain ⟨-, htr, -⟩ := thumbTravel_bounds hs hn
  have hcount := hs.count
  have hlim := limit_eq_of_needScrollbar hn
  have hof : (Int32.ofInt l.limit).toInt = l.limit :=
    Int32.toInt_ofInt_of_le (by omega) (by omega)
  have hs' : ∀ off, (l.withOffset off).Stored := fun off => hs.of_same ⟨rfl, rfl, rfl⟩
  have hfirst : (l.withOffset 0).Scrolled := ⟨Int.le_refl _, l.limit_nonneg⟩
  have hlast : (l.withOffset (Int32.ofInt l.limit)).Scrolled := by
    constructor
    · show 0 ≤ (Int32.ofInt l.limit).toInt
      omega
    · show (Int32.ofInt l.limit).toInt ≤ l.limit
      omega
  constructor
  case bottom =>
    have hy := toInt_thumbY (hs' (Int32.ofInt l.limit)) hn hlast
    have hy' : (l.withOffset (Int32.ofInt l.limit)).thumbY.toInt =
        if 0 < l.getVisibleItemCount.toInt ∧ 0 < l.thumbTravel then
          23 + (((Int32.ofInt l.limit).toInt.toNat * l.thumbTravel.toNat / l.limit.toNat : Nat) :
            Int)
        else 23 := hy
    rw [hof, scale_top _ (by omega)] at hy'
    rw [hy']
    rw [thumbTravel] at htr ⊢
    split
    · omega
    · omega
  case down =>
    intro hen hvis hpos mx my through mx' my' hon hmove
    refine (toInt_dragged (hs' 0) hn hfirst hen hvis hv hpos hon through mx' my').trans ?_
    show min (max ((0 : Int32).toInt + (max (min ((my' - l.y).toInt - (my - l.y).toInt)
      l.thumbTravel) (-l.thumbTravel) * l.limit).tdiv l.thumbTravel) 0) l.limit = l.limit
    rw [show max (min ((my' - l.y).toInt - (my - l.y).toInt) l.thumbTravel) (-l.thumbTravel) =
      l.thumbTravel by omega, Int.mul_tdiv_cancel_left _ (by omega), Int32.toInt_zero]
    omega
  case up =>
    intro hen hvis hpos mx my through mx' my' hon hmove
    refine (toInt_dragged (hs' (Int32.ofInt l.limit)) hn hlast hen hvis hv hpos hon through mx' my').trans ?_
    show min (max ((Int32.ofInt l.limit).toInt + (max (min ((my' - l.y).toInt - (my - l.y).toInt)
      l.thumbTravel) (-l.thumbTravel) * l.limit).tdiv l.thumbTravel) 0) l.limit = 0
    rw [show max (min ((my' - l.y).toInt - (my - l.y).toInt) l.thumbTravel) (-l.thumbTravel) =
      -l.thumbTravel by omega, Int.neg_mul, Int.neg_tdiv, Int.mul_tdiv_cancel_left _ (by omega), hof]
    omega

/-! ## Every state -/

/-- In every state of every run, and for every offset in its range, `HitRow` is the inverse of the
rows that are drawn, and the thumb of a scrollbar is in its track, monotone and at the top for the
first offset; where a row is visible it is at the bottom for the last one, and drags reach the
extremes. -/
theorem layout_run {attr : Sizing.Attr} {w h : Int32} {mem : Bool × Bool} {l : ListView}
    (hl : construct attr w h mem = some l) (ops : List Op) (off : Int32)
    (ho : ((run step l ops).withOffset off).Scrolled) :
    (∀ y, ((run step l ops).withOffset off).InLayout y) ∧
      (((run step l ops).withOffset off).needScrollbar →
        ((run step l ops).withOffset off).ThumbInTrack ∧
          (0 < ((run step l ops).withOffset off).getVisibleItemCount.toInt →
            ((run step l ops).withOffset off).ThumbReaches)) := by
  have hs : ((run step l ops).withOffset off).Stored :=
    (stored_run (stored_construct hl) ops).of_same ⟨rfl, rfl, rfl⟩
  refine ⟨fun y => hitRow_iff hs ho y, fun hn => ⟨thumbInTrack hs hn, fun hv => ?_⟩⟩
  exact thumbReaches hs hn hv

theorem layout_run_100_42 :
    ∃ l, construct sampleAttr 100 42 (true, true) = some l ∧
      let l' := (run step l [.addItem 0, .addItem 0, .addItem 0]).withOffset 2
      l'.Scrolled ∧ (∀ y, l'.InLayout y) ∧
        (l'.needScrollbar → l'.ThumbInTrack ∧
          (0 < l'.getVisibleItemCount.toInt → l'.ThumbReaches)) := by
  have hsome : (construct sampleAttr 100 42 (true, true)).any (fun l =>
      let l' := (run step l [.addItem 0, .addItem 0, .addItem 0]).withOffset 2
      0 ≤ l'.scrollOffset.toInt ∧ l'.scrollOffset.toInt ≤ l'.limit) := by decide +kernel
  obtain ⟨l, hl, ho⟩ := (Option.any_eq_true _ _).mp hsome
  have ho := of_decide_eq_true ho
  exact ⟨l, hl, ho, layout_run hl [.addItem 0, .addItem 0, .addItem 0] 2 ho⟩

/-- A list too low for a row, at the last offset of its three items: the thumb is at the top. -/
theorem not_bottom_100_34 :
    (construct sampleAttr 100 34 (true, true)).any (fun l =>
      let l := (run step l [.addItem 0, .addItem 0, .addItem 0]).withOffset 3
      l.scrollOffset.toInt = l.limit ∧ 0 < l.limit ∧ l.needScrollbar ∧ l.thumbY.toInt = 23 ∧
        l.thumbY.toInt + l.thumbHeight.toInt < 23 + (contentHeight l.h).toInt) := by
  decide +kernel

end ListView
end Hashx86
