import Hashx86.Gui.Rectangles

/-!
# Outlines of rectangles (`gui/render/nina.cpp`)

`DrawRectangle` moves the edges that are off the buffer to its sides, `DrawRoundedRectangle` leaves
out the pixels that are off it.

* `drawRectangle_paints`: `DrawRectangle` paints the border of the part that is on the buffer.
* `drawRoundedRectangle_paints`: `DrawRoundedRectangle` paints `OutlineArea`, which does not depend on
  the buffer, and is part of what `FillRoundedRectangle` paints (`outlineArea_subset`).
* `outlines_iff`: where the two agree for the radius 0.
-/

namespace Hashx86

open Lib

variable {bufferWidth bufferHeight : Int32}

/-! ## `NINA::DrawRectangle` -/

/-- The loops over the rows `y0` and `y1` and over the columns `x0` and `x1`. -/
def drawEdges (x0 y0 x1 y1 : Int) (colorIndex : UInt32) (f : Pixels bufferWidth bufferHeight) :
    Except Trap (Pixels bufferWidth bufferHeight) :=
  forInts x0 (x1 + 1) (fun X f =>
    poke .outside (y0 * bufferWidth.toInt + X) (fun _ => colorIndex) f >>=
      poke .outside (y1 * bufferWidth.toInt + X) fun _ => colorIndex) f >>=
  forInts y0 (y1 + 1) fun Y f =>
    poke .outside (Y * bufferWidth.toInt + x0) (fun _ => colorIndex) f >>=
      poke .outside (Y * bufferWidth.toInt + x1) fun _ => colorIndex

def drawRectangle (x y w h : Int32) (colorIndex : UInt32) (f : Pixels bufferWidth bufferHeight) :
    Except Trap (Pixels bufferWidth bufferHeight) :=
  if bufferWidth ≤ 0 ∨ bufferHeight ≤ 0 ∨ w ≤ 0 ∨ h ≤ 0 then .ok f
  else
    let x0 := if x.toInt < 0 then 0 else x.toInt
    let y0 := if y.toInt < 0 then 0 else y.toInt
    let x1 := x.toInt + w.toInt - 1
    let y1 := y.toInt + h.toInt - 1
    let x1 := if x1 ≥ bufferWidth.toInt then bufferWidth.toInt - 1 else x1
    let y1 := if y1 ≥ bufferHeight.toInt then bufferHeight.toInt - 1 else y1
    if x0 > x1 ∨ y0 > y1 then .ok f else drawEdges x0 y0 x1 y1 colorIndex f

/-- The pixels of the rectangle with the corners `(x0, y0)` and `(x1, y1)` that are on its border. -/
def OnEdges (x0 y0 x1 y1 i j : Int) : Prop :=
  x0 ≤ i ∧ i ≤ x1 ∧ y0 ≤ j ∧ j ≤ y1 ∧ (i = x0 ∨ i = x1 ∨ j = y0 ∨ j = y1)

theorem drawEdges_paints (bufferWidth bufferHeight : Int32) {x0 y0 x1 y1 : Int} (hx : 0 ≤ x0)
    (hy : 0 ≤ y0) (hxx : x0 ≤ x1) (hyy : y0 ≤ y1) (hx' : x1 < bufferWidth.toInt)
    (hy' : y1 < bufferHeight.toInt) (c : UInt32) :
    Paints (OnEdges x0 y0 x1 y1) c
      (drawEdges x0 y0 x1 y1 c : Pixels bufferWidth bufferHeight → _) := by
  have hpoke := fun X Y hX hX' hY hY' =>
    poke_paints bufferWidth bufferHeight (X := X) (Y := Y) hX hX' hY hY' c
  have hrows := Paints.forInts (a := x0) (b := x1 + 1) fun X hlow hhigh =>
    (hpoke X y0 (by omega) (by omega) (by omega) (by omega)).seq
      (hpoke X y1 (by omega) (by omega) (by omega) (by omega))
  have hcolumns := Paints.forInts (a := y0) (b := y1 + 1) fun Y hlow hhigh =>
    (hpoke x0 Y (by omega) (by omega) (by omega) (by omega)).seq
      (hpoke x1 Y (by omega) (by omega) (by omega) (by omega))
  refine (hrows.seq hcolumns).congr fun i j => ?_
  rw [OnEdges]
  constructor
  · rintro (⟨X, hlow, hhigh, h⟩ | ⟨Y, hlow, hhigh, h⟩)
    · omega
    · omega
  · rintro ⟨hlow, hhigh, hlow', hhigh', hedge⟩
    by_cases hrow : (j : Int) = y0 ∨ (j : Int) = y1
    · exact Or.inl ⟨i, hlow, by omega, by omega⟩
    · exact Or.inr ⟨j, hlow', by omega, by omega⟩

/-- The border of the part of the rectangle that is on the buffer. -/
def ClampedBorder (bufferWidth bufferHeight x y w h i j : Int) : Prop :=
  OnEdges (max x 0) (max y 0) (min (x + w - 1) (bufferWidth - 1)) (min (y + h - 1) (bufferHeight - 1))
    i j

theorem drawRectangle_paints (bufferWidth bufferHeight x y w h : Int32) (c : UInt32) :
    Paints (ClampedBorder bufferWidth.toInt bufferHeight.toInt x.toInt y.toInt w.toInt h.toInt) c
      (drawRectangle x y w h c : Pixels bufferWidth bufferHeight → _) := by
  unfold drawRectangle
  simp only [toInt_nonpos, clip_first, clip_last]
  by_cases hempty : bufferWidth.toInt ≤ 0 ∨ bufferHeight.toInt ≤ 0 ∨ w.toInt ≤ 0 ∨ h.toInt ≤ 0
  · simp only [if_pos hempty]
    refine Draws.skip fun i j => ?_
    rw [ClampedBorder, OnEdges]
    omega
  · simp only [if_neg hempty]
    by_cases hclip : max x.toInt 0 > min (x.toInt + w.toInt - 1) (bufferWidth.toInt - 1) ∨
        max y.toInt 0 > min (y.toInt + h.toInt - 1) (bufferHeight.toInt - 1)
    · simp only [if_pos hclip]
      refine Draws.skip fun i j => ?_
      rw [ClampedBorder, OnEdges]
      omega
    · simp only [if_neg hclip]
      refine drawEdges_paints bufferWidth bufferHeight ?_ ?_ ?_ ?_ ?_ ?_ c
      · omega
      · omega
      · omega
      · omega
      · omega
      · omega

/-! ## `NINA::DrawRoundedRectangle` -/

/-- The straight edges at the top and at the bottom. -/
def drawRows (x y w h r : Int) (colorIndex : UInt32) :
    Pixels bufferWidth bufferHeight → Except Trap (Pixels bufferWidth bufferHeight) :=
  let top := y
  let bottom := y + h - 1
  let edge (row i : Int) (f : Pixels bufferWidth bufferHeight) :=
    if 0 ≤ row ∧ row < bufferHeight.toInt then
      poke Trap.outside (row * bufferWidth.toInt + i) (fun _ => colorIndex) f
    else .ok f
  forInts (x + r) (x + w - r) fun i f =>
    if ¬ (i < 0 ∨ i ≥ bufferWidth.toInt) then edge top i f >>= edge bottom i else .ok f

/-- The straight edges at the left and at the right. -/
def drawColumns (x y w h r : Int) (colorIndex : UInt32) :
    Pixels bufferWidth bufferHeight → Except Trap (Pixels bufferWidth bufferHeight) :=
  let left := x
  let right := x + w - 1
  let edge (column i : Int) (f : Pixels bufferWidth bufferHeight) :=
    if 0 ≤ column ∧ column < bufferWidth.toInt then
      poke Trap.outside (i * bufferWidth.toInt + column) (fun _ => colorIndex) f
    else .ok f
  forInts (y + r) (y + h - r) fun i f =>
    if ¬ (i < 0 ∨ i ≥ bufferHeight.toInt) then edge left i f >>= edge right i else .ok f

/-- `d2 < inner2 || d2 > outer2` -/
def offRing (r dx dy : Int) : Bool :=
  dx * dx + dy * dy < (r - 1) * (r - 1) || r * r < dx * dx + dy * dy

def drawRoundedRectangle (x y w h : Int32) (radius colorIndex : UInt32)
    (f : Pixels bufferWidth bufferHeight) : Except Trap (Pixels bufferWidth bufferHeight) :=
  if bufferWidth ≤ 0 ∨ bufferHeight ≤ 0 ∨ w ≤ 0 ∨ h ≤ 0 then .ok f
  else
    let r := cornerRadius w h radius
    let corners (f : Pixels bufferWidth bufferHeight) :=
      if 0 < r then
        sweepCorners x.toInt y.toInt w.toInt h.toInt r.toInt (offRing r.toInt) colorIndex f
      else .ok f
    drawRows x.toInt y.toInt w.toInt h.toInt r.toInt colorIndex f >>=
      drawColumns x.toInt y.toInt w.toInt h.toInt r.toInt colorIndex >>= corners

theorem drawRows_paints (bufferWidth bufferHeight : Int32) (x y w h r : Int) (c : UInt32) :
    Paints (fun i j => x + r ≤ i ∧ i < x + w - r ∧ (j = y ∨ j = y + h - 1)) c
      (drawRows x y w h r c : Pixels bufferWidth bufferHeight → _) := by
  have hedge := fun i (hi : ¬ (i < 0 ∨ i ≥ bufferWidth.toInt)) row =>
    Paints.ite (p := 0 ≤ row ∧ row < bufferHeight.toInt) fun hrow =>
      poke_paints bufferWidth bufferHeight (X := i) (by omega) (by omega) hrow.1 hrow.2 c
  have hrows := Paints.forInts (a := x + r) (b := x + w - r) fun i _ _ =>
    Paints.ite fun hi => (hedge i hi y).seq (hedge i hi (y + h - 1))
  refine hrows.congr fun i j => ?_
  constructor
  · rintro ⟨X, hlow, hhigh, -, h⟩
    omega
  · rintro ⟨hlow, hhigh, h⟩
    exact ⟨i, hlow, hhigh, by omega, by omega⟩

theorem drawColumns_paints (bufferWidth bufferHeight : Int32) (x y w h r : Int) (c : UInt32) :
    Paints (fun i j => y + r ≤ j ∧ j < y + h - r ∧ (i = x ∨ i = x + w - 1)) c
      (drawColumns x y w h r c : Pixels bufferWidth bufferHeight → _) := by
  have hedge := fun i (hi : ¬ (i < 0 ∨ i ≥ bufferHeight.toInt)) column =>
    Paints.ite (p := 0 ≤ column ∧ column < bufferWidth.toInt) fun hcolumn =>
      poke_paints bufferWidth bufferHeight (Y := i) hcolumn.1 hcolumn.2 (by omega) (by omega) c
  have hcolumns := Paints.forInts (a := y + r) (b := y + h - r) fun i _ _ =>
    Paints.ite fun hi => (hedge i hi x).seq (hedge i hi (x + w - 1))
  refine hcolumns.congr fun i j => ?_
  constructor
  · rintro ⟨Y, hlow, hhigh, -, h⟩
    omega
  · rintro ⟨hlow, hhigh, h⟩
    exact ⟨j, hlow, hhigh, by omega, by omega⟩

/-- What an outline paints: the straight edges and the rings of the corners. -/
def Outline (x y w h r i j : Int) : Prop :=
  (x + r ≤ i ∧ i < x + w - r ∧ (j = y ∨ j = y + h - 1)) ∨
    (y + r ≤ j ∧ j < y + h - r ∧ (i = x ∨ i = x + w - 1)) ∨
      0 < r ∧ InCorners x y w h r (offRing r) i j

def OutlineArea (x y w h : Int32) (radius : UInt32) (i j : Int) : Prop :=
  0 < w.toInt ∧ 0 < h.toInt ∧
    Outline x.toInt y.toInt w.toInt h.toInt (cornerRadius w h radius).toInt i j

theorem drawRoundedRectangle_paints (bufferWidth bufferHeight x y w h : Int32)
    (radius c : UInt32) :
    Paints (OutlineArea x y w h radius) c
      (drawRoundedRectangle x y w h radius c : Pixels bufferWidth bufferHeight → _) := by
  unfold drawRoundedRectangle
  simp only [toInt_nonpos]
  by_cases hempty : bufferWidth.toInt ≤ 0 ∨ bufferHeight.toInt ≤ 0 ∨ w.toInt ≤ 0 ∨ h.toInt ≤ 0
  · simp only [if_pos hempty]
    refine Draws.skip fun i j ⟨hw, hh, _⟩ => ?_
    have hi := i.isLt
    have hj := j.isLt
    omega
  · simp only [if_neg hempty]
    have hrows := drawRows_paints bufferWidth bufferHeight x.toInt y.toInt w.toInt h.toInt
      (cornerRadius w h radius).toInt c
    have hcolumns := drawColumns_paints bufferWidth bufferHeight x.toInt y.toInt w.toInt h.toInt
      (cornerRadius w h radius).toInt c
    have hcorners := Paints.ite (p := 0 < cornerRadius w h radius) fun _ =>
      sweepCorners_paints bufferWidth bufferHeight x.toInt y.toInt w.toInt h.toInt
        (cornerRadius w h radius).toInt (offRing (cornerRadius w h radius).toInt) c
    refine ((hrows.seq hcolumns).seq hcorners).congr fun i j => ?_
    rw [toInt_pos, OutlineArea, Outline, or_assoc,
      and_iff_right (show 0 < w.toInt by omega), and_iff_right (show 0 < h.toInt by omega)]

/-! ## What the outlines have in common -/

/-- An outline is part of the filled rectangle. -/
theorem outlineArea_subset {x y w h : Int32} {radius : UInt32} {i j : Int}
    (ho : OutlineArea x y w h radius i j) : RoundedArea x y w h radius i j := by
  obtain ⟨hw, hh, ho⟩ := ho
  refine ⟨hw, hh, ?_⟩
  obtain ho | ho | ⟨hr, dx, dy, hdx, hdx', hdy, hdy', hskip, hi, hj⟩ := ho
  · left
    rw [InRect]
    omega
  · right
    left
    rw [InRect]
    omega
  · refine Or.inr (Or.inr ⟨hr, dx, dy, hdx, hdx', hdy, hdy', ?_, hi, hj⟩)
    rw [offRing, Bool.or_eq_false_iff] at hskip
    exact hskip.2

/-- The border of the rectangle, on the buffer or not. -/
def OnBorder (x y w h i j : Int) : Prop :=
  InRect x y w h i j ∧ (i = x ∨ i = x + w - 1 ∨ j = y ∨ j = y + h - 1)

theorem outlineArea_zero (x y w h : Int32) (i j : Int) :
    OutlineArea x y w h 0 i j ↔ OnBorder x.toInt y.toInt w.toInt h.toInt i j := by
  have h0 : (0 : UInt32).toNat = 0 := rfl
  rw [OutlineArea, OnBorder, InRect]
  constructor
  · rintro ⟨hw, hh, ho⟩
    have hr := toInt_cornerRadius hw hh 0
    rw [show (cornerRadius w h 0).toInt = 0 by omega] at ho
    obtain ho | ho | ⟨hr, -⟩ := ho
    · omega
    · omega
    · omega
  · rintro ⟨hin, hedge⟩
    have hw : 0 < w.toInt := by omega
    have hh : 0 < h.toInt := by omega
    have hr := toInt_cornerRadius hw hh 0
    refine ⟨hw, hh, ?_⟩
    rw [show (cornerRadius w h 0).toInt = 0 by omega]
    by_cases hrow : j = y.toInt ∨ j = y.toInt + h.toInt - 1
    · exact Or.inl ⟨by omega, by omega, hrow⟩
    · exact Or.inr (Or.inl ⟨by omega, by omega, by omega⟩)

/-- What is expected of the outlines: the border of the rectangle itself is painted, as with the
radius 0, and for every radius nothing outside of the filled rectangle. -/
structure Outlines (bufferWidth bufferHeight x y w h : Int32) (colorIndex : UInt32) : Prop where
  border : Paints (OnBorder x.toInt y.toInt w.toInt h.toInt) colorIndex
    (drawRectangle x y w h colorIndex : Pixels bufferWidth bufferHeight → _)
  square : ∀ f : Pixels bufferWidth bufferHeight,
    drawRectangle x y w h colorIndex f = drawRoundedRectangle x y w h 0 colorIndex f
  filled : ∀ radius, ∃ drawn painted,
    Paints drawn colorIndex
      (drawRoundedRectangle x y w h radius colorIndex : Pixels bufferWidth bufferHeight → _) ∧
    Paints painted colorIndex
      (fillRoundedRectangle x y w h radius colorIndex : Pixels bufferWidth bufferHeight → _) ∧
    ∀ i j, drawn i j → painted i j

/-- The first or the last line of a surface of the size is between the ends of `[x, x + w)`. -/
def CutInside (size x w : Int) : Prop :=
  0 < size ∧ (x < 0 ∧ 0 < x + w - 1 ∨ x < size - 1 ∧ size - 1 < x + w - 1)

/-- A line between the ends is on the surface. -/
def SeesInside (size x w : Int) : Prop := max (x + 1) 0 ≤ min (x + w - 2) (size - 1)

/-- A side of the buffer cuts through the inside of the rectangle. -/
def CutThrough (bufferWidth bufferHeight x y w h : Int) : Prop :=
  CutInside bufferWidth x w ∧ SeesInside bufferHeight y h ∨
    CutInside bufferHeight y h ∧ SeesInside bufferWidth x w

instance (bufferWidth bufferHeight x y w h : Int) :
    Decidable (CutThrough bufferWidth bufferHeight x y w h) :=
  inferInstanceAs (Decidable ((_ ∧ (_ ∧ _ ∨ _ ∧ _)) ∧ _ ≤ _ ∨ (_ ∧ (_ ∧ _ ∨ _ ∧ _)) ∧ _ ≤ _))

/-- The clamped border is the border exactly where no side cuts through the inside. -/
theorem clampedBorder_iff (W H : Nat) (x y w h : Int) :
    (∀ (i : Fin W) (j : Fin H), ClampedBorder W H x y w h i j ↔ OnBorder x y w h i j) ↔
      ¬ CutThrough W H x y w h := by
  simp only [ClampedBorder, OnEdges, OnBorder, InRect, CutThrough, CutInside, SeesInside]
  constructor
  · rintro hsame (⟨⟨hW, hcut⟩, hsee⟩ | ⟨⟨hH, hcut⟩, hsee⟩)
    · -- a row between the ends meets the side
      have hrow := fun i : Fin W => hsame i ⟨(max (y + 1) 0).toNat, by omega⟩
      obtain hcut | hcut := hcut
      · have hfirst := hrow ⟨0, by omega⟩
        simp only at hfirst
        omega
      · have hlast := hrow ⟨W - 1, by omega⟩
        simp only at hlast
        omega
    · have hcolumn := fun j : Fin H => hsame ⟨(max (x + 1) 0).toNat, by omega⟩ j
      obtain hcut | hcut := hcut
      · have hfirst := hcolumn ⟨0, by omega⟩
        simp only at hfirst
        omega
      · have hlast := hcolumn ⟨H - 1, by omega⟩
        simp only at hlast
        omega
  · intro hno i j
    omega

/-- `DrawRectangle` and the outlines do what is expected exactly where no side of the buffer cuts
through the inside of the rectangle. -/
theorem outlines_iff (bufferWidth bufferHeight x y w h : Int32) (colorIndex : UInt32) :
    Outlines bufferWidth bufferHeight x y w h colorIndex ↔
      ¬ CutThrough bufferWidth.toInt bufferHeight.toInt x.toInt y.toInt w.toInt h.toInt := by
  have hclamped := drawRectangle_paints bufferWidth bufferHeight x y w h colorIndex
  have houtline := fun radius =>
    drawRoundedRectangle_paints bufferWidth bufferHeight x y w h radius colorIndex
  have hzero := (houtline 0).congr fun i j => outlineArea_zero x y w h i j
  have hsame : (∀ (i : Fin bufferWidth.toInt.toNat) (j : Fin bufferHeight.toInt.toNat),
      ClampedBorder bufferWidth.toInt bufferHeight.toInt x.toInt y.toInt w.toInt h.toInt i j ↔
        OnBorder x.toInt y.toInt w.toInt h.toInt i j) ↔
      ¬ CutThrough bufferWidth.toInt bufferHeight.toInt x.toInt y.toInt w.toInt h.toInt := by
    by_cases hpos : 0 < bufferWidth.toInt ∧ 0 < bufferHeight.toInt
    · have hiff := clampedBorder_iff bufferWidth.toInt.toNat bufferHeight.toInt.toNat x.toInt y.toInt
        w.toInt h.toInt
      rwa [Int.toNat_of_nonneg (by omega), Int.toNat_of_nonneg (by omega)] at hiff
    · refine iff_of_true (fun i j => ?_) ?_
      · have hi := i.isLt
        have hj := j.isLt
        omega
      · rw [CutThrough, CutInside, CutInside, SeesInside, SeesInside]
        omega
  rw [← hsame]
  constructor
  · exact fun ho i j => hclamped.iff ho.border i j
  · intro hiff
    have hborder := hclamped.congr hiff
    refine ⟨hborder, fun f => Paints.eq hborder hzero f, fun radius => ?_⟩
    exact ⟨OutlineArea x y w h radius, RoundedArea x y w h radius, houtline radius,
      fillRoundedRectangle_paints bufferWidth bufferHeight x y w h radius colorIndex,
      fun i j => outlineArea_subset⟩

/-- A rectangle of 3 by 3 pixels with its left column off the buffer: the middle one is painted in
its place. -/
theorem not_outlines_left_of_buffer :
    ((drawRectangle (-1) 0 3 3 1 (fun _ _ => 0 : Pixels 3 3)).toOption.map
      fun f => f ⟨0, by decide⟩ ⟨1, by decide⟩) = some 1 ∧
    ((drawRoundedRectangle (-1) 0 3 3 0 1 (fun _ _ => 0 : Pixels 3 3)).toOption.map
      fun f => f ⟨0, by decide⟩ ⟨1, by decide⟩) = some 0 ∧
    ¬ Outlines 3 3 (-1) 0 3 3 1 := by
  refine ⟨by decide +kernel, by decide +kernel, fun ho => ?_⟩
  have hin := ho.border.iff (drawRectangle_paints 3 3 (-1) 0 3 3 1) ⟨0, by decide⟩ ⟨1, by decide⟩
  rw [OnBorder, ClampedBorder, OnEdges, InRect] at hin
  revert hin
  decide +kernel

end Hashx86
