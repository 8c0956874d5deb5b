import Hashx86.Gui.Surface

/-!
# Filled rectangles (`gui/render/nina.cpp`)

* `fillRectangle_paints`: `FillRectangle` paints the rectangle, where it is on the buffer.
* `fillRoundedRectangle_paints`: `FillRoundedRectangle` paints `RoundedArea`, which does not depend on
  the buffer.
* `RoundedShape`: what this area is like; `roundedShape`: for every radius.
-/

namespace Hashx86

open Lib

variable {bufferWidth bufferHeight : Int32}

/-- The pixels of `[x, x + w) × [y, y + h)`. -/
def InRect (x y w h i j : Int) : Prop := x ≤ i ∧ i < x + w ∧ y ≤ j ∧ j < y + h

/-! ## `NINA::FillRectangle` -/

/-- The loops over the rows and the columns of a part of the buffer. -/
def fillClipped (x0 y0 x1 y1 : Int) (colorIndex : UInt32) :
    Pixels bufferWidth bufferHeight → Except Trap (Pixels bufferWidth bufferHeight) :=
  forInts y0 y1 fun Y => forInts x0 x1 fun X =>
    poke .outside (Y * bufferWidth.toInt + X) fun _ => colorIndex

def fillRectangle (x y w h : Int32) (colorIndex : UInt32) (f : Pixels bufferWidth bufferHeight) :
    Except Trap (Pixels bufferWidth bufferHeight) :=
  if bufferWidth ≤ 0 ∨ bufferHeight ≤ 0 ∨ w ≤ 0 ∨ h ≤ 0 then .ok f
  else
    let x0 := if x.toInt < 0 then 0 else x.toInt
    let y0 := if y.toInt < 0 then 0 else y.toInt
    let x1 := x.toInt + w.toInt
    let y1 := y.toInt + h.toInt
    let x1 := if x1 > bufferWidth.toInt then bufferWidth.toInt else x1
    let y1 := if y1 > bufferHeight.toInt then bufferHeight.toInt else y1
    if x0 ≥ x1 ∨ y0 ≥ y1 then .ok f else fillClipped x0 y0 x1 y1 colorIndex f

theorem fillClipped_paints (bufferWidth bufferHeight : Int32) {x0 y0 x1 y1 : Int} (hx : 0 ≤ x0)
    (hy : 0 ≤ y0) (hx' : x1 ≤ bufferWidth.toInt) (hy' : y1 ≤ bufferHeight.toInt) (c : UInt32) :
    Paints (InRect x0 y0 (x1 - x0) (y1 - y0)) c
      (fillClipped x0 y0 x1 y1 c : Pixels bufferWidth bufferHeight → _) := by
  have hrow : ∀ Y, y0 ≤ Y → Y < y1 →
      Paints (fun i j => ∃ X, x0 ≤ X ∧ X < x1 ∧ i = X ∧ j = Y) c
        (forInts x0 x1 (fun X => poke Trap.outside (Y * bufferWidth.toInt + X) fun _ => c) :
          Pixels bufferWidth bufferHeight → _) := by
    intro Y hlow hhigh
    refine Paints.forInts fun X hlow' hhigh' => ?_
    exact poke_paints bufferWidth bufferHeight (by omega) (by omega) (by omega) (by omega) c
  refine (Paints.forInts hrow).congr fun i j => ?_
  constructor
  · rintro ⟨Y, hlow, hhigh, X, hlow', hhigh', rfl, rfl⟩
    exact ⟨hlow', by omega, hlow, by omega⟩
  · rintro ⟨hlow, hhigh, hlow', hhigh'⟩
    exact ⟨j, hlow', by omega, i, hlow, by omega, rfl, rfl⟩

theorem fillRectangle_paints (bufferWidth bufferHeight x y w h : Int32) (c : UInt32) :
    Paints (InRect x.toInt y.toInt w.toInt h.toInt) c
      (fillRectangle x y w h c : Pixels bufferWidth bufferHeight → _) := by
  unfold fillRectangle
  simp only [toInt_nonpos, clip_first, clip_end]
  by_cases hempty : bufferWidth.toInt ≤ 0 ∨ bufferHeight.toInt ≤ 0 ∨ w.toInt ≤ 0 ∨ h.toInt ≤ 0
  · simp only [if_pos hempty]
    refine Draws.skip fun i j => ?_
    rw [InRect]
    omega
  · simp only [if_neg hempty]
    by_cases hclip : max x.toInt 0 ≥ min (x.toInt + w.toInt) bufferWidth.toInt ∨
        max y.toInt 0 ≥ min (y.toInt + h.toInt) bufferHeight.toInt
    · simp only [if_pos hclip]
      refine Draws.skip fun i j => ?_
      rw [InRect]
      omega
    · simp only [if_neg hclip]
      refine (fillClipped_paints bufferWidth bufferHeight ?_ ?_ ?_ ?_ c).congr fun i j => ?_
      · omega
      · omega
      · omega
      · omega
      · simp only [InRect]
        omega

/-! ## `NINA::FillRoundedRectangle` -/

/-- The radius, limited to half of each side. -/
def cornerRadius (w h : Int32) (radius : UInt32) : Int32 :=
  let radius := if radius > (w / 2).toUInt32 then (w / 2).toUInt32 else radius
  let radius := if radius > (h / 2).toUInt32 then (h / 2).toUInt32 else radius
  radius.toInt32

/-- The four pixels that mirror each other at the distances `dx` and `dy` inside the corners. -/
def plotCorners (x y w h r dx dy : Int) (colorIndex : UInt32)
    (f : Pixels bufferWidth bufferHeight) : Except Trap (Pixels bufferWidth bufferHeight) :=
  let tlX := x + r - dx
  let tlY := y + r - dy
  let trX := x + w - r + dx - 1
  let brY := y + h - r + dy - 1
  plot tlX tlY colorIndex f >>= plot trX tlY colorIndex >>= plot tlX brY colorIndex >>=
    plot trX brY colorIndex

/-- The sweep over the corners, without the distances that are skipped. -/
def sweepCorners (x y w h r : Int) (skips : Int → Int → Bool) (colorIndex : UInt32) :
    Pixels bufferWidth bufferHeight → Except Trap (Pixels bufferWidth bufferHeight) :=
  forInts 0 (r + 1) fun dy => forInts 0 (r + 1) fun dx f =>
    if !skips dx dy then plotCorners x y w h r dx dy colorIndex f else .ok f

/-- `dx * dx + dy * dy > r2` -/
def beyond (r dx dy : Int) : Bool := r * r < dx * dx + dy * dy

def fillRoundedRectangle (x y w h : Int32) (radius colorIndex : UInt32)
    (f : Pixels bufferWidth bufferHeight) : Except Trap (Pixels bufferWidth bufferHeight) :=
  if bufferWidth ≤ 0 ∨ bufferHeight ≤ 0 ∨ w ≤ 0 ∨ h ≤ 0 then .ok f
  else
    let r := cornerRadius w h radius
    let edgeX := x.toInt + r.toInt
    let edgeY := y.toInt + r.toInt
    let across (f : Pixels bufferWidth bufferHeight) :=
      if Fits32 edgeX then fillRectangle (Int32.ofInt edgeX) y (w - 2 * r) h colorIndex f else .ok f
    let down (f : Pixels bufferWidth bufferHeight) :=
      if Fits32 edgeY then fillRectangle x (Int32.ofInt edgeY) w (h - 2 * r) colorIndex f else .ok f
    let corners (f : Pixels bufferWidth bufferHeight) :=
      if 0 < r then
        sweepCorners x.toInt y.toInt w.toInt h.toInt r.toInt (beyond r.toInt) colorIndex f
      else .ok f
    across f >>= down >>= corners

/-- The pixels of the corners. -/
def InCorners (x y w h r : Int) (skips : Int → Int → Bool) (i j : Int) : Prop :=
  ∃ dx dy, 0 ≤ dx ∧ dx ≤ r ∧ 0 ≤ dy ∧ dy ≤ r ∧ skips dx dy = false ∧
    (i = x + r - dx ∨ i = x + w - r + dx - 1) ∧ (j = y + r - dy ∨ j = y + h - r + dy - 1)

theorem plotCorners_paints (bufferWidth bufferHeight : Int32) (x y w h r dx dy : Int) (c : UInt32) :
    Paints (fun i j => (i = x + r - dx ∨ i = x + w - r + dx - 1) ∧
        (j = y + r - dy ∨ j = y + h - r + dy - 1)) c
      (plotCorners x y w h r dx dy c : Pixels bufferWidth bufferHeight → _) := by
  have hplot := fun X Y => plot_paints bufferWidth bufferHeight X Y c
  have hplots := (((hplot (x + r - dx) (y + r - dy)).seq
    (hplot (x + w - r + dx - 1) (y + r - dy))).seq
    (hplot (x + r - dx) (y + h - r + dy - 1))).seq
    (hplot (x + w - r + dx - 1) (y + h - r + dy - 1))
  refine hplots.congr fun i j => ?_
  omega

theorem sweepCorners_paints (bufferWidth bufferHeight : Int32) (x y w h r : Int)
    (skips : Int → Int → Bool) (c : UInt32) :
    Paints (InCorners x y w h r skips) c
      (sweepCorners x y w h r skips c : Pixels bufferWidth bufferHeight → _) := by
  have hsweep := Paints.forInts (a := 0) (b := r + 1) fun dy _ _ =>
    Paints.forInts (a := 0) (b := r + 1) fun dx _ _ =>
      Paints.ite (p := !skips dx dy) fun _ =>
        plotCorners_paints bufferWidth bufferHeight x y w h r dx dy c
  refine hsweep.congr fun i j => ?_
  constructor
  · rintro ⟨dy, hdy, hdy', dx, hdx, hdx', hskip, hi, hj⟩
    exact ⟨dx, dy, hdx, by omega, hdy, by omega, by simpa using hskip, hi, hj⟩
  · rintro ⟨dx, dy, hdx, hdx', hdy, hdy', hskip, hi, hj⟩
    exact ⟨dy, hdy, by omega, dx, hdx, by omega, by simpa using hskip, hi, hj⟩

theorem toInt_half {n : Int32} (hn : 0 < n.toInt) :
    ((n / 2).toUInt32.toNat : Int) = n.toInt / 2 := by
  have h2 : (2 : Int32) ≠ -1 := by decide
  have htwo : (2 : Int32).toInt = 2 := by decide
  have hdiv := Int32.toInt_div_of_ne_right n 2 h2
  rw [htwo, Int.tdiv_eq_ediv_of_nonneg (by omega)] at hdiv
  rw [toNat_toUInt32 (toInt_nonneg.mpr (by omega)), hdiv]

theorem toInt_cornerRadius {w h : Int32} (hw : 0 < w.toInt) (hh : 0 < h.toInt) (radius : UInt32) :
    (cornerRadius w h radius).toInt = min (radius.toNat : Int) (min (w.toInt / 2) (h.toInt / 2)) := by
  have hwlt := w.toInt_lt
  have hhalfw := toInt_half hw
  have hhalfh := toInt_half hh
  have hmin := toNat_ite_min (w / 2).toUInt32 radius
  have hmin' := toNat_ite_min (h / 2).toUInt32
    (if (w / 2).toUInt32 < radius then (w / 2).toUInt32 else radius)
  rw [cornerRadius]
  dsimp only [GT.gt]
  rw [toInt_toInt32 (by omega)]
  omega

/-- What a rounded rectangle paints: the columns and the rows between its corners, and the
corners. -/
def Rounded (x y w h r i j : Int) : Prop :=
  InRect (x + r) y (w - 2 * r) h i j ∨ InRect x (y + r) w (h - 2 * r) i j ∨
    0 < r ∧ InCorners x y w h r (beyond r) i j

def RoundedArea (x y w h : Int32) (radius : UInt32) (i j : Int) : Prop :=
  0 < w.toInt ∧ 0 < h.toInt ∧
    Rounded x.toInt y.toInt w.toInt h.toInt (cornerRadius w h radius).toInt i j

theorem fillRoundedRectangle_paints (bufferWidth bufferHeight x y w h : Int32)
    (radius c : UInt32) :
    Paints (RoundedArea x y w h radius) c
      (fillRoundedRectangle x y w h radius c : Pixels bufferWidth bufferHeight → _) := by
  unfold fillRoundedRectangle
  simp only [toInt_nonpos]
  by_cases hempty : bufferWidth.toInt ≤ 0 ∨ bufferHeight.toInt ≤ 0 ∨ w.toInt ≤ 0 ∨ h.toInt ≤ 0
  · simp only [if_pos hempty]
    refine Draws.skip fun i j ⟨hw, hh, _⟩ => ?_
    have hi := i.isLt
    have hj := j.isLt
    omega
  · simp only [if_neg hempty]
    have hr := toInt_cornerRadius (w := w) (h := h) (by omega) (by omega) radius
    have hxlt := x.toInt_lt
    have hylt := y.toInt_lt
    have hxle := x.le_toInt
    have hyle := y.le_toInt
    have hwlt := w.toInt_lt
    have hhlt := h.toInt_lt
    have hWlt := bufferWidth.toInt_lt
    have hHlt := bufferHeight.toInt_lt
    obtain ⟨r, hdef⟩ : ∃ r, cornerRadius w h radius = r := ⟨_, rfl⟩
    rw [hdef] at hr
    simp only [hdef]
    have h2 : (2 : Int32).toInt = 2 := by decide
    have h2r : (2 * r).toInt = 2 * r.toInt := by
      rw [Int32.toInt_mul, h2]
      exact Int.bmod_eq_of_le (by omega) (by omega)
    have hww := toInt_sub_eq (m := w) (n := 2 * r) (by omega) (by omega)
    have hhh := toInt_sub_eq (m := h) (n := 2 * r) (by omega) (by omega)
    have hacross := Paints.ite (p := Fits32 (x.toInt + r.toInt)) fun _ =>
      fillRectangle_paints bufferWidth bufferHeight (Int32.ofInt (x.toInt + r.toInt)) y (w - 2 * r)
        h c
    have hdown := Paints.ite (p := Fits32 (y.toInt + r.toInt)) fun _ =>
      fillRectangle_paints bufferWidth bufferHeight x (Int32.ofInt (y.toInt + r.toInt)) w
        (h - 2 * r) c
    have hcorners := Paints.ite (p := 0 < r) fun _ =>
      sweepCorners_paints bufferWidth bufferHeight x.toInt y.toInt w.toInt h.toInt r.toInt
        (beyond r.toInt) c
    have hof : ∀ n : Int, Fits32 n → (Int32.ofInt n).toInt = n := fun n hn =>
      Int32.toInt_ofInt_of_le (by have := hn.1; omega) (by have := hn.2; omega)
    -- an edge past the words is past the buffer too
    have hleft : ∀ (i : Fin bufferWidth.toInt.toNat) (j : Fin bufferHeight.toInt.toNat),
        Fits32 (x.toInt + r.toInt) ∧ InRect (Int32.ofInt (x.toInt + r.toInt)).toInt y.toInt
          (w.toInt - 2 * r.toInt) h.toInt i j ↔
        InRect (x.toInt + r.toInt) y.toInt (w.toInt - 2 * r.toInt) h.toInt i j := by
      intro i j
      by_cases hfit : Fits32 (x.toInt + r.toInt)
      · rw [hof _ hfit, and_iff_right hfit]
      · refine iff_of_false (fun hin => hfit hin.1) fun hin => hfit ?_
        rw [InRect] at hin
        rw [Fits32]
        omega
    have htop : ∀ (i : Fin bufferWidth.toInt.toNat) (j : Fin bufferHeight.toInt.toNat),
        Fits32 (y.toInt + r.toInt) ∧ InRect x.toInt (Int32.ofInt (y.toInt + r.toInt)).toInt
          w.toInt (h.toInt - 2 * r.toInt) i j ↔
        InRect x.toInt (y.toInt + r.toInt) w.toInt (h.toInt - 2 * r.toInt) i j := by
      intro i j
      by_cases hfit : Fits32 (y.toInt + r.toInt)
      · rw [hof _ hfit, and_iff_right hfit]
      · refine iff_of_false (fun hin => hfit hin.1) fun hin => hfit ?_
        rw [InRect] at hin
        rw [Fits32]
        omega
    refine ((hacross.seq hdown).seq hcorners).congr fun i j => ?_
    rw [hww, hhh, h2r, hleft, htop, toInt_pos, RoundedArea, Rounded, hdef, or_assoc,
      and_iff_right (show 0 < w.toInt by omega), and_iff_right (show 0 < h.toInt by omega)]

/-! ## The shape -/

section Shape

variable {x y w h r : Int}

theorem inRect_swap (i j : Int) : InRect x y w h i j ↔ InRect y x h w j i := by
  rw [InRect, InRect]
  omega

/-- A rectangle and its mirror image on the diagonal. -/
theorem rounded_swap (i j : Int) : Rounded x y w h r i j ↔ Rounded y x h w r j i := by
  have hswap : ∀ {x y w h i j : Int}, InCorners x y w h r (beyond r) i j →
      InCorners y x h w r (beyond r) j i := by
    rintro x y w h i j ⟨dx, dy, hdx, hdx', hdy, hdy', hskip, hi, hj⟩
    refine ⟨dy, dx, hdy, hdy', hdx, hdx', ?_, hj, hi⟩
    rw [beyond] at hskip ⊢
    rwa [Int.add_comm]
  have hcorners : InCorners x y w h r (beyond r) i j ↔ InCorners y x h w r (beyond r) j i :=
    ⟨hswap, hswap⟩
  rw [Rounded, Rounded, hcorners, inRect_swap i j, inRect_swap (y := y + r) i j]
  exact or_left_comm

theorem rounded_subset (hr : 0 ≤ r) (hw : 2 * r ≤ w) (hh : 2 * r ≤ h) {i j : Int}
    (hs : Rounded x y w h r i j) : InRect x y w h i j := by
  obtain hs | hs | ⟨hr, dx, dy, hdx, hdx', hdy, hdy', -, hi, hj⟩ := hs
  · rw [InRect] at hs ⊢
    omega
  · rw [InRect] at hs ⊢
    omega
  · rw [InRect]
    omega

theorem rounded_mirror {i j : Int} (hs : Rounded x y w h r i j) :
    Rounded x y w h r (2 * x + w - 1 - i) j := by
  obtain hs | hs | ⟨hr, dx, dy, hdx, hdx', hdy, hdy', hskip, hi, hj⟩ := hs
  · left
    rw [InRect] at hs ⊢
    omega
  · right
    left
    rw [InRect] at hs ⊢
    omega
  · exact Or.inr (Or.inr ⟨hr, dx, dy, hdx, hdx', hdy, hdy', hskip, by omega, hj⟩)

/-- A pixel between two mirrored ones of the corners is painted. -/
theorem rounded_span (hw : 2 * r ≤ w) (hh : 2 * r ≤ h) (hr : 0 < r) {dx dy i j : Int}
    (hdx : 0 ≤ dx) (hdx' : dx ≤ r) (hdy : 0 ≤ dy) (hdy' : dy ≤ r)
    (hskip : beyond r dx dy = false) (hj : j = y + r - dy ∨ j = y + h - r + dy - 1)
    (hlow : min (x + r - dx) (x + w - r + dx - 1) ≤ i)
    (hhigh : i ≤ max (x + r - dx) (x + w - r + dx - 1)) : Rounded x y w h r i j := by
  -- nearer to the middle than a pixel of a corner
  have hnear : ∀ d, 0 ≤ d → d ≤ dx → (i = x + r - d ∨ i = x + w - r + d - 1) →
      Rounded x y w h r i j := by
    intro d hd hle hi
    refine Or.inr (Or.inr ⟨hr, d, dy, hd, by omega, hdy, hdy', ?_, hi, hj⟩)
    have hsq : d * d ≤ dx * dx := Int.mul_le_mul hle hle hd hdx
    rw [beyond, decide_eq_false_iff_not] at hskip ⊢
    omega
  by_cases hleft : i ≤ x + r
  · by_cases hin : x + r - dx ≤ i
    · exact hnear (x + r - i) (by omega) (by omega) (Or.inl (by omega))
    · exact hnear 0 (Int.le_refl 0) hdx (Or.inr (by omega))
  · by_cases hright : x + w - r - 1 ≤ i
    · exact hnear (i - (x + w - r - 1)) (by omega) (by omega) (Or.inr (by omega))
    · left
      rw [InRect]
      omega

theorem rounded_row (hr : 0 ≤ r) (hw : 2 * r ≤ w) (hh : 2 * r ≤ h) {i i' i'' j : Int}
    (hs : Rounded x y w h r i j) (hs'' : Rounded x y w h r i'' j) (hle : i ≤ i') (hle' : i' ≤ i'') :
    Rounded x y w h r i' j := by
  have hin := rounded_subset hr hw hh hs
  have hin'' := rounded_subset hr hw hh hs''
  rw [InRect] at hin hin''
  by_cases hdown : y + r ≤ j ∧ j < y + h - r
  · right
    left
    rw [InRect]
    omega
  by_cases hacross : x + r ≤ i' ∧ i' < x + w - r
  · left
    rw [InRect]
    omega
  -- outside of both bands the end on the same side is in a corner
  by_cases hside : i' < x + r
  · obtain hs | hs | ⟨hr, dx, dy, hdx, hdx', hdy, hdy', hskip, hi, hj⟩ := hs
    · rw [InRect] at hs
      omega
    · rw [InRect] at hs
      omega
    · exact rounded_span hw hh hr hdx hdx' hdy hdy' hskip hj (by omega) (by omega)
  · obtain hs | hs | ⟨hr, dx, dy, hdx, hdx', hdy, hdy', hskip, hi, hj⟩ := hs''
    · rw [InRect] at hs
      omega
    · rw [InRect] at hs
      omega
    · exact rounded_span hw hh hr hdx hdx' hdy hdy' hskip hj (by omega) (by omega)

end Shape

/-- What the area of a rounded rectangle is like: a part of the rectangle, its own mirror image in
both directions, and without gaps in its rows and columns. -/
structure RoundedShape (x y w h : Int) (S : Int → Int → Prop) : Prop where
  subset : ∀ i j, S i j → InRect x y w h i j
  mirrorX : ∀ i j, S i j ↔ S (2 * x + w - 1 - i) j
  mirrorY : ∀ i j, S i j ↔ S i (2 * y + h - 1 - j)
  row : ∀ i i' i'' j, S i j → S i'' j → i ≤ i' → i' ≤ i'' → S i' j
  column : ∀ i j j' j'', S i j → S i j'' → j ≤ j' → j' ≤ j'' → S i j'

theorem roundedShape (x y w h : Int32) (radius : UInt32) :
    RoundedShape x.toInt y.toInt w.toInt h.toInt (RoundedArea x y w h radius) := by
  have hradius : 0 < w.toInt → 0 < h.toInt → 0 ≤ (cornerRadius w h radius).toInt ∧
      2 * (cornerRadius w h radius).toInt ≤ w.toInt ∧
      2 * (cornerRadius w h radius).toInt ≤ h.toInt := by
    intro hw hh
    have hr := toInt_cornerRadius hw hh radius
    omega
  have hmirror : ∀ {x y w h r i j : Int}, Rounded x y w h r (2 * x + w - 1 - i) j →
      Rounded x y w h r i j := by
    intro x y w h r i j hs
    have hback := rounded_mirror hs
    rwa [show 2 * x + w - 1 - (2 * x + w - 1 - i) = i by omega] at hback
  constructor
  case subset =>
    rintro i j ⟨hw, hh, hs⟩
    obtain ⟨hr, hrw, hrh⟩ := hradius hw hh
    exact rounded_subset hr hrw hrh hs
  case mirrorX =>
    intro i j
    exact ⟨fun ⟨hw, hh, hs⟩ => ⟨hw, hh, rounded_mirror hs⟩,
      fun ⟨hw, hh, hs⟩ => ⟨hw, hh, hmirror hs⟩⟩
  case mirrorY =>
    intro i j
    refine ⟨fun ⟨hw, hh, hs⟩ => ⟨hw, hh, ?_⟩, fun ⟨hw, hh, hs⟩ => ⟨hw, hh, ?_⟩⟩
    · rw [rounded_swap] at hs ⊢
      exact rounded_mirror hs
    · rw [rounded_swap] at hs ⊢
      exact hmirror hs
  case row =>
    rintro i i' i'' j ⟨hw, hh, hs⟩ ⟨-, -, hs''⟩ hle hle'
    obtain ⟨hr, hrw, hrh⟩ := hradius hw hh
    exact ⟨hw, hh, rounded_row hr hrw hrh hs hs'' hle hle'⟩
  case column =>
    rintro i j j' j'' ⟨hw, hh, hs⟩ ⟨-, -, hs''⟩ hle hle'
    obtain ⟨hr, hrw, hrh⟩ := hradius hw hh
    rw [rounded_swap] at hs hs''
    refine ⟨hw, hh, ?_⟩
    rw [rounded_swap]
    exact rounded_row hr hrh hrw hs hs'' hle hle'

/-- With the radius 0 nothing is rounded. -/
theorem roundedArea_zero (x y w h : Int32) (i j : Int) :
    RoundedArea x y w h 0 i j ↔ InRect x.toInt y.toInt w.toInt h.toInt i j := by
  constructor
  · exact (roundedShape x y w h 0).subset i j
  · intro hin
    have hw : 0 < w.toInt := by
      rw [InRect] at hin
      omega
    have hh : 0 < h.toInt := by
      rw [InRect] at hin
      omega
    have hr := toInt_cornerRadius hw hh 0
    have h0 : (0 : UInt32).toNat = 0 := rfl
    refine ⟨hw, hh, Or.inl ?_⟩
    rw [show (cornerRadius w h 0).toInt = 0 by omega, Int.add_zero, Int.mul_zero, Int.sub_zero]
    exact hin

/-- On every buffer, the rectangle and the rounded rectangle paint the pixels that the buffer has of
one and the same area. -/
theorem rectangles_paint (x y w h : Int32) (radius colorIndex : UInt32) :
    (∀ bufferWidth bufferHeight : Int32,
      Paints (InRect x.toInt y.toInt w.toInt h.toInt) colorIndex
        (fillRectangle x y w h colorIndex : Pixels bufferWidth bufferHeight → _) ∧
      Paints (RoundedArea x y w h radius) colorIndex
        (fillRoundedRectangle x y w h radius colorIndex : Pixels bufferWidth bufferHeight → _)) ∧
    RoundedShape x.toInt y.toInt w.toInt h.toInt (RoundedArea x y w h radius) ∧
    ∀ i j, RoundedArea x y w h 0 i j ↔ InRect x.toInt y.toInt w.toInt h.toInt i j :=
  ⟨fun bufferWidth bufferHeight => ⟨fillRectangle_paints bufferWidth bufferHeight x y w h colorIndex,
    fillRoundedRectangle_paints bufferWidth bufferHeight x y w h radius colorIndex⟩,
    roundedShape x y w h radius, roundedArea_zero x y w h⟩

end Hashx86
