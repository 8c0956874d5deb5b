import Hashx86.Gui.Surface

/-!
# Circles (`gui/render/nina.cpp`)

`FillCircle` and `DrawCircle` follow the same walk along an eighth of the circle. They compute in
32-bit integers; a value that does not fit is an overflow.

* `OnWalk`: what holds along the walk; `OnWalk.step`: so a step does not overflow.
* `drawCircle_paints`: `DrawCircle` paints `CirclePoint`, the mirrored points of the walk.
* `fillCircle_paints`: `FillCircle` paints in each row the span of these points (`fills_iff`).
* `circles_iff`: both exactly where the columns up to the one after the circle, and its rows, fit in
  32 bits.
-/

namespace Hashx86
namespace Circle

open Lib

/-- A value of an `int32_t` expression. -/
def int32 (v : Int) : Except Trap Int := if Fits32 v then .ok v else .error .overflow

theorem int32_eq {v : Int} (hv : Fits32 v) : int32 v = .ok v := if_pos hv

theorem int32_eq_ok {v v' : Int} : int32 v = .ok v' ↔ Fits32 v ∧ v = v' := by
  rw [int32]
  by_cases hv : Fits32 v
  · simp [hv]
  · simp [hv]

variable {bufferWidth bufferHeight : Int32}

/-! ## The walk -/

/-- The point of the walk, from the center, and the error of the circle through it. -/
structure Walk where
  x : Int
  y : Int
  err : Int

def Walk.start (radius : Int) : Walk := ⟨radius, 0, 0⟩

/-- `y++; if (err <= 0) err += 2 * y + 1; else { x--; err += 2 * (y - x) + 1; }` -/
def Walk.step (s : Walk) : Except Trap Walk := do
  let y ← int32 (s.y + 1)
  if s.err ≤ 0 then
    let err ← int32 (s.err + (← int32 ((← int32 (2 * y)) + 1)))
    return ⟨s.x, y, err⟩
  else
    let x ← int32 (s.x - 1)
    let err ← int32 (s.err + (← int32 ((← int32 (2 * (← int32 (y - x)))) + 1)))
    return ⟨x, y, err⟩

/-- The step in the integers. -/
def Walk.next (s : Walk) : Walk :=
  if s.err ≤ 0 then ⟨s.x, s.y + 1, s.err + 2 * (s.y + 1) + 1⟩
  else ⟨s.x - 1, s.y + 1, s.err + 2 * (s.y + 1 - (s.x - 1)) + 1⟩

/-- `while (x >= y)` -/
def Walk.Goes (s : Walk) : Prop := s.y ≤ s.x

instance (s : Walk) : Decidable s.Goes := inferInstanceAs (Decidable (_ ≤ _))

/-- What holds along the walk. The error lies between that of the point itself and that of the next
ones, so that the walk stays near the circle. -/
structure OnWalk (radius : Int) (s : Walk) : Prop where
  nonneg : 0 ≤ s.y
  le : s.x ≤ radius
  err : s.err = s.x * s.x - s.x + s.y * s.y + 2 * s.y - radius * radius + radius
  low : s.Goes → -2 * s.x ≤ s.err
  high : s.Goes → s.err ≤ 2 * s.y + 1

theorem OnWalk.start {radius : Int} (hr : 0 ≤ radius) : OnWalk radius (.start radius) where
  nonneg := Int.le_refl 0
  le := Int.le_refl radius
  err := by simp only [Walk.start]; omega
  low := fun _ => by simp only [Walk.start]; omega
  high := fun _ => by simp only [Walk.start]; omega

theorem OnWalk.next {radius : Int} {s : Walk} (hs : OnWalk radius s) (hg : s.Goes) :
    OnWalk radius s.next := by
  obtain ⟨hnonneg, hle, herr, hlow, hhigh⟩ := hs
  have hlow := hlow hg
  have hhigh := hhigh hg
  rw [Walk.Goes] at hg
  have hy : (s.y + 1) * (s.y + 1) = s.y * s.y + 2 * s.y + 1 := by grind
  have hx : (s.x - 1) * (s.x - 1) = s.x * s.x - 2 * s.x + 1 := by grind
  unfold Walk.next
  by_cases hneg : s.err ≤ 0
  · rw [if_pos hneg]
    constructor
    · show 0 ≤ s.y + 1
      omega
    · exact hle
    · show s.err + 2 * (s.y + 1) + 1 = _
      dsimp only
      omega
    · intro _
      dsimp only
      omega
    · intro _
      dsimp only
      omega
  · rw [if_neg hneg]
    constructor
    · show 0 ≤ s.y + 1
      omega
    · show s.x - 1 ≤ radius
      omega
    · dsimp only
      omega
    · intro hg'
      simp only [Walk.Goes] at hg'
      dsimp only
      omega
    · intro hg'
      simp only [Walk.Goes] at hg'
      dsimp only
      omega

/-- A point before the diagonal is less than three quarters of the radius away from the axis. -/
theorem OnWalk.row_lt {radius : Int} (hr : radius < 2 ^ 30) {s : Walk} (hs : OnWalk radius s)
    (hg : s.Goes) : s.y < 3 * 2 ^ 28 := by
  have hhigh := hs.high hg
  have herr := hs.err
  have hle := hs.le
  have hnonneg := hs.nonneg
  rw [Walk.Goes] at hg
  have hdiag : s.y * s.y - s.y ≤ s.x * s.x - s.x := by
    obtain heq | hlt := Int.le_iff_eq_or_lt.mp hg
    · rw [heq]
    · have hmul := Int.mul_nonneg (show 0 ≤ s.x - s.y by omega) (show 0 ≤ s.x + s.y - 1 by omega)
      grind
  have hrad := Int.mul_le_mul_of_nonneg_right (Int.le_of_lt hr) (show 0 ≤ radius by omega)
  by_contra hge
  have hsq := Int.mul_le_mul_of_nonneg_right (Int.not_lt.mp hge) hnonneg
  omega

/-- The step does not overflow. -/
theorem OnWalk.step {radius : Int} (hr : radius < 2 ^ 30) {s : Walk} (hs : OnWalk radius s)
    (hg : s.Goes) : s.step = .ok s.next := by
  have hrow := hs.row_lt hr hg
  have hle := hs.le
  have hnonneg := hs.nonneg
  have hlow := hs.low hg
  have hhigh := hs.high hg
  rw [Walk.Goes] at hg
  have hfits : ∀ v : Int, -2 ^ 31 ≤ v → v < 2 ^ 31 → int32 v = .ok v :=
    fun v hlow hhigh => int32_eq ⟨hlow, hhigh⟩
  rw [Walk.step, Walk.next, hfits (s.y + 1) (by omega) (by omega), ok_bind]
  by_cases hneg : s.err ≤ 0
  · rw [if_pos hneg, if_pos hneg, hfits (2 * (s.y + 1)) (by omega) (by omega), ok_bind,
      hfits (2 * (s.y + 1) + 1) (by omega) (by omega), ok_bind, hfits _ (by omega) (by omega),
      ok_bind, ← Int.add_assoc]
    rfl
  · rw [if_neg hneg, if_neg hneg, hfits (s.x - 1) (by omega) (by omega), ok_bind,
      hfits (s.y + 1 - (s.x - 1)) (by omega) (by omega), ok_bind,
      hfits (2 * (s.y + 1 - (s.x - 1))) (by omega) (by omega), ok_bind,
      hfits (2 * (s.y + 1 - (s.x - 1)) + 1) (by omega) (by omega), ok_bind,
      hfits _ (by omega) (by omega), ok_bind, ← Int.add_assoc]
    rfl

/-! ## What is painted -/

/-- `if (px >= 0 && py >= 0 && px < bufferWidth && py < bufferHeight)`
`buffer[py * bufferWidth + px] = colorIndex`. -/
def plot32 (px py : Int) (colorIndex : UInt32) (f : Pixels bufferWidth bufferHeight) :
    Except Trap (Pixels bufferWidth bufferHeight) :=
  if 0 ≤ px ∧ 0 ≤ py ∧ px < bufferWidth.toInt ∧ py < bufferHeight.toInt then
    int32 (py * bufferWidth.toInt) >>= fun row => int32 (row + px) >>= fun place =>
      poke .outside place (fun _ => colorIndex) f
  else .ok f

/-- The loop `for (int32_t dx = cx - half; dx <= cx + half; ++dx)` over the rows `cy + off` and
`cy - off`. -/
def fillSpan (cx cy half off : Int) (colorIndex : UInt32) (f : Pixels bufferWidth bufferHeight) :
    Except Trap (Pixels bufferWidth bufferHeight) :=
  int32 (cx - half) >>= fun dx =>
    drawLoop (fun dx => int32 (cx + half) >>= fun stop => .ok (decide (dx ≤ stop)))
      (fun dx f =>
        int32 (cy + off) >>= fun row => plot32 dx row colorIndex f >>= fun f =>
        int32 (cy - off) >>= fun row => plot32 dx row colorIndex f)
      (fun dx => int32 (dx + 1)) .endless (2 ^ 32) dx f

/-- `set(cx + dx, cy + dy)` -/
def setAt (cx cy dx dy : Int) (colorIndex : UInt32) (f : Pixels bufferWidth bufferHeight) :
    Except Trap (Pixels bufferWidth bufferHeight) :=
  int32 (cx + dx) >>= fun px => int32 (cy + dy) >>= fun py => plot32 px py colorIndex f

/-- What the two circles have in common: a loop along the walk. -/
def circle (cx cy : Int32) (radius colorIndex : UInt32)
    (body : Walk → Pixels bufferWidth bufferHeight → Except Trap (Pixels bufferWidth bufferHeight))
    (f : Pixels bufferWidth bufferHeight) : Except Trap (Pixels bufferWidth bufferHeight) :=
  if bufferWidth ≤ 0 ∨ bufferHeight ≤ 0 then .ok f
  else if radius = 0 then plot32 cx.toInt cy.toInt colorIndex f
  else if radius > 0x3FFFFFFF then .ok f
  else
    drawLoop (fun s => .ok (decide s.Goes)) body Walk.step .endless (2 ^ 32)
      (.start radius.toInt32.toInt) f

def fillCircle (cx cy : Int32) (radius colorIndex : UInt32) :
    Pixels bufferWidth bufferHeight → Except Trap (Pixels bufferWidth bufferHeight) :=
  circle cx cy radius colorIndex fun s f =>
    fillSpan cx.toInt cy.toInt s.x s.y colorIndex f >>=
      fillSpan cx.toInt cy.toInt s.y s.x colorIndex

def drawCircle (cx cy : Int32) (radius colorIndex : UInt32) :
    Pixels bufferWidth bufferHeight → Except Trap (Pixels bufferWidth bufferHeight) :=
  let set := setAt cx.toInt cy.toInt
  circle cx cy radius colorIndex fun s f =>
    set s.x s.y colorIndex f >>= set s.y s.x colorIndex >>= set (-s.y) s.x colorIndex >>=
      set (-s.x) s.y colorIndex >>= set (-s.x) (-s.y) colorIndex >>= set (-s.y) (-s.x) colorIndex >>=
      set s.y (-s.x) colorIndex >>= set s.x (-s.y) colorIndex

theorem plot32_paints (dst : BufferSize) (px py : Int) (c : UInt32) :
    Paints (fun i j => i = px ∧ j = py) c (plot32 px py c : Pixels dst.width dst.height → _) := by
  unfold plot32
  by_cases hin : 0 ≤ px ∧ 0 ≤ py ∧ px < dst.width.toInt ∧ py < dst.height.toInt
  · have hfits := dst.fits (by omega) (by omega)
    have hplace := place_lt (w := dst.width.toInt.toNat) (h := dst.height.toInt.toNat) hin.1
      (by omega) hin.2.1 (by omega)
    rw [Int.toNat_of_nonneg (by omega), Int.toNat_of_nonneg (by omega)] at hplace
    have hnn := Int.mul_nonneg hin.2.1 (show 0 ≤ dst.width.toInt by omega)
    have hrow := int32_eq (v := py * dst.width.toInt) ⟨by omega, by omega⟩
    have hsum := int32_eq (v := py * dst.width.toInt + px) ⟨by omega, by omega⟩
    simp only [if_pos hin, hrow, hsum, ok_bind]
    exact poke_paints dst.width dst.height hin.1 hin.2.2.1 hin.2.1 hin.2.2.2 c
  · simp only [if_neg hin]
    exact Draws.skip fun i j => by omega

/-- The columns up to the one after a circle, and its rows, fit in 32 bits. -/
structure FitsAround (cx cy radius : Int) : Prop where
  left : Fits32 (cx - radius)
  right : Fits32 (cx + radius + 1)
  top : Fits32 (cy - radius)
  bottom : Fits32 (cy + radius)

theorem FitsAround.column {cx cy radius : Int} (hf : FitsAround cx cy radius) {d : Int}
    (hlow : -radius ≤ d) (hhigh : d ≤ radius + 1) : Fits32 (cx + d) :=
  ⟨by have := hf.left.1; omega, by have := hf.right.2; omega⟩

theorem FitsAround.row {cx cy radius : Int} (hf : FitsAround cx cy radius) {d : Int}
    (hlow : -radius ≤ d) (hhigh : d ≤ radius) : Fits32 (cy + d) :=
  ⟨by have := hf.top.1; omega, by have := hf.bottom.2; omega⟩

/-- The rows `cy + off` and `cy - off` from `cx - half` up to `cx + half`. -/
def InSpan (cx cy half off i j : Int) : Prop :=
  cx - half ≤ i ∧ i ≤ cx + half ∧ (j = cy + off ∨ j = cy - off)

theorem fillSpan_paints (dst : BufferSize) {cx cy radius half off : Int}
    (hf : FitsAround cx cy radius) (hhalf : 0 ≤ half) (hhalf' : half ≤ radius) (hoff : 0 ≤ off)
    (hoff' : off ≤ radius) (c : UInt32) :
    Paints (InSpan cx cy half off) c
      (fillSpan cx cy half off c : Pixels dst.width dst.height → _) := by
  have hleft : Fits32 (cx - half) := hf.column (d := -half) (by omega) (by omega)
  have hstop : Fits32 (cx + half) := hf.column (by omega) (by omega)
  have hright : Fits32 (cx + (half + 1)) := hf.column (by omega) (by omega)
  have hlow : Fits32 (cy + off) := hf.row (by omega) hoff'
  have hup : Fits32 (cy - off) := hf.row (d := -off) (by omega) (by omega)
  have hbody : ∀ dx, Paints (fun i j => i = dx ∧ (j = cy + off ∨ j = cy - off)) c
      (fun f : Pixels dst.width dst.height =>
        int32 (cy + off) >>= fun row => plot32 dx row c f >>= fun f =>
        int32 (cy - off) >>= fun row => plot32 dx row c f) := by
    intro dx
    simp only [int32_eq hlow, int32_eq hup, ok_bind]
    refine ((plot32_paints dst dx (cy + off) c).seq (plot32_paints dst dx (cy - off) c)).congr ?_
    intro i j
    rw [← and_or_left]
  have hloop : Paints (fun i j => ∃ dx, Passes (· + 1) (· ≤ cx + half) (cx - half) dx ∧
      i = dx ∧ (j = cy + off ∨ j = cy - off)) c
      (fillSpan cx cy half off c : Pixels dst.width dst.height → _) := by
    unfold fillSpan
    simp only [int32_eq hleft, int32_eq hstop, ok_bind]
    refine Paints.drawLoop (fun dx => cx - half ≤ dx) (fun dx => (cx + half + 1 - dx).toNat) ?_
      (fun dx _ _ => hbody dx) ?_ (Int.le_refl _) ?_
    · intro dx hfirst hlast
      have hnext : Fits32 (dx + 1) := ⟨by have := hleft.1; omega, by have := hright.2; omega⟩
      exact ⟨by rw [decide_eq_true hlast], int32_eq hnext, by omega, by omega⟩
    · intro dx _ hlast
      rw [decide_eq_false hlast]
    · have hlow := hleft.1
      have hhigh := hright.2
      omega
  refine hloop.congr fun i j => ?_
  simp only [passes_upTo, InSpan]
  constructor
  · rintro ⟨dx, ⟨hfirst, hlast⟩, rfl, hj⟩
    exact ⟨hfirst, hlast, hj⟩
  · rintro ⟨hfirst, hlast, hj⟩
    exact ⟨i, ⟨hfirst, hlast⟩, rfl, hj⟩

theorem setAt_paints (dst : BufferSize) {cx cy radius dx dy : Int} (hf : FitsAround cx cy radius)
    (hx : -radius ≤ dx ∧ dx ≤ radius) (hy : -radius ≤ dy ∧ dy ≤ radius) (c : UInt32) :
    Paints (fun i j => i = cx + dx ∧ j = cy + dy) c
      (setAt cx cy dx dy c : Pixels dst.width dst.height → _) := by
  have hpx : Fits32 (cx + dx) := hf.column hx.1 (by omega)
  have hpy : Fits32 (cy + dy) := hf.row hy.1 hy.2
  unfold setAt
  simp only [int32_eq hpx, int32_eq hpy, ok_bind]
  exact plot32_paints dst (cx + dx) (cy + dy) c

/-! ## Circles on the unbounded plane -/

/-- The eight mirrored points. -/
def Walk.Plots (cx cy : Int) (s : Walk) (i j : Int) : Prop :=
  (i = cx + s.x ∨ i = cx - s.x) ∧ (j = cy + s.y ∨ j = cy - s.y) ∨
    (i = cx + s.y ∨ i = cx - s.y) ∧ (j = cy + s.x ∨ j = cy - s.x)

/-- The spans of the four rows. -/
def Walk.Fills (cx cy : Int) (s : Walk) (i j : Int) : Prop :=
  InSpan cx cy s.x s.y i j ∨ InSpan cx cy s.y s.x i j

/-- An area that is painted along the walk. -/
def AlongWalk (area : Walk → Int → Int → Prop) (radius i j : Int) : Prop :=
  ∃ s, Passes Walk.next Walk.Goes (.start radius) s ∧ area s i j

/-- The points of a circle on the unbounded plane. -/
def CirclePoint (cx cy radius : Int) : Int → Int → Prop := AlongWalk (Walk.Plots cx cy) radius

/-- The span between the leftmost and the rightmost point of a row. -/
def RowSpan (A : Int → Int → Prop) (i j : Int) : Prop := ∃ p q, p ≤ i ∧ i ≤ q ∧ A p j ∧ A q j

theorem OnWalk.of_passes {radius : Int} (hr : 0 ≤ radius) {s : Walk}
    (hp : Passes Walk.next Walk.Goes (.start radius) s) : OnWalk radius s ∧ s.Goes :=
  hp.inv (OnWalk radius) (fun _ hs hg => hs.next hg) (.start hr)

/-- What is filled along the walk is the span of the points, row by row: the half of the row with the
point lies in the span of the point and its mirror image. -/
theorem fills_iff {cx cy radius : Int} (hr : 0 ≤ radius) (i j : Int) :
    AlongWalk (Walk.Fills cx cy) radius i j ↔ RowSpan (CirclePoint cx cy radius) i j := by
  constructor
  · rintro ⟨s, hp, ⟨hleft, hright, hj⟩ | ⟨hleft, hright, hj⟩⟩
    · exact ⟨cx - s.x, cx + s.x, hleft, hright, ⟨s, hp, Or.inl ⟨Or.inr rfl, hj⟩⟩,
        ⟨s, hp, Or.inl ⟨Or.inl rfl, hj⟩⟩⟩
    · exact ⟨cx - s.y, cx + s.y, hleft, hright, ⟨s, hp, Or.inr ⟨Or.inr rfl, hj⟩⟩,
        ⟨s, hp, Or.inr ⟨Or.inl rfl, hj⟩⟩⟩
  · rintro ⟨p, q, hleft, hright, ⟨s, hs, hp⟩, ⟨t, ht, hq⟩⟩
    by_cases hside : i ≤ cx
    · obtain ⟨hon, hg⟩ := OnWalk.of_passes hr hs
      have hnonneg := hon.nonneg
      rw [Walk.Goes] at hg
      refine ⟨s, hs, ?_⟩
      obtain ⟨hp, hj⟩ | ⟨hp, hj⟩ := hp
      · exact Or.inl ⟨by omega, by omega, hj⟩
      · exact Or.inr ⟨by omega, by omega, hj⟩
    · obtain ⟨hon, hg⟩ := OnWalk.of_passes hr ht
      have hnonneg := hon.nonneg
      rw [Walk.Goes] at hg
      refine ⟨t, ht, ?_⟩
      obtain ⟨hq, hj⟩ | ⟨hq, hj⟩ := hq
      · exact Or.inl ⟨by omega, by omega, hj⟩
      · exact Or.inr ⟨by omega, by omega, hj⟩

/-- The walk of the radius 0 is at the center only. -/
theorem alongWalk_zero (area : Walk → Int → Int → Prop) (i j : Int) :
    AlongWalk area 0 i j ↔ area (.start 0) i j := by
  constructor
  · rintro ⟨s, hp, ha⟩
    obtain ⟨hon, hg⟩ := OnWalk.of_passes (Int.le_refl 0) hp
    obtain ⟨x, y, err⟩ := s
    obtain ⟨hnonneg, hle, herr, -, -⟩ := hon
    rw [Walk.Goes] at hg
    dsimp only at hnonneg hle herr hg
    obtain rfl : x = 0 := by omega
    obtain rfl : y = 0 := by omega
    obtain rfl : err = 0 := by omega
    exact ha
  · intro ha
    exact ⟨.start 0, .here (Int.le_refl 0), ha⟩

/-! ## Circles on a buffer -/

/-- The circle fits, where there is one to be painted and a buffer to paint it on. -/
def InRange (dst : BufferSize) (cx cy : Int32) (radius : UInt32) : Prop :=
  0 < dst.width.toInt → 0 < dst.height.toInt → 0 < radius.toNat →
    FitsAround cx.toInt cy.toInt radius.toNat

theorem toNat_radius {radius : UInt32} (hr : radius ≤ 0x3FFFFFFF) : radius.toNat < 2 ^ 30 := by
  have hle := UInt32.le_iff_toNat_le.mp hr
  rw [show (0x3FFFFFFF : UInt32).toNat = 2 ^ 30 - 1 from rfl] at hle
  omega

theorem circle_paints (dst : BufferSize) {cx cy : Int32} {radius c : UInt32}
    (hr : radius ≤ 0x3FFFFFFF) {area : Walk → Int → Int → Prop}
    {body : Walk → Pixels dst.width dst.height → Except Trap (Pixels dst.width dst.height)}
    (hzero : ∀ i j, area (.start 0) i j ↔ i = cx.toInt ∧ j = cy.toInt)
    (hbody : 0 < dst.width.toInt → 0 < dst.height.toInt → 0 < radius.toNat →
      ∀ s, OnWalk radius.toNat s → s.Goes → Paints (area s) c (body s)) :
    Paints (AlongWalk area radius.toNat) c (circle cx cy radius c body) := by
  have hlt := toNat_radius hr
  unfold circle
  simp only [toInt_nonpos]
  by_cases hempty : dst.width.toInt ≤ 0 ∨ dst.height.toInt ≤ 0
  · simp only [if_pos hempty]
    refine Draws.skip fun i j => ?_
    have hi := i.isLt
    have hj := j.isLt
    omega
  · simp only [if_neg hempty]
    by_cases h0 : radius = 0
    · simp only [if_pos h0]
      refine (plot32_paints dst cx.toInt cy.toInt c).congr fun i j => ?_
      rw [h0, ← hzero]
      exact (alongWalk_zero area i j).symm
    · have hle : ¬ radius > 0x3FFFFFFF := by grind
      have hrad : 0 < radius.toNat := by
        refine Nat.pos_of_ne_zero fun hn => h0 ?_
        exact UInt32.toNat_inj.mp hn
      simp only [if_neg h0, if_neg hle, toInt_toInt32 (show radius.toNat < 2 ^ 31 by omega)]
      refine Paints.drawLoop (OnWalk radius.toNat) (fun s => (s.x - s.y + 1).toNat) ?_
        (hbody (by omega) (by omega) hrad) ?_ (.start (by omega)) ?_
      · intro s hs hg
        have hstep := hs.step (by omega) hg
        refine ⟨by rw [decide_eq_true hg], hstep, hs.next hg, ?_⟩
        rw [Walk.Goes] at hg
        by_cases hneg : s.err ≤ 0
        · rw [Walk.next, if_pos hneg]
          dsimp only
          omega
        · rw [Walk.next, if_neg hneg]
          dsimp only
          omega
      · intro s _ hg
        rw [decide_eq_false hg]
      · rw [Walk.start]
        dsimp only
        omega

theorem drawCircle_paints (dst : BufferSize) {cx cy : Int32} {radius : UInt32} (c : UInt32)
    (hr : radius ≤ 0x3FFFFFFF) (hin : InRange dst cx cy radius) :
    Paints (CirclePoint cx.toInt cy.toInt radius.toNat) c
      (drawCircle cx cy radius c : Pixels dst.width dst.height → _) := by
  refine circle_paints dst hr (fun i j => ?_) fun hw hh hrad s hs hg => ?_
  · simp only [Walk.Plots, Walk.start]
    omega
  · have hfits := hin hw hh hrad
    have hle := hs.le
    have hnonneg := hs.nonneg
    rw [Walk.Goes] at hg
    have hx : -(radius.toNat : Int) ≤ s.x ∧ s.x ≤ radius.toNat := by omega
    have hy : -(radius.toNat : Int) ≤ s.y ∧ s.y ≤ radius.toNat := by omega
    have hx' : -(radius.toNat : Int) ≤ -s.x ∧ -s.x ≤ radius.toNat := by omega
    have hy' : -(radius.toNat : Int) ≤ -s.y ∧ -s.y ≤ radius.toNat := by omega
    have hright := (setAt_paints dst hfits hx hy c).seq (setAt_paints dst hfits hy hx c)
    have hbelow := (hright.seq (setAt_paints dst hfits hy' hx c)).seq
      (setAt_paints dst hfits hx' hy c)
    have hleft := (hbelow.seq (setAt_paints dst hfits hx' hy' c)).seq
      (setAt_paints dst hfits hy' hx' c)
    have hall := (hleft.seq (setAt_paints dst hfits hy hx' c)).seq (setAt_paints dst hfits hx hy' c)
    refine hall.congr fun i j => ?_
    rw [Walk.Plots]
    omega

theorem fillCircle_paints (dst : BufferSize) {cx cy : Int32} {radius : UInt32} (c : UInt32)
    (hr : radius ≤ 0x3FFFFFFF) (hin : InRange dst cx cy radius) :
    Paints (RowSpan (CirclePoint cx.toInt cy.toInt radius.toNat)) c
      (fillCircle cx cy radius c : Pixels dst.width dst.height → _) := by
  have hfill : Paints (AlongWalk (Walk.Fills cx.toInt cy.toInt) radius.toNat) c
      (fillCircle cx cy radius c : Pixels dst.width dst.height → _) := by
    refine circle_paints dst hr (fun i j => ?_) fun hw hh hrad s hs hg => ?_
    · simp only [Walk.Fills, InSpan, Walk.start]
      omega
    · have hfits := hin hw hh hrad
      have hle := hs.le
      have hnonneg := hs.nonneg
      rw [Walk.Goes] at hg
      exact (fillSpan_paints dst hfits (by omega) hle hnonneg (by omega) c).seq
        (fillSpan_paints dst hfits hnonneg (by omega) (by omega) hle c)
  exact hfill.congr fun i j => fills_iff (Int.natCast_nonneg _) i j

/-- A span that is painted fits, with the column after it. -/
theorem fillSpan_fits {cx cy half off : Int} {c : UInt32} {f f' : Pixels bufferWidth bufferHeight}
    (hhalf : 0 ≤ half) (hok : fillSpan cx cy half off c f = .ok f') :
    (Fits32 (cx - half) ∧ Fits32 (cx + half + 1)) ∧ Fits32 (cy + off) ∧ Fits32 (cy - off) := by
  obtain ⟨dx, hdx, hok⟩ := bind_eq_ok.mp hok
  obtain ⟨hleft, rfl⟩ := int32_eq_ok.mp hdx
  constructor
  · refine ⟨hleft, ?_⟩
    by_contra hright
    -- no `int32_t` is past the end of the span
    have hend : 2 ^ 31 ≤ cx + half + 1 := by
      have hlow := hleft.1
      rw [Fits32] at hright
      omega
    refine drawLoop_ne_ok (fun dx => dx < 2 ^ 31) ?_ ?_ hleft.2 f f' hok
    · intro dx hlt htest
      obtain ⟨stop, hstop, hmore⟩ := bind_eq_ok.mp htest
      obtain ⟨-, rfl⟩ := int32_eq_ok.mp hstop
      have hout := of_decide_eq_false (Except.ok.inj hmore)
      omega
    · intro dx dx' _ _ _ _ hstep
      obtain ⟨hfit, rfl⟩ := int32_eq_ok.mp hstep
      exact hfit.2
  · by_contra hrows
    refine drawLoop_ne_ok (fun dx => dx = cx - half) ?_ ?_ rfl f f' hok
    · rintro dx rfl htest
      obtain ⟨stop, hstop, hmore⟩ := bind_eq_ok.mp htest
      obtain ⟨-, rfl⟩ := int32_eq_ok.mp hstop
      have hout := of_decide_eq_false (Except.ok.inj hmore)
      omega
    · intro dx dx' f₁ f₂ _ hbody _
      obtain ⟨row, hlow, hbody⟩ := bind_eq_ok.mp hbody
      obtain ⟨f₃, -, hbody⟩ := bind_eq_ok.mp hbody
      obtain ⟨row', hup, -⟩ := bind_eq_ok.mp hbody
      exact absurd ⟨(int32_eq_ok.mp hlow).1, (int32_eq_ok.mp hup).1⟩ hrows

theorem fillCircle_fits {dst : BufferSize} {cx cy : Int32} {radius c : UInt32}
    (hr : radius ≤ 0x3FFFFFFF) {f f' : Pixels dst.width dst.height}
    (hok : fillCircle cx cy radius c f = .ok f') :
    InRange dst cx cy radius := by
  intro hw hh hrad
  have hlt := toNat_radius hr
  have hempty : ¬ (dst.width ≤ 0 ∨ dst.height ≤ 0) := by
    rw [Int32.le_iff_toInt_le, Int32.le_iff_toInt_le, Int32.toInt_zero]
    omega
  have h0 : ¬ radius = 0 := by
    rintro rfl
    exact absurd hrad (Nat.lt_irrefl 0)
  have hle : ¬ radius > 0x3FFFFFFF := by grind
  unfold fillCircle circle at hok
  rw [if_neg hempty, if_neg h0, if_neg hle,
    toInt_toInt32 (show radius.toNat < 2 ^ 31 by omega)] at hok
  by_contra hno
  refine drawLoop_ne_ok (fun s => s = .start radius.toNat) ?_ ?_ rfl f f' hok
  · rintro s rfl htest
    have hout := of_decide_eq_false (Except.ok.inj htest)
    exact hout (Int.natCast_nonneg radius.toNat)
  · rintro s s' f₁ f₂ rfl hbody _
    obtain ⟨f₃, hmiddle, hends⟩ := bind_eq_ok.mp hbody
    obtain ⟨⟨hleft, hright⟩, -⟩ := fillSpan_fits (Int.natCast_nonneg radius.toNat) hmiddle
    obtain ⟨-, hbottom, htop⟩ := fillSpan_fits (Int.le_refl 0) hends
    exact absurd ⟨hleft, hright, htop, hbottom⟩ hno

/-- What is expected of the circles: one paints the points of the circle, the other fills them in row
by row. -/
structure Circles (dst : BufferSize) (cx cy : Int32) (radius colorIndex : UInt32) : Prop where
  outline : Paints (CirclePoint cx.toInt cy.toInt radius.toNat) colorIndex
    (drawCircle cx cy radius colorIndex : Pixels dst.width dst.height → _)
  filled : Paints (RowSpan (CirclePoint cx.toInt cy.toInt radius.toNat)) colorIndex
    (fillCircle cx cy radius colorIndex : Pixels dst.width dst.height → _)

/-- The circles are painted exactly where they fit. -/
theorem circles_iff (dst : BufferSize) (cx cy : Int32) (radius colorIndex : UInt32)
    (hr : radius ≤ 0x3FFFFFFF) :
    Circles dst cx cy radius colorIndex ↔ InRange dst cx cy radius := by
  constructor
  · intro hcircles
    obtain ⟨f', hok, -⟩ := hcircles.filled fun _ _ => 0
    exact fillCircle_fits hr hok
  · intro hin
    exact ⟨drawCircle_paints dst colorIndex hr hin, fillCircle_paints dst colorIndex hr hin⟩

/-- A circle that is cut off by the sides of a buffer of 4 by 4 pixels. -/
theorem circles_cut_off : Circles ⟨4, 4, by decide⟩ 3 (-1) 5 7 :=
  (circles_iff ⟨4, 4, by decide⟩ 3 (-1) 5 7 (by decide)).mpr fun _ _ _ =>
    ⟨by decide, by decide, by decide, by decide⟩

/-- The span of the middle row ends at the last column that an `int32_t` can hold. -/
theorem not_circles_at_end :
    fillCircle 2147483646 0 1 7 (fun _ _ => 0 : Pixels 4 4) = .error .overflow ∧
    ¬ Circles ⟨4, 4, by decide⟩ 2147483646 0 1 7 := by
  refine ⟨rfl, fun hcircles => ?_⟩
  obtain ⟨f', hok, -⟩ := hcircles.filled fun _ _ => 0
  obtain ⟨-, hright, -⟩ := fillCircle_fits (by decide) hok (by decide) (by decide) (by decide)
  revert hright
  decide

end Circle
end Hashx86
