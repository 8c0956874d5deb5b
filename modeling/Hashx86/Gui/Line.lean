import Hashx86.Gui.Circle
import Hashx86.Lib.LineWalk

/-!
# Lines (`gui/render/nina.cpp`)

`DrawLine` keeps its point in 32-bit integers and the error in 64-bit ones. A value that does not fit
is an overflow.

* `step_pen`: a step of the source is one of the walk along the line, and does not overflow.
* `Connects`: a path from one end to the other inside their box, each point next to the one before.
* `lineLoop_eq`: the loop visits the points of such a path, whatever it does there.
* `drawLine_connects`: so `DrawLine` paints the points of the path that are on the buffer.
-/

namespace Hashx86
namespace Line

open Lib Lib.LineWalk Hashx86.Circle

/-- A value of an `int64_t` expression. -/
def int64 (v : Int) : Except Trap Int :=
  if -2 ^ 63 ≤ v ∧ v < 2 ^ 63 then .ok v else .error .overflow

theorem int64_eq {v : Int} (hlow : -2 ^ 63 ≤ v) (hhigh : v < 2 ^ 63) : int64 v = .ok v :=
  if_pos ⟨hlow, hhigh⟩

/-! ## The loop -/

/-- What the loop does not change: the end of the line, its width and height, and its directions. -/
structure Slope where
  x1 : Int
  y1 : Int
  dx : Int
  dy : Int
  sx : Int
  sy : Int

structure Pen where
  x0 : Int
  y0 : Int
  err : Int

def slope (x0 y0 x1 y1 : Int) : Except Trap Slope := do
  let dx ← int64 (if x1 > x0 then x1 - x0 else x0 - x1)
  let dy ← int64 (if y1 > y0 then y1 - y0 else y0 - y1)
  return { x1, y1, dx, dy, sx := if x0 < x1 then 1 else -1, sy := if y0 < y1 then 1 else -1 }

/-- `err -= dy; x0 += sx;` -/
def Slope.stepX (l : Slope) (s : Pen) : Except Trap Pen := do
  return { s with err := ← int64 (s.err - l.dy), x0 := ← int32 (s.x0 + l.sx) }

/-- `err += dx; y0 += sy;` -/
def Slope.stepY (l : Slope) (s : Pen) : Except Trap Pen := do
  return { s with err := ← int64 (s.err + l.dx), y0 := ← int32 (s.y0 + l.sy) }

def Slope.step (l : Slope) (s : Pen) : Except Trap Pen := do
  let e2 ← int64 (2 * s.err)
  let s ← if e2 > (← int64 (-l.dy)) then l.stepX s else pure s
  if e2 < l.dx then l.stepY s else return s

/-- `x0 == x1 && y0 == y1` -/
def Slope.stop (l : Slope) (s : Pen) : Bool := s.x0 = l.x1 ∧ s.y0 = l.y1

/-- The loop of `DrawLine`, with `visit` for what it does at a point. -/
def lineLoop {τ : Type} (visit : Int → Int → τ → Except Trap τ) (x0 y0 x1 y1 : Int32) (t : τ) :
    Except Trap τ := do
  let l ← slope x0.toInt y0.toInt x1.toInt y1.toInt
  let err ← int64 (l.dx - l.dy)
  visitLoop (fun s => visit s.x0 s.y0) l.stop l.step .endless (2 ^ 32) ⟨x0.toInt, y0.toInt, err⟩ t

variable {bufferWidth bufferHeight : Int32}

def drawLine (x0 y0 x1 y1 : Int32) (color : UInt32) (f : Pixels bufferWidth bufferHeight) :
    Except Trap (Pixels bufferWidth bufferHeight) :=
  if bufferWidth ≤ 0 ∨ bufferHeight ≤ 0 then .ok f
  else lineLoop (fun x y => plot32 x y color) x0 y0 x1 y1 f

/-! ## Points of the grid -/

def chebyshev (p q : Int × Int) : Nat := max (q.1 - p.1).natAbs (q.2 - p.2).natAbs

/-- `r` is inside the bounding box of `p` and `q`. -/
def InBox (p q r : Int × Int) : Prop :=
  (min p.1 q.1 ≤ r.1 ∧ r.1 ≤ max p.1 q.1) ∧ min p.2 q.2 ≤ r.2 ∧ r.2 ≤ max p.2 q.2

/-- A path from `p` to `q` in `chebyshev p q` steps. -/
structure Connects (p q : Int × Int) (path : Nat → Int × Int) : Prop where
  first : path 0 = p
  last : path (chebyshev p q) = q
  adjacent : ∀ k < chebyshev p q, chebyshev (path k) (path (k + 1)) = 1
  inBox : ∀ k ≤ chebyshev p q, InBox p q (path k)

/-! ## The walk along the line -/

/-- A line between two points whose coordinates fit in 32 bits. -/
structure Slope.From (l : Slope) (x0 y0 : Int) : Prop where
  fits : Fits32 x0 ∧ Fits32 y0 ∧ Fits32 l.x1 ∧ Fits32 l.y1
  right : l.sx = 1 ∧ l.x1 = x0 + l.dx ∨ l.sx = -1 ∧ l.x1 = x0 - l.dx
  down : l.sy = 1 ∧ l.y1 = y0 + l.dy ∨ l.sy = -1 ∧ l.y1 = y0 - l.dy
  nonneg : 0 ≤ l.dx ∧ 0 ≤ l.dy

theorem slope_eq {x0 y0 x1 y1 : Int} (hx : Fits32 x0 ∧ Fits32 x1) (hy : Fits32 y0 ∧ Fits32 y1) :
    ∃ l, slope x0 y0 x1 y1 = .ok l ∧ l.From x0 y0 ∧ l.x1 = x1 ∧ l.y1 = y1 := by
  obtain ⟨⟨hx0, hx0'⟩, hx1, hx1'⟩ := hx
  obtain ⟨⟨hy0, hy0'⟩, hy1, hy1'⟩ := hy
  have hdx := int64_eq (v := if x1 > x0 then x1 - x0 else x0 - x1) (by omega) (by omega)
  have hdy := int64_eq (v := if y1 > y0 then y1 - y0 else y0 - y1) (by omega) (by omega)
  rw [slope, hdx, hdy]
  refine ⟨_, rfl, ?_, rfl, rfl⟩
  constructor
  · exact ⟨⟨hx0, hx0'⟩, ⟨hy0, hy0'⟩, ⟨hx1, hx1'⟩, hy1, hy1'⟩
  · dsimp only
    omega
  · dsimp only
    omega
  · dsimp only
    omega

/-- The pen where the walk along the longer axis is. -/
def Slope.pen (l : Slope) (x0 y0 : Int) (s : LineWalk) : Pen :=
  if l.dy ≤ l.dx then ⟨x0 + l.sx * s.i, y0 + l.sy * s.j, s.err⟩
  else ⟨x0 + l.sx * s.j, y0 + l.sy * s.i, -s.err⟩

/-- The point of the line after `k` steps. -/
def Slope.point (l : Slope) (x0 y0 : Int) (k : Nat) : Pen :=
  l.pen x0 y0 (walk (max l.dx l.dy) (min l.dx l.dy) k)

variable {l : Slope} {x0 y0 : Int}

/-- A step in the integers. -/
def Slope.next (l : Slope) (s : Pen) : Pen where
  x0 := if 2 * s.err > -l.dy then s.x0 + l.sx else s.x0
  y0 := if 2 * s.err < l.dx then s.y0 + l.sy else s.y0
  err := (if 2 * s.err > -l.dy then s.err - l.dy else s.err) + if 2 * s.err < l.dx then l.dx else 0

theorem step_eq {s : Pen} (hdx : 0 ≤ l.dx ∧ l.dx < 2 ^ 32) (hdy : 0 ≤ l.dy ∧ l.dy < 2 ^ 32)
    (herr : -2 ^ 34 ≤ s.err ∧ s.err < 2 ^ 34) (hx : Fits32 (l.next s).x0)
    (hy : Fits32 (l.next s).y0) : l.step s = .ok (l.next s) := by
  have he2 := int64_eq (v := 2 * s.err) (by omega) (by omega)
  have hneg := int64_eq (v := -l.dy) (by omega) (by omega)
  have hsub := int64_eq (v := s.err - l.dy) (by omega) (by omega)
  have hadd := int64_eq (v := s.err + l.dx) (by omega) (by omega)
  have hboth := int64_eq (v := s.err - l.dy + l.dx) (by omega) (by omega)
  unfold Slope.next at hx hy ⊢
  unfold Slope.step Slope.stepX Slope.stepY
  rw [he2, hneg, ok_bind, ok_bind]
  by_cases hright : 2 * s.err > -l.dy
  · simp only [if_pos hright] at hx ⊢
    by_cases hdown : 2 * s.err < l.dx
    · simp only [if_pos hdown] at hy ⊢
      rw [hsub, int32_eq hx]
      dsimp only [ok_bind, pure, Except.pure]
      rw [hboth, int32_eq hy]
      rfl
    · simp only [if_neg hdown, Int.add_zero] at hy ⊢
      rw [hsub, int32_eq hx]
      rfl
  · simp only [if_neg hright] at hx ⊢
    by_cases hdown : 2 * s.err < l.dx
    · simp only [if_pos hdown] at hy ⊢
      dsimp only [ok_bind, pure, Except.pure]
      rw [hadd, int32_eq hy]
      rfl
    · simp only [if_neg hdown, Int.add_zero]
      rfl

theorem pen_wide (hwide : l.dy ≤ l.dx) (s : LineWalk) :
    l.pen x0 y0 s = ⟨x0 + l.sx * s.i, y0 + l.sy * s.j, s.err⟩ := if_pos hwide

theorem pen_tall (htall : ¬ l.dy ≤ l.dx) (s : LineWalk) :
    l.pen x0 y0 s = ⟨x0 + l.sx * s.j, y0 + l.sy * s.i, -s.err⟩ := if_neg htall

/-- A step of the pen is a turn of the walk along the longer axis. -/
theorem next_pen {s : LineWalk} (hs : OnLine (max l.dx l.dy) (min l.dx l.dy) s) :
    l.next (l.pen x0 y0 s) = l.pen x0 y0 (s.next (max l.dx l.dy) (min l.dx l.dy)) := by
  by_cases hwide : l.dy ≤ l.dx
  · rw [max_eq_left hwide, min_eq_right hwide] at hs ⊢
    have hlong : 2 * s.err > -l.dy := hs.low
    rw [pen_wide hwide, pen_wide hwide, Slope.next, LineWalk.next]
    simp only [if_pos hlong]
    by_cases hstep : 2 * s.err < l.dx
    · simp only [if_pos hstep, Int.mul_add, Int.mul_one, Int.add_assoc]
    · simp only [if_neg hstep, Int.mul_add, Int.mul_one, Int.add_assoc, Int.add_zero]
  · have hle : l.dx ≤ l.dy := by omega
    rw [max_eq_right hle, min_eq_left hle] at hs ⊢
    have hlong : 2 * -s.err < l.dx := by
      have hlow := hs.low
      omega
    rw [pen_tall hwide, pen_tall hwide, Slope.next, LineWalk.next]
    simp only [if_pos hlong]
    by_cases hstep : 2 * s.err < l.dy
    · simp only [if_pos hstep, if_pos (show 2 * -s.err > -l.dy by omega), Int.mul_add, Int.mul_one,
        Int.add_assoc, Pen.mk.injEq, true_and]
      omega
    · simp only [if_neg hstep, if_neg (show ¬ 2 * -s.err > -l.dy by omega), Int.mul_add, Int.mul_one,
        Int.add_assoc, Pen.mk.injEq, true_and]
      omega

theorem point_succ (x0 y0 : Int) (hdx : 0 ≤ l.dx) (hdy : 0 ≤ l.dy) (hpos : 0 < max l.dx l.dy) (k : Nat) :
    l.next (l.point x0 y0 k) = l.point x0 y0 (k + 1) := by
  have hs : OnLine (max l.dx l.dy) (min l.dx l.dy) _ := onLine_walk (by omega) (by omega) hpos k
  rw [Slope.point, next_pen hs, Slope.point, walk_succ]

/-- A distance along an axis, as far as the end at most. -/
theorem between {first last d dir a : Int}
    (hdir : dir = 1 ∧ last = first + d ∨ dir = -1 ∧ last = first - d) (ha : 0 ≤ a ∧ a ≤ d) :
    (min first last ≤ first + dir * a ∧ first + dir * a ≤ max first last) ∧
      (first + dir * a = last ↔ a = d) := by
  obtain ⟨rfl, rfl⟩ | ⟨rfl, rfl⟩ := hdir <;> omega

/-- Up to the end of the line the pen has gone part of the width and part of the height, and all of
both at the end only. -/
theorem point_eq (h : l.From x0 y0) {k : Nat} (hk : (k : Int) ≤ max l.dx l.dy) :
    ∃ a b, (l.point x0 y0 k).x0 = x0 + l.sx * a ∧ (l.point x0 y0 k).y0 = y0 + l.sy * b ∧
      (0 ≤ a ∧ a ≤ l.dx) ∧ (0 ≤ b ∧ b ≤ l.dy) ∧ (a = l.dx ∧ b = l.dy ↔ (k : Int) = max l.dx l.dy) := by
  obtain ⟨hdx, hdy⟩ := h.nonneg
  have hi := walk_i (max l.dx l.dy) (min l.dx l.dy) k
  have hj : 0 ≤ (walk (max l.dx l.dy) (min l.dx l.dy) k).j ∧
      (walk (max l.dx l.dy) (min l.dx l.dy) k).j ≤ min l.dx l.dy ∧
      ((k : Int) = max l.dx l.dy → (walk (max l.dx l.dy) (min l.dx l.dy) k).j = min l.dx l.dy) := by
    obtain hpos | hzero := Int.lt_or_le 0 (max l.dx l.dy)
    · have hs : OnLine (max l.dx l.dy) (min l.dx l.dy) _ := onLine_walk (by omega) (by omega) hpos k
      refine ⟨hs.nonneg, hs.short_le (by omega) hpos (by omega), fun hlast => ?_⟩
      exact hs.short_eq (by omega) hpos (by omega)
    · obtain rfl : k = 0 := by omega
      refine ⟨Int.le_refl 0, ?_, fun _ => ?_⟩
      · exact le_min hdx hdy
      · show (0 : Int) = _
        omega
  rw [Slope.point]
  by_cases hwide : l.dy ≤ l.dx
  · rw [pen_wide hwide]
    exact ⟨_, _, rfl, rfl, by omega, by omega, by omega⟩
  · rw [pen_tall hwide]
    exact ⟨_, _, rfl, rfl, by omega, by omega, by omega⟩

theorem point_inBox (h : l.From x0 y0) {k : Nat} (hk : (k : Int) ≤ max l.dx l.dy) :
    InBox (x0, y0) (l.x1, l.y1) ((l.point x0 y0 k).x0, (l.point x0 y0 k).y0) := by
  obtain ⟨a, b, hx, hy, ha, hb, -⟩ := point_eq h hk
  rw [hx, hy]
  exact ⟨(between h.right ha).1, (between h.down hb).1⟩

theorem stop_point (h : l.From x0 y0) {k : Nat} (hk : (k : Int) ≤ max l.dx l.dy) :
    l.stop (l.point x0 y0 k) = true ↔ (k : Int) = max l.dx l.dy := by
  obtain ⟨a, b, hx, hy, ha, hb, hend⟩ := point_eq h hk
  rw [Slope.stop, decide_eq_true_iff, hx, hy, (between h.right ha).2, (between h.down hb).2, hend]

/-- The width and the height of a line fit in 33 bits. -/
theorem Slope.From.size_lt (h : l.From x0 y0) : l.dx < 2 ^ 32 ∧ l.dy < 2 ^ 32 := by
  obtain ⟨⟨hx0, hx0'⟩, ⟨hy0, hy0'⟩, ⟨hx1, hx1'⟩, hy1, hy1'⟩ := h.fits
  have hright := h.right
  have hdown := h.down
  omega

theorem point_err (h : l.From x0 y0) (hpos : 0 < max l.dx l.dy) (k : Nat) :
    -2 ^ 34 ≤ (l.point x0 y0 k).err ∧ (l.point x0 y0 k).err < 2 ^ 34 := by
  obtain ⟨hdx, hdy⟩ := h.nonneg
  obtain ⟨hdx', hdy'⟩ := h.size_lt
  have hs : OnLine (max l.dx l.dy) (min l.dx l.dy) _ := onLine_walk (by omega) (by omega) hpos k
  have hlow := hs.low
  have hhigh := hs.high
  rw [Slope.point]
  by_cases hwide : l.dy ≤ l.dx
  · rw [pen_wide hwide]
    dsimp only
    omega
  · rw [pen_tall hwide]
    dsimp only
    omega

/-- A point inside the box of the line has coordinates of 32 bits. -/
theorem Slope.From.fits_of_inBox (h : l.From x0 y0) {x y : Int}
    (hin : InBox (x0, y0) (l.x1, l.y1) (x, y)) : Fits32 x ∧ Fits32 y := by
  obtain ⟨⟨hx0, hx0'⟩, ⟨hy0, hy0'⟩, ⟨hx1, hx1'⟩, hy1, hy1'⟩ := h.fits
  obtain ⟨⟨hleft, hright⟩, htop, hbottom⟩ := hin
  dsimp only at hleft hright htop hbottom
  exact ⟨⟨by omega, by omega⟩, by omega, by omega⟩

/-- Before the end of the line a step does not overflow. -/
theorem step_point (h : l.From x0 y0) {k : Nat} (hk : (k : Int) < max l.dx l.dy) :
    l.step (l.point x0 y0 k) = .ok (l.point x0 y0 (k + 1)) := by
  obtain ⟨hdx, hdy⟩ := h.nonneg
  obtain ⟨hdx', hdy'⟩ := h.size_lt
  have hpos : 0 < max l.dx l.dy := by omega
  have hnext := point_succ x0 y0 hdx hdy hpos k
  have hfits := h.fits_of_inBox (point_inBox h (k := k + 1) (by omega))
  rw [← hnext] at hfits ⊢
  exact step_eq ⟨hdx, hdx'⟩ ⟨hdy, hdy'⟩ (point_err h hpos k) hfits.1 hfits.2

theorem chebyshev_ends (h : l.From x0 y0) :
    (chebyshev (x0, y0) (l.x1, l.y1) : Int) = max l.dx l.dy := by
  have hnonneg := h.nonneg
  have hright := h.right
  have hdown := h.down
  rw [chebyshev]
  dsimp only
  omega

/-- A step goes to one of the eight points around. -/
theorem chebyshev_next (h : l.From x0 y0) (hpos : 0 < max l.dx l.dy) (s : Pen) :
    chebyshev (s.x0, s.y0) ((l.next s).x0, (l.next s).y0) = 1 := by
  have hnonneg := h.nonneg
  have hright := h.right
  have hdown := h.down
  rw [chebyshev, Slope.next]
  dsimp only
  split <;> split <;> omega

theorem point_zero : l.point x0 y0 0 = ⟨x0, y0, l.dx - l.dy⟩ := by
  rw [Slope.point]
  show l.pen x0 y0 (.start _ _) = _
  by_cases hwide : l.dy ≤ l.dx
  · rw [pen_wide hwide, start, max_eq_left hwide, min_eq_right hwide]
    simp only [Int.mul_zero, Int.add_zero]
  · have hle : l.dx ≤ l.dy := by omega
    rw [pen_tall hwide, start, max_eq_right hle, min_eq_left hle]
    simp only [Int.mul_zero, Int.add_zero, Int.neg_sub]

/-- The points that the pen passes. -/
def Slope.path (l : Slope) (x0 y0 : Int) (k : Nat) : Int × Int :=
  ((l.point x0 y0 k).x0, (l.point x0 y0 k).y0)

theorem connects_path (h : l.From x0 y0) :
    Connects (x0, y0) (l.x1, l.y1) (l.path x0 y0) := by
  obtain ⟨hdx, hdy⟩ := h.nonneg
  have hends := chebyshev_ends h
  constructor
  · rw [Slope.path, point_zero]
  · have hstop := (stop_point h (Int.le_of_eq hends)).mpr hends
    rw [Slope.stop, decide_eq_true_iff] at hstop
    exact Prod.ext hstop.1 hstop.2
  · intro k hk
    have hpos : 0 < max l.dx l.dy := by omega
    rw [Slope.path, Slope.path, ← point_succ x0 y0 hdx hdy hpos k]
    exact chebyshev_next h hpos _
  · intro k hk
    exact point_inBox h (by omega)

/-! ## The program -/

/-- The loop visits the points of a path from one end to the other, and does not overflow. -/
theorem lineLoop_eq (x0 y0 x1 y1 : Int32) :
    ∃ path, Connects (x0.toInt, y0.toInt) (x1.toInt, y1.toInt) path ∧
      ∀ (τ : Type) (visit : Int → Int → τ → Except Trap τ) (t : τ),
        lineLoop visit x0 y0 x1 y1 t =
          (List.range (chebyshev (x0.toInt, y0.toInt) (x1.toInt, y1.toInt) + 1)).foldlM
            (fun t k => visit (path k).1 (path k).2 t) t := by
  obtain ⟨l, hl, hfrom, hx1, hy1⟩ := slope_eq ⟨fits32_toInt x0, fits32_toInt x1⟩
    ⟨fits32_toInt y0, fits32_toInt y1⟩
  obtain ⟨hdx, hdy⟩ := hfrom.nonneg
  obtain ⟨hdx', hdy'⟩ := hfrom.size_lt
  have hends := chebyshev_ends hfrom
  have hpath := connects_path hfrom
  rw [hx1, hy1] at hends hpath
  refine ⟨l.path x0.toInt y0.toInt, hpath, fun τ visit t => ?_⟩
  rw [lineLoop, hl, ok_bind, int64_eq (by omega) (by omega), ok_bind, ← point_zero]
  refine visitLoop_eq Trap.endless (l.point x0.toInt y0.toInt) (fun k hk => ?_) ?_ ?_ t
  · refine ⟨?_, step_point hfrom (by omega)⟩
    rw [Bool.eq_false_iff, Ne, stop_point hfrom (by omega)]
    omega
  · exact (stop_point hfrom (Int.le_of_eq hends)).mpr hends
  · omega

/-- `DrawLine` goes from one end to the other, and paints the points on its way. -/
theorem drawLine_connects (dst : BufferSize) (x0 y0 x1 y1 : Int32) (color : UInt32) :
    ∃ path, Connects (x0.toInt, y0.toInt) (x1.toInt, y1.toInt) path ∧
      (∀ (τ : Type) (visit : Int → Int → τ → Except Trap τ) (t : τ),
        lineLoop visit x0 y0 x1 y1 t =
          (List.range (chebyshev (x0.toInt, y0.toInt) (x1.toInt, y1.toInt) + 1)).foldlM
            (fun t k => visit (path k).1 (path k).2 t) t) ∧
      Paints (fun i j => ∃ k ≤ chebyshev (x0.toInt, y0.toInt) (x1.toInt, y1.toInt), path k = (i, j))
        color (drawLine x0 y0 x1 y1 color : Pixels dst.width dst.height → _) := by
  obtain ⟨path, hpath, hloop⟩ := lineLoop_eq x0 y0 x1 y1
  refine ⟨path, hpath, hloop, ?_⟩
  unfold drawLine
  by_cases hnone : dst.width ≤ 0 ∨ dst.height ≤ 0
  · simp only [if_pos hnone]
    rw [Int32.le_iff_toInt_le, Int32.le_iff_toInt_le, Int32.toInt_zero] at hnone
    refine Draws.skip fun i j => ?_
    have hi := i.isLt
    have hj := j.isLt
    omega
  · simp only [if_neg hnone, hloop _ _]
    refine (draws_foldlM (fun k i j => i = (path k).1 ∧ j = (path k).2) _
      (fun k _ => plot32_paints dst _ _ color) fun _ _ _ _ _ _ _ _ _ => rfl).congr fun i j => ?_
    constructor
    · rintro ⟨k, hk, hi, hj⟩
      exact ⟨k, Nat.le_of_lt_succ hk, Prod.ext hi.symm hj.symm⟩
    · rintro ⟨k, hk, hp⟩
      exact ⟨k, Nat.lt_succ_of_le hk, (congrArg Prod.fst hp).symm, (congrArg Prod.snd hp).symm⟩

end Line
end Hashx86
