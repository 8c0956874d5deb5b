import Mathlib.Logic.Function.Iterate
import Mathlib.Tactic.ByContra

/-!
# Lines on a grid

A line that is `long` columns wide and `short` rows high, `short ≤ long`, is followed with a step along
the long axis in each turn, and one along the short axis where the error says so.

* `OnLine`: the error of the point where the walk is, and its bounds.
* `OnLine.short_le`, `OnLine.short_eq`: so the walk stays within the rows, and is in the last row when
  it is in the last column.
* `onLine_walk`: what holds along the walk.
-/

namespace Lib

/-- The steps made along the long and the short axis, and the error. -/
structure LineWalk where
  i : Int
  j : Int
  err : Int

namespace LineWalk

variable {long short : Int} {s : LineWalk}

def start (long short : Int) : LineWalk := ⟨0, 0, long - short⟩

def next (long short : Int) (s : LineWalk) : LineWalk :=
  if 2 * s.err < long then ⟨s.i + 1, s.j + 1, s.err - short + long⟩
  else ⟨s.i + 1, s.j, s.err - short⟩

/-- The walk after `k` turns. -/
def walk (long short : Int) (k : Nat) : LineWalk := (next long short)^[k] (start long short)

theorem walk_succ (long short : Int) (k : Nat) :
    walk long short (k + 1) = next long short (walk long short k) :=
  Function.iterate_succ_apply' (next long short) k (start long short)

theorem next_i : (next long short s).i = s.i + 1 := by
  unfold next
  split <;> rfl

theorem walk_i (long short : Int) (k : Nat) : (walk long short k).i = k := by
  induction k with
  | zero => rfl
  | succ k ih =>
    rw [walk_succ, next_i, ih]
    exact (Int.natCast_succ k).symm

/-- What holds along the walk. The error is that of the point, and is so small that the next step goes
to one of the two points beside the line. -/
structure OnLine (long short : Int) (s : LineWalk) : Prop where
  first : 0 ≤ s.i
  nonneg : 0 ≤ s.j
  err : s.err = long - short - s.i * short + s.j * long
  low : -short < 2 * s.err
  high : 2 * s.err < 3 * long - 2 * short
  diagonal : long = short → s.err = 0

theorem onLine_start (hle : short ≤ long) (hlong : 0 < long) :
    OnLine long short (start long short) where
  first := Int.le_refl 0
  nonneg := Int.le_refl 0
  err := by simp only [start]; omega
  low := by simp only [start]; omega
  high := by simp only [start]; omega
  diagonal := by simp only [start]; omega

theorem OnLine.next (h : OnLine long short s) (hshort : 0 ≤ short) (hle : short ≤ long) :
    OnLine long short (next long short s) := by
  obtain ⟨hfirst, hnonneg, herr, hlow, hhigh, hdiagonal⟩ := h
  have hi : (s.i + 1) * short = s.i * short + short := by rw [Int.add_mul, Int.one_mul]
  have hj : (s.j + 1) * long = s.j * long + long := by rw [Int.add_mul, Int.one_mul]
  unfold LineWalk.next
  by_cases hstep : 2 * s.err < long
  · rw [if_pos hstep]
    constructor <;> dsimp only <;> omega
  · rw [if_neg hstep]
    constructor <;> dsimp only <;> omega

theorem onLine_walk (hshort : 0 ≤ short) (hle : short ≤ long) (hlong : 0 < long) (k : Nat) :
    OnLine long short (walk long short k) := by
  induction k with
  | zero => exact onLine_start hle hlong
  | succ k ih =>
    rw [walk_succ]
    exact ih.next hshort hle

/-- Up to the last column the walk is within the rows. -/
theorem OnLine.short_le (h : OnLine long short s) (hshort : 0 ≤ short) (hlong : 0 < long)
    (hi : s.i ≤ long) : s.j ≤ short := by
  have herr := h.err
  have hhigh := h.high
  have hprod := Int.mul_le_mul_of_nonneg_right hi hshort
  by_contra hgt
  have hfar := Int.mul_le_mul_of_nonneg_right (show short + 1 ≤ s.j by omega) (Int.le_of_lt hlong)
  rw [Int.add_mul, Int.one_mul, Int.mul_comm short long] at hfar
  omega

/-- In the last column the walk is in the last row. -/
theorem OnLine.short_eq (h : OnLine long short s) (hshort : 0 ≤ short) (hlong : 0 < long)
    (hi : s.i = long) : s.j = short := by
  have hle := h.short_le hshort hlong (Int.le_of_eq hi)
  have herr := h.err
  have hlow := h.low
  rw [hi] at herr
  by_contra hne
  have hnear := Int.mul_le_mul_of_nonneg_right (show s.j ≤ short - 1 by omega) (Int.le_of_lt hlong)
  rw [Int.sub_mul, Int.one_mul, Int.mul_comm short long] at hnear
  omega

/-- A step goes on by at most one row. -/
theorem next_j : (next long short s).j = s.j ∨ (next long short s).j = s.j + 1 := by
  unfold next
  split
  · exact .inr rfl
  · exact .inl rfl

end LineWalk
end Lib
