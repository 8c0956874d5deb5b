import Mathlib.Algebra.Order.BigOperators.Group.List
import Mathlib.Algebra.Order.Ring.Int

/-!
# Pieces along a strip

Pieces of the given lengths are put along a strip one after another, from `first` on, each `gap` after
the one before.

* `pieceStart`: where a piece begins; `pieceStart_succ`, `pieceStart_le`: the next one, and the later
  ones.
* `pieceEnd_le`: the last piece ends where the lengths and the gaps say.
* `next_in_row`, `row_or_below`: an index as a column and a row.
* `shares_le`: shares of an amount, rounded toward zero, are together at most the amount.
-/

namespace Lib

variable {first gap : Int} {lens : List Int}

def pieceStart (first gap : Int) (lens : List Int) (k : Nat) : Int :=
  first + (lens.take k).sum + k * gap

theorem pieceStart_zero : pieceStart first gap lens 0 = first := by
  rw [pieceStart, List.take_zero, List.sum_nil, Int.natCast_zero, Int.zero_mul, Int.add_zero,
    Int.add_zero]

/-- The next piece begins `gap` after the end of this one. -/
theorem pieceStart_succ {k : Nat} (hk : k < lens.length) :
    pieceStart first gap lens (k + 1) = pieceStart first gap lens k + lens[k] + gap := by
  rw [pieceStart, pieceStart, List.take_succ_eq_append_getElem hk, List.sum_append, List.sum_singleton,
    Int.natCast_succ, Int.add_mul, Int.one_mul]
  omega

/-- Each later piece begins at least `gap` after the end of this one. -/
theorem pieceStart_le (hlens : ∀ e ∈ lens, 0 ≤ e) (hgap : 0 ≤ gap) {i j : Nat} (hij : i < j)
    (hj : j ≤ lens.length) (hi : i < lens.length) :
    pieceStart first gap lens i + lens[i] + gap ≤ pieceStart first gap lens j := by
  induction j with
  | zero => exact absurd hij (Nat.not_lt_zero i)
  | succ j ih =>
    rw [pieceStart_succ (by omega)]
    obtain hlt | rfl := Nat.lt_succ_iff_lt_or_eq.mp hij
    · have hbefore := ih hlt (by omega)
      have hlen := hlens lens[j] (List.getElem_mem _)
      omega
    · exact Int.le_refl _

theorem first_le_pieceStart (hlens : ∀ e ∈ lens, 0 ≤ e) (hgap : 0 ≤ gap) (k : Nat) :
    first ≤ pieceStart first gap lens k := by
  have hsum : 0 ≤ (lens.take k).sum :=
    List.sum_nonneg fun e he => hlens e (List.mem_of_mem_take he)
  have hgaps := Int.mul_nonneg (Int.natCast_nonneg k) hgap
  rw [pieceStart]
  omega

/-- Each piece ends before the place where all lengths and the gaps between them end. -/
theorem pieceEnd_le (hlens : ∀ e ∈ lens, 0 ≤ e) (hgap : 0 ≤ gap) {k : Nat} (hk : k < lens.length) :
    pieceStart first gap lens k + lens[k] ≤ first + lens.sum + (lens.length - 1) * gap := by
  have hlast : pieceStart first gap lens k + lens[k] + gap ≤
      pieceStart first gap lens lens.length :=
    pieceStart_le hlens hgap hk (Nat.le_refl _) hk
  rw [pieceStart, pieceStart, List.take_length] at *
  rw [Int.sub_mul, Int.one_mul]
  omega

/-! ## Rows -/

/-- The next index is in the same row and the next column. -/
theorem next_in_row {k c : Nat} (h : (k + 1) % c ≠ 0) :
    (k + 1) / c = k / c ∧ (k + 1) % c = k % c + 1 := by
  have hrow : (k + 1) / c = k / c :=
    Nat.succ_div_of_not_dvd fun hdvd => h (Nat.mod_eq_zero_of_dvd hdvd)
  have hnext := Nat.div_add_mod (k + 1) c
  have hthis := Nat.div_add_mod k c
  rw [hrow] at hnext
  exact ⟨hrow, by omega⟩

/-- A later index is in a later column of the same row, or in a later row. -/
theorem row_or_below {i j c : Nat} (hij : i < j) :
    i / c = j / c ∧ i % c < j % c ∨ i / c < j / c := by
  obtain heq | hlt := Nat.eq_or_lt_of_le (Nat.div_le_div_right (c := c) (Nat.le_of_lt hij))
  · have hi := Nat.div_add_mod i c
    have hj := Nat.div_add_mod j c
    rw [heq] at hi
    exact .inl ⟨heq, by omega⟩
  · exact .inr hlt

/-! ## Shares -/

/-- Shares that are rounded toward zero, times the total of the weights. -/
theorem shares_mul_le {amount total : Int} (hamount : 0 ≤ amount) (hpos : 0 < total)
    {weights : List Int} (hweights : ∀ t ∈ weights, 0 ≤ t) :
    (weights.map fun t => (amount * t).tdiv total).sum * total ≤ amount * weights.sum := by
  induction weights with
  | nil => exact Int.le_of_eq (by rw [List.map_nil, List.sum_nil, Int.zero_mul, Int.mul_zero])
  | cons t weights ih =>
    have ht := hweights t List.mem_cons_self
    have hrest := ih fun t ht => hweights t (List.mem_cons_of_mem _ ht)
    have hshare : (amount * t).tdiv total * total ≤ amount * t := by
      rw [Int.tdiv_eq_ediv_of_nonneg (Int.mul_nonneg hamount ht)]
      exact Int.ediv_mul_le _ (Int.ne_of_gt hpos)
    rw [List.map_cons, List.sum_cons, List.sum_cons, Int.add_mul, Int.mul_add]
    omega

/-- The shares of an amount by weights, rounded toward zero; there are none of no weight at all. -/
theorem shares_le {amount : Int} {weights : List Int} (hamount : 0 ≤ amount)
    (hweights : ∀ t ∈ weights, 0 ≤ t) :
    (weights.map fun t => (amount * t).tdiv weights.sum).sum ≤ amount := by
  obtain hpos | hzero := Int.lt_or_le 0 weights.sum
  · exact Int.le_of_mul_le_mul_right (shares_mul_le hamount hpos hweights) hpos
  · have hsum : weights.sum = 0 := Int.le_antisymm hzero (List.sum_nonneg hweights)
    rw [hsum]
    simp only [Int.tdiv_zero, List.sum_map_zero]
    exact hamount

end Lib
