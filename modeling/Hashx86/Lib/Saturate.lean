import Mathlib.Algebra.BigOperators.Group.List.Basic
import Mathlib.Data.List.Induction
import Mathlib.Order.Lattice

/-!
# Sums that saturate at each step

* `saturate_of_mem`: a value of the range is kept.
* `foldl_satAdd`: saturating after each addition gives the sum saturated once, when no sum of a
  proper prefix leaves the range.
* `foldl_satAdd_pair`: with at most two values of the range, it always does.
-/

namespace Lib

variable {α : Type} [LinearOrder α]

/-- The nearest value of the range from `lo` to `hi`. -/
def saturate (lo hi a : α) : α := max lo (min hi a)

theorem saturate_of_mem {lo hi a : α} (h : lo ≤ a ∧ a ≤ hi) : saturate lo hi a = a := by
  rw [saturate, min_eq_right h.2, max_eq_right h.1]

variable [AddMonoid α]

/-- One addition, saturated. -/
def satAdd (lo hi a b : α) : α := saturate lo hi (a + b)

theorem foldl_satAdd {lo hi : α} (h0 : lo ≤ 0 ∧ 0 ≤ hi) {l : List α}
    (h : ∀ n < l.length, lo ≤ (l.take n).sum ∧ (l.take n).sum ≤ hi) :
    l.foldl (satAdd lo hi) 0 = saturate lo hi l.sum := by
  induction l using List.reverseRecOn with
  | nil => exact (saturate_of_mem h0).symm
  | append_singleton l x ih =>
    have htake : ∀ n ≤ l.length, (l ++ [x]).take n = l.take n := fun n hn =>
      List.take_append_of_le_length hn
    have hl : l.foldl (satAdd lo hi) 0 = saturate lo hi l.sum := by
      refine ih fun n hn => ?_
      rw [← htake n hn.le]
      exact h n (by simp only [List.length_append, List.length_singleton]; omega)
    have hmem : lo ≤ l.sum ∧ l.sum ≤ hi := by
      have hlast := h l.length (by simp)
      rwa [htake l.length le_rfl, List.take_length] at hlast
    rw [List.foldl_append, hl, saturate_of_mem hmem, List.foldl_cons, List.foldl_nil, satAdd,
      List.sum_append, List.sum_singleton]

theorem foldl_satAdd_pair {lo hi : α} (h0 : lo ≤ 0 ∧ 0 ≤ hi) {l : List α} (hlen : l.length ≤ 2)
    (h : ∀ a ∈ l, lo ≤ a ∧ a ≤ hi) : l.foldl (satAdd lo hi) 0 = saturate lo hi l.sum := by
  refine foldl_satAdd h0 fun n hn => ?_
  match l, n with
  | _, 0 => simpa using h0
  | a :: _, 1 => simpa using h a List.mem_cons_self
  | _, n + 2 => omega

end Lib
