import Mathlib.Algebra.Order.BigOperators.Group.List
import Mathlib.Algebra.Order.Ring.Int
import Mathlib.Algebra.Ring.Nat

/-!
# Sums, products and masks of 32-bit words

* `toNat_toUInt32`: a word that is not negative is the same number with and without a sign.
* `area_exact`: where the division of a product by one factor gives the other, it did not wrap.
* `toInt_add_eq`, `toInt_add_wrap`, `toInt_sub_eq`: sums that do not leave the range, and that do.
* `toInt_foldl_add`: a sum of many words that are not negative.
* `alignUp`: the alignment by masks. `alignUp_spec`: where the sum does not wrap, the result is the next
  multiple.
-/

namespace Lib

theorem toNat_toUInt32 {n : Int32} (hn : 0 ≤ n) : (n.toUInt32.toNat : Int) = n.toInt := by
  have h0 : 0 ≤ n.toInt := by simpa using Int32.le_iff_toInt_le.mp hn
  rw [Int32.toNat_toUInt32_of_le hn, Int32.toNatClampNeg, Int.toNat_of_nonneg h0]

theorem toInt_nonneg {n : Int32} : 0 ≤ n ↔ 0 ≤ n.toInt := by
  simp [Int32.le_iff_toInt_le]

theorem toInt_pos {n : Int32} : 0 < n ↔ 0 < n.toInt := by
  simp [Int32.lt_iff_toInt_lt]

theorem toInt_nonpos {n : Int32} : n ≤ 0 ↔ n.toInt ≤ 0 := by
  simp [Int32.le_iff_toInt_le]

/-- A word made from an unsigned one below `2 ^ 31`. -/
theorem toInt_toInt32 {n : UInt32} (hn : n.toNat < 2 ^ 31) : n.toInt32.toInt = n.toNat := by
  have hbv : n.toInt32.toInt = n.toBitVec.toInt := rfl
  rw [hbv, BitVec.toInt_eq_toNat_of_lt]
  · rfl
  · rw [UInt32.toNat_toBitVec]
    omega

/-- The product of two sides, as unsigned words. -/
def area (w h : Int32) : UInt32 := w.toUInt32 * h.toUInt32

theorem area_exact {w h : Int32} (hw : 0 < w) (hh : 0 < h)
    (hdiv : area w h / w.toUInt32 = h.toUInt32) :
    ((area w h).toNat : Int) = w.toInt * h.toInt := by
  have hw' : (w.toUInt32.toNat : Int) = w.toInt := toNat_toUInt32 (by grind)
  have hh' : (h.toUInt32.toNat : Int) = h.toInt := toNat_toUInt32 (by grind)
  have hquot : (area w h).toNat / w.toUInt32.toNat = h.toUInt32.toNat := by
    rw [← UInt32.toNat_div, hdiv]
  have hle : (area w h).toNat ≤ w.toUInt32.toNat * h.toUInt32.toNat := by
    rw [area, UInt32.toNat_mul]
    exact Nat.mod_le _ _
  have hge : w.toUInt32.toNat * h.toUInt32.toNat ≤ (area w h).toNat := by
    rw [← hquot]
    exact Nat.mul_div_le _ _
  rw [← hw', ← hh', ← Int.natCast_mul, Nat.le_antisymm hle hge]

/-- A product below `2 ^ 32` passes the division check. -/
theorem area_of_lt {w h : Int32} (hw : 0 < w) (hh : 0 < h) (hlt : w.toInt * h.toInt < 2 ^ 32) :
    ((area w h).toNat : Int) = w.toInt * h.toInt := by
  have hw' : (w.toUInt32.toNat : Int) = w.toInt := toNat_toUInt32 (by grind)
  have hh' : (h.toUInt32.toNat : Int) = h.toInt := toNat_toUInt32 (by grind)
  have hnat : w.toUInt32.toNat * h.toUInt32.toNat < 2 ^ 32 := by
    rw [← hw', ← hh'] at hlt
    exact_mod_cast hlt
  rw [area, UInt32.toNat_mul, Nat.mod_eq_of_lt hnat, Int.natCast_mul, hw', hh']

theorem toInt_add_eq {m n : Int32} (hlo : -2 ^ 31 ≤ m.toInt + n.toInt)
    (hhi : m.toInt + n.toInt < 2 ^ 31) : (m + n).toInt = m.toInt + n.toInt := by
  rw [Int32.toInt_add]
  exact Int.bmod_eq_of_le (by omega) (by omega)

/-- A sum past the range comes out negative. -/
theorem toInt_add_wrap {m n : Int32} (hhi : 2 ^ 31 ≤ m.toInt + n.toInt) :
    (m + n).toInt = m.toInt + n.toInt - 2 ^ 32 := by
  have hm := m.toInt_lt
  have hn := n.toInt_lt
  rw [Int32.toInt_add, ← Int.sub_bmod_right]
  exact Int.bmod_eq_of_le (by omega) (by omega)

theorem toInt_sub_eq {m n : Int32} (hlo : -2 ^ 31 ≤ m.toInt - n.toInt)
    (hhi : m.toInt - n.toInt < 2 ^ 31) : (m - n).toInt = m.toInt - n.toInt := by
  rw [Int32.toInt_sub]
  exact Int.bmod_eq_of_le (by omega) (by omega)

/-- A sum of words that are not negative. -/
theorem toInt_foldl_add {ι : Type} {g : ι → Int32} (is : List ι) (hg : ∀ i ∈ is, 0 ≤ (g i).toInt)
    {t : Int32} (ht : 0 ≤ t.toInt) (hsum : t.toInt + (is.map fun i => (g i).toInt).sum < 2 ^ 31) :
    (is.foldl (fun t i => t + g i) t).toInt = t.toInt + (is.map fun i => (g i).toInt).sum := by
  induction is generalizing t with
  | nil => exact (Int.add_zero _).symm
  | cons i is ih =>
    have hi := hg i List.mem_cons_self
    have hrest : 0 ≤ (is.map fun i => (g i).toInt).sum := by
      refine List.sum_nonneg fun n hn => ?_
      obtain ⟨j, hj, rfl⟩ := List.mem_map.mp hn
      exact hg j (List.mem_cons_of_mem i hj)
    rw [List.map_cons, List.sum_cons] at hsum ⊢
    have hadd := toInt_add_eq (m := t) (n := g i) (by omega) (by omega)
    rw [List.foldl_cons, ih (fun j hj => hg j (List.mem_cons_of_mem i hj)) (by omega) (by omega), hadd,
      Int.add_assoc]

/-! ## Alignment by masks -/

/-- `(x + (align - 1)) & ~(align - 1)` on words of 32 bits. -/
def alignUp (x align : Nat) : Nat := (x + (align - 1)) % 2 ^ 32 &&& (2 ^ 32 - 1 - (align - 1))

variable {x k : Nat}

theorem and_compl (hx : x < 2 ^ 32) (hk : k ≤ 32) :
    x &&& (2 ^ 32 - 1 - (2 ^ k - 1)) = x / 2 ^ k * 2 ^ k := by
  have hpos : 0 < 2 ^ k := Nat.two_pow_pos k
  have hle : 2 ^ k ≤ 2 ^ 32 := Nat.pow_le_pow_right (by decide) hk
  have hmask : 2 ^ 32 - 1 - (2 ^ k - 1) = 2 ^ 32 - (2 ^ k - 1 + 1) := by omega
  refine Nat.eq_of_testBit_eq fun i => ?_
  rw [hmask, Nat.testBit_and, Nat.testBit_two_pow_sub_succ (by omega), Nat.testBit_two_pow_sub_one,
    Nat.testBit_mul_two_pow, Nat.testBit_div_two_pow]
  by_cases hik : k ≤ i
  · have hmod : i - k + k = i := by omega
    by_cases hi : i < 32
    · simp [hik, hi, hmod]
    · have hzero : x.testBit i = false :=
        Nat.testBit_lt_two_pow (Nat.lt_of_lt_of_le hx (Nat.pow_le_pow_right (by decide) (by omega)))
      simp [hmod, hzero]
  · simp [hik, Nat.lt_of_not_le hik]

theorem alignUp_eq (hk : k ≤ 32) (hx : x + (2 ^ k - 1) < 2 ^ 32) :
    alignUp x (2 ^ k) = (x + (2 ^ k - 1)) / 2 ^ k * 2 ^ k := by
  unfold alignUp
  rw [Nat.mod_eq_of_lt hx, and_compl hx hk]

/-- The next multiple of a power of two. -/
theorem alignUp_spec (hk : k ≤ 32) (hx : x + (2 ^ k - 1) < 2 ^ 32) :
    2 ^ k ∣ alignUp x (2 ^ k) ∧ x ≤ alignUp x (2 ^ k) ∧ alignUp x (2 ^ k) < x + 2 ^ k := by
  rw [alignUp_eq hk hx]
  have hpos : 0 < 2 ^ k := Nat.two_pow_pos k
  have hdiv := Nat.div_add_mod' (x + (2 ^ k - 1)) (2 ^ k)
  have hmod := Nat.mod_lt (x + (2 ^ k - 1)) hpos
  exact ⟨Nat.dvd_mul_left _ _, by omega, by omega⟩

end Lib
