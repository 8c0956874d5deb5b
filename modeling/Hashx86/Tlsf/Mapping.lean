import Hashx86.Lib.Word32
import Mathlib.Algebra.Order.Ring.Nat
import Mathlib.Tactic.Ring

/-!
# Size classes of the TLSF allocator (`core/tlsf/tlsf.cpp`)

A class is a pair of a first and a second level index.

* `lower`, `upper`: the sizes of a class. `mappingInsert_spec`: `mapping_insert` finds the class that
  a size is of.
* `lower_le_iff`: a block is large enough for a class exactly when its own class is not below it.
* `le_lower_mappingSearch`: every block of the class that `mapping_search` finds, or of one above it,
  is large enough for the request.
-/

namespace Hashx86

open Lib

namespace Tlsf

def slIndexCountLog2 : Nat := 5

def alignSize : Nat := 4

/-- `FL_INDEX_SHIFT`. -/
def flIndexShift : Nat := 7

def slIndexCount : Nat := 32

/-- `FL_INDEX_COUNT`. -/
def flIndexCount : Nat := 24

def smallBlockSize : Nat := 128

/-- `sizeof(block_header_t)`. -/
def headerSize : Nat := 16

def blockHeaderOverhead : Nat := 4

def blockStartOffset : Nat := 8

def blockSizeMin : Nat := 12

def blockSizeMax : Nat := 2 ^ 30

/-- `tlsf_fls` of a word that is not `0`. -/
def tlsfFls (word : Nat) : Nat := word.log2

/-- `mapping_insert`. -/
def mappingInsert (size : Nat) : Nat × Nat :=
  if size < smallBlockSize then (0, size / (smallBlockSize / slIndexCount))
  else
    let fl := tlsfFls size
    (fl - (flIndexShift - 1), (size >>> (fl - slIndexCountLog2)) ^^^ (1 <<< slIndexCountLog2))

/-- `mapping_search`. -/
def mappingSearch (size : Nat) : Nat × Nat :=
  if smallBlockSize ≤ size then
    let round := (1 <<< (tlsfFls size - slIndexCountLog2)) - 1
    mappingInsert (size + round)
  else mappingInsert size

/-- `adjust_request_size`. -/
def adjustRequestSize (size align : Nat) : Nat :=
  if size = 0 then 0
  else
    let aligned := alignUp size align
    if aligned < blockSizeMax then max aligned blockSizeMin else 0

/-! ## The sizes of a class -/

/-- How many sizes a class has. -/
def width (c : Nat × Nat) : Nat := if c.1 = 0 then 4 else 2 ^ (c.1 + 1)

/-- The least size of a class. -/
def lower (c : Nat × Nat) : Nat := if c.1 = 0 then 4 * c.2 else (32 + c.2) * 2 ^ (c.1 + 1)

/-- The first size above a class. -/
def upper (c : Nat × Nat) : Nat := lower c + width c

/-- The order of the classes. -/
def Below (c d : Nat × Nat) : Prop := c.1 < d.1 ∨ c.1 = d.1 ∧ c.2 < d.2

instance (c d : Nat × Nat) : Decidable (Below c d) := inferInstanceAs (Decidable (_ ∨ _))

variable {size n : Nat} {c d : Nat × Nat}

theorem xor_top {q : Nat} (hlo : 32 ≤ q) (hhi : q < 64) : q ^^^ (1 <<< slIndexCountLog2) = q - 32 := by
  have hall : ∀ q < 64, 32 ≤ q → q ^^^ (1 <<< slIndexCountLog2) = q - 32 := by decide
  exact hall q hhi hlo

/-- The leading bits of a large size. -/
theorem leading (h : smallBlockSize ≤ size) : ∃ k, tlsfFls size = k + 7 ∧
    32 * 2 ^ (k + 2) ≤ size ∧ size < 64 * 2 ^ (k + 2) := by
  have h0 : size ≠ 0 := by
    rintro rfl
    exact absurd h (by decide)
  have hlo := Nat.log2_self_le h0
  have hhi : size < 2 ^ (size.log2 + 1) := Nat.lt_log2_self
  have h7 : 7 ≤ size.log2 := (Nat.le_log2 h0).mpr h
  obtain ⟨k, hk⟩ := Nat.exists_eq_add_of_le' h7
  rw [hk] at hlo hhi
  have hpow : 2 ^ (k + 7) = 32 * 2 ^ (k + 2) := by ring
  have hpow' : 2 ^ (k + 7 + 1) = 64 * 2 ^ (k + 2) := by ring
  exact ⟨k, hk, hpow ▸ hlo, hpow' ▸ hhi⟩

/-- The class of a large size. -/
theorem mappingInsert_large {k : Nat} (hlo : 32 * 2 ^ (k + 2) ≤ size) (hhi : size < 64 * 2 ^ (k + 2)) :
    mappingInsert size = (k + 1, size / 2 ^ (k + 2) - 32) := by
  have hpos : 0 < 2 ^ k := Nat.two_pow_pos k
  have hsmall : ¬ size < smallBlockSize := by
    unfold smallBlockSize
    rw [Nat.pow_add] at hlo
    omega
  have hlog : tlsfFls size = k + 7 := by
    have h0 : size ≠ 0 := by
      rintro rfl
      exact hsmall (by decide)
    have hlt : size.log2 < k + 8 := (Nat.log2_lt h0).mpr (by
      have hpow : 2 ^ (k + 8) = 64 * 2 ^ (k + 2) := by ring
      rwa [hpow])
    have hle : k + 7 ≤ size.log2 := (Nat.le_log2 h0).mpr (by
      have hpow : 2 ^ (k + 7) = 32 * 2 ^ (k + 2) := by ring
      rwa [hpow])
    unfold tlsfFls
    omega
  have hstep : 0 < 2 ^ (k + 2) := Nat.two_pow_pos _
  have hq : 32 ≤ size / 2 ^ (k + 2) := (Nat.le_div_iff_mul_le hstep).mpr hlo
  have hq' : size / 2 ^ (k + 2) < 64 := (Nat.div_lt_iff_lt_mul hstep).mpr hhi
  have hshift : size >>> (k + 7 - slIndexCountLog2) = size / 2 ^ (k + 2) := by
    rw [Nat.shiftRight_eq_div_pow]
    rfl
  unfold mappingInsert
  rw [if_neg hsmall]
  dsimp only
  rw [hlog, hshift, xor_top hq hq']
  rfl

theorem mappingInsert_spec (size : Nat) : (mappingInsert size).2 < 32 ∧
    lower (mappingInsert size) ≤ size ∧ size < upper (mappingInsert size) := by
  unfold upper lower width
  by_cases hsmall : size < smallBlockSize
  · have hclass : mappingInsert size = (0, size / 4) := if_pos hsmall
    unfold smallBlockSize at hsmall
    rw [hclass, if_pos rfl, if_pos rfl]
    refine ⟨?_, ?_, ?_⟩ <;> dsimp only <;> omega
  · obtain ⟨k, -, hlo, hhi⟩ := leading (Nat.le_of_not_lt hsmall)
    rw [mappingInsert_large hlo hhi, if_neg (Nat.succ_ne_zero k), if_neg (Nat.succ_ne_zero k)]
    dsimp only
    have hstep : 0 < 2 ^ (k + 2) := Nat.two_pow_pos _
    have hq : 32 ≤ size / 2 ^ (k + 2) := (Nat.le_div_iff_mul_le hstep).mpr hlo
    have hq' : size / 2 ^ (k + 2) < 64 := (Nat.div_lt_iff_lt_mul hstep).mpr hhi
    have hdiv := Nat.div_add_mod' size (2 ^ (k + 2))
    have hmod := Nat.mod_lt size hstep
    have hexp : k + 1 + 1 = k + 2 := rfl
    rw [Nat.add_sub_cancel' hq, hexp]
    exact ⟨by omega, by omega, by omega⟩

/-- The classes lie in the order of their sizes. -/
theorem upper_le_lower (h : Below c d) (hc : c.2 < 32) : upper c ≤ lower d := by
  obtain ⟨fl, sl⟩ := c
  obtain ⟨fl', sl'⟩ := d
  unfold upper lower width
  dsimp only at hc ⊢
  have hpow : 0 < 2 ^ (fl + 1) := Nat.two_pow_pos _
  rcases h with hfl | ⟨hfl, hsl⟩
  · dsimp only at hfl
    have h0 : fl' ≠ 0 := by omega
    have hge : 2 ^ (fl + 2) ≤ 2 ^ (fl' + 1) := Nat.pow_le_pow_right (by decide) (by omega)
    have hbig : 32 * 2 ^ (fl' + 1) ≤ (32 + sl') * 2 ^ (fl' + 1) := Nat.mul_le_mul_right _ (by omega)
    have hdouble : 2 ^ (fl + 2) = 2 * 2 ^ (fl + 1) := by ring
    rw [if_neg h0]
    by_cases hz : fl = 0
    · rw [if_pos hz, if_pos hz]
      subst hz
      omega
    · rw [if_neg hz, if_neg hz, ← Nat.succ_mul]
      have hle : (32 + sl).succ * 2 ^ (fl + 1) ≤ 64 * 2 ^ (fl + 1) := Nat.mul_le_mul_right _ (by omega)
      omega
  · dsimp only at hfl hsl
    subst hfl
    by_cases hz : fl = 0
    · rw [if_pos hz, if_pos hz, if_pos hz]
      omega
    · rw [if_neg hz, if_neg hz, if_neg hz, ← Nat.succ_mul]
      exact Nat.mul_le_mul_right _ (by omega)

theorem lower_le_iff (hc : c.2 < 32) : lower c ≤ size ↔ ¬ Below (mappingInsert size) c := by
  obtain ⟨hsl, hlo, hhi⟩ := mappingInsert_spec size
  constructor
  · intro h hbelow
    have := upper_le_lower hbelow hsl
    omega
  · intro h
    by_cases heq : c = mappingInsert size
    · exact heq ▸ hlo
    · have hbelow : Below c (mappingInsert size) := by
        unfold Below at h ⊢
        rw [Prod.ext_iff] at heq
        omega
      have := upper_le_lower hbelow hc
      unfold upper at this
      omega

/-- The first level index of a block that is not too large. -/
theorem mappingInsert_fl (h : size < blockSizeMax) : (mappingInsert size).1 < flIndexCount := by
  by_contra hn
  obtain ⟨-, hlo, -⟩ := mappingInsert_spec size
  have hbig : 32 * 2 ^ 25 ≤ lower (mappingInsert size) := by
    unfold flIndexCount at hn
    unfold lower
    rw [if_neg (by omega)]
    exact Nat.mul_le_mul (Nat.le_add_right _ _) (Nat.pow_le_pow_right (by decide) (by omega))
  unfold blockSizeMax at h
  omega

/-! ## Requests -/

/-- Sizes of one class and more are searched for a request that is a multiple of `ALIGN_SIZE`. -/
theorem lower_mappingSearch (h4 : size % 4 = 0) : (mappingSearch size).2 < 32 ∧
    size ≤ lower (mappingSearch size) ∧ lower (mappingSearch size) ≤ size + size / 32 := by
  by_cases hbig : smallBlockSize ≤ size
  · obtain ⟨k, hlog, hlo, hhi⟩ := leading hbig
    have hround : (1 <<< (tlsfFls size - slIndexCountLog2)) - 1 = 2 ^ (k + 2) - 1 := by
      rw [hlog, Nat.one_shiftLeft]
      rfl
    have hsearch : mappingSearch size = mappingInsert (size + (2 ^ (k + 2) - 1)) := by
      unfold mappingSearch
      rw [if_pos hbig]
      dsimp only
      rw [hround]
    have hstep : 0 < 2 ^ (k + 2) := Nat.two_pow_pos _
    obtain ⟨hsl, hlower, hupper⟩ := mappingInsert_spec (size + (2 ^ (k + 2) - 1))
    rw [hsearch]
    refine ⟨hsl, ?_, by omega⟩
    by_cases hsame : size + (2 ^ (k + 2) - 1) < 64 * 2 ^ (k + 2)
    · rw [mappingInsert_large (by omega) hsame] at hupper ⊢
      unfold upper width lower at hupper
      unfold lower
      rw [if_neg (Nat.succ_ne_zero k)] at hupper ⊢
      dsimp only at hupper ⊢
      rw [if_neg (Nat.succ_ne_zero k)] at hupper
      have hexp : k + 1 + 1 = k + 2 := rfl
      rw [hexp] at hupper ⊢
      generalize 2 ^ (k + 2) = step at *
      omega
    · have hclass : 64 * 2 ^ (k + 2) ≤ lower (mappingInsert (size + (2 ^ (k + 2) - 1))) := by
        have hnext : lower (k + 2, 0) = 64 * 2 ^ (k + 2) := by
          unfold lower
          rw [if_neg (Nat.succ_ne_zero _)]
          ring
        rw [← hnext]
        refine Nat.le_of_not_lt fun hlt => ?_
        have hin : lower (k + 2, 0) ≤ size + (2 ^ (k + 2) - 1) := hnext ▸ Nat.le_of_not_lt hsame
        have hnot := (lower_le_iff (Nat.zero_lt_succ 31)).mp hin
        have heq : mappingInsert (size + (2 ^ (k + 2) - 1)) ≠ (k + 2, 0) := by
          intro he
          rw [he] at hlt
          exact Nat.lt_irrefl _ hlt
        have hbelow : Below (k + 2, 0) (mappingInsert (size + (2 ^ (k + 2) - 1))) := by
          unfold Below at hnot ⊢
          rw [Ne, Prod.ext_iff] at heq
          omega
        have := upper_le_lower hbelow (Nat.zero_lt_succ 31)
        unfold upper at this
        omega
      omega
  · have hsearch : mappingSearch size = (0, size / 4) :=
      (if_neg hbig).trans (if_pos (Nat.lt_of_not_le hbig))
    unfold smallBlockSize at hbig
    rw [hsearch]
    unfold lower
    rw [if_pos rfl]
    refine ⟨?_, ?_, ?_⟩ <;> dsimp only <;> omega

/-- A block is found for a request exactly when it is not below the class that is searched. -/
theorem le_of_not_below (h4 : size % 4 = 0) (h : ¬ Below (mappingInsert n) (mappingSearch size)) :
    size ≤ n := by
  obtain ⟨hsl, hle, -⟩ := lower_mappingSearch h4
  exact Nat.le_trans hle ((lower_le_iff hsl).mpr h)

/-- What a request is rounded to. -/
theorem adjustRequestSize_spec {k : Nat} (h2 : 2 ≤ k) (hk : k ≤ 30) (hsize : size + (2 ^ k - 1) < 2 ^ 32)
    (h0 : adjustRequestSize size (2 ^ k) ≠ 0) :
    0 < size ∧ size ≤ adjustRequestSize size (2 ^ k) ∧ adjustRequestSize size (2 ^ k) % 4 = 0 ∧
      12 ≤ adjustRequestSize size (2 ^ k) ∧ adjustRequestSize size (2 ^ k) < blockSizeMax := by
  obtain ⟨hdvd, hle, hlt⟩ := alignUp_spec (by omega) hsize
  have h4 : 4 ∣ alignUp size (2 ^ k) := Nat.dvd_trans (Nat.pow_dvd_pow 2 h2) hdvd
  unfold adjustRequestSize at h0 ⊢
  by_cases hz : size = 0
  · exact absurd (if_pos hz) h0
  · rw [if_neg hz] at h0 ⊢
    dsimp only at h0 ⊢
    by_cases hmax : alignUp size (2 ^ k) < blockSizeMax
    · rw [if_pos hmax]
      unfold blockSizeMax blockSizeMin at *
      refine ⟨by omega, by omega, ?_, by omega, by omega⟩
      rcases Nat.le_total (alignUp size (2 ^ k)) 12 with h | h
      · rw [Nat.max_eq_right h]
      · rw [Nat.max_eq_left h]
        exact Nat.mod_eq_zero_of_dvd h4
    · exact absurd (if_neg hmax) h0

end Tlsf
end Hashx86
