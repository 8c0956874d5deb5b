import Mathlib.Data.Nat.Digits.Lemmas

/-!
# Positional numerals

* `numeral b n`: the digits of `n` in base `b`, the most significant first.
* `readUpTo b bound v ds`: a reader from the left that gives up once the value passes `bound`.
* `readUpTo_numeral`: it reads back each numeral within the bound. The value of every prefix of a
  numeral is a quotient of the whole, so the bound is never passed on the way.
-/

namespace Lib

/-- The digits of `n`, the most significant first; none for 0. -/
def numeral (b n : Nat) : List Nat := (Nat.digits b n).reverse

/-- Reads digits from the left, with the value `v` so far. -/
def readUpTo (b bound v : Nat) : List Nat → Option Nat
  | [] => some v
  | d :: ds => if bound < v * b + d then none else readUpTo b bound (v * b + d) ds

theorem numeral_zero (b : Nat) : numeral b 0 = [] := by rw [numeral, Nat.digits_zero]; rfl

theorem numeral_of_pos {b n : Nat} (hb : 1 < b) (hn : 0 < n) :
    numeral b n = numeral b (n / b) ++ [n % b] := by
  rw [numeral, Nat.digits_def' hb hn, List.reverse_cons]
  rfl

theorem numeral_lt {b n d : Nat} (hb : 1 < b) (hd : d ∈ numeral b n) : d < b :=
  Nat.digits_lt_base hb (List.mem_reverse.mp hd)

theorem length_numeral_le {b n k : Nat} (hb : 1 < b) (hn : n < b ^ k) :
    (numeral b n).length ≤ k := by
  rw [numeral, List.length_reverse]
  exact (Nat.digits_length_le_iff hb n).mpr hn

theorem numeral_ne_nil {b n : Nat} (hn : 0 < n) : numeral b n ≠ [] := by
  rw [numeral, ne_eq, List.reverse_eq_nil_iff]
  exact Nat.digits_ne_nil_iff_ne_zero.mpr (Nat.ne_of_gt hn)

theorem readUpTo_append {b bound : Nat} (es : List Nat) : ∀ (ds : List Nat) (v : Nat),
    readUpTo b bound v (ds ++ es) = (readUpTo b bound v ds).bind fun u => readUpTo b bound u es
  | [], _ => rfl
  | d :: ds, v => by
    rw [List.cons_append, readUpTo, readUpTo]
    by_cases h : bound < v * b + d
    · rw [if_pos h, if_pos h]; rfl
    · rw [if_neg h, if_neg h, readUpTo_append es ds]

/-- A numeral within the bound is read back. -/
theorem readUpTo_numeral {b bound n : Nat} (hb : 1 < b) (hn : n ≤ bound) :
    readUpTo b bound 0 (numeral b n) = some n := by
  induction n using Nat.strong_induction_on with
  | _ n ih =>
    rcases Nat.eq_zero_or_pos n with rfl | hpos
    · rw [numeral_zero]; rfl
    · have hlt : n / b < n := Nat.div_lt_self hpos hb
      rw [numeral_of_pos hb hpos, readUpTo_append, ih (n / b) hlt (by omega), Option.bind_some,
        readUpTo, Nat.div_add_mod', if_neg (Nat.not_lt.mpr hn)]
      rfl

end Lib
