import Hashx86.Lib.Word32

/-!
# 32-bit words in 64 bits

Sums and differences of two words that are widened first do not wrap, and a result that fits in 32
bits is narrowed without a change.

* `toInt_add64`, `toInt_sub64`: sums and differences of widened words.
* `toInt_narrow`: narrowing a value that fits.
* `toInt_of_eq`: a word that is the image of an integer that fits.
* `toNat_widen`: a value that is not negative is the same number without a sign.
* `toInt_ite_min`, `toInt_ite_max`: a value held to a bound by a test.
-/

namespace Lib

/-- The value of a 64-bit word, as a 32-bit one can hold it. -/
def Fits32 (n : Int) : Prop := -2 ^ 31 ≤ n ∧ n < 2 ^ 31

instance (n : Int) : Decidable (Fits32 n) :=
  inferInstanceAs (Decidable (_ ∧ _))

theorem fits32_toInt (n : Int32) : Fits32 n.toInt :=
  ⟨n.le_toInt, n.toInt_lt⟩

/-- A word that is computed as an integer is computed, and fits. -/
theorem toInt_of_eq {a : Int32} {n : Int} (ha : a = Int32.ofInt n) (hn : Fits32 n) : a.toInt = n := by
  rw [ha]
  exact Int32.toInt_ofInt_of_le hn.1 hn.2

theorem toInt_add64 (m n : Int32) : (m.toInt64 + n.toInt64).toInt = m.toInt + n.toInt := by
  have hm := fits32_toInt m
  have hn := fits32_toInt n
  rw [Fits32] at hm hn
  rw [Int64.toInt_add, Int32.toInt_toInt64, Int32.toInt_toInt64]
  exact Int.bmod_eq_of_le (by omega) (by omega)

theorem toInt_sub64 (m n : Int32) : (m.toInt64 - n.toInt64).toInt = m.toInt - n.toInt := by
  have hm := fits32_toInt m
  have hn := fits32_toInt n
  rw [Fits32] at hm hn
  rw [Int64.toInt_sub, Int32.toInt_toInt64, Int32.toInt_toInt64]
  exact Int.bmod_eq_of_le (by omega) (by omega)

theorem toInt_narrow {n : Int64} (hn : Fits32 n.toInt) : n.toInt32.toInt = n.toInt := by
  rw [Int64.toInt_toInt32]
  exact Int.bmod_eq_of_le (by have := hn.1; omega) (by have := hn.2; omega)

theorem toNat_toUInt64 {n : Int64} (hn : 0 ≤ n.toInt) : (n.toUInt64.toNat : Int) = n.toInt := by
  have hle : 0 ≤ n := Int64.le_iff_toInt_le.mpr (by simpa using hn)
  rw [Int64.toNat_toUInt64_of_le hle, Int64.toNatClampNeg, Int.toNat_of_nonneg hn]

theorem toNat_widen {n : Int32} (hn : 0 ≤ n.toInt) : n.toInt64.toUInt64.toNat = n.toInt.toNat := by
  have hu := toNat_toUInt64 (n := n.toInt64) (by simpa using hn)
  rw [Int32.toInt_toInt64] at hu
  omega

theorem toNat_unsigned {n : Int32} (hn : 0 ≤ n.toInt) : n.toUInt32.toNat = n.toInt.toNat := by
  have hu := toNat_toUInt32 (toInt_nonneg.mpr hn)
  omega

/-- The smaller of two words, by a test. -/
theorem toNat_ite_min (m n : UInt32) : (if m < n then m else n).toNat = min m.toNat n.toNat := by
  split
  next h =>
    rw [UInt32.lt_iff_toNat_lt] at h
    omega
  next h =>
    rw [UInt32.lt_iff_toNat_lt] at h
    omega

/-- The larger of two words, by a test. -/
theorem toNat_ite_max (m n : UInt32) : (if m < n then n else m).toNat = max m.toNat n.toNat := by
  split
  next h =>
    rw [UInt32.lt_iff_toNat_lt] at h
    omega
  next h =>
    rw [UInt32.lt_iff_toNat_lt] at h
    omega

theorem toInt_ite_min (m n : Int64) : (if m < n then m else n).toInt = min m.toInt n.toInt := by
  split
  next h =>
    rw [Int64.lt_iff_toInt_lt] at h
    omega
  next h =>
    rw [Int64.lt_iff_toInt_lt] at h
    omega

theorem toInt_ite_max (m n : Int64) : (if m < n then n else m).toInt = max m.toInt n.toInt := by
  split
  next h =>
    rw [Int64.lt_iff_toInt_lt] at h
    omega
  next h =>
    rw [Int64.lt_iff_toInt_lt] at h
    omega

theorem toInt_ite_min32 (m n : Int32) : (if m < n then m else n).toInt = min m.toInt n.toInt := by
  split
  next h =>
    rw [Int32.lt_iff_toInt_lt] at h
    omega
  next h =>
    rw [Int32.lt_iff_toInt_lt] at h
    omega

theorem toInt_ite_max32 (m n : Int32) : (if m < n then n else m).toInt = max m.toInt n.toInt := by
  split
  next h =>
    rw [Int32.lt_iff_toInt_lt] at h
    omega
  next h =>
    rw [Int32.lt_iff_toInt_lt] at h
    omega

theorem toInt_neg64 (n : Int32) : (-n.toInt64).toInt = -n.toInt := by
  have hn := fits32_toInt n
  rw [Fits32] at hn
  rw [Int64.toInt_neg, Int32.toInt_toInt64]
  exact Int.bmod_eq_of_le (by omega) (by omega)

end Lib
