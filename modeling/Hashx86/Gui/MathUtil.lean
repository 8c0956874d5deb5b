import Hashx86.Lib.LongDivision
import Hashx86.Lib.Word64

/-!
# Wide products for the widgets (`include/gui/mathutil.h`)

* `guiMulDivU32_eq`: `GuiMulDivU32` is the quotient, cut to 32 bits; `toNat_mulDiv` is the product of
  two widened words over a third, where it fits.
* `toInt_guiMulDivSigned`: `GuiMulDivSigned` rounds toward zero, where the quotient fits.
* `mulDiv_exact`: both, with the remainder of the loop in each turn.
* `toInt_holdLength`, `toInt_heldDelta`, `toInt_scaledDelta`: the steps that the scrollbar and the
  list view share: a thumb held between a least length and the track, and a drag held to the travel
  and scaled to the range.
-/

namespace Hashx86

open Lib

/-- `GuiMulDivU32`. -/
def guiMulDivU32 (num : UInt64) (den : UInt32) : UInt32 :=
  if den = 0 then 0 else (longDiv num den.toUInt64 64 (0, 0)).1.toUInt32

/-- The size of a word, in 64 bits: `(uint64_t)(-(int64_t)a)` or `(uint64_t)a`. -/
def magnitude (a : Int32) : UInt64 :=
  if a < 0 then (-a.toInt64).toUInt64 else a.toInt64.toUInt64

/-- `GuiMulDivSigned`. -/
def guiMulDivSigned (a b d : Int32) : Int32 :=
  if d ≤ 0 then 0
  else
    let m := guiMulDivU32 (magnitude a * magnitude b) d.toUInt32
    if (a < 0) ≠ (b < 0) then -m.toInt32 else m.toInt32

theorem guiMulDivU32_eq (num : UInt64) (den : UInt32) :
    (guiMulDivU32 num den).toNat = num.toNat / den.toNat % 2 ^ 32 := by
  rw [guiMulDivU32]
  split
  next h =>
    subst h
    simp
  next h =>
    have hpos : 0 < den.toNat := Nat.pos_of_ne_zero fun h0 => h (UInt32.toNat_inj.mp h0)
    have hlt := den.toNat_lt
    rw [UInt64.toNat_toUInt32, longDiv_eq num]
    · rw [UInt32.toNat_toUInt64]
    · rwa [UInt32.toNat_toUInt64]
    · rw [UInt32.toNat_toUInt64]
      omega

/-- The widened product does not wrap. -/
theorem toNat_mul_widen {m n : UInt64} (hm : m.toNat < 2 ^ 32) (hn : n.toNat < 2 ^ 32) :
    (m * n).toNat = m.toNat * n.toNat := by
  rw [UInt64.toNat_mul]
  apply Nat.mod_eq_of_lt
  calc m.toNat * n.toNat < 2 ^ 32 * 2 ^ 32 := Nat.mul_lt_mul_of_lt_of_lt hm hn
    _ = 2 ^ 64 := by decide

theorem toNat_mulDiv {m n : UInt64} {d : UInt32} (hm : m.toNat < 2 ^ 32) (hn : n.toNat < 2 ^ 32)
    (hfit : m.toNat * n.toNat / d.toNat < 2 ^ 32) :
    (guiMulDivU32 (m * n) d).toNat = m.toNat * n.toNat / d.toNat := by
  rw [guiMulDivU32_eq, toNat_mul_widen hm hn, Nat.mod_eq_of_lt hfit]

theorem toNat_magnitude (a : Int32) : (magnitude a).toNat = a.toInt.natAbs := by
  rw [magnitude]
  split
  next h =>
    have hneg : a.toInt < 0 := by simpa [Int32.lt_iff_toInt_lt] using h
    have hn := toInt_neg64 a
    have hu := toNat_toUInt64 (n := -a.toInt64) (by omega)
    omega
  next h =>
    have hnn : 0 ≤ a.toInt := by simpa [Int32.lt_iff_toInt_lt] using h
    have hu := toNat_toUInt64 (n := a.toInt64) (by simpa using hnn)
    rw [Int32.toInt_toInt64] at hu
    omega

/-- The quotient is rounded toward zero. -/
theorem toInt_guiMulDivSigned {a b d : Int32} (hd : 0 < d.toInt)
    (hfit : a.toInt.natAbs * b.toInt.natAbs / d.toInt.toNat < 2 ^ 31) :
    (guiMulDivSigned a b d).toInt = (a.toInt * b.toInt).tdiv d.toInt := by
  have ha := fits32_toInt a
  have hb := fits32_toInt b
  rw [Fits32] at ha hb
  have hd0 : ¬ d ≤ 0 := by simpa [Int32.le_iff_toInt_le] using hd
  have hdn : d.toUInt32.toNat = d.toInt.toNat := by
    have hu := toNat_toUInt32 (toInt_nonneg.mpr (Int.le_of_lt hd))
    omega
  have hm : (guiMulDivU32 (magnitude a * magnitude b) d.toUInt32).toNat =
      a.toInt.natAbs * b.toInt.natAbs / d.toInt.toNat := by
    rw [toNat_mulDiv, toNat_magnitude, toNat_magnitude, hdn]
    · rw [toNat_magnitude]
      omega
    · rw [toNat_magnitude]
      omega
    · rw [toNat_magnitude, toNat_magnitude, hdn]
      omega
  have hi : (guiMulDivU32 (magnitude a * magnitude b) d.toUInt32).toInt32.toInt =
      ((a.toInt.natAbs * b.toInt.natAbs / d.toInt.toNat : Nat) : Int) := by
    rw [toInt_toInt32 (by omega), hm]
  have hq : ((a.toInt.natAbs * b.toInt.natAbs / d.toInt.toNat : Nat) : Int) =
      (a.toInt * b.toInt).natAbs / d.toInt := by
    rw [Int.natCast_ediv, Int.natAbs_mul, Int.toNat_of_nonneg (Int.le_of_lt hd)]
  rw [guiMulDivSigned, if_neg hd0]
  dsimp only
  split
  next hs =>
    have hneg : a.toInt * b.toInt ≤ 0 := by
      simp only [Int32.lt_iff_toInt_lt, Int32.toInt_zero] at hs
      obtain h | h := Int.lt_or_le a.toInt 0
      · exact Int.mul_nonpos_of_nonpos_of_nonneg (Int.le_of_lt h) (by grind)
      · exact Int.mul_nonpos_of_nonneg_of_nonpos h (by grind)
    have htdiv : (a.toInt * b.toInt).tdiv d.toInt =
        -((a.toInt.natAbs * b.toInt.natAbs / d.toInt.toNat : Nat) : Int) := by
      rw [hq, Int.ofNat_natAbs_of_nonpos hneg,
        ← Int.tdiv_eq_ediv_of_nonneg (Int.neg_nonneg_of_nonpos hneg), Int.neg_tdiv, Int.neg_neg]
    rw [Int32.toInt_neg, hi, htdiv]
    exact Int.bmod_eq_of_le (by omega) (by omega)
  next hs =>
    have hnn : 0 ≤ a.toInt * b.toInt := by
      simp only [Int32.lt_iff_toInt_lt, Int32.toInt_zero] at hs
      obtain h | h := Int.lt_or_le a.toInt 0
      · exact Int.mul_nonneg_of_nonpos_of_nonpos (Int.le_of_lt h) (by grind)
      · exact Int.mul_nonneg h (by grind)
    rw [hi, hq, Int.natAbs_of_nonneg hnn, Int.tdiv_eq_ediv_of_nonneg hnn]

/-- What is expected of the division: where the quotient fits it is exact, and a bit is shifted into
the remainder, in each of the turns that the loop makes, without an overflow. -/
structure DividesExactly (num : UInt64) (den : UInt32) : Prop where
  quotient : num.toNat / den.toNat < 2 ^ 32 →
    (guiMulDivU32 num den).toNat = num.toNat / den.toNat
  passed : ∀ i ≤ 64, longDiv num den.toUInt64 i (registers num den.toUInt64 i) =
    longDiv num den.toUInt64 64 (0, 0)
  remainder : ∀ i < 64,
    ((registers num den.toUInt64 (i + 1)).2 <<< 1 ||| (num >>> UInt64.ofNat i &&& 1)).toNat =
      2 * (registers num den.toUInt64 (i + 1)).2.toNat + (num >>> UInt64.ofNat i &&& 1).toNat

theorem mulDiv_exact :
    (∀ (num : UInt64) (den : UInt32), 0 < den → DividesExactly num den) ∧
    ∀ a b d : Int32, 0 < d.toInt → (a.toInt * b.toInt).natAbs / d.toInt.toNat < 2 ^ 31 →
      (guiMulDivSigned a b d).toInt = (a.toInt * b.toInt).tdiv d.toInt := by
  constructor
  · intro num den hden
    have hpos : 0 < den.toUInt64.toNat := by
      rw [UInt32.toNat_toUInt64]
      exact UInt32.lt_iff_toNat_lt.mp hden
    have hlt : den.toUInt64.toNat < 2 ^ 63 := by
      have hden := den.toNat_lt
      rw [UInt32.toNat_toUInt64]
      omega
    have hstart : longDiv num den.toUInt64 64 (0, 0) = registers num den.toUInt64 0 :=
      longDiv_registers num den.toUInt64 (Nat.le_refl 64)
    constructor
    · intro hfit
      rw [guiMulDivU32_eq, Nat.mod_eq_of_lt hfit]
    · intro i hi
      rw [longDiv_registers num den.toUInt64 hi, hstart]
    · intro i hi
      have hdiv := divided_registers num hpos hlt (show i + 1 ≤ 64 by omega)
      rw [hdiv.shift hpos hlt hi, hdiv.remainder, toNat_bit num hi]
  · intro a b d hd hfit
    rw [Int.natAbs_mul] at hfit
    exact toInt_guiMulDivSigned hd hfit

/-! ## Thumbs and drags -/

/-- A length of at least `least` pixels, and not past the track. -/
def holdLength (least : UInt32) (track : Int32) (len : UInt32) : Int32 :=
  let len := if len < least then least else len
  let len := if track.toUInt32 < len then track.toUInt32 else len
  len.toInt32

/-- How far the pointer has moved, held to `usable` both ways. -/
def heldDelta (pos start usable : Int32) : Int64 :=
  let delta := pos.toInt64 - start.toInt64
  let delta := if usable.toInt64 < delta then usable.toInt64 else delta
  if delta < -usable.toInt64 then -usable.toInt64 else delta

theorem toInt_holdLength (least : UInt32) {track : Int32} (ht : 0 < track.toInt) (len : UInt32) :
    (holdLength least track len).toInt = min track.toInt (max least.toNat len.toNat) := by
  have htu := toNat_unsigned (n := track) (by omega)
  have hlt := track.toInt_lt
  have hlow : (if len < least then least else len).toNat = max len.toNat least.toNat :=
    toNat_ite_max len least
  have hhigh := toNat_ite_min track.toUInt32 (if len < least then least else len)
  rw [holdLength, toInt_toInt32 (by omega), hhigh]
  omega

theorem toInt_heldDelta (pos start usable : Int32) (hu : 0 ≤ usable.toInt) :
    (heldDelta pos start usable).toInt =
      max (min (pos.toInt - start.toInt) usable.toInt) (-usable.toInt) := by
  have hsub := toInt_sub64 pos start
  have hneg := toInt_neg64 usable
  have hmin := toInt_ite_min usable.toInt64 (pos.toInt64 - start.toInt64)
  have hmax := toInt_ite_max (if usable.toInt64 < pos.toInt64 - start.toInt64
    then usable.toInt64 else pos.toInt64 - start.toInt64) (-usable.toInt64)
  rw [Int32.toInt_toInt64, hsub] at hmin
  rw [hneg, hmin] at hmax
  rw [heldDelta, hmax]
  omega

/-- The quotient of a drag is at most the range, so it fits. -/
theorem scaledDelta_lt (pos start usable : Int32) (hu : 0 < usable.toInt) (range : Int32)
    (hr : 0 ≤ range.toInt) :
    (heldDelta pos start usable).toInt.natAbs * range.toInt.natAbs / usable.toInt.toNat <
      2 ^ 31 := by
  have hdelta := toInt_heldDelta pos start usable (by omega)
  have hlt := range.toInt_lt
  have hquot : (heldDelta pos start usable).toInt.natAbs * range.toInt.natAbs /
      usable.toInt.toNat ≤ range.toInt.natAbs := scale_le _ (by omega)
  omega

theorem toInt_scaledDelta (pos start usable : Int32) (hu : 0 < usable.toInt) (range : Int32)
    (hr : 0 ≤ range.toInt) :
    (guiMulDivSigned (heldDelta pos start usable).toInt32 range usable).toInt =
      (max (min (pos.toInt - start.toInt) usable.toInt) (-usable.toInt) * range.toInt).tdiv
        usable.toInt := by
  have hul := usable.toInt_lt
  have hdelta := toInt_heldDelta pos start usable (by omega)
  have hnar : (heldDelta pos start usable).toInt32.toInt = (heldDelta pos start usable).toInt :=
    toInt_narrow (by rw [Fits32]; omega)
  rw [toInt_guiMulDivSigned hu, hnar, hdelta]
  rw [hnar]
  exact scaledDelta_lt pos start usable hu range hr

end Hashx86
