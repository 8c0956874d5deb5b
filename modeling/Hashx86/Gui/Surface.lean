import Hashx86.Lib.Raster
import Hashx86.Lib.Word64

/-!
# The buffers that are drawn on (`gui/render/nina.cpp`)

The functions of `NINA` are given a buffer of `bufferWidth * bufferHeight` pixels. What the source
computes in 64 bits from 32-bit values does not overflow, and is integers here.

* `clip_first`, `clip_end`, `clip_last`: a part of the buffer as a maximum and a minimum.
* `toInt_place`: the place of a pixel is computed without an overflow where the buffer fits in
  memory.
* `plot_paints`: a pixel that is painted if it is on the buffer.
-/

namespace Hashx86

open Lib

/-- A buffer without pixels has a width or a height that is not positive. -/
abbrev Pixels (bufferWidth bufferHeight : Int32) :=
  Picture bufferWidth.toInt.toNat bufferHeight.toInt.toNat UInt32

/-- The size of a buffer whose pixels, if it has any, fit in memory. -/
structure BufferSize where
  width : Int32
  height : Int32
  fits : 0 < width.toInt → 0 < height.toInt → 4 * (width.toInt * height.toInt) ≤ 2 ^ 32

/-- An access outside the buffer, a signed overflow, and a loop that goes on for `2 ^ 32` turns. -/
inductive Trap
  | outside
  | overflow
  | endless
  deriving DecidableEq

instance nontrivial_uint32 : Nontrivial UInt32 := ⟨0, 1, by decide⟩

/-! ## Clipping -/

/-- `if (x0 < 0) x0 = 0;` -/
theorem clip_first (x0 : Int) : (if x0 < 0 then 0 else x0) = max x0 0 := by omega

/-- `if (x1 > size) x1 = size;` -/
theorem clip_end (x1 size : Int) : (if x1 > size then size else x1) = min x1 size := by omega

/-- `if (x1 >= size) x1 = size - 1;` -/
theorem clip_last (x1 size : Int) : (if x1 ≥ size then size - 1 else x1) = min x1 (size - 1) := by
  omega

/-! ## Pixels -/

variable {bufferWidth bufferHeight : Int32}

/-- `if (X >= 0 && Y >= 0 && X < bufferWidth && Y < bufferHeight)`
`buffer[Y * bufferWidth + X] = colorIndex`. -/
def plot (X Y : Int) (colorIndex : UInt32) (f : Pixels bufferWidth bufferHeight) :
    Except Trap (Pixels bufferWidth bufferHeight) :=
  if 0 ≤ X ∧ 0 ≤ Y ∧ X < bufferWidth.toInt ∧ Y < bufferHeight.toInt then
    poke .outside (Y * bufferWidth.toInt + X) (fun _ => colorIndex) f
  else .ok f

theorem poke_paints (bufferWidth bufferHeight : Int32) {X Y : Int} (hX : 0 ≤ X)
    (hX' : X < bufferWidth.toInt) (hY : 0 ≤ Y) (hY' : Y < bufferHeight.toInt) (c : UInt32) :
    Paints (fun i j => i = X ∧ j = Y) c
      (poke Trap.outside (Y * bufferWidth.toInt + X) (fun _ => c) :
        Pixels bufferWidth bufferHeight → _) :=
  poke_draws (g := fun _ _ _ => c) Trap.outside hX (by omega) hY (by omega)
    (by rw [Int.toNat_of_nonneg (by omega)])

theorem plot_paints (bufferWidth bufferHeight : Int32) (X Y : Int) (c : UInt32) :
    Paints (fun i j => i = X ∧ j = Y) c
      (plot X Y c : Pixels bufferWidth bufferHeight → _) := by
  have hput := Paints.ite (p := 0 ≤ X ∧ 0 ≤ Y ∧ X < bufferWidth.toInt ∧ Y < bufferHeight.toInt)
    fun ⟨hX, hY, hX', hY'⟩ => poke_paints bufferWidth bufferHeight hX hX' hY hY' c
  refine hput.congr fun i j => ?_
  omega

/-- A product of two positive factors is at least the first. -/
theorem le_mul_of_pos {m n : Int} (hm : 0 < m) (hn : 0 < n) : m ≤ m * n := by
  have hmul := Int.mul_le_mul_of_nonneg_left (show (1 : Int) ≤ n by omega) (Int.le_of_lt hm)
  rwa [Int.mul_one] at hmul

theorem BufferSize.bounds (e : BufferSize) (hw : 0 < e.width.toInt) (hh : 0 < e.height.toInt) :
    e.width.toInt ≤ 2 ^ 30 ∧ e.height.toInt ≤ 2 ^ 30 := by
  have hfits := e.fits hw hh
  have hwle := le_mul_of_pos hw hh
  have hhle := le_mul_of_pos hh hw
  rw [Int.mul_comm] at hhle
  omega

theorem toInt_place (e : BufferSize) {X Y : Int32} (hX : 0 ≤ X.toInt)
    (hX' : X.toInt < e.width.toInt) (hY : 0 ≤ Y.toInt) (hY' : Y.toInt < e.height.toInt) :
    (Y * e.width + X).toInt = Y.toInt * e.width.toInt + X.toInt := by
  have hfits := e.fits (by omega) (by omega)
  have hplace := place_lt (w := e.width.toInt.toNat) (h := e.height.toInt.toNat) hX (by omega) hY
    (by omega)
  rw [Int.toNat_of_nonneg (by omega), Int.toNat_of_nonneg (by omega)] at hplace
  have hnn := Int.mul_nonneg hY (show 0 ≤ e.width.toInt by omega)
  have hmul : (Y * e.width).toInt = Y.toInt * e.width.toInt := by
    rw [Int32.toInt_mul]
    exact Int.bmod_eq_of_le (by omega) (by omega)
  rw [toInt_add_eq (by omega) (by omega), hmul]

end Hashx86
