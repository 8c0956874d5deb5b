import Hashx86.Gui.Cursor
import Hashx86.Gui.Surface
import Hashx86.Lib.While
import Mathlib.Tactic.IntervalCases

/-!
# Bitmaps (`gui/render/nina.cpp`)

`DrawBitmap` clips in 32 bits and copies the first run of opaque pixels of a row before it blends the
rest; `DrawBitmapToBuffer` clips in 64 bits and looks at each pixel.

* `drawBitmapToBuffer_draws`, `drawBitmap_draws`: both blend the bitmap over the pixels it covers.
* `bitmaps_agree`: on buffers and with bitmaps that fit in memory they do the same.
-/

namespace Hashx86
namespace Blit

open Lib
open Cursor (alphaOf channel alphaTable blend)

/-! ## Colours -/

theorem channels_eq (src : UInt32) :
    (src >>> 24) <<< 24 ||| channel src 16 <<< 16 ||| channel src 8 <<< 8 ||| channel src 0 = src := by
  apply UInt32.eq_of_toBitVec_eq
  apply BitVec.eq_of_getLsbD_eq
  intro i hi
  simp only [channel, UInt32.toBitVec_or, UInt32.toBitVec_shiftLeft, UInt32.toBitVec_shiftRight,
    UInt32.toBitVec_and]
  interval_cases i <;> simp

/-- The byte at the top is all that is left of it. -/
theorem alphaOf_eq (src : UInt32) : alphaOf src = src >>> 24 := by
  apply UInt32.eq_of_toBitVec_eq
  apply BitVec.eq_of_getLsbD_eq
  intro i hi
  simp only [alphaOf, UInt32.toBitVec_shiftRight, UInt32.toBitVec_and]
  interval_cases i <;> simp

theorem channel_lt (src shift : UInt32) : (channel src shift).toNat < 256 := by
  rw [channel, UInt32.toNat_and]
  exact Nat.lt_of_le_of_lt Nat.and_le_right (by decide)

/-- A channel of an opaque pixel over another one. -/
theorem mix_solid (src dst shift : UInt32) :
    (alphaTable 255 (channel src shift) + alphaTable (255 - 255) (channel dst shift)).toUInt32 =
      channel src shift := by
  have hlt := channel_lt src shift
  generalize channel src shift = c at hlt
  have hsrc : c * 255 / 255 = c := by
    apply UInt32.toNat_inj.mp
    rw [UInt32.toNat_div, UInt32.toNat_mul, show (255 : UInt32).toNat = 255 from rfl,
      Nat.mod_eq_of_lt (by omega), Nat.mul_div_cancel _ (by omega)]
  have hdst : alphaTable (255 - 255) (channel dst shift) = 0 := by
    rw [alphaTable, UInt32.sub_self, UInt32.mul_zero]
    rfl
  rw [hdst, UInt8.add_zero, alphaTable, hsrc]
  apply UInt32.toNat_inj.mp
  rw [UInt8.toNat_toUInt32, UInt32.toNat_toUInt8]
  omega

theorem blend_solid {src : UInt32} (hsrc : alphaOf src = 255) (dst : UInt32) :
    blend src dst = src := by
  have hne : ¬ (255 : UInt32) = 0 := by decide
  have htop := alphaOf_eq src
  rw [hsrc] at htop
  rw [blend, hsrc]
  dsimp only
  rw [if_neg hne, mix_solid, mix_solid, mix_solid, htop]
  exact channels_eq src

variable {dstW dstH srcW srcH : Int32}

/-- The bitmap at `(x, y)` over a pixel. -/
def blended (src : Pixels srcW srcH) (x y i j : Int) (c : UInt32) : UInt32 :=
  blend (pixelD 0 src (i - x) (j - y)) c

/-- The bitmap at `(x, y)` covers the pixel. -/
def Covers (srcW srcH x y i j : Int) : Prop := x ≤ i ∧ i < x + srcW ∧ y ≤ j ∧ j < y + srcH

/-! ## `NINA::DrawBitmapToBuffer` -/

/-- An opaque pixel is copied, a transparent one is left out. -/
def putPixel (place : Int) (srcPixel : UInt32) (dst : Pixels dstW dstH) :
    Except Trap (Pixels dstW dstH) :=
  if alphaOf srcPixel = 255 then poke .outside place (fun _ => srcPixel) dst
  else if alphaOf srcPixel > 0 then poke .outside place (blend srcPixel) dst
  else .ok dst

/-- The loops over the rows and the columns of a part of the buffer. -/
def blitClipped (x0 y0 x1 y1 dstX dstY : Int) (src : Pixels srcW srcH) :
    Pixels dstW dstH → Except Trap (Pixels dstW dstH) :=
  let srcX0 := x0 - dstX
  let span := x1 - x0
  forInts y0 y1 fun y =>
    let dstRow := y * dstW.toInt + x0
    let srcRow := (y - dstY) * srcW.toInt + srcX0
    forInts 0 span fun x dst =>
      peek .outside 0 (srcRow + x) src >>= fun srcPixel => putPixel (dstRow + x) srcPixel dst

def drawBitmapToBuffer (dstX dstY : Int32) (src : Pixels srcW srcH) (dst : Pixels dstW dstH) :
    Except Trap (Pixels dstW dstH) :=
  if dstW ≤ 0 ∨ dstH ≤ 0 ∨ srcW ≤ 0 ∨ srcH ≤ 0 then .ok dst
  else
    let x0 := if dstX.toInt < 0 then 0 else dstX.toInt
    let y0 := if dstY.toInt < 0 then 0 else dstY.toInt
    let x1 := dstX.toInt + srcW.toInt
    let y1 := dstY.toInt + srcH.toInt
    let x1 := if x1 > dstW.toInt then dstW.toInt else x1
    let y1 := if y1 > dstH.toInt then dstH.toInt else y1
    if x0 ≥ x1 ∨ y0 ≥ y1 then .ok dst
    else blitClipped x0 y0 x1 y1 dstX.toInt dstY.toInt src dst

theorem poke_draws32 (dstW dstH : Int32) (g : UInt32 → UInt32) {X Y : Int} (hX : 0 ≤ X)
    (hX' : X < dstW.toInt) (hY : 0 ≤ Y) (hY' : Y < dstH.toInt) {place : Int}
    (hp : place = Y * dstW.toInt + X) :
    Draws (fun i j => i = X ∧ j = Y) (fun _ _ => g)
      (poke Trap.outside place g : Pixels dstW dstH → _) :=
  poke_draws (g := fun _ _ => g) Trap.outside hX (by omega) hY (by omega)
    (by rw [Int.toNat_of_nonneg (by omega)]; exact hp)

theorem peek_eq32 (src : Pixels srcW srcH) {X Y : Int} (hX : 0 ≤ X) (hX' : X < srcW.toInt)
    (hY : 0 ≤ Y) (hY' : Y < srcH.toInt) {place : Int} (hp : place = Y * srcW.toInt + X) :
    peek Trap.outside 0 place src = .ok (pixelD 0 src X Y) :=
  peek_eq Trap.outside 0 src hX (by omega) hY (by omega)
    (by rw [Int.toNat_of_nonneg (by omega)]; exact hp)

theorem putPixel_draws (dstW dstH : Int32) (srcPixel : UInt32) {X Y : Int} (hX : 0 ≤ X)
    (hX' : X < dstW.toInt) (hY : 0 ≤ Y) (hY' : Y < dstH.toInt) {place : Int}
    (hp : place = Y * dstW.toInt + X) :
    Draws (fun i j => i = X ∧ j = Y) (fun _ _ => blend srcPixel)
      (putPixel place srcPixel : Pixels dstW dstH → _) := by
  unfold putPixel
  by_cases h255 : alphaOf srcPixel = 255
  · simp only [if_pos h255]
    refine (poke_draws32 dstW dstH (fun _ => srcPixel) hX hX' hY hY' hp).congr_of fun i j c _ => ?_
    exact (blend_solid h255 c).symm
  · simp only [if_neg h255]
    by_cases h0 : alphaOf srcPixel > 0
    · simp only [if_pos h0]
      exact poke_draws32 dstW dstH (blend srcPixel) hX hX' hY hY' hp
    · simp only [if_neg h0]
      have hzero : alphaOf srcPixel = 0 := by grind
      exact Draws.keep fun i j c _ => if_pos hzero

theorem blitClipped_draws (dstW dstH : Int32) {x0 y0 x1 y1 dstX dstY : Int} (src : Pixels srcW srcH)
    (hx : 0 ≤ x0) (hy : 0 ≤ y0) (hx' : x1 ≤ dstW.toInt) (hy' : y1 ≤ dstH.toInt) (hl : dstX ≤ x0)
    (ht : dstY ≤ y0) (hr : x1 ≤ dstX + srcW.toInt) (hb : y1 ≤ dstY + srcH.toInt) :
    Draws (fun i j => x0 ≤ i ∧ i < x1 ∧ y0 ≤ j ∧ j < y1) (blended src dstX dstY)
      (blitClipped x0 y0 x1 y1 dstX dstY src : Pixels dstW dstH → _) := by
  have hpixel : ∀ Y, y0 ≤ Y → Y < y1 → ∀ X, 0 ≤ X → X < x1 - x0 →
      Draws (fun i j => i = x0 + X ∧ j = Y) (blended src dstX dstY)
        (fun dst : Pixels dstW dstH =>
          peek .outside 0 ((Y - dstY) * srcW.toInt + (x0 - dstX) + X) src >>=
            fun srcPixel => putPixel (Y * dstW.toInt + x0 + X) srcPixel dst) := by
    intro Y hlow hhigh X hlow' hhigh'
    have hpeek := peek_eq32 src (X := x0 - dstX + X) (Y := Y - dstY) (by omega) (by omega)
      (by omega) (by omega) (Int.add_assoc _ _ _)
    rw [hpeek]
    refine (putPixel_draws dstW dstH _ (by omega) (by omega) (by omega) (by omega)
      (Int.add_assoc _ _ _)).congr_of ?_
    rintro i j c ⟨rfl, rfl⟩
    rw [blended, show x0 - dstX + X = x0 + X - dstX by omega]
  have hrow : ∀ Y, y0 ≤ Y → Y < y1 → Draws (fun i j => ∃ X, 0 ≤ X ∧ X < x1 - x0 ∧ i = x0 + X ∧ j = Y)
      (blended src dstX dstY) _ := fun Y hlow hhigh =>
    Draws.forInts (hpixel Y hlow hhigh) fun X X' _ _ _ i j hi hi' => by omega
  refine (Draws.forInts hrow ?_).congr fun i j => ?_
  · rintro Y Y' hlow hlt hhigh i j ⟨X, _, _, _, hj⟩ ⟨X', _, _, _, hj'⟩
    omega
  · constructor
    · rintro ⟨Y, hlow, hhigh, X, hlow', hhigh', hi, rfl⟩
      omega
    · rintro ⟨hlow, hhigh, hlow', hhigh'⟩
      exact ⟨j, hlow', hhigh', i - x0, by omega, by omega, by omega, rfl⟩

theorem drawBitmapToBuffer_draws (dstW dstH dstX dstY : Int32) (src : Pixels srcW srcH) :
    Draws (Covers srcW.toInt srcH.toInt dstX.toInt dstY.toInt) (blended src dstX.toInt dstY.toInt)
      (drawBitmapToBuffer dstX dstY src : Pixels dstW dstH → _) := by
  unfold drawBitmapToBuffer
  simp only [toInt_nonpos, clip_first, clip_end]
  by_cases hempty : dstW.toInt ≤ 0 ∨ dstH.toInt ≤ 0 ∨ srcW.toInt ≤ 0 ∨ srcH.toInt ≤ 0
  · simp only [if_pos hempty]
    refine Draws.skip fun i j => ?_
    rw [Covers]
    omega
  · simp only [if_neg hempty]
    by_cases hclip : max dstX.toInt 0 ≥ min (dstX.toInt + srcW.toInt) dstW.toInt ∨
        max dstY.toInt 0 ≥ min (dstY.toInt + srcH.toInt) dstH.toInt
    · simp only [if_pos hclip]
      refine Draws.skip fun i j => ?_
      rw [Covers]
      omega
    · simp only [if_neg hclip]
      refine (blitClipped_draws dstW dstH src ?_ ?_ ?_ ?_ ?_ ?_ ?_ ?_).congr fun i j => ?_
      · omega
      · omega
      · omega
      · omega
      · omega
      · omega
      · omega
      · omega
      · rw [Covers]
        omega

/-! ## `NINA::DrawBitmap` -/

/-- More turns than a loop over the columns of a row makes. -/
def turns : Nat := 2 ^ 32

/-- The end of the run of opaque pixels from a column on:
`while (col < drawWidth && startX + col < bufferWidth && bmpPtr[col] >> 24 == 255) col++`. -/
def runEnd (bufferWidth startX drawWidth : Int32) (bmpPtr : Int) (bitmapData : Pixels srcW srcH) :
    Int32 → Except Trap Int32 :=
  whileLoop (fun col =>
    if col < drawWidth ∧ startX + col < bufferWidth then
      peek .outside 0 (bmpPtr + col.toInt) bitmapData >>= fun pixel =>
        .ok (if pixel >>> 24 = 255 then some (col + 1) else none)
    else .ok none) .endless turns

/-- `memcpy(&pixelPtr[runStart], &bmpPtr[runStart], runLength * sizeof(uint32_t))` -/
def copyRun (runStart runLength : Int32) (pixelPtr bmpPtr : Int) (bitmapData : Pixels srcW srcH) :
    Pixels dstW dstH → Except Trap (Pixels dstW dstH) :=
  forInts 0 runLength.toInt fun k buffer =>
    peek .outside 0 (bmpPtr + runStart.toInt + k) bitmapData >>= fun pixel =>
      poke .outside (pixelPtr + runStart.toInt + k) (fun _ => pixel) buffer

def blendPixel (place : Int) (srcColor : UInt32) (buffer : Pixels dstW dstH) :
    Except Trap (Pixels dstW dstH) :=
  if alphaOf srcColor > 0 then poke .outside place (blend srcColor) buffer else .ok buffer

/-- The loop that blends the pixels from a column on. -/
def blendRest (startX drawWidth : Int32) (pixelPtr bmpPtr : Int) (bitmapData : Pixels srcW srcH) :
    Int32 × Pixels dstW dstH → Except Trap (Int32 × Pixels dstW dstH) :=
  whileLoop (fun (col, buffer) =>
    if col < drawWidth ∧ startX + col < dstW then
      peek .outside 0 (bmpPtr + col.toInt) bitmapData >>= fun srcColor =>
        blendPixel (pixelPtr + col.toInt) srcColor buffer >>= fun buffer =>
          .ok (some (col + 1, buffer))
    else .ok none) .endless turns

/-- A turn of the loop over a row. -/
def rowTurn (startX drawWidth : Int32) (pixelPtr bmpPtr : Int) (bitmapData : Pixels srcW srcH)
    (s : Int32 × Pixels dstW dstH) : Except Trap (Option (Int32 × Pixels dstW dstH)) :=
  if s.1 < drawWidth then
    if startX + s.1 ≥ dstW then .ok none
    else
      let runStart := s.1
      runEnd dstW startX drawWidth bmpPtr bitmapData s.1 >>= fun col =>
        let runLength := col - runStart
        (if 0 < runLength then copyRun runStart runLength pixelPtr bmpPtr bitmapData s.2
          else .ok s.2) >>= fun buffer =>
        blendRest startX drawWidth pixelPtr bmpPtr bitmapData (col, buffer) >>= fun s => .ok (some s)
  else .ok none

def drawRow (startX drawWidth : Int32) (pixelPtr bmpPtr : Int) (bitmapData : Pixels srcW srcH)
    (buffer : Pixels dstW dstH) : Except Trap (Pixels dstW dstH) :=
  whileLoop (rowTurn startX drawWidth pixelPtr bmpPtr bitmapData) .endless turns (0, buffer) >>=
    fun s => .ok s.2

def drawBitmap (x y : Int32) (bitmapData : Pixels srcW srcH) (buffer : Pixels dstW dstH) :
    Except Trap (Pixels dstW dstH) :=
  if dstW ≤ 0 ∨ dstH ≤ 0 ∨ srcW ≤ 0 ∨ srcH ≤ 0 then .ok buffer
  else if x ≥ dstW ∨ y ≥ dstH then .ok buffer
  else if x.toInt + srcW.toInt ≤ 0 ∨ y.toInt + srcH.toInt ≤ 0 then .ok buffer
  else
    let startCol := if x < 0 then -x else 0
    let drawWidth := srcW - startCol
    let startX := if x < 0 then 0 else x
    let drawWidth := if startX + drawWidth > dstW then dstW - startX else drawWidth
    if drawWidth ≤ 0 then .ok buffer
    else
      forInts 0 srcH.toInt (fun row buffer =>
        let screenY := y + Int32.ofInt row
        if screenY < 0 ∨ screenY ≥ dstH then .ok buffer
        else
          drawRow startX drawWidth (screenY * dstW + startX).toInt
            (Int32.ofInt row * srcW + startCol).toInt bitmapData buffer) buffer

/-- A row of the bitmap and the part of a row of the buffer that it is drawn on. -/
structure OnRow (dstW dstH srcW srcH startX drawWidth : Int32) (x y j pixelPtr bmpPtr : Int) :
    Prop where
  left : 0 ≤ startX.toInt
  right : startX.toInt + drawWidth.toInt ≤ dstW.toInt
  bmpLeft : x ≤ startX.toInt
  bmpRight : startX.toInt + drawWidth.toInt ≤ x + srcW.toInt
  row : 0 ≤ j ∧ j < dstH.toInt
  bmpRow : y ≤ j ∧ j < y + srcH.toInt
  pixelPtr : pixelPtr = j * dstW.toInt + startX.toInt
  bmpPtr : bmpPtr = (j - y) * srcW.toInt + (startX.toInt - x)

section Row

variable {startX drawWidth : Int32} {x y j pixelPtr bmpPtr : Int}

theorem OnRow.peek (hr : OnRow dstW dstH srcW srcH startX drawWidth x y j pixelPtr bmpPtr)
    (src : Pixels srcW srcH) (col : Int) (h0 : 0 ≤ col) (hcol : col < drawWidth.toInt) :
    Lib.peek Trap.outside 0 (bmpPtr + col) src =
      .ok (pixelD 0 src (startX.toInt + col - x) (j - y)) := by
  have hleft := hr.bmpLeft
  have hright := hr.bmpRight
  have hrow := hr.bmpRow
  refine peek_eq32 src (by omega) (by omega) (by omega) (by omega) ?_
  rw [hr.bmpPtr]
  omega

theorem OnRow.poke (hr : OnRow dstW dstH srcW srcH startX drawWidth x y j pixelPtr bmpPtr)
    (g : UInt32 → UInt32) (col : Int) (h0 : 0 ≤ col) (hcol : col < drawWidth.toInt) :
    Draws (fun i j' => i = startX.toInt + col ∧ j' = j) (fun _ _ => g)
      (Lib.poke Trap.outside (pixelPtr + col) g : Pixels dstW dstH → _) := by
  have hleft := hr.left
  have hright := hr.right
  have hrow := hr.row
  refine poke_draws32 dstW dstH g (by omega) (by omega) (by omega) (by omega) ?_
  rw [hr.pixelPtr]
  omega

/-- The columns of the row that are drawn on. -/
theorem OnRow.column (hr : OnRow dstW dstH srcW srcH startX drawWidth x y j pixelPtr bmpPtr)
    (col : Int32) (h0 : 0 ≤ col.toInt) (hle : col.toInt ≤ drawWidth.toInt) :
    (col < drawWidth ∧ startX + col < dstW ↔ col.toInt < drawWidth.toInt) ∧
      (col.toInt < drawWidth.toInt → (col + 1).toInt = col.toInt + 1) := by
  have h1 : (1 : Int32).toInt = 1 := by decide
  have hleft := hr.left
  have hright := hr.right
  have hwlt := dstW.toInt_lt
  have hdlt := drawWidth.toInt_lt
  have hsum := toInt_add_eq (m := startX) (n := col) (by omega) (by omega)
  rw [Int32.lt_iff_toInt_lt, Int32.lt_iff_toInt_lt, hsum]
  refine ⟨by omega, fun hlt => ?_⟩
  rw [toInt_add_eq (by omega) (by omega), h1]

theorem runEnd_spec (hr : OnRow dstW dstH srcW srcH startX drawWidth x y j pixelPtr bmpPtr)
    (src : Pixels srcW srcH) (col : Int32) (h0 : 0 ≤ col.toInt)
    (hcol : col.toInt ≤ drawWidth.toInt) :
    ∃ stop, runEnd dstW startX drawWidth bmpPtr src col = .ok stop ∧ col.toInt ≤ stop.toInt ∧
      stop.toInt ≤ drawWidth.toInt ∧ ∀ k, col.toInt ≤ k → k < stop.toInt →
        alphaOf (pixelD 0 src (startX.toInt + k - x) (j - y)) = 255 := by
  have hdlt := drawWidth.toInt_lt
  refine whileLoop_spec Trap.endless
    (fun c => col.toInt ≤ c.toInt ∧ c.toInt ≤ drawWidth.toInt ∧ ∀ k, col.toInt ≤ k → k < c.toInt →
      alphaOf (pixelD 0 src (startX.toInt + k - x) (j - y)) = 255)
    (fun c => (drawWidth.toInt - c.toInt).toNat) _ ?_ ?_ ?_
  · rintro c ⟨hlow, hhigh, hrun⟩
    obtain ⟨hcond, hnext⟩ := hr.column c (by omega) hhigh
    simp only [hcond]
    by_cases hlt : c.toInt < drawWidth.toInt
    · rw [if_pos hlt, hr.peek src c.toInt (by omega) hlt]
      by_cases hsolid : alphaOf (pixelD 0 src (startX.toInt + c.toInt - x) (j - y)) = 255
      · right
        refine ⟨c + 1, ?_, ⟨?_, ?_, ?_⟩, ?_⟩
        · rw [alphaOf_eq] at hsolid
          show Except.ok _ = _
          rw [if_pos hsolid]
        · have := hnext hlt
          omega
        · have := hnext hlt
          omega
        · intro k hk hk'
          rw [hnext hlt] at hk'
          obtain hin | rfl : k < c.toInt ∨ k = c.toInt := by omega
          · exact hrun k hk hin
          · exact hsolid
        · have := hnext hlt
          omega
      · left
        refine ⟨?_, hlow, hhigh, hrun⟩
        rw [alphaOf_eq] at hsolid
        show Except.ok _ = _
        rw [if_neg hsolid]
    · left
      rw [if_neg hlt]
      exact ⟨rfl, hlow, hhigh, hrun⟩
  · exact ⟨Int.le_refl _, hcol, fun k hk hk' => by omega⟩
  · rw [turns]
    omega

/-- The part of the row from one column up to another. -/
def Stretch (startX : Int32) (j c c' i j' : Int) : Prop :=
  startX.toInt + c ≤ i ∧ i < startX.toInt + c' ∧ j' = j

theorem copyRun_draws (hr : OnRow dstW dstH srcW srcH startX drawWidth x y j pixelPtr bmpPtr)
    (src : Pixels srcW srcH) (col stop : Int32) (h0 : 0 ≤ col.toInt)
    (hle : col.toInt ≤ stop.toInt) (hstop : stop.toInt ≤ drawWidth.toInt)
    (hrun : ∀ k, col.toInt ≤ k → k < stop.toInt →
      alphaOf (pixelD 0 src (startX.toInt + k - x) (j - y)) = 255) :
    Draws (Stretch startX j col.toInt stop.toInt) (blended src x y)
      (copyRun col (stop - col) pixelPtr bmpPtr src : Pixels dstW dstH → _) := by
  have hslt := stop.toInt_lt
  have hlen := toInt_sub_eq (m := stop) (n := col) (by omega) (by omega)
  have hpixel : ∀ k, 0 ≤ k → k < (stop - col).toInt →
      Draws (fun i j' => i = startX.toInt + (col.toInt + k) ∧ j' = j) (blended src x y)
        (fun buffer : Pixels dstW dstH => peek Trap.outside 0 (bmpPtr + col.toInt + k) src >>=
          fun pixel => poke Trap.outside (pixelPtr + col.toInt + k) (fun _ => pixel) buffer) := by
    intro k hk hk'
    rw [Int.add_assoc bmpPtr, Int.add_assoc pixelPtr,
      hr.peek src (col.toInt + k) (by omega) (by omega)]
    refine (hr.poke (fun _ => pixelD 0 src (startX.toInt + (col.toInt + k) - x) (j - y))
      (col.toInt + k) (by omega) (by omega)).congr_of ?_
    rintro i j' c ⟨rfl, rfl⟩
    exact (blend_solid (hrun (col.toInt + k) (by omega) (by omega)) c).symm
  refine (Draws.forInts hpixel ?_).congr fun i j' => ?_
  · rintro k k' _ hlt _ i j' ⟨hi, _⟩ ⟨hi', _⟩
    omega
  · rw [Stretch]
    constructor
    · rintro ⟨k, hk, hk', hi, hj⟩
      omega
    · rintro ⟨hlow, hhigh, hj⟩
      exact ⟨i - startX.toInt - col.toInt, by omega, by omega, by omega, hj⟩

theorem blendPixel_draws (hr : OnRow dstW dstH srcW srcH startX drawWidth x y j pixelPtr bmpPtr)
    (srcColor : UInt32) (col : Int) (h0 : 0 ≤ col) (hcol : col < drawWidth.toInt) :
    Draws (fun i j' => i = startX.toInt + col ∧ j' = j) (fun _ _ => blend srcColor)
      (blendPixel (pixelPtr + col) srcColor : Pixels dstW dstH → _) := by
  unfold blendPixel
  by_cases hpos : alphaOf srcColor > 0
  · simp only [if_pos hpos]
    exact hr.poke (blend srcColor) col h0 hcol
  · simp only [if_neg hpos]
    have hzero : alphaOf srcColor = 0 := by grind
    exact Draws.keep fun i j c _ => if_pos hzero

theorem blendRest_spec (hr : OnRow dstW dstH srcW srcH startX drawWidth x y j pixelPtr bmpPtr)
    (src : Pixels srcW srcH) (col : Int32) (h0 : 0 ≤ col.toInt)
    (hcol : col.toInt ≤ drawWidth.toInt) (f : Pixels dstW dstH) :
    ∃ s, blendRest startX drawWidth pixelPtr bmpPtr src (col, f) = .ok s ∧
      s.1.toInt = drawWidth.toInt ∧
      Drawn (Stretch startX j col.toInt drawWidth.toInt) (blended src x y) f s.2 := by
  have hdlt := drawWidth.toInt_lt
  refine whileLoop_spec Trap.endless
    (fun s : Int32 × Pixels dstW dstH => col.toInt ≤ s.1.toInt ∧ s.1.toInt ≤ drawWidth.toInt ∧
      Drawn (Stretch startX j col.toInt s.1.toInt) (blended src x y) f s.2)
    (fun s => (drawWidth.toInt - s.1.toInt).toNat) _ ?_ ?_ ?_
  · rintro ⟨c, f'⟩ ⟨hlow, hhigh, hd⟩
    dsimp only at hlow hhigh hd
    obtain ⟨hcond, hnext⟩ := hr.column c (by omega) hhigh
    simp only [hcond]
    by_cases hlt : c.toInt < drawWidth.toInt
    · right
      obtain ⟨f'', hf'', hd'⟩ := blendPixel_draws hr
        (pixelD 0 src (startX.toInt + c.toInt - x) (j - y)) c.toInt (by omega) hlt f'
      refine ⟨(c + 1, f''), ?_, ⟨?_, ?_, ?_⟩, ?_⟩
      · rw [if_pos hlt, hr.peek src c.toInt (by omega) hlt]
        show blendPixel _ _ f' >>= _ = _
        rw [hf'']
        rfl
      · show col.toInt ≤ (c + 1).toInt
        rw [hnext hlt]
        omega
      · show (c + 1).toInt ≤ drawWidth.toInt
        rw [hnext hlt]
        omega
      · have hover : Drawn (fun i j' => i = startX.toInt + c.toInt ∧ j' = j) (blended src x y)
            f' f'' := by
          intro i j'
          refine ⟨fun ha => ?_, (hd' i j').2⟩
          rw [(hd' i j').1 ha, blended, ha.1, ha.2]
        refine (hd.trans hover ?_).congr fun i j' => ?_
        · rintro i j' ⟨_, hi, _⟩ ⟨hi', _⟩
          omega
        · show _ ↔ Stretch startX j col.toInt (c + 1).toInt i j'
          rw [hnext hlt, Stretch, Stretch]
          omega
      · show (drawWidth.toInt - (c + 1).toInt).toNat < (drawWidth.toInt - c.toInt).toNat
        rw [hnext hlt]
        omega
    · left
      have hend : c.toInt = drawWidth.toInt := by omega
      refine ⟨by rw [if_neg hlt], hend, ?_⟩
      rw [← hend]
      exact hd
  · refine ⟨Int.le_refl _, hcol, Drawn.none (fun i j' ⟨hi, hi', _⟩ => ?_) f⟩
    exact absurd hi' (Int.not_lt.mpr hi)
  · show (drawWidth.toInt - col.toInt).toNat < turns
    rw [turns]
    omega

/-- The first turn copies the first opaque run and blends the rest. -/
theorem rowTurn_spec (hr : OnRow dstW dstH srcW srcH startX drawWidth x y j pixelPtr bmpPtr)
    (src : Pixels srcW srcH) (hpos : 0 < drawWidth.toInt) (f : Pixels dstW dstH) :
    ∃ t, rowTurn startX drawWidth pixelPtr bmpPtr src (0, f) = .ok (some t) ∧
      t.1.toInt = drawWidth.toInt ∧
      Drawn (Stretch startX j 0 drawWidth.toInt) (blended src x y) f t.2 := by
  have hz : (0 : Int32).toInt = 0 := Int32.toInt_zero
  obtain ⟨hcond, -⟩ := hr.column 0 (by omega) (by omega)
  obtain ⟨hin, hin'⟩ := hcond.mpr (by omega)
  obtain ⟨stop, hstop, hlow, hhigh, hrun⟩ := runEnd_spec hr src 0 (by omega) (by omega)
  have hcopy : ∃ f', (if 0 < stop - 0 then copyRun 0 (stop - 0) pixelPtr bmpPtr src f
      else .ok f) = .ok f' ∧ Drawn (Stretch startX j 0 stop.toInt) (blended src x y) f f' := by
    by_cases hlen : 0 < stop - 0
    · rw [if_pos hlen]
      obtain ⟨f', hf', hd⟩ := copyRun_draws hr src 0 stop (by omega) (by omega) hhigh hrun f
      exact ⟨f', hf', by rwa [hz] at hd⟩
    · rw [if_neg hlen]
      refine ⟨f, rfl, Drawn.none (fun i j' ⟨hi, hi', _⟩ => hlen ?_) f⟩
      rw [Int32.sub_zero, toInt_pos]
      omega
  obtain ⟨f', hf', hd'⟩ := hcopy
  obtain ⟨t, ht, hend, hd''⟩ := blendRest_spec hr src stop (by omega) hhigh f'
  refine ⟨t, ?_, hend, ?_⟩
  · rw [rowTurn, if_pos hin, if_neg (by rw [ge_iff_le, Int32.not_le]; exact hin'), hstop]
    show ((if 0 < stop - 0 then copyRun 0 (stop - 0) pixelPtr bmpPtr src f
      else .ok f) >>= fun buffer =>
        blendRest startX drawWidth pixelPtr bmpPtr src (stop, buffer) >>= fun s => .ok (some s)) = _
    rw [hf']
    show (blendRest startX drawWidth pixelPtr bmpPtr src (stop, f') >>= fun s => .ok (some s)) = _
    rw [ht]
    rfl
  · refine (hd'.trans hd'' ?_).congr fun i j' => ?_
    · rintro i j' ⟨_, hi, _⟩ ⟨hi', _, _⟩
      omega
    · rw [Stretch, Stretch, Stretch]
      omega

/-- One row: the second turn leaves. -/
theorem drawRow_draws (hr : OnRow dstW dstH srcW srcH startX drawWidth x y j pixelPtr bmpPtr)
    (src : Pixels srcW srcH) (hpos : 0 < drawWidth.toInt) :
    Draws (Stretch startX j 0 drawWidth.toInt) (blended src x y)
      (drawRow startX drawWidth pixelPtr bmpPtr src : Pixels dstW dstH → _) := by
  intro f
  have hdlt := drawWidth.toInt_lt
  have hloop : ∃ s,
      whileLoop (rowTurn startX drawWidth pixelPtr bmpPtr src) Trap.endless turns (0, f) =
      .ok s ∧ Drawn (Stretch startX j 0 drawWidth.toInt) (blended src x y) f s.2 := by
    refine whileLoop_spec Trap.endless
      (fun s => s = (0, f) ∨ s.1.toInt = drawWidth.toInt ∧
        Drawn (Stretch startX j 0 drawWidth.toInt) (blended src x y) f s.2)
      (fun s => (drawWidth.toInt - s.1.toInt).toNat) _ ?_ (Or.inl rfl) ?_
    · rintro s (rfl | ⟨hend, hd⟩)
      · right
        obtain ⟨t, ht, hend, hd⟩ := rowTurn_spec hr src hpos f
        refine ⟨t, ht, Or.inr ⟨hend, hd⟩, ?_⟩
        show (drawWidth.toInt - t.1.toInt).toNat < (drawWidth.toInt - (0 : Int32).toInt).toNat
        rw [Int32.toInt_zero]
        omega
      · left
        refine ⟨if_neg ?_, hd⟩
        rw [Int32.lt_iff_toInt_lt]
        omega
    · rw [turns]
      show (drawWidth.toInt - (0 : Int32).toInt).toNat < _
      rw [Int32.toInt_zero]
      omega
  obtain ⟨s, hs, hd⟩ := hloop
  refine ⟨s.2, ?_, hd⟩
  unfold drawRow
  rw [hs]
  rfl

end Row

/-- The clipping in 32 bits, of a bitmap that is on the buffer. -/
theorem clip_spec (dst src : BufferSize) (x : Int32) (hw : 0 < dst.width.toInt)
    (hh : 0 < dst.height.toInt) (hsw : 0 < src.width.toInt) (hsh : 0 < src.height.toInt)
    (hx : x.toInt < dst.width.toInt) (hx' : 0 < x.toInt + src.width.toInt) :
    (if x < 0 then -x else 0).toInt = max (-x.toInt) 0 ∧
      (if x < 0 then 0 else x).toInt = max x.toInt 0 ∧
      (if (if x < 0 then 0 else x) + (src.width - (if x < 0 then -x else 0)) > dst.width then
          dst.width - (if x < 0 then 0 else x)
        else src.width - (if x < 0 then -x else 0)).toInt =
        min (x.toInt + src.width.toInt) dst.width.toInt - max x.toInt 0 := by
  obtain ⟨hwle, -⟩ := dst.bounds hw hh
  obtain ⟨hswle, -⟩ := src.bounds hsw hsh
  have hneg : x.toInt < 0 → (-x).toInt = -x.toInt := fun hlt => by
    rw [Int32.toInt_neg]
    exact Int.bmod_eq_of_le (by omega) (by omega)
  have hcol : (if x < 0 then -x else 0).toInt = max (-x.toInt) 0 := by
    split
    next h =>
      rw [Int32.lt_iff_toInt_lt, Int32.toInt_zero] at h
      rw [hneg h]
      omega
    next h =>
      rw [Int32.lt_iff_toInt_lt, Int32.toInt_zero] at h
      rw [Int32.toInt_zero]
      omega
  have hstart := toInt_ite_max32 x 0
  rw [Int32.toInt_zero] at hstart
  refine ⟨hcol, hstart, ?_⟩
  generalize (if x < 0 then -x else 0) = startCol at hcol ⊢
  generalize (if x < 0 then 0 else x) = startX at hstart ⊢
  have hwidth := toInt_sub_eq (m := src.width) (n := startCol) (by omega) (by omega)
  have hend := toInt_add_eq (m := startX) (n := src.width - startCol) (by omega) (by omega)
  have hroom := toInt_sub_eq (m := dst.width) (n := startX) (by omega) (by omega)
  split
  next h =>
    rw [gt_iff_lt, Int32.lt_iff_toInt_lt] at h
    omega
  next h =>
    rw [gt_iff_lt, Int32.lt_iff_toInt_lt] at h
    omega

theorem drawBitmap_draws (dst src : BufferSize) (x y : Int32)
    (bitmapData : Pixels src.width src.height) :
    Draws (Covers src.width.toInt src.height.toInt x.toInt y.toInt)
      (blended bitmapData x.toInt y.toInt)
      (drawBitmap x y bitmapData : Pixels dst.width dst.height → _) := by
  unfold drawBitmap
  simp only [ge_iff_le, Int32.le_iff_toInt_le, Int32.toInt_zero]
  by_cases hempty : dst.width.toInt ≤ 0 ∨ dst.height.toInt ≤ 0 ∨ src.width.toInt ≤ 0 ∨
      src.height.toInt ≤ 0
  · simp only [if_pos hempty]
    refine Draws.skip fun i j => ?_
    rw [Covers]
    omega
  simp only [if_neg hempty]
  by_cases hpast : dst.width.toInt ≤ x.toInt ∨ dst.height.toInt ≤ y.toInt
  · simp only [if_pos hpast]
    refine Draws.skip fun i j => ?_
    rw [Covers]
    omega
  simp only [if_neg hpast]
  by_cases hbefore : x.toInt + src.width.toInt ≤ 0 ∨ y.toInt + src.height.toInt ≤ 0
  · simp only [if_pos hbefore]
    refine Draws.skip fun i j => ?_
    rw [Covers]
    omega
  simp only [if_neg hbefore]
  obtain ⟨hcol, hstart, hwidth⟩ := clip_spec dst src x (by omega) (by omega)
    (by omega) (by omega) (by omega) (by omega)
  generalize (if (if x < 0 then 0 else x) + (src.width - (if x < 0 then -x else 0)) > dst.width then
    dst.width - (if x < 0 then 0 else x) else src.width - (if x < 0 then -x else 0)) = drawWidth
    at hwidth ⊢
  generalize (if x < 0 then -x else 0) = startCol at hcol ⊢
  generalize (if x < 0 then 0 else x) = startX at hstart ⊢
  simp only [if_neg (show ¬ drawWidth.toInt ≤ 0 by omega)]
  obtain ⟨-, hhle⟩ := dst.bounds (by omega) (by omega)
  obtain ⟨-, hshle⟩ := src.bounds (by omega) (by omega)
  have hrow : ∀ row, 0 ≤ row → row < src.height.toInt →
      Draws (fun i j => ¬ (y + Int32.ofInt row < 0 ∨ dst.height.toInt ≤ (y + Int32.ofInt row).toInt) ∧
          Stretch startX (y.toInt + row) 0 drawWidth.toInt i j) (blended bitmapData x.toInt y.toInt)
        (fun buffer : Pixels dst.width dst.height =>
          if ¬ (y + Int32.ofInt row < 0 ∨ dst.height.toInt ≤ (y + Int32.ofInt row).toInt) then
            drawRow startX drawWidth ((y + Int32.ofInt row) * dst.width + startX).toInt
              (Int32.ofInt row * src.width + startCol).toInt bitmapData buffer
          else .ok buffer) := by
    intro row hlow hhigh
    have hof : (Int32.ofInt row).toInt = row := Int32.toInt_ofInt_of_le (by omega) (by omega)
    have hsum := toInt_add_eq (m := y) (n := Int32.ofInt row) (by omega) (by omega)
    rw [hof] at hsum
    refine Draws.ite fun hin => ?_
    rw [Int32.lt_iff_toInt_lt, Int32.toInt_zero, hsum] at hin
    have hdst := toInt_place dst (X := startX) (Y := y + Int32.ofInt row) (by omega) (by omega)
      (by omega) (by omega)
    have hsrc := toInt_place src (X := startCol) (Y := Int32.ofInt row) (by omega) (by omega)
      (by omega) (by omega)
    rw [hsum] at hdst
    rw [hof] at hsrc
    refine drawRow_draws ⟨?_, ?_, ?_, ?_, ?_, ?_, hdst, ?_⟩ bitmapData (by omega)
    · omega
    · omega
    · omega
    · omega
    · omega
    · omega
    · rw [hsrc, show y.toInt + row - y.toInt = row by omega]
      omega
  simp only [ite_not] at hrow
  refine (Draws.forInts hrow ?_).congr fun i j => ?_
  · rintro row row' _ hlt _ i j ⟨-, -, -, hj⟩ ⟨-, -, -, hj'⟩
    omega
  · have hi := i.isLt
    have hj := j.isLt
    rw [Covers]
    constructor
    · rintro ⟨row, hlow, hhigh, -, hi, hi', hj⟩
      omega
    · rintro ⟨hlow, hhigh, hlow', hhigh'⟩
      have hof : (Int32.ofInt (j - y.toInt)).toInt = j - y.toInt :=
        Int32.toInt_ofInt_of_le (by omega) (by omega)
      have hsum := toInt_add_eq (m := y) (n := Int32.ofInt (j - y.toInt)) (by omega) (by omega)
      refine ⟨j - y.toInt, by omega, by omega, ?_, by omega, by omega, by omega⟩
      rw [Int32.lt_iff_toInt_lt, Int32.toInt_zero]
      omega

/-- On a buffer that fits in memory, and with a bitmap that fits, both functions blend the bitmap over
the pixels it covers, leave the others and do nothing else. -/
theorem bitmaps_agree (dst src : BufferSize) (x y : Int32)
    (bitmapData : Pixels src.width src.height)
    (buffer : Pixels dst.width dst.height) :
    ∃ after, drawBitmap x y bitmapData buffer = .ok after ∧
      drawBitmapToBuffer x y bitmapData buffer = .ok after ∧
      ∀ (i : Fin dst.width.toInt.toNat) (j : Fin dst.height.toInt.toNat),
        (Covers src.width.toInt src.height.toInt x.toInt y.toInt i j →
          after i j = blend (pixelD 0 bitmapData (i - x.toInt) (j - y.toInt)) (buffer i j)) ∧
        (¬ Covers src.width.toInt src.height.toInt x.toInt y.toInt i j →
          after i j = buffer i j) := by
  obtain ⟨after, hafter, hd⟩ := drawBitmap_draws dst src x y bitmapData buffer
  obtain ⟨after', hafter', hd'⟩ :=
    drawBitmapToBuffer_draws dst.width dst.height x y bitmapData buffer
  obtain rfl := hd.unique hd'
  exact ⟨after, hafter, hafter', hd⟩

end Blit
end Hashx86
