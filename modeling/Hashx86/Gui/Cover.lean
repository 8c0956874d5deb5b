import Hashx86.Gui.Bmp

/-!
# Scaling a bitmap to cover a target (`Bitmap::ScaledCover`)

The two axes are computed alike, from one scale in 16.16 fixed point. An `int32_t` that a value
does not fit is a fault.

* `axis_spec`: the rounded sizes and steps of an axis, without an overflow.
* `indices_spec`: the loop of an axis walks through the source from the origin in equal steps.
* `axis_covers`: the target is covered, and every index is inside the source before the clamps.
* `scaledCover_covers`: the result shows the source pixels at the indices of the two axes; a target
  inside the source shows its center.
-/

namespace Hashx86
namespace Gui

open Lib

/-- A value of an `int32_t` expression. -/
def int32 (v : Int) : Except Fault Int :=
  if -2 ^ 31 ≤ v ∧ v < 2 ^ 31 then .ok v else .error .overflow

/-- The constructor of a bitmap of one color. -/
def Bitmap.solid (width height : Int) (color : UInt32) (mem : Nat → Bool) :
    Except Fault Bitmap := do
  let bmp : Bitmap := ⟨width, height, false, none⟩
  if width ≤ 0 ∨ height ≤ 0 then return bmp
  if 0xFFFFFFFF / 4 < width.toNat * height.toNat then return bmp
  if !mem (4 * (width.toNat * height.toNat)) then throw .halt
  return { bmp with buffer := some fun _ => color, valid := true }

/-! ## The axes -/

/-- The greatest of the scales of the axes and 1. -/
def greatest (scale scaleY one : Nat) : Nat :=
  let scale := if scale < scaleY then scaleY else scale
  if scale < one then one else scale

/-- The scale that covers the target. -/
def coverScale (srcW srcH dstW dstH : Nat) : Nat :=
  greatest (dstW * 2 ^ 16 % 2 ^ 32 / srcW) (dstH * 2 ^ 16 % 2 ^ 32 / srcH) (2 ^ 16)

/-- What is computed for an axis: the scaled size, the origin in the source and the step. -/
structure Axis where
  scaled : Int
  origin : Int
  step : Int

def axis (src dst scale : Nat) : Except Fault Axis := do
  let scaled ← int32 ((src * scale + 0xFFFF) / 2 ^ 16 : Nat)
  let off := (← int32 (dst - scaled)).tdiv 2
  let step ← int32 (src * 2 ^ 16 % 2 ^ 32 / scaled.toNat : Nat)
  let origin ← int32 ((← int32 (-off)) * step)
  return ⟨scaled, origin, step⟩

/-- The loop of an axis from the accumulator `fx` on: the source index of each of `n` turns, before
the clamps. -/
def indices (step : Int) : (n : Nat) → (fx : Int) → Except Fault (List Int)
  | 0, _ => .ok []
  | n + 1, fx => do
    let sx := fx / 2 ^ 16
    let fx ← int32 (fx + step)
    return sx :: (← indices step n fx)

/-- The clamps of an index. -/
def clampIndex (size : Nat) (i : Int) : Nat :=
  let i := if i < 0 then 0 else i
  (if (size : Int) ≤ i then (size : Int) - 1 else i).toNat

/-! ## The pixels -/

/-- A read of a pixel buffer, which has `size` pixels. -/
def fetch (s : Nat → UInt32) (size i : Nat) : Except Fault UInt32 :=
  if i < size then .ok (s i) else .error .outside

/-- The loop over the columns of a row, which goes to the index `i` and those after it. -/
def gatherRow (s : Nat → UInt32) (srcW srcH dstSize sy : Nat) :
    List Int → Nat → (Nat → UInt32) → Except Fault (Nat → UInt32)
  | [], _, d => .ok d
  | sx :: xs, i, d => do
    let color ← fetch s (srcW * srcH) (sy * srcW + clampIndex srcW sx)
    let d ← store d dstSize i color
    gatherRow s srcW srcH dstSize sy xs (i + 1) d

/-- The loop over the rows from row `y` on. -/
def gatherRows (s : Nat → UInt32) (srcW srcH dstW dstH : Nat) (ax : Axis) :
    List Int → Nat → (Nat → UInt32) → Except Fault (Nat → UInt32)
  | [], _, d => .ok d
  | sy :: ys, y, d => do
    let xs ← indices ax.step dstW ax.origin
    let d ← gatherRow s srcW srcH (dstW * dstH) (clampIndex srcH sy) xs (y * dstW) d
    gatherRows s srcW srcH dstW dstH ax ys (y + 1) d

/-- `ScaledCover`: `obj` is whether `new` gets the object, and `mem` whether it gets the pixels. -/
def Bitmap.scaledCover (src : Bitmap) (dstW dstH : Int) (obj : Bool) (mem : Nat → Bool) :
    Except Fault (Option Bitmap) := do
  if !src.valid then return none
  match src.buffer with
  | none => return none
  | some s =>
    if dstW ≤ 0 ∨ dstH ≤ 0 then return none
    if src.width ≤ 0 ∨ src.height ≤ 0 then return none
    let (srcW, srcH, w, h) := (src.width.toNat, src.height.toNat, dstW.toNat, dstH.toNat)
    let scale := coverScale srcW srcH w h
    let ax ← axis srcW w scale
    let ay ← axis srcH h scale
    if !obj then return none
    let out ← Bitmap.solid dstW dstH 0xFF000000 mem
    match out.buffer with
    | none => return none
    | some d =>
      let ys ← indices ay.step h ay.origin
      let d ← gatherRows s srcW srcH w h ax ys 0 d
      return some { out with buffer := some d }

/-! ## One axis -/

theorem int32_ok {v : Int} (hlo : -2 ^ 31 ≤ v) (hhi : v < 2 ^ 31) : int32 v = .ok v :=
  if_pos ⟨hlo, hhi⟩

theorem int32_natCast {n : Nat} (h : n < 2 ^ 31) : int32 n = .ok (n : Int) :=
  int32_ok (by omega) (by omega)

/-- A size that a 16.16 value holds. -/
def Dim (n : Nat) : Prop := 1 ≤ n ∧ n ≤ 32767

/-- The scaled size of an axis. -/
def scaledSize (src scale : Nat) : Nat := (src * scale + 0xFFFF) / 2 ^ 16

/-- The step of an axis. -/
def stepSize (src scale : Nat) : Nat := src * 2 ^ 16 / scaledSize src scale

/-- The source index of turn `k`. -/
def sourceIndex (src dst scale k : Nat) : Nat :=
  ((scaledSize src scale - dst) / 2 + k) * stepSize src scale / 2 ^ 16

/-- A scale that covers `dst` by `src`, and that 16.16 values hold. -/
structure Scales (src dst scale : Nat) : Prop where
  one_le : 2 ^ 16 ≤ scale
  covers : dst * 2 ^ 16 / src ≤ scale
  le : scale ≤ 32767 * 2 ^ 16

/-- The scale rounds down by less than the rounding up of the size makes up for. -/
theorem dst_le_scaledSize {src dst scale : Nat} (hs : Dim src) (h : Scales src dst scale) :
    dst ≤ scaledSize src scale := by
  have hdiv := Nat.div_add_mod (dst * 2 ^ 16) src
  have hmod := Nat.mod_lt (dst * 2 ^ 16) hs.1
  have hmul := Nat.mul_le_mul_left src h.covers
  have hle := hs.2
  unfold scaledSize
  omega

theorem src_le_scaledSize {src dst scale : Nat} (h : Scales src dst scale) :
    src ≤ scaledSize src scale := by
  have hmul := Nat.mul_le_mul_left src h.one_le
  unfold scaledSize
  omega

theorem scaledSize_lt {src dst scale : Nat} (hs : Dim src) (h : Scales src dst scale) :
    scaledSize src scale < 2 ^ 31 := by
  have hmul := Nat.mul_le_mul hs.2 h.le
  unfold scaledSize
  omega

/-- All steps together stay in the source. -/
theorem steps_le (src scale : Nat) {k : Nat} (hk : k ≤ scaledSize src scale) :
    k * stepSize src scale ≤ src * 2 ^ 16 :=
  (Nat.mul_le_mul_right _ hk).trans (Nat.mul_div_le _ _)

theorem sourceIndex_lt {src dst scale k : Nat} (hs : Dim src) (h : Scales src dst scale)
    (hk : k < dst) : sourceIndex src dst scale k < src := by
  have hd := dst_le_scaledSize hs h
  have hle := steps_le src scale (show (scaledSize src scale - dst) / 2 + k + 1 ≤ _ by omega)
  unfold sourceIndex
  rw [Nat.succ_mul] at hle
  rcases Nat.eq_zero_or_pos (stepSize src scale) with h0 | h0
  · rw [h0, Nat.mul_zero, Nat.zero_div]
    exact hs.1
  · refine (Nat.div_lt_iff_lt_mul (by decide)).mpr ?_
    omega

theorem sourceIndex_mono {src dst scale j k : Nat} (h : j ≤ k) :
    sourceIndex src dst scale j ≤ sourceIndex src dst scale k :=
  Nat.div_le_div_right (Nat.mul_le_mul_right _ (Nat.add_le_add_left h _))

/-- An axis whose scale is 1 is cropped around its center. -/
theorem sourceIndex_crop {src dst k : Nat} (hs : Dim src) :
    sourceIndex src dst (2 ^ 16) k = (src - dst) / 2 + k := by
  have hsize : scaledSize src (2 ^ 16) = src := by
    unfold scaledSize
    omega
  have hstep : stepSize src (2 ^ 16) = 2 ^ 16 := by
    rw [stepSize, hsize, Nat.mul_div_cancel_left _ hs.1]
  rw [sourceIndex, hstep, hsize, Nat.mul_div_cancel _ (by decide)]

theorem axis_spec {src dst scale : Nat} (hs : Dim src) (h : Scales src dst scale) :
    axis src dst scale = .ok ⟨scaledSize src scale,
      ((scaledSize src scale - dst) / 2 * stepSize src scale : Nat), stepSize src scale⟩ := by
  have hd := dst_le_scaledSize hs h
  have hlt := scaledSize_lt hs h
  have hsrc := hs.2
  have hstep : stepSize src scale < 2 ^ 31 := by
    have hle := Nat.div_le_self (src * 2 ^ 16) (scaledSize src scale)
    unfold stepSize
    omega
  have horigin : (scaledSize src scale - dst) / 2 * stepSize src scale < 2 ^ 31 := by
    have hle := steps_le src scale
      (show (scaledSize src scale - dst) / 2 ≤ scaledSize src scale by omega)
    omega
  have hoff : (((dst : Int) - (scaledSize src scale : Nat)).tdiv 2) =
      -(((scaledSize src scale - dst) / 2 : Nat) : Int) := by
    rw [show (dst : Int) - (scaledSize src scale : Nat) =
      -((scaledSize src scale - dst : Nat) : Int) by omega, Int.neg_tdiv, Int.ofNat_tdiv]
    rfl
  have hmod : src * 2 ^ 16 % 2 ^ 32 = src * 2 ^ 16 := Nat.mod_eq_of_lt (by omega)
  have h1 : int32 ((src * scale + 0xFFFF) / 2 ^ 16 : Nat) = .ok (scaledSize src scale : Int) :=
    int32_natCast hlt
  have h2 : int32 ((dst : Int) - (scaledSize src scale : Nat)) =
      .ok ((dst : Int) - (scaledSize src scale : Nat)) := int32_ok (by omega) (by omega)
  have h3 : int32 (src * 2 ^ 16 / scaledSize src scale : Nat) = .ok (stepSize src scale : Int) :=
    int32_natCast hstep
  have h4 : int32 ((scaledSize src scale - dst) / 2 : Nat) =
      .ok (((scaledSize src scale - dst) / 2 : Nat) : Int) := int32_natCast (by omega)
  have h5 := int32_natCast horigin
  unfold axis
  rw [h1, ok_bind, h2, ok_bind]
  dsimp only
  rw [hoff, Int.toNat_natCast, neg_neg, hmod, h3, ok_bind, h4, ok_bind, ← Nat.cast_mul, h5,
    ok_bind]
  rfl

/-- The loop of an axis: `n` equal steps. -/
theorem indices_spec {step n fx : Nat} (h : fx + n * step < 2 ^ 31) :
    indices step n fx =
      .ok ((List.range n).map fun k => (((fx + k * step) / 2 ^ 16 : Nat) : Int)) := by
  induction n generalizing fx with
  | zero => rfl
  | succ n ih =>
    have hsum : fx + (n + 1) * step = fx + step + n * step := by ring
    rw [indices, ← Nat.cast_add, int32_natCast (by omega)]
    simp only [bind, Except.bind]
    rw [ih (hsum ▸ h), List.range_succ_eq_map, List.map_cons, List.map_map]
    simp only [pure, Except.pure, Except.ok.injEq, List.cons.injEq]
    refine ⟨by rw [Nat.zero_mul, Nat.add_zero]; rfl, List.map_congr_left fun k _ => ?_⟩
    have hstep : fx + step + k * step = fx + (k + 1) * step := by ring
    exact congrArg (fun v : Nat => ((v / 2 ^ 16 : Nat) : Int)) hstep

/-- What is claimed of an axis: the target is covered, and the indices of the loop are in the
source, in order. -/
structure Covers (src dst : Nat) (ax : Axis) (is : List Int) : Prop where
  scaled : (dst : Int) ≤ ax.scaled
  loop : indices ax.step dst ax.origin = .ok is
  length : is.length = dst
  inside : ∀ i ∈ is, 0 ≤ i ∧ i < src
  ordered : is.Pairwise (· ≤ ·)

theorem axis_covers {src dst scale : Nat} (hs : Dim src) (h : Scales src dst scale) :
    ∃ ax, axis src dst scale = .ok ax ∧
      Covers src dst ax ((List.range dst).map fun k => (sourceIndex src dst scale k : Int)) := by
  have hd := dst_le_scaledSize hs h
  have hsrc := hs.2
  refine ⟨_, axis_spec hs h, ?_⟩
  constructor
  case scaled => exact Int.ofNat_le.mpr hd
  case loop =>
    have hle := steps_le src scale
      (show (scaledSize src scale - dst) / 2 + dst ≤ scaledSize src scale by omega)
    rw [Nat.add_mul] at hle
    refine (indices_spec (by omega)).trans (congrArg Except.ok (List.map_congr_left fun k _ => ?_))
    rw [sourceIndex, Nat.add_mul]
  case length => rw [List.length_map, List.length_range]
  case inside =>
    intro i hi
    obtain ⟨k, hk, rfl⟩ := List.mem_map.mp hi
    exact ⟨Int.natCast_nonneg _, Int.ofNat_lt.mpr (sourceIndex_lt hs h (List.mem_range.mp hk))⟩
  case ordered =>
    refine List.pairwise_map.mpr (List.pairwise_lt_range.imp fun hjk => ?_)
    exact Int.ofNat_le.mpr (sourceIndex_mono hjk.le)

/-! ## The scale -/

theorem greatest_spec (x y one : Nat) :
    one ≤ greatest x y one ∧ x ≤ greatest x y one ∧ y ≤ greatest x y one ∧
      ∀ b, x ≤ b → y ≤ b → one ≤ b → greatest x y one ≤ b := by
  unfold greatest
  refine ⟨?_, ?_, ?_, fun b => ?_⟩ <;> dsimp only <;> split_ifs <;> omega

theorem coverScale_scales {dstW dstH : Nat} (srcW srcH : Nat) (hw : Dim dstW) (hh : Dim dstH) :
    Scales srcW dstW (coverScale srcW srcH dstW dstH) ∧
      Scales srcH dstH (coverScale srcW srcH dstW dstH) := by
  have hfit : ∀ (src : Nat) {dst : Nat}, Dim dst → dst * 2 ^ 16 % 2 ^ 32 = dst * 2 ^ 16 ∧
      dst * 2 ^ 16 / src ≤ 32767 * 2 ^ 16 := by
    intro src dst hd
    have hd' := hd.2
    have hle := Nat.div_le_self (dst * 2 ^ 16) src
    exact ⟨Nat.mod_eq_of_lt (by omega), hle.trans (Nat.mul_le_mul_right _ hd')⟩
  obtain ⟨h1, hx, hy, hb⟩ := greatest_spec (dstW * 2 ^ 16 / srcW) (dstH * 2 ^ 16 / srcH) (2 ^ 16)
  have hle := hb (32767 * 2 ^ 16) (hfit srcW hw).2 (hfit srcH hh).2 (by decide)
  unfold coverScale
  rw [(hfit srcW hw).1, (hfit srcH hh).1]
  exact ⟨⟨h1, hx, hle⟩, h1, hy, hle⟩

/-- A target inside the source is not scaled. -/
theorem coverScale_inside {srcW srcH dstW dstH : Nat} (hw : Dim srcW) (hh : Dim srcH)
    (hsw : dstW ≤ srcW) (hsh : dstH ≤ srcH) : coverScale srcW srcH dstW dstH = 2 ^ 16 := by
  have hle : ∀ {src dst : Nat}, Dim src → dst ≤ src → dst * 2 ^ 16 % 2 ^ 32 / src ≤ 2 ^ 16 := by
    intro src dst hs hd
    have hs' := hs.2
    rw [Nat.mod_eq_of_lt (by omega), Nat.div_le_iff_le_mul hs.1]
    have := Nat.mul_le_mul_right (2 ^ 16) hd
    omega
  have hx := hle hw hsw
  have hy := hle hh hsh
  obtain ⟨h1, -, -, hb⟩ := greatest_spec (dstW * 2 ^ 16 % 2 ^ 32 / srcW)
    (dstH * 2 ^ 16 % 2 ^ 32 / srcH) (2 ^ 16)
  exact Nat.le_antisymm (hb _ hx hy le_rfl) h1

/-! ## The result -/

theorem clampIndex_inside {size : Nat} {i : Int} (h : 0 ≤ i ∧ i < size) :
    clampIndex size i = i.toNat := by
  unfold clampIndex
  simp only [if_neg (show ¬ i < 0 by omega), if_neg (show ¬ (size : Int) ≤ i by omega)]

/-- A pixel of a row is one of the bitmap. -/
theorem pixel_lt {y h x w : Nat} (hy : y < h) (hx : x < w) : y * w + x < w * h := by
  have hle := row_le w hy
  omega

/-- A row of the result: what it stores, and what it leaves. -/
theorem gatherRow_spec (s : Nat → UInt32) {srcW srcH dstSize sy : Nat} (hsy : sy < srcH)
    {xs : List Int} {i : Nat} (d : Nat → UInt32) (hx : ∀ sx ∈ xs, 0 ≤ sx ∧ sx < srcW)
    (hi : i + xs.length ≤ dstSize) :
    ∃ d', gatherRow s srcW srcH dstSize sy xs i d = .ok d' ∧
      (∀ x sx, xs[x]? = some sx → d' (i + x) = s (sy * srcW + sx.toNat)) ∧
      ∀ k, k < i ∨ i + xs.length ≤ k → d' k = d k := by
  induction xs generalizing i d with
  | nil => exact ⟨d, rfl, fun x sx h => by simp at h, fun _ _ => rfl⟩
  | cons sx xs ih =>
    rw [List.length_cons] at hi
    obtain ⟨h0, hlt⟩ := hx sx List.mem_cons_self
    have hfetch : fetch s (srcW * srcH) (sy * srcW + clampIndex srcW sx) =
        .ok (s (sy * srcW + sx.toNat)) := by
      rw [clampIndex_inside ⟨h0, hlt⟩]
      exact if_pos (pixel_lt hsy (by omega))
    have hstore : store d dstSize i (s (sy * srcW + sx.toNat)) =
        .ok (Function.update d i (s (sy * srcW + sx.toNat))) := if_pos (by omega)
    obtain ⟨d', hrow, hnew, hold⟩ := ih (i := i + 1)
      (Function.update d i (s (sy * srcW + sx.toNat)))
      (fun sx h => hx sx (List.mem_cons_of_mem _ h)) (by omega)
    refine ⟨d', ?_, fun x a ha => ?_, fun k hk => ?_⟩
    · rw [gatherRow, hfetch, ok_bind, hstore, ok_bind, hrow]
    · cases x with
      | zero =>
        rw [List.getElem?_cons_zero, Option.some.injEq] at ha
        subst ha
        rw [Nat.add_zero, hold i (.inl (Nat.lt_succ_self i)), Function.update_self]
      | succ x =>
        rw [List.getElem?_cons_succ] at ha
        rw [show i + (x + 1) = i + 1 + x by omega, hnew x a ha]
    · rw [List.length_cons] at hk
      rw [hold k (by omega), Function.update_of_ne (by omega)]

/-- The rows of the result: what they store, and what they leave of the rows above. -/
theorem gatherRows_spec (s : Nat → UInt32) {srcW srcH dstW dstH : Nat} {ax : Axis} {xs : List Int}
    (hax : Covers srcW dstW ax xs) {ys : List Int} {y : Nat} (d : Nat → UInt32)
    (hys : ∀ sy ∈ ys, 0 ≤ sy ∧ sy < srcH) (hy : y + ys.length ≤ dstH) :
    ∃ d', gatherRows s srcW srcH dstW dstH ax ys y d = .ok d' ∧
      (∀ k sy, ys[k]? = some sy → ∀ x sx, xs[x]? = some sx →
        d' ((y + k) * dstW + x) = s (sy.toNat * srcW + sx.toNat)) ∧
      ∀ k < y * dstW, d' k = d k := by
  induction ys generalizing y d with
  | nil => exact ⟨d, rfl, fun k sy h => by simp at h, fun _ _ => rfl⟩
  | cons sy ys ih =>
    rw [List.length_cons] at hy
    obtain ⟨h0, hlt⟩ := hys sy List.mem_cons_self
    have hclamp := clampIndex_inside ⟨h0, hlt⟩
    have hsize : y * dstW + xs.length ≤ dstW * dstH := by
      rw [hax.length]
      exact row_le dstW (by omega)
    obtain ⟨row, hrow, hnew, hold⟩ := gatherRow_spec s (show sy.toNat < srcH by omega) d hax.inside
      hsize
    obtain ⟨d', hrows, hnews, holds⟩ := ih (y := y + 1) row
      (fun sy h => hys sy (List.mem_cons_of_mem _ h)) (by omega)
    refine ⟨d', ?_, fun k a ha x b hb => ?_, fun k hk => ?_⟩
    · rw [gatherRows, hax.loop, ok_bind, hclamp, hrow, ok_bind, hrows]
    · cases k with
      | zero =>
        rw [List.getElem?_cons_zero, Option.some.injEq] at ha
        subst ha
        have hx : x < dstW := hax.length ▸ (List.getElem?_eq_some_iff.mp hb).1
        rw [Nat.add_zero, holds _ (by rw [Nat.succ_mul]; omega), hnew x b hb]
      | succ k =>
        rw [List.getElem?_cons_succ] at ha
        rw [show y + (k + 1) = y + 1 + k by omega, hnews k a ha x b hb]
    · rw [holds k (by rw [Nat.succ_mul]; omega), hold k (.inl hk)]

theorem solid_ok {w h : Nat} (hw : Dim w) (hh : Dim h) (color : UInt32) {mem : Nat → Bool}
    (hmem : mem (4 * (w * h)) = true) :
    Bitmap.solid w h color mem = .ok ⟨w, h, true, some fun _ => color⟩ := by
  have hmul := Nat.mul_le_mul hw.2 hh.2
  have hw1 := hw.1
  have hh1 := hh.1
  unfold Bitmap.solid
  rw [if_neg (by omega), Int.toNat_natCast, Int.toNat_natCast, if_neg (by omega), hmem]
  rfl

/-- A valid bitmap of this size. -/
structure Bitmap.Ok (src : Bitmap) (w h : Nat) (s : Nat → UInt32) : Prop where
  valid : src.valid = true
  buffer : src.buffer = some s
  width : src.width = w
  height : src.height = h

/-- The scaled sizes cover the target, nothing overflows, the indices of both axes are inside the
source before the clamps and in order, and each pixel of the result is the one at the indices of
its column and its row. A target inside the source shows its center. -/
theorem scaledCover_covers {src : Bitmap} {srcW srcH dstW dstH : Nat} {s : Nat → UInt32}
    (hsrc : src.Ok srcW srcH s) (hsw : Dim srcW) (hsh : Dim srcH) (hdw : Dim dstW) (hdh : Dim dstH)
    {mem : Nat → Bool} (hmem : mem (4 * (dstW * dstH)) = true) :
    ∃ ax ay xs ys out px,
      axis srcW dstW (coverScale srcW srcH dstW dstH) = .ok ax ∧ Covers srcW dstW ax xs ∧
      axis srcH dstH (coverScale srcW srcH dstW dstH) = .ok ay ∧ Covers srcH dstH ay ys ∧
      src.scaledCover dstW dstH true mem = .ok (some out) ∧ out.Ok dstW dstH px ∧
      (∀ y sy, ys[y]? = some sy → ∀ x sx, xs[x]? = some sx →
        px (y * dstW + x) = s (sy.toNat * srcW + sx.toNat)) ∧
      (dstW ≤ srcW → dstH ≤ srcH → ∀ y < dstH, ∀ x < dstW,
        px (y * dstW + x) = s (((srcH - dstH) / 2 + y) * srcW + ((srcW - dstW) / 2 + x))) := by
  obtain ⟨hscx, hscy⟩ := coverScale_scales srcW srcH hdw hdh
  obtain ⟨ax, hax, hcx⟩ := axis_covers hsw hscx
  obtain ⟨ay, hay, hcy⟩ := axis_covers hsh hscy
  have hrows : 0 + ((List.range dstH).map fun k =>
      (sourceIndex srcH dstH (coverScale srcW srcH dstW dstH) k : Int)).length ≤ dstH := by
    rw [hcy.length, Nat.zero_add]
  obtain ⟨px, hpx, hnew, -⟩ := gatherRows_spec s hcx (fun _ => 0xFF000000) hcy.inside hrows
  simp only [Nat.zero_add] at hnew
  refine ⟨ax, ay, _, _, ⟨dstW, dstH, true, some px⟩, px, hax, hcx, hay, hcy, ?_,
    ⟨rfl, rfl, rfl, rfl⟩, hnew, fun hle hle' y hy x hx => ?_⟩
  · have hsw1 := hsw.1
    have hsh1 := hsh.1
    have hdw1 := hdw.1
    have hdh1 := hdh.1
    unfold Bitmap.scaledCover
    rw [hsrc.valid, hsrc.buffer, hsrc.width, hsrc.height]
    simp only [Bool.not_true, Bool.false_eq_true, if_false, Int.toNat_natCast]
    rw [if_neg (by omega), if_neg (by omega), hax, ok_bind, hay, ok_bind,
      solid_ok hdw hdh _ hmem, ok_bind]
    simp only
    rw [hcy.loop, ok_bind, hpx, ok_bind]
    rfl
  · have hscale := coverScale_inside hsw hsh hle hle'
    have hxs : ∀ {src dst k : Nat}, Dim src → k < dst →
        ((List.range dst).map fun k => (sourceIndex src dst (2 ^ 16) k : Int))[k]? =
          some (((src - dst) / 2 + k : Nat) : Int) := by
      intro src dst k hs hk
      rw [List.getElem?_map, List.getElem?_range hk, Option.map_some, sourceIndex_crop hs]
    rw [hscale] at hnew
    exact hnew y _ (hxs hsh hy) x _ (hxs hsw hx)

/-- A bitmap of 3 by 2 pixels. -/
def threeByTwo : Bitmap := ⟨3, 2, true, some fun i => UInt32.ofNat (10 + i)⟩

theorem scaledCover_threeByTwo :
    ∃ out px, threeByTwo.scaledCover 1 2 true (fun _ => true) = .ok (some out) ∧ out.Ok 1 2 px ∧
      px 0 = 11 ∧ px 1 = 14 := by
  obtain ⟨ax, ay, xs, ys, out, px, -, -, -, -, hout, hok, -, hcrop⟩ :=
    @scaledCover_covers threeByTwo 3 2 1 2 _ ⟨rfl, rfl, rfl, rfl⟩ ⟨by decide, by decide⟩
      ⟨by decide, by decide⟩ ⟨by decide, by decide⟩ ⟨by decide, by decide⟩ (fun _ => true) rfl
  refine ⟨out, px, hout, hok, ?_, ?_⟩
  · exact hcrop (by decide) (by decide) 0 (by decide) 0 (by decide)
  · exact hcrop (by decide) (by decide) 1 (by decide) 0 (by decide)

end Gui
end Hashx86
