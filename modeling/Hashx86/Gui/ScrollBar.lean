import Hashx86.Gui.MathUtil
import Hashx86.Lib.Run

/-!
# The scrollbar (`gui/scrollbar.cpp`)

* `Sound`: the range is ordered, the page positive and the value inside the range; every operation
  keeps it (`Sound.step`, `sound_run`).
* `toInt_maxValueOf`, `toInt_thumbLength`, `toInt_thumbPos`: the geometry over the integers.
* `Proportional`: where the thumb is at each value, and what a drag over the whole travel does;
  `proportional_iff`: exactly where the range between the extremes fits in an `int32_t`, or there is
  no travel.
-/

namespace Hashx86

open Lib

structure ScrollBar where
  x : Int32
  y : Int32
  w : Int32
  h : Int32
  enabled : Bool
  isVisible : Bool
  vertical : Bool
  minValue : Int32
  maxValue : Int32
  value : Int32
  pageSize : Int32
  dragging : Bool
  dragStart : Int32
  dragValue : Int32
  mouseCaptured : Bool

namespace ScrollBar

/-- `ScrollBar::ScrollBar`. -/
def new (x y w h : Int32) (vertical : Bool) : ScrollBar :=
  { x, y, w, h, enabled := true, isVisible := true, vertical, minValue := 0, maxValue := 100,
    value := 0, pageSize := 10, dragging := false, dragStart := 0, dragValue := 0,
    mouseCaptured := false }

/-! ## Geometry -/

/-- `TrackLength`. -/
def trackLength (b : ScrollBar) : Int32 := if b.vertical then b.h else b.w

/-- `(uint64_t)((int64_t)maxValue - minValue)`. -/
def span (b : ScrollBar) : UInt64 := (b.maxValue.toInt64 - b.minValue.toInt64).toUInt64

/-- `ThumbLength`. -/
def thumbLength (b : ScrollBar) : Int32 :=
  let track := b.trackLength
  if b.span = 0 ∨ track ≤ 0 then if 0 < track then track else 0
  else if b.span ≤ b.pageSize.toInt64.toUInt64 then track
  else
    holdLength 16 track <|
      guiMulDivU32 (track.toInt64.toUInt64 * b.pageSize.toInt64.toUInt64) b.span.toUInt32

/-- `MaxValue`. -/
def maxValueOf (b : ScrollBar) : Int32 :=
  let m := b.maxValue.toInt64 - b.pageSize.toInt64
  if m < b.minValue.toInt64 then b.minValue else m.toInt32

/-- `ValueRange`. -/
def valueRange (b : ScrollBar) : Int32 :=
  let r := b.maxValueOf.toInt64 - b.minValue.toInt64
  if r < 1 then 1 else if 2147483647 < r then 2147483647 else r.toInt32

/-- The offset of the value from the start of the range, as `ThumbPos` takes it. -/
def valueOffset (b : ScrollBar) : Int64 :=
  let offset := b.value.toInt64 - b.minValue.toInt64
  if offset < 0 then 0 else offset

/-- `ThumbPos`. -/
def thumbPos (b : ScrollBar) : Int32 :=
  let track := b.trackLength
  let thumb := b.thumbLength
  if track ≤ thumb then 0
  else
    (guiMulDivU32 (b.valueOffset.toUInt64 * (track - thumb).toInt64.toUInt64)
      b.valueRange.toUInt32).toInt32

/-! ## Operations -/

/-- `SetValue`. The callback and the event go out exactly where the value changes. -/
def setValue (b : ScrollBar) (v : Int32) : ScrollBar :=
  let v := if v < b.minValue then b.minValue else v
  let v := if b.maxValueOf < v then b.maxValueOf else v
  if v = b.value then b else { b with value := v }

/-- `SetRange`. -/
def setRange (b : ScrollBar) (min max page : Int32) : ScrollBar :=
  let b := { b with
    minValue := min
    maxValue := if max < min then min else max
    pageSize := if page < 1 then 1 else page }
  b.setValue b.value

/-- A 64-bit value held to the range, then set: the end of `OnMouseMove` and of `OnMouseWheel`. -/
def setClamped (b : ScrollBar) (next : Int64) : ScrollBar :=
  let next := if next < b.minValue.toInt64 then b.minValue.toInt64 else next
  let next := if b.maxValueOf.toInt64 < next then b.maxValueOf.toInt64 else next
  b.setValue next.toInt32

/-- The pointer along the bar, from its origin. -/
def localPos (b : ScrollBar) (x y : Int32) : Int32 := if b.vertical then y - b.y else x - b.x

/-- `OnMouseDown`, from the place of the press on. -/
def press (b : ScrollBar) (pos : Int32) : ScrollBar :=
  let thumb := b.thumbLength
  let thumbPos := b.thumbPos
  if thumbPos ≤ pos ∧ pos < thumbPos + thumb then
    { b with dragging := true, dragStart := pos, dragValue := b.value, mouseCaptured := true }
  else if pos < thumbPos then
    let next := b.value.toInt64 - b.pageSize.toInt64
    b.setValue (if next < b.minValue.toInt64 then b.minValue else next.toInt32)
  else
    let next := b.value.toInt64 + b.pageSize.toInt64
    b.setValue (if b.maxValueOf.toInt64 < next then b.maxValueOf else next.toInt32)

/-- `OnMouseDown`. -/
def onMouseDown (b : ScrollBar) (x y : Int32) (button : UInt8) : ScrollBar :=
  if !b.enabled || !b.isVisible then b
  else if button ≠ 1 then b
  else b.press (b.localPos x y)

/-- `OnMouseMove`, from the place of the pointer on. -/
def dragTo (b : ScrollBar) (pos : Int32) : ScrollBar :=
  let usable := b.trackLength - b.thumbLength
  let scaled := guiMulDivSigned (heldDelta pos b.dragStart usable).toInt32 b.valueRange usable
  b.setClamped (b.dragValue.toInt64 + scaled.toInt64)

/-- `OnMouseMove`. -/
def onMouseMove (b : ScrollBar) (newx newy : Int32) : ScrollBar :=
  if !b.dragging || !b.enabled || !b.isVisible then b
  else if b.trackLength - b.thumbLength ≤ 0 then b
  else b.dragTo (b.localPos newx newy)

/-- `OnMouseUp`. -/
def onMouseUp (b : ScrollBar) : ScrollBar := { b with dragging := false, mouseCaptured := false }

/-- `OnMouseWheel`. -/
def onMouseWheel (b : ScrollBar) (delta : Int32) : ScrollBar :=
  if !b.enabled || !b.isVisible then b else b.setClamped (b.value.toInt64 - delta.toInt64)

/-- What is done to a bar: its own entry points, and the places that move, size, hide or disable any
widget. -/
inductive Op
  | setRange (min max page : Int32)
  | setValue (v : Int32)
  | wheel (delta : Int32)
  | down (x y : Int32) (button : UInt8)
  | move (newx newy : Int32)
  | up
  | place (x y w h : Int32)
  | gate (enabled isVisible : Bool)

def step (b : ScrollBar) : Op → ScrollBar
  | .setRange min max page => b.setRange min max page
  | .setValue v => b.setValue v
  | .wheel delta => b.onMouseWheel delta
  | .down x y button => b.onMouseDown x y button
  | .move newx newy => b.onMouseMove newx newy
  | .up => b.onMouseUp
  | .place x y w h => { b with x, y, w, h }
  | .gate enabled isVisible => { b with enabled, isVisible }

/-! ## The value -/

/-- The value is in the range that the bar gives it. -/
def InRange (b : ScrollBar) : Prop := b.minValue ≤ b.value ∧ b.value ≤ b.maxValueOf

instance (b : ScrollBar) : Decidable b.InRange := inferInstanceAs (Decidable (_ ∧ _))

/-- What every operation keeps. -/
structure Sound (b : ScrollBar) : Prop where
  ordered : b.minValue.toInt ≤ b.maxValue.toInt
  page : 1 ≤ b.pageSize.toInt
  inRange : b.InRange

theorem toInt_maxValueOf {b : ScrollBar} (hpage : 1 ≤ b.pageSize.toInt) :
    b.maxValueOf.toInt = max b.minValue.toInt (b.maxValue.toInt - b.pageSize.toInt) := by
  have hmax := fits32_toInt b.maxValue
  have hmin := fits32_toInt b.minValue
  have hsub := toInt_sub64 b.maxValue b.pageSize
  rw [Fits32] at hmax hmin
  rw [maxValueOf]
  split
  next h =>
    rw [Int64.lt_iff_toInt_lt, hsub, Int32.toInt_toInt64] at h
    omega
  next h =>
    rw [Int64.lt_iff_toInt_lt, hsub, Int32.toInt_toInt64] at h
    rw [toInt_narrow (by rw [Fits32]; omega), hsub]
    omega

theorem minValue_le_maxValueOf {b : ScrollBar} (hpage : 1 ≤ b.pageSize.toInt) :
    b.minValue.toInt ≤ b.maxValueOf.toInt := by
  rw [toInt_maxValueOf hpage]
  omega

/-- The value that `SetValue` leaves. -/
theorem toInt_setValue_value {b : ScrollBar} (hle : b.minValue.toInt ≤ b.maxValueOf.toInt)
    (v : Int32) :
    (b.setValue v).value.toInt = min (max v.toInt b.minValue.toInt) b.maxValueOf.toInt := by
  rw [setValue]
  simp only [Int32.lt_iff_toInt_lt]
  grind

theorem setValue_eq (b : ScrollBar) (v : Int32) :
    b.setValue v = { b with value := (b.setValue v).value } := by
  rw [setValue]
  split
  all_goals
    split
    all_goals
      split
      · rfl
      · rfl

theorem maxValueOf_moved (b : ScrollBar) (value : Int32) :
    maxValueOf { b with value } = b.maxValueOf := by
  unfold maxValueOf
  rfl

theorem sound_setValue {b : ScrollBar} (hord : b.minValue.toInt ≤ b.maxValue.toInt)
    (hpage : 1 ≤ b.pageSize.toInt) (v : Int32) : (b.setValue v).Sound := by
  have hle := minValue_le_maxValueOf hpage
  have hv := toInt_setValue_value hle v
  rw [setValue_eq]
  refine ⟨hord, hpage, ?_, ?_⟩
  · rw [Int32.le_iff_toInt_le]
    dsimp only
    omega
  · rw [Int32.le_iff_toInt_le, maxValueOf_moved]
    dsimp only
    omega

theorem sound_setRange (b : ScrollBar) (min max page : Int32) :
    (b.setRange min max page).Sound := by
  apply sound_setValue
  · show min.toInt ≤ (if max < min then min else max).toInt
    split
    next h => exact Int.le_refl _
    next h => simpa [Int32.lt_iff_toInt_lt] using h
  · show 1 ≤ (if page < 1 then 1 else page).toInt
    split
    next h => decide
    next h => simpa [Int32.lt_iff_toInt_lt] using h

theorem sound_new (x y w h : Int32) (vertical : Bool) : (new x y w h vertical).Sound :=
  ⟨(by decide : (0 : Int32).toInt ≤ (100 : Int32).toInt), (by decide : 1 ≤ (10 : Int32).toInt),
    (by decide +kernel : (new 0 0 0 0 false).InRange)⟩

theorem Sound.press {b : ScrollBar} (hb : b.Sound) (pos : Int32) : (b.press pos).Sound := by
  rw [ScrollBar.press]
  dsimp only
  split
  · exact ⟨hb.ordered, hb.page, hb.inRange⟩
  · split
    · exact sound_setValue hb.ordered hb.page _
    · exact sound_setValue hb.ordered hb.page _

/-- Each operation keeps the value in the range, whatever it is given. -/
theorem Sound.step {b : ScrollBar} (hb : b.Sound) (op : Op) : (b.step op).Sound := by
  cases op with
  | setRange min max page => exact sound_setRange b min max page
  | setValue v => exact sound_setValue hb.ordered hb.page v
  | wheel delta =>
    show (b.onMouseWheel delta).Sound
    rw [onMouseWheel]
    split
    · exact hb
    · exact sound_setValue hb.ordered hb.page _
  | down x y button =>
    show (b.onMouseDown x y button).Sound
    rw [onMouseDown]
    split
    · exact hb
    · split
      · exact hb
      · exact hb.press _
  | move newx newy =>
    show (b.onMouseMove newx newy).Sound
    rw [onMouseMove]
    split
    · exact hb
    · split
      · exact hb
      · exact sound_setValue hb.ordered hb.page _
  | up => exact ⟨hb.ordered, hb.page, hb.inRange⟩
  | place x y w h => exact ⟨hb.ordered, hb.page, hb.inRange⟩
  | gate enabled isVisible => exact ⟨hb.ordered, hb.page, hb.inRange⟩

theorem sound_run {b : ScrollBar} (hb : b.Sound) (ops : List Op) : (run step b ops).Sound :=
  run_inv (Q := fun _ _ => True) (fun _ op h _ => h.step op) hb (along_true step b ops)

/-! ## The geometry over the integers -/

/-- The distance between the extremes of the value. -/
def reach (b : ScrollBar) : Int := b.maxValueOf.toInt - b.minValue.toInt

/-- What the thumb can move by. -/
def travel (b : ScrollBar) : Int := b.trackLength.toInt - b.thumbLength.toInt

theorem toInt_valueRange {b : ScrollBar} :
    b.valueRange.toInt = max 1 (min b.reach 2147483647) := by
  have hsub := toInt_sub64 b.maxValueOf b.minValue
  rw [valueRange]
  simp only [Int64.lt_iff_toInt_lt, hsub]
  rw [reach]
  split
  next h =>
    have h1 : b.maxValueOf.toInt - b.minValue.toInt < 1 := h
    have h2 : (1 : Int32).toInt = 1 := by decide
    omega
  next h =>
    have h1 : ¬ b.maxValueOf.toInt - b.minValue.toInt < 1 := h
    split
    next h' =>
      have h2 : 2147483647 < b.maxValueOf.toInt - b.minValue.toInt := h'
      have h3 : (2147483647 : Int32).toInt = 2147483647 := by decide
      omega
    next h' =>
      have h2 : ¬ 2147483647 < b.maxValueOf.toInt - b.minValue.toInt := h'
      rw [toInt_narrow (by rw [Fits32]; omega), hsub]
      omega

theorem toNat_span {b : ScrollBar} (hord : b.minValue.toInt ≤ b.maxValue.toInt) :
    b.span.toNat = (b.maxValue.toInt - b.minValue.toInt).toNat := by
  have hsub := toInt_sub64 b.maxValue b.minValue
  have hu := toNat_toUInt64 (n := b.maxValue.toInt64 - b.minValue.toInt64) (by omega)
  rw [span]
  omega

/-- The share of the track that shows a page, held between 16 pixels and the track. -/
theorem toInt_thumbLength {b : ScrollBar} (hord : b.minValue.toInt ≤ b.maxValue.toInt)
    (hpage : 1 ≤ b.pageSize.toInt) :
    b.thumbLength.toInt =
      if b.trackLength.toInt ≤ 0 then 0
      else if b.maxValue.toInt - b.minValue.toInt ≤ b.pageSize.toInt then b.trackLength.toInt
      else min b.trackLength.toInt (max 16 (b.trackLength.toInt.toNat * b.pageSize.toInt.toNat /
        (b.maxValue.toInt - b.minValue.toInt).toNat : Nat)) := by
  have hspan := toNat_span hord
  have hmax := fits32_toInt b.maxValue
  have hmin := fits32_toInt b.minValue
  have ht := fits32_toInt b.trackLength
  rw [Fits32] at hmax hmin ht
  have hpn := toNat_widen (n := b.pageSize) (by omega)
  rw [thumbLength]
  simp only [Int32.le_iff_toInt_le, Int32.lt_iff_toInt_lt, UInt64.le_iff_toNat_le, hpn, hspan,
    ← UInt64.toNat_inj, Int32.toInt_zero, UInt64.toNat_zero]
  by_cases h : (b.maxValue.toInt - b.minValue.toInt).toNat = 0 ∨ b.trackLength.toInt ≤ 0
  · rw [if_pos h]
    by_cases hpos : 0 < b.trackLength.toInt
    · rw [if_pos hpos, if_neg (by omega), if_pos (by omega)]
    · rw [if_neg hpos, if_pos (by omega), Int32.toInt_zero]
  · rw [if_neg h, if_neg (show ¬ b.trackLength.toInt ≤ 0 by omega)]
    by_cases hle : b.maxValue.toInt - b.minValue.toInt ≤ b.pageSize.toInt
    · rw [if_pos (by omega), if_pos hle]
    · have htn := toNat_widen (n := b.trackLength) (by omega)
      have hden : b.span.toUInt32.toNat = (b.maxValue.toInt - b.minValue.toInt).toNat := by
        rw [UInt64.toNat_toUInt32, hspan]
        omega
      have hq : b.trackLength.toInt.toNat * b.pageSize.toInt.toNat /
          (b.maxValue.toInt - b.minValue.toInt).toNat ≤ b.trackLength.toInt.toNat := by
        rw [Nat.mul_comm]
        exact scale_le _ (by omega)
      have hlen := toNat_mulDiv (m := b.trackLength.toInt64.toUInt64)
        (n := b.pageSize.toInt64.toUInt64) (d := b.span.toUInt32) (by omega) (by omega)
        (by rw [htn, hpn, hden]; omega)
      rw [htn, hpn, hden] at hlen
      rw [if_neg (by omega), if_neg hle, toInt_holdLength _ (by omega), hlen]
      rfl

theorem thumbLength_bounds {b : ScrollBar} (hord : b.minValue.toInt ≤ b.maxValue.toInt)
    (hpage : 1 ≤ b.pageSize.toInt) :
    0 ≤ b.thumbLength.toInt ∧ (0 ≤ b.trackLength.toInt → 0 ≤ b.travel) := by
  have hlen := toInt_thumbLength hord hpage
  rw [travel]
  grind

theorem reach_eq {b : ScrollBar} (hpage : 1 ≤ b.pageSize.toInt) :
    b.reach = max 0 (b.maxValue.toInt - b.minValue.toInt - b.pageSize.toInt) := by
  rw [reach, toInt_maxValueOf hpage]
  omega

/-- There is something to move exactly where the track is longer than the least thumb and the range
longer than the page. -/
theorem travel_pos_iff {b : ScrollBar} (hord : b.minValue.toInt ≤ b.maxValue.toInt)
    (hpage : 1 ≤ b.pageSize.toInt) : 0 < b.travel ↔ 16 < b.trackLength.toInt ∧ 0 < b.reach := by
  have hlen := toInt_thumbLength hord hpage
  have hreach := reach_eq hpage
  rw [travel]
  constructor
  · intro hpos
    grind
  · rintro ⟨htrack, hr⟩
    have hlt : b.trackLength.toInt.toNat * b.pageSize.toInt.toNat /
        (b.maxValue.toInt - b.minValue.toInt).toNat < b.trackLength.toInt.toNat := by
      apply Nat.div_lt_of_lt_mul
      rw [Nat.mul_comm]
      exact Nat.mul_lt_mul_of_pos_right (by omega) (by omega)
    rw [if_neg (by omega), if_neg (by omega)] at hlen
    omega

theorem toInt_travel {b : ScrollBar} (hlen : 0 ≤ b.thumbLength.toInt) (htr : 0 ≤ b.travel) :
    (b.trackLength - b.thumbLength).toInt = b.travel := by
  have ht := b.trackLength.toInt_lt
  rw [travel] at *
  exact toInt_sub_eq (by omega) (by omega)

theorem toNat_valueOffset {b : ScrollBar} (hlow : b.minValue.toInt ≤ b.value.toInt) :
    b.valueOffset.toUInt64.toNat = (b.value.toInt - b.minValue.toInt).toNat := by
  have hsub := toInt_sub64 b.value b.minValue
  have hnn : ¬ b.value.toInt64 - b.minValue.toInt64 < 0 := by
    rw [Int64.lt_iff_toInt_lt, hsub, Int64.toInt_zero]
    omega
  have hu := toNat_toUInt64 (n := b.value.toInt64 - b.minValue.toInt64) (by omega)
  rw [valueOffset, if_neg hnn]
  omega

/-- What `ThumbPos` divides out, before the result is cut to a word. -/
def exactPos (b : ScrollBar) : Nat :=
  (b.value.toInt - b.minValue.toInt).toNat * b.travel.toNat / b.valueRange.toInt.toNat

theorem thumbPos_of_no_travel {b : ScrollBar} (htr : b.travel ≤ 0) : b.thumbPos = 0 := by
  rw [thumbPos, if_pos]
  rw [Int32.le_iff_toInt_le]
  rw [travel] at htr
  omega

theorem toInt_thumbPos {b : ScrollBar} (hb : b.Sound) (htr : 0 < b.travel)
    (hfit : b.exactPos < 2 ^ 31) : b.thumbPos.toInt = b.exactPos := by
  obtain ⟨hlow, hhigh⟩ := hb.inRange
  rw [Int32.le_iff_toInt_le] at hlow hhigh
  have hlen := thumbLength_bounds hb.ordered hb.page
  have hsub := toInt_travel hlen.1 (by omega)
  have hoff := toNat_valueOffset hlow
  have hrange := toInt_valueRange (b := b)
  have hval := fits32_toInt b.value
  have hmin := fits32_toInt b.minValue
  have ht := (b.trackLength - b.thumbLength).toInt_lt
  rw [Fits32] at hval hmin
  have htn := toNat_widen (n := b.trackLength - b.thumbLength) (by omega)
  have hru := toNat_unsigned (n := b.valueRange) (by omega)
  have hpos : (guiMulDivU32 (b.valueOffset.toUInt64 *
      (b.trackLength - b.thumbLength).toInt64.toUInt64) b.valueRange.toUInt32).toNat =
      b.exactPos := by
    have hq : (b.value.toInt - b.minValue.toInt).toNat * b.travel.toNat /
        b.valueRange.toInt.toNat < 2 ^ 31 := hfit
    rw [toNat_mulDiv (by omega) (by omega) (by rw [hoff, htn, hru, hsub]; omega), hoff, htn, hru,
      hsub]
    rfl
  rw [thumbPos, if_neg (by rw [Int32.le_iff_toInt_le]; rw [travel] at htr; omega),
    toInt_toInt32 (by omega), hpos]

/-! ## Drags -/

/-- The bar with another value. -/
def withValue (b : ScrollBar) (v : Int32) : ScrollBar := { b with value := v }

/-- A place along the bar that is on its thumb. -/
def OnThumb (b : ScrollBar) (pos : Int32) : Prop :=
  b.thumbPos.toInt ≤ pos.toInt ∧ pos.toInt < b.thumbPos.toInt + b.thumbLength.toInt

/-- The value at the end of a drag: pressed at `pos`, moved along `through` and last to `pos'`. -/
def dragged (b : ScrollBar) (pos : Int32) (through : List Int32) (pos' : Int32) : Int32 :=
  ((through.foldl dragTo (b.press pos)).dragTo pos').value

theorem toInt_setClamped {b : ScrollBar} (hle : b.minValue.toInt ≤ b.maxValueOf.toInt)
    (next : Int64) :
    (b.setClamped next).value.toInt =
      min (max next.toInt b.minValue.toInt) b.maxValueOf.toInt := by
  have hmax := fits32_toInt b.maxValueOf
  have hmin := fits32_toInt b.minValue
  rw [Fits32] at hmax hmin
  have hlow := toInt_ite_max next b.minValue.toInt64
  rw [Int32.toInt_toInt64] at hlow
  have hclamp := toInt_ite_min b.maxValueOf.toInt64
    (if next < b.minValue.toInt64 then b.minValue.toInt64 else next)
  rw [Int32.toInt_toInt64, hlow] at hclamp
  rw [setClamped, toInt_setValue_value hle, toInt_narrow (by rw [Fits32]; omega), hclamp]
  omega

theorem toInt_dragTo {b : ScrollBar} (hb : b.Sound) (htr : 0 < b.travel) (pos : Int32) :
    (b.dragTo pos).value.toInt =
      min (max (b.dragValue.toInt +
        (max (min (pos.toInt - b.dragStart.toInt) b.travel) (-b.travel) *
          b.valueRange.toInt).tdiv b.travel) b.minValue.toInt) b.maxValueOf.toInt := by
  have hlen := thumbLength_bounds hb.ordered hb.page
  have hle := minValue_le_maxValueOf hb.page
  have hus := toInt_travel hlen.1 (by omega)
  have hrange := toInt_valueRange (b := b)
  have hscaled := toInt_scaledDelta pos b.dragStart
    (b.trackLength - b.thumbLength) (by omega) b.valueRange (by omega)
  rw [hus] at hscaled
  have hadd := toInt_add64 b.dragValue
    (guiMulDivSigned (heldDelta pos b.dragStart (b.trackLength - b.thumbLength)).toInt32
      b.valueRange (b.trackLength - b.thumbLength))
  rw [dragTo, toInt_setClamped hle, hadd, hscaled]

/-- A drag changes nothing but the value. -/
theorem dragTo_eq (b : ScrollBar) (pos : Int32) : ∃ v, b.dragTo pos = b.withValue v := by
  rw [dragTo, setClamped, setValue_eq]
  exact ⟨_, rfl⟩

theorem foldl_dragTo_eq (b : ScrollBar) (through : List Int32) :
    ∃ v, through.foldl dragTo b = b.withValue v := by
  induction through generalizing b with
  | nil => exact ⟨b.value, rfl⟩
  | cons pos through ih =>
    obtain ⟨v, hv⟩ := b.dragTo_eq pos
    rw [List.foldl_cons, hv]
    exact ih (b.withValue v)

theorem press_onThumb {b : ScrollBar} {pos : Int32} (hon : b.OnThumb pos)
    (hfit : b.thumbPos.toInt + b.thumbLength.toInt < 2 ^ 31) :
    b.press pos =
      { b with dragging := true, dragStart := pos, dragValue := b.value, mouseCaptured := true } := by
  obtain ⟨hge, hlt⟩ := hon
  have hpos := pos.le_toInt
  have hadd := toInt_add_eq (m := b.thumbPos) (n := b.thumbLength) (by omega) hfit
  rw [press, if_pos]
  rw [Int32.le_iff_toInt_le, Int32.lt_iff_toInt_lt, hadd]
  exact ⟨hge, hlt⟩

/-- The value at the end of a drag is that of its start and of how far it went, whatever lies
between. -/
theorem toInt_dragged {b : ScrollBar} (hb : b.Sound) (htr : 0 < b.travel) {pos : Int32}
    (hon : b.OnThumb pos) (hfit : b.thumbPos.toInt + b.thumbLength.toInt < 2 ^ 31)
    (through : List Int32) (pos' : Int32) :
    (b.dragged pos through pos').toInt =
      min (max (b.value.toInt +
        (max (min (pos'.toInt - pos.toInt) b.travel) (-b.travel) *
          b.valueRange.toInt).tdiv b.travel) b.minValue.toInt) b.maxValueOf.toInt := by
  have hpress := press_onThumb hon hfit
  have hs : (b.press pos).Sound := hb.press pos
  have hstep : ∀ (c : ScrollBar) (p : Int32), c.Sound → True → (c.dragTo p).Sound :=
    fun c p hc _ => sound_setValue hc.ordered hc.page _
  have hsound : (through.foldl dragTo (b.press pos)).Sound := by
    clear hpress
    generalize b.press pos = c at hs
    induction through generalizing c with
    | nil => exact hs
    | cons p through ih => exact ih _ (hstep c p hs trivial)
  obtain ⟨v, hv⟩ := foldl_dragTo_eq (b.press pos) through
  rw [dragged, toInt_dragTo hsound (by rw [hv, hpress]; exact htr), hv, hpress]
  rfl

/-! ## Proportion -/

/-- The range between the extremes fits in an `int32_t`, or there is nothing to move. -/
def Fits (b : ScrollBar) : Prop :=
  0 ≤ b.trackLength.toInt ∧ (b.trackLength.toInt ≤ 16 ∨ b.reach < 2 ^ 31)

/-- The thumb shows the value, and a drag over the whole travel goes from one extreme to the
other. -/
structure Proportional (b : ScrollBar) : Prop where
  /-- The thumb is on the track. -/
  inside : ∀ v, (b.withValue v).InRange → 0 ≤ (b.withValue v).thumbPos.toInt ∧
    (b.withValue v).thumbPos.toInt + b.thumbLength.toInt ≤ b.trackLength.toInt
  mono : ∀ v v', (b.withValue v).InRange → (b.withValue v').InRange → v ≤ v' →
    (b.withValue v).thumbPos ≤ (b.withValue v').thumbPos
  first : (b.withValue b.minValue).thumbPos = 0
  last : b.minValue ≠ b.maxValueOf → (b.withValue b.maxValueOf).thumbPos.toInt = b.travel
  /-- `ThumbPos` cuts nothing off. -/
  narrow : 0 < b.travel → ∀ v, (b.withValue v).InRange → (b.withValue v).exactPos < 2 ^ 31
  down : 0 < b.travel → ∀ pos through pos', (b.withValue b.minValue).OnThumb pos →
    pos'.toInt = pos.toInt + b.travel →
    (b.withValue b.minValue).dragged pos through pos' = b.maxValueOf
  up : 0 < b.travel → ∀ pos through pos', (b.withValue b.maxValueOf).OnThumb pos →
    pos'.toInt = pos.toInt - b.travel →
    (b.withValue b.maxValueOf).dragged pos through pos' = b.minValue

variable {b : ScrollBar}

theorem Sound.withValue (hb : b.Sound) {v : Int32} (hv : (b.withValue v).InRange) :
    (b.withValue v).Sound := ⟨hb.ordered, hb.page, hv⟩

theorem inRange_minValue (hb : b.Sound) : (b.withValue b.minValue).InRange := by
  constructor
  · exact Int32.le_refl _
  · rw [Int32.le_iff_toInt_le]
    exact minValue_le_maxValueOf hb.page

theorem inRange_maxValueOf (hb : b.Sound) : (b.withValue b.maxValueOf).InRange := by
  constructor
  · rw [Int32.le_iff_toInt_le]
    exact minValue_le_maxValueOf hb.page
  · exact Int32.le_refl _

/-- A value in the range puts the thumb in the travel. -/
theorem exactPos_le (hb : b.Sound) (htr : 0 < b.travel) (hfit : b.reach < 2 ^ 31) {v : Int32}
    (hv : (b.withValue v).InRange) : ((b.withValue v).exactPos : Int) ≤ b.travel := by
  obtain ⟨hlow, hhigh⟩ := hv
  rw [Int32.le_iff_toInt_le] at hlow hhigh
  have hhigh' : v.toInt ≤ b.maxValueOf.toInt := hhigh
  have hpos := (travel_pos_iff hb.ordered hb.page).mp htr
  have hrange : b.valueRange.toInt = b.reach := by
    rw [toInt_valueRange]
    omega
  have hle : (v.toInt - b.minValue.toInt).toNat * b.travel.toNat / b.valueRange.toInt.toNat ≤
      b.travel.toNat := by
    apply scale_le
    rw [hrange, reach]
    omega
  have heq : (b.withValue v).exactPos =
      (v.toInt - b.minValue.toInt).toNat * b.travel.toNat / b.valueRange.toInt.toNat := rfl
  omega

theorem exactPos_lt (hb : b.Sound) (htr : 0 < b.travel) (hfit : b.reach < 2 ^ 31) {v : Int32}
    (hv : (b.withValue v).InRange) : (b.withValue v).exactPos < 2 ^ 31 := by
  have hle := exactPos_le hb htr hfit hv
  have hlen := thumbLength_bounds hb.ordered hb.page
  have ht := b.trackLength.toInt_lt
  rw [travel] at hle
  omega

theorem toInt_thumbPos_withValue (hb : b.Sound) (htr : 0 < b.travel) (hfit : b.reach < 2 ^ 31)
    {v : Int32} (hv : (b.withValue v).InRange) :
    (b.withValue v).thumbPos.toInt =
      ((v.toInt - b.minValue.toInt).toNat * b.travel.toNat / b.reach.toNat : Nat) := by
  have hpos := (travel_pos_iff hb.ordered hb.page).mp htr
  have hrange : b.valueRange.toInt = b.reach := by
    rw [toInt_valueRange]
    omega
  rw [toInt_thumbPos (hb.withValue hv) htr (exactPos_lt hb htr hfit hv), ← hrange]
  rfl

theorem thumbPos_minValue (hb : b.Sound) : (b.withValue b.minValue).thumbPos = 0 := by
  obtain htr | htr := Int.lt_or_le 0 b.travel
  · have hpos : (b.withValue b.minValue).exactPos = 0 := by
      rw [exactPos, show (b.withValue b.minValue).value = b.minValue from rfl,
        show (b.withValue b.minValue).minValue = b.minValue from rfl]
      simp
    apply Int32.toInt_inj.mp
    rw [toInt_thumbPos (hb.withValue (inRange_minValue hb)) htr (by omega), hpos]
    rfl
  · exact thumbPos_of_no_travel htr

theorem thumbPos_maxValueOf (hb : b.Sound) (htr : 0 < b.travel) (hfit : b.reach < 2 ^ 31) :
    (b.withValue b.maxValueOf).thumbPos.toInt = b.travel := by
  have hpos := (travel_pos_iff hb.ordered hb.page).mp htr
  rw [toInt_thumbPos_withValue hb htr hfit (inRange_maxValueOf hb)]
  have htop : b.reach.toNat * b.travel.toNat / b.reach.toNat = b.travel.toNat :=
    scale_top _ (by omega)
  rw [show b.maxValueOf.toInt - b.minValue.toInt = b.reach from rfl, htop]
  omega

theorem toInt_valueRange_of_reach (hpos : 0 < b.reach) (hfit : b.reach < 2 ^ 31) :
    b.valueRange.toInt = b.reach := by
  rw [toInt_valueRange]
  omega

/-- A drag of the thumb from the start by the whole travel adds the range that the bar divides by. -/
theorem toInt_dragged_down (hb : b.Sound) (htr : 0 < b.travel) {pos pos' : Int32}
    (hon : (b.withValue b.minValue).OnThumb pos) (hpos : pos'.toInt = pos.toInt + b.travel)
    (through : List Int32) :
    ((b.withValue b.minValue).dragged pos through pos').toInt =
      min (b.minValue.toInt + b.valueRange.toInt) b.maxValueOf.toInt := by
  have hmin := hb.withValue (inRange_minValue hb)
  have hfit : (b.withValue b.minValue).thumbPos.toInt +
      (b.withValue b.minValue).thumbLength.toInt < 2 ^ 31 := by
    rw [thumbPos_minValue hb, Int32.toInt_zero, Int.zero_add]
    exact Int32.toInt_lt _
  rw [toInt_dragged hmin htr hon hfit through pos', hpos,
    show pos.toInt + b.travel - pos.toInt = b.travel by omega]
  show min (max (b.minValue.toInt + (max (min b.travel b.travel) (-b.travel) *
    b.valueRange.toInt).tdiv b.travel) b.minValue.toInt) b.maxValueOf.toInt = _
  have hrange := toInt_valueRange (b := b)
  rw [show max (min b.travel b.travel) (-b.travel) = b.travel by omega,
    Int.mul_tdiv_cancel_left _ (by omega)]
  omega

theorem toInt_dragged_up (hb : b.Sound) (htr : 0 < b.travel) (hfit : b.reach < 2 ^ 31)
    {pos pos' : Int32} (hon : (b.withValue b.maxValueOf).OnThumb pos)
    (hpos : pos'.toInt = pos.toInt - b.travel) (through : List Int32) :
    ((b.withValue b.maxValueOf).dragged pos through pos').toInt = b.minValue.toInt := by
  have hmax := hb.withValue (inRange_maxValueOf hb)
  have hreach := ((travel_pos_iff hb.ordered hb.page).mp htr).2
  have hroom : (b.withValue b.maxValueOf).thumbPos.toInt +
      (b.withValue b.maxValueOf).thumbLength.toInt < 2 ^ 31 := by
    have hlt := b.trackLength.toInt_lt
    rw [thumbPos_maxValueOf hb htr hfit, travel,
      show (b.withValue b.maxValueOf).thumbLength = b.thumbLength from rfl]
    omega
  rw [toInt_dragged hmax htr hon hroom through pos', hpos,
    show pos.toInt - b.travel - pos.toInt = -b.travel by omega]
  show min (max (b.maxValueOf.toInt + (max (min (-b.travel) b.travel) (-b.travel) *
    b.valueRange.toInt).tdiv b.travel) b.minValue.toInt) b.maxValueOf.toInt = b.minValue.toInt
  rw [show max (min (-b.travel) b.travel) (-b.travel) = -b.travel by omega, Int.neg_mul,
    Int.neg_tdiv, Int.mul_tdiv_cancel_left _ (by omega), toInt_valueRange_of_reach hreach hfit,
    reach]
  have hle := minValue_le_maxValueOf hb.page
  omega

theorem Fits.reach_lt (hb : b.Sound) (hf : b.Fits) (htr : 0 < b.travel) : b.reach < 2 ^ 31 := by
  have h16 := ((travel_pos_iff hb.ordered hb.page).mp htr).1
  have hor := hf.2
  omega

theorem Fits.inside (hb : b.Sound) (hf : b.Fits) {v : Int32} (hv : (b.withValue v).InRange) :
    0 ≤ (b.withValue v).thumbPos.toInt ∧
      (b.withValue v).thumbPos.toInt + b.thumbLength.toInt ≤ b.trackLength.toInt := by
  obtain htr | htr := Int.lt_or_le 0 b.travel
  · have hreach := hf.reach_lt hb htr
    have hle := exactPos_le hb htr hreach hv
    have hpos := toInt_thumbPos (hb.withValue hv) htr (exactPos_lt hb htr hreach hv)
    rw [travel] at hle
    omega
  · have htrav := (thumbLength_bounds hb.ordered hb.page).2 hf.1
    rw [thumbPos_of_no_travel (b := b.withValue v) htr, Int32.toInt_zero]
    rw [travel] at htrav
    omega

theorem Fits.mono (hb : b.Sound) (hf : b.Fits) {v v' : Int32} (hv : (b.withValue v).InRange)
    (hv' : (b.withValue v').InRange) (hle : v ≤ v') :
    (b.withValue v).thumbPos ≤ (b.withValue v').thumbPos := by
  obtain htr | htr := Int.lt_or_le 0 b.travel
  · have hreach := hf.reach_lt hb htr
    rw [Int32.le_iff_toInt_le] at hle ⊢
    rw [toInt_thumbPos_withValue hb htr hreach hv, toInt_thumbPos_withValue hb htr hreach hv']
    have hmono := scale_mono (o := (v.toInt - b.minValue.toInt).toNat)
      (p := (v'.toInt - b.minValue.toInt).toNat) b.travel.toNat b.reach.toNat (by omega)
    omega
  · rw [thumbPos_of_no_travel (b := b.withValue v) htr,
      thumbPos_of_no_travel (b := b.withValue v') htr]
    exact Int32.le_refl _

theorem Fits.proportional (hb : b.Sound) (hf : b.Fits) : b.Proportional := by
  constructor
  case inside => exact fun v hv => hf.inside hb hv
  case mono => exact fun v v' hv hv' hle => hf.mono hb hv hv' hle
  case first => exact thumbPos_minValue hb
  case last =>
    intro _
    obtain htr | htr := Int.lt_or_le 0 b.travel
    · exact thumbPos_maxValueOf hb htr (hf.reach_lt hb htr)
    · have htrav := (thumbLength_bounds hb.ordered hb.page).2 hf.1
      rw [thumbPos_of_no_travel (b := b.withValue b.maxValueOf) htr, Int32.toInt_zero]
      omega
  case narrow =>
    intro htr v hv
    exact exactPos_lt hb htr (hf.reach_lt hb htr) hv
  case down =>
    intro htr pos through pos' hon hpos'
    have hreach := ((travel_pos_iff hb.ordered hb.page).mp htr).2
    apply Int32.toInt_inj.mp
    rw [toInt_dragged_down hb htr hon hpos' through,
      toInt_valueRange_of_reach hreach (hf.reach_lt hb htr), reach]
    omega
  case up =>
    intro htr pos through pos' hon hpos'
    apply Int32.toInt_inj.mp
    exact toInt_dragged_up hb htr (hf.reach_lt hb htr) hon hpos' through

/-- Past `2 ^ 31` a drag over the whole travel stops short. -/
theorem Proportional.fits (hb : b.Sound) (hp : b.Proportional) : b.Fits := by
  have hlen := thumbLength_bounds hb.ordered hb.page
  have hin := hp.inside b.minValue (inRange_minValue hb)
  refine ⟨by omega, ?_⟩
  obtain h16 | h16 := Int.lt_or_le 16 b.trackLength.toInt
  · right
    apply Int.lt_of_not_ge
    intro hbig
    have htr : 0 < b.travel := (travel_pos_iff hb.ordered hb.page).mpr ⟨h16, by omega⟩
    have hthumb := toInt_thumbLength hb.ordered hb.page
    have hpos' : (Int32.ofInt b.travel).toInt = b.travel := by
      have htlt := b.trackLength.toInt_lt
      rw [travel] at htr ⊢
      exact Int32.toInt_ofInt_of_le (by omega) (by omega)
    have hon : (b.withValue b.minValue).OnThumb 0 := by
      constructor
      · rw [thumbPos_minValue hb]
      · rw [thumbPos_minValue hb, Int32.toInt_zero, Int.zero_add]
        show 0 < b.thumbLength.toInt
        grind
    have hfar : (Int32.ofInt b.travel).toInt = (0 : Int32).toInt + b.travel := by
      rw [hpos', Int32.toInt_zero, Int.zero_add]
    have hval := toInt_dragged_down hb htr hon hfar []
    rw [hp.down htr 0 [] _ hon hfar, toInt_valueRange] at hval
    rw [reach] at hbig hval
    omega
  · left
    exact h16

theorem proportional_iff (hb : b.Sound) : b.Proportional ↔ b.Fits :=
  ⟨fun hp => hp.fits hb, fun hf => hf.proportional hb⟩

/-! ## The arithmetic of a step -/

/-- The place of the pointer along the bar, before it is cut to a word. -/
def exactLocal (b : ScrollBar) (x y : Int32) : Int :=
  if b.vertical then y.toInt - b.y.toInt else x.toInt - b.x.toInt

/-- A press gets to the thumb; a move gets to the drag. -/
def Reaches (b : ScrollBar) : Op → Prop
  | .down _ _ button => b.enabled ∧ b.isVisible ∧ button = 1
  | .move _ _ => b.dragging ∧ b.enabled ∧ b.isVisible
  | _ => True

/-- No 32-bit operation of the step leaves its type, and no quotient is cut off. -/
def Quiet (b : ScrollBar) : Op → Prop
  | .down x y button => b.Reaches (.down x y button) →
    Fits32 (b.exactLocal x y) ∧ Fits32 (b.thumbPos.toInt + b.thumbLength.toInt)
  | .move newx newy => b.Reaches (.move newx newy) →
    Fits32 b.travel ∧ (0 < b.travel → Fits32 (b.exactLocal newx newy) ∧
      (heldDelta (b.localPos newx newy) b.dragStart (b.trackLength - b.thumbLength)).toInt.natAbs *
        b.valueRange.toInt.natAbs / b.travel.toNat < 2 ^ 31)
  | _ => True

/-- The pointer is less than `2 ^ 31` from the origin of the bar, where the bar asks for it. -/
def PointerNear (b : ScrollBar) : Op → Prop
  | .down x y button => b.Reaches (.down x y button) → Fits32 (b.exactLocal x y)
  | .move newx newy => b.Reaches (.move newx newy) → 0 < b.travel →
    Fits32 (b.exactLocal newx newy)
  | _ => True

theorem Fits.fits32_travel (hb : b.Sound) (hf : b.Fits) : Fits32 b.travel := by
  have hlen := thumbLength_bounds hb.ordered hb.page
  have htrav := hlen.2 hf.1
  have hlt := b.trackLength.toInt_lt
  rw [Fits32]
  rw [travel] at htrav ⊢
  omega

theorem scaled_lt (hb : b.Sound) (htr : 0 < b.travel) (pos : Int32) :
    (heldDelta pos b.dragStart (b.trackLength - b.thumbLength)).toInt.natAbs *
      b.valueRange.toInt.natAbs / b.travel.toNat < 2 ^ 31 := by
  have hlen := thumbLength_bounds hb.ordered hb.page
  have hus := toInt_travel hlen.1 (by omega)
  have hrange := toInt_valueRange (b := b)
  have hlt := scaledDelta_lt pos b.dragStart (b.trackLength - b.thumbLength) (by omega)
    b.valueRange (by omega)
  rwa [hus] at hlt

/-- In a bar that is proportional only the pointer can take a step out of its type. -/
theorem Fits.quiet_iff (hb : b.Sound) (hf : b.Fits) (op : Op) : b.Quiet op ↔ b.PointerNear op := by
  cases op with
  | down x y button =>
    have hin := hf.inside hb (v := b.value) hb.inRange
    have hthumb : Fits32 (b.thumbPos.toInt + b.thumbLength.toInt) := by
      have hlen := thumbLength_bounds hb.ordered hb.page
      have hlt := b.trackLength.toInt_lt
      rw [show b.withValue b.value = b from rfl] at hin
      rw [Fits32]
      omega
    exact ⟨fun h hr => (h hr).1, fun h hr => ⟨h hr, hthumb⟩⟩
  | move newx newy =>
    constructor
    · intro h hr htr
      exact ((h hr).2 htr).1
    · intro h hr
      exact ⟨hf.fits32_travel hb, fun htr => ⟨h hr htr, scaled_lt hb htr _⟩⟩
  | setRange | setValue | wheel | up | place | gate => exact Iff.rfl

/-! ## Every run -/

/-- A bar keeps its value in its range through every run; it is proportional, and the next step does
not overflow, exactly where the range fits and the pointer is near. -/
theorem proportional_quiet_iff (x y w h : Int32) (vertical : Bool) (ops : List Op) (op : Op) :
    let b := run step (new x y w h vertical) ops
    b.InRange ∧ (b.Proportional ∧ b.Quiet op ↔ b.Fits ∧ b.PointerNear op) := by
  have hb := sound_run (sound_new x y w h vertical) ops
  refine ⟨hb.inRange, ?_⟩
  rw [proportional_iff hb]
  exact and_congr_right fun hf => hf.quiet_iff hb op

/-- With the full range of an `int32_t` the thumb ends past the track, and a drag over the travel
stops in the middle. -/
theorem not_proportional_full_range :
    let wide := run step (new 0 0 20 100 true) [.setRange Int32.minValue Int32.maxValue 1]
    ¬ wide.Proportional ∧
      (wide.step (.setValue Int32.maxValue)).thumbPos = 168 ∧ wide.trackLength = 100 ∧
      (run step wide [.down 5 5 1, .move 5 89]).value = -1 ∧
      wide.maxValueOf = Int32.maxValue - 1 := by
  refine ⟨?_, by decide +kernel, by decide +kernel, by decide +kernel, by decide +kernel⟩
  intro hp
  have hlast := hp.last (by decide +kernel)
  revert hlast
  decide +kernel

end ScrollBar
end Hashx86
