import Hashx86.Gui.MathUtil
import Hashx86.Lib.Run

/-!
# The slider (`gui/slider.cpp`)

* `Sound`: the range is ordered and the value in it; every operation keeps it (`Sound.step`).
* `toInt_thumbX`, `toInt_valueForThumbX`: the two scalings over the integers.
* `value_dragBack`: a press on the thumb and a way back to the same `x` leave the value of the thumb.
* `Steady`: `ValueForThumbX` is monotone, has both ends and is undone by `ThumbX`; `steady_iff`:
  exactly where the thumb of the value is on a whole pixel.
-/

namespace Hashx86

open Lib

structure Slider where
  x : Int32
  y : Int32
  w : Int32
  h : Int32
  enabled : Bool
  isVisible : Bool
  minValue : Int32
  maxValue : Int32
  value : Int32
  dragging : Bool
  dragOffset : Int32
  mouseCaptured : Bool

namespace Slider

def thumbSize : Int32 := 12

/-- `Slider::Slider`. -/
def new (x y w h : Int32) : Slider :=
  { x, y, w, h, enabled := true, isVisible := true, minValue := 0, maxValue := 100, value := 0,
    dragging := false, dragOffset := thumbSize / 2, mouseCaptured := false }

/-! ## Value and pixel -/

/-- `UsableWidth`. -/
def usableWidth (s : Slider) : Int32 :=
  let usable := s.w - thumbSize
  if 0 < usable then usable else 0

/-- `(int64_t)maxValue - minValue`. -/
def span (s : Slider) : UInt64 := (s.maxValue.toInt64 - s.minValue.toInt64).toUInt64

/-- `ThumbX`. -/
def thumbX (s : Slider) : Int32 :=
  let span := s.span.toUInt32
  let usable := s.usableWidth
  if span = 0 ∨ usable ≤ 0 then 0
  else
    let offset := (s.value.toInt64 - s.minValue.toInt64).toUInt64
    let pos := guiMulDivU32 (offset * usable.toInt64.toUInt64) span
    if usable.toUInt32 < pos then usable else pos.toInt32

/-- A place of the thumb, held to the usable width. -/
def heldX (s : Slider) (thumbX : Int32) : Int32 :=
  let thumbX := if thumbX < 0 then 0 else thumbX
  if s.usableWidth < thumbX then s.usableWidth else thumbX

/-- `ValueForThumbX`. -/
def valueForThumbX (s : Slider) (thumbX : Int32) : Int32 :=
  let usable := s.usableWidth
  if s.span = 0 ∨ usable ≤ 0 then s.minValue
  else
    let offset := guiMulDivU32 ((s.heldX thumbX).toInt64.toUInt64 * s.span) usable.toUInt32
    let result := s.minValue.toInt64 + offset.toUInt64.toInt64
    if s.maxValue.toInt64 < result then s.maxValue else result.toInt32

/-! ## Operations -/

/-- `SetValue`. The event goes out exactly where the value changes. -/
def setValue (s : Slider) (v : Int32) : Slider :=
  let v := if v < s.minValue then s.minValue else v
  let v := if s.maxValue < v then s.maxValue else v
  if v = s.value then s else { s with value := v }

/-- `SetRange`. -/
def setRange (s : Slider) (min max : Int32) : Slider :=
  let s := if max < min then { s with minValue := max, maxValue := min }
    else { s with minValue := min, maxValue := max }
  s.setValue s.value

/-- A place on the thumb, as the test of `OnMouseDown` has it. -/
def OnThumb (s : Slider) (localX : Int32) : Prop :=
  s.thumbX ≤ localX ∧ localX < s.thumbX + thumbSize

instance (s : Slider) (localX : Int32) : Decidable (s.OnThumb localX) :=
  inferInstanceAs (Decidable (_ ∧ _))

/-- `OnMouseDown`. -/
def onMouseDown (s : Slider) (x : Int32) (button : UInt8) : Slider :=
  if !s.enabled || !s.isVisible then s
  else if button ≠ 1 then s
  else
    let localX := x - s.x
    let s :=
      if s.OnThumb localX then { s with dragOffset := localX - s.thumbX }
      else
        let s := { s with dragOffset := thumbSize / 2 }
        s.setValue (s.valueForThumbX (localX - s.dragOffset))
    { s with dragging := true, mouseCaptured := true }

/-- `OnMouseMove`. -/
def onMouseMove (s : Slider) (newx : Int32) : Slider :=
  if !s.dragging || !s.enabled || !s.isVisible then s
  else s.setValue (s.valueForThumbX (newx - s.x - s.dragOffset))

/-- `OnMouseUp`. -/
def onMouseUp (s : Slider) (button : UInt8) : Slider :=
  if button ≠ 1 then s else { s with dragging := false, mouseCaptured := false }

/-- `OnMouseWheel`. -/
def onMouseWheel (s : Slider) (delta : Int32) : Slider :=
  if !s.enabled || !s.isVisible then s
  else
    let next := s.value.toInt64 + delta.toInt64
    if 0 < delta then s.setValue (if s.maxValue.toInt64 < next then s.maxValue else next.toInt32)
    else s.setValue (if next < s.minValue.toInt64 then s.minValue else next.toInt32)

/-- `moveBy` of `OnSpecialKeyDown`. -/
def moveBy (s : Slider) (delta : Int64) : Slider :=
  let next := s.value.toInt64 + delta
  let next := if next < s.minValue.toInt64 then s.minValue.toInt64 else next
  let next := if s.maxValue.toInt64 < next then s.maxValue.toInt64 else next
  s.setValue next.toInt32

/-- `OnSpecialKeyDown`. -/
def onSpecialKeyDown (s : Slider) (key : UInt8) : Slider :=
  if !s.enabled || !s.isVisible then s
  else
    let step := (s.span.toUInt32 / 10).toInt32
    let step := if step < 1 then 1 else step
    if key = 0x4B ∨ key = 0x50 then s.moveBy (-1)
    else if key = 0x4D ∨ key = 0x48 then s.moveBy 1
    else if key = 0x49 then s.moveBy step.toInt64
    else if key = 0x51 then s.moveBy (-step).toInt64
    else if key = 0x47 then s.setValue s.minValue
    else if key = 0x4F then s.setValue s.maxValue
    else s

/-- What is done to a slider: its own entry points, and the places that move, size, hide or disable
any widget. -/
inductive Op
  | setRange (min max : Int32)
  | setValue (v : Int32)
  | wheel (delta : Int32)
  | key (key : UInt8)
  | down (x y : Int32) (button : UInt8)
  | move (newx newy : Int32)
  | up (button : UInt8)
  | place (x y w h : Int32)
  | gate (enabled isVisible : Bool)

def step (s : Slider) : Op → Slider
  | .setRange min max => s.setRange min max
  | .setValue v => s.setValue v
  | .wheel delta => s.onMouseWheel delta
  | .key key => s.onSpecialKeyDown key
  | .down x _ button => s.onMouseDown x button
  | .move newx _ => s.onMouseMove newx
  | .up button => s.onMouseUp button
  | .place x y w h => { s with x, y, w, h }
  | .gate enabled isVisible => { s with enabled, isVisible }

/-! ## The value -/

/-- What every operation keeps. -/
structure Sound (s : Slider) : Prop where
  ordered : s.minValue.toInt ≤ s.maxValue.toInt
  low : s.minValue.toInt ≤ s.value.toInt
  high : s.value.toInt ≤ s.maxValue.toInt

theorem setValue_eq (s : Slider) (v : Int32) :
    s.setValue v = { s with value := (s.setValue v).value } := by
  rw [setValue]
  split
  all_goals
    split
    all_goals
      split
      · rfl
      · rfl

theorem toInt_setValue_value {s : Slider} (hord : s.minValue.toInt ≤ s.maxValue.toInt) (v : Int32) :
    (s.setValue v).value.toInt = min (max v.toInt s.minValue.toInt) s.maxValue.toInt := by
  rw [setValue]
  simp only [Int32.lt_iff_toInt_lt]
  grind

theorem sound_setValue {s : Slider} (hord : s.minValue.toInt ≤ s.maxValue.toInt) (v : Int32) :
    (s.setValue v).Sound := by
  have hv := toInt_setValue_value hord v
  rw [setValue_eq]
  constructor
  case ordered => exact hord
  case low =>
    show s.minValue.toInt ≤ (s.setValue v).value.toInt
    omega
  case high =>
    show (s.setValue v).value.toInt ≤ s.maxValue.toInt
    omega

theorem sound_setRange (s : Slider) (min max : Int32) : (s.setRange min max).Sound := by
  rw [setRange]
  apply sound_setValue
  split
  next h =>
    rw [Int32.lt_iff_toInt_lt] at h
    exact Int.le_of_lt h
  next h => simpa [Int32.lt_iff_toInt_lt] using h

theorem sound_new (x y w h : Int32) : (new x y w h).Sound :=
  ⟨(by decide : (0 : Int32).toInt ≤ (100 : Int32).toInt), Int.le_refl _,
    (by decide : (0 : Int32).toInt ≤ (100 : Int32).toInt)⟩

variable {s : Slider}

theorem Sound.setValue (hs : s.Sound) (v : Int32) : (s.setValue v).Sound :=
  sound_setValue hs.ordered v

theorem Sound.onMouseDown (hs : s.Sound) (x : Int32) (button : UInt8) :
    (s.onMouseDown x button).Sound := by
  rw [Slider.onMouseDown]
  split
  · exact hs
  · split
    · exact hs
    · dsimp only
      split
      · exact ⟨hs.ordered, hs.low, hs.high⟩
      · have hset := sound_setValue (s := { s with dragOffset := thumbSize / 2 }) hs.ordered
          (valueForThumbX { s with dragOffset := thumbSize / 2 } (x - s.x - thumbSize / 2))
        exact ⟨hset.ordered, hset.low, hset.high⟩

theorem Sound.onSpecialKeyDown (hs : s.Sound) (key : UInt8) : (s.onSpecialKeyDown key).Sound := by
  rw [Slider.onSpecialKeyDown]
  split
  · exact hs
  · split
    · exact hs.setValue _
    split
    · exact hs.setValue _
    split
    · exact hs.setValue _
    split
    · exact hs.setValue _
    split
    · exact hs.setValue _
    split
    · exact hs.setValue _
    · exact hs

/-- Each operation keeps the value in the range, whatever it is given. -/
theorem Sound.step (hs : s.Sound) (op : Op) : (s.step op).Sound := by
  cases op with
  | setRange min max => exact sound_setRange s min max
  | setValue v => exact hs.setValue v
  | wheel delta =>
    show (s.onMouseWheel delta).Sound
    rw [onMouseWheel]
    split
    · exact hs
    · dsimp only
      split
      · exact hs.setValue _
      · exact hs.setValue _
  | key key => exact hs.onSpecialKeyDown key
  | down x y button => exact hs.onMouseDown x button
  | move newx newy =>
    show (s.onMouseMove newx).Sound
    rw [onMouseMove]
    split
    · exact hs
    · exact hs.setValue _
  | up button =>
    show (s.onMouseUp button).Sound
    rw [onMouseUp]
    split
    · exact hs
    · exact ⟨hs.ordered, hs.low, hs.high⟩
  | place x y w h => exact ⟨hs.ordered, hs.low, hs.high⟩
  | gate enabled isVisible => exact ⟨hs.ordered, hs.low, hs.high⟩

theorem sound_run (hs : s.Sound) (ops : List Op) : (run step s ops).Sound :=
  run_inv (Q := fun _ _ => True) (fun _ op h _ => h.step op) hs (along_true step s ops)

/-! ## The scalings over the integers -/

/-- The width of the range. -/
def width (s : Slider) : Nat := (s.maxValue.toInt - s.minValue.toInt).toNat

/-- How far the value is into the range. -/
def offset (s : Slider) : Nat := (s.value.toInt - s.minValue.toInt).toNat

/-- The pixels that the thumb can be at, less one. -/
def usable (s : Slider) : Nat := s.usableWidth.toInt.toNat

theorem usableWidth_nonneg (s : Slider) : 0 ≤ s.usableWidth.toInt := by
  have hmax := toInt_ite_max32 0 (s.w - thumbSize)
  rw [Int32.toInt_zero] at hmax
  rw [usableWidth, hmax]
  exact Int.le_max_left _ _

theorem toNat_span (hord : s.minValue.toInt ≤ s.maxValue.toInt) : s.span.toNat = s.width := by
  have hsub := toInt_sub64 s.maxValue s.minValue
  have hu := toNat_toUInt64 (n := s.maxValue.toInt64 - s.minValue.toInt64) (by omega)
  rw [span, width]
  omega

theorem natCast_width (hs : s.Sound) : (s.width : Int) = s.maxValue.toInt - s.minValue.toInt := by
  have hord := hs.ordered
  rw [width]
  omega

theorem natCast_offset (hs : s.Sound) : (s.offset : Int) = s.value.toInt - s.minValue.toInt := by
  have hlow := hs.low
  rw [offset]
  omega

theorem width_lt (s : Slider) : s.width < 2 ^ 32 := by
  have hmax := fits32_toInt s.maxValue
  have hmin := fits32_toInt s.minValue
  rw [Fits32] at hmax hmin
  rw [width]
  omega

theorem usable_lt (s : Slider) : s.usable < 2 ^ 31 := by
  have hlt := s.usableWidth.toInt_lt
  rw [usable]
  omega

theorem offset_le (hs : s.Sound) : s.offset ≤ s.width := by
  have hhigh := hs.high
  rw [offset, width]
  omega

theorem toNat_span32 (hord : s.minValue.toInt ≤ s.maxValue.toInt) :
    s.span.toUInt32.toNat = s.width := by
  rw [UInt64.toNat_toUInt32, toNat_span hord, Nat.mod_eq_of_lt s.width_lt]

/-- `ThumbX` is the share of the usable width; without a range or a width it is zero. -/
theorem toInt_thumbX (hs : s.Sound) : s.thumbX.toInt = (s.offset * s.usable / s.width : Nat) := by
  have hlow := hs.low
  have hspan := toNat_span32 hs.ordered
  have hnn := s.usableWidth_nonneg
  have hval := fits32_toInt s.value
  have hmin := fits32_toInt s.minValue
  rw [Fits32] at hval hmin
  rw [thumbX]
  simp only [← UInt32.toNat_inj, hspan, UInt32.toNat_zero, Int32.le_iff_toInt_le, Int32.toInt_zero]
  by_cases h : s.width = 0 ∨ s.usableWidth.toInt ≤ 0
  · rw [if_pos h, Int32.toInt_zero]
    obtain h | h := h
    · rw [h, Nat.div_zero, Int.natCast_zero]
    · rw [show s.usable = 0 by rw [usable]; omega, Nat.mul_zero, Nat.zero_div, Int.natCast_zero]
  · rw [if_neg h]
    have hsub := toInt_sub64 s.value s.minValue
    have hoff : (s.value.toInt64 - s.minValue.toInt64).toUInt64.toNat = s.offset := by
      have hu := toNat_toUInt64 (n := s.value.toInt64 - s.minValue.toInt64) (by omega)
      rw [offset]
      omega
    have hus : s.usableWidth.toInt64.toUInt64.toNat = s.usable := toNat_widen hnn
    have hus32 : s.usableWidth.toUInt32.toNat = s.usable := toNat_unsigned hnn
    have hle : s.offset * s.usable / s.width ≤ s.usable := scale_le _ (offset_le hs)
    have hlt := s.usable_lt
    have hpos : (guiMulDivU32 ((s.value.toInt64 - s.minValue.toInt64).toUInt64 *
        s.usableWidth.toInt64.toUInt64) s.span.toUInt32).toNat = s.offset * s.usable / s.width := by
      have hoff' := offset_le hs
      have hwidth := s.width_lt
      rw [toNat_mulDiv (by omega) (by omega) (by rw [hoff, hus, hspan]; omega), hoff, hus, hspan]
    rw [if_neg (by rw [UInt32.lt_iff_toNat_lt]; omega), toInt_toInt32 (by omega), hpos]

theorem toInt_heldX (s : Slider) (thumbX : Int32) :
    (s.heldX thumbX).toInt = min (max thumbX.toInt 0) s.usableWidth.toInt := by
  have hmax := toInt_ite_max32 thumbX 0
  have hmin := toInt_ite_min32 s.usableWidth (if thumbX < 0 then 0 else thumbX)
  rw [Int32.toInt_zero] at hmax
  rw [hmax] at hmin
  rw [heldX, hmin]
  exact Int.min_comm _ _

/-- `ValueForThumbX` is the share of the range at a place of the thumb. -/
theorem toInt_valueForThumbX (hs : s.Sound) (thumbX : Int32) :
    (s.valueForThumbX thumbX).toInt =
      s.minValue.toInt + ((s.heldX thumbX).toInt.toNat * s.width / s.usable : Nat) := by
  have hspan := toNat_span hs.ordered
  have hnn := s.usableWidth_nonneg
  have hheld := s.toInt_heldX thumbX
  have hmax := fits32_toInt s.maxValue
  have hmin := fits32_toInt s.minValue
  rw [Fits32] at hmax hmin
  rw [valueForThumbX]
  simp only [← UInt64.toNat_inj, hspan, UInt64.toNat_zero, Int32.le_iff_toInt_le, Int32.toInt_zero]
  by_cases h : s.width = 0 ∨ s.usableWidth.toInt ≤ 0
  · rw [if_pos h]
    obtain h | h := h
    · rw [h, Nat.mul_zero, Nat.zero_div]
      omega
    · rw [show s.usable = 0 by rw [usable]; omega, Nat.div_zero]
      omega
  · rw [if_neg h]
    have hx : (s.heldX thumbX).toInt64.toUInt64.toNat = (s.heldX thumbX).toInt.toNat :=
      toNat_widen (by omega)
    have hus32 : s.usableWidth.toUInt32.toNat = s.usable := toNat_unsigned hnn
    have hlt := s.usable_lt
    have hwidth := s.width_lt
    have hxle : (s.heldX thumbX).toInt.toNat ≤ s.usable := by
      rw [usable]
      omega
    have hle : (s.heldX thumbX).toInt.toNat * s.width / s.usable ≤ s.width := scale_le _ hxle
    have hoff : (guiMulDivU32 ((s.heldX thumbX).toInt64.toUInt64 * s.span)
        s.usableWidth.toUInt32).toNat = (s.heldX thumbX).toInt.toNat * s.width / s.usable := by
      rw [toNat_mulDiv (by omega) (by omega) (by rw [hx, hspan, hus32]; omega), hx, hspan, hus32]
    generalize guiMulDivU32 ((s.heldX thumbX).toInt64.toUInt64 * s.span) s.usableWidth.toUInt32 = q
      at hoff
    have hwide : (q.toUInt64.toInt64).toInt = q.toNat := by
      have hq := q.toNat_lt
      show q.toUInt64.toBitVec.toInt = q.toNat
      rw [BitVec.toInt_eq_toNat_of_lt]
      · exact congrArg Nat.cast (UInt32.toNat_toUInt64 q)
      · show 2 * q.toUInt64.toNat < 2 ^ 64
        rw [UInt32.toNat_toUInt64]
        omega
    have hsum : (s.minValue.toInt64 + q.toUInt64.toInt64).toInt = s.minValue.toInt + q.toNat := by
      rw [Int64.toInt_add, hwide, Int32.toInt_toInt64]
      exact Int.bmod_eq_of_le (by omega) (by omega)
    have hcast := natCast_width hs
    have hin : s.minValue.toInt + q.toNat ≤ s.maxValue.toInt := by omega
    rw [if_neg (by rw [Int64.lt_iff_toInt_lt, hsum, Int32.toInt_toInt64]; omega),
      toInt_narrow (by rw [hsum, Fits32]; omega), hsum, hoff]

/-! ## A press and the way back -/

def withValue (s : Slider) (v : Int32) : Slider := { s with value := v }

theorem onMouseMove_eq (s : Slider) (newx : Int32) : ∃ v, s.onMouseMove newx = s.withValue v := by
  rw [onMouseMove]
  split
  · exact ⟨s.value, rfl⟩
  · rw [setValue_eq]
    exact ⟨_, rfl⟩

/-- Moves change nothing but the value. -/
theorem run_moves_eq (s : Slider) (through : List (Int32 × Int32)) :
    ∃ v, run step s (through.map fun p => .move p.1 p.2) = s.withValue v := by
  induction through generalizing s with
  | nil => exact ⟨s.value, rfl⟩
  | cons p through ih =>
    obtain ⟨v, hv⟩ := s.onMouseMove_eq p.1
    rw [List.map_cons, run_cons, show s.step (.move p.1 p.2) = s.onMouseMove p.1 from rfl, hv]
    exact ih (s.withValue v)

/-- A press at `(x, y)`, any moves, and a move back to the same `x`. -/
def dragBack (s : Slider) (x y : Int32) (through : List (Int32 × Int32)) (y' : Int32) : Slider :=
  run step s (.down x y 1 :: (through.map (fun p => .move p.1 p.2) ++ [.move x y']))

theorem valueForThumbX_bounds (hs : s.Sound) (thumbX : Int32) :
    s.minValue.toInt ≤ (s.valueForThumbX thumbX).toInt ∧
      (s.valueForThumbX thumbX).toInt ≤ s.maxValue.toInt := by
  have hval := toInt_valueForThumbX hs thumbX
  have hheld := s.toInt_heldX thumbX
  have hcast := natCast_width hs
  have hle : (s.heldX thumbX).toInt.toNat * s.width / s.usable ≤ s.width := by
    apply scale_le
    rw [usable]
    omega
  generalize (s.heldX thumbX).toInt.toNat * s.width / s.usable = q at hval hle
  omega

/-- The way back from a press on the thumb leaves the value that the thumb shows, whatever lies
between. -/
theorem value_dragBack (hs : s.Sound) (hen : s.enabled) (hvis : s.isVisible) {x : Int32}
    (hon : s.OnThumb (x - s.x)) (y : Int32) (through : List (Int32 × Int32)) (y' : Int32) :
    (s.dragBack x y through y').value = s.valueForThumbX s.thumbX := by
  have hdown : s.step (.down x y 1) = { s with
      dragOffset := x - s.x - s.thumbX
      dragging := true
      mouseCaptured := true } := by
    show s.onMouseDown x 1 = _
    rw [onMouseDown, if_neg (by simp [hen, hvis]), if_neg (by simp)]
    dsimp only
    rw [if_pos hon]
  have hback : x - s.x - (x - s.x - s.thumbX) = s.thumbX := by grind
  obtain ⟨v, hv⟩ := run_moves_eq (s.step (.down x y 1)) through
  rw [dragBack, run_cons, run_append, hv, hdown, run_cons, run_nil]
  show (onMouseMove _ x).value = _
  rw [onMouseMove, if_neg (by simp [withValue, hen, hvis])]
  show (Slider.setValue _ (s.valueForThumbX (x - s.x - (x - s.x - s.thumbX)))).value = _
  rw [hback]
  apply Int32.toInt_inj.mp
  refine (toInt_setValue_value ?_ _).trans ?_
  · exact hs.ordered
  · have hb := valueForThumbX_bounds hs s.thumbX
    show min (max _ s.minValue.toInt) s.maxValue.toInt = _
    omega

/-! ## Steadiness -/

/-- The thumb of the value is on a whole pixel: the range has one value, or the slider a width that
its thumb can move in and the range divides the value's way along it. -/
def OnPixel (s : Slider) : Prop := s.width = 0 ∨ 0 < s.usable ∧ s.width ∣ s.offset * s.usable

/-- What a slider shows and what it takes from the pointer agree. -/
structure Steady (s : Slider) : Prop where
  mono : ∀ t t', t ≤ t' → s.valueForThumbX t ≤ s.valueForThumbX t'
  first : s.valueForThumbX 0 = s.minValue
  last : s.valueForThumbX s.usableWidth = s.maxValue
  undone : s.valueForThumbX s.thumbX = s.value
  back : s.enabled → s.isVisible → ∀ x, s.OnThumb (x - s.x) → ∀ y through y',
    (s.dragBack x y through y').value = s.value

theorem valueForThumbX_mono (hs : s.Sound) {t t' : Int32} (hle : t ≤ t') :
    s.valueForThumbX t ≤ s.valueForThumbX t' := by
  rw [Int32.le_iff_toInt_le] at hle ⊢
  rw [toInt_valueForThumbX hs, toInt_valueForThumbX hs]
  have ht := s.toInt_heldX t
  have ht' := s.toInt_heldX t'
  have hmono := scale_mono (o := (s.heldX t).toInt.toNat) (p := (s.heldX t').toInt.toNat) s.width
    s.usable (by omega)
  omega

theorem valueForThumbX_zero (hs : s.Sound) : s.valueForThumbX 0 = s.minValue := by
  have hheld := s.toInt_heldX 0
  have hnn := s.usableWidth_nonneg
  rw [Int32.toInt_zero] at hheld
  apply Int32.toInt_inj.mp
  rw [toInt_valueForThumbX hs, show (s.heldX 0).toInt.toNat = 0 by omega, Nat.zero_mul,
    Nat.zero_div]
  omega

/-- The right end of the track is the end of the range, unless the thumb fills the track. -/
theorem valueForThumbX_last_iff (hs : s.Sound) :
    s.valueForThumbX s.usableWidth = s.maxValue ↔ s.width = 0 ∨ 0 < s.usable := by
  have hheld := s.toInt_heldX s.usableWidth
  have hnn := s.usableWidth_nonneg
  have hcast := natCast_width hs
  have hval := toInt_valueForThumbX hs s.usableWidth
  rw [show (s.heldX s.usableWidth).toInt.toNat = s.usable by rw [usable]; omega] at hval
  rw [← Int32.toInt_inj]
  obtain hus | hus := Nat.eq_zero_or_pos s.usable
  · rw [hus, Nat.div_zero] at hval
    omega
  · rw [Nat.mul_comm, Nat.mul_div_cancel _ hus] at hval
    omega

/-- `ThumbX` and `ValueForThumbX` lead back to the value exactly where the thumb is on a pixel. -/
theorem valueForThumbX_thumbX_iff (hs : s.Sound) (hus : 0 < s.usable) :
    s.valueForThumbX s.thumbX = s.value ↔ s.width ∣ s.offset * s.usable := by
  have hheld := s.toInt_heldX s.thumbX
  have hthumb := toInt_thumbX hs
  have hle : s.offset * s.usable / s.width ≤ s.usable := scale_le _ (offset_le hs)
  have hval := toInt_valueForThumbX hs s.thumbX
  have hoff := natCast_offset hs
  have hus' : (s.usable : Int) = s.usableWidth.toInt := Int.toNat_of_nonneg s.usableWidth_nonneg
  have hplace : (s.heldX s.thumbX).toInt.toNat = s.offset * s.usable / s.width := by
    generalize s.offset * s.usable / s.width = q at hle hthumb ⊢
    omega
  rw [hplace] at hval
  rw [← scale_eq_iff hus, ← Int32.toInt_inj]
  omega

theorem steady_iff (hs : s.Sound) : s.Steady ↔ s.OnPixel := by
  constructor
  · intro h
    obtain hw | hus := (valueForThumbX_last_iff hs).mp h.last
    · exact Or.inl hw
    · exact Or.inr ⟨hus, (valueForThumbX_thumbX_iff hs hus).mp h.undone⟩
  · intro h
    have hundone : s.valueForThumbX s.thumbX = s.value := by
      obtain hw | ⟨hus, hdvd⟩ := h
      · have hb := valueForThumbX_bounds hs s.thumbX
        have hcast := natCast_width hs
        have hlow := hs.low
        have hhigh := hs.high
        apply Int32.toInt_inj.mp
        omega
      · exact (valueForThumbX_thumbX_iff hs hus).mpr hdvd
    constructor
    case mono => exact fun t t' hle => valueForThumbX_mono hs hle
    case first => exact valueForThumbX_zero hs
    case last =>
      apply (valueForThumbX_last_iff hs).mpr
      obtain hw | ⟨hus, -⟩ := h
      · exact Or.inl hw
      · exact Or.inr hus
    case undone => exact hundone
    case back =>
      intro hen hvis x hon y through y'
      rw [value_dragBack hs hen hvis hon, hundone]

/-- In every run the value of a slider stays in its range; what it shows and what it takes from the
pointer agree exactly where the thumb is on a whole pixel. -/
theorem steady_along_iff (x y w h : Int32) (ops : List Op) :
    let s := run step (new x y w h) ops
    s.minValue ≤ s.value ∧ s.value ≤ s.maxValue ∧ (s.Steady ↔ s.OnPixel) := by
  have hs := sound_run (sound_new x y w h) ops
  refine ⟨?_, ?_, steady_iff hs⟩
  · rw [Int32.le_iff_toInt_le]
    exact hs.low
  · rw [Int32.le_iff_toInt_le]
    exact hs.high

/-- The slider of 230 pixels at 40 of 100: a press on its thumb and a move straight down take it
to 39. -/
theorem not_steady_40_of_100 :
    let s := run step (new 24 312 230 20) [.setRange 0 100, .setValue 40]
    ¬ s.Steady ∧ s.OnThumb (117 - s.x) ∧ s.value = 40 ∧
      (run step s [.down 117 322 1, .move 117 323]).value = 39 := by
  refine ⟨?_, by decide +kernel, by decide +kernel, by decide +kernel⟩
  intro hs
  have hundone := hs.undone
  revert hundone
  decide +kernel

end Slider
end Hashx86
