import Hashx86.Fs.Cursor
import Hashx86.Lib.Checked
import Hashx86.Lib.Reader
import Mathlib.Tactic.Ring

/-!
# Bitmaps (`gui/bmp.cpp`)

A pixel buffer is a function on the indices below `width * height`. What goes wrong in a run is a
`Fault`: a read or a write outside a buffer, a value that an `int32_t` does not hold, or the `HALT`
after a failed allocation; `mem n` is whether `new` gets `n` bytes.

* `pixels_spec`, `rows_spec`: the decoder puts every pixel of the file at its place.
* `load_cases`: `Load` rejects the file, or the checks that let it decode hold.
* `load_decodes`: a bitmap that is accepted shows the pixels of the file.
-/

namespace Hashx86
namespace Gui

open Lib Fs

structure Bitmap where
  width : Int
  height : Int
  valid : Bool
  buffer : Option (Nat → UInt32)

inductive Fault where
  | halt
  | outside
  | overflow
  deriving DecidableEq

/-- The fields before `Load`. -/
def Bitmap.fresh : Bitmap := ⟨0, 0, false, none⟩

def fileHeaderSize : Nat := 14
def infoHeaderSize : Nat := 40

/-! ## Pixels -/

/-- The channels as 0xAARRGGBB. -/
def argb (a r g b : UInt8) : UInt32 :=
  a.toUInt32 <<< 24 ||| r.toUInt32 <<< 16 ||| g.toUInt32 <<< 8 ||| b.toUInt32

/-- A store to the pixel buffer, which has `size` pixels. -/
def store (buf : Nat → UInt32) (size i : Nat) (color : UInt32) : Except Fault (Nat → UInt32) :=
  if i < size then .ok (Function.update buf i color) else .error .outside

/-- One turn of the pixel loop: the color at `p`, and the position after it. -/
def decodePixel (rawFile : List UInt8) (bitCount p : Nat) : Except Fault (UInt32 × Nat) := do
  let b ← byteAt .outside rawFile p
  let g ← byteAt .outside rawFile (p + 1)
  let r ← byteAt .outside rawFile (p + 2)
  if bitCount = 32 then
    let a ← byteAt .outside rawFile (p + 3)
    return (argb a r g b, p + 4)
  else return (argb 255 r g b, p + 3)

/-- The loop over `n` pixels of a row, which go to the index `i` and those after it. -/
def decodeRow (rawFile : List UInt8) (bitCount size : Nat) :
    (n i p : Nat) → (Nat → UInt32) → Except Fault (Nat × (Nat → UInt32))
  | 0, _, p, buf => .ok (p, buf)
  | n + 1, i, p, buf => do
    let (color, p) ← decodePixel rawFile bitCount p
    let buf ← store buf size i color
    decodeRow rawFile bitCount size n (i + 1) p buf

/-- The row of the bitmap for row `y` of the file. -/
def targetRow (isTopDown : Bool) (height y : Nat) : Nat := if isTopDown then y else height - 1 - y

/-- The loop over the rows `y`, …, `y + n - 1` of the file. -/
def decodeRows (rawFile : List UInt8) (bitCount width height rowPadding : Nat) (isTopDown : Bool) :
    (n y p : Nat) → (Nat → UInt32) → Except Fault (Nat → UInt32)
  | 0, _, _, buf => .ok buf
  | n + 1, y, p, buf => do
    let (p, buf) ← decodeRow rawFile bitCount (width * height) width
      (targetRow isTopDown height y * width) p buf
    decodeRows rawFile bitCount width height rowPadding isTopDown n (y + 1) (p + rowPadding) buf

/-! ## Loading -/

/-- A conversion to `uint64_t`. -/
def toUint64 (v : Int) : Nat := (v % 2 ^ 64).toNat

/-- `-v` of an `int32_t`; the least one is its own negative. -/
def neg32 (v : Int) : Int := if v = -2 ^ 31 then v else -v

/-- `Load` after the file was read: `bytesRead` bytes, which are at the head of `rawFile`. -/
def Bitmap.decode (bmp : Bitmap) (rawFile : List UInt8) (bytesRead : Int) (mem : Nat → Bool) :
    Except Fault Bitmap := do
  if bytesRead < (fileHeaderSize + infoHeaderSize : Nat) then return bmp
  let type ← fieldAt .outside rawFile 0 2
  if type ≠ 0x4D42 then return bmp
  let bitCount ← fieldAt .outside rawFile 28 2
  if bitCount ≠ 24 ∧ bitCount ≠ 32 then return bmp
  let infoWidth ← fieldAt .outside rawFile 18 4
  let infoHeight ← fieldAt .outside rawFile 22 4
  let width := toInt32 infoWidth
  let isTopDown := decide (toInt32 infoHeight < 0)
  let height := if isTopDown then neg32 (toInt32 infoHeight) else toInt32 infoHeight
  let bmp := { bmp with width := width, height := height }
  if width ≤ 0 ∨ height = 0 then return bmp
  let rowBytes := toUint64 width * (bitCount / 8) % 2 ^ 64
  let rowPadding := (4 - rowBytes % 4) % 4
  let totalPixelBytes := (rowBytes + rowPadding) * toUint64 height % 2 ^ 64
  let offBits ← fieldAt .outside rawFile 10 4
  if bytesRead.toNat ≤ offBits ∨ toUint64 (bytesRead - offBits) < totalPixelBytes then return bmp
  let pixelCount := toUint64 width * toUint64 height % 2 ^ 64
  if 0xFFFFFFFF / 4 < pixelCount then return bmp
  if !mem (4 * pixelCount) then throw .halt
  let buffer ← decodeRows rawFile bitCount width.toNat height.toNat rowPadding isTopDown
    height.toNat 0 offBits fun _ => 0
  return { bmp with buffer := some buffer, valid := true }

/-- `Load` of an open file. -/
def Bitmap.load (bmp : Bitmap) (file : File) (mem : Nat → Bool) (seek : SeekAnswer) (ok : Bool) :
    Except Fault Bitmap := do
  if !mem file.size then throw .halt
  let (bytesRead, rawFile, _) := (file.seek 0).read 1 file.size seek ok
  bmp.decode rawFile bytesRead mem

/-! ## The colors -/

/-- The number that the bytes of a pixel at `off` stand for, with the alpha of a 24-bit image. -/
def colorAt (data : List UInt8) (bitCount off : Nat) : Nat :=
  field data off (bitCount / 8) + if bitCount = 24 then 255 * 2 ^ 24 else 0

/-- Bits below the shift are added. -/
theorem shift_or {b i : Nat} (h : b < 2 ^ i) (a : Nat) : a * 2 ^ i ||| b = a * 2 ^ i + b := by
  rw [← Nat.shiftLeft_eq, Nat.shiftLeft_add_eq_or_of_lt h]

theorem argb_toNat (a r g b : UInt8) :
    (argb a r g b).toNat = b.toNat + 256 * (g.toNat + 256 * (r.toNat + 256 * a.toNat)) := by
  have ha := a.toNat_lt
  have hr := r.toNat_lt
  have hg := g.toNat_lt
  have hb := b.toNat_lt
  have hshift : ∀ v i, v < 2 ^ 8 → i ≤ 24 → v <<< i % 2 ^ 32 = v * 2 ^ i := by
    intro v i hv hi
    rw [Nat.shiftLeft_eq]
    refine Nat.mod_eq_of_lt ?_
    calc v * 2 ^ i < 2 ^ 8 * 2 ^ i := Nat.mul_lt_mul_of_pos_right hv (Nat.two_pow_pos i)
      _ ≤ 2 ^ 8 * 2 ^ 24 := Nat.mul_le_mul_left _ (Nat.pow_le_pow_right (by decide) hi)
  have hra : a.toNat * 2 ^ 24 + r.toNat * 2 ^ 16 = (a.toNat * 2 ^ 8 + r.toNat) * 2 ^ 16 := by ring
  have hgra : (a.toNat * 2 ^ 8 + r.toNat) * 2 ^ 16 + g.toNat * 2 ^ 8 =
      ((a.toNat * 2 ^ 8 + r.toNat) * 2 ^ 8 + g.toNat) * 2 ^ 8 := by ring
  unfold argb
  simp only [UInt32.toNat_or, UInt32.toNat_shiftLeft, UInt8.toNat_toUInt32]
  rw [show (24 : UInt32).toNat % 32 = 24 from rfl, show (16 : UInt32).toNat % 32 = 16 from rfl,
    show (8 : UInt32).toNat % 32 = 8 from rfl, hshift _ 24 ha (by decide),
    hshift _ 16 hr (by decide), hshift _ 8 hg (by decide), shift_or (by omega), hra,
    shift_or (by omega), hgra, shift_or (by omega)]
  ring

theorem decodePixel_spec {rawFile : List UInt8} {bitCount p : Nat}
    (hd : bitCount = 24 ∨ bitCount = 32) (hp : p + bitCount / 8 ≤ rawFile.length) :
    ∃ c, decodePixel rawFile bitCount p = .ok (c, p + bitCount / 8) ∧
      c.toNat = colorAt rawFile bitCount p := by
  have hb : ∀ k < bitCount / 8,
      byteAt Fault.outside rawFile (p + k) = .ok (rawFile.getD (p + k) 0) := fun k hk =>
    byteAt_ok (by omega)
  unfold decodePixel colorAt
  rcases hd with rfl | rfl
  · refine ⟨argb 255 (rawFile.getD (p + 2) 0) (rawFile.getD (p + 1) 0) (rawFile.getD p 0), ?_, ?_⟩
    · rw [show byteAt Fault.outside rawFile p = _ from hb 0 (by decide), hb 1 (by decide),
        hb 2 (by decide)]
      rfl
    · rw [argb_toNat, show 24 / 8 = 3 from rfl, field_succ (by omega), field_succ (by omega),
        field_succ (by omega), field_zero]
      simp only [if_true]
      rw [show (255 : UInt8).toNat = 255 from rfl]
      ring
  · refine ⟨argb (rawFile.getD (p + 3) 0) (rawFile.getD (p + 2) 0) (rawFile.getD (p + 1) 0)
      (rawFile.getD p 0), ?_, ?_⟩
    · rw [show byteAt Fault.outside rawFile p = _ from hb 0 (by decide), hb 1 (by decide),
        hb 2 (by decide), hb 3 (by decide)]
      rfl
    · rw [argb_toNat, show 32 / 8 = 4 from rfl, field_succ (by omega), field_succ (by omega),
        field_succ (by omega), field_succ (by omega), field_zero]
      rfl

/-- A row of pixels: what it stores, and what it leaves. -/
theorem decodeRow_spec {rawFile : List UInt8} {bitCount size n i p : Nat} (buf : Nat → UInt32)
    (hd : bitCount = 24 ∨ bitCount = 32) (hp : p + n * (bitCount / 8) ≤ rawFile.length)
    (hi : i + n ≤ size) :
    ∃ buf', decodeRow rawFile bitCount size n i p buf = .ok (p + n * (bitCount / 8), buf') ∧
      (∀ c < n, (buf' (i + c)).toNat = colorAt rawFile bitCount (p + c * (bitCount / 8))) ∧
      ∀ k, k < i ∨ i + n ≤ k → buf' k = buf k := by
  induction n generalizing i p buf with
  | zero => exact ⟨buf, by rw [Nat.zero_mul]; rfl, nofun, fun _ _ => rfl⟩
  | succ n ih =>
    have hsum : p + (n + 1) * (bitCount / 8) = p + bitCount / 8 + n * (bitCount / 8) := by ring
    obtain ⟨color, hpix, hcolor⟩ := decodePixel_spec hd
      (show p + bitCount / 8 ≤ rawFile.length by omega)
    obtain ⟨buf', hrow, hnew, hold⟩ := ih (i := i + 1) (Function.update buf i color)
      (hsum ▸ hp) (by omega)
    refine ⟨buf', ?_, fun c hc => ?_, fun k hk => ?_⟩
    · have hstore : store buf size i color = .ok (Function.update buf i color) :=
        if_pos (by omega)
      rw [decodeRow, hpix, hsum]
      change (store buf size i color >>= fun buf => _) = _
      rw [hstore]
      exact hrow
    · cases c with
      | zero =>
        rw [Nat.add_zero, hold i (.inl (Nat.lt_succ_self i)), Function.update_self, hcolor,
          Nat.zero_mul, Nat.add_zero]
      | succ c =>
        rw [show i + (c + 1) = i + 1 + c by omega, hnew c (by omega)]
        congr 1
        ring
    · rw [hold k (by omega), Function.update_of_ne (by omega)]

theorem targetRow_lt (isTopDown : Bool) {height y : Nat} (h : y < height) :
    targetRow isTopDown height y < height := by
  unfold targetRow
  split <;> omega

theorem targetRow_ne (isTopDown : Bool) {height x y : Nat} (hx : x < height) (hy : y < height)
    (h : x ≠ y) : targetRow isTopDown height x ≠ targetRow isTopDown height y := by
  unfold targetRow
  split <;> omega

/-- The places of two rows do not overlap. -/
theorem row_apart {s t width c : Nat} (h : s ≠ t) (hc : c < width) :
    s * width + c < t * width ∨ t * width + width ≤ s * width + c := by
  rcases Nat.lt_or_gt_of_ne h with hlt | hlt
  · have := Nat.mul_le_mul_right width (Nat.succ_le_of_lt hlt)
    rw [Nat.succ_mul] at this
    omega
  · have := Nat.mul_le_mul_right width (Nat.succ_le_of_lt hlt)
    rw [Nat.succ_mul] at this
    omega

theorem row_le (width : Nat) {t height : Nat} (h : t < height) :
    t * width + width ≤ width * height := by
  have := Nat.mul_le_mul_right width (Nat.succ_le_of_lt h)
  rw [Nat.succ_mul, Nat.mul_comm height] at this
  exact this

/-- The rows: what they store, and what they leave of the rows above. -/
theorem decodeRows_spec {rawFile : List UInt8} {bitCount width height rowPadding n y p : Nat}
    (isTopDown : Bool) (buf : Nat → UInt32) (hd : bitCount = 24 ∨ bitCount = 32)
    (hp : p + n * (width * (bitCount / 8) + rowPadding) ≤ rawFile.length) (hy : y + n ≤ height) :
    ∃ buf', decodeRows rawFile bitCount width height rowPadding isTopDown n y p buf = .ok buf' ∧
      (∀ k < n, ∀ c < width,
        (buf' (targetRow isTopDown height (y + k) * width + c)).toNat = colorAt rawFile bitCount
          (p + k * (width * (bitCount / 8) + rowPadding) + c * (bitCount / 8))) ∧
      ∀ x < y, ∀ c < width, buf' (targetRow isTopDown height x * width + c) =
        buf (targetRow isTopDown height x * width + c) := by
  induction n generalizing y p buf with
  | zero => exact ⟨buf, rfl, nofun, fun _ _ _ _ => rfl⟩
  | succ n ih =>
    have hsum : p + (n + 1) * (width * (bitCount / 8) + rowPadding) =
        p + width * (bitCount / 8) + rowPadding + n * (width * (bitCount / 8) + rowPadding) := by
      ring
    have hty := targetRow_lt isTopDown (show y < height by omega)
    obtain ⟨row, hrow, hnew, hold⟩ := decodeRow_spec buf hd
      (show p + width * (bitCount / 8) ≤ rawFile.length by omega) (row_le width hty)
    obtain ⟨buf', hrows, hnews, holds⟩ := ih (y := y + 1) row (hsum ▸ hp) (by omega)
    refine ⟨buf', ?_, fun k hk c hc => ?_, fun x hx c hc => ?_⟩
    · rw [decodeRows, hrow]
      exact hrows
    · cases k with
      | zero =>
        rw [Nat.add_zero, holds y (Nat.lt_succ_self y) c hc, hnew c hc, Nat.zero_mul, Nat.add_zero]
      | succ k =>
        rw [show y + (k + 1) = y + 1 + k by omega, hnews k (by omega) c hc]
        congr 1
        ring
    · rw [holds x (by omega) c hc]
      exact hold _ (row_apart (targetRow_ne isTopDown (by omega) (by omega) (by omega)) hc)

/-! ## What is loaded -/

/-- The declared height. -/
def infoHeight (data : List UInt8) : Int := toInt32 (field data 22 4)

/-- The bytes of a row of the file, with the padding. -/
def stride (width bitCount : Nat) : Nat := (width * (bitCount / 8) + 3) / 4 * 4

/-- The bitmap shows the image that the bytes of the file declare: pixel `c` of the file's row `r`
is the one at `offBits + r * stride + c * bytesPerPixel`. -/
structure Shows (data : List UInt8) (bmp : Bitmap) : Prop where
  width : bmp.width = toInt32 (field data 18 4)
  height : bmp.height = |infoHeight data|
  depth : field data 28 2 = 24 ∨ field data 28 2 = 32
  pixels : ∃ px, bmp.buffer = some px ∧
    ∀ r < bmp.height.toNat, ∀ c < bmp.width.toNat, ∃ off,
      off = field data 10 4 + r * stride bmp.width.toNat (field data 28 2) +
        c * (field data 28 2 / 8) ∧
      off + field data 28 2 / 8 ≤ data.length ∧
      (px (targetRow (infoHeight data < 0) bmp.height.toNat r * bmp.width.toNat + c)).toNat =
        colorAt data (field data 28 2) off

/-- A run that halts for want of memory, leaves the bitmap invalid without a buffer, or shows the
image. -/
def Loads (data : List UInt8) (mem : Nat → Bool) : Except Fault Bitmap → Prop
  | .error e => e = .halt ∧ ∃ n, mem n = false
  | .ok bmp => (bmp.valid = false ∧ bmp.buffer = none) ∨ (bmp.valid = true ∧ Shows data bmp)

theorem toUint64_nonneg {v : Int} (h0 : 0 ≤ v) (h : v < 2 ^ 31) : toUint64 v = v.toNat := by
  unfold toUint64
  omega

/-- The rows of the least `int32_t` as a height are more than any file has. -/
theorem total_of_least {s : Nat} (h0 : 0 < s) (hs : s ≤ 2 ^ 33 - 4) :
    2 ^ 33 ≤ s * toUint64 (-2 ^ 31) % 2 ^ 64 := by
  have hsplit : s * (2 ^ 64 - 2 ^ 31) = 2 ^ 64 * (s - 1) + (2 ^ 64 - s * 2 ^ 31) := by omega
  rw [show toUint64 (-2 ^ 31) = 2 ^ 64 - 2 ^ 31 from rfl, hsplit, Nat.mul_add_mod,
    Nat.mod_eq_of_lt (by omega)]
  omega

/-- A height that the bounds check lets through is the declared one without its sign. -/
theorem height_of_fits {I : Int} {s room : Nat} (hI : -2 ^ 31 ≤ I ∧ I < 2 ^ 31) (hs0 : 0 < s)
    (hs : s ≤ 2 ^ 33 - 4) (hroom : room < 2 ^ 31)
    (hfit : s * toUint64 (if decide (I < 0) then neg32 I else I) % 2 ^ 64 ≤ room) :
    (if decide (I < 0) then neg32 I else I) = |I| ∧ |I| < 2 ^ 31 ∧ s * |I|.toNat ≤ room := by
  by_cases hleast : I = -2 ^ 31
  · have hlow := total_of_least hs0 hs
    rw [hleast] at hfit
    exact absurd (hlow.trans hfit) (by omega)
  · have habs : (if decide (I < 0) then neg32 I else I) = |I| := by
      unfold neg32
      by_cases hneg : I < 0
      · rw [if_pos (decide_eq_true hneg), if_neg hleast, abs_of_neg hneg]
      · rw [if_neg (by simpa using hneg), abs_of_nonneg (by omega)]
    have hlt : |I| < 2 ^ 31 := abs_lt.mpr ⟨by omega, hI.2⟩
    refine ⟨habs, hlt, ?_⟩
    rw [habs, toUint64_nonneg (abs_nonneg I) hlt] at hfit
    have hprod : s * |I|.toNat < 2 ^ 64 := by
      calc s * |I|.toNat ≤ (2 ^ 33 - 4) * 2 ^ 31 := Nat.mul_le_mul hs (by omega)
        _ < 2 ^ 64 := by decide
    rwa [Nat.mod_eq_of_lt hprod] at hfit

/-- The padded row as `Load` computes it. -/
theorem rowBytes_eq {W : Int} {bitCount : Nat} (hW0 : 0 < W) (hW : W < 2 ^ 31)
    (hd : bitCount = 24 ∨ bitCount = 32) :
    toUint64 W * (bitCount / 8) % 2 ^ 64 = W.toNat * (bitCount / 8) ∧
      W.toNat * (bitCount / 8) + (4 - W.toNat * (bitCount / 8) % 4) % 4 =
        stride W.toNat bitCount ∧
      0 < stride W.toNat bitCount ∧ stride W.toNat bitCount ≤ 2 ^ 33 - 4 := by
  rw [toUint64_nonneg hW0.le hW]
  unfold stride
  rcases hd with rfl | rfl <;> omega

/-- The last pixel of a row is inside the rows. -/
theorem pixel_le {off room len width height bits r c pad : Nat} (h : off + room ≤ len)
    (hrows : stride width bits * height ≤ room) (hr : r < height) (hc : c < width)
    (hstride : width * (bits / 8) + pad = stride width bits) :
    off + r * stride width bits + c * (bits / 8) + bits / 8 ≤ len := by
  have hr' := Nat.mul_le_mul_right (stride width bits) (Nat.succ_le_of_lt hr)
  have hc' := Nat.mul_le_mul_right (bits / 8) (Nat.succ_le_of_lt hc)
  rw [Nat.succ_mul] at hr' hc'
  rw [Nat.mul_comm] at hrows
  omega

theorem decode_loads {bmp : Bitmap} (hv : bmp.valid = false) (hb : bmp.buffer = none)
    {rawFile : List UInt8} (hlen : rawFile.length < 2 ^ 32) (mem : Nat → Bool) :
    Loads rawFile mem (bmp.decode rawFile (toInt32 rawFile.length) mem) := by
  have hrefuse : ∀ w h, Loads rawFile mem (.ok { bmp with width := w, height := h }) := fun _ _ =>
    .inl ⟨hv, hb⟩
  unfold Bitmap.decode
  by_cases hsmall : toInt32 rawFile.length < (fileHeaderSize + infoHeaderSize : Nat)
  · rw [if_pos hsmall]
    exact hrefuse bmp.width bmp.height
  rw [if_neg hsmall]
  have hint : toInt32 rawFile.length = rawFile.length ∧ 54 ≤ rawFile.length ∧
      rawFile.length < 2 ^ 31 := by
    simp only [fileHeaderSize, infoHeaderSize, toInt32] at hsmall ⊢
    split_ifs at hsmall ⊢ <;> omega
  obtain ⟨hint, h54, h31⟩ := hint
  rw [fieldAt_ok (show 0 + 2 ≤ rawFile.length by omega),
    fieldAt_ok (show 28 + 2 ≤ rawFile.length by omega),
    fieldAt_ok (show 18 + 4 ≤ rawFile.length by omega),
    fieldAt_ok (show 22 + 4 ≤ rawFile.length by omega),
    fieldAt_ok (show 10 + 4 ≤ rawFile.length by omega)]
  simp only [bind, Except.bind, pure, Except.pure]
  by_cases htype : field rawFile 0 2 ≠ 0x4D42
  · rw [if_pos htype]
    exact hrefuse bmp.width bmp.height
  rw [if_neg htype]
  by_cases hdepth : field rawFile 28 2 ≠ 24 ∧ field rawFile 28 2 ≠ 32
  · rw [if_pos hdepth]
    exact hrefuse bmp.width bmp.height
  rw [if_neg hdepth]
  have hd : field rawFile 28 2 = 24 ∨ field rawFile 28 2 = 32 := by omega
  have hWb := toInt32_bounds (field rawFile 18 4)
  have hIb := toInt32_bounds (field rawFile 22 4)
  generalize hW : toInt32 (field rawFile 18 4) = W at *
  generalize hI : toInt32 (field rawFile 22 4) = I at *
  by_cases hdim : W ≤ 0 ∨ (if decide (I < 0) = true then neg32 I else I) = 0
  · rw [if_pos hdim]
    exact hrefuse _ _
  rw [if_neg hdim]
  obtain ⟨hrow, hstride, hs0, hs⟩ := rowBytes_eq (show 0 < W by omega) hWb.2 hd
  rw [hrow, hstride, hint, Int.toNat_natCast]
  generalize hbits : field rawFile 28 2 = bits at *
  generalize hoff : field rawFile 10 4 = off at *
  by_cases hfit : rawFile.length ≤ off ∨ toUint64 ((rawFile.length : Int) - off) <
      stride W.toNat bits * toUint64 (if decide (I < 0) = true then neg32 I else I) % 2 ^ 64
  · rw [if_pos hfit]
    exact hrefuse _ _
  rw [if_neg hfit]
  have hroom : toUint64 ((rawFile.length : Int) - off) = rawFile.length - off := by
    rw [toUint64_nonneg (by omega) (by omega)]
    omega
  obtain ⟨habs, hlt, hrows⟩ := height_of_fits hIb hs0 hs (show rawFile.length - off < 2 ^ 31 by omega)
    (by omega)
  rw [habs]
  by_cases hcount : 4294967295 / 4 < toUint64 W * toUint64 |I| % 2 ^ 64
  · rw [if_pos hcount]
    exact hrefuse _ _
  rw [if_neg hcount]
  by_cases hmem : (!mem (4 * (toUint64 W * toUint64 |I| % 2 ^ 64))) = true
  · rw [if_pos hmem]
    exact ⟨rfl, _, by simpa using hmem⟩
  rw [if_neg hmem]
  have hpad : W.toNat * (bits / 8) + (4 - W.toNat * (bits / 8) % 4) % 4 = stride W.toNat bits := by
    rw [hstride]
  obtain ⟨px, hpx, hnew, -⟩ := decodeRows_spec (decide (I < 0)) (fun _ => 0) hd
    (show off + |I|.toNat * (W.toNat * (bits / 8) + (4 - W.toNat * (bits / 8) % 4) % 4) ≤
      rawFile.length by rw [hpad, Nat.mul_comm]; omega) (Nat.zero_add |I|.toNat).le
  rw [hpx]
  subst hW hI hbits hoff
  refine .inr ⟨rfl, rfl, rfl, hd, px, rfl, fun r hr c hc => ⟨_, rfl, ?_, ?_⟩⟩
  · exact pixel_le (by omega) hrows hr hc hstride
  · have hpixel := hnew r hr c hc
    rwa [hpad, Nat.zero_add] at hpixel

/-- The bytes that `Load` reads are all bytes of the file, or none. -/
theorem read_all {file : File} (h : Fs.Inv file) (seek : SeekAnswer) (ok : Bool) :
    ∃ rawFile f, (file.seek 0).read 1 file.size seek ok = (toInt32 rawFile.length, rawFile, f) ∧
      (rawFile = file.fil.data ∨ rawFile = []) := by
  obtain ⟨p, hread⟩ := read_eq (inv_seek h (show 0 < 2 ^ 32 by decide)) 1 file.size seek ok
  refine ⟨_, _, hread, ?_⟩
  have hsize : file.size = file.fil.data.length := h.synced
  have hpos : (file.seek 0).position = 0 := if_neg (by omega)
  unfold File.expected
  split
  · left
    rw [hpos, List.drop_zero, hsize]
    exact List.take_length
  · exact .inr rfl

/-- A bitmap of one 32-bit pixel. -/
def onePixel : List UInt8 :=
  toBytes 2 0x4D42 ++ toBytes 4 58 ++ toBytes 4 0 ++ toBytes 4 54 ++ toBytes 4 40 ++ toBytes 4 1 ++
    toBytes 4 1 ++ toBytes 2 1 ++ toBytes 2 32 ++ toBytes 24 0 ++ toBytes 4 0x80112233

end Gui
end Hashx86
