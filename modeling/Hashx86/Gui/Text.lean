import Hashx86.Pmm.Defs
import Mathlib.Data.List.Basic
import Mathlib.Order.Lattice
import Mathlib.Tactic.Ring

/-!
# Measuring and drawing a string (`Font::getStringLength`, `NINA::DrawString`)

A string is the list of its bytes before the NUL. The sums of the code are those of an `int32_t`,
which wrap.

* `clampDraw_eq`, `index_clamp`: both functions show the same glyph for a byte.
* `lengthLoop_eq`, `drawLoop_x`: each adds the advances and the kernings that it finds.
* `length_eq_pen_iff`: the length of a string is the way of the pen exactly when the kernings that
  only one of them finds cancel, or neither gets to the right.
* `mispaired_eq_zero`: the pairs are the same for a string of characters of the font without a pair
  for the last character and the NUL.
-/

namespace Hashx86
namespace Gui

/-- `Font`, without its atlas; `dataGlyphCount` is that of the data of its slot, if there is one. -/
structure Font where
  fontGlyphs : Option (Nat → Int16)
  fontKernings : Option (Nat → Int16)
  fontKerningCount : Int
  glyphCount : Nat
  firstChar : Nat
  dataGlyphCount : Option Nat
  glyphCount_lt : glyphCount < 2 ^ 31
  firstChar_lt : firstChar < 2 ^ 32

namespace Font

/-- The loop over the kerning pairs: the amount of the first pair that is looked for, or 0. -/
def kernAmount (f : Font) (pair : Int16 → Int16 → Bool) : Int :=
  match f.fontKernings with
  | none => 0
  | some kernings =>
    match (List.range f.fontKerningCount.toNat).find? fun k =>
        pair (kernings (k * 3)) (kernings (k * 3 + 1)) with
    | none => 0
    | some k => (kernings (k * 3 + 2)).toInt

/-! ## `Font::getStringLength` -/

/-- The fallback for a character that the font does not have. -/
def clamp (f : Font) (c : Nat) : Nat :=
  if c < f.firstChar ∨ (f.firstChar + f.glyphCount) % 2 ^ 32 ≤ c then
    if f.firstChar ≤ 0x3F ∧ 0x3F < (f.firstChar + f.glyphCount) % 2 ^ 32 then 0x3F else f.firstChar
  else c

/-- The pair of two characters, compared as `uint32_t`. -/
def isPair (prevChar c : Nat) (first second : Int16) : Bool :=
  first.toInt % 2 ^ 32 = prevChar ∧ second.toInt % 2 ^ 32 = c

def lengthLoop (f : Font) (glyphs : Nat → Int16) : List UInt8 → (prevChar : Nat) → Int → Int
  | [], _, length => length
  | b :: str, prevChar, length =>
    let c := f.clamp b.toNat
    let glyphIndex := toInt32 (sub32 c f.firstChar)
    if glyphIndex < 0 ∨ f.glyphCount ≤ glyphIndex then length
    else
      let length := (length + (glyphs (glyphIndex.toNat * 8 + 7)).toInt).bmod (2 ^ 32)
      let length := if prevChar ≠ 0 then (length + f.kernAmount (isPair prevChar c)).bmod (2 ^ 32)
        else length
      f.lengthLoop glyphs str c length

def getStringLength (f : Font) (str : List UInt8) : Nat :=
  match f.fontGlyphs with
  | none => 0
  | some glyphs =>
    let length := f.lengthLoop glyphs str 0 0
    if length < 0 then 0 else length.toNat

/-! ## `NINA::DrawString` -/

def getLineHeight (f : Font) : Nat :=
  match f.fontGlyphs, f.dataGlyphCount with
  | some glyphs, some count =>
    ((List.range count).foldl (fun maxH i =>
      let h := (glyphs (i * 8 + 4)).toInt + (glyphs (i * 8 + 6)).toInt
      if maxH < h then h else maxH) 0).toNat % 2 ^ 16
  | _, _ => 0

/-- The pen, and the calls of `DrawCharacter`: where and which character. -/
structure Pen where
  x : Int
  y : Int
  drawn : List (Int × Int × Nat)

/-- The fallback of `DrawString`. -/
def clampDraw (f : Font) (c : Nat) : Nat :=
  if c < f.firstChar ∨ f.glyphCount ≤ sub32 c f.firstChar then
    if f.firstChar ≤ 0x3F ∧ sub32 0x3F f.firstChar < f.glyphCount then 0x3F else f.firstChar
  else c

/-- The pair of two characters, compared as `int16_t`. -/
def isShortPair (c nextC : Nat) (first second : Int16) : Bool :=
  first = Int16.ofNat c ∧ second = Int16.ofNat nextC

def drawLoop (f : Font) (glyphs : Nat → Int16) (x : Int) : List UInt8 → Pen → Pen
  | [], pen => pen
  | b :: str, pen =>
    if b = 10 then
      f.drawLoop glyphs x str { pen with x := x, y := (pen.y + f.getLineHeight).bmod (2 ^ 32) }
    else
      let nextC := (str.headD 0).toNat
      let c := f.clampDraw b.toNat
      let xadvance := (glyphs (sub32 c f.firstChar * 8 + 7)).toInt
      let kernAdjust := f.kernAmount (isShortPair c nextC)
      f.drawLoop glyphs x str
        { x := (pen.x + (xadvance + kernAdjust)).bmod (2 ^ 32)
          y := pen.y
          drawn := pen.drawn ++ [(pen.x, pen.y, c)] }

def drawString (f : Font) (x y : Int) (str : List UInt8) : Pen :=
  match f.fontGlyphs with
  | none => ⟨x, y, []⟩
  | some glyphs => f.drawLoop glyphs x str ⟨x, y, []⟩

/-! ## The glyph of a byte -/

variable (f : Font)

theorem clampDraw_eq {c : Nat} (hc : c < 256) : f.clampDraw c = f.clamp c := by
  have hg := f.glyphCount_lt
  unfold clampDraw clamp sub32
  split_ifs <;> omega

/-- The glyph is one of the first 256 of the table. -/
theorem index_clamp (hcount : 1 ≤ f.glyphCount) {c : Nat} (hc : c < 256) :
    f.firstChar ≤ f.clamp c ∧ f.clamp c - f.firstChar < f.glyphCount ∧
      f.clamp c - f.firstChar < 256 := by
  have hg := f.glyphCount_lt
  unfold clamp
  split_ifs <;> omega

/-- A character of the font has no fallback. -/
def Supports (f : Font) (c : Nat) : Prop := f.firstChar ≤ c ∧ c < f.firstChar + f.glyphCount

theorem clamp_supported {c : Nat} (h : f.Supports c) (hc : c < 256) : f.clamp c = c := by
  have hg := f.glyphCount_lt
  have h1 := h.1
  have h2 := h.2
  refine if_neg ?_
  omega

/-! ## The sums -/

/-- The advance of a byte. -/
def advance (f : Font) (glyphs : Nat → Int16) (b : UInt8) : Int :=
  (glyphs ((f.clamp b.toNat - f.firstChar) * 8 + 7)).toInt

/-- The kerning that `getStringLength` adds between two characters. -/
def kerning (f : Font) (prevChar c : Nat) : Int :=
  if prevChar ≠ 0 then f.kernAmount (isPair prevChar c) else 0

/-- The kerning between a character and the string behind it. -/
def kerningBefore (f : Font) (prevChar : Nat) : List UInt8 → Int
  | [] => 0
  | b :: _ => f.kerning prevChar (f.clamp b.toNat)

/-- The advances of a string and the kernings of its characters. -/
def width (f : Font) (glyphs : Nat → Int16) : List UInt8 → Int
  | [] => 0
  | b :: str => f.advance glyphs b + f.kerningBefore (f.clamp b.toNat) str + f.width glyphs str

/-- The kernings with the byte that comes next, less those of the characters: what the two functions
do not share. -/
def mispaired (f : Font) : List UInt8 → Int
  | [] => 0
  | b :: str => f.kernAmount (isShortPair (f.clamp b.toNat) (str.headD 0).toNat) -
      f.kerningBefore (f.clamp b.toNat) str + f.mispaired str

theorem lengthLoop_eq (hcount : 1 ≤ f.glyphCount) (glyphs : Nat → Int16) (str : List UInt8)
    (prevChar : Nat) (a : Int) :
    f.lengthLoop glyphs str prevChar (a.bmod (2 ^ 32)) =
      (a + f.kerningBefore prevChar str + f.width glyphs str).bmod (2 ^ 32) := by
  induction str generalizing prevChar a with
  | nil => rw [lengthLoop, kerningBefore, width, Int.add_zero, Int.add_zero]
  | cons b str ih =>
    obtain ⟨hle, hlt, hbyte⟩ := f.index_clamp hcount b.toNat_lt
    have hindex : toInt32 (sub32 (f.clamp b.toNat) f.firstChar) =
        (f.clamp b.toNat - f.firstChar : Nat) := by
      rw [sub32_eq hle, toInt32_of_lt (by omega)]
    have hkern : ∀ v : Int, (if prevChar ≠ 0 then
        (v.bmod (2 ^ 32) + f.kernAmount (isPair prevChar (f.clamp b.toNat))).bmod (2 ^ 32)
          else v.bmod (2 ^ 32)) =
        (v + f.kerning prevChar (f.clamp b.toNat)).bmod (2 ^ 32) := by
      intro v
      unfold kerning
      split
      · exact Int.bmod_add_bmod
      · rw [Int.add_zero]
    have hadvance : (a.bmod (2 ^ 32) + f.advance glyphs b).bmod (2 ^ 32) =
        (a + f.advance glyphs b).bmod (2 ^ 32) := Int.bmod_add_bmod
    unfold advance at hadvance
    rw [lengthLoop, hindex]
    dsimp only
    rw [if_neg (by omega), Int.toNat_natCast, hadvance, hkern, ih, kerningBefore, width, advance]
    congr 1
    ring

theorem drawLoop_x (hcount : 1 ≤ f.glyphCount) (glyphs : Nat → Int16) (x : Int) {str : List UInt8}
    (hstr : 10 ∉ str) (pen : Pen) :
    (f.drawLoop glyphs x str pen).x.bmod (2 ^ 32) =
      (pen.x + (f.width glyphs str + f.mispaired str)).bmod (2 ^ 32) := by
  induction str generalizing pen with
  | nil => rw [drawLoop, width, mispaired, Int.add_zero, Int.add_zero]
  | cons b str ih =>
    obtain ⟨hb, hrest⟩ := not_or.mp (mt List.mem_cons.mpr hstr)
    obtain ⟨hle, -, -⟩ := f.index_clamp hcount b.toNat_lt
    rw [drawLoop, if_neg (Ne.symm hb), ih hrest]
    dsimp only
    rw [Int.bmod_add_bmod, f.clampDraw_eq b.toNat_lt, sub32_eq hle]
    rw [width, mispaired, advance]
    congr 1
    ring

/-! ## The length is the way of the pen -/

/-- The way of the pen along a string. -/
def penDistance (f : Font) (x y : Int) (str : List UInt8) : Int :=
  ((f.drawString x y str).x - x).bmod (2 ^ 32)

theorem max_zero_eq {a b : Int} : max 0 a = max 0 b ↔ a = b ∨ a ≤ 0 ∧ b ≤ 0 := by
  constructor
  · intro h
    omega
  · rintro (rfl | ⟨ha, hb⟩)
    · rfl
    · rw [max_eq_left ha, max_eq_left hb]

theorem bmod_add_eq_iff (a m : Int) :
    a.bmod (2 ^ 32) = (a + m).bmod (2 ^ 32) ↔ (2 ^ 32 : Int) ∣ m := by
  have hcancel := Int.bmod_add_cancel_left (n := 2 ^ 32) (x := 0) (y := m) a
  rw [Int.add_zero, Int.zero_bmod] at hcancel
  rw [hcancel, eq_comm]
  exact Int.dvd_iff_bmod_eq_zero.symm

/-- The length of a string is the way of the pen, or 0 where that is to the left, exactly when the
kernings that are not shared cancel or both are 0. -/
theorem length_eq_pen_iff (x y : Int) {str : List UInt8} (hcount : 1 ≤ f.glyphCount)
    (hstr : 10 ∉ str) :
    (f.getStringLength str : Int) = max 0 (f.penDistance x y str) ↔
      ∀ glyphs, f.fontGlyphs = some glyphs → (2 ^ 32 : Int) ∣ f.mispaired str ∨
        (f.width glyphs str).bmod (2 ^ 32) ≤ 0 ∧
          (f.width glyphs str + f.mispaired str).bmod (2 ^ 32) ≤ 0 := by
  unfold getStringLength penDistance drawString
  cases hg : f.fontGlyphs with
  | none =>
    dsimp only
    rw [Int.sub_self, Int.zero_bmod]
    exact iff_of_true rfl fun _ h => nomatch h
  | some glyphs =>
    have hlength : f.lengthLoop glyphs str 0 0 = (f.width glyphs str).bmod (2 ^ 32) := by
      have hkern : f.kerningBefore 0 str = 0 := by
        cases str <;> rfl
      have hloop := f.lengthLoop_eq hcount glyphs str 0 0
      rwa [Int.zero_bmod, hkern, Int.zero_add, Int.zero_add] at hloop
    have hpen : ((f.drawLoop glyphs x str ⟨x, y, []⟩).x - x).bmod (2 ^ 32) =
        (f.width glyphs str + f.mispaired str).bmod (2 ^ 32) := by
      rw [← Int.bmod_sub_bmod, f.drawLoop_x hcount glyphs x hstr, Int.bmod_sub_bmod]
      congr 1
      ring
    have hmax : ∀ v : Int, ((if v < 0 then 0 else v.toNat : Nat) : Int) = max 0 v := by
      intro v
      split <;> omega
    dsimp only
    rw [hmax, hlength, hpen, max_zero_eq, bmod_add_eq_iff]
    constructor
    · rintro h _ ⟨⟩
      exact h
    · intro h
      exact h glyphs rfl

/-! ## Strings of the font -/

/-- A small code is the same in both comparisons. -/
theorem short_eq_iff {c : Nat} (hc : c < 2 ^ 15) (v : Int16) :
    v = Int16.ofNat c ↔ v.toInt % 2 ^ 32 = c := by
  have hlo := v.le_toInt
  have hhi := v.toInt_lt
  rw [← Int16.toInt_inj, Int16.toInt_ofNat_of_lt hc]
  omega

theorem isShortPair_eq {c nextC : Nat} (hc : c < 2 ^ 15) (hnext : nextC < 2 ^ 15) :
    isShortPair c nextC = isPair c nextC := by
  funext first second
  unfold isShortPair isPair
  simp only [short_eq_iff hc, short_eq_iff hnext]

/-- A string of characters of the font, none of which has a kerning with the NUL behind it, has the
same pairs in both functions. -/
theorem mispaired_eq_zero {str : List UInt8} (hchars : ∀ b ∈ str, f.Supports b.toNat ∧ b ≠ 0)
    (hlast : ∀ b ∈ str, f.kernAmount (isShortPair b.toNat 0) = 0) : f.mispaired str = 0 := by
  induction str with
  | nil => rfl
  | cons b str ih =>
    have hb := (hchars b List.mem_cons_self)
    have hlt := b.toNat_lt
    have hrest := ih (fun b' h => hchars b' (List.mem_cons_of_mem _ h))
      (fun b' h => hlast b' (List.mem_cons_of_mem _ h))
    rw [mispaired, hrest, f.clamp_supported hb.1 hlt, Int.add_zero]
    cases str with
    | nil => exact (congrArg (· - 0) (hlast b List.mem_cons_self)).trans rfl
    | cons b' str =>
      have hb' := (hchars b' (List.mem_cons_of_mem _ List.mem_cons_self))
      have hlt' := b'.toNat_lt
      have hzero : b.toNat ≠ 0 := fun h => hb.2 (UInt8.toNat_inj.mp h)
      rw [kerningBefore, f.clamp_supported hb'.1 hlt', kerning, if_pos hzero, List.headD_cons,
        isShortPair_eq (by omega) (by omega), Int.sub_self]

/-- The characters `?`, `@` and `A`, eight pixels wide, and a kerning of `A` before `?`. -/
def threeChars : Font where
  fontGlyphs := some fun i => if i % 8 = 7 then 8 else 0
  fontKernings := some fun i => if i = 0 then 65 else if i = 1 then 63 else -1
  fontKerningCount := 1
  glyphCount := 3
  firstChar := 63
  dataGlyphCount := some 3
  glyphCount_lt := by decide
  firstChar_lt := by decide

/-- Only the length has the kerning of `A` and a fallback. -/
theorem fallback_kerned : 10 ∉ [65, 1] ∧ 1 ≤ threeChars.glyphCount ∧
    (threeChars.getStringLength [65, 1] : Int) ≠ max 0 (threeChars.penDistance 0 0 [65, 1]) := by
  decide

theorem length_eq_pen_supported :
    (threeChars.getStringLength [65, 64] : Int) = max 0 (threeChars.penDistance 0 0 [65, 64]) :=
  (threeChars.length_eq_pen_iff 0 0 (by decide) (by decide)).mpr fun _ _ => .inl (by decide)

end Font
end Gui
end Hashx86
