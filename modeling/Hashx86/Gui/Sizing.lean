import Hashx86.Lib.Word32

/-!
# The size of a widget and its cache (`gui/widget.cpp`, `gui/label.cpp`, `gui/button.cpp`)

A cache is kept as its number of pixels. `mem` says whether the allocator answers; a result `none`
is an `Abort`.

* `Exact`: a widget without a cache, or with one of `w * h` pixels.
* `resize_cases`: what `Resize` can do; one that fails does nothing (`resize_false`).
* `Sound`: the cache is exact, and a widget made with a size has one.
* `sound_newWidget`, `Sound.resize`, `Sound.recalc`, `Sound.setWidth`, …: each operation keeps it.
-/

namespace Hashx86
namespace Sizing

open Lib

inductive SizeMode
  | fixed
  | content
  | fill
  deriving DecidableEq

structure Padding where
  t : UInt8
  r : UInt8
  b : UInt8
  l : UInt8

/-- The classes by the sizing code that they have of their own; `plain` are those that have none. -/
inductive Kind
  | plain
  | label
  | button
  | iconButton
  | acrButton
  | progressBar
  deriving DecidableEq

/-- The fields that the sizing code reads and other code sets. -/
structure Attr where
  parent : Option Nat
  x : Int32
  y : Int32
  minWidth : UInt32
  minHeight : UInt32
  padding : Padding
  sizeMode : SizeMode
  /-- `getStringLength` and `getLineHeight` of the text, where there are a text and a font. -/
  text : Option (UInt32 × UInt16)

structure Widget extends Attr where
  kind : Kind
  w : Int32
  h : Int32
  cache : Option Nat
  /-- The size that the constructor was given (nothing reads it). -/
  made : Int32 × Int32

/-! ## Buffers -/

/-- `new uint32_t[count]()`. -/
def newPixels (mem : Bool) (count : UInt32) : Option Nat :=
  if mem && count ≤ 0x3FFFFFFF then some count.toNat else none

/-- The check of the constructor, of `Resize` and of `Label::Recalc`. -/
def overflows (w h : Int32) : Bool :=
  area w h / w.toUInt32 != h.toUInt32 || 0x3FFFFFFF < area w h

/-- A cache for a size, or an `Abort`. -/
def cacheOrAbort (mem : Bool) (w h : Int32) : Option (Option Nat) :=
  if 0 < w ∧ 0 < h then
    if overflows w h then none else (newPixels mem (area w h)).map some
  else some none

/-- `reallocateCache`, and the same lines in `Button::SetWidth` and `Button::SetHeight`. -/
def reallocateCache (mem : Bool) (w h : Int32) : Option Nat :=
  if 0 < w ∧ 0 < h ∧ area w h / w.toUInt32 = h.toUInt32 then newPixels mem (area w h) else none

def atLeast (least n : Int32) : Int32 := if n < least then least else n

/-- A buffer for a size is none at all or has its number of pixels. -/
def ExactFor (w h : Int32) (cache : Option Nat) : Prop :=
  ∀ n, cache = some n → 0 < w ∧ 0 < h ∧ (n : Int) = w.toInt * h.toInt

theorem newPixels_eq {mem : Bool} {count : UInt32} {n : Nat} (h : newPixels mem count = some n) :
    n = count.toNat := by
  rw [newPixels] at h
  split at h
  · exact (Option.some.inj h).symm
  · cases h

theorem exactFor_none (w h : Int32) : ExactFor w h none := by
  intro n hn
  cases hn

theorem exactFor_newPixels {mem : Bool} {w h : Int32} (hw : 0 < w) (hh : 0 < h)
    (hdiv : area w h / w.toUInt32 = h.toUInt32) : ExactFor w h (newPixels mem (area w h)) := by
  intro n hn
  rw [newPixels_eq hn]
  exact ⟨hw, hh, area_exact hw hh hdiv⟩

theorem overflows_eq_false {w h : Int32} (hover : overflows w h = false) :
    area w h / w.toUInt32 = h.toUInt32 := by
  rw [overflows, Bool.or_eq_false_iff] at hover
  simpa using hover.1

theorem exactFor_cacheOrAbort {mem : Bool} {w h : Int32} {cache : Option Nat}
    (hc : cacheOrAbort mem w h = some cache) : ExactFor w h cache := by
  rw [cacheOrAbort] at hc
  split at hc
  next hpos =>
    split at hc
    · cases hc
    next hover =>
      obtain ⟨n, hn, rfl⟩ := Option.map_eq_some_iff.mp hc
      rw [← hn]
      exact exactFor_newPixels hpos.1 hpos.2 (overflows_eq_false (by simpa using hover))
  next =>
    cases hc
    exact exactFor_none w h

theorem exactFor_reallocateCache (mem : Bool) (w h : Int32) :
    ExactFor w h (reallocateCache mem w h) := by
  rw [reallocateCache]
  split
  next hpos => exact exactFor_newPixels hpos.1 hpos.2.1 hpos.2.2
  next => exact exactFor_none w h

theorem atLeast_nonneg {least n : Int32} : 0 ≤ atLeast least n ↔ 0 ≤ n ∨ 0 ≤ least := by
  rw [atLeast]
  grind

theorem toInt_atLeast (least n : Int32) : (atLeast least n).toInt = max least.toInt n.toInt := by
  rw [atLeast]
  split
  next h =>
    rw [Int32.lt_iff_toInt_lt] at h
    omega
  next h =>
    rw [Int32.lt_iff_toInt_lt] at h
    omega

/-! ## The constructors -/

/-- `ACRButton::ACRButton`: the side of the button. -/
def diameter (text : Option (UInt32 × UInt16)) : Int32 :=
  let textW := text.elim 0 fun t => t.1.toInt32
  let textH := text.elim 0 fun t => t.2.toUInt32.toInt32
  let d := if textH < textW then textW else textH
  (if d = 0 then 8 else d) + 4

/-- The buffer that `ACRButton::ACRButton` and `ProgressBar::ProgressBar` put in the place of the
first one, where `fits` is their check of the number of pixels. -/
def ownCache (fits : UInt32 → Bool) (mem : Bool) (w h : Int32) : Option (Option Nat) :=
  if 0 < w ∧ 0 < h then
    if fits (area w h) then (newPixels mem (area w h)).map some else none
  else some none

/-- The constructors: that of `Widget`, and what those of the classes do to the size. -/
def newWidget (kind : Kind) (attr : Attr) (w h : Int32) (mem : Bool × Bool) : Option Widget :=
  match kind with
  | .acrButton => do
    let _ ← cacheOrAbort mem.1 0 0
    let d := diameter attr.text
    let cache ← ownCache (fun _ => true) mem.2 d d
    some { attr with kind := .acrButton, w := d, h := d, cache := cache, made := (0, 0) }
  | .progressBar => do
    let _ ← cacheOrAbort mem.1 w h
    let cache ← ownCache (fun pixels => pixels ≤ 0x3FFFFFFF) mem.2 w h
    some { attr with kind := .progressBar, w := w, h := h, cache := cache, made := (w, h) }
  | kind => do
    let cache ← cacheOrAbort mem.1 w h
    some { attr with kind := kind, w := w, h := h, cache := cache, made := (w, h) }

namespace Widget

/-! ## `Resize` and `Recalc` -/

def resize (mem : Bool) (newW newH : Int32) (v : Widget) : Bool × Widget :=
  if newW < 0 ∨ newH < 0 then (false, v)
  else if newW = v.w ∧ newH = v.h then (true, v)
  else if 0 < newW ∧ 0 < newH then
    if overflows newW newH then (false, v)
    else
      match newPixels mem (area newW newH) with
      | none => (false, v)
      | some n => (true, { v with w := newW, h := newH, cache := some n })
  else (true, { v with w := newW, h := newH, cache := none })

/-- `Widget::Recalc`. -/
def recalcBase (mem : Bool) (parent : Option Widget) (v : Widget) : Widget :=
  let toSize (newW newH : Int32) : Widget :=
    let newW := atLeast v.minWidth.toInt32 newW
    let newH := atLeast v.minHeight.toInt32 newH
    if newW ≠ v.w ∨ newH ≠ v.h then (v.resize mem newW newH).2 else v
  match v.sizeMode with
  | .content => toSize v.w v.h
  | .fill => toSize (parent.elim v.w Widget.w) (parent.elim v.h Widget.h)
  | .fixed => v

/-- The size of the text of a label with its padding. -/
def contentSize (v : Widget) : Int32 × Int32 :=
  match v.text with
  | none => (v.w, v.h)
  | some (length, lineHeight) =>
    ((length + v.padding.l.toUInt32 + v.padding.r.toUInt32).toInt32,
      (lineHeight.toUInt32 + v.padding.t.toUInt32 + v.padding.b.toUInt32).toInt32)

/-- The size of the parent of a label less its padding. -/
def fillSize (parent : Option Widget) (v : Widget) : Int32 × Int32 :=
  match parent with
  | none => (v.w, v.h)
  | some p =>
    (p.w - v.padding.l.toUInt32.toInt32 - v.padding.r.toUInt32.toInt32,
      p.h - v.padding.t.toUInt32.toInt32 - v.padding.b.toUInt32.toInt32)

/-- The size and the buffer that `Label::Recalc` puts in place. -/
def withSize (mem : Bool) (newW newH : Int32) (v : Widget) : Option Widget :=
  if newW ≠ v.w ∨ newH ≠ v.h then
    (cacheOrAbort mem newW newH).map fun cache => { v with w := newW, h := newH, cache := cache }
  else some v

/-- A lower bound that counts only if it is positive. -/
def atLeastPos (least n : Int32) : Int32 := if 0 < least ∧ n < least then least else n

/-- `Label::Recalc`. -/
def labelRecalc (mem : Bool) (parent : Option Widget) (v : Widget) : Option Widget :=
  match v.sizeMode with
  | .content =>
    v.withSize mem (atLeast v.minWidth.toInt32 v.contentSize.1)
      (atLeast v.minHeight.toInt32 v.contentSize.2)
  | .fill =>
    v.withSize mem (atLeastPos v.minWidth.toInt32 (v.fillSize parent).1)
      (atLeastPos v.minHeight.toInt32 (v.fillSize parent).2)
  | .fixed => some v

def recalc (mem : Bool) (parent : Option Widget) (v : Widget) : Option Widget :=
  match v.kind with
  | .label => v.labelRecalc mem parent
  | _ => some (v.recalcBase mem parent)

/-! ## The setters of the buttons -/

/-- The width of a button's label and its frame. -/
def minW (v : Widget) : Int32 := v.text.elim 0 fun t => (t.1 + 4).toInt32

def minH (v : Widget) : Int32 := v.text.elim 0 fun t => t.2.toUInt32.toInt32 + 4

def reallocate (mem : Bool) (w h : Int32) (v : Widget) : Widget :=
  { v with w := w, h := h, cache := reallocateCache mem w h }

def setWidth (mem : Bool) (reqW : Int32) (v : Widget) : Widget :=
  v.reallocate mem (atLeast v.minW reqW) v.h

def setHeight (mem : Bool) (reqH : Int32) (v : Widget) : Widget :=
  v.reallocate mem v.w (atLeast v.minH reqH)

def setIconWidth (mem : Bool) (reqW : Int32) (v : Widget) : Widget :=
  v.reallocate mem (atLeast v.minWidth.toInt32 reqW) v.h

def setIconHeight (mem : Bool) (reqH : Int32) (v : Widget) : Widget :=
  v.reallocate mem v.w (atLeast v.minHeight.toInt32 reqH)

/-- How many bytes `RedrawToCache` clears, from the start of the cache. -/
def redrawBytes (v : Widget) : Nat :=
  if v.cache.isSome then (4 * v.w.toUInt32 * v.h.toUInt32).toNat else 0

/-! ## What holds of a widget -/

def Exact (v : Widget) : Prop := ExactFor v.w v.h v.cache

/-- It was made with a size that is not negative. -/
def Made (v : Widget) : Prop := 0 ≤ v.made.1 ∧ 0 ≤ v.made.2

structure Sound (v : Widget) : Prop where
  exact : v.Exact
  nonneg : v.Made → 0 ≤ v.w ∧ 0 ≤ v.h

/-- `Resize` fails and does nothing, finds the size as it is, or gives the widget the size and a
cache for it. -/
theorem resize_cases (mem : Bool) (newW newH : Int32) (v : Widget) :
    v.resize mem newW newH = (false, v) ∨
      (v.resize mem newW newH = (true, v) ∧ newW = v.w ∧ newH = v.h) ∨
      (0 ≤ newW ∧ 0 ≤ newH ∧ ∃ cache, ExactFor newW newH cache ∧
        v.resize mem newW newH = (true, { v with w := newW, h := newH, cache := cache })) := by
  rw [resize]
  split
  · exact .inl rfl
  next hneg =>
    have hw : 0 ≤ newW := by grind
    have hh : 0 ≤ newH := by grind
    split
    next hsame => exact .inr (.inl ⟨rfl, hsame⟩)
    split
    next hpos =>
      split
      · exact .inl rfl
      next hover =>
        have hdiv := overflows_eq_false (by simpa using hover)
        have hexact : ExactFor newW newH (newPixels mem (area newW newH)) :=
          exactFor_newPixels hpos.1 hpos.2 hdiv
        split
        · exact .inl rfl
        next n hn =>
          rw [hn] at hexact
          exact .inr (.inr ⟨hw, hh, some n, hexact, rfl⟩)
    next =>
      exact .inr (.inr ⟨hw, hh, none, exactFor_none newW newH, rfl⟩)

theorem resize_false {mem : Bool} {newW newH : Int32} {v : Widget}
    (hr : (v.resize mem newW newH).1 = false) : (v.resize mem newW newH).2 = v := by
  obtain h | ⟨h, -⟩ | ⟨-, -, _, -, h⟩ := resize_cases mem newW newH v
  · rw [h]
  · rw [h]
  · rw [h] at hr
    cases hr

/-- A `Resize` that does not fail gives the widget the size and leaves its other fields alone. -/
theorem resize_true {mem : Bool} {newW newH : Int32} {v : Widget}
    (hr : (v.resize mem newW newH).1 = true) :
    ∃ cache, (v.resize mem newW newH).2 = { v with w := newW, h := newH, cache := cache } := by
  obtain h | ⟨h, rfl, rfl⟩ | ⟨-, -, cache, -, h⟩ := resize_cases mem newW newH v
  · rw [h] at hr
    cases hr
  · rw [h]
    exact ⟨v.cache, rfl⟩
  · rw [h]
    exact ⟨cache, rfl⟩

theorem Sound.resize {v : Widget} (hv : v.Sound) (mem : Bool) (newW newH : Int32) :
    (v.resize mem newW newH).2.Sound := by
  obtain h | ⟨h, -⟩ | ⟨hw, hh, cache, hexact, h⟩ := resize_cases mem newW newH v
  · rw [h]
    exact hv
  · rw [h]
    exact hv
  · rw [h]
    exact ⟨hexact, fun _ => ⟨hw, hh⟩⟩

theorem Sound.recalcBase {v : Widget} (hv : v.Sound) (mem : Bool) (parent : Option Widget) :
    (v.recalcBase mem parent).Sound := by
  have hsize : ∀ newW newH : Int32, Sound
      (if newW ≠ v.w ∨ newH ≠ v.h then (v.resize mem newW newH).2 else v) := by
    intro newW newH
    split
    · exact hv.resize mem newW newH
    · exact hv
  rw [Widget.recalcBase]
  cases v.sizeMode with
  | content => exact hsize _ _
  | fill => exact hsize _ _
  | fixed => exact hv

theorem Sound.withSize {v v' : Widget} (hv : v.Sound) {mem : Bool} {newW newH : Int32}
    (hr : v.withSize mem newW newH = some v') (hpos : v.Made → 0 ≤ newW ∧ 0 ≤ newH) :
    v'.Sound := by
  rw [Widget.withSize] at hr
  split at hr
  · obtain ⟨cache, hcache, rfl⟩ := Option.map_eq_some_iff.mp hr
    exact ⟨exactFor_cacheOrAbort hcache, hpos⟩
  · cases hr
    exact hv

/-- Where `Label::Recalc` gives a size that is not negative: one bound from below does, or what it
starts from. -/
def RecalcFits (parent : Option Widget) (v : Widget) : Prop :=
  match v.sizeMode with
  | .content => (0 ≤ v.contentSize.1 ∨ 0 ≤ v.minWidth.toInt32) ∧
      (0 ≤ v.contentSize.2 ∨ 0 ≤ v.minHeight.toInt32)
  | .fill => (0 ≤ (v.fillSize parent).1 ∨ 0 < v.minWidth.toInt32) ∧
      (0 ≤ (v.fillSize parent).2 ∨ 0 < v.minHeight.toInt32)
  | .fixed => True

theorem atLeastPos_nonneg {least n : Int32} : 0 ≤ atLeastPos least n ↔ 0 ≤ n ∨ 0 < least := by
  rw [atLeastPos]
  grind

theorem Sound.recalc {v v' : Widget} (hv : v.Sound) {mem : Bool} {parent : Option Widget}
    (hr : v.recalc mem parent = some v')
    (hfit : v.kind = .label → v.Made → v.RecalcFits parent) : v'.Sound := by
  rw [Widget.recalc] at hr
  split at hr
  next hkind =>
    have hfit := hfit hkind
    cases hmode : v.sizeMode with
    | content =>
      simp only [labelRecalc, hmode] at hr
      simp only [RecalcFits, hmode] at hfit
      exact hv.withSize hr fun hm =>
        ⟨atLeast_nonneg.mpr (hfit hm).1, atLeast_nonneg.mpr (hfit hm).2⟩
    | fill =>
      simp only [labelRecalc, hmode] at hr
      simp only [RecalcFits, hmode] at hfit
      exact hv.withSize hr fun hm =>
        ⟨atLeastPos_nonneg.mpr (hfit hm).1, atLeastPos_nonneg.mpr (hfit hm).2⟩
    | fixed =>
      simp only [labelRecalc, hmode] at hr
      cases hr
      exact hv
  next =>
    cases hr
    exact hv.recalcBase mem parent

theorem Sound.reallocate (v : Widget) (mem : Bool) {w h : Int32}
    (hpos : v.Made → 0 ≤ w ∧ 0 ≤ h) : (v.reallocate mem w h).Sound :=
  ⟨exactFor_reallocateCache mem w h, hpos⟩

theorem minH_nonneg (v : Widget) : 0 ≤ v.minH := by
  rw [minH]
  cases v.text with
  | none => decide
  | some t =>
    have ht : t.2.toUInt32.toNat < 2 ^ 16 := by
      rw [UInt16.toNat_toUInt32]
      exact t.2.toNat_lt
    have hint : t.2.toUInt32.toInt32.toInt = t.2.toUInt32.toNat := toInt_toInt32 (by omega)
    have h4 : (4 : Int32).toInt = 4 := by decide
    rw [Option.elim_some, toInt_nonneg, toInt_add_eq (by omega) (by omega)]
    omega

theorem Sound.redraw {v : Widget} (hv : v.Sound) {n : Nat} (hn : v.cache = some n) :
    v.redrawBytes ≤ 4 * n := by
  obtain ⟨hw, hh, hprod⟩ := hv.exact n hn
  have hw' := toNat_toUInt32 (n := v.w) (by grind)
  have hh' := toNat_toUInt32 (n := v.h) (by grind)
  have hn' : n = v.w.toUInt32.toNat * v.h.toUInt32.toNat := by
    rw [← hw', ← hh'] at hprod
    exact_mod_cast hprod
  rw [redrawBytes, hn, Option.isSome_some, if_pos rfl, UInt32.toNat_mul, UInt32.toNat_mul, hn',
    Nat.mod_mul_mod, ← Nat.mul_assoc]
  exact Nat.mod_le _ _

end Widget

/-! ## A new widget -/

theorem exactFor_ownCache {fits : UInt32 → Bool} {mem : Bool} {w h : Int32} {cache : Option Nat}
    (hprod : 0 < w → 0 < h → ((area w h).toNat : Int) = w.toInt * h.toInt)
    (hc : ownCache fits mem w h = some cache) : ExactFor w h cache := by
  rw [ownCache] at hc
  split at hc
  next hpos =>
    split at hc
    next =>
      obtain ⟨k, hk, rfl⟩ := Option.map_eq_some_iff.mp hc
      intro n hn
      rw [← Option.some.inj hn, newPixels_eq hk]
      exact ⟨hpos.1, hpos.2, hprod hpos.1 hpos.2⟩
    next => cases hc
  next =>
    cases hc
    exact exactFor_none w h

/-- A size for which `Widget::Widget` did not abort has a number of pixels that is a word. -/
theorem area_of_cacheOrAbort {mem : Bool} {w h : Int32} {cache : Option Nat}
    (hc : cacheOrAbort mem w h = some cache) (hw : 0 < w) (hh : 0 < h) :
    ((area w h).toNat : Int) = w.toInt * h.toInt := by
  rw [cacheOrAbort, if_pos ⟨hw, hh⟩] at hc
  split at hc
  · cases hc
  next hover => exact area_exact hw hh (overflows_eq_false (by simpa using hover))

/-- The text of a round button is small enough for the number of its pixels to be a word. -/
def SmallText (text : Option (UInt32 × UInt16)) : Prop :=
  ∀ t, text = some t → t.1.toNat < 65532 ∧ t.2.toNat < 65532

theorem diameter_bounds {text : Option (UInt32 × UInt16)} (hs : SmallText text) :
    0 < (diameter text).toInt ∧ (diameter text).toInt < 2 ^ 16 := by
  have h4 : (4 : Int32).toInt = 4 := by decide
  have hsum : ∀ d : Int32, 0 ≤ d.toInt ∧ d.toInt < 65532 →
      0 < (d + 4).toInt ∧ (d + 4).toInt < 2 ^ 16 := by
    intro d hd
    rw [toInt_add_eq (by omega) (by omega)]
    omega
  apply hsum
  cases text with
  | none => decide
  | some t =>
    obtain ⟨hl, hh⟩ := hs t rfl
    have hW : t.1.toInt32.toInt = t.1.toNat := toInt_toInt32 (by omega)
    have hH : t.2.toUInt32.toInt32.toInt = t.2.toNat := by
      rw [toInt_toInt32 (by rw [UInt16.toNat_toUInt32]; omega), UInt16.toNat_toUInt32]
    have hmax := iteInduction (c := t.2.toUInt32.toInt32 < t.1.toInt32)
      (motive := fun d : Int32 => 0 ≤ d.toInt ∧ d.toInt < 65532)
      (fun _ => (by omega : 0 ≤ t.1.toInt32.toInt ∧ t.1.toInt32.toInt < 65532))
      (fun _ => (by omega : 0 ≤ t.2.toUInt32.toInt32.toInt ∧ t.2.toUInt32.toInt32.toInt < 65532))
    exact iteInduction (motive := fun d : Int32 => 0 ≤ d.toInt ∧ d.toInt < 65532)
      (fun _ => by decide) (fun _ => hmax)

/-- The buffer of a round button with a small text: its square is a word. -/
theorem area_diameter {text : Option (UInt32 × UInt16)} (hs : SmallText text) :
    ((area (diameter text) (diameter text)).toNat : Int) =
      (diameter text).toInt * (diameter text).toInt := by
  obtain ⟨hpos, hlt⟩ := diameter_bounds hs
  apply area_of_lt (toInt_pos.mpr hpos) (toInt_pos.mpr hpos)
  calc (diameter text).toInt * (diameter text).toInt
      ≤ (2 ^ 16 - 1) * (2 ^ 16 - 1) :=
        Int.mul_le_mul (by omega) (by omega) (by omega) (by decide)
    _ < 2 ^ 32 := by decide

theorem sound_newWidget {kind : Kind} {attr : Attr} {w h : Int32} {mem : Bool × Bool} {v : Widget}
    (hnew : newWidget kind attr w h mem = some v)
    (hsmall : kind = .acrButton → SmallText attr.text) : v.Sound := by
  cases kind with
  | acrButton =>
    simp only [newWidget, Option.bind_eq_bind, Option.bind_eq_some_iff, Option.some.injEq] at hnew
    obtain ⟨_, -, cache, hcache, rfl⟩ := hnew
    have hd := diameter_bounds (hsmall rfl)
    refine ⟨exactFor_ownCache (fun _ _ => area_diameter (hsmall rfl)) hcache, fun _ => ?_⟩
    have hnonneg := toInt_nonneg.mpr (Int.le_of_lt hd.1)
    exact ⟨hnonneg, hnonneg⟩
  | progressBar =>
    simp only [newWidget, Option.bind_eq_bind, Option.bind_eq_some_iff, Option.some.injEq] at hnew
    obtain ⟨_, hfirst, cache, hcache, rfl⟩ := hnew
    exact ⟨exactFor_ownCache (area_of_cacheOrAbort hfirst) hcache, id⟩
  | _ =>
    simp only [newWidget, Option.bind_eq_bind, Option.bind_eq_some_iff, Option.some.injEq] at hnew
    obtain ⟨cache, hcache, rfl⟩ := hnew
    exact ⟨exactFor_cacheOrAbort hcache, id⟩

end Sizing
end Hashx86
