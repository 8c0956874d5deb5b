import Hashx86.Lib.Grid
import Hashx86.Lib.Run
import Mathlib.Data.List.TakeWhile

/-!
# The cursor (`gui/desktop.cpp`, `gui/render/nina.cpp`)

`Desktop::Draw` paints all and then the cursor, or, if only the pointer moved, restores the pixels
that it saved under the cursor, saves those at the new place and paints the cursor there.

* `drawBitmap_frame`: a bitmap changes pixels in its rectangle only.
* `drawBitmap_solid`: an opaque bitmap of the size of the frame replaces it.
* `Clean`: the frame is that of a full redraw, and what is under the cursor is saved.
* `draws_along`: the frame is that of a full redraw after each move, if what is painted does not
  depend on the frame before.
-/

namespace Hashx86
namespace Cursor

open Lib

/-- The pixels of the back buffer, by column and row. -/
abbrev Frame (w h : Nat) := Fin w → Fin h → UInt32

variable {w h : Nat}

def Frame.modify (f : Frame w h) (x y : Int) (g : UInt32 → UInt32) : Frame w h :=
  fun i j => if (i : Int) = x ∧ (j : Int) = y then g (f i j) else f i j

theorem Frame.modify_ne {f : Frame w h} {x y : Int} {g : UInt32 → UInt32} {i : Fin w} {j : Fin h}
    (hne : ¬ ((i : Int) = x ∧ (j : Int) = y)) : f.modify x y g i j = f i j :=
  if_neg hne

theorem Frame.modify_eq {f : Frame w h} {x y : Int} {g : UInt32 → UInt32} {i : Fin w} {j : Fin h}
    (hi : (i : Int) = x) (hj : (j : Int) = y) : f.modify x y g i j = g (f i j) :=
  if_pos ⟨hi, hj⟩

/-! ## `NINA::DrawBitmap` -/

def alphaOf (color : UInt32) : UInt32 := color >>> 24 &&& 0xFF

/-- `alphaTable[a][c]` -/
def alphaTable (a c : UInt32) : UInt8 := (c * a / 255).toUInt8

def channel (color : UInt32) (shift : UInt32) : UInt32 := color >>> shift &&& 0xFF

/-- One pixel of the bitmap over one of the frame. -/
def blend (src dst : UInt32) : UInt32 :=
  let alpha := alphaOf src
  if alpha = 0 then dst
  else
    let mix (shift : UInt32) : UInt32 := (alphaTable alpha (channel src shift) +
      alphaTable (255 - alpha) (channel dst shift)).toUInt32
    (255 : UInt32) <<< 24 ||| mix 16 <<< 16 ||| mix 8 <<< 8 ||| mix 0

/-- One row of a bitmap: its first opaque run is copied, the rest is blended. -/
def drawRow (startX screenY : Int) (bmp : Nat → UInt32) (drawWidth : Nat) (f : Frame w h) :
    Frame w h :=
  let runLength := ((List.range drawWidth).takeWhile fun col => alphaOf (bmp col) = 255).length
  let f := (List.range runLength).foldl
    (fun f (col : Nat) => f.modify (startX + col) screenY fun _ => bmp col) f
  (List.range' runLength (drawWidth - runLength)).foldl
    (fun f (col : Nat) => f.modify (startX + col) screenY (blend (bmp col))) f

/-- The first column of the bitmap that is on the frame. -/
def startCol (x : Int) : Int := if x < 0 then -x else 0

def startX (x : Int) : Int := if x < 0 then 0 else x

/-- How many columns of the bitmap are on the frame. -/
def drawWidth (w : Nat) (x bitmapWidth : Int) : Int :=
  if startX x + (bitmapWidth - startCol x) > w then w - startX x else bitmapWidth - startCol x

def drawBitmap (x y : Int) (bitmapData : Nat → UInt32) (bitmapWidth bitmapHeight : Int)
    (f : Frame w h) : Frame w h :=
  if w = 0 ∨ h = 0 ∨ bitmapWidth ≤ 0 ∨ bitmapHeight ≤ 0 then f
  else if w ≤ x ∨ h ≤ y then f
  else if x + bitmapWidth ≤ 0 ∨ y + bitmapHeight ≤ 0 then f
  else if drawWidth w x bitmapWidth ≤ 0 then f
  else
    (List.range bitmapHeight.toNat).foldl
      (fun f (row : Nat) =>
        let screenY := y + row
        let bmp (col : Nat) := bitmapData (row * bitmapWidth + startCol x + col).toNat
        if screenY < 0 ∨ h ≤ screenY then f
        else drawRow (startX x) screenY bmp (drawWidth w x bitmapWidth).toNat f) f

/-! ## The desktop -/

def cursorSize : Nat := 20

def icon_cursor_20x20 : List (List UInt32) := [
    [0xFF9D9D9D, 0xD89D9D9D, 0x049D9D9D, 0x00FFFFFF, 0x00FFFFFF, 0x00FFFFFF, 0x00FFFFFF,
      0x00FFFFFF, 0x00FFFFFF, 0x00FFFFFF, 0x00FFFFFF, 0x00FFFFFF, 0x00FFFFFF, 0x00FFFFFF,
      0x00FFFFFF, 0x00FFFFFF, 0x00FFFFFF, 0x00FFFFFF, 0x00FFFFFF, 0x00FFFFFF],
    [0xF29D9D9D, 0xFF5A5A5A, 0xD59D9D9D, 0x0E9D9D9D, 0x00FFFFFF, 0x00FFFFFF, 0x00FFFFFF,
      0x00FFFFFF, 0x00FFFFFF, 0x00FFFFFF, 0x00FFFFFF, 0x00FFFFFF, 0x00FFFFFF, 0x00FFFFFF,
      0x00FFFFFF, 0x00FFFFFF, 0x00FFFFFF, 0x00FFFFFF, 0x00FFFFFF, 0x00FFFFFF],
    [0xF29D9D9D, 0xFF080808, 0xFF545454, 0xE29D9D9D, 0x189D9D9D, 0x00FFFFFF, 0x00FFFFFF,
      0x00FFFFFF, 0x00FFFFFF, 0x00FFFFFF, 0x00FFFFFF, 0x00FFFFFF, 0x00FFFFFF, 0x00FFFFFF,
      0x00FFFFFF, 0x00FFFFFF, 0x00FFFFFF, 0x00FFFFFF, 0x00FFFFFF, 0x00FFFFFF],
    [0xF29D9D9D, 0xFF080808, 0xFF000000, 0xFF4E4E4E, 0xED9D9D9D, 0x259D9D9D, 0x00FFFFFF,
      0x00FFFFFF, 0x00FFFFFF, 0x00FFFFFF, 0x00FFFFFF, 0x00FFFFFF, 0x00FFFFFF, 0x00FFFFFF,
      0x00FFFFFF, 0x00FFFFFF, 0x00FFFFFF, 0x00FFFFFF, 0x00FFFFFF, 0x00FFFFFF],
    [0xF29D9D9D, 0xFF080808, 0xFF000000, 0xFF000000, 0xFF464646, 0xF89D9D9D, 0x339D9D9D,
      0x00FFFFFF, 0x00FFFFFF, 0x00FFFFFF, 0x00FFFFFF, 0x00FFFFFF, 0x00FFFFFF, 0x00FFFFFF,
      0x00FFFFFF, 0x00FFFFFF, 0x00FFFFFF, 0x00FFFFFF, 0x00FFFFFF, 0x00FFFFFF],
    [0xF29D9D9D, 0xFF080808, 0xFF000000, 0xFF000000, 0xFF000000, 0xFF3D3D3D, 0xFF7E7E7E,
      0x409D9D9D, 0x00FFFFFF, 0x00FFFFFF, 0x00FFFFFF, 0x00FFFFFF, 0x00FFFFFF, 0x00FFFFFF,
      0x00FFFFFF, 0x00FFFFFF, 0x00FFFFFF, 0x00FFFFFF, 0x00FFFFFF, 0x00FFFFFF],
    [0xF29D9D9D, 0xFF080808, 0xFF000000, 0xFF000000, 0xFF000000, 0xFF000000, 0xFF353535,
      0xFF767676, 0x4F9D9D9D, 0x00FFFFFF, 0x00FFFFFF, 0x00FFFFFF, 0x00FFFFFF, 0x00FFFFFF,
      0x00FFFFFF, 0x00FFFFFF, 0x00FFFFFF, 0x00FFFFFF, 0x00FFFFFF, 0x00FFFFFF],
    [0xF29D9D9D, 0xFF080808, 0xFF000000, 0xFF000000, 0xFF000000, 0xFF000000, 0xFF000000,
      0xFF2C2C2C, 0xFF6C6C6C, 0x5E9D9D9D, 0x00FFFFFF, 0x00FFFFFF, 0x00FFFFFF, 0x00FFFFFF,
      0x00FFFFFF, 0x00FFFFFF, 0x00FFFFFF, 0x00FFFFFF, 0x00FFFFFF, 0x00FFFFFF],
    [0xF29D9D9D, 0xFF080808, 0xFF000000, 0xFF000000, 0xFF000000, 0xFF000000, 0xFF000000,
      0xFF000000, 0xFF222222, 0xFF636363, 0x6D9D9D9D, 0x00FFFFFF, 0x00FFFFFF, 0x00FFFFFF,
      0x00FFFFFF, 0x00FFFFFF, 0x00FFFFFF, 0x00FFFFFF, 0x00FFFFFF, 0x00FFFFFF],
    [0xF29D9D9D, 0xFF080808, 0xFF000000, 0xFF000000, 0xFF000000, 0xFF000000, 0xFF000000,
      0xFF000000, 0xFF000000, 0xFF191919, 0xFF5C5C5C, 0x829D9D9D, 0x00FFFFFF, 0x00FFFFFF,
      0x00FFFFFF, 0x00FFFFFF, 0x00FFFFFF, 0x00FFFFFF, 0x00FFFFFF, 0x00FFFFFF],
    [0xF29D9D9D, 0xFF080808, 0xFF000000, 0xFF000000, 0xFF000000, 0xFF000000, 0xFF020202,
      0xFF424242, 0xFF5C5C5C, 0xFF696969, 0xFF767676, 0xFF9D9D9D, 0x00FFFFFF, 0x00FFFFFF,
      0x00FFFFFF, 0x00FFFFFF, 0x00FFFFFF, 0x00FFFFFF, 0x00FFFFFF, 0x00FFFFFF],
    [0xF29D9D9D, 0xFF080808, 0xFF000000, 0xFF000000, 0xFF000000, 0xFF000000, 0xFF424242,
      0x939D9D9D, 0x6A9D9D9D, 0x559D9D9D, 0x409D9D9D, 0x2C9D9D9D, 0x00FFFFFF, 0x00FFFFFF,
      0x00FFFFFF, 0x00FFFFFF, 0x00FFFFFF, 0x00FFFFFF, 0x00FFFFFF, 0x00FFFFFF],
    [0xF29D9D9D, 0xFF080808, 0xFF222222, 0xFF636363, 0xFF6B6B6B, 0xFF2A2A2A, 0xFF575757,
      0x719D9D9D, 0x00FFFFFF, 0x00FFFFFF, 0x00FFFFFF, 0x00FFFFFF, 0x00FFFFFF, 0x00FFFFFF,
      0x00FFFFFF, 0x00FFFFFF, 0x00FFFFFF, 0x00FFFFFF, 0x00FFFFFF, 0x00FFFFFF],
    [0xF09D9D9D, 0xFF111111, 0xFF636363, 0x5E9D9D9D, 0x529D9D9D, 0xFF6B6B6B, 0xFF171717,
      0xFE9D9D9D, 0x0F9D9D9D, 0x00FFFFFF, 0x00FFFFFF, 0x00FFFFFF, 0x00FFFFFF, 0x00FFFFFF,
      0x00FFFFFF, 0x00FFFFFF, 0x00FFFFFF, 0x00FFFFFF, 0x00FFFFFF, 0x00FFFFFF],
    [0xFF9D9D9D, 0xFF5C5C5C, 0x7A9D9D9D, 0x00FFFFFF, 0x00FFFFFF, 0xF49D9D9D, 0xFF070707,
      0xFF535353, 0x829D9D9D, 0x00FFFFFF, 0x00FFFFFF, 0x00FFFFFF, 0x00FFFFFF, 0x00FFFFFF,
      0x00FFFFFF, 0x00FFFFFF, 0x00FFFFFF, 0x00FFFFFF, 0x00FFFFFF, 0x00FFFFFF],
    [0xFF9D9D9D, 0x819D9D9D, 0x00FFFFFF, 0x00FFFFFF, 0x00FFFFFF, 0x8B9D9D9D, 0xFF4D4D4D,
      0xFF0C0C0C, 0xF49D9D9D, 0x039D9D9D, 0x00FFFFFF, 0x00FFFFFF, 0x00FFFFFF, 0x00FFFFFF,
      0x00FFFFFF, 0x00FFFFFF, 0x00FFFFFF, 0x00FFFFFF, 0x00FFFFFF, 0x00FFFFFF],
    [0x1B9D9D9D, 0x00FFFFFF, 0x00FFFFFF, 0x00FFFFFF, 0x00FFFFFF, 0x199D9D9D, 0xFF8E8E8E,
      0xFF000000, 0xFF5C5C5C, 0x6A9D9D9D, 0x00FFFFFF, 0x00FFFFFF, 0x00FFFFFF, 0x00FFFFFF,
      0x00FFFFFF, 0x00FFFFFF, 0x00FFFFFF, 0x00FFFFFF, 0x00FFFFFF, 0x00FFFFFF],
    [0x00FFFFFF, 0x00FFFFFF, 0x00FFFFFF, 0x00FFFFFF, 0x00FFFFFF, 0x00FFFFFF, 0xB29D9D9D,
      0xFF3A3A3A, 0xFF1B1B1B, 0xFF949494, 0x0E9D9D9D, 0x00FFFFFF, 0x00FFFFFF, 0x00FFFFFF,
      0x00FFFFFF, 0x00FFFFFF, 0x00FFFFFF, 0x00FFFFFF, 0x00FFFFFF, 0x00FFFFFF],
    [0x00FFFFFF, 0x00FFFFFF, 0x00FFFFFF, 0x00FFFFFF, 0x00FFFFFF, 0x00FFFFFF, 0x389D9D9D,
      0xFF7B7B7B, 0xFF6E6E6E, 0xBE9D9D9D, 0x129D9D9D, 0x00FFFFFF, 0x00FFFFFF, 0x00FFFFFF,
      0x00FFFFFF, 0x00FFFFFF, 0x00FFFFFF, 0x00FFFFFF, 0x00FFFFFF, 0x00FFFFFF],
    [0x00FFFFFF, 0x00FFFFFF, 0x00FFFFFF, 0x00FFFFFF, 0x00FFFFFF, 0x00FFFFFF, 0x00FFFFFF,
      0x859D9D9D, 0x4C9D9D9D, 0x00FFFFFF, 0x00FFFFFF, 0x00FFFFFF, 0x00FFFFFF, 0x00FFFFFF,
      0x00FFFFFF, 0x00FFFFFF, 0x00FFFFFF, 0x00FFFFFF, 0x00FFFFFF, 0x00FFFFFF]]

/-- The cursor as one array. -/
def cursorData (k : Nat) : UInt32 := (icon_cursor_20x20.getD (k / 20) []).getD (k % 20) 0

@[irreducible] def drawCursor (x y : Nat) (f : Frame w h) : Frame w h :=
  drawBitmap x y cursorData cursorSize cursorSize f

/-- What a full redraw paints: the wallpaper, and over it the windows and the taskbar. -/
structure Scene (w h : Nat) where
  wallpaper : Nat → UInt32
  wallpaperWidth : Int
  wallpaperHeight : Int
  foreground : Frame w h → Frame w h

def Scene.paint (s : Scene w h) (f : Frame w h) : Frame w h :=
  s.foreground (drawBitmap 0 0 s.wallpaper s.wallpaperWidth s.wallpaperHeight f)

structure Desktop (w h : Nat) where
  frame : Frame w h
  isDirty : Bool
  mouseX : Nat
  mouseY : Nat
  oldMouseX : Nat
  oldMouseY : Nat
  hasBackBuffer : Bool
  cursorBackBuffer : Nat → UInt32

/-- The pixels under a cursor at the place are put back. -/
@[irreducible] def restore (x y : Nat) (saved : Nat → UInt32) (f : Frame w h) : Frame w h :=
  grid cursorSize cursorSize (fun f cy cx =>
    let destX := x + cx
    let destY := y + cy
    if destX ≥ w ∨ destY ≥ h then f
    else f.modify destX destY fun _ => saved (cy * cursorSize + cx)) f

/-- The pixels under a cursor at the place are saved. -/
@[irreducible] def capture (x y : Nat) (f : Frame w h) (saved : Nat → UInt32) : Nat → UInt32 :=
  grid cursorSize cursorSize (fun saved cy cx =>
    if hdest : x + cx < w ∧ y + cy < h then
      Function.update saved (cy * cursorSize + cx) (f ⟨x + cx, hdest.1⟩ ⟨y + cy, hdest.2⟩)
    else saved) saved

/-- The cursor is painted on the frame at its place, and what it hides is saved. -/
def Desktop.place (d : Desktop w h) (f : Frame w h) : Desktop w h :=
  { d with
    cursorBackBuffer := capture d.mouseX d.mouseY f d.cursorBackBuffer
    hasBackBuffer := true
    frame := drawCursor d.mouseX d.mouseY f
    oldMouseX := d.mouseX
    oldMouseY := d.mouseY }

/-- `Desktop::Draw`; the taskbar and its menu ask for a full redraw if they are dirty. -/
def Desktop.draw (s : Scene w h) (taskbarDirty : Bool) (d : Desktop w h) : Desktop w h :=
  if d.isDirty || taskbarDirty then { d.place (s.paint d.frame) with isDirty := false }
  else if d.mouseX ≠ d.oldMouseX ∨ d.mouseY ≠ d.oldMouseY then
    d.place (if d.hasBackBuffer then restore d.oldMouseX d.oldMouseY d.cursorBackBuffer d.frame
      else d.frame)
  else d

/-! ## What is asked -/

def Desktop.moveTo (d : Desktop w h) (p : Nat × Nat) : Desktop w h :=
  { d with mouseX := p.1, mouseY := p.2 }

/-- The pointer moves, and nothing else changes before the next frame. -/
def step (s : Scene w h) (d : Desktop w h) (p : Nat × Nat) : Desktop w h :=
  (d.moveTo p).draw s false

/-- The frame after the move, painted without a full redraw, is that of a full redraw. -/
def Draws (s : Scene w h) (d : Desktop w h) (p : Nat × Nat) : Prop :=
  d.isDirty = false ∧
    (step s d p).frame = ({ d.moveTo p with isDirty := true }.draw s false).frame

/-! ## Bitmaps -/

/-- A row changes pixels between its ends only. -/
theorem drawRow_frame {startX screenY : Int} {bmp : Nat → UInt32} {drawWidth : Nat}
    {f : Frame w h} {i : Fin w} {j : Fin h}
    (hout : ¬ ((j : Int) = screenY ∧ startX ≤ i ∧ i < startX + drawWidth)) :
    drawRow startX screenY bmp drawWidth f i j = f i j := by
  have hrun := (List.takeWhile_sublist (l := List.range drawWidth)
    fun col => alphaOf (bmp col) = 255).length_le
  rw [List.length_range] at hrun
  unfold drawRow
  refine foldl_keeps (P := fun g : Frame w h => g i j = f i j) (fun g col hcol hg => ?_)
    (foldl_keeps (P := fun g : Frame w h => g i j = f i j) (fun g col hcol hg => ?_) rfl)
  · rw [List.mem_range'_1] at hcol
    rw [Frame.modify_ne (by omega), hg]
  · rw [List.mem_range] at hcol
    rw [Frame.modify_ne (by omega), hg]

theorem drawWidth_le (w : Nat) (x bitmapWidth : Int) : x ≤ startX x ∧
    startX x + drawWidth w x bitmapWidth ≤ x + bitmapWidth := by
  unfold drawWidth startX startCol
  split <;> split <;> omega

/-- A bitmap changes pixels in its rectangle only. -/
theorem drawBitmap_frame {x y : Int} {bitmapData : Nat → UInt32} {bitmapWidth bitmapHeight : Int}
    {f : Frame w h} {i : Fin w} {j : Fin h}
    (hout : ¬ (x ≤ i ∧ i < x + bitmapWidth ∧ y ≤ j ∧ j < y + bitmapHeight)) :
    drawBitmap x y bitmapData bitmapWidth bitmapHeight f i j = f i j := by
  unfold drawBitmap
  split
  · rfl
  split
  · rfl
  split
  · rfl
  split
  · rfl
  refine foldl_keeps (P := fun g : Frame w h => g i j = f i j) (fun g row hrow hg => ?_) rfl
  rw [List.mem_range] at hrow
  dsimp only
  split
  · exact hg
  · rw [drawRow_frame, hg]
    rintro ⟨hj, hlo, hhi⟩
    obtain ⟨hstart, hend⟩ := drawWidth_le w x bitmapWidth
    omega

/-- A row of opaque pixels replaces those of the frame. -/
theorem drawRow_solid {startX screenY : Int} {bmp : Nat → UInt32} {drawWidth : Nat}
    (hsolid : ∀ col < drawWidth, alphaOf (bmp col) = 255) (f : Frame w h) {i : Fin w} {j : Fin h}
    {col : Nat} (hcol : col < drawWidth) (hi : (i : Int) = startX + col)
    (hj : (j : Int) = screenY) : drawRow startX screenY bmp drawWidth f i j = bmp col := by
  have hrun : ((List.range drawWidth).takeWhile fun col => alphaOf (bmp col) = 255).length =
      drawWidth := by
    rw [List.takeWhile_eq_self_iff.mpr fun c hc => decide_eq_true (hsolid c (List.mem_range.mp hc)),
      List.length_range]
  unfold drawRow
  rw [hrun, Nat.sub_self, List.range'_zero, List.foldl_nil]
  refine foldl_sets (P := fun g : Frame w h => g i j = bmp col) (List.mem_range.mpr hcol)
    (fun g => Frame.modify_eq hi hj) (fun g c _ hne hg => ?_) f
  rw [Frame.modify_ne (by omega), hg]

/-- An opaque bitmap of the size of the frame replaces it. -/
theorem drawBitmap_solid {bitmapData : Nat → UInt32}
    (hsolid : ∀ k < w * h, alphaOf (bitmapData k) = 255) (f : Frame w h) (i : Fin w) (j : Fin h) :
    drawBitmap 0 0 bitmapData w h f i j = bitmapData (j * w + i) := by
  have hw := i.pos
  have hh := j.pos
  have hwidth : drawWidth w 0 w = w := by
    unfold drawWidth startX startCol
    split <;> omega
  have hindex : ∀ row col : Nat, ((row : Int) * (w : Int) + startCol 0 + col).toNat =
      row * w + col := by
    intro row col
    rw [startCol, if_neg (Int.lt_irrefl 0), Int.add_zero, ← Int.natCast_mul, ← Int.natCast_add,
      Int.toNat_natCast]
  unfold drawBitmap
  rw [if_neg (by omega), if_neg (by omega), if_neg (by omega), hwidth, if_neg (by omega),
    Int.toNat_natCast, Int.toNat_natCast]
  refine foldl_sets (P := fun g : Frame w h => g i j = bitmapData (j * w + i))
    (List.mem_range.mpr j.isLt) (fun g => ?_) (fun g row hrow hne hg => ?_) f
  · simp only [hindex]
    rw [if_neg (by omega)]
    have hrow : ∀ col < w, alphaOf (bitmapData (j * w + col)) = 255 := fun col hcol => by
      refine hsolid _ ?_
      calc (j : Nat) * w + col < (j + 1) * w := by rw [Nat.add_mul, Nat.one_mul]; omega
        _ ≤ w * h := by rw [Nat.mul_comm w h]; exact Nat.mul_le_mul_right w j.isLt
    exact drawRow_solid hrow g i.isLt
      (by rw [startX, if_neg (Int.lt_irrefl 0), Int.zero_add]) (Int.zero_add _).symm
  · by_cases hout : (0 : Int) + row < 0 ∨ h ≤ (0 : Int) + row
    · rw [if_pos hout, hg]
    · rw [if_neg hout, drawRow_frame (by omega), hg]

/-! ## The cursor -/

/-- The pixels hidden by a cursor at the place are saved. -/
def Saves (x y : Nat) (f : Frame w h) (saved : Nat → UInt32) : Prop :=
  ∀ (i : Fin w) (j : Fin h) (cy cx : Nat), cy < cursorSize → cx < cursorSize → (i : Nat) = x + cx →
    (j : Nat) = y + cy → saved (cy * cursorSize + cx) = f i j

theorem cell_ne {cy cx cy' cx' : Nat} (hx : cx < cursorSize) (hx' : cx' < cursorSize)
    (hne : ¬ (cy' = cy ∧ cx' = cx)) : cy * cursorSize + cx ≠ cy' * cursorSize + cx' := by
  unfold cursorSize at *
  omega

theorem capture_saves (x y : Nat) (f : Frame w h) (saved : Nat → UInt32) :
    Saves x y f (capture x y f saved) := by
  intro i j cy cx hcy hcx hi hj
  unfold capture
  refine grid_sets (P := fun saved : Nat → UInt32 => saved (cy * cursorSize + cx) = f i j) hcy hcx
    (fun saved => ?_) (fun saved y' x' _ hx' hne hs => ?_) saved
  · have hdest : x + cx < w ∧ y + cy < h := ⟨hi ▸ i.isLt, hj ▸ j.isLt⟩
    rw [dif_pos hdest, Function.update_self]
    congr 1 <;> ext <;> simp [hi, hj]
  · split
    · rw [Function.update_of_ne (cell_ne hcx hx' hne), hs]
    · exact hs

/-- Restored, the frame is as it was before the cursor was painted. -/
theorem restore_eq {x y : Nat} {f g : Frame w h} {saved : Nat → UInt32} (hs : Saves x y f saved)
    (hg : ∀ (i : Fin w) (j : Fin h), ¬ (x ≤ i ∧ i < x + cursorSize ∧ y ≤ j ∧ j < y + cursorSize) →
      g i j = f i j) : restore x y saved g = f := by
  funext i j
  unfold restore
  by_cases hin : x ≤ i ∧ (i : Nat) < x + cursorSize ∧ y ≤ j ∧ (j : Nat) < y + cursorSize
  · obtain ⟨hxlo, hxhi, hylo, hyhi⟩ := hin
    refine grid_sets (P := fun g : Frame w h => g i j = f i j) (y := j - y) (x := i - x)
      (by omega) (by omega) (fun g => ?_) (fun g y' x' _ _ hne hg => ?_) g
    · have hi := i.isLt
      have hj := j.isLt
      rw [if_neg (by omega), Frame.modify_eq (by omega) (by omega)]
      exact hs i j _ _ (by omega) (by omega) (by omega) (by omega)
    · by_cases hout : x + x' ≥ w ∨ y + y' ≥ h
      · rw [if_pos hout, hg]
      · rw [if_neg hout, Frame.modify_ne (by omega), hg]
  · refine grid_keeps (P := fun g : Frame w h => g i j = f i j) (fun g y' x' hy' hx' hg => ?_)
      (hg i j hin)
    by_cases hout : x + x' ≥ w ∨ y + y' ≥ h
    · rw [if_pos hout, hg]
    · rw [if_neg hout, Frame.modify_ne (by omega), hg]

theorem drawCursor_frame {x y : Nat} {f : Frame w h} {i : Fin w} {j : Fin h}
    (hout : ¬ (x ≤ i ∧ (i : Nat) < x + cursorSize ∧ y ≤ j ∧ (j : Nat) < y + cursorSize)) :
    drawCursor x y f i j = f i j := by
  unfold drawCursor
  exact drawBitmap_frame (by omega)

/-! ## Frames -/

/-- The frame is `f` with the cursor on it, and what the cursor hides is saved. -/
structure Clean (f : Frame w h) (d : Desktop w h) : Prop where
  isDirty : d.isDirty = false
  frame : d.frame = drawCursor d.oldMouseX d.oldMouseY f
  hasBackBuffer : d.hasBackBuffer = true
  saved : Saves d.oldMouseX d.oldMouseY f d.cursorBackBuffer

theorem Clean.restore {f : Frame w h} {d : Desktop w h} (hd : Clean f d) :
    restore d.oldMouseX d.oldMouseY d.cursorBackBuffer d.frame = f := by
  refine restore_eq hd.saved fun i j hout => ?_
  rw [hd.frame]
  exact drawCursor_frame hout

theorem Clean.place {d : Desktop w h} (hd : d.isDirty = false) (f : Frame w h) :
    Clean f (d.place f) where
  isDirty := hd
  frame := rfl
  hasBackBuffer := rfl
  saved := capture_saves d.mouseX d.mouseY f d.cursorBackBuffer

/-- A full redraw is clean, and shows the cursor at its place. -/
theorem draw_dirty (s : Scene w h) {d : Desktop w h} (hd : d.isDirty = true) (dirty : Bool) :
    Clean (s.paint d.frame) (d.draw s dirty) ∧
      (d.draw s dirty).frame = drawCursor d.mouseX d.mouseY (s.paint d.frame) := by
  unfold Desktop.draw
  rw [hd, Bool.true_or, if_pos rfl]
  exact ⟨⟨rfl, rfl, rfl, capture_saves d.mouseX d.mouseY _ d.cursorBackBuffer⟩, rfl⟩

/-- A frame after which only the pointer moved is clean again, and shows the cursor at its place. -/
theorem Clean.step {s : Scene w h} {f : Frame w h} {d : Desktop w h} (hd : Clean f d)
    (p : Nat × Nat) : Clean f (step s d p) ∧ (Cursor.step s d p).frame = drawCursor p.1 p.2 f := by
  have hclean : (d.moveTo p).isDirty = false := hd.isDirty
  unfold Cursor.step Desktop.draw
  rw [hclean, Bool.false_or, if_neg Bool.false_ne_true]
  split
  · have hback : (d.moveTo p).hasBackBuffer = true := hd.hasBackBuffer
    have hrestored : Cursor.restore (d.moveTo p).oldMouseX (d.moveTo p).oldMouseY
        (d.moveTo p).cursorBackBuffer (d.moveTo p).frame = f := hd.restore
    rw [if_pos hback, hrestored]
    exact ⟨.place hclean f, rfl⟩
  · rename_i hstay
    rw [not_or, not_not, not_not] at hstay
    have hx : p.1 = d.oldMouseX := hstay.1
    have hy : p.2 = d.oldMouseY := hstay.2
    rw [hx, hy]
    exact ⟨⟨hclean, hd.frame, hd.hasBackBuffer, hd.saved⟩, hd.frame⟩

/-- After a full redraw, the frame is after each move that of a full redraw, if what is painted does
not depend on the frame before. -/
theorem draws_along {s : Scene w h} (hs : ∀ f g, s.paint f = s.paint g) {d : Desktop w h}
    (hd : d.isDirty = true) (ps : List (Nat × Nat)) :
    Along (step s) (Draws s) (d.draw s false) ps := by
  refine Along.of_inv (I := fun e => Clean (s.paint d.frame) e) (Q := fun _ _ => True)
    (fun e p he _ => ⟨(he.step p).1, he.isDirty, ?_⟩) (draw_dirty s hd false).1 (along_true _ _ _)
  rw [(he.step p).2]
  rw [(draw_dirty s (d := { e.moveTo p with isDirty := true }) rfl false).2, hs d.frame e.frame]
  rfl

/-- An opaque wallpaper of the size of the screen hides the frame before. -/
theorem paint_solid {s : Scene w h} (hw : s.wallpaperWidth = w) (hh : s.wallpaperHeight = h)
    (hsolid : ∀ k < w * h, alphaOf (s.wallpaper k) = 255) (f g : Frame w h) :
    s.paint f = s.paint g := by
  unfold Scene.paint
  congr 1
  rw [hw, hh]
  funext i j
  rw [drawBitmap_solid hsolid, drawBitmap_solid hsolid]

/-- A narrow screen with a wallpaper of one color but for its first pixel. -/
def strip (first : UInt32) : Scene 32 1 where
  wallpaper k := if k = 0 then first else 0xFF000000
  wallpaperWidth := 32
  wallpaperHeight := 1
  foreground := id

/-- The desktop before its first frame, with the pointer at the first pixel. -/
def started : Desktop 32 1 where
  frame := fun _ _ => 0xFF000000
  isDirty := true
  mouseX := 0
  mouseY := 0
  oldMouseX := 0
  oldMouseY := 0
  hasBackBuffer := false
  cursorBackBuffer := fun _ => 0

theorem strip_draws : Along (step (strip 0xFF000000)) (Draws (strip 0xFF000000))
    (started.draw (strip 0xFF000000) false) [(25, 0), (31, 0), (3, 0)] :=
  draws_along (paint_solid rfl rfl (by decide)) rfl _

/-- Where the wallpaper lets the frame before through, a full redraw shows where the cursor was. -/
theorem strip_trail : (step (strip 0xEE000000) (started.draw (strip 0xEE000000) false) (25, 0)).frame
      0 0 = 0xFF000000 ∧
    ¬ Along (step (strip 0xEE000000)) (Draws (strip 0xEE000000))
      (started.draw (strip 0xEE000000) false) [(25, 0)] := by
  have hmoved : (step (strip 0xEE000000) (started.draw (strip 0xEE000000) false) (25, 0)).frame
      0 0 = 0xFF000000 := by decide +kernel
  have hfull : ({ (started.draw (strip 0xEE000000) false).moveTo (25, 0) with isDirty := true }.draw
      (strip 0xEE000000) false).frame 0 0 = 0xFF0A0A0A := by decide +kernel
  refine ⟨hmoved, fun h => ?_⟩
  have heq := congrFun (congrFun h.1.2 0) 0
  rw [hmoved, hfull] at heq
  exact absurd heq (by decide)

end Cursor
end Hashx86
