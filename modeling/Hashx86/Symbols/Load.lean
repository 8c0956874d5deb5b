import Hashx86.Lib.CString
import Hashx86.Lib.Lines
import Mathlib.Algebra.Ring.Nat

/-!
# Loading the symbol map (`KernelSymbolTable::Load`)

The map is read into a buffer with a NUL behind it; the end of each line with a symbol is overwritten
with a NUL, and the name of the symbol is a pointer into the buffer.

* `storedLine`: what the loop stores for one line.
* `parse_spec`: the loop stores the symbols of all lines, as long as there is room, and ends.
* `load_spec`: the table that is loaded.
-/

namespace Hashx86
namespace Symbols

open Lib

/-- The name is an index of the buffer. -/
structure SymbolEntry where
  addr : Nat
  name : Nat

/-- `fileBuffer`, which has `size` bytes and a NUL, and the symbols in `symbolIndex`. -/
structure Table where
  fileBuffer : Nat → UInt8
  size : Nat
  symbolIndex : List SymbolEntry

def Table.empty : Table := ⟨fun _ => 0, 0, []⟩

def isBlank (b : UInt8) : Bool := b = 0x20 || b = 0x09
def isEol (b : UInt8) : Bool := b = 0x0A || b = 0x0D
def isSpace (b : UInt8) : Bool := isBlank b || isEol b

/-- The characters of an address. -/
def isToken (b : UInt8) : Bool := !isSpace b && b ≠ 0

/-- The characters of the rest of a line. -/
def isLine (b : UInt8) : Bool := !isEol b && b ≠ 0

/-! ## `HexStrToInt` -/

def hexDigit (c : UInt8) : Option Nat :=
  if 0x30 ≤ c ∧ c ≤ 0x39 then some (c.toNat - 0x30)
  else if 0x61 ≤ c ∧ c ≤ 0x66 then some (c.toNat - 0x61 + 10)
  else if 0x41 ≤ c ∧ c ≤ 0x46 then some (c.toNat - 0x41 + 10)
  else none

def isHex (c : UInt8) : Bool := (hexDigit c).isSome

/-- The number of some digits, in a `uint32_t`. -/
def hexNumber (digits : List UInt8) : Nat :=
  digits.foldl (fun result c => (result <<< 4) % 2 ^ 32 ||| (hexDigit c).getD 0) 0

def hexStrToInt (buf : Nat → UInt8) (size str : Nat) : Nat :=
  let str := skip isBlank buf size str
  let str := if buf str = 0x30 ∧ (buf (str + 1) = 0x78 ∨ buf (str + 1) = 0x58) then str + 2 else str
  hexNumber (scanFrom isHex buf size str)

/-! ## The loop -/

/-- The loop over the lines from `cursor` on; `none` if `fuel` is not enough. -/
def parse (size maxEntries : Nat) : (fuel : Nat) → (buf : Nat → UInt8) → (cursor : Nat) →
    List SymbolEntry → Option Table
  | 0, _, _, _ => none
  | n + 1, buf, cursor, symbolIndex =>
    if buf cursor = 0 then some ⟨buf, size, symbolIndex⟩
    else
      let cursor := skip isSpace buf size cursor
      if buf cursor = 0 then some ⟨buf, size, symbolIndex⟩
      else if buf cursor = 0x30 ∧ buf (cursor + 1) = 0x78 then
        let addr := hexStrToInt buf size cursor
        let cursor := skip isToken buf size cursor
        let cursor := skip isBlank buf size cursor
        if isLine (buf cursor) then
          if maxEntries ≤ symbolIndex.length then some ⟨buf, size, symbolIndex⟩
          else
            let symbolIndex := symbolIndex ++ [⟨addr, cursor⟩]
            let cursor := skip isLine buf size cursor
            if buf cursor ≠ 0 then
              parse size maxEntries n (Function.update buf cursor 0) (cursor + 1) symbolIndex
            else parse size maxEntries n buf cursor symbolIndex
        else parse size maxEntries n buf (skip isLine buf size cursor) symbolIndex
      else parse size maxEntries n buf (skip isLine buf size cursor) symbolIndex

/-- Whether `kmalloc` gives memory; `mem` is whether the heap has a block of a size. -/
def kmalloc (mem : Nat → Bool) (size : Nat) : Bool :=
  size ≠ 0 && size ≤ 0x7FFFFFFF && mem size

/-- `Load` of a file with the bytes of `text`, which is opened and read in full. -/
def load (text : List UInt8) (mem : Nat → Bool) : Option Table :=
  let size := text.length
  if size = 0 then some .empty
  else if !kmalloc mem ((size + 1) % 2 ^ 32) then some .empty
  else
    let maxEntries := size / 20
    if !kmalloc mem (maxEntries * 8 % 2 ^ 32) then some .empty
    else parse size maxEntries (size + 1) (fun i => text.getD i 0) 0 []

/-! ## Lines -/

/-- The symbol that is stored for a line: its address and its name. -/
def storedLine (line : List UInt8) : Option (Nat × List UInt8) :=
  let line := line.dropWhile isBlank
  let name := (line.dropWhile isToken).dropWhile isBlank
  if line.take 2 = [0x30, 0x78] ∧ name ≠ [] then
    some (hexNumber ((line.drop 2).takeWhile isHex), name)
  else none

theorem storedLine_nil : storedLine [] = none := rfl

theorem storedLine_blank {b : UInt8} (hb : isBlank b = true) (l : List UInt8) :
    storedLine (b :: l) = storedLine l := by
  unfold storedLine
  rw [List.dropWhile_cons_of_pos hb]

theorem isBlank_not_eol {b : UInt8} (h : isBlank b = true) : isEol b = false := by
  unfold isBlank at h
  unfold isEol
  grind

/-- The symbols in the lines of a text. -/
def storedLines (t : List UInt8) : List (Nat × List UInt8) := entries isEol storedLine t

theorem storedLines_space (t : List UInt8) : storedLines (t.dropWhile isSpace) = storedLines t := by
  refine entries_dropWhile storedLine_nil (fun b hb => ?_) t
  unfold isSpace at hb
  rcases Bool.or_eq_true_iff.mp hb with hb | hb
  · exact .inr fun l => storedLine_blank hb l
  · exact .inl hb

/-- In a string a line ends at an end of line only. -/
theorem takeWhile_isLine {t : List UInt8} (ht : ∀ b ∈ t, b ≠ 0) :
    (t.takeWhile fun b => !isEol b) = t.takeWhile isLine ∧
      (t.dropWhile fun b => !isEol b) = t.dropWhile isLine := by
  induction t with
  | nil => exact ⟨rfl, rfl⟩
  | cons b t ih =>
    have hb := ht b List.mem_cons_self
    obtain ⟨htake, hdrop⟩ := ih fun a ha => ht a (List.mem_cons_of_mem _ ha)
    have hline : isLine b = !isEol b := by
      unfold isLine
      rw [decide_eq_true hb, Bool.and_true]
    rw [List.takeWhile_cons, List.takeWhile_cons, List.dropWhile_cons, List.dropWhile_cons, hline,
      htake, hdrop]
    exact ⟨rfl, rfl⟩

theorem storedLines_line {t : List UInt8} (ht : ∀ b ∈ t, b ≠ 0) :
    storedLines t = (storedLine (t.takeWhile isLine)).toList ++
      storedLines (t.dropWhile isLine) := by
  obtain ⟨htake, hdrop⟩ := takeWhile_isLine ht
  unfold storedLines
  rw [entries_line storedLine_nil, htake, hdrop]

/-- What is behind the address in a line. -/
def behindToken (t : List UInt8) : List UInt8 := (t.dropWhile isToken).dropWhile isBlank

theorem and_isLine {p : UInt8 → Bool} (h : ∀ b, p b = true → isLine b = true) :
    (fun b => p b && isLine b) = p := by
  funext b
  cases hp : p b with
  | false => rfl
  | true => rw [h b hp, Bool.true_and]

theorem isBlank_isLine (b : UInt8) (hb : isBlank b = true) : isLine b = true := by
  have hcases : b = 0x20 ∨ b = 0x09 := by
    unfold isBlank at hb
    simpa using hb
  rcases hcases with rfl | rfl <;> decide

theorem isToken_isLine (b : UInt8) (hb : isToken b = true) : isLine b = true := by
  unfold isToken isSpace at hb
  unfold isLine
  simp_all

/-- What is behind the address is in the same line. -/
theorem behindToken_dropWhile (t : List UInt8) :
    (behindToken t).dropWhile isLine = t.dropWhile isLine := by
  rw [behindToken, dropWhile_dropWhile isBlank_isLine, dropWhile_dropWhile isToken_isLine]

theorem isHex_isLine {b : UInt8} (h : isHex b = true) : isLine b = true := by
  by_contra hline
  have hb : b = 0x0A ∨ b = 0x0D ∨ b = 0 := by
    unfold isLine isEol at hline
    grind
  rcases hb with rfl | rfl | rfl <;> exact absurd h (by decide)

/-- The address of a line without blanks in front. -/
theorem storedLine_address {r : List UInt8} :
    storedLine ((0x30 :: 0x78 :: r).takeWhile isLine) =
      if ((behindToken (0x30 :: 0x78 :: r)).takeWhile isLine) ≠ [] then
        some (hexNumber (r.takeWhile isHex), (behindToken (0x30 :: 0x78 :: r)).takeWhile isLine)
      else none := by
  have hline : (0x30 :: 0x78 :: r).takeWhile isLine = 0x30 :: 0x78 :: r.takeWhile isLine := rfl
  have hblank : ((0x30 :: 0x78 :: r).takeWhile isLine).dropWhile isBlank =
      (0x30 :: 0x78 :: r).takeWhile isLine := rfl
  have hname : (((0x30 :: 0x78 :: r).takeWhile isLine).dropWhile isToken).dropWhile isBlank =
      (behindToken (0x30 :: 0x78 :: r)).takeWhile isLine := by
    rw [dropWhile_takeWhile, and_isLine isToken_isLine, dropWhile_takeWhile,
      and_isLine isBlank_isLine, behindToken]
  have hdigits : (r.takeWhile isLine).takeWhile isHex = r.takeWhile isHex := by
    rw [List.takeWhile_takeWhile]
    congr 1
    funext b
    cases hhex : isHex b with
    | false => simp
    | true => simp [isHex_isLine hhex]
  unfold storedLine
  dsimp only
  rw [hblank, hname, hline, List.drop_succ_cons, List.drop_succ_cons, List.drop_zero, hdigits]
  simp only [List.take_succ_cons, List.take_zero, true_and]

/-- A line that does not start with an address. -/
theorem storedLine_other {b : UInt8} {t : List UInt8} (hb : isSpace b = false)
    (h : ∀ r, b :: t ≠ 0x30 :: 0x78 :: r) : storedLine ((b :: t).takeWhile isLine) = none := by
  have hblank : ¬ isBlank b = true := fun h => by
    unfold isSpace at hb
    rw [h] at hb
    exact Bool.false_ne_true hb.symm
  refine if_neg fun hline => ?_
  rw [dropWhile_takeWhile, and_isLine isBlank_isLine, List.dropWhile_cons_of_neg hblank] at hline
  obtain ⟨s, hs⟩ := List.takeWhile_prefix isLine (l := b :: t)
  cases hl : (b :: t).takeWhile isLine with
  | nil =>
    rw [hl] at hline
    exact absurd hline.1 (by decide)
  | cons a l =>
    rw [hl] at hline hs
    cases l with
    | nil => exact absurd hline.1 (by simp)
    | cons a' l =>
      obtain ⟨rfl, rfl⟩ : a = 0x30 ∧ a' = 0x78 := by simpa using hline.1
      exact h _ hs.symm

/-! ## One line in the buffer -/

/-- The buffer is written into behind the cursor only, over characters that are not NUL. -/
def Kept (buf buf' : Nat → UInt8) (cursor : Nat) : Prop :=
  ∀ i, i < cursor ∨ buf i = 0 → buf' i = buf i

/-- A symbol with its name in the buffer. -/
def named (buf : Nat → UInt8) (size : Nat) (e : SymbolEntry) : Nat × List UInt8 :=
  (e.addr, stringFrom buf size e.name)

/-- The loop stores these symbols, as far as there is room for them. -/
def Parses (result : Option Table) (size room : Nat) (buf : Nat → UInt8) (cursor : Nat)
    (symbolIndex : List SymbolEntry) (stored : List (Nat × List UInt8)) : Prop :=
  ∃ buf' new, result = some ⟨buf', size, symbolIndex ++ new⟩ ∧ Kept buf buf' cursor ∧
    new.map (named buf' size) = stored.take room

section Parses

variable {result : Option Table} {size room cursor : Nat} {buf : Nat → UInt8}
  {symbolIndex : List SymbolEntry} {stored : List (Nat × List UInt8)}

theorem parses_done (h : stored.take room = []) :
    Parses (some ⟨buf, size, symbolIndex⟩) size room buf cursor symbolIndex stored :=
  ⟨buf, [], by rw [List.append_nil], fun _ _ => rfl, h.symm⟩

theorem Parses.mono {cursor' : Nat} (h : Parses result size room buf cursor' symbolIndex stored)
    (hle : cursor ≤ cursor') : Parses result size room buf cursor symbolIndex stored := by
  obtain ⟨buf', new, hr, hk, hn⟩ := h
  exact ⟨buf', new, hr, fun i hi => hk i (hi.imp_left fun hlt => by omega), hn⟩

/-- One more symbol, whose name is in every buffer that the rest may leave. -/
theorem Parses.cons {buf₁ : Nat → UInt8} {cursor₁ : Nat} {e : SymbolEntry} {name : List UInt8}
    (h : Parses result size room buf₁ cursor₁ (symbolIndex ++ [e]) stored)
    (hname : ∀ buf', Kept buf₁ buf' cursor₁ →
      Kept buf buf' cursor ∧ stringFrom buf' size e.name = name) :
    Parses result size (room + 1) buf cursor symbolIndex ((e.addr, name) :: stored) := by
  obtain ⟨buf', new, hr, hk, hn⟩ := h
  obtain ⟨hkept, hstring⟩ := hname buf' hk
  refine ⟨buf', e :: new, by rw [hr, List.append_assoc]; rfl, hkept, ?_⟩
  rw [List.map_cons, hn, List.take_succ_cons, named, hstring]

end Parses

section String

variable {buf : Nat → UInt8} {size cursor : Nat} {t r : List UInt8}

theorem isLine_head (h : StringAt buf cursor t) :
    isLine (buf cursor) = true ↔ t.takeWhile isLine ≠ [] := by
  cases t with
  | nil =>
    rw [show buf cursor = 0 from h]
    decide
  | cons b t =>
    rw [h.1, List.takeWhile_cons]
    split <;> simp [*]

theorem hexStrToInt_eq (h : StringAt buf cursor (0x30 :: 0x78 :: r))
    (hfit : cursor + (0x30 :: 0x78 :: r).length ≤ size) :
    hexStrToInt buf size cursor = hexNumber (r.takeWhile isHex) := by
  have hblank : skip isBlank buf size cursor = cursor := by
    unfold skip
    rw [scan_string h (by decide) hfit]
    rfl
  rw [List.length_cons, List.length_cons] at hfit
  unfold hexStrToInt
  rw [hblank]
  dsimp only
  rw [if_pos ⟨h.1, .inl h.2.2.1⟩, scan_string h.2.2.2.2 (by decide) (by omega)]

end String

/-! ## The whole text -/

theorem length_dropWhile_lt {b : UInt8} {t : List UInt8} (hb : isLine b = true) :
    ((b :: t).dropWhile isLine).length < (b :: t).length := by
  rw [List.dropWhile_cons_of_pos hb, List.length_cons]
  exact Nat.lt_succ_of_le (List.dropWhile_sublist _).length_le

/-- The name of a symbol is cut out of the buffer, and the loop goes on behind it. -/
theorem parses_name {size maxEntries n cursor : Nat} {buf : Nat → UInt8} {t : List UInt8}
    {symbolIndex : List SymbolEntry} {addr : Nat}
    (ih : ∀ (buf : Nat → UInt8) (cursor : Nat) (t : List UInt8) (symbolIndex : List SymbolEntry),
      StringAt buf cursor t → cursor + t.length ≤ size → t.length < n →
      Parses (parse size maxEntries n buf cursor symbolIndex) size
        (maxEntries - symbolIndex.length) buf cursor symbolIndex (storedLines t))
    (h : StringAt buf cursor t) (hfit : cursor + t.length ≤ size)
    (hfuel : (t.dropWhile isLine).length < n) (hroom : symbolIndex.length < maxEntries) :
    Parses
      (if buf (skip isLine buf size cursor) ≠ 0 then
        parse size maxEntries n (Function.update buf (skip isLine buf size cursor) 0)
          (skip isLine buf size cursor + 1) (symbolIndex ++ [⟨addr, cursor⟩])
      else parse size maxEntries n buf (skip isLine buf size cursor)
        (symbolIndex ++ [⟨addr, cursor⟩]))
      size (maxEntries - symbolIndex.length) buf cursor symbolIndex
      ((addr, t.takeWhile isLine) :: storedLines (t.dropWhile isLine)) := by
  have hskip : skip isLine buf size cursor = cursor + (t.takeWhile isLine).length := by
    rw [skip, scan_string h (by decide) hfit]
  have hsplit := List.takeWhile_append_dropWhile (p := isLine) (l := t)
  have hlen := congrArg List.length hsplit
  rw [List.length_append] at hlen
  obtain ⟨hrest, -⟩ := h.skip (show isLine 0 = false by decide) hfit
  obtain ⟨room, hroom'⟩ : ∃ room, maxEntries - symbolIndex.length = room + 1 :=
    ⟨maxEntries - symbolIndex.length - 1, by omega⟩
  have hindex : ∀ e : SymbolEntry, maxEntries - (symbolIndex ++ [e]).length = room := fun e => by
    rw [List.length_append, List.length_singleton]
    omega
  rw [hroom']
  rw [hskip] at hrest ⊢
  cases hdrop : t.dropWhile isLine with
  | nil =>
    rw [hdrop] at hrest hlen hfuel
    rw [if_neg (not_not.mpr (show buf _ = 0 from hrest))]
    have hcall := ih buf _ [] (symbolIndex ++ [⟨addr, cursor⟩]) hrest (by omega) (by simpa using hfuel)
    rw [hindex] at hcall
    refine hcall.cons fun buf' hk => ⟨fun i hi => hk i (hi.imp_left fun hlt => by omega), ?_⟩
    rw [hdrop, List.append_nil] at hsplit
    rw [hsplit] at hk ⊢
    exact stringFrom_eq (h.frame hk) hfit
  | cons b rest =>
    rw [hdrop] at hrest hlen hfuel hsplit
    rw [List.length_cons] at hlen hfuel
    rw [← hsplit] at h
    obtain ⟨hname, htail⟩ := h.cut
    rw [if_pos (by rw [hrest.1]; exact hrest.2.1)]
    have hcall := ih _ _ rest (symbolIndex ++ [⟨addr, cursor⟩]) htail (by omega) (by omega)
    have heol : isEol b = true := by
      have hhead := List.head_dropWhile_not isLine (l := t) (by simp [hdrop])
      simp only [hdrop, List.head_cons, isLine, Bool.and_eq_false_iff, Bool.not_eq_false',
        decide_eq_false_iff_not, not_not] at hhead
      exact hhead.resolve_right hrest.2.1
    rw [hindex] at hcall
    rw [storedLines, entries_eol storedLine_nil heol]
    refine hcall.cons fun buf' hk => ⟨fun i hi => ?_, ?_⟩
    · -- the character that was overwritten is behind the cursor, and was not NUL
      have hne : i ≠ cursor + (t.takeWhile isLine).length := by
        rintro rfl
        rcases hi with hlt | hzero
        · omega
        · exact hrest.2.1 (hrest.1.symm.trans hzero)
      rw [hk i (hi.imp (fun hlt => by omega) fun hz => (Function.update_of_ne hne _ _).trans hz),
        Function.update_of_ne hne]
    · have hfit' : cursor + (t.takeWhile isLine).length ≤ size := by omega
      exact stringFrom_eq (hname.frame fun i hi => hk i (hi.imp_left fun hlt => by omega)) hfit'

/-- The loop ends, and stores the symbols of the lines as far as there is room. -/
theorem parse_spec (size maxEntries : Nat) (n : Nat) (buf : Nat → UInt8) (cursor : Nat)
    (t : List UInt8) (symbolIndex : List SymbolEntry) (h : StringAt buf cursor t)
    (hfit : cursor + t.length ≤ size) (hfuel : t.length < n) :
    Parses (parse size maxEntries n buf cursor symbolIndex) size
      (maxEntries - symbolIndex.length) buf cursor symbolIndex (storedLines t) := by
  induction n generalizing buf cursor t symbolIndex with
  | zero => exact absurd hfuel (Nat.not_lt_zero _)
  | succ n ih =>
    rw [parse]
    by_cases hnil : t = []
    · subst hnil
      rw [if_pos (show buf cursor = 0 from h)]
      exact parses_done List.take_nil
    rw [if_neg (mt h.head_eq_zero_iff.mp hnil)]
    dsimp only
    obtain ⟨h₁, hlen₁⟩ := h.skip (show isSpace 0 = false by decide) hfit
    rw [← storedLines_space t]
    refine Parses.mono ?_ (show cursor ≤ skip isSpace buf size cursor from Nat.le_add_right ..)
    have hshort : (t.dropWhile isSpace).length ≤ n := by
      have := (List.dropWhile_sublist (l := t) isSpace).length_le
      omega
    have hhead : ∀ b ∈ (t.dropWhile isSpace).head?, isSpace b = false := fun b hb => by
      have hnot := List.head?_dropWhile_not isSpace t
      rw [Option.mem_def.mp hb] at hnot
      simpa using hnot
    rw [← hlen₁] at hfit
    generalize skip isSpace buf size cursor = c at *
    generalize t.dropWhile isSpace = t at *
    cases t with
    | nil =>
      rw [if_pos (show buf c = 0 from h₁)]
      exact parses_done List.take_nil
    | cons b t =>
      have hspace : isSpace b = false := hhead b rfl
      have hb : b ≠ 0 := h₁.2.1
      have hline : isLine b = true := by
        unfold isSpace at hspace
        unfold isLine
        simp_all
      have hrest := length_dropWhile_lt (t := t) hline
      rw [if_neg (show ¬ buf c = 0 by rw [h₁.1]; exact hb), storedLines_line h₁.ne_zero]
      by_cases haddr : buf c = 0x30 ∧ buf (c + 1) = 0x78
      · obtain ⟨t', ht, h'⟩ := (h₁.head_eq_iff (by decide)).mp haddr.1
        obtain ⟨r, rfl, -⟩ := (h'.head_eq_iff (by decide)).mp haddr.2
        cases ht
        obtain ⟨h₂, hlen₂⟩ := h₁.skip (show isToken 0 = false by decide) hfit
        obtain ⟨h₃, hlen₃⟩ := h₂.skip (show isBlank 0 = false by decide) (hlen₂.trans_le hfit)
        rw [if_pos haddr, hexStrToInt_eq h₁ hfit, storedLine_address, ← behindToken_dropWhile]
        have hle : c ≤ skip isBlank buf size (skip isToken buf size c) :=
          (Nat.le_add_right ..).trans (Nat.le_add_right ..)
        rw [← behindToken_dropWhile] at hrest
        change StringAt _ _ (behindToken _) at h₃
        change _ + (behindToken _).length = _ at hlen₃
        generalize behindToken (0x30 :: 0x78 :: r) = name at *
        generalize skip isBlank buf size (skip isToken buf size c) = c' at *
        have hfit' : c' + name.length ≤ size := by omega
        by_cases hname : isLine (buf c') = true
        · rw [if_pos hname, if_pos ((isLine_head h₃).mp hname)]
          by_cases hfull : maxEntries ≤ symbolIndex.length
          · rw [if_pos hfull, Nat.sub_eq_zero_of_le hfull]
            exact parses_done List.take_zero
          · rw [if_neg hfull]
            exact (parses_name ih h₃ hfit' (by omega) (by omega)).mono hle
        · rw [if_neg hname, if_neg fun h => hname ((isLine_head h₃).mpr h)]
          obtain ⟨h₄, hlen₄⟩ := h₃.skip (show isLine 0 = false by decide) hfit'
          exact (ih buf _ _ symbolIndex h₄ (hlen₄.trans_le hfit') (by omega)).mono
            (hle.trans (Nat.le_add_right ..))
      · have hother : ∀ r, b :: t ≠ 0x30 :: 0x78 :: r := by
          rintro r hr
          rw [hr] at h₁
          exact haddr ⟨h₁.1, h₁.2.2.1⟩
        rw [if_neg haddr, storedLine_other hspace hother]
        obtain ⟨h₂, hlen₂⟩ := h₁.skip (show isLine 0 = false by decide) hfit
        exact (ih buf _ _ symbolIndex h₂ (hlen₂.trans_le hfit) (by omega)).mono
          (Nat.le_add_right ..)

/-- The symbols that `Load` stores. -/
def stored (text : List UInt8) (mem : Nat → Bool) : List (Nat × List UInt8) :=
  if text.length = 0 ∨ kmalloc mem ((text.length + 1) % 2 ^ 32) = false ∨
      kmalloc mem (text.length / 20 * 8 % 2 ^ 32) = false then []
  else (storedLines (text.takeWhile fun b => decide (b ≠ 0))).take (text.length / 20)

theorem load_spec (text : List UInt8) (mem : Nat → Bool) : ∃ table, load text mem = some table ∧
    table.symbolIndex.map (named table.fileBuffer table.size) = stored text mem := by
  unfold load stored
  dsimp only
  by_cases hsize : text.length = 0
  · exact ⟨.empty, by rw [if_pos hsize], by rw [if_pos (.inl hsize)]; rfl⟩
  rw [if_neg hsize]
  cases hbuf : kmalloc mem ((text.length + 1) % 2 ^ 32) with
  | false => exact ⟨.empty, rfl, by rw [if_pos (.inr (.inl rfl))]; rfl⟩
  | true =>
    cases hindex : kmalloc mem (text.length / 20 * 8 % 2 ^ 32) with
    | false => exact ⟨.empty, rfl, by rw [if_pos (.inr (.inr rfl))]; rfl⟩
    | true =>
      have hstring : StringAt (fun i => text.getD i 0) 0
          (text.takeWhile fun b => decide (b ≠ 0)) :=
        stringAt_takeWhile text 0 fun k => by rw [Nat.zero_add]
      have hlen := (List.takeWhile_sublist (l := text) fun b => decide (b ≠ 0)).length_le
      obtain ⟨buf', new, hresult, -, hnew⟩ := parse_spec text.length (text.length / 20)
        (text.length + 1) _ 0 _ [] hstring (by omega) (by omega)
      refine ⟨⟨buf', text.length, new⟩, hresult, ?_⟩
      rw [if_neg (by simp [hsize])]
      exact hnew

end Symbols
end Hashx86
