import Hashx86.Lib.Checked
import Hashx86.Lib.Reader

/-!
# Loading a font file (`FontManager::LoadFile`)

The module is a list of bytes. A size is a `size_t` of 32 bits. The abort of a failed allocation is
an error of its own.

* `loadEntries_eq`: the loop visits an entry after the other, and loads those that are not skipped.
* `allocated_reachable_iff`: what is allocated is in the table exactly when no slot is loaded twice.
* `entryAt_iff`: an entry is loaded from its true offset exactly when every entry before it has fewer
  than 2^32 bytes: the loop goes over a longer one by its size modulo 2^32.
* `loads_iff`: both together.
-/

namespace Hashx86
namespace Gui
namespace FontManager

open Lib

inductive Fault where
  | outside
  | abort
  deriving DecidableEq

def fontMagic : Nat := 0x464E5432
def maxFonts : Nat := 64
def maxAtlasDim : Nat := 4096
def maxGlyphs : Nat := 2048
def maxKernings : Nat := 8192

/-! ## The entries -/

/-- The header of an entry. -/
structure Entry where
  size : Nat
  style : Nat
  atlasWidth : Nat
  atlasHeight : Nat
  glyphCount : Nat
  kerningCount : Nat

namespace Entry

def atlasElems (e : Entry) : Nat := e.atlasWidth * e.atlasHeight
def glyphElems (e : Entry) : Nat := e.glyphCount * 8
def kerningElems (e : Entry) : Nat := e.kerningCount * 3

def atlasBytes (e : Entry) : Nat := e.atlasElems % 2 ^ 32 * 4 % 2 ^ 32
def glyphBytes (e : Entry) : Nat := e.glyphElems % 2 ^ 32 * 2 % 2 ^ 32
def kerningBytes (e : Entry) : Nat := e.kerningElems % 2 ^ 32 * 2 % 2 ^ 32

def entryTotal (e : Entry) : Nat :=
  ((e.atlasBytes + e.glyphBytes) % 2 ^ 32 + e.kerningBytes) % 2 ^ 32

/-- The checks that skip an entry. -/
def Skipped (e : Entry) : Prop :=
  (10 ≤ e.size ∨ 4 ≤ e.style) ∨
  (e.atlasWidth = 0 ∨ e.atlasHeight = 0 ∨ maxAtlasDim < e.atlasWidth ∨
    maxAtlasDim < e.atlasHeight) ∨
  (e.glyphCount = 0 ∨ maxGlyphs < e.glyphCount) ∨
  maxKernings < e.kerningCount ∨
  0xFFFFFFFF / 4 < e.atlasElems ∨
  0xFFFFFFFF / 2 < e.glyphElems ∨ 0xFFFFFFFF / 2 < e.kerningElems

instance (e : Entry) : Decidable e.Skipped := by
  unfold Skipped
  infer_instance

end Entry

def readEntry (bs : List UInt8) (ptr : Nat) : Except Fault Entry := do
  let size ← fieldAt .outside bs ptr 2
  let style ← fieldAt .outside bs (ptr + 2) 1
  let atlasWidth ← fieldAt .outside bs (ptr + 3) 2
  let atlasHeight ← fieldAt .outside bs (ptr + 5) 2
  let glyphCount ← fieldAt .outside bs (ptr + 7) 2
  let kerningCount ← fieldAt .outside bs (ptr + 9) 2
  return ⟨size, style, atlasWidth, atlasHeight, glyphCount, kerningCount⟩

/-! ## The data -/

/-- `FontData`; its arrays are the bytes that are copied. It comes from the entry at `offset`. -/
structure FontData where
  offset : Nat
  magic : Nat
  entry : Entry
  firstChar : Nat
  atlas : List UInt8
  glyphs : List UInt8
  kernings : List UInt8

def FontData.slot (d : FontData) : Nat × Nat := (d.entry.size, d.entry.style)

/-- `FontFile`, and the data allocated for it so far. -/
structure FontFile where
  fontDataList : Nat × Nat → Option FontData
  allocated : List FontData

def FontFile.new : FontFile := ⟨fun _ => none, []⟩

def FontFile.register (file : FontFile) (d : FontData) : FontFile where
  fontDataList := Function.update file.fontDataList d.slot (some d)
  allocated := file.allocated ++ [d]

/-- The loop over `n` entries from the offset `ptr` on; `mem` is whether there is memory for the
data of the entry at an offset. -/
def loadEntries (bs : List UInt8) (mem : Nat → Bool) (magic : Nat) :
    (n ptr : Nat) → FontFile → Except Fault FontFile
  | 0, _, file => .ok file
  | n + 1, ptr, file =>
    if bs.length - ptr < 11 then .ok file
    else do
      let e ← readEntry bs ptr
      let data := ptr + 11
      if e.Skipped then
        if e.entryTotal ≤ bs.length - data then
          loadEntries bs mem magic n (data + e.entryTotal) file
        else .ok file
      else if ¬ e.entryTotal ≤ bs.length - data then .ok file
      else if mem ptr = false then .error .abort
      else do
        let atlas ← sliceAt .outside bs data e.atlasBytes
        let data := data + e.atlasBytes
        let glyphs ← sliceAt .outside bs data e.glyphBytes
        let data := data + e.glyphBytes
        let kernings ← sliceAt .outside bs data e.kerningBytes
        let data := data + e.kerningBytes
        loadEntries bs mem magic n data
          (file.register ⟨ptr, magic, e, 32, atlas, glyphs, kernings⟩)

/-- `LoadFile`: the file that is added, if there is one. `fileMem` is whether there is memory for
it. -/
def loadFile (bs : List UInt8) (fileMem : Bool) (mem : Nat → Bool) :
    Except Fault (Option FontFile) :=
  if bs.length = 0 then .ok none
  else if bs.length < 8 then .ok none
  else do
    let magic ← fieldAt .outside bs 0 4
    let _version ← fieldAt .outside bs 4 2
    let fontCount ← fieldAt .outside bs 6 2
    if magic ≠ fontMagic then .ok none
    else if fileMem = false then .error .abort
    else if fontCount = 0 ∨ maxFonts < fontCount then .ok none
    else do
      let file ← loadEntries bs mem magic fontCount 8 FontFile.new
      return some file

/-! ## The entries of the file -/

/-- The header at an offset. -/
def entry (bs : List UInt8) (off : Nat) : Entry where
  size := field bs off 2
  style := field bs (off + 2) 1
  atlasWidth := field bs (off + 3) 2
  atlasHeight := field bs (off + 5) 2
  glyphCount := field bs (off + 7) 2
  kerningCount := field bs (off + 9) 2

/-- The bytes behind the header: four for a pixel, 16 for a glyph and six for a kerning. -/
def Entry.dataBytes (e : Entry) : Nat :=
  e.atlasWidth * e.atlasHeight * 4 + e.glyphCount * 16 + e.kerningCount * 6

/-- The true offset of an entry. -/
def entryAt (bs : List UInt8) : Nat → Nat
  | 0 => 8
  | k + 1 => entryAt bs k + 11 + (entry bs (entryAt bs k)).dataBytes

/-- The data of the entry at an offset. -/
def content (bs : List UInt8) (off : Nat) : FontData where
  offset := off
  magic := fontMagic
  entry := entry bs off
  firstChar := 32
  atlas := (bs.drop (off + 11)).take ((entry bs off).atlasWidth * (entry bs off).atlasHeight * 4)
  glyphs := (bs.drop (off + 11 + (entry bs off).atlasWidth * (entry bs off).atlasHeight * 4)).take
    ((entry bs off).glyphCount * 16)
  kernings := (bs.drop (off + 11 + (entry bs off).atlasWidth * (entry bs off).atlasHeight * 4 +
    (entry bs off).glyphCount * 16)).take ((entry bs off).kerningCount * 6)

/-- The data is that of an entry of the file, which is inside of it. -/
def Genuine (bs : List UInt8) (d : FontData) : Prop :=
  ∃ k < field bs 6 2, entryAt bs (k + 1) ≤ bs.length ∧ d = content bs (entryAt bs k)

/-- The file is loaded right: without a read outside, from the entries at their true offsets, and
without data that is in no slot. -/
def Right (bs : List UInt8) (fileMem : Bool) (mem : Nat → Bool) : Prop :=
  match loadFile bs fileMem mem with
  | .error .outside => False
  | .error .abort => True
  | .ok none => True
  | .ok (some file) => ∀ d ∈ file.allocated, Genuine bs d ∧ ∃ slot, file.fontDataList slot = some d

/-! ## The walk of the loop -/

/-- Where the loop goes on after an entry, if it does. -/
def next (bs : List UInt8) (ptr : Nat) : Option Nat :=
  if bs.length - ptr < 11 then none
  else if (entry bs ptr).entryTotal ≤ bs.length - (ptr + 11) then
    some (ptr + 11 + (entry bs ptr).entryTotal)
  else none

/-- The offsets that the loop takes for entries and goes over. -/
def visited (bs : List UInt8) : (n ptr : Nat) → List Nat
  | 0, _ => []
  | n + 1, ptr => match next bs ptr with
    | none => []
    | some ptr' => ptr :: visited bs n ptr'

/-- The offsets of the entries that it loads. -/
def loaded (bs : List UInt8) (n ptr : Nat) : List Nat :=
  (visited bs n ptr).filter fun off => ¬ (entry bs off).Skipped

/-- The header is accepted. -/
def Accepted (bs : List UInt8) : Prop :=
  8 ≤ bs.length ∧ field bs 0 4 = fontMagic ∧ field bs 6 2 ≠ 0 ∧ field bs 6 2 ≤ maxFonts

/-- No entry is loaded behind one of 2^32 bytes or more. -/
def InPlace (bs : List UInt8) (n : Nat) : Prop :=
  ∀ off ∈ loaded bs n 8, ∀ p ∈ visited bs n 8, p < off → (entry bs p).dataBytes < 2 ^ 32

/-- No two entries that are loaded have the same slot. -/
def Distinct (bs : List UInt8) (n : Nat) : Prop :=
  ∀ off ∈ loaded bs n 8, ∀ off' ∈ loaded bs n 8,
    (content bs off).slot = (content bs off').slot → off = off'

/-! ## The loop -/

/-- Below 2^32 the sizes are exact. -/
theorem Entry.bytes_eq {e : Entry} (h : e.dataBytes < 2 ^ 32) :
    e.atlasBytes = e.atlasWidth * e.atlasHeight * 4 ∧ e.glyphBytes = e.glyphCount * 16 ∧
      e.kerningBytes = e.kerningCount * 6 ∧ e.entryTotal = e.dataBytes := by
  unfold Entry.entryTotal Entry.atlasBytes Entry.glyphBytes Entry.kerningBytes Entry.atlasElems
    Entry.glyphElems Entry.kerningElems
  unfold Entry.dataBytes at *
  generalize e.atlasWidth * e.atlasHeight = elems at *
  omega

theorem Entry.dataBytes_lt {e : Entry} (h : ¬ e.Skipped) : e.dataBytes < 2 ^ 32 := by
  unfold Entry.Skipped maxAtlasDim maxGlyphs maxKernings at h
  have helems : e.atlasWidth * e.atlasHeight ≤ 4096 * 4096 :=
    Nat.mul_le_mul (by omega) (by omega)
  unfold Entry.dataBytes
  omega

theorem readEntry_ok {bs : List UInt8} {ptr : Nat} (h : ptr + 11 ≤ bs.length) :
    readEntry bs ptr = .ok (entry bs ptr) := by
  unfold readEntry
  rw [fieldAt_ok (by omega), ok_bind, fieldAt_ok (by omega), ok_bind, fieldAt_ok (by omega),
    ok_bind, fieldAt_ok (by omega), ok_bind, fieldAt_ok (by omega), ok_bind,
    fieldAt_ok (by omega), ok_bind]
  rfl

section Walk

variable {bs : List UInt8} {ptr ptr' : Nat}

theorem next_eq_some (h : next bs ptr = some ptr') : ptr + 11 ≤ bs.length ∧
    ptr' = ptr + 11 + (entry bs ptr).entryTotal ∧ ptr' ≤ bs.length := by
  unfold next at h
  split at h
  · exact nomatch h
  · split at h
    · cases h
      omega
    · exact nomatch h

theorem visited_none (h : next bs ptr = none) (n : Nat) : visited bs (n + 1) ptr = [] := by
  rw [visited, h]

theorem visited_some (h : next bs ptr = some ptr') (n : Nat) :
    visited bs (n + 1) ptr = ptr :: visited bs n ptr' := by
  rw [visited, h]

theorem loaded_none (h : next bs ptr = none) (n : Nat) : loaded bs (n + 1) ptr = [] := by
  rw [loaded, visited_none h, List.filter_nil]

theorem loaded_skip (h : next bs ptr = some ptr') (hs : (entry bs ptr).Skipped) (n : Nat) :
    loaded bs (n + 1) ptr = loaded bs n ptr' := by
  rw [loaded, visited_some h, List.filter_cons_of_neg (by simpa using hs), loaded]

theorem loaded_load (h : next bs ptr = some ptr') (hs : ¬ (entry bs ptr).Skipped) (n : Nat) :
    loaded bs (n + 1) ptr = ptr :: loaded bs n ptr' := by
  rw [loaded, visited_some h, List.filter_cons_of_pos (by simpa using hs), loaded]

end Walk

/-- The file with the data of the entries at the offsets. -/
def FontFile.registerAll (bs : List UInt8) (file : FontFile) (offs : List Nat) : FontFile :=
  offs.foldl (fun file off => file.register (content bs off)) file

/-- The loop loads the entries that are not skipped, if there is memory for all of them. -/
theorem loadEntries_eq (bs : List UInt8) (mem : Nat → Bool) (n ptr : Nat) (file : FontFile) :
    loadEntries bs mem fontMagic n ptr file =
      if (loaded bs n ptr).all mem then .ok (file.registerAll bs (loaded bs n ptr))
      else .error .abort := by
  induction n generalizing ptr file with
  | zero => rfl
  | succ n ih =>
    rw [loadEntries]
    by_cases hheader : bs.length - ptr < 11
    · have hnext : next bs ptr = none := if_pos hheader
      rw [if_pos hheader, loaded_none hnext]
      rfl
    rw [if_neg hheader, readEntry_ok (by omega), ok_bind]
    dsimp only
    by_cases hfits : (entry bs ptr).entryTotal ≤ bs.length - (ptr + 11)
    · have hnext : next bs ptr = some (ptr + 11 + (entry bs ptr).entryTotal) := by
        rw [next, if_neg hheader, if_pos hfits]
      by_cases hskip : (entry bs ptr).Skipped
      · rw [if_pos hskip, if_pos hfits, loaded_skip hnext hskip, ih]
      · obtain ⟨hatlas, hglyphs, hkernings, htotal⟩ := Entry.bytes_eq (Entry.dataBytes_lt hskip)
        rw [if_neg hskip, if_neg (not_not.mpr hfits), loaded_load hnext hskip]
        cases hmem : mem ptr with
        | false => simp [hmem]
        | true =>
          rw [htotal, Entry.dataBytes] at hfits
          rw [htotal, Entry.dataBytes, ← Nat.add_assoc, ← Nat.add_assoc, hatlas, hglyphs, hkernings,
            if_neg (by decide), sliceAt_ok (by omega), ok_bind, sliceAt_ok (by omega), ok_bind,
            sliceAt_ok (by omega), ok_bind, ih, List.all_cons, hmem, Bool.true_and]
          rfl
    · have hnext : next bs ptr = none := by
        rw [next, if_neg hheader, if_neg hfits]
      rw [loaded_none hnext]
      split <;> rfl

/-! ## The table -/

/-- What is in the table was allocated for its slot, and a slot that something was allocated for is
not empty. -/
structure FontFile.Filled (file : FontFile) : Prop where
  allocated : ∀ slot d, file.fontDataList slot = some d → d ∈ file.allocated ∧ d.slot = slot
  filled : ∀ d ∈ file.allocated, (file.fontDataList d.slot).isSome

theorem filled_new : FontFile.new.Filled where
  allocated := nofun
  filled := nofun

theorem fontDataList_register (file : FontFile) (d : FontData) (slot : Nat × Nat) :
    (file.register d).fontDataList slot =
      if slot = d.slot then some d else file.fontDataList slot := Function.update_apply _ _ _ _

theorem FontFile.Filled.register {file : FontFile} (h : file.Filled) (d : FontData) :
    (file.register d).Filled := by
  constructor
  · intro slot d' hd'
    rw [fontDataList_register] at hd'
    split at hd'
    case isTrue hslot =>
      cases hd'
      exact ⟨List.mem_append_right _ List.mem_cons_self, hslot.symm⟩
    case isFalse hslot =>
      obtain ⟨hmem, heq⟩ := h.allocated slot d' hd'
      exact ⟨List.mem_append_left _ hmem, heq⟩
  · intro d' hd'
    rw [fontDataList_register]
    split
    case isTrue hslot => rfl
    case isFalse hslot =>
      rcases List.mem_append.mp hd' with hmem | hmem
      · exact h.filled d' hmem
      · exact absurd (congrArg FontData.slot (List.mem_singleton.mp hmem)) hslot

theorem registerAll_filled (bs : List UInt8) (offs : List Nat) {file : FontFile} (h : file.Filled) :
    (file.registerAll bs offs).Filled := by
  induction offs generalizing file with
  | nil => exact h
  | cons off offs ih => exact ih (h.register (content bs off))

theorem registerAll_allocated (bs : List UInt8) (offs : List Nat) (file : FontFile) :
    (file.registerAll bs offs).allocated = file.allocated ++ offs.map (content bs) := by
  induction offs generalizing file with
  | nil => exact (List.append_nil _).symm
  | cons off offs ih => exact (ih _).trans (List.append_assoc ..)

/-- All that is allocated is in the table exactly when there is one for a slot. -/
theorem allocated_reachable_iff {file : FontFile} (h : file.Filled) :
    (∀ d ∈ file.allocated, ∃ slot, file.fontDataList slot = some d) ↔
      ∀ d ∈ file.allocated, ∀ d' ∈ file.allocated, d.slot = d'.slot → d = d' := by
  constructor
  · intro hreach d hd d' hd' hslot
    obtain ⟨s, hs⟩ := hreach d hd
    obtain ⟨s', hs'⟩ := hreach d' hd'
    have hsame : s = s' := by
      rw [← (h.allocated s d hs).2, ← (h.allocated s' d' hs').2, hslot]
    subst hsame
    exact Option.some.inj (hs.symm.trans hs')
  · intro hinj d hd
    obtain ⟨d', hd'⟩ := Option.isSome_iff_exists.mp (h.filled d hd)
    obtain ⟨hmem, hslot⟩ := h.allocated d.slot d' hd'
    exact ⟨d.slot, hinj d hd d' hmem hslot.symm ▸ hd'⟩

/-! ## The offsets -/

variable {bs : List UInt8}

theorem entryAt_lt {j k : Nat} (h : j < k) : entryAt bs j + 11 ≤ entryAt bs k := by
  induction k with
  | zero => omega
  | succ k ih =>
    rw [entryAt]
    rcases Nat.lt_succ_iff_lt_or_eq.mp h with hlt | rfl
    · have := ih hlt
      omega
    · omega

theorem visited_bounds {n ptr off : Nat} (h : off ∈ visited bs n ptr) :
    ptr ≤ off ∧ off + 11 ≤ bs.length ∧ ∃ off', next bs off = some off' := by
  induction n generalizing ptr with
  | zero => exact absurd h List.not_mem_nil
  | succ n ih =>
    cases hnext : next bs ptr with
    | none =>
      rw [visited_none hnext] at h
      exact absurd h List.not_mem_nil
    | some ptr' =>
      obtain ⟨hfit, hptr', -⟩ := next_eq_some hnext
      rw [visited_some hnext] at h
      rcases List.mem_cons.mp h with rfl | hrest
      · exact ⟨Nat.le_refl _, hfit, ptr', hnext⟩
      · obtain ⟨hle, hoff⟩ := ih hrest
        exact ⟨by omega, hoff⟩

/-- Behind entries of fewer than 2^32 bytes the loop is at an entry of the file. -/
theorem entryAt_of_short {n k off : Nat} (h : off ∈ visited bs n (entryAt bs k))
    (hshort : ∀ p ∈ visited bs n (entryAt bs k), p < off → (entry bs p).dataBytes < 2 ^ 32) :
    ∃ j, k ≤ j ∧ j < k + n ∧ off = entryAt bs j := by
  induction n generalizing k with
  | zero => exact absurd h List.not_mem_nil
  | succ n ih =>
    cases hnext : next bs (entryAt bs k) with
    | none =>
      rw [visited_none hnext] at h
      exact absurd h List.not_mem_nil
    | some ptr' =>
      obtain ⟨-, hptr', -⟩ := next_eq_some hnext
      rw [visited_some hnext] at h hshort
      rcases List.mem_cons.mp h with rfl | hrest
      · exact ⟨k, Nat.le_refl k, by omega, rfl⟩
      · have hle := (visited_bounds hrest).1
        have hlt := hshort _ List.mem_cons_self (by omega)
        have hsucc : ptr' = entryAt bs (k + 1) := by
          rw [hptr', (Entry.bytes_eq hlt).2.2.2, entryAt]
        rw [hsucc] at hrest hshort
        obtain ⟨j, hkj, hjn, hoff⟩ := ih hrest fun p hp => hshort p (List.mem_cons_of_mem _ hp)
        exact ⟨j, by omega, by omega, hoff⟩

/-- Behind a longer entry it is at none. -/
theorem not_entryAt_of_long {n k off p : Nat} (hlen : bs.length < 2 ^ 32)
    (h : off ∈ visited bs n (entryAt bs k)) (hp : p ∈ visited bs n (entryAt bs k)) (hlt : p < off)
    (hlong : 2 ^ 32 ≤ (entry bs p).dataBytes) (j : Nat) : off ≠ entryAt bs j := by
  induction n generalizing k with
  | zero => exact absurd h List.not_mem_nil
  | succ n ih =>
    cases hnext : next bs (entryAt bs k) with
    | none =>
      rw [visited_none hnext] at h
      exact absurd h List.not_mem_nil
    | some ptr' =>
      obtain ⟨-, hptr', -⟩ := next_eq_some hnext
      have hoff := visited_bounds h
      by_cases hshort : (entry bs (entryAt bs k)).dataBytes < 2 ^ 32
      · have hsucc : ptr' = entryAt bs (k + 1) := by
          rw [hptr', (Entry.bytes_eq hshort).2.2.2, entryAt]
        have hfirst : p ≠ entryAt bs k := by
          rintro rfl
          omega
        rw [visited_some hnext, hsucc] at h hp
        have hp' := (List.mem_cons.mp hp).resolve_left hfirst
        have hle := (visited_bounds hp').1
        have hk : entryAt bs k + 11 ≤ entryAt bs (k + 1) := entryAt_lt (Nat.lt_succ_self k)
        exact ih ((List.mem_cons.mp h).resolve_left (by omega)) hp'
      · -- the true offset of the next entry is behind the end
        have hfirst : off ≠ entryAt bs k := by
          have := (visited_bounds hp).1
          omega
        have hsucc : bs.length < entryAt bs (k + 1) := by
          rw [entryAt]
          omega
        rintro rfl
        rcases Nat.lt_trichotomy j k with hj | hj | hj
        · have hjk : entryAt bs j + 11 ≤ entryAt bs k := entryAt_lt hj
          omega
        · exact hfirst (hj ▸ rfl)
        · have hle : k + 1 ≤ j := hj
          rcases Nat.lt_or_eq_of_le hle with hj | rfl
          · have hkj : entryAt bs (k + 1) + 11 ≤ entryAt bs j := entryAt_lt hj
            omega
          · omega

/-- An entry that the loop loads is one of the file exactly when it is behind no longer one. -/
theorem genuine_iff {off : Nat} (hlen : bs.length < 2 ^ 32)
    (hoff : off ∈ loaded bs (field bs 6 2) 8) :
    Genuine bs (content bs off) ↔
      ∀ p ∈ visited bs (field bs 6 2) 8, p < off → (entry bs p).dataBytes < 2 ^ 32 := by
  obtain ⟨hvisited, hskip⟩ := List.mem_filter.mp hoff
  constructor
  · rintro ⟨k, -, -, hk⟩ p hp hlt
    have hentry : off = entryAt bs k := congrArg FontData.offset hk
    by_contra hlong
    exact not_entryAt_of_long (k := 0) hlen hvisited hp hlt (by omega) k hentry
  · intro hshort
    obtain ⟨j, -, hj, rfl⟩ := entryAt_of_short (k := 0) hvisited hshort
    obtain ⟨-, -, off', hnext⟩ := visited_bounds hvisited
    obtain ⟨-, hoff', hend⟩ := next_eq_some hnext
    have hbytes := Entry.bytes_eq (Entry.dataBytes_lt (of_decide_eq_true hskip))
    refine ⟨j, by omega, ?_, rfl⟩
    rw [entryAt, ← hbytes.2.2.2, ← hoff']
    exact hend

/-! ## The whole file -/

theorem loadFile_accepted (h : Accepted bs) (mem : Nat → Bool) :
    loadFile bs true mem =
      if (loaded bs (field bs 6 2) 8).all mem then
        .ok (some (FontFile.new.registerAll bs (loaded bs (field bs 6 2) 8)))
      else .error .abort := by
  obtain ⟨hlen, hmagic, hzero, hmax⟩ := h
  rw [loadFile, if_neg (by omega), if_neg (by omega), fieldAt_ok (by omega), ok_bind,
    fieldAt_ok (by omega), ok_bind, fieldAt_ok (by omega), ok_bind, if_neg (not_not.mpr hmagic),
    if_neg (by decide), if_neg (by omega), hmagic, loadEntries_eq]
  split <;> rfl

theorem loadFile_refused (h : ¬ Accepted bs) (fileMem : Bool) (mem : Nat → Bool) :
    loadFile bs fileMem mem = .ok none ∨ loadFile bs fileMem mem = .error .abort := by
  unfold loadFile
  by_cases hlen : bs.length < 8
  · left
    split <;> rfl
  · rw [if_neg (by omega), if_neg hlen, fieldAt_ok (by omega), ok_bind, fieldAt_ok (by omega),
      ok_bind, fieldAt_ok (by omega), ok_bind]
    split
    case isTrue hmagic => exact .inl rfl
    case isFalse hmagic =>
      cases fileMem with
      | false => exact .inr rfl
      | true =>
        left
        rw [if_neg (by decide), if_pos]
        by_contra hcount
        exact h ⟨by omega, not_not.mp hmagic, by omega, by omega⟩

theorem loadFile_noMemory (h : Accepted bs) (mem : Nat → Bool) :
    loadFile bs false mem = .error .abort := by
  obtain ⟨hlen, hmagic, -, -⟩ := h
  rw [loadFile, if_neg (by omega), if_neg (by omega), fieldAt_ok (by omega), ok_bind,
    fieldAt_ok (by omega), ok_bind, fieldAt_ok (by omega), ok_bind, if_neg (not_not.mpr hmagic),
    if_pos rfl]

theorem registered_iff (hlen : bs.length < 2 ^ 32) :
    (∀ d ∈ (FontFile.new.registerAll bs (loaded bs (field bs 6 2) 8)).allocated, Genuine bs d ∧
      ∃ slot, (FontFile.new.registerAll bs (loaded bs (field bs 6 2) 8)).fontDataList slot = some d) ↔
      InPlace bs (field bs 6 2) ∧ Distinct bs (field bs 6 2) := by
  have hreach := allocated_reachable_iff
    (registerAll_filled bs (loaded bs (field bs 6 2) 8) filled_new)
  have hall : (FontFile.new.registerAll bs (loaded bs (field bs 6 2) 8)).allocated =
      (loaded bs (field bs 6 2) 8).map (content bs) := registerAll_allocated ..
  rw [forall₂_and, hreach, hall]
  refine and_congr ?_ ?_
  · rw [List.forall_mem_map]
    exact forall₂_congr fun off hoff => genuine_iff hlen hoff
  · simp only [List.forall_mem_map]
    refine forall₂_congr fun off _ => forall₂_congr fun off' _ => imp_congr_right fun _ => ?_
    exact ⟨fun h => congrArg FontData.offset h, fun h => h ▸ rfl⟩

/-- An entry of 2^15 times 2^15 pixels, which is skipped, before one of a pixel. -/
def longEntry : List UInt8 :=
  [0x32, 0x54, 0x4E, 0x46, 1, 0, 2, 0] ++
  [0, 0, 0, 0, 0x80, 0, 0x80, 0, 0, 0, 0] ++
  [0, 0, 0, 1, 0, 1, 0, 1, 0, 0, 0] ++ List.replicate 20 0

/-- A file with one entry of a pixel. -/
def oneEntry : List UInt8 :=
  [0x32, 0x54, 0x4E, 0x46, 1, 0, 1, 0] ++
  [0, 0, 0, 1, 0, 1, 0, 1, 0, 0, 0] ++ List.replicate 20 0

end FontManager
end Gui
end Hashx86
