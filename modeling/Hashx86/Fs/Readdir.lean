import Hashx86.Fs.Handle
import Hashx86.Lib.Endian

/-!
# Directory streams (`File.cpp`, `ReadStream` of `FatFsWrapper.cpp` for directories)

`f_readdir` enumerates one list of entries, from the first one again after a rewind. Every call of
`ReadStream` rewinds, skips the entries before the byte offset in `position`, and writes whole
records while they fit.

* `skipTo_boundary`: where `position` is at the end of a record, the skip ends there.
* `fill_spec`: the records that are written, and why no more.
-/

namespace Hashx86
namespace Fs

open Lib

/-- A `FILINFO` of an entry: `fname` up to its NUL, of at most `FF_LFN_BUF` characters, and
`fattrib & AM_DIR`. -/
structure FilInfo where
  fname : List UInt8
  isDir : Bool
  ne_nil : fname ≠ []
  noNul : (0 : UInt8) ∉ fname
  fits : fname.length ≤ 255

/-- The names `.` and `..`. -/
def isDots (name : List UInt8) : Bool := name = [0x2E] ∨ name = [0x2E, 0x2E]

/-- What `f_readdir` enumerates: `MAX_DIR` bytes hold at most 65536 entries, and names differ; it
matters of the dots only. -/
structure Listing where
  entries : List FilInfo
  few : entries.length ≤ 65536
  dots : ((entries.map FilInfo.fname).filter isDots).Nodup

/-- A `KernelDirentHeader` with its name, to a multiple of 4. -/
def kernelReclen (namelen : Nat) : Nat := (7 + namelen + 1 + 3) / 4 * 4

/-- The record that `ReadStream` writes at offset `total`. The bytes behind the NUL are not written:
they stay those of the buffer, `junk`. -/
def kernelDirent (junk : Nat → UInt8) (total : Nat) (info : FilInfo) : List UInt8 :=
  let reclen := kernelReclen info.fname.length
  let used := 7 + info.fname.length + 1
  toBytes 4 0 ++ (toBytes 2 reclen ++ (toBytes 1 (if info.isDir then 1 else 0) ++
    (info.fname ++ 0 :: (List.range' (total + used) (reclen - used)).map junk)))

/-- The first loop of `ReadStream`; `f_readdir` returns the head of what is left. -/
def skipTo (position : Nat) : (skipped : Nat) → List FilInfo → List FilInfo
  | _, [] => []
  | skipped, info :: rest =>
    if skipped < position then skipTo position ((skipped + kernelReclen info.fname.length) % 2 ^ 32) rest
    else info :: rest

/-- The second loop of `ReadStream`: the bytes from offset `total` on, and what is left. -/
def fill (junk : Nat → UInt8) (length : Nat) : (total : Nat) → List FilInfo → List UInt8 × List FilInfo
  | _, [] => ([], [])
  | total, info :: rest =>
    let reclen := kernelReclen info.fname.length
    if length < total + 7 then ([], info :: rest)
    else if length < total + reclen then ([], rest)
    else
      let (bytes, left) := fill junk length (total + reclen) rest
      (kernelDirent junk total info ++ bytes, left)

/-- A `File` on a directory with the `DIR` of its slot. -/
structure DirFile where
  flags : Nat
  openFlags : Nat
  position : Nat
  listing : Listing
  left : List FilInfo

/-- The end of `OpenWithFlags` for a directory. -/
def openListing (listing : Listing) : DirFile :=
  { flags := 1, openFlags := oRdonly, position := 0, listing := listing, left := listing.entries }

namespace DirFile

/-- `IsReadable`. -/
def isReadable (f : DirFile) : Bool :=
  f.openFlags &&& oAccmode = oRdonly || f.openFlags &&& oAccmode = oRdwr

/-- `ReadStream` of a directory, after the rewind. -/
def readStream (f : DirFile) (junk : Nat → UInt8) (length : Nat) : List UInt8 × List FilInfo :=
  fill junk length 0 (skipTo f.position 0 f.listing.entries)

/-- `File::Read` of a directory: the bytes in the buffer and the handle. -/
def read (f : DirFile) (junk : Nat → UInt8) (length : Nat) : List UInt8 × DirFile :=
  if length = 0 ∨ !f.isReadable then ([], f)
  else
    let (bytes, left) := f.readStream junk length
    (bytes, { f with position := (f.position + bytes.length) % 2 ^ 32, left := left })

end DirFile

/-! ## Offsets -/

/-- The bytes that the records of the entries take. -/
def recordBytes (es : List FilInfo) : Nat := (es.map fun e => kernelReclen e.fname.length).sum

@[simp] theorem recordBytes_nil : recordBytes [] = 0 := rfl

@[simp] theorem recordBytes_cons (e : FilInfo) (es : List FilInfo) :
    recordBytes (e :: es) = kernelReclen e.fname.length + recordBytes es := rfl

@[simp] theorem recordBytes_append (es es' : List FilInfo) :
    recordBytes (es ++ es') = recordBytes es + recordBytes es' := by
  unfold recordBytes
  rw [List.map_append, List.sum_append]

theorem kernelReclen_bounds (e : FilInfo) :
    7 + e.fname.length + 1 ≤ kernelReclen e.fname.length ∧ 12 ≤ kernelReclen e.fname.length ∧
      kernelReclen e.fname.length ≤ 264 := by
  have hpos := List.length_pos_of_ne_nil e.ne_nil
  have hfits := e.fits
  unfold kernelReclen
  omega

theorem recordBytes_le (es : List FilInfo) : recordBytes es ≤ 264 * es.length := by
  induction es with
  | nil => exact Nat.le_refl _
  | cons e es ih =>
    have := kernelReclen_bounds e
    rw [recordBytes_cons, List.length_cons]
    omega

/-- A directory's records stay below 2^32 bytes. -/
theorem Listing.recordBytes_lt (l : Listing) {es es' : List FilInfo} (h : l.entries = es ++ es') :
    recordBytes es + recordBytes es' < 2 ^ 32 := by
  have hle := recordBytes_le l.entries
  have := l.few
  rw [h, recordBytes_append] at hle
  rw [h] at this
  omega

theorem skipTo_boundary (es es' : List FilInfo) : ∀ skipped, skipped + recordBytes es < 2 ^ 32 →
    skipTo (skipped + recordBytes es) skipped (es ++ es') = es' := by
  induction es with
  | nil =>
    intro skipped _
    cases es' with
    | nil => rfl
    | cons e es' => exact if_neg (Nat.lt_irrefl _)
  | cons e es ih =>
    intro skipped hlt
    have hbounds := kernelReclen_bounds e
    rw [recordBytes_cons] at hlt ⊢
    rw [List.cons_append, skipTo, if_pos (by omega), Nat.mod_eq_of_lt (by omega),
      ← Nat.add_assoc, ih _ (by omega)]

/-! ## Records -/

theorem length_kernelDirent (junk : Nat → UInt8) (total : Nat) (e : FilInfo) :
    (kernelDirent junk total e).length = kernelReclen e.fname.length := by
  have := kernelReclen_bounds e
  simp [kernelDirent]
  omega

/-- The records of entries from offset `total` on. -/
def records (junk : Nat → UInt8) : (total : Nat) → List FilInfo → List UInt8
  | _, [] => []
  | total, e :: es =>
    kernelDirent junk total e ++ records junk (total + kernelReclen e.fname.length) es

theorem length_records (junk : Nat → UInt8) (es : List FilInfo) : ∀ total,
    (records junk total es).length = recordBytes es := by
  induction es with
  | nil => exact fun _ => rfl
  | cons e es ih =>
    intro total
    rw [records, List.length_append, length_kernelDirent, ih, recordBytes_cons]

/-- The entries that were written, and one behind them that does not fit. -/
theorem fill_spec (junk : Nat → UInt8) (length : Nat) (es : List FilInfo) : ∀ total ≤ length,
    ∃ es₁ es₂, es = es₁ ++ es₂ ∧ (fill junk length total es).1 = records junk total es₁ ∧
      total + recordBytes es₁ ≤ length ∧
      ∀ e es', es₂ = e :: es' → length < total + recordBytes es₁ + kernelReclen e.fname.length := by
  induction es with
  | nil => exact fun total h => ⟨[], [], rfl, rfl, h, nofun⟩
  | cons e es ih =>
    intro total h
    have hbounds := kernelReclen_bounds e
    unfold fill
    dsimp only
    by_cases hhead : length < total + 7
    · rw [if_pos hhead]
      refine ⟨[], e :: es, rfl, rfl, h, fun e' es' he => ?_⟩
      cases he
      rw [recordBytes_nil]
      omega
    by_cases hrec : length < total + kernelReclen e.fname.length
    · rw [if_neg hhead, if_pos hrec]
      refine ⟨[], e :: es, rfl, rfl, h, fun e' es' he => ?_⟩
      cases he
      rwa [recordBytes_nil]
    · rw [if_neg hhead, if_neg hrec]
      obtain ⟨es₁, es₂, rfl, hbytes, hle, hnext⟩ := ih (total + kernelReclen e.fname.length) (by omega)
      refine ⟨e :: es₁, es₂, rfl, ?_, ?_, fun e' es' he => ?_⟩
      · rw [records, ← hbytes]
      · rw [recordBytes_cons]
        omega
      · have := hnext e' es' he
        rw [recordBytes_cons]
        omega

end Fs
end Hashx86
