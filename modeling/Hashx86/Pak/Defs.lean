import Hashx86.Lib.Splice
import Mathlib.Data.List.Sort
import Mathlib.Data.UInt

/-!
# PAK archives (`include/core/pak.h`, `tools/installer/packer.cpp`, `tools/installer/main.cpp`)

An archive is a header, the bytes of the files and a directory. `packer` is the part of the
packer's `main` from the sorting on; its input is the files that `collectFiles` read. `kernelMain`
is the installer from the header check on. What it meets outside the archive (the drive, the
answers of the disk and of FatFs) is an input, `Disk`; every byte it reads of the archive goes
through `byteAt` or `bytesAt`, which stop with `outside` beyond the end of the archive.
-/

namespace Hashx86
namespace Pak

open Lib

/-- The characters of a C string constant. -/
def chars (s : String) : List UInt8 := s.toList.map fun c => UInt8.ofNat c.toNat

def pakNameLen : Nat := 56
def headerSize : Nat := 12
def dirEntrySize : Nat := 64
def uint32Max : Nat := 0xFFFFFFFF

/-- The four bytes of a `uint32_t`. -/
def le32 (n : Nat) : List UInt8 :=
  [UInt8.ofNat n, UInt8.ofNat (n / 256), UInt8.ofNat (n / 65536), UInt8.ofNat (n / 16777216)]

/-! ## The packer -/

/-- A file to pack. A name comes from directory entries, which hold no NUL. -/
structure FileEntry where
  name : List UInt8
  data : List UInt8
  noNul : (0 : UInt8) ∉ name

structure PakHeader where
  dirOffset : Nat
  dirSize : Nat

structure PakDirEntry where
  name : List UInt8
  offset : Nat
  size : Nat

def PakHeader.bytes (h : PakHeader) : List UInt8 :=
  chars "PACK" ++ le32 h.dirOffset ++ le32 h.dirSize

def PakDirEntry.bytes (d : PakDirEntry) : List UInt8 := d.name ++ le32 d.offset ++ le32 d.size

/-- The directory entry of a file whose bytes start at `offset`. -/
def dirEntry (e : FileEntry) (offset : Nat) : PakDirEntry where
  name := e.name ++ List.replicate (pakNameLen - e.name.length) 0
  offset := offset % 2 ^ 32
  size := e.data.length % 2 ^ 32

/-- The loop over the files. -/
def packEntries : List FileEntry → List UInt8 → List PakDirEntry →
    Option (List UInt8 × List PakDirEntry)
  | [], pak, dir => some (pak, dir)
  | e :: es, pak, dir =>
    if pakNameLen ≤ e.name.length then none
    else if uint32Max < e.data.length then none
    else if uint32Max < pak.length then none
    else packEntries es (pak ++ e.data) (dir ++ [dirEntry e pak.length])

/-- The order of `std::string`. -/
def nameLe (a b : FileEntry) : Bool := decide (¬ b.name < a.name)

/-- The archive, or `none` for an error exit. -/
def packer (entries : List FileEntry) : Option (List UInt8) :=
  if entries.isEmpty then none
  else
    match packEntries (entries.mergeSort nameLe) (List.replicate headerSize 0) [] with
    | none => none
    | some (pak, dir) =>
      if pak.length % 2 ^ 32 ≠ pak.length then none
      else if uint32Max < dir.length * dirEntrySize then none
      else
        let hdr : PakHeader := ⟨pak.length % 2 ^ 32, dir.length * dirEntrySize % 2 ^ 32⟩
        some (splice (pak ++ dir.flatMap PakDirEntry.bytes) 0 hdr.bytes)

/-! ## The installer -/

/-- How the installer stops: `HALT`, the end after an abort or a failure, or a read outside the
archive. -/
inductive Stop where
  | halt (msg : String)
  | aborted
  | outside
  deriving DecidableEq, Repr

/-- What the installer meets outside the archive. -/
structure Disk where
  /-- The sectors of the first fixed disk. -/
  drive : Option Nat
  confirm : Bool
  write28 : Nat → Bool
  flush : Bool
  format : Nat → Bool
  mount : Bool
  /-- Whether the file of an entry is opened, and whether it is then written and closed. -/
  fOpen : Nat → Bool
  fWrite : Nat → Bool

/-- `if (c) HALT(…)` -/
def haltIf (c : Prop) [Decidable c] (stop : Stop) : Except Stop Unit :=
  if c then .error stop else .ok ()

/-- `if (!p) HALT(…)` -/
def orHalt {α : Type} (p : Option α) (stop : Stop) : Except Stop α :=
  match p with
  | none => .error stop
  | some a => .ok a

def byteAt (pak : List UInt8) (i : Nat) : Except Stop UInt8 :=
  match pak[i]? with
  | none => .error .outside
  | some b => .ok b

/-- `n` bytes from `i` on. -/
def bytesAt (pak : List UInt8) (i n : Nat) : Except Stop (List UInt8) :=
  if i + n ≤ pak.length then .ok ((pak.drop i).take n) else .error .outside

/-- The `uint32_t` at `i`. -/
def word32At (pak : List UInt8) (i : Nat) : Except Stop Nat := do
  let b0 ← byteAt pak i
  let b1 ← byteAt pak (i + 1)
  let b2 ← byteAt pak (i + 2)
  let b3 ← byteAt pak (i + 3)
  return b0.toNat + 256 * b1.toNat + 65536 * b2.toNat + 16777216 * b3.toNat

/-- The C string at the head of some bytes. -/
def cstr : List UInt8 → Except Stop (List UInt8)
  | [] => .error .outside
  | b :: bs => if b = 0 then .ok [] else (cstr bs).map (b :: ·)

/-- The C string at `i`, as far as `strcmp` and `strlen` may read it. -/
def cstrAt (pak : List UInt8) (i : Nat) : Except Stop (List UInt8) := cstr (pak.drop i)

def pakSize (pak : List UInt8) : Nat := pak.length % 2 ^ 32

/-- The check of the header: the offset of the directory, and the number of its entries. -/
def readHeader (pak : List UInt8) : Except Stop (Nat × Nat) := do
  haltIf (pakSize pak < headerSize) (.halt "PAK file too small")
  let magic ← bytesAt pak 0 4
  haltIf (magic ≠ chars "PACK") (.halt "Invalid PAK magic")
  let dirOffset ← word32At pak 4
  let dirSize ← word32At pak 8
  haltIf (pakSize pak < dirOffset ∨ pakSize pak - dirOffset < dirSize ∨ dirSize % dirEntrySize ≠ 0)
    (.halt "PAK directory out of bounds")
  return (dirOffset, dirSize / dirEntrySize)

/-- Whether one of `n` bytes from `i` on is NUL. -/
def terminated (pak : List UInt8) : Nat → Nat → Except Stop Bool
  | _, 0 => .ok false
  | i, n + 1 => do
    let b ← byteAt pak i
    if b = 0 then return true else terminated pak (i + 1) n

/-- The check of the names of `n` entries, from entry `i` on. -/
def checkNames (pak : List UInt8) (dir : Nat) : Nat → Nat → Except Stop Unit
  | _, 0 => .ok ()
  | i, n + 1 => do
    let t ← terminated pak (dir + dirEntrySize * i) pakNameLen
    haltIf (t = false) (.halt "PAK entry name is not NUL-terminated")
    checkNames pak dir (i + 1) n

/-- The header, the directory and the names are accepted. -/
def validate (pak : List UInt8) : Except Stop (Nat × Nat) := do
  let (dir, n) ← readHeader pak
  checkNames pak dir 0 n
  return (dir, n)

/-- `dir[i]`: the offset and the size of its bytes, and whether they lie in the archive. -/
def entryAt (pak : List UInt8) (dir i : Nat) : Except Stop (Nat × Nat × Bool) := do
  let offset ← word32At pak (dir + dirEntrySize * i + pakNameLen)
  let size ← word32At pak (dir + dirEntrySize * i + pakNameLen + 4)
  return (offset, size, decide (offset ≤ pakSize pak ∧ size ≤ pakSize pak - offset))

def bootName : List UInt8 := chars "boot/boot.img"
def coreName : List UInt8 := chars "boot/core.img"

/-- The offsets and sizes of the boot images. -/
structure Images where
  boot : Option (Nat × Nat)
  core : Option (Nat × Nat)

/-- The loop that looks for the boot images, over `n` entries from entry `i` on. -/
def findImages (pak : List UInt8) (dir : Nat) : Nat → Nat → Images → Except Stop Images
  | _, 0, im => .ok im
  | i, n + 1, im => do
    let (offset, size, inside) ← entryAt pak dir i
    if inside = false then findImages pak dir (i + 1) n im
    else
      let name ← cstrAt pak (dir + dirEntrySize * i)
      if name = bootName then findImages pak dir (i + 1) n { im with boot := some (offset, size) }
      else if name = coreName then
        findImages pak dir (i + 1) n { im with core := some (offset, size) }
      else findImages pak dir (i + 1) n im

/-- The partition table of the boot sector. -/
def partitionTable (p1Start p1Size p2Start p2Size : Nat) : List UInt8 :=
  [0x80, 0, 0, 0, 0x0C, 0, 0, 0] ++ le32 p1Start ++ le32 p1Size ++
    [0x00, 0, 0, 0, 0x0C, 0, 0, 0] ++ le32 p2Start ++ le32 p2Size ++ List.replicate 32 0

/-- The loop of `installGRUB` that writes `n` sectors of the core image, from sector `i` on. -/
def writeCore (disk : Disk) (pak : List UInt8) (coreImg coreImgSize : Nat) :
    Nat → Nat → List (List UInt8) → Except Stop (List (List UInt8))
  | _, 0, out => .ok out
  | i, n + 1, out => do
    let chunk := min 512 (coreImgSize - i * 512)
    let bytes ← bytesAt pak (coreImg + i * 512) chunk
    let sector := bytes ++ List.replicate (512 - chunk) 0
    haltIf (disk.write28 (1 + i) = false)
      (.halt "core.img write failed — installation aborted")
    writeCore disk pak coreImg coreImgSize (i + 1) n (out ++ [sector])

/-- `installGRUB`: the boot sector, and the sectors after it. -/
def installGRUB (disk : Disk) (pak : List UInt8) (bootImg coreImg coreImgSize : Nat)
    (p1Start p1Size p2Start p2Size : Nat) : Except Stop (List UInt8 × List (List UInt8)) := do
  let coreSectors := (coreImgSize + 511) % 2 ^ 32 / 512
  haltIf (p1Start - 1 < coreSectors) (.halt "core.img too large for MBR gap")
  let img ← bytesAt pak bootImg 512
  let mbr := splice img 446 (partitionTable p1Start p1Size p2Start p2Size)
  haltIf (disk.write28 0 = false)
    (.halt "MBR write failed - disk may be dead or rejected the write")
  let core ← writeCore disk pak coreImg coreImgSize 0 coreSectors []
  haltIf (disk.flush = false) (.halt "disk flush failed after core.img write")
  return (mbr, core)

/-- The extraction so far. A lookup is the path of a file with the offset and size of its bytes. -/
structure Extraction where
  lookups : List (List UInt8 × Nat × Nat)
  written : List (List UInt8 × List UInt8)
  skipped : Nat
  failed : Nat

/-- `f_open`, `f_write` and `f_close` for one file. -/
def writeFile (disk : Disk) (pak : List UInt8) (i : Nat) (path : List UInt8) (offset size : Nat)
    (x : Extraction) : Except Stop Extraction :=
  if disk.fOpen i = false then .ok { x with failed := x.failed + 1 }
  else do
    let data ← bytesAt pak offset size
    if disk.fWrite i = false then return { x with failed := x.failed + 1 }
    else return { x with written := x.written ++ [(path, data)] }

/-- The extraction loop, over `n` entries from entry `i` on. -/
def extractFiles (disk : Disk) (pak : List UInt8) (dir : Nat) :
    Nat → Nat → Extraction → Except Stop Extraction
  | _, 0, x => .ok x
  | i, n + 1, x => do
    let (offset, size, inside) ← entryAt pak dir i
    if inside = false then extractFiles disk pak dir (i + 1) n { x with failed := x.failed + 1 }
    else
      let name ← cstrAt pak (dir + dirEntrySize * i)
      if name = bootName ∨ name = coreName then
        extractFiles disk pak dir (i + 1) n { x with skipped := x.skipped + 1 }
      else if 128 < name.length + 2 then
        extractFiles disk pak dir (i + 1) n { x with failed := x.failed + 1 }
      else
        let path := chars "0:" ++ name
        let x ← writeFile disk pak i path offset size
          { x with lookups := x.lookups ++ [(path, offset, size)] }
        extractFiles disk pak dir (i + 1) n x

/-- What an installation puts on the disk. -/
structure Installed where
  mbr : List UInt8
  core : List (List UInt8)
  files : Extraction

/-- The installer, from the check of the archive on. -/
def kernelMain (disk : Disk) (pak : List UInt8) : Except Stop Installed := do
  let (dir, n) ← validate pak
  let total ← orHalt disk.drive (.halt "No ATA drive detected")
  haltIf (total ≤ 63) (.halt "Disk too small")
  haltIf (disk.confirm = false) .aborted
  haltIf (total ≤ 3 * 2048) (.halt "Disk too small for aligned partitions")
  let p1Start := 2048
  let p1Size := (total - p1Start) / 2 / 2048 * 2048
  let p2Size := total - p1Start - p1Size
  let im ← findImages pak dir 0 n ⟨none, none⟩
  let (bootImg, bootImgSize) ← orHalt im.boot (.halt "boot.img missing or too small")
  haltIf (bootImgSize < 512) (.halt "boot.img missing or too small")
  let (coreImg, coreImgSize) ← orHalt im.core (.halt "core.img missing")
  haltIf (coreImgSize = 0) (.halt "core.img missing")
  let (mbr, core) ← installGRUB disk pak bootImg coreImg coreImgSize p1Start p1Size
    (p1Start + p1Size) p2Size
  haltIf (disk.format 0 = false) (.halt "Format partition 1 failed")
  haltIf (disk.format 1 = false) (.halt "Format partition 2 failed")
  haltIf (disk.mount = false) (.halt "Mount partition 1 failed")
  let files ← extractFiles disk pak dir 0 n ⟨[], [], 0, 0⟩
  haltIf (0 < files.failed) .aborted
  return ⟨mbr, core, files⟩

end Pak
end Hashx86
