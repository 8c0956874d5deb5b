import Hashx86.Module.Defs
import Hashx86.Sched.Switch
import Hashx86.Syscalls.Brk

/-!
# Loading a program (`core/elf.cpp`)

`loadELF` is `ELFLoader::loadELF`: a new process whose address space holds the `PT_LOAD` segments of
the file. What the file system and the kernel heap answer is an input (`Env`). The heap that holds the
tables of the file while it is loaded is not modelled, and neither are the fields of the headers that
the loader does not read.
-/

namespace Hashx86
namespace Elf

open Lib Paging Sched Fs
open Module (ReadAnswer readAt u16 u32)
open Syscalls (pageUp)

/-! ## The file -/

/-- `elf_header`. -/
structure Header where
  magic : Nat
  entry : Nat
  phOffset : Nat
  shOffset : Nat
  phEntryCount : Nat
  shSize : Nat
  shEntryCount : Nat
  shStrIndex : Nat

def parseHeader (b : List UInt8) : Header :=
  { magic := u32 b 0, entry := u32 b 24, phOffset := u32 b 28, shOffset := u32 b 32
    phEntryCount := u16 b 44, shSize := u16 b 46, shEntryCount := u16 b 48, shStrIndex := u16 b 50 }

/-- `elf_program_header`. -/
structure ProgramHeader where
  type : Nat
  offset : Nat
  virtAddr : Nat
  fileSize : Nat
  memSize : Nat

def parseProgramHeader (b : List UInt8) (i : Nat) : ProgramHeader :=
  { type := u32 b (32 * i), offset := u32 b (32 * i + 4), virtAddr := u32 b (32 * i + 8)
    fileSize := u32 b (32 * i + 16), memSize := u32 b (32 * i + 20) }

/-- `elf_section_header`. -/
structure Section where
  name : Nat
  offset : Nat
  size : Nat

def parseSection (b : List UInt8) (i : Nat) : Section :=
  { name := u32 b (40 * i), offset := u32 b (40 * i + 16), size := u32 b (40 * i + 20) }

/-! ## The environment -/

/-- What `new` for a table and the read into it meet. -/
structure TableAnswer where
  new : Bool
  read : ReadAnswer

structure Env where
  header : ReadAnswer
  shTable : TableAnswer
  shNames : TableAnswer
  appMeta : Nat → ReadAnswer
  phTable : TableAnswer
  /-- The reads of segment `i`, in their order. -/
  chunk : Nat → Nat → ReadAnswer

/-! ## The type of the program -/

/-- `APP_BINARY_GUI` -/
def appBinaryGui : Nat := 1

/-- `APP_BINARY_CLI` -/
def appBinaryCli : Nat := 2

/-- `SectionNameEquals`, from the byte of the table on where the name begins. -/
def nameEquals : (names target : List UInt8) → Bool
  | [], _ => false
  | a :: names, target =>
    if a ≠ target.headD 0 then false
    else if a = 0 then true
    else nameEquals names target.tail

/-- `".hx86meta"` -/
def metaName : List UInt8 := [0x2E, 0x68, 0x78, 0x38, 0x36, 0x6D, 0x65, 0x74, 0x61]

/-- The loop of `DetectELFAppType`: sections `i..`, `n` of them left. -/
def findMeta (env : Env) (shTable shNames : List UInt8) : (n i : Nat) → File → Nat × File
  | 0, _, file => (appBinaryGui, file)
  | n + 1, i, file =>
    let sh := parseSection shTable i
    if !nameEquals (shNames.drop sh.name) metaName then findMeta env shTable shNames n (i + 1) file
    else if sh.size < 8 then findMeta env shTable shNames n (i + 1) file
    else if sub32 file.size 8 < sh.offset then findMeta env shTable shNames n (i + 1) file
    else
      let (bytes, _, file) := readAt file 1 sh.offset 8 (env.appMeta i)
      match bytes with
      | none => findMeta env shTable shNames n (i + 1) file
      | some b =>
        if u32 b 0 ≠ 0x36385848 ∨ u16 b 4 ≠ 1 then findMeta env shTable shNames n (i + 1) file
        else
          let appType := u16 b 6
          (if appType = appBinaryCli ∨ appType = appBinaryGui then appType else appBinaryGui, file)

/-- `DetectELFAppType`. -/
def detectELFAppType (env : Env) (file : File) (h : Header) : Nat × File :=
  let shTableSize := 40 * h.shEntryCount
  if h.shOffset = 0 ∨ h.shEntryCount = 0 then (appBinaryGui, file)
  else if h.shSize ≠ 40 then (appBinaryGui, file)
  else if file.size < shTableSize ∨ file.size - shTableSize < h.shOffset then (appBinaryGui, file)
  else if !env.shTable.new then (appBinaryGui, file)
  else
    let (shTable, _, file) := readAt file 1 h.shOffset shTableSize env.shTable.read
    match shTable with
    | none => (appBinaryGui, file)
    | some shTable =>
      let shStr := parseSection shTable h.shStrIndex
      if h.shEntryCount ≤ h.shStrIndex then (appBinaryGui, file)
      else if shStr.size = 0 then (appBinaryGui, file)
      else if file.size < shStr.size ∨ file.size - shStr.size < shStr.offset then
        (appBinaryGui, file)
      else if !env.shNames.new then (appBinaryGui, file)
      else
        let (shNames, _, file) := readAt file 1 shStr.offset shStr.size env.shNames.read
        match shNames with
        | none => (appBinaryGui, file)
        | some shNames => findMeta env shTable shNames h.shEntryCount 0 file

/-! ## Segments -/

/-- The loop that maps the pages of a segment: from `addr` on, `n` of them left. The frame of a page
that cannot be mapped is not freed. -/
def mapSegment (d : Nat) : (n addr : Nat) → Machine → Bool × Machine
  | 0, _, m => (true, m)
  | n + 1, addr, m =>
    let (physFrame, m) := m.allocBlockLow
    if physFrame = 0 then (false, m)
    else
      let (ok, m) := mapPage m d addr physFrame userFlags
      if !ok then (false, m) else mapSegment d n (addr + pageSize) m

/-- The bytes from `va` to the end of its page, at most `left`. -/
def chunkSize (left va : Nat) : Nat := min left (pageSize - va % pageSize)

/-- The loop that copies the file into the pages, `n` rounds at most: `left` bytes to `va`. The reads
are numbered from `c` on. -/
def copySegment (answers : Nat → ReadAnswer) (d : Nat) :
    (n c left va : Nat) → Machine → File → Bool × Machine × File
  | 0, _, _, _, m, file => (true, m, file)
  | n + 1, c, left, va, m, file =>
    if left = 0 then (true, m, file)
    else
      let physPtr := getPhysicalAddress m d va
      if physPtr = unmapped then (false, m, file)
      else
        let chunk := chunkSize left va
        let (result, bytes, file) := file.read physPtr chunk (answers c).seek (answers c).ok
        let m := m.store physPtr bytes.length fun i => bytes.getD i 0
        if result ≠ toInt32 chunk then (false, m, file)
        else copySegment answers d n (c + 1) (left - chunk) ((va + chunk) % 2 ^ 32) m file

/-- The loop that zeroes the rest of the segment, `n` rounds at most: `left` bytes from `va` on. -/
def zeroSegment (d : Nat) : (n left va : Nat) → Machine → Bool × Machine
  | 0, _, _, m => (true, m)
  | n + 1, left, va, m =>
    if left = 0 then (true, m)
    else
      let physPtr := getPhysicalAddress m d va
      if physPtr = unmapped then (false, m)
      else
        let chunk := chunkSize left va
        zeroSegment d n (left - chunk) ((va + chunk) % 2 ^ 32) (m.zero physPtr chunk)

/-- `start + ph->mem_size` -/
def ProgramHeader.stop (ph : ProgramHeader) : Nat := (ph.virtAddr + ph.memSize) % 2 ^ 32

/-- `start & ~(PAGE_SIZE - 1)` -/
def ProgramHeader.pageStart (ph : ProgramHeader) : Nat := frameAddr ph.virtAddr

/-- The pages of the segment. -/
def ProgramHeader.pages (ph : ProgramHeader) : Nat := (pageUp ph.stop - ph.pageStart) / pageSize

/-- One `PT_LOAD` segment. -/
def loadSegment (answers : Nat → ReadAnswer) (d : Nat) (ph : ProgramHeader) (m : Machine)
    (file : File) : Bool × Machine × File :=
  if ph.memSize < ph.fileSize then (false, m, file)
  else if file.size < ph.offset + ph.fileSize then (false, m, file)
  else
    let (ok, m) := mapSegment d ph.pages ph.pageStart m
    if !ok then (false, m, file)
    else
      let (ok, m, file) :=
        copySegment answers d ph.fileSize 0 ph.fileSize ph.virtAddr m (file.seek ph.offset)
      if !ok then (false, m, file)
      else
        let bss := ph.memSize - ph.fileSize
        let (ok, m) := zeroSegment d bss bss ((ph.virtAddr + ph.fileSize) % 2 ^ 32) m
        (ok, m, file)

/-- The loop over the program headers: `i..`, `n` of them left; the result is `max_virt_end`. -/
def loadSegments (env : Env) (phTable : List UInt8) (d : Nat) :
    (n i maxVirtEnd : Nat) → Machine → File → Option Nat × Machine × File
  | 0, _, maxVirtEnd, m, file => (some maxVirtEnd, m, file)
  | n + 1, i, maxVirtEnd, m, file =>
    let ph := parseProgramHeader phTable i
    if ph.type ≠ 1 then loadSegments env phTable d n (i + 1) maxVirtEnd m file
    else
      match loadSegment (env.chunk i) d ph m file with
      | (false, m, file) => (none, m, file)
      | (true, m, file) => loadSegments env phTable d n (i + 1) (max maxVirtEnd ph.stop) m file

/-- `loadELF` from the check of `ph_entry_count` on, for directory `d`. -/
def loadImage (env : Env) (d : Nat) (h : Header) (m : Machine) (file : File) :
    Option Nat × Machine × File :=
  if h.phEntryCount = 0 ∨ 65536 < h.phEntryCount then (none, m, file)
  else if !env.phTable.new then (none, m, file)
  else
    let (phTable, _, file) := readAt file 1 h.phOffset (32 * h.phEntryCount) env.phTable.read
    match phTable with
    | none => (none, m, file)
    | some phTable => loadSegments env phTable d h.phEntryCount 0 0 m file

/-- The heap after the last segment. -/
def layoutHeap (maxVirtEnd : Nat) : HeapSegment :=
  { startAddress := pageUp maxVirtEnd, endAddress := pageUp maxVirtEnd
    maxAddress := min (pageUp maxVirtEnd + 0x10000000) 0xFFFFFFFF }

/-! ## `loadELF` -/

/-- `ELFLoader::loadELF`; `pcbPtr` is what `new` answers for the process. -/
def loadELF (threadExit : Nat) (k : Kernel) (pcbPtr : Nat) (env : Env) (file : File) :
    Option Nat × Kernel × File :=
  let (bytes, _, file) := readAt file 1 0 52 env.header
  match bytes with
  | none => (none, k, file)
  | some bytes =>
    let h := parseHeader bytes
    if h.magic ≠ 0x464C457F then (none, k, file)
    else
      let (appType, file) := detectELFAppType env file h
      match createProcess threadExit k pcbPtr 0 false 0 0 false with
      | (none, k) => (none, k, file)
      | (some p, k) =>
        let k := k.modPcb p fun pcb => { pcb with appType := appType, mainEntry := h.entry }
        let d := ((k.pcbs p).map Pcb.pageDirectory).getD 0
        match loadImage env d h k.machine file with
        | (none, m, file) =>
          let k := k.withMachine m
          (none, (killProcess k (((k.pcbs p).map Pcb.pid).getD 0)).2, file)
        | (some maxVirtEnd, m, file) =>
          (some p, (k.withMachine m).modPcb p fun pcb => { pcb with heap := layoutHeap maxVirtEnd },
            file)

end Elf
end Hashx86
