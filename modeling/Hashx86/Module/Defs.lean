import Hashx86.Fs.Handle
import Hashx86.Kheap.Defs

/-!
# Loading a driver (`core/drivers/ModuleLoader.cpp`)

`loadDriver` is `ModuleLoader::LoadDriver`: it reads a relocatable ELF file, gives every section with
`SHF_ALLOC` an image on the kernel heap, applies the relocations and looks for
`CreateDriverInstance`. What the heap and the file system answer is an input (`Env`), as are the
addresses of the kernel's symbol table (`lookup`).

The table of sections is a function from the index; its `addr` field is where the code keeps the
address of an image. Fields that `LoadDriver` does not read are left out.
-/

namespace Hashx86
namespace Module

open Lib Fs

/-! ## The file -/

/-- The little-endian word at byte `i`. -/
def u32 (bytes : List UInt8) (i : Nat) : Nat := read32 (fun j => bytes.getD j 0) i

def u16 (bytes : List UInt8) (i : Nat) : Nat :=
  (bytes.getD i 0).toNat + 256 * (bytes.getD (i + 1) 0).toNat

/-- `elf_header`. -/
structure Header where
  magic : Nat
  type : Nat
  shOffset : Nat
  shSize : Nat
  shEntryCount : Nat
  shStrIndex : Nat

def parseHeader (b : List UInt8) : Header :=
  { magic := u32 b 0, type := u16 b 16, shOffset := u32 b 32, shSize := u16 b 46
    shEntryCount := u16 b 48, shStrIndex := u16 b 50 }

/-- `elf_section_header`. -/
structure Section where
  type : Nat
  flags : Nat
  addr : Nat
  offset : Nat
  size : Nat
  link : Nat
  info : Nat
  entSize : Nat

def parseSection (b : List UInt8) (i : Nat) : Section :=
  { type := u32 b (40 * i + 4), flags := u32 b (40 * i + 8), addr := u32 b (40 * i + 12)
    offset := u32 b (40 * i + 16), size := u32 b (40 * i + 20), link := u32 b (40 * i + 24)
    info := u32 b (40 * i + 28), entSize := u32 b (40 * i + 36) }

/-- `flags & 0x2`: `SHF_ALLOC`. -/
def Section.alloc (s : Section) : Bool := s.flags &&& 0x2 ≠ 0

/-- `elf32_symbol`. -/
structure Symbol where
  name : Nat
  value : Nat
  shndx : Nat

def parseSymbol (b : List UInt8) (i : Nat) : Symbol :=
  { name := u32 b (16 * i), value := u32 b (16 * i + 4), shndx := u16 b (16 * i + 14) }

/-- `elf32_rel`. -/
structure Rel where
  offset : Nat
  info : Nat

def parseRel (b : List UInt8) (r : Nat) : Rel := { offset := u32 b (8 * r), info := u32 b (8 * r + 4) }

/-- `ELF32_R_SYM`. -/
def Rel.sym (r : Rel) : Nat := r.info / 256

/-- `ELF32_R_TYPE`. -/
def Rel.type (r : Rel) : Nat := r.info % 256

/-! ## The environment -/

structure ReadAnswer where
  seek : SeekAnswer
  ok : Bool

/-- What a `kmalloc` and the read into the new buffer meet. -/
structure BufAnswer where
  ptr : Nat
  read : ReadAnswer

structure Env where
  header : ReadAnswer
  table : BufAnswer
  strtab : BufAnswer
  image : Nat → BufAnswer
  symtab : BufAnswer
  symstr : BufAnswer
  rels : Nat → BufAnswer
  /-- `SymbolTable::Lookup`. -/
  lookup : List UInt8 → UInt32

/-- The file and the heap. -/
structure Io where
  file : File
  heap : Heap

/-- `file->Seek(offset); file->Read(buffer, size)`: the bytes, when all of them were read. -/
def readAt (file : File) (buffer offset size : Nat) (a : ReadAnswer) :
    Option (List UInt8) × List UInt8 × File :=
  let (result, bytes, file) := (file.seek offset).read buffer size a.seek a.ok
  if result ≠ toInt32 size then (none, bytes, file) else (some bytes, bytes, file)

/-- A buffer on the heap with `size` bytes of the file from `offset` on: its address and the bytes.
`none` when there is no memory, or when not all bytes can be read and the buffer is free again. -/
def loadBuf (io : Io) (size offset : Nat) (a : BufAnswer) : Option (Nat × List UInt8) × Io :=
  let (ptr, heap) := io.heap.kmalloc size a.ptr
  if ptr = 0 then (none, { io with heap := heap })
  else
    let (result, bytes, file) := readAt io.file ptr offset size a.read
    let heap := heap.fill ptr bytes
    match result with
    | none => (none, { file := file, heap := heap.kfree ptr })
    | some bytes => (some (ptr, bytes), { file := file, heap := heap })

/-! ## Images -/

/-- The image of one section: its address. -/
def loadImage (io : Io) (s : Section) (a : BufAnswer) : Option Nat × Io :=
  if s.type ≠ 8 then
    let (result, io) := loadBuf io s.size s.offset a
    (result.map Prod.fst, io)
  else
    let (ptr, heap) := io.heap.kmalloc s.size a.ptr
    if ptr = 0 then (none, { io with heap := heap })
    else (some ptr, { io with heap := heap.fill ptr (List.replicate s.size 0) })

/-- `sections[i].addr = addr`. -/
def setAddr (secs : Nat → Section) (i addr : Nat) : Nat → Section :=
  Function.update secs i { secs i with addr := addr }

/-- The loop that loads the images: sections `i..`, `n` of them left. -/
def loadImages (env : Env) : (n i : Nat) → (Nat → Section) → Io → Bool × (Nat → Section) × Io
  | 0, _, secs, io => (true, secs, io)
  | n + 1, i, secs, io =>
    if !(secs i).alloc ∨ (secs i).size = 0 then loadImages env n (i + 1) (setAddr secs i 0) io
    else match loadImage io (secs i) (env.image i) with
      | (none, io) => (false, secs, io)
      | (some mem, io) => loadImages env n (i + 1) (setAddr secs i mem) io

/-- The loop that frees the images: sections `i..`, `n` of them left. -/
def freeImages (secs : Nat → Section) (heap : Heap) : (n i : Nat) → Heap
  | 0, _ => heap
  | n + 1, i =>
    let heap := if (secs i).addr ≠ 0 ∧ (secs i).alloc then heap.kfree (secs i).addr else heap
    freeImages secs heap n (i + 1)

/-! ## Symbols -/

/-- The symbol table and its strings, with their addresses. -/
structure Symbols where
  ptr : Nat
  bytes : List UInt8
  count : Nat
  strPtr : Nat
  str : List UInt8

/-- The first section from `i` on that has type `SHT_SYMTAB`, among `n`. -/
def findSymtab (secs : Nat → Section) : (n i : Nat) → Option Nat
  | 0, _ => none
  | n + 1, i => if (secs i).type = 2 then some i else findSymtab secs n (i + 1)

/-- The symbol table, `none` when there is none or it cannot be loaded. -/
def loadSymbols (env : Env) (secs : Nat → Section) (count : Nat) (io : Io) : Option Symbols × Io :=
  match findSymtab secs count 0 with
  | none => (none, io)
  | some i =>
    match loadBuf io (secs i).size (secs i).offset env.symtab with
    | (none, io) => (none, io)
    | (some (ptr, bytes), io) =>
      let link := (secs i).link
      if toInt32 link < 0 ∨ count ≤ link then (none, { io with heap := io.heap.kfree ptr })
      else match loadBuf io (secs link).size (secs link).offset env.symstr with
        | (none, io) => (none, { io with heap := io.heap.kfree ptr })
        | (some (strPtr, str), io) =>
          (some { ptr := ptr, bytes := bytes, count := (secs i).size / 16, strPtr := strPtr
                  str := str }, io)

/-- The string at `off`, `none` when it does not end inside the table. -/
def nameAt (str : List UInt8) (off : Nat) : Option (List UInt8) :=
  let rest := str.drop off
  if 0 ∈ rest then some (rest.takeWhile (· ≠ 0)) else none

/-- The value of a symbol, `none` when it cannot be resolved. -/
def resolve (env : Env) (secs : Nat → Section) (count : Nat) (str : List UInt8) (s : Symbol) :
    Option Nat :=
  if s.shndx = 0 then
    if str.length ≤ s.name then none
    else match nameAt str s.name with
      | none => none
      | some name => if env.lookup name = 0 then none else some (env.lookup name).toNat
  else if count ≤ s.shndx then none
  else if !(secs s.shndx).alloc then none
  else if (secs s.shndx).size ≤ s.value then none
  else some (((secs s.shndx).addr + s.value) % 2 ^ 32)

/-! ## Relocations -/

/-- `R_386_32` and `R_386_PC32`: the word at `place` after the relocation. -/
def patched (type place symVal word : Nat) : Nat :=
  if type = 1 then (word + symVal) % 2 ^ 32 else (word + sub32 symVal place) % 2 ^ 32

/-- One relocation of a target of `size` bytes at `base`; `none` is a failure. -/
def applyRel (env : Env) (secs : Nat → Section) (count : Nat) (sy : Symbols) (base size : Nat)
    (rel : Rel) (heap : Heap) : Option Heap :=
  if sy.count ≤ rel.sym then none
  else if rel.type ≠ 1 ∧ rel.type ≠ 2 then none
  else if size - 4 < rel.offset then none
  else
    let place := (base + rel.offset) % 2 ^ 32
    match resolve env secs count sy.str (parseSymbol sy.bytes rel.sym) with
    | none => none
    | some symVal => some (heap.setWord place (patched rel.type place symVal (read32 heap.mem place)))

/-- The loop over a table: relocations `r..`, `n` of them left. -/
def applyRels (env : Env) (secs : Nat → Section) (count : Nat) (sy : Symbols) (base size : Nat)
    (table : List UInt8) : (n r : Nat) → Heap → Bool × Heap
  | 0, _, heap => (true, heap)
  | n + 1, r, heap =>
    match applyRel env secs count sy base size (parseRel table r) heap with
    | none => (false, heap)
    | some heap => applyRels env secs count sy base size table n (r + 1) heap

/-- A section of type `SHT_REL`: whether the loop over the sections goes on. -/
def relocateSection (env : Env) (secs : Nat → Section) (count : Nat) (symbols : Option Symbols)
    (i : Nat) (io : Io) : Bool × Io :=
  let s := secs i
  if s.entSize ≠ 8 then (false, io)
  else if s.size / s.entSize = 0 ∨ s.size % s.entSize ≠ 0 then (false, io)
  else match symbols with
    | none => (false, io)
    | some sy =>
      if sy.count = 0 then (false, io)
      else match loadBuf io s.size s.offset (env.rels i) with
        | (none, io) => (false, io)
        | (some (ptr, table), io) =>
          let free : Io := { io with heap := io.heap.kfree ptr }
          let target := secs s.info
          if count ≤ s.info then (false, free)
          else if !target.alloc then (true, free)
          else if target.addr = 0 ∨ target.size = 0 then (false, free)
          else if target.size < 4 then (false, free)
          else
            let (ok, heap) := applyRels env secs count sy target.addr target.size table
              (s.size / s.entSize) 0 io.heap
            (ok, { io with heap := heap.kfree ptr })

/-- The loop over the relocation sections: sections `i..`, `n` of them left. -/
def relocate (env : Env) (secs : Nat → Section) (count : Nat) (symbols : Option Symbols) :
    (n i : Nat) → Io → Bool × Io
  | 0, _, io => (true, io)
  | n + 1, i, io =>
    if (secs i).type ≠ 9 then relocate env secs count symbols n (i + 1) io
    else match relocateSection env secs count symbols i io with
      | (false, io) => (false, io)
      | (true, io) => relocate env secs count symbols n (i + 1) io

/-! ## The entry point -/

/-- `"CreateDriverInstance"`. -/
def entryName : List UInt8 :=
  [67, 114, 101, 97, 116, 101, 68, 114, 105, 118, 101, 114, 73, 110, 115, 116, 97, 110, 99, 101]

/-- The search for `CreateDriverInstance`: symbols `i..`, `n` of them left; `0` is `NULL`. -/
def findEntry (secs : Nat → Section) (count : Nat) (sy : Symbols) : (n i : Nat) → Nat
  | 0, _ => 0
  | n + 1, i =>
    let s := parseSymbol sy.bytes i
    let found := s.name < sy.str.length ∧ (s.name + 21) % 2 ^ 32 ≤ sy.str.length ∧
      (sy.str.drop s.name).take 21 = entryName ++ [0]
    if found ∧ s.shndx ≠ 0 ∧ s.shndx < count ∧ (secs s.shndx).alloc ∧
        s.value < (secs s.shndx).size then
      ((secs s.shndx).addr + s.value) % 2 ^ 32
    else findEntry secs count sy n (i + 1)

/-! ## `LoadDriver` -/

/-- `kfree(symtab)` and `kfree(strtab_sym)`. -/
def freeSymbols (symbols : Option Symbols) (heap : Heap) : Heap :=
  match symbols with
  | none => heap
  | some sy => (heap.kfree sy.ptr).kfree sy.strPtr

/-- What `LoadDriver` returns (`0` is `NULL`), the table of sections and what it leaves. -/
structure Loaded where
  entry : Nat
  sections : Nat → Section
  io : Io

/-- `LoadDriver` from the loop over the sections on; `tablePtr` and `strPtr` are the addresses of the
section headers and of their names. -/
def link (env : Env) (count tablePtr strPtr : Nat) (secs : Nat → Section) (io : Io) : Loaded :=
  match loadImages env count 0 secs io with
  | (false, secs, io) =>
    let heap := freeImages secs io.heap count 0
    { entry := 0, sections := secs, io := { io with heap := (heap.kfree tablePtr).kfree strPtr } }
  | (true, secs, io) =>
    let (symbols, io) := loadSymbols env secs count io
    let (relocated, io) := relocate env secs count symbols count 0 io
    let entry := if !relocated then 0 else match symbols with
      | none => 0
      | some sy => findEntry secs count sy sy.count 0
    let heap := if entry = 0 then freeImages secs io.heap count 0 else io.heap
    let heap := freeSymbols symbols ((heap.kfree tablePtr).kfree strPtr)
    { entry := entry, sections := secs, io := { io with heap := heap } }

/-- The checks of the header. -/
def Header.valid (h : Header) : Prop :=
  h.magic = 0x464C457F ∧ h.type = 1 ∧ h.shEntryCount ≠ 0 ∧ h.shSize = 40 ∧
    h.shStrIndex < h.shEntryCount

instance (h : Header) : Decidable h.valid := inferInstanceAs (Decidable (_ ∧ _))

/-- `ModuleLoader::LoadDriver`. -/
def loadDriver (env : Env) (file : File) (mem : Nat → UInt8) : Loaded :=
  let none' (io : Io) : Loaded := { entry := 0, sections := fun i => parseSection [] i, io := io }
  let (bytes, _, file) := readAt file 1 0 52 env.header
  let io : Io := { file := file, heap := .enter mem }
  match bytes with
  | none => none' io
  | some bytes =>
    let header := parseHeader bytes
    if ¬ header.valid then none' io
    else match loadBuf io (header.shEntryCount * 40) header.shOffset env.table with
      | (none, io) => none' io
      | (some (tablePtr, table), io) =>
        let strtab := parseSection table header.shStrIndex
        match loadBuf io strtab.size strtab.offset env.strtab with
        | (none, io) => none' { io with heap := io.heap.kfree tablePtr }
        | (some (strPtr, _), io) =>
          link env header.shEntryCount tablePtr strPtr (parseSection table) io

end Module
end Hashx86
