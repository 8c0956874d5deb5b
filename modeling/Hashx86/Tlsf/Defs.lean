import Hashx86.Lib.Bytes
import Hashx86.Tlsf.Mapping
import Mathlib.Logic.Function.Basic

/-!
# The TLSF allocator (`core/tlsf/tlsf.cpp`)

A block is the address of its `block_header_t`. `State` is the control structure and the memory.
The links of `block_null` are in the memory, at `control`; the bitmaps and the heads of the free
lists, which are written by their names only, are fields.
-/

namespace Hashx86

open Lib

namespace Tlsf

structure State where
  /-- The address of the control structure, which is the address of `block_null`. -/
  control : Nat
  flBitmap : BitVec 32
  slBitmap : Nat → BitVec 32
  blocks : Nat → Nat → Nat
  mem : Nat → UInt8

/-! ## Fields of a header -/

def prevPhysBlock (mem : Nat → UInt8) (block : Nat) : Nat := read32 mem block

def sizeField (mem : Nat → UInt8) (block : Nat) : Nat := read32 mem (block + 4)

def nextFree (mem : Nat → UInt8) (block : Nat) : Nat := read32 mem (block + 8)

def prevFree (mem : Nat → UInt8) (block : Nat) : Nat := read32 mem (block + 12)

def setPrevPhysBlock (mem : Nat → UInt8) (block prev : Nat) : Nat → UInt8 := write32 mem block prev

def setSizeField (mem : Nat → UInt8) (block size : Nat) : Nat → UInt8 := write32 mem (block + 4) size

def setNextFree (mem : Nat → UInt8) (block next : Nat) : Nat → UInt8 := write32 mem (block + 8) next

def setPrevFree (mem : Nat → UInt8) (block prev : Nat) : Nat → UInt8 := write32 mem (block + 12) prev

/-! ## Blocks -/

def blockSize (mem : Nat → UInt8) (block : Nat) : Nat := sizeField mem block &&& 0xFFFFFFFC

def blockSetSize (mem : Nat → UInt8) (block size : Nat) : Nat → UInt8 :=
  setSizeField mem block (size ||| (sizeField mem block &&& 3))

def blockIsLast (mem : Nat → UInt8) (block : Nat) : Bool := blockSize mem block == 0

def blockIsFree (mem : Nat → UInt8) (block : Nat) : Bool := sizeField mem block &&& 1 != 0

def blockSetFree (mem : Nat → UInt8) (block : Nat) : Nat → UInt8 :=
  setSizeField mem block (sizeField mem block ||| 1)

def blockSetUsed (mem : Nat → UInt8) (block : Nat) : Nat → UInt8 :=
  setSizeField mem block (sizeField mem block &&& 0xFFFFFFFE)

def blockIsPrevFree (mem : Nat → UInt8) (block : Nat) : Bool := sizeField mem block &&& 2 != 0

def blockSetPrevFree (mem : Nat → UInt8) (block : Nat) : Nat → UInt8 :=
  setSizeField mem block (sizeField mem block ||| 2)

def blockSetPrevUsed (mem : Nat → UInt8) (block : Nat) : Nat → UInt8 :=
  setSizeField mem block (sizeField mem block &&& 0xFFFFFFFD)

def blockFromPtr (ptr : Nat) : Nat := ptr - blockStartOffset

def blockToPtr (block : Nat) : Nat := block + blockStartOffset

/-- `block_prev`. -/
def blockPrev (mem : Nat → UInt8) (block : Nat) : Nat := prevPhysBlock mem block

def blockNext (mem : Nat → UInt8) (block : Nat) : Nat :=
  blockToPtr block + blockSize mem block - blockHeaderOverhead

/-- `block_link_next`, which returns `block_next`. -/
def blockLinkNext (mem : Nat → UInt8) (block : Nat) : Nat → UInt8 :=
  setPrevPhysBlock mem (blockNext mem block) block

def blockMarkAsFree (mem : Nat → UInt8) (block : Nat) : Nat → UInt8 :=
  blockSetFree (blockSetPrevFree (blockLinkNext mem block) (blockNext mem block)) block

def blockMarkAsUsed (mem : Nat → UInt8) (block : Nat) : Nat → UInt8 :=
  blockSetUsed (blockSetPrevUsed mem (blockNext mem block)) block

/-- `block_can_split`. -/
def blockCanSplit (mem : Nat → UInt8) (block size : Nat) : Bool :=
  headerSize + size ≤ blockSize mem block

/-- `block_split`: the remaining block. -/
def blockSplit (mem : Nat → UInt8) (block size : Nat) : Nat × (Nat → UInt8) :=
  let remaining := blockToPtr block + size - blockHeaderOverhead
  let remainSize := blockSize mem block - (size + blockHeaderOverhead)
  let mem := blockSetSize mem remaining remainSize
  let mem := blockSetSize mem block size
  (remaining, blockMarkAsFree mem remaining)

/-- `block_absorb`. -/
def blockAbsorb (mem : Nat → UInt8) (prev block : Nat) : Nat → UInt8 :=
  blockLinkNext (setSizeField mem prev
    (sizeField mem prev + (blockSize mem block + blockHeaderOverhead))) prev

/-! ## The free lists -/

/-- `tlsf_ffs`; `none` is `-1`. -/
def tlsfFfs (word : BitVec 32) : Option Nat := (List.range 32).find? fun i => word.getLsbD i

/-- `~0U << i`. -/
def maskFrom (i : Nat) : BitVec 32 := BitVec.allOnes 32 <<< i

/-- `1U << i`. -/
def bit (i : Nat) : BitVec 32 := 1#32 <<< i

/-- `search_suitable_block`: the block and its class. -/
def searchSuitableBlock (s : State) (fl sl : Nat) : Option (Nat × Nat × Nat) :=
  let slMap := s.slBitmap fl &&& maskFrom sl
  if slMap = 0 then
    let flMap := s.flBitmap &&& maskFrom (fl + 1)
    match tlsfFfs flMap with
    | none => none
    | some fl => (tlsfFfs (s.slBitmap fl)).map fun sl => (s.blocks fl sl, fl, sl)
  else (tlsfFfs slMap).map fun sl => (s.blocks fl sl, fl, sl)

/-- `control->blocks[fl][sl] = block`. -/
def setHead (blocks : Nat → Nat → Nat) (fl sl block : Nat) : Nat → Nat → Nat :=
  Function.update blocks fl (Function.update (blocks fl) sl block)

/-- The last block of a free list was taken out. -/
def clearBits (s : State) (fl sl : Nat) : State :=
  let slMap := s.slBitmap fl &&& ~~~ bit sl
  { s with
    slBitmap := Function.update s.slBitmap fl slMap
    flBitmap := if slMap = 0 then s.flBitmap &&& ~~~ bit fl else s.flBitmap }

/-- `remove_free_block`. -/
def removeFreeBlock (s : State) (block fl sl : Nat) : State :=
  let prev := prevFree s.mem block
  let next := nextFree s.mem block
  let s := { s with mem := setNextFree (setPrevFree s.mem next prev) prev next }
  if s.blocks fl sl = block then
    let s := { s with blocks := setHead s.blocks fl sl next }
    if next = s.control then clearBits s fl sl else s
  else s

/-- `insert_free_block`. -/
def insertFreeBlock (s : State) (block fl sl : Nat) : State :=
  let current := s.blocks fl sl
  let mem := setPrevFree (setNextFree s.mem block current) block s.control
  { s with
    mem := setPrevFree mem current block
    blocks := setHead s.blocks fl sl block
    flBitmap := s.flBitmap ||| bit fl
    slBitmap := Function.update s.slBitmap fl (s.slBitmap fl ||| bit sl) }

/-- `block_remove`. -/
def blockRemove (s : State) (block : Nat) : State :=
  let c := mappingInsert (blockSize s.mem block)
  removeFreeBlock s block c.1 c.2

/-- `block_insert`. -/
def blockInsert (s : State) (block : Nat) : State :=
  let c := mappingInsert (blockSize s.mem block)
  insertFreeBlock s block c.1 c.2

/-! ## Merging and trimming -/

/-- `block_merge_prev`. -/
def blockMergePrev (s : State) (block : Nat) : Nat × State :=
  if blockIsPrevFree s.mem block then
    let prev := blockPrev s.mem block
    let s := blockRemove s prev
    (prev, { s with mem := blockAbsorb s.mem prev block })
  else (block, s)

/-- `block_merge_next`, which returns `block`. -/
def blockMergeNext (s : State) (block : Nat) : State :=
  let next := blockNext s.mem block
  if blockIsFree s.mem next then
    let s := blockRemove s next
    { s with mem := blockAbsorb s.mem block next }
  else s

/-- `block_trim_free`. -/
def blockTrimFree (s : State) (block size : Nat) : State :=
  if blockCanSplit s.mem block size then
    let r := blockSplit s.mem block size
    let mem := blockSetPrevFree (blockLinkNext r.2 block) r.1
    blockInsert { s with mem := mem } r.1
  else s

/-- `block_trim_used`. -/
def blockTrimUsed (s : State) (block size : Nat) : State :=
  if blockCanSplit s.mem block size then
    let r := blockSplit s.mem block size
    let s := { s with mem := blockSetPrevUsed r.2 r.1 }
    blockInsert (blockMergeNext s r.1) r.1
  else s

/-- `block_trim_free_leading`: the block behind the gap. -/
def blockTrimFreeLeading (s : State) (block size : Nat) : Nat × State :=
  if blockCanSplit s.mem block size then
    let r := blockSplit s.mem block (size - blockHeaderOverhead)
    let mem := blockLinkNext (blockSetPrevFree r.2 r.1) block
    (r.1, blockInsert { s with mem := mem } block)
  else (block, s)

/-- `block_locate_free`. -/
def blockLocateFree (s : State) (size : Nat) : Option Nat × State :=
  if size = 0 then (none, s)
  else
    let c := mappingSearch size
    if c.1 < flIndexCount then
      match searchSuitableBlock s c.1 c.2 with
      | none => (none, s)
      | some (block, fl, sl) => (some block, removeFreeBlock s block fl sl)
    else (none, s)

/-- `block_prepare_used`. -/
def blockPrepareUsed (s : State) (block : Option Nat) (size : Nat) : Nat × State :=
  match block with
  | none => (0, s)
  | some block =>
    let s := blockTrimFree s block size
    (blockToPtr block, { s with mem := blockMarkAsUsed s.mem block })

/-! ## The interface -/

/-- `sizeof(control_t)`. -/
def tlsfSize : Nat := headerSize + 4 + 4 * flIndexCount + 4 * (flIndexCount * slIndexCount)

/-- `tlsf_pool_overhead`. -/
def tlsfPoolOverhead : Nat := 2 * blockHeaderOverhead

/-- `control_construct` of the control structure at `mem`. -/
def controlConstruct (mem : Nat → UInt8) (control : Nat) : State :=
  { control := control
    flBitmap := 0
    slBitmap := fun _ => 0
    blocks := fun _ _ => control
    mem := setPrevFree (setNextFree mem control control) control control }

/-- `tlsf_add_pool` of `bytes` bytes at `start`: `start` or `0`. -/
def tlsfAddPool (s : State) (start bytes : Nat) : Nat × State :=
  let poolBytes := (bytes - tlsfPoolOverhead) / alignSize * alignSize
  if start % alignSize ≠ 0 then (0, s)
  else if poolBytes < blockSizeMin ∨ blockSizeMax < poolBytes then (0, s)
  else
    let block := start - blockHeaderOverhead
    let mem := blockSetPrevUsed (blockSetFree (blockSetSize s.mem block poolBytes) block) block
    let s := blockInsert { s with mem := mem } block
    let next := blockNext s.mem block
    let mem := blockSetSize (blockLinkNext s.mem block) next 0
    (start, { s with mem := blockSetPrevFree (blockSetUsed mem next) next })

/-- `tlsf_create_with_pool` at an address that is a multiple of `ALIGN_SIZE`. -/
def tlsfCreateWithPool (mem : Nat → UInt8) (start bytes : Nat) : State :=
  (tlsfAddPool (controlConstruct mem start) (start + tlsfSize) (bytes - tlsfSize)).2

/-- `tlsf_malloc`. -/
def tlsfMalloc (s : State) (size : Nat) : Nat × State :=
  let adjust := adjustRequestSize size alignSize
  let r := blockLocateFree s adjust
  blockPrepareUsed r.2 r.1 adjust

/-- The gap that `tlsf_memalign` leaves before the aligned pointer. -/
def alignGap (ptr align : Nat) : Nat :=
  let aligned := alignUp ptr align
  let gap := aligned - ptr
  if gap ≠ 0 ∧ gap < headerSize then
    let offset := max (headerSize - gap) align
    alignUp (aligned + offset) align - ptr
  else gap

/-- `tlsf_memalign`. -/
def tlsfMemalign (s : State) (align size : Nat) : Nat × State :=
  let adjust := adjustRequestSize size alignSize
  let sizeWithGap := adjustRequestSize ((adjust + align + headerSize) % 2 ^ 32) align
  let alignedSize := if adjust ≠ 0 ∧ alignSize < align then sizeWithGap else adjust
  let r := blockLocateFree s alignedSize
  match r.1 with
  | none => blockPrepareUsed r.2 none adjust
  | some block =>
    let gap := alignGap (blockToPtr block) align
    if gap ≠ 0 then
      let t := blockTrimFreeLeading r.2 block gap
      blockPrepareUsed t.2 (some t.1) adjust
    else blockPrepareUsed r.2 (some block) adjust

/-- `tlsf_free`. -/
def tlsfFree (s : State) (ptr : Nat) : State :=
  if ptr = 0 then s
  else
    let block := blockFromPtr ptr
    let r := blockMergePrev { s with mem := blockMarkAsFree s.mem block } block
    blockInsert (blockMergeNext r.2 r.1) r.1

/-- `tlsf_realloc`. The regions of the `memcpy` are two blocks. -/
def tlsfRealloc (s : State) (ptr size : Nat) : Nat × State :=
  if ptr ≠ 0 ∧ size = 0 then (0, tlsfFree s ptr)
  else if ptr = 0 then tlsfMalloc s size
  else
    let block := blockFromPtr ptr
    let next := blockNext s.mem block
    let cursize := blockSize s.mem block
    let combined := cursize + blockSize s.mem next + blockHeaderOverhead
    let adjust := adjustRequestSize size alignSize
    if cursize < adjust ∧ (blockIsFree s.mem next = false ∨ combined < adjust) then
      let p := tlsfMalloc s size
      if p.1 = 0 then p
      else
        let minsize := min cursize size
        let mem := overwrite p.2.mem p.1 minsize fun i => p.2.mem (ptr + i)
        (p.1, tlsfFree { p.2 with mem := mem } ptr)
    else
      let s := if cursize < adjust then
          let s := blockMergeNext s block
          { s with mem := blockMarkAsUsed s.mem block }
        else s
      (ptr, blockTrimUsed s block adjust)

end Tlsf
end Hashx86
