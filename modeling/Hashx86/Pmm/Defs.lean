import Mathlib.Algebra.Ring.Int.Defs
import Mathlib.Algebra.Ring.Nat
import Mathlib.Logic.Function.Basic

/-!
# The physical memory manager (`core/pmm.cpp`)

`Info` is `PMM_INFO`: a bitmap with one bit for each 4 KiB frame (set: used) and a counter of
used frames. The functions below are the C functions, under their names without the `pmm_` prefix
(the namespace has it). Numbers are `Nat`s, reduced modulo `2 ^ 32` where the C code's `uint32_t`
can wrap; a pointer is its address, so `0` is `NULL`. The bitmap is an array of 32-bit words of its
own: where it lies in memory is `memoryMapEnd` and the address given to `init`. `max_blocks` is a
byte count divided by 4096, and so are the limits of the searches, so their casts to `int` change
nothing.

The loops over words and bits are recursions on the number of rounds left.
-/

namespace Hashx86

/-- The difference of two `uint32_t`. -/
def sub32 (a b : Nat) : Nat := if b ≤ a then a - b else a + 2 ^ 32 - b

theorem sub32_eq {a b : Nat} (h : b ≤ a) : sub32 a b = a - b := if_pos h

/-- A `uint32_t` converted to `int`. -/
def toInt32 (n : Nat) : Int := if n % 2 ^ 32 < 2 ^ 31 then (n % 2 ^ 32 : Nat) else (n % 2 ^ 32 : Nat) - 2 ^ 32

theorem toInt32_of_lt {n : Nat} (h : n < 2 ^ 31) : toInt32 n = n := by
  unfold toInt32
  rw [Nat.mod_eq_of_lt (by omega), if_pos h]

theorem toInt32_bounds (n : Nat) : -2 ^ 31 ≤ toInt32 n ∧ toInt32 n < 2 ^ 31 := by
  unfold toInt32
  split_ifs <;> omega

namespace Pmm

/-- `PMM_INFO`. -/
structure Info where
  memorySize : Nat
  maxBlocks : Nat
  memoryMapArray : Nat → BitVec 32
  memoryMapEnd : Nat
  usedBlocks : Nat

/-- An assignment to `used_blocks`. -/
def Info.withUsed (p : Info) (n : Nat) : Info := { p with usedBlocks := n }

/-! ## Bits -/

/-- `pmm_mmap_set`. -/
def mmapSet (p : Info) (bit : Int) : Info :=
  if 0 ≤ bit ∧ bit < p.maxBlocks then
    { p with
      memoryMapArray := Function.update p.memoryMapArray (bit.toNat / 32)
        (p.memoryMapArray (bit.toNat / 32) ||| (1#32 <<< (bit.toNat % 32))) }
  else p

/-- `pmm_mmap_unset`. -/
def mmapUnset (p : Info) (bit : Int) : Info :=
  if 0 ≤ bit ∧ bit < p.maxBlocks then
    { p with
      memoryMapArray := Function.update p.memoryMapArray (bit.toNat / 32)
        (p.memoryMapArray (bit.toNat / 32) &&& ~~~(1#32 <<< (bit.toNat % 32))) }
  else p

/-- `pmm_mmap_test`. -/
def mmapTest (p : Info) (bit : Int) : Bool :=
  if 0 ≤ bit ∧ bit < p.maxBlocks then
    (p.memoryMapArray (bit.toNat / 32) &&& (1#32 <<< (bit.toNat % 32))) != 0#32
  else false

/-! ## Searches -/

/-- The number of words that the searches visit. -/
def entries (p : Info) : Nat := (p.maxBlocks + 31) / 32

/-- The bit `j` of word `i` is clear. -/
def clearAt (p : Info) (i j : Nat) : Bool := p.memoryMapArray i &&& (1#32 <<< j) == 0#32

/-- The inner loop of `pmm_mmap_first_free`: bits `j..` of word `i`, `n` of them left. -/
def firstFreeBits (p : Info) (i : Nat) : (n j : Nat) → Option Nat
  | 0, _ => none
  | n + 1, j =>
    if p.maxBlocks ≤ i * 32 + j then none
    else if clearAt p i j then some (i * 32 + j)
    else firstFreeBits p i n (j + 1)

/-- The outer loop of `pmm_mmap_first_free`: words `i..`, `n` of them left. -/
def firstFreeWords (p : Info) : (n i : Nat) → Option Nat
  | 0, _ => none
  | n + 1, i =>
    if p.memoryMapArray i ≠ 0xffffffff#32 then
      match firstFreeBits p i 32 0 with
      | some bit => some bit
      | none => firstFreeWords p n (i + 1)
    else firstFreeWords p n (i + 1)

/-- `pmm_mmap_first_free`; `none` is the result `-1`. -/
def mmapFirstFree (p : Info) : Option Nat := firstFreeWords p (entries p) 0

/-- The inner loop of `pmm_mmap_first_free_low`. `some r` is `return r` from the whole function,
`none` the end of the loop. -/
def firstFreeLowBits (p : Info) (limitFrame i : Nat) : (n j : Nat) → Option (Option Nat)
  | 0, _ => none
  | n + 1, j =>
    if limitFrame ≤ i * 32 + j then some none
    else if p.maxBlocks ≤ i * 32 + j then some none
    else if clearAt p i j then some (some (i * 32 + j))
    else firstFreeLowBits p limitFrame i n (j + 1)

/-- The outer loop of `pmm_mmap_first_free_low`. -/
def firstFreeLowWords (p : Info) (limitFrame : Nat) : (n i : Nat) → Option Nat
  | 0, _ => none
  | n + 1, i =>
    if limitFrame ≤ i * 32 then none
    else if p.memoryMapArray i ≠ 0xffffffff#32 then
      match firstFreeLowBits p limitFrame i 32 0 with
      | some r => r
      | none => firstFreeLowWords p limitFrame n (i + 1)
    else firstFreeLowWords p limitFrame n (i + 1)

/-- `pmm_mmap_first_free_low`; `none` is the result `-1`. -/
def mmapFirstFreeLow (p : Info) (limitFrame : Nat) : Option Nat :=
  firstFreeLowWords p limitFrame (entries p) 0

/-- How a scan of one word ends in `pmm_mmap_first_free_by_size`: the function returns, or the
loop goes on with the run length and the start of the run. -/
inductive RunScan where
  | ret (r : Option Nat)
  | next (free : Nat) (startIndex : Nat)
  deriving DecidableEq

/-- The inner loop of `pmm_mmap_first_free_by_size`. While `free = 0` the value of `startIndex`
(`-1` in the source) is not read. -/
def firstFreeBySizeBits (p : Info) (size i : Nat) : (n j free startIndex : Nat) → RunScan
  | 0, _, free, startIndex => .next free startIndex
  | n + 1, j, free, startIndex =>
    if p.maxBlocks ≤ i * 32 + j then .ret none
    else if !mmapTest p ((i * 32 + j : Nat) : Int) then
      let startIndex := if free = 0 then i * 32 + j else startIndex
      if free + 1 = size then .ret (some startIndex)
      else firstFreeBySizeBits p size i n (j + 1) (free + 1) startIndex
    else firstFreeBySizeBits p size i n (j + 1) 0 0

/-- The outer loop of `pmm_mmap_first_free_by_size`. -/
def firstFreeBySizeWords (p : Info) (size : Nat) : (n i free startIndex : Nat) → Option Nat
  | 0, _, _, _ => none
  | n + 1, i, free, startIndex =>
    if p.memoryMapArray i ≠ 0xffffffff#32 then
      match firstFreeBySizeBits p size i 32 0 free startIndex with
      | .ret r => r
      | .next free startIndex => firstFreeBySizeWords p size n (i + 1) free startIndex
    -- A fully used word ends the run.
    else firstFreeBySizeWords p size n (i + 1) 0 0

/-- `pmm_mmap_first_free_by_size`; `none` is the result `-1`. -/
def mmapFirstFreeBySize (p : Info) (size : Nat) : Option Nat :=
  if size = 0 then none else firstFreeBySizeWords p size (entries p) 0 0 0

/-! ## Initialisation and regions -/

/-- `memset(array, 0xff, size)` as seen through the words of the array. -/
def fillOnes (a : Nat → BitVec 32) (size : Nat) : Nat → BitVec 32 := fun i =>
  a i ||| (BitVec.allOnes 32 >>> (32 - 8 * min 4 (size - 4 * i)))

/-- `pmm_init`. `old` is what the memory at `bitmap` holds before. -/
def init (old : Nat → BitVec 32) (bitmap totalMemorySize : Nat) : Info :=
  let maxBlocks := totalMemorySize / 4096
  let mapSize := (maxBlocks + 7) / 8
  let memoryMapEnd := (bitmap + mapSize) % 2 ^ 32
  { memorySize := totalMemorySize
    maxBlocks := maxBlocks
    memoryMapArray := fillOnes old mapSize
    memoryMapEnd :=
      if memoryMapEnd % 4096 ≠ 0 then (memoryMapEnd + (4096 - memoryMapEnd % 4096)) % 2 ^ 32
      else memoryMapEnd
    usedBlocks := maxBlocks }

/-- The loop of `pmm_init_region`, `blocks` rounds left. -/
def initRegionLoop (p : Info) (align : Nat) : Nat → Info
  | 0 => p
  | blocks + 1 =>
    if mmapTest p (align : Int) then
      initRegionLoop ((mmapUnset p (align : Int)).withUsed (sub32 p.usedBlocks 1))
        (align + 1) blocks
    else initRegionLoop p (align + 1) blocks

/-- `pmm_init_region`. -/
def initRegion (p : Info) (base regionSize : Nat) : Info :=
  if regionSize = 0 then p else initRegionLoop p (base / 4096) (regionSize / 4096)

/-- The loop of `pmm_deinit_region`, `blocks` rounds left. -/
def deinitRegionLoop (p : Info) (align : Nat) : Nat → Info
  | 0 => p
  | blocks + 1 =>
    if !mmapTest p (align : Int) then
      deinitRegionLoop ((mmapSet p (align : Int)).withUsed ((p.usedBlocks + 1) % 2 ^ 32))
        (align + 1) blocks
    else deinitRegionLoop p (align + 1) blocks

/-- `pmm_deinit_region`. -/
def deinitRegion (p : Info) (base regionSize : Nat) : Info :=
  if regionSize = 0 then p else deinitRegionLoop p (base / 4096) (regionSize / 4096)

/-! ## Allocation and release -/

/-- What the three allocators do with the frame that the search found: mark it and count it. -/
def takeFrame (p : Info) (frame : Nat) : Nat × Info :=
  (frame * 4096 % 2 ^ 32, (mmapSet p (frame : Int)).withUsed ((p.usedBlocks + 1) % 2 ^ 32))

/-- `pmm_alloc_block`. -/
def allocBlock (p : Info) : Nat × Info :=
  if p.maxBlocks ≤ p.usedBlocks then (0, p)
  else match mmapFirstFree p with
    | none => (0, p)
    | some frame => takeFrame p frame

/-- `pmm_alloc_block_low`. -/
def allocBlockLow (p : Info) (limitAddr : Nat) : Nat × Info :=
  if p.maxBlocks ≤ p.usedBlocks then (0, p)
  else match mmapFirstFreeLow p (limitAddr / 4096) with
    | none => (0, p)
    | some frame => takeFrame p frame

/-- `for (i = 0; i < size; i++) pmm_mmap_set(frame + i)`. -/
def setRun (p : Info) (frame : Nat) : Nat → Info
  | 0 => p
  | size + 1 => setRun (mmapSet p (frame : Int)) (frame + 1) size

/-- `pmm_alloc_blocks`. -/
def allocBlocks (p : Info) (size : Nat) : Nat × Info :=
  if p.maxBlocks < (p.usedBlocks + size) % 2 ^ 32 then (0, p)
  else match mmapFirstFreeBySize p size with
    | none => (0, p)
    | some frame =>
      (frame * 4096 % 2 ^ 32, (setRun p frame size).withUsed ((p.usedBlocks + size) % 2 ^ 32))

/-- What `pmm_free_block` reads of `g_paging`: the address of `KernelPageDirectory` and its
entries. -/
structure KernelDir where
  base : Nat
  entry : Nat → Nat

/-- The guard of `pmm_free_block`: the frame holds a kernel page table or the kernel page
directory. -/
def KernelDir.guards (kd : KernelDir) (frameAddr : Nat) : Bool :=
  (List.range 64).any (fun i => kd.entry i / 4096 * 4096 == frameAddr) ||
  (List.range' 768 256).any (fun i => kd.entry i / 4096 * 4096 == frameAddr) ||
  frameAddr == kd.base / 4096 * 4096

/-- `pmm_free_block`. `kd = none` before `g_paging` and its directory exist. -/
def freeBlock (p : Info) (kd : Option KernelDir) (addr : Nat) : Info :=
  if addr = 0 then p
  else if addr % 4096 ≠ 0 then p
  else if kd.any (·.guards addr) then p
  else
    let frame := addr / 4096
    if p.maxBlocks ≤ frame then p
    else if !mmapTest p (frame : Int) then p
    else (mmapUnset p (frame : Int)).withUsed (sub32 p.usedBlocks 1)

/-- The loop of `pmm_free_blocks` from round `i` on, `n` rounds left: the state and `freed`.
`frame + i` is a `uint32_t` that the bit helpers get as an `int`. -/
def freeRun (p : Info) (frame : Nat) : (n i freed : Nat) → Info × Nat
  | 0, _, freed => (p, freed)
  | n + 1, i, freed =>
    if mmapTest p (toInt32 (frame + i)) then
      freeRun (mmapUnset p (toInt32 (frame + i))) frame n (i + 1) ((freed + 1) % 2 ^ 32)
    else freeRun p frame n (i + 1) freed

/-- `pmm_free_blocks`. -/
def freeBlocks (p : Info) (addr size : Nat) : Info :=
  if addr = 0 then p
  else if addr % 4096 ≠ 0 then p
  else
    let frame := addr / 4096
    if p.maxBlocks ≤ frame ∨ p.maxBlocks < (frame + size) % 2 ^ 32 then p
    else
      let r := freeRun p frame size 0 0
      r.1.withUsed (sub32 r.1.usedBlocks r.2)

end Pmm
end Hashx86
