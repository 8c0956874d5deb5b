import Hashx86.Lib.Bytes
import Hashx86.Pmm.Defs

/-!
# The machine and the page tables (`core/paging.cpp`)

`Machine` is the PMM with the physical memory. The kernel reaches every frame that it uses through
its identity mapping, so a pointer of the C code is a physical address. A directory or a table is
read and written in memory, entry by entry.

`log` is a ghost: what the kernel did with frames and user bytes, newest first.

The guard `paging_map_depth` of `MapPage` is not modelled: it is zero whenever `MapPage` reads it,
since `pmm_alloc_block_low` does not call `MapPage`.
-/

namespace Hashx86

open Lib

def pageSize : Nat := 4096

/-- `256 * 1024 * 1024`: the end of the identity-mapped low memory. -/
def lowLimit : Nat := 0x10000000

/-- The result `0xFFFFFFFF` of `GetPhysicalAddress`. -/
def unmapped : Nat := 0xFFFFFFFF

def pagePresent : Nat := 1
def pageRW : Nat := 2
def pageUser : Nat := 4

/-- What the ghost log records: a frame that `pmm_alloc_block_low` returned, a call of
`pmm_free_block` (and whether the frame was in use), a store of `len` user bytes at `va` that went
to `phys`. -/
inductive Event where
  | alloc (addr : Nat)
  | free (addr : Nat) (inUse : Bool)
  | write (va phys len : Nat)
  deriving DecidableEq

structure Machine where
  pmm : Pmm.Info
  mem : Nat → UInt8
  kernelPageDirectory : Nat
  log : List Event

namespace Machine

/-! ## Memory -/

/-- `memcpy` and `memset` of kernel data. -/
def store (m : Machine) (a n : Nat) (src : Nat → UInt8) : Machine :=
  { m with mem := overwrite m.mem a n src }

/-- `memset(p, 0, n)`. -/
def zero (m : Machine) (a n : Nat) : Machine := m.store a n fun _ => 0

/-- A store of user bytes: `va` is the address at which the user sees them. -/
def storeUser (m : Machine) (va phys n : Nat) (src : Nat → UInt8) : Machine :=
  { m with mem := overwrite m.mem phys n src, log := .write va phys n :: m.log }

/-- `table[i]`. -/
def entry (m : Machine) (table i : Nat) : Nat := read32 m.mem (table + 4 * i)

/-- `table[i] = v`. -/
def setEntry (m : Machine) (table i v : Nat) : Machine :=
  { m with mem := write32 m.mem (table + 4 * i) v }

/-! ## Frames -/

/-- `pmm_alloc_block_low(256 * 1024 * 1024)`; `0` is `NULL`. -/
def allocBlockLow (m : Machine) : Nat × Machine :=
  let r := Pmm.allocBlockLow m.pmm lowLimit
  (r.1, { m with pmm := r.2, log := if r.1 = 0 then m.log else .alloc r.1 :: m.log })

/-- The kernel page directory as `pmm_free_block` reads it. -/
def kernelDir (m : Machine) : Option Pmm.KernelDir :=
  if m.kernelPageDirectory = 0 then none
  else some ⟨m.kernelPageDirectory, m.entry m.kernelPageDirectory⟩

/-- `pmm_free_block`. -/
def freeBlock (m : Machine) (addr : Nat) : Machine :=
  { m with
    pmm := Pmm.freeBlock m.pmm m.kernelDir addr
    log := .free addr (Pmm.mmapTest m.pmm ((addr / 4096 : Nat) : Int)) :: m.log }

end Machine

namespace Paging

/-- `entry & PAGE_PRESENT`. -/
def present (e : Nat) : Bool := e % 2 = 1

/-- `entry & 0xFFFFF000`. -/
def frameAddr (e : Nat) : Nat := e / 4096 * 4096

/-- `virtual_addr >> 22`. -/
def pdIdx (va : Nat) : Nat := va / 2 ^ 22

/-- `(virtual_addr >> 12) & 0x3FF`. -/
def ptIdx (va : Nat) : Nat := va / 2 ^ 12 % 1024

/-- The directory index is one of the ranges that every directory shares with the kernel. -/
def kernelIdx (i : Nat) : Bool := decide (i < 64) || (decide (768 ≤ i) && decide (i < 1024))

/-- `for (i = lo; i < lo + n; i++) new_dir[i] = KernelPageDirectory[i]`. -/
def linkKernel (m : Machine) (newDir lo : Nat) : Nat → Machine
  | 0 => m
  | n + 1 => linkKernel (m.setEntry newDir lo (m.entry m.kernelPageDirectory lo)) newDir (lo + 1) n

/-- `CreateProcessDirectory`; `0` is `NULL`. -/
def createProcessDirectory (m : Machine) : Nat × Machine :=
  let (newDir, m) := m.allocBlockLow
  if newDir = 0 then (0, m)
  else
    let m := m.zero newDir 4096
    let m := linkKernel m newDir 0 64
    (newDir, linkKernel m newDir 768 256)

/-- The part of `MapPage` that needs the table: `true` and a state where directory entry `pd` is
present, or `false` when no frame is left for a table. -/
def ensureTable (m : Machine) (directory pd : Nat) : Bool × Machine :=
  if present (m.entry directory pd) then (true, m)
  else
    let (newTable, m) := m.allocBlockLow
    if newTable = 0 then (false, m)
    else
      let m := m.zero newTable 4096
      (true, m.setEntry directory pd (newTable ||| pagePresent ||| pageRW ||| pageUser))

/-- `MapPage`. -/
def mapPage (m : Machine) (directory va pa flags : Nat) : Bool × Machine :=
  if kernelIdx (pdIdx va) then (false, m)
  else
    let (ok, m) := ensureTable m directory (pdIdx va)
    if !ok then (false, m)
    else
      let table := frameAddr (m.entry directory (pdIdx va))
      (true, m.setEntry table (ptIdx va) (frameAddr pa ||| flags))

/-- `GetPhysicalAddress`. -/
def getPhysicalAddress (m : Machine) (directory va : Nat) : Nat :=
  if !present (m.entry directory (pdIdx va)) then unmapped
  else
    let table := frameAddr (m.entry directory (pdIdx va))
    if !present (m.entry table (ptIdx va)) then unmapped
    else frameAddr (m.entry table (ptIdx va)) + va % 4096

end Paging
end Hashx86
