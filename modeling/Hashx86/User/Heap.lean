import Hashx86.Lib.Blocks
import Hashx86.Lib.Bytes
import Hashx86.Lib.Word32
import Hashx86.User.Break
import Mathlib.Algebra.Ring.Int.Defs

/-!
# The user heap (`user_prog/libhx86/Hx86/memory.cpp`)

`State` is the heap of one process. `blocks` is the list that starts at `g_head`; the memory holds
the same list (`Chain`). `lost` is a ghost: the headers that `allocate_new_block` carved and could
not use.
-/

namespace Hashx86

open Lib

namespace UserHeap

/-- `heap_BLOCK`, with its address. -/
structure HeapBlock where
  addr : Nat
  size : Nat
  isFree : Bool
  data : Nat

structure State where
  brk : Break
  mem : Nat → UInt8
  /-- `g_head`. -/
  head : Nat
  blocks : List HeapBlock
  lost : List Nat

/-- `sizeof(heap_BLOCK)`. -/
def headerSize : Nat := 13

/-! ## Fields of a header in memory -/

def flag (isFree : Bool) : UInt8 := if isFree then 1 else 0

/-- `block->metadata.is_free = isFree`. -/
def storeFree (mem : Nat → UInt8) (block : Nat) (isFree : Bool) : Nat → UInt8 :=
  overwrite mem (block + 4) 1 fun _ => flag isFree

/-- `block->metadata.size = size`. -/
def storeSize (mem : Nat → UInt8) (block size : Nat) : Nat → UInt8 := write32 mem block size

/-- `block->next = next`. -/
def storeNext (mem : Nat → UInt8) (block next : Nat) : Nat → UInt8 := write32 mem (block + 5) next

/-- `block->data = data`. -/
def storeData (mem : Nat → UInt8) (block data : Nat) : Nat → UInt8 := write32 mem (block + 9) data

/-! ## The calls -/

/-- `worst_fit`. -/
def worstFit (s : State) (size : Int) : Option HeapBlock :=
  s.blocks.find? fun b => b.isFree && decide (size ≤ int32 b.size)

/-- The search of `krealloc` and `kfree` for the block with the data `ptr`. -/
def findData (s : State) (ptr : Nat) : Option HeapBlock := s.blocks.find? fun b => b.data = ptr

/-- `block->metadata.is_free = isFree` for a block of the list. -/
def setFree (s : State) (block : Nat) (isFree : Bool) : State :=
  { s with
    mem := storeFree s.mem block isFree
    blocks := s.blocks.map fun b => if b.addr = block then { b with isFree := isFree } else b }

/-- The branch of `kmalloc` for an empty list. -/
def firstBlock (ok : Nat → Bool) (s : State) (size : Int) : Nat × State :=
  let block := kbrk ok s.brk headerSize
  if block.1 = 0 then (0, { s with brk := block.2, head := 0 })
  else
    let mem := storeNext (storeSize (storeFree s.mem block.1 false) block.1 size.toNat) block.1 0
    let data := kbrk ok block.2 size
    (data.1, { s with
      brk := data.2
      mem := storeData mem block.1 data.1
      head := block.1
      blocks := [⟨block.1, size.toNat, false, data.1⟩] })

/-- `allocate_new_block`; `temp` is the last block of the list. -/
def allocateNewBlock (ok : Nat → Bool) (s : State) (temp : Nat) (size : Int) : Nat × State :=
  let block := kbrk ok s.brk headerSize
  if block.1 = 0 then (0, { s with brk := block.2 })
  else
    let data := kbrk ok block.2 size
    let mem := storeData (storeSize (storeFree s.mem block.1 false) block.1 size.toNat) block.1 data.1
    if data.1 = 0 then (0, { s with brk := data.2, mem := mem, lost := block.1 :: s.lost })
    else
      (data.1, { s with
        brk := data.2
        mem := storeNext (storeNext mem block.1 0) temp block.1
        blocks := s.blocks ++ [⟨block.1, size.toNat, false, data.1⟩] })

/-- `kmalloc`. -/
def kmalloc (ok : Nat → Bool) (s : State) (size : Int) : Nat × State :=
  if size ≤ 0 then (0, s)
  else
    match s.blocks.getLast? with
    | none => firstBlock ok s size
    | some temp =>
      match worstFit s size with
      | none => allocateNewBlock ok s temp.addr size
      | some worst => (worst.data, setFree s worst.addr false)

/-- `n * size` as an `int`. -/
def mul32 (n size : Int) : Int := int32 ((n * size) % 0x100000000).toNat

/-- `aligned_kmalloc`. -/
def alignedKmalloc (ok : Nat → Bool) (s : State) (size alignment : Nat) : Nat × State :=
  let raw := kmalloc ok s (int32 ((size + alignment) % 0x100000000))
  if raw.1 = 0 then (0, raw.2)
  else (alignUp raw.1 alignment, raw.2)

/-- `kcalloc`. -/
def kcalloc (ok : Nat → Bool) (s : State) (n size : Int) : Nat × State :=
  if n < 0 || size < 0 then (0, s)
  else
    let mem := kmalloc ok s (mul32 n size)
    if mem.1 = 0 then (0, mem.2)
    else (mem.1, { mem.2 with
      mem := overwrite mem.2.mem mem.1 (mul32 n size).toNat fun _ => 0 })

/-- `kfree`. -/
def kfree (s : State) (addr : Nat) : State :=
  if addr = 0 then s
  else
    match findData s addr with
    | none => s
    | some temp => setFree s temp.addr true

/-- `krealloc`. The regions of the `memcpy` are the same or apart in every run of the heap. -/
def krealloc (ok : Nat → Bool) (s : State) (ptr : Nat) (size : Int) : Nat × State :=
  if ptr = 0 then kmalloc ok s size
  else if size ≤ 0 then (0, kfree s ptr)
  else
    match findData s ptr with
    | none => (0, s)
    | some temp =>
      let new := kmalloc ok s size
      if new.1 = 0 then (0, new.2)
      else
        let n := if temp.size < size.toNat then temp.size else size.toNat
        let mem := overwrite new.2.mem new.1 n fun i => new.2.mem (ptr + i)
        (new.1, setFree { new.2 with mem := mem } temp.addr true)

/-! ## The list in memory -/

/-- The header in memory is `b`, followed by the block at `next`. -/
structure Encodes (mem : Nat → UInt8) (b : HeapBlock) (next : Nat) : Prop where
  size : read32 mem b.addr = b.size
  isFree : mem (b.addr + 4) = flag b.isFree
  next : read32 mem (b.addr + 5) = next
  data : read32 mem (b.addr + 9) = b.data

/-- The list that starts at `p` in memory. -/
def Chain (mem : Nat → UInt8) : Nat → List HeapBlock → Prop
  | p, [] => p = 0
  | p, b :: bs => p = b.addr ∧ p ≠ 0 ∧ ∃ next, Encodes mem b next ∧ Chain mem next bs

/-- The header at `a`. -/
def header (a : Nat) : Block := ⟨a, headerSize⟩

variable {mem mem' : Nat → UInt8} {b l : HeapBlock} {bs : List HeapBlock} {p next : Nat}

theorem Encodes.congr (h : Encodes mem b next) (hm : ∀ a, (header b.addr).Has a → mem' a = mem a) :
    Encodes mem' b next := by
  have hin : ∀ i < 13, mem' (b.addr + i) = mem (b.addr + i) := fun i hi =>
    hm _ ⟨Nat.le_add_right _ _, Nat.add_lt_add_left hi _⟩
  refine ⟨?_, (hin 4 (by decide)).trans h.isFree, ?_, ?_⟩
  · exact (read32_eq fun i hi => hin i (by omega)).trans h.size
  · refine (read32_eq fun i hi => ?_).trans h.next
    rw [Nat.add_assoc]
    exact hin (5 + i) (by omega)
  · refine (read32_eq fun i hi => ?_).trans h.data
    rw [Nat.add_assoc]
    exact hin (9 + i) (by omega)

/-- A walk along the list after a change of each block that keeps its place. -/
theorem Chain.map {f : HeapBlock → HeapBlock} (h : Chain mem p bs)
    (hf : ∀ b ∈ bs, (f b).addr = b.addr ∧ ∀ next, Encodes mem b next → Encodes mem' (f b) next) :
    Chain mem' p (bs.map f) := by
  induction bs generalizing p with
  | nil => exact h
  | cons b bs ih =>
    obtain ⟨hp, h0, next, he, hc⟩ := h
    obtain ⟨haddr, henc⟩ := hf b List.mem_cons_self
    exact ⟨hp.trans haddr.symm, h0, next, henc next he,
      ih hc fun c hm => hf c (List.mem_cons_of_mem b hm)⟩

theorem Chain.congr (h : Chain mem p bs)
    (hm : ∀ b ∈ bs, ∀ a, (header b.addr).Has a → mem' a = mem a) : Chain mem' p bs := by
  have hid : Chain mem' p (bs.map id) := h.map fun b hb => ⟨rfl, fun _ he => he.congr (hm b hb)⟩
  rwa [List.map_id] at hid

/-- A new block behind the last one. -/
theorem Chain.append (h : Chain mem p (bs ++ [l]))
    (hm : ∀ b ∈ bs, ∀ a, (header b.addr).Has a → mem' a = mem a)
    (hl : ∀ next, Encodes mem l next → Encodes mem' l b.addr) (h0 : b.addr ≠ 0)
    (hb : Encodes mem' b 0) : Chain mem' p (bs ++ [l] ++ [b]) := by
  induction bs generalizing p with
  | nil =>
    obtain ⟨hp, hp0, next, he, -⟩ := h
    exact ⟨hp, hp0, b.addr, hl next he, rfl, h0, 0, hb, rfl⟩
  | cons c bs ih =>
    obtain ⟨hp, hp0, next, he, hc⟩ := h
    exact ⟨hp, hp0, next, he.congr (hm c List.mem_cons_self),
      ih hc fun d hd => hm d (List.mem_cons_of_mem c hd)⟩

end UserHeap
end Hashx86
