import Hashx86.Lib.Blocks
import Hashx86.Lib.Bytes
import Mathlib.Algebra.Ring.Nat

/-!
# The kernel heap as one call sees it (`core/memory.cpp`)

`Heap` is the memory and the blocks that a call holds. What `tlsf_malloc` answers is an input: an
answer that is `0`, that leaves the address space or that overlaps a block of the call stands for
`NULL`. `given`, `wild` and `words` are ghosts: every block that the call ever got, the arguments of
`kfree` that were no block of the call, and where `setWord` stored.
-/

namespace Hashx86

open Lib

structure Heap where
  mem : Nat → UInt8
  blocks : List Block
  given : List Block
  wild : List Nat
  words : List Nat

namespace Heap

/-- The heap at the start of a call. -/
def enter (mem : Nat → UInt8) : Heap :=
  { mem := mem, blocks := [], given := [], wild := [], words := [] }

/-- The answer can be a block of `size` bytes. -/
def Fits (h : Heap) (ptr size : Nat) : Prop :=
  0 < size ∧ size ≤ 0x7FFFFFFF ∧ ptr ≠ 0 ∧ ptr + size ≤ 2 ^ 32 ∧
    ∀ b ∈ h.blocks, Block.Disjoint ⟨ptr, size⟩ b

instance (h : Heap) (ptr size : Nat) : Decidable (h.Fits ptr size) :=
  inferInstanceAs (Decidable (_ ∧ _))

/-- `kmalloc`: `0` is `NULL`. -/
def kmalloc (h : Heap) (size ptr : Nat) : Nat × Heap :=
  if h.Fits ptr size then
    (ptr, { h with blocks := ⟨ptr, size⟩ :: h.blocks, given := ⟨ptr, size⟩ :: h.given })
  else (0, h)

/-- `kfree`. -/
def kfree (h : Heap) (addr : Nat) : Heap :=
  if addr = 0 then h
  else if h.blocks.any (·.addr = addr) then { h with blocks := release h.blocks addr }
  else { h with wild := addr :: h.wild }

/-- The bytes are stored at `addr`. -/
def fill (h : Heap) (addr : Nat) (bytes : List UInt8) : Heap :=
  { h with mem := overwrite h.mem addr bytes.length fun i => bytes.getD i 0 }

/-- The word at `addr` is stored. -/
def setWord (h : Heap) (addr word : Nat) : Heap :=
  { h with mem := write32 h.mem addr word, words := addr :: h.words }

/-! ## Allocation -/

variable {h : Heap}

theorem kmalloc_fits {ptr size : Nat} (hf : h.Fits ptr size) : h.kmalloc size ptr =
    (ptr, { h with blocks := ⟨ptr, size⟩ :: h.blocks, given := ⟨ptr, size⟩ :: h.given }) :=
  if_pos hf

theorem kmalloc_not_fits {ptr size : Nat} (hf : ¬ h.Fits ptr size) :
    h.kmalloc size ptr = (0, h) := if_neg hf

@[simp] theorem kfree_zero (h : Heap) : h.kfree 0 = h := if_pos rfl

theorem kfree_block {addr : Nat} (h0 : addr ≠ 0) (hb : ∃ b ∈ h.blocks, b.addr = addr) :
    h.kfree addr = { h with blocks := release h.blocks addr } := by
  unfold kfree
  rw [if_neg h0, if_pos (by simpa using hb)]

theorem kfree_wild {addr : Nat} (h0 : addr ≠ 0) (hb : ∀ b ∈ h.blocks, b.addr ≠ addr) :
    h.kfree addr = { h with wild := addr :: h.wild } := by
  unfold kfree
  rw [if_neg h0, if_neg (by simpa using hb)]

end Heap
end Hashx86
