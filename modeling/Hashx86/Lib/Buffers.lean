import Hashx86.Lib.Blocks
import Hashx86.Lib.Bytes

/-!
# What an allocator is for

The program that uses an allocator sees `Buffer`s: addresses with bytes of its own. `Serves` says
which answers to a request are right, and what buffers the program has then; it says nothing of
headers, lists or the memory around the buffers.

* `images mem bs`: the buffers that the blocks `bs` hold in a memory.
* `images_congr`, `images_release`, `images_store`: what a write outside the blocks, a release and a
  store into a block do to them.
-/

namespace Lib

structure Buffer where
  addr : Nat
  bytes : List UInt8

/-- The buffer after the store of a byte. -/
def Buffer.store (b : Buffer) (a : Nat) (byte : UInt8) : Buffer :=
  if b.addr ≤ a then { b with bytes := b.bytes.set (a - b.addr) byte } else b

inductive HeapRequest where
  | alloc (size : Nat)
  | zeroed (size : Nat)
  | resize (ptr size : Nat)
  | free (ptr : Nat)
  | store (addr : Nat) (byte : UInt8)

/-- The buffers without the one at `ptr`. -/
def dropAt (bs : List Buffer) (ptr : Nat) : List Buffer := bs.eraseP (·.addr = ptr)

/-- A right answer to a request of a program with the buffers `bs`, and its buffers then. -/
inductive Serves (bs : List Buffer) : HeapRequest → Nat → List Buffer → Prop
  | noAlloc (size : Nat) : Serves bs (.alloc size) 0 bs
  | noZeroed (size : Nat) : Serves bs (.zeroed size) 0 bs
  | noResize (ptr size : Nat) : Serves bs (.resize ptr size) 0 bs
  | alloc {a : Nat} {bytes : List UInt8} (ha : a ≠ 0) :
    Serves bs (.alloc bytes.length) a (⟨a, bytes⟩ :: bs)
  | zeroed {a size : Nat} (ha : a ≠ 0) :
    Serves bs (.zeroed size) a (⟨a, List.replicate size 0⟩ :: bs)
  | resize {a ptr : Nat} {old bytes : List UInt8} (ha : a ≠ 0) (hold : ⟨ptr, old⟩ ∈ bs)
    (hkept : ∀ i, i < old.length → i < bytes.length → bytes[i]? = old[i]?) :
    Serves bs (.resize ptr bytes.length) a (⟨a, bytes⟩ :: dropAt bs ptr)
  | free (ptr : Nat) : Serves bs (.free ptr) 0 (dropAt bs ptr)
  | store (a : Nat) (byte : UInt8) : Serves bs (.store a byte) 0 (bs.map (·.store a byte))

/-- The bytes of a block. -/
def bytesOf (mem : Nat → UInt8) (b : Block) : List UInt8 :=
  (List.range b.size).map fun i => mem (b.addr + i)

/-- The buffer that a block holds. -/
def image (mem : Nat → UInt8) (b : Block) : Buffer := ⟨b.addr, bytesOf mem b⟩

def images (mem : Nat → UInt8) (bs : List Block) : List Buffer := bs.map (image mem)

variable {mem mem' : Nat → UInt8} {b : Block} {bs : List Block}

@[simp] theorem length_bytesOf (mem : Nat → UInt8) (b : Block) : (bytesOf mem b).length = b.size := by
  simp [bytesOf]

theorem getElem?_bytesOf {i : Nat} (h : i < b.size) : (bytesOf mem b)[i]? = some (mem (b.addr + i)) := by
  simp [bytesOf, h]

theorem bytesOf_congr (h : ∀ x, b.Has x → mem' x = mem x) : bytesOf mem' b = bytesOf mem b :=
  List.map_congr_left fun _ hi =>
    h _ ⟨Nat.le_add_right _ _, Nat.add_lt_add_left (List.mem_range.mp hi) _⟩

theorem bytesOf_const {v : UInt8} (h : ∀ x, b.Has x → mem x = v) :
    bytesOf mem b = List.replicate b.size v := by
  refine List.eq_replicate_iff.mpr ⟨length_bytesOf mem b, fun x hx => ?_⟩
  obtain ⟨i, hi, rfl⟩ := List.mem_map.mp hx
  exact h _ ⟨Nat.le_add_right _ _, Nat.add_lt_add_left (List.mem_range.mp hi) _⟩

@[simp] theorem images_cons (mem : Nat → UInt8) (b : Block) (bs : List Block) :
    images mem (b :: bs) = image mem b :: images mem bs := rfl

theorem images_congr (h : ∀ b ∈ bs, ∀ x, b.Has x → mem' x = mem x) :
    images mem' bs = images mem bs :=
  List.map_congr_left fun b hb => congrArg (Buffer.mk b.addr) (bytesOf_congr (h b hb))

theorem images_release (mem : Nat → UInt8) (bs : List Block) (a : Nat) :
    images mem (release bs a) = dropAt (images mem bs) a := by
  unfold images release dropAt
  rw [List.eraseP_map]
  rfl

theorem image_store (mem : Nat → UInt8) (b : Block) (a : Nat) (byte : UInt8) :
    image (overwrite mem a 1 fun _ => byte) b = (image mem b).store a byte := by
  unfold image Buffer.store
  dsimp only
  by_cases h : b.addr ≤ a
  · rw [if_pos h, Buffer.mk.injEq]
    refine ⟨rfl, List.ext_getElem? fun i => ?_⟩
    rw [List.getElem?_set, length_bytesOf]
    by_cases hi : i < b.size
    · rw [getElem?_bytesOf hi, getElem?_bytesOf hi]
      by_cases ha : a - b.addr = i
      · rw [if_pos ha, if_pos (ha ▸ hi), overwrite_of_in _ _ (by omega) (by omega)]
      · rw [if_neg ha, overwrite_of_out _ _ (by omega)]
    · have hnone : ∀ m : Nat → UInt8, (bytesOf m b)[i]? = none := fun m =>
        List.getElem?_eq_none (by rw [length_bytesOf]; omega)
      rw [hnone, hnone]
      split
      · rw [if_neg (by omega)]
      · rfl
  · rw [if_neg h, bytesOf_congr fun x hx => overwrite_of_out _ _ (by have := hx.1; omega)]

theorem images_store (mem : Nat → UInt8) (bs : List Block) (a : Nat) (byte : UInt8) :
    images (overwrite mem a 1 fun _ => byte) bs = (images mem bs).map (·.store a byte) := by
  unfold images
  rw [List.map_map]
  exact List.map_congr_left fun b _ => image_store mem b a byte

end Lib
