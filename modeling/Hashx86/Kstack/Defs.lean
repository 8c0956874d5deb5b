import Hashx86.Pmm.Defs

/-!
# The kernel-stack zone (`core/kstack.cpp`)

`Zone` holds the static variables of `kstack.cpp` (`g_zoneReady` and so on). A slot is a guard
page and 16 stack pages; `kstackAlloc` returns the address of the first stack page. The searches
are recursions on the number of rounds left, as in `Hashx86.Pmm.Defs`.

`freed` is a ghost: the addresses that were given back, newest first.
-/

namespace Hashx86
namespace Kstack

def kernelStackSize : Nat := 0x10000

/-- `KSTACK_GUARD_PAGES * PAGE_SIZE`. -/
def guardSize : Nat := 0x1000

/-- `KSTACK_SLOT_SIZE`: the guard page and 16 stack pages. -/
def slotSize : Nat := 0x11000

def zoneBase : Nat := 0x0E000000

/-- 32 MiB. -/
def zoneSize : Nat := 0x02000000

/-- 16 MiB. -/
def zoneMinSize : Nat := 0x01000000

structure Zone where
  ready : Bool
  base : Nat
  stop : Nat
  slotCount : Nat
  inUse : Nat
  slotBitmap : Nat → BitVec 32
  freed : List Nat

/-- The static variables before `kstack_init`. -/
def Zone.empty : Zone := ⟨false, 0, 0, 0, 0, fun _ => 0, []⟩

/-- `cap`: the end of the memory that the zone may use. -/
def zoneCap (availEnd : Nat) : Nat := if availEnd < 0x10000000 then availEnd else 0x10000000

/-- The size of the zone, `none` when it does not fit below `availEnd`. -/
def clampSize (availEnd : Nat) : Option Nat :=
  let cap := zoneCap availEnd
  if cap < zoneBase + zoneSize then
    if cap ≤ zoneBase + zoneMinSize then none
    else
      let size := cap - zoneBase - (cap - zoneBase) % slotSize
      if size < zoneMinSize then none else some size
  else some zoneSize

/-- `kstack_init`; `none` is the result `-1`. -/
def kstackInit (z : Zone) (p : Pmm.Info) (availEnd : Nat) : Option (Zone × Pmm.Info) :=
  if z.ready then some (z, p)
  else match clampSize availEnd with
    | none => none
    | some size =>
      some ({ ready := true, base := zoneBase, stop := zoneBase + size,
              slotCount := size / slotSize, inUse := 0, slotBitmap := fun _ => 0, freed := z.freed },
        Pmm.deinitRegion p zoneBase size)

/-- `kstack_slot_in_use`. -/
def slotInUse (z : Zone) (idx : Nat) : Bool := (z.slotBitmap (idx / 32) >>> (idx % 32)) &&& 1 == 1

/-- `kstack_slot_set`. -/
def slotSet (z : Zone) (idx : Nat) : Zone :=
  { z with
    slotBitmap := Function.update z.slotBitmap (idx / 32)
      (z.slotBitmap (idx / 32) ||| (1#32 <<< (idx % 32))) }

/-- `kstack_slot_clear`. -/
def slotClear (z : Zone) (idx : Nat) : Zone :=
  { z with
    slotBitmap := Function.update z.slotBitmap (idx / 32)
      (z.slotBitmap (idx / 32) &&& ~~~(1#32 <<< (idx % 32))) }

/-- The inner loop of `kstack_alloc`: bits `b..` of word `w`, `n` of them left. -/
def freeSlotBits (z : Zone) (w : Nat) : (n b : Nat) → Option Nat
  | 0, _ => none
  | n + 1, b =>
    if z.slotCount ≤ w * 32 + b then none
    else if slotInUse z (w * 32 + b) then freeSlotBits z w n (b + 1)
    else some (w * 32 + b)

/-- The outer loop of `kstack_alloc`: words `w..`, `n` of them left. -/
def freeSlotWords (z : Zone) : (n w : Nat) → Option Nat
  | 0, _ => none
  | n + 1, w =>
    if z.slotBitmap w = 0xffffffff#32 then freeSlotWords z n (w + 1)
    else match freeSlotBits z w 32 0 with
      | some idx => some idx
      | none => freeSlotWords z n (w + 1)

/-- `kstack_alloc`; `0` is `NULL`. -/
def kstackAlloc (z : Zone) : Nat × Zone :=
  if !z.ready then (0, z)
  else if z.slotCount ≤ z.inUse then (0, z)
  else match freeSlotWords z ((z.slotCount + 31) / 32) 0 with
    | none => (0, z)
    | some idx => (z.base + idx * slotSize + guardSize, { slotSet z idx with inUse := z.inUse + 1 })

/-- `kstack_free` of a pointer that is not `NULL`. -/
def releaseSlot (z : Zone) (stack : Nat) : Zone :=
  if !z.ready then z
  else if stack < z.base + guardSize ∨ z.stop ≤ stack then z
  else
    let off := stack - z.base - guardSize
    if off % slotSize ≠ 0 then z
    else
      let idx := off / slotSize
      if z.slotCount ≤ idx then z
      else if !slotInUse z idx then z
      else { slotClear z idx with inUse := sub32 z.inUse 1 }

/-- `kstack_free`. -/
def kstackFree (z : Zone) (stack : Nat) : Zone :=
  if stack = 0 then z else { releaseSlot z stack with freed := stack :: z.freed }

end Kstack
end Hashx86
