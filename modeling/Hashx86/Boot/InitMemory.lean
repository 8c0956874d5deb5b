import Hashx86.Kstack.Spec
import Hashx86.Pmm.Spec

/-!
# The memory layout at boot (`init_memory` in `kernel.cpp`)

`initMemory` places the PMM bitmap after the kernel and its modules, frees the rest, reserves the
kernel-stack zone and carves the kernel heap; `none` is a `HALT`. What `get_kernel_memory_map` found
is the argument `Kmap`.

* `free_initMemory`: the frames that the PMM can hand out afterwards.
* `safe_iff`: they miss the kernel, the bitmap, the zone and the heap exactly when the bitmap fits
  (`BitmapFits`). `init_memory` rounds the size of the bitmap down to whole bytes, `pmm_init` up.
-/

namespace Hashx86
namespace Boot

open Lib Pmm Kstack

/-- What `init_memory` reads of `g_kmap`. -/
structure Kmap where
  bssEndAddr : UInt32
  kEndAddr : UInt32
  availableEndAddr : UInt32

/-- What `init_memory` reads of the multiboot info: the flags and `mod_end` of each module. -/
structure MultibootInfo where
  flags : UInt32
  modEnds : List UInt32

/-- The loop over the modules. -/
def pastModules (availEnd start : Nat) : List UInt32 → Nat
  | [] => start
  | modEnd :: rest =>
    pastModules availEnd
      (if start < modEnd.toNat ∧ modEnd.toNat ≤ availEnd then modEnd.toNat else start) rest

/-- The rounding up to a page boundary of a `uint32_t`. -/
def pageAlign (a : Nat) : Nat :=
  if a % 4096 ≠ 0 then (a / 4096 * 4096 + 4096) % 2 ^ 32 else a

/-- The end of the kernel with its padding: the memory that may be used without any module. -/
def pastKernel (km : Kmap) : Nat :=
  let a := km.bssEndAddr.toNat
  let a := if a < km.kEndAddr.toNat then km.kEndAddr.toNat else a
  let a := if a < 0x200000 then 0x200000 else a
  (a + 4 * 1024 * 1024) % 2 ^ 32

/-- `heap_start_addr`: the page after the kernel, its padding and its modules. -/
def heapStartAddr (km : Kmap) (mb : MultibootInfo) : Nat :=
  pageAlign
    (if mb.flags &&& 8 ≠ 0 then
      pastModules km.availableEndAddr.toNat (pastKernel km) mb.modEnds
    else pastKernel km)

/-- `bitmap_size`: whole bytes, rounded up to whole pages. -/
def bitmapSize (availEnd : Nat) : Nat := pageAlign (availEnd / 4096 / 8)

/-- `blocks_needed`: 64 MiB. -/
def blocksNeeded : Nat := 64 * 1024 * 1024 / 4096

structure Layout where
  pmm : Info
  zone : Zone
  heapStartAddr : Nat
  heapStart : Nat
  heapEnd : Nat

/-- The PMM with everything after the bitmap free. -/
def regionFreed (old : Nat → BitVec 32) (km : Kmap) (mb : MultibootInfo) : Info :=
  initRegion (init old (heapStartAddr km mb) km.availableEndAddr.toNat)
    ((heapStartAddr km mb + bitmapSize km.availableEndAddr.toNat) % 2 ^ 32)
    km.availableEndAddr.toNat

/-- `init_memory` from a map of the memory on; `old` is what the memory of the bitmap holds. -/
def initMemory (old : Nat → BitVec 32) (km : Kmap) (mb : MultibootInfo) : Option Layout :=
  match kstackInit Zone.empty (regionFreed old km mb) km.availableEndAddr.toNat with
  | none => none
  | some (zone, p) =>
    let r := allocBlocks p blocksNeeded
    if r.1 = 0 then none
    else
      let aligned := r.1 % 4096 = 0
      let heapStart := if aligned then r.1 else (r.1 + 0xFFF) % 2 ^ 32 / 4096 * 4096
      let blocks := if aligned then blocksNeeded else blocksNeeded - 1
      some { pmm := r.2, zone := zone, heapStartAddr := heapStartAddr km mb, heapStart := heapStart,
             heapEnd := (heapStart + blocks * 4096) % 2 ^ 32 }

/-- Frame `f` has a byte of `[lo, hi)`. -/
def Touches (f lo hi : Nat) : Prop := f * 4096 < hi ∧ lo < (f + 1) * 4096

/-- No frame that the PMM can hand out touches the kernel, the bitmap, the zone or the heap. -/
def Safe (l : Layout) : Prop :=
  ∀ f, Free l.pmm f →
    ¬ Touches f 0 l.heapStartAddr ∧
    ¬ Touches f l.heapStartAddr (l.heapStartAddr + (l.pmm.maxBlocks + 7) / 8) ∧
    ¬ Touches f l.zone.base l.zone.stop ∧
    ¬ Touches f l.heapStart (l.heapStart + blocksNeeded * 4096)

/-- The free region does not wrap, and where the last, partial byte of the bitmap spills into the
first page of the region, that page is not left over: the heap fits between it and the zone, or the
zone is before it. -/
def BitmapFits (km : Kmap) (mb : MultibootInfo) : Prop :=
  let hs := heapStartAddr km mb
  let bs := bitmapSize km.availableEndAddr.toNat
  let spill := km.availableEndAddr.toNat / 4096 % 32768
  hs + bs < 2 ^ 32 ∧
    ¬ (1 ≤ spill ∧ spill ≤ 7 ∧ hs + bs < zoneBase ∧ zoneBase < hs + bs + blocksNeeded * 4096)

/-! ## The pieces of the layout -/

theorem pageAlign_aligned (a : Nat) : pageAlign a % 4096 = 0 := by
  unfold pageAlign
  split <;> omega

theorem pastModules_lt {availEnd start : Nat} (ha : availEnd < 2 ^ 32) (hs : start < 2 ^ 32)
    (mods : List UInt32) : pastModules availEnd start mods < 2 ^ 32 := by
  induction mods generalizing start with
  | nil => exact hs
  | cons modEnd rest ih =>
    refine ih ?_
    split <;> omega

theorem heapStartAddr_lt (km : Kmap) (mb : MultibootInfo) : heapStartAddr km mb < 2 ^ 32 := by
  have h0 : pastKernel km < 2 ^ 32 := Nat.mod_lt _ (by decide)
  have h1 := pastModules_lt km.availableEndAddr.toNat_lt h0 mb.modEnds
  unfold heapStartAddr pageAlign
  split <;> split <;> omega

theorem bitmapSize_bounds {availEnd : Nat} (h : availEnd < 2 ^ 32) :
    availEnd / 4096 / 8 ≤ bitmapSize availEnd ∧ bitmapSize availEnd < availEnd / 4096 / 8 + 4096 := by
  unfold bitmapSize pageAlign
  split <;> omega

/-- The first frame of the free region. -/
def firstFrame (km : Kmap) (mb : MultibootInfo) : Nat :=
  (heapStartAddr km mb + bitmapSize km.availableEndAddr.toNat) % 2 ^ 32 / 4096

theorem wf_regionFreed (old : Nat → BitVec 32) (km : Kmap) (mb : MultibootInfo) :
    Wf (regionFreed old km mb) :=
  wf_initRegion (wf_init old _ km.availableEndAddr.toNat_lt) _ _

theorem free_regionFreed {old : Nat → BitVec 32} {km : Kmap} {mb : MultibootInfo} {f : Nat} :
    Free (regionFreed old km mb) f ↔
      firstFrame km mb ≤ f ∧ f < km.availableEndAddr.toNat / 4096 := by
  unfold regionFreed
  rw [free_initRegion, init_maxBlocks, or_iff_right (not_free_init _ _ _ _)]
  unfold firstFrame
  omega

/-- The PMM after the zone is reserved. -/
def zoneReserved (old : Nat → BitVec 32) (km : Kmap) (mb : MultibootInfo) (size : Nat) : Info :=
  deinitRegion (regionFreed old km mb) zoneBase size

theorem wf_zoneReserved (old : Nat → BitVec 32) (km : Kmap) (mb : MultibootInfo) {size : Nat}
    (hz : clampSize km.availableEndAddr.toNat = some size) : Wf (zoneReserved old km mb size) := by
  obtain ⟨-, h2, h3, h4⟩ := clampSize_spec hz
  have hlt := km.availableEndAddr.toNat_lt
  refine wf_deinitRegion (wf_regionFreed old km mb) (by simp only [zoneSize] at h2; omega) (.inr ?_)
  simp only [regionFreed, initRegion_maxBlocks, init_maxBlocks]
  simp only [zoneBase] at *
  omega

theorem free_zoneReserved (old : Nat → BitVec 32) (km : Kmap) (mb : MultibootInfo) (size f : Nat) :
    Free (zoneReserved old km mb size) f ↔
      (firstFrame km mb ≤ f ∧ f < km.availableEndAddr.toNat / 4096) ∧
      ¬ (zoneBase / 4096 ≤ f ∧ f < zoneBase / 4096 + size / 4096) := by
  unfold zoneReserved
  rw [free_deinitRegion, free_regionFreed]

theorem zoneReserved_maxBlocks (old : Nat → BitVec 32) (km : Kmap) (mb : MultibootInfo)
    (size : Nat) : (zoneReserved old km mb size).maxBlocks = km.availableEndAddr.toNat / 4096 := by
  simp only [zoneReserved, deinitRegion_maxBlocks, regionFreed, initRegion_maxBlocks, init_maxBlocks]

/-- The layout of a boot that completes: the zone fits, and the heap is the first run of free
frames of its size. -/
theorem initMemory_cases {old : Nat → BitVec 32} {km : Kmap} {mb : MultibootInfo} {l : Layout}
    (h : initMemory old km mb = some l) :
    ∃ size a, clampSize km.availableEndAddr.toNat = some size ∧
      IsRun (Free (zoneReserved old km mb size)) blocksNeeded a ∧
      (∀ c, IsRun (Free (zoneReserved old km mb size)) blocksNeeded c → a ≤ c) ∧
      (∀ f, Free l.pmm f ↔
        Free (zoneReserved old km mb size) f ∧ ¬ (a ≤ f ∧ f < a + blocksNeeded)) ∧
      l.pmm.maxBlocks = km.availableEndAddr.toNat / 4096 ∧
      l.heapStartAddr = heapStartAddr km mb ∧ l.zone.base = zoneBase ∧
      l.zone.stop = zoneBase + size ∧ l.heapStart = a * 4096 := by
  unfold initMemory kstackInit at h
  cases hz : clampSize km.availableEndAddr.toNat with
  | none => simp [hz, Zone.empty] at h
  | some size =>
    have hwf := wf_zoneReserved old km mb hz
    simp only [hz, Zone.empty, Bool.false_eq_true, ↓reduceIte] at h
    change (if (allocBlocks (zoneReserved old km mb size) blocksNeeded).1 = 0 then none
      else _) = some l at h
    rcases allocBlocks_cases hwf blocksNeeded with ⟨e, -⟩ | ⟨a, hr, hmin, e⟩
    · simp [e] at h
    · have ha := takeRun_addr hwf hr
      split at h
      · cases h
      · obtain rfl := Option.some.inj h
        refine ⟨size, a, rfl, hr, hmin, ?_, ?_, rfl, rfl, rfl, ?_⟩
        · intro f
          dsimp only
          rw [show deinitRegion (regionFreed old km mb) zoneBase size =
            zoneReserved old km mb size from rfl, e]
          exact free_takeRun hr
        · dsimp only
          rw [show deinitRegion (regionFreed old km mb) zoneBase size =
            zoneReserved old km mb size from rfl, e, takeRun_maxBlocks]
          exact zoneReserved_maxBlocks _ _ _ _
        · dsimp only
          rw [show deinitRegion (regionFreed old km mb) zoneBase size =
            zoneReserved old km mb size from rfl, e, ha, if_pos (by omega)]

/-- The boot completes when the zone fits, there is a run of free frames for the heap, and the
region does not start at frame 0. -/
theorem initMemory_completes (old : Nat → BitVec 32) (km : Kmap) (mb : MultibootInfo) {size c : Nat}
    (hz : clampSize km.availableEndAddr.toNat = some size) (h0 : 0 < firstFrame km mb)
    (hc : IsRun (Free (zoneReserved old km mb size)) blocksNeeded c) :
    ∃ l, initMemory old km mb = some l := by
  have hwf := wf_zoneReserved old km mb hz
  unfold initMemory kstackInit
  simp only [hz, Zone.empty, Bool.false_eq_true, ↓reduceIte]
  rcases allocBlocks_cases hwf blocksNeeded with ⟨-, hn⟩ | ⟨a, hr, -, e⟩
  · exact absurd hc (hn c)
  · have hfirst := ((free_zoneReserved ..).mp (hr.2 a (Nat.le_refl _) (by have := hr.1; omega))).1.1
    have ha : (allocBlocks (zoneReserved old km mb size) blocksNeeded).1 = a * 4096 := by
      rw [e]; exact takeRun_addr hwf hr
    refine ⟨_, if_neg ?_⟩
    change ¬ (allocBlocks (zoneReserved old km mb size) blocksNeeded).1 = 0
    omega

/-! ## The boot is safe exactly when the bitmap fits -/

/-- A run of free frames from the first one, where the heap fits before the zone. -/
theorem isRun_firstFrame (old : Nat → BitVec 32) (km : Kmap) (mb : MultibootInfo) {size : Nat}
    (hz : clampSize km.availableEndAddr.toNat = some size)
    (h : firstFrame km mb + blocksNeeded ≤ zoneBase / 4096) :
    IsRun (Free (zoneReserved old km mb size)) blocksNeeded (firstFrame km mb) := by
  obtain ⟨-, -, h3, -⟩ := clampSize_spec hz
  refine ⟨by decide, fun k h1 h2 => (free_zoneReserved ..).mpr ⟨⟨h1, ?_⟩, ?_⟩⟩ <;> omega

/-- Where the region does not wrap, its first frame is the one right after `bitmap_size` bytes. -/
theorem firstFrame_eq {km : Kmap} {mb : MultibootInfo}
    (h : heapStartAddr km mb + bitmapSize km.availableEndAddr.toNat < 2 ^ 32) :
    firstFrame km mb * 4096 = heapStartAddr km mb + bitmapSize km.availableEndAddr.toNat := by
  have h1 := pageAlign_aligned (km.availableEndAddr.toNat / 4096 / 8)
  have h2 : heapStartAddr km mb % 4096 = 0 := pageAlign_aligned _
  have h3 : bitmapSize km.availableEndAddr.toNat % 4096 = 0 := h1
  unfold firstFrame
  rw [Nat.mod_eq_of_lt h]
  omega

/-- `pmm_init` needs more bytes than `bitmap_size` exactly when 1 to 7 frames are left over after
whole pages of bitmap. -/
theorem spill_iff {availEnd : Nat} (h : availEnd < 2 ^ 32) :
    bitmapSize availEnd < (availEnd / 4096 + 7) / 8 ↔
      1 ≤ availEnd / 4096 % 32768 ∧ availEnd / 4096 % 32768 ≤ 7 := by
  unfold bitmapSize pageAlign
  split <;> omega

theorem bitmapFits_of_safe {old : Nat → BitVec 32} {km : Kmap} {mb : MultibootInfo} {l : Layout}
    (h : initMemory old km mb = some l) (hs : Safe l) : BitmapFits km mb := by
  obtain ⟨size, a, hz, hr, hmin, hfree, hmax, hhs, hzb, hze, hheap⟩ := initMemory_cases h
  obtain ⟨hz1, hz2, hz3, hz4⟩ := clampSize_spec hz
  have hlt := km.availableEndAddr.toNat_lt
  obtain ⟨hb1, hb2⟩ := bitmapSize_bounds hlt
  have hrun := isRun_firstFrame old km mb hz
  have hz0 := free_zoneReserved old km mb size
  have hstart := ((hz0 _).mp (hr.2 a (Nat.le_refl _) (by have := hr.1; omega))).1.1
  unfold zoneBase zoneSize zoneMinSize blocksNeeded at *
  by_cases hw : heapStartAddr km mb + bitmapSize km.availableEndAddr.toNat < 2 ^ 32
  · refine ⟨hw, fun ⟨hs1, hs2, hg1, hg2⟩ => ?_⟩
    unfold zoneBase at hg1 hg2
    unfold blocksNeeded at hg2
    -- The first frame holds the last byte of the bitmap, and the heap is not on it.
    have hf := firstFrame_eq hw
    have hspill := (spill_iff hlt).mpr ⟨hs1, hs2⟩
    have hne : a ≠ firstFrame km mb := fun e =>
      ((hz0 _).mp (hr.2 0xE000 (by omega) (by omega))).2 ⟨by omega, by omega⟩
    have hfirst : Free l.pmm (firstFrame km mb) :=
      (hfree _).mpr ⟨(hz0 _).mpr ⟨⟨Nat.le_refl _, by omega⟩, by omega⟩, by omega⟩
    refine (hs _ hfirst).2.1 ?_
    rw [hhs, hmax]
    constructor <;> omega
  · -- The region starts again at address 0: frames below the kernel's end are free.
    exfalso
    have hb : firstFrame km mb ≤ 32 := by
      unfold firstFrame
      have := pageAlign_aligned
        (if mb.flags &&& 8 ≠ 0 then
          pastModules km.availableEndAddr.toNat (pastKernel km) mb.modEnds else pastKernel km)
      have : heapStartAddr km mb < 2 ^ 32 := heapStartAddr_lt km mb
      omega
    have ha := hmin _ (hrun (by omega))
    obtain rfl : a = firstFrame km mb := by omega
    have hnext : Free l.pmm (firstFrame km mb + 64 * 1024 * 1024 / 4096) :=
      (hfree _).mpr ⟨(hz0 _).mpr ⟨⟨by omega, by omega⟩, by omega⟩, by omega⟩
    refine (hs _ hnext).1 ?_
    rw [hhs]
    constructor <;> omega

theorem safe_of_bitmapFits {old : Nat → BitVec 32} {km : Kmap} {mb : MultibootInfo} {l : Layout}
    (h : initMemory old km mb = some l) (hfit : BitmapFits km mb) : Safe l := by
  obtain ⟨size, a, hz, hr, hmin, hfree, hmax, hhs, hzb, hze, hheap⟩ := initMemory_cases h
  obtain ⟨hz1, hz2, hz3, hz4⟩ := clampSize_spec hz
  obtain ⟨hw, hspill⟩ := hfit
  have hlt := km.availableEndAddr.toNat_lt
  have hf := firstFrame_eq hw
  have hz0 := free_zoneReserved old km mb size
  have hstart := ((hz0 _).mp (hr.2 a (Nat.le_refl _) (by have := hr.1; omega))).1.1
  have hend := ((hz0 _).mp (hr.2 (a + blocksNeeded - 1) (by have := hr.1; omega)
    (by have := hr.1; omega))).1.2
  intro f hfr
  obtain ⟨hfz, hfh⟩ := (hfree f).mp hfr
  obtain ⟨⟨h1, h2⟩, h3⟩ := (hz0 _).mp hfz
  rw [hhs, hmax, hzb, hze, hheap]
  unfold zoneBase zoneSize zoneMinSize blocksNeeded at *
  refine ⟨fun ht => ?_, fun ht => ?_, fun ht => ?_, fun ht => ?_⟩
  · have := ht.1
    omega
  · -- Only the first frame can hold a byte of the bitmap, and then the heap starts on it.
    have hb := (spill_iff hlt).mp (by have := ht.1; omega)
    have hff : f = firstFrame km mb := by
      have := ht.1
      obtain ⟨hb1, hb2⟩ := bitmapSize_bounds hlt
      unfold bitmapSize pageAlign at *
      split at * <;> omega
    subst hff
    have hrun : IsRun (Free (zoneReserved old km mb size)) (64 * 1024 * 1024 / 4096)
        (firstFrame km mb) :=
      ⟨by decide, fun k hk1 hk2 => (hz0 _).mpr ⟨⟨hk1, by omega⟩, by omega⟩⟩
    have := hmin _ hrun
    omega
  · have := ht.1
    have := ht.2
    omega
  · have := ht.1
    have := ht.2
    omega

/-- For every kernel, module list and memory size with which `init_memory` completes, the frames
that the PMM can hand out miss the kernel, the bitmap, the zone and the heap exactly when the bitmap
fits. -/
theorem safe_iff_bitmapFits {old : Nat → BitVec 32} {km : Kmap} {mb : MultibootInfo} {l : Layout}
    (h : initMemory old km mb = some l) : Safe l ↔ BitmapFits km mb :=
  ⟨bitmapFits_of_safe h, safe_of_bitmapFits h⟩

/-- 256 MiB and no modules: the boot completes and is safe. -/
theorem safe_256MiB : ∃ l, initMemory (fun _ => 0) ⟨0x00800000, 0x00800000, 0x10000000⟩ ⟨0, []⟩ =
    some l ∧ Safe l := by
  have hz : clampSize 0x10000000 = some zoneSize := by decide
  have hrun := isRun_firstFrame (fun _ => 0) ⟨0x00800000, 0x00800000, 0x10000000⟩ ⟨0, []⟩ hz
    (by decide)
  obtain ⟨l, h⟩ := initMemory_completes (fun _ => 0) ⟨0x00800000, 0x00800000, 0x10000000⟩ ⟨0, []⟩
    hz (by decide) hrun
  exact ⟨l, h, (safe_iff_bitmapFits h).mpr ⟨by decide, by decide⟩⟩

/-- 384 MiB and one page, with a module that ends at 176 MiB: the page at `0x0B003000` holds the
last byte of the bitmap and can be handed out. -/
theorem spill_on_384MiB : ∃ l, initMemory (fun _ => 0) ⟨0x00800000, 0x00800000, 0x18001000⟩
    ⟨8, [0x0B000000]⟩ = some l ∧ ¬ Safe l := by
  have hz : clampSize 0x18001000 = some zoneSize := by decide
  have hfirst : firstFrame ⟨0x00800000, 0x00800000, 0x18001000⟩ ⟨8, [0x0B000000]⟩ = 0xB003 := by
    decide
  have hrun : IsRun (Free (zoneReserved (fun _ => 0) ⟨0x00800000, 0x00800000, 0x18001000⟩
      ⟨8, [0x0B000000]⟩ zoneSize)) blocksNeeded 0x10000 := by
    refine ⟨by decide, fun k h1 h2 => (free_zoneReserved ..).mpr ?_⟩
    rw [hfirst]
    unfold zoneBase zoneSize blocksNeeded at *
    change (_ ∧ k < 0x18001000 / 4096) ∧ _
    omega
  obtain ⟨l, h⟩ := initMemory_completes (fun _ => 0) ⟨0x00800000, 0x00800000, 0x18001000⟩
    ⟨8, [0x0B000000]⟩ hz (by rw [hfirst]; decide) hrun
  exact ⟨l, h, fun hs => (bitmapFits_of_safe h hs).2 (by decide)⟩

end Boot
end Hashx86
