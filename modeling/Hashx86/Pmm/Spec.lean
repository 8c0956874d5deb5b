import Hashx86.Pmm.Search

/-!
# What each PMM operation does to the free frames and to the counter

`Wf p` is the invariant of the PMM: the counter is the number of set bits, and there are at most
`2 ^ 20` frames (32-bit addresses). Each operation has a lemma for `Wf` and one for the frames
that are `Free` after it. `deinitRegion` is the one that can break `Wf`: the rounds of its loop
past the end of the bitmap count frames that do not exist (`deinitRegionLoop_used`).
-/

namespace Hashx86
namespace Pmm

open Lib

/-- The number of set bits among the first `maxBlocks`. -/
def Info.setBits (p : Info) : Nat := countBits p.bit p.maxBlocks

/-- The invariant of the PMM. -/
structure Wf (p : Info) : Prop where
  max_le : p.maxBlocks ≤ 2 ^ 20
  used_eq : p.usedBlocks = p.setBits

theorem Info.setBits_le (p : Info) : p.setBits ≤ p.maxBlocks := countBits_le _ _

theorem Wf.used_le {p : Info} (h : Wf p) : p.usedBlocks ≤ p.maxBlocks := h.used_eq ▸ p.setBits_le

/-- The counter is below the number of frames exactly when a frame is free. -/
theorem Wf.used_lt_iff {p : Info} (h : Wf p) : p.usedBlocks < p.maxBlocks ↔ ∃ f, Free p f := by
  rw [h.used_eq, Info.setBits, countBits_lt_iff]; rfl

/-- A run of free frames fits beside the used ones. -/
theorem Wf.used_add_le {p : Info} (h : Wf p) {s a : Nat} (hr : IsRun (Free p) s a) :
    p.usedBlocks + s ≤ p.maxBlocks := by
  rw [h.used_eq]
  exact countBits_add_le (run_le hr) fun k h1 h2 => (hr.2 k h1 h2).2

/-- Frame addresses do not wrap. -/
theorem Wf.addr_eq {p : Info} (h : Wf p) {f : Nat} (hf : f < p.maxBlocks) :
    f * 4096 % 2 ^ 32 = f * 4096 := by
  have := h.max_le
  omega

/-! ## One bit -/

theorem setBits_mmapSet {p : Info} {f : Nat} (hf : Free p f) :
    (mmapSet p (f : Int)).setBits = p.setBits + 1 := by
  unfold Info.setBits
  rw [mmapSet_maxBlocks]
  exact countBits_set hf.1 hf.2 (by simp [bit_mmapSet, hf.1]) fun k hk => by simp [bit_mmapSet, hk]

theorem setBits_mmapUnset {p : Info} {f : Nat} (hf : f < p.maxBlocks) (hb : p.bit f = true) :
    p.setBits = (mmapUnset p (f : Int)).setBits + 1 := by
  unfold Info.setBits
  rw [mmapUnset_maxBlocks]
  exact countBits_clear hf hb (by simp [bit_mmapUnset, hf]) fun k hk => by simp [bit_mmapUnset, hk]

@[simp] theorem withUsed_maxBlocks (p : Info) (n : Nat) :
    (p.withUsed n).maxBlocks = p.maxBlocks := by unfold Info.withUsed; rfl

@[simp] theorem withUsed_usedBlocks (p : Info) (n : Nat) : (p.withUsed n).usedBlocks = n := by
  unfold Info.withUsed; rfl

@[simp] theorem bit_withUsed (p : Info) (n f : Nat) : (p.withUsed n).bit f = p.bit f := by
  unfold Info.withUsed; rfl

@[simp] theorem setBits_withUsed (p : Info) (n : Nat) : (p.withUsed n).setBits = p.setBits := by
  unfold Info.withUsed; rfl

@[simp] theorem free_withUsed (p : Info) (n f : Nat) : Free (p.withUsed n) f ↔ Free p f := by
  unfold Info.withUsed; rfl

/-! ## `pmm_init` and the regions -/

theorem bit_fillOnes (a : Nat → BitVec 32) (size : Nat) {f : Nat} (h : f < 8 * size) :
    bitAt (fillOnes a size) f = true := by
  unfold bitAt fillOnes
  rw [BitVec.getLsbD_or, BitVec.getLsbD_ushiftRight, BitVec.getLsbD_allOnes]
  have : 32 - 8 * min 4 (size - 4 * (f / 32)) + f % 32 < 32 := by omega
  simp [this]

@[simp] theorem init_maxBlocks (old : Nat → BitVec 32) (bitmap total : Nat) :
    (init old bitmap total).maxBlocks = total / 4096 := rfl

@[simp] theorem init_usedBlocks (old : Nat → BitVec 32) (bitmap total : Nat) :
    (init old bitmap total).usedBlocks = total / 4096 := rfl

theorem bit_init (old : Nat → BitVec 32) (bitmap : Nat) {total f : Nat} (h : f < total / 4096) :
    (init old bitmap total).bit f = true :=
  bit_fillOnes old ((total / 4096 + 7) / 8) (by omega)

/-- After `pmm_init` every frame is used. -/
theorem not_free_init (old : Nat → BitVec 32) (bitmap total f : Nat) :
    ¬ Free (init old bitmap total) f := by
  rintro ⟨h, hb⟩
  rw [init_maxBlocks] at h
  rw [bit_init old bitmap h] at hb
  cases hb

theorem setBits_init (old : Nat → BitVec 32) (bitmap total : Nat) :
    (init old bitmap total).setBits = total / 4096 := by
  unfold Info.setBits
  rw [init_maxBlocks]
  exact countBits_full fun k hk => bit_init old bitmap hk

theorem wf_init (old : Nat → BitVec 32) (bitmap : Nat) {total : Nat} (ht : total < 2 ^ 32) :
    Wf (init old bitmap total) := by
  refine ⟨?_, (setBits_init old bitmap total).symm⟩
  rw [init_maxBlocks]
  omega

theorem initRegionLoop_maxBlocks (p : Info) (align n : Nat) :
    (initRegionLoop p align n).maxBlocks = p.maxBlocks := by
  induction n generalizing p align with
  | zero => rfl
  | succ n ih =>
    unfold initRegionLoop
    split
    · rw [ih, withUsed_maxBlocks, mmapUnset_maxBlocks]
    · rw [ih]

theorem wf_initRegionLoop {p : Info} (h : Wf p) (align n : Nat) : Wf (initRegionLoop p align n) := by
  induction n generalizing p align with
  | zero => exact h
  | succ n ih =>
    unfold initRegionLoop
    split
    · rename_i ht
      obtain ⟨h1, h2⟩ := mmapTest_nat_eq_true.mp ht
      have hc := setBits_mmapUnset h1 h2
      refine ih ⟨by simpa using h.max_le, ?_⟩ (align + 1)
      have := p.setBits_le
      have := h.max_le
      simp only [setBits_withUsed, withUsed_usedBlocks, h.used_eq]
      rw [sub32_eq (by omega)]
      omega
    · exact ih h (align + 1)

theorem free_initRegionLoop (p : Info) (align n f : Nat) :
    Free (initRegionLoop p align n) f ↔
      Free p f ∨ (f < p.maxBlocks ∧ align ≤ f ∧ f < align + n) := by
  induction n generalizing p align with
  | zero => exact ⟨.inl, fun h => h.elim id fun h => absurd h.2 (by omega)⟩
  | succ n ih =>
    unfold initRegionLoop
    split
    · rename_i ht
      obtain ⟨h1, -⟩ := mmapTest_nat_eq_true.mp ht
      rw [ih, free_withUsed, free_mmapUnset h1, withUsed_maxBlocks, mmapUnset_maxBlocks]
      constructor
      · rintro ((h | h) | h)
        · exact .inl h
        · right; omega
        · right; omega
      · rintro (h | h)
        · exact .inl (.inl h)
        · by_cases hf : f = align
          · exact .inl (.inr hf)
          · right; omega
    · rename_i ht
      rw [ih]
      constructor
      · rintro (h | h)
        · exact .inl h
        · right; omega
      · rintro (h | h)
        · exact .inl h
        · by_cases hf : f = align
          · subst hf
            left
            refine ⟨h.1, ?_⟩
            rw [mmapTest_nat] at ht
            simpa [h.1] using ht
          · right; omega

theorem wf_initRegion {p : Info} (h : Wf p) (base size : Nat) : Wf (initRegion p base size) := by
  unfold initRegion
  split
  · exact h
  · exact wf_initRegionLoop h _ _

@[simp] theorem initRegion_maxBlocks (p : Info) (base size : Nat) :
    (initRegion p base size).maxBlocks = p.maxBlocks := by
  unfold initRegion
  split
  · rfl
  · exact initRegionLoop_maxBlocks _ _ _

/-- `pmm_init_region` frees the whole pages of the region that are managed. -/
theorem free_initRegion (p : Info) (base size f : Nat) :
    Free (initRegion p base size) f ↔
      Free p f ∨ (f < p.maxBlocks ∧ base / 4096 ≤ f ∧ f < base / 4096 + size / 4096) := by
  unfold initRegion
  split
  · rename_i h
    subst h
    constructor
    · exact .inl
    · rintro (h | h)
      · exact h
      · omega
  · exact free_initRegionLoop _ _ _ _

theorem deinitRegionLoop_maxBlocks (p : Info) (align n : Nat) :
    (deinitRegionLoop p align n).maxBlocks = p.maxBlocks := by
  induction n generalizing p align with
  | zero => rfl
  | succ n ih =>
    unfold deinitRegionLoop
    split
    · rw [ih, withUsed_maxBlocks, mmapSet_maxBlocks]
    · rw [ih]

/-- Setting a bit out of range does nothing. -/
theorem mmapSet_of_ge {p : Info} {f : Nat} (h : p.maxBlocks ≤ f) : mmapSet p (f : Int) = p := by
  unfold mmapSet; rw [if_neg (by omega)]

/-- The counter after the loop of `pmm_deinit_region`: the set bits, and one more for each round
past the end of the bitmap. -/
theorem deinitRegionLoop_used {p : Info} (align n extra : Nat) (hm : p.maxBlocks ≤ 2 ^ 20)
    (hu : p.usedBlocks = p.setBits + extra) (hx : extra + n < 2 ^ 31) :
    (deinitRegionLoop p align n).usedBlocks =
      (deinitRegionLoop p align n).setBits + extra + (align + n - max align p.maxBlocks) := by
  induction n generalizing p align extra with
  | zero => simp only [deinitRegionLoop, hu]; omega
  | succ n ih =>
    have hle := p.setBits_le
    unfold deinitRegionLoop
    split
    · rename_i ht
      by_cases hf : align < p.maxBlocks
      · have hfree := (not_mmapTest_iff hf).mp ht
        have hc := setBits_mmapSet hfree
        rw [ih (align + 1) extra (by simpa using hm)
          (by simp only [setBits_withUsed, withUsed_usedBlocks, hu, hc]; omega) (by omega)]
        simp only [withUsed_maxBlocks, mmapSet_maxBlocks]
        omega
      · rw [mmapSet_of_ge (by omega)]
        rw [ih (p := p.withUsed ((p.usedBlocks + 1) % 2 ^ 32)) (align + 1) (extra + 1) hm
          (by simp only [setBits_withUsed, withUsed_usedBlocks, hu]; omega) (by omega)]
        simp only [withUsed_maxBlocks]
        omega
    · rename_i ht
      have hf : align < p.maxBlocks := by
        by_contra hge
        simp [mmapTest_nat] at ht
        omega
      rw [ih (align + 1) extra hm hu (by omega)]
      omega

theorem free_deinitRegionLoop (p : Info) (align n f : Nat) :
    Free (deinitRegionLoop p align n) f ↔ Free p f ∧ ¬ (align ≤ f ∧ f < align + n) := by
  induction n generalizing p align with
  | zero => exact ⟨fun h => ⟨h, by omega⟩, And.left⟩
  | succ n ih =>
    unfold deinitRegionLoop
    split
    · rename_i ht
      by_cases hf : align < p.maxBlocks
      · rw [ih, free_withUsed, free_mmapSet hf]
        constructor
        · rintro ⟨⟨h1, h2⟩, h3⟩; exact ⟨h1, by omega⟩
        · rintro ⟨h1, h2⟩; exact ⟨⟨h1, by omega⟩, by omega⟩
      · rw [mmapSet_of_ge (by omega), ih, free_withUsed]
        refine and_congr_right fun h => ?_
        have := h.1
        omega
    · rename_i ht
      rw [ih]
      refine and_congr_right fun h => ?_
      have hne : f ≠ align := fun e => by
        subst e
        rw [(not_mmapTest_iff h.1).mpr h] at ht
        exact ht rfl
      omega

@[simp] theorem deinitRegion_maxBlocks (p : Info) (base size : Nat) :
    (deinitRegion p base size).maxBlocks = p.maxBlocks := by
  unfold deinitRegion
  split
  · rfl
  · exact deinitRegionLoop_maxBlocks _ _ _

/-- `pmm_deinit_region` takes the whole pages of the region away. -/
theorem free_deinitRegion (p : Info) (base size f : Nat) :
    Free (deinitRegion p base size) f ↔
      Free p f ∧ ¬ (base / 4096 ≤ f ∧ f < base / 4096 + size / 4096) := by
  unfold deinitRegion
  split
  · rename_i h
    subst h
    constructor
    · exact fun h => ⟨h, by omega⟩
    · exact And.left
  · exact free_deinitRegionLoop _ _ _ _

/-- The region lies inside the managed frames, or has no whole page. -/
def InRange (p : Info) (base size : Nat) : Prop :=
  size / 4096 = 0 ∨ base / 4096 + size / 4096 ≤ p.maxBlocks

/-- `pmm_deinit_region` keeps the counter exact exactly on regions inside the managed frames. -/
theorem deinitRegion_used_iff {p : Info} (h : Wf p) {base size : Nat} (hs : size < 2 ^ 32) :
    (deinitRegion p base size).usedBlocks = (deinitRegion p base size).setBits ↔
      InRange p base size := by
  unfold deinitRegion InRange
  split
  · rename_i h0
    exact ⟨fun _ => .inl (by omega), fun _ => h.used_eq⟩
  · rw [deinitRegionLoop_used (p := p) _ _ 0 h.max_le (by simpa using h.used_eq) (by omega)]
    omega

theorem wf_deinitRegion {p : Info} (h : Wf p) {base size : Nat} (hs : size < 2 ^ 32)
    (hr : InRange p base size) : Wf (deinitRegion p base size) :=
  ⟨by simpa using h.max_le, (deinitRegion_used_iff h hs).mpr hr⟩

/-! ## Allocation -/

/-- Taking a free frame. -/
theorem wf_takeFrame {p : Info} (h : Wf p) {f : Nat} (hf : Free p f) : Wf (takeFrame p f).2 := by
  refine ⟨by simpa [takeFrame] using h.max_le, ?_⟩
  have hlt := h.used_lt_iff.mpr ⟨f, hf⟩
  have := h.max_le
  have hc := setBits_mmapSet hf
  simp only [takeFrame, setBits_withUsed, withUsed_usedBlocks, hc, ← h.used_eq]
  omega

theorem free_takeFrame {p : Info} {f g : Nat} (hf : Free p f) :
    Free (takeFrame p f).2 g ↔ Free p g ∧ g ≠ f := free_mmapSet hf.1

@[simp] theorem takeFrame_maxBlocks (p : Info) (f : Nat) :
    (takeFrame p f).2.maxBlocks = p.maxBlocks := mmapSet_maxBlocks _ _

theorem takeFrame_addr {p : Info} (h : Wf p) {f : Nat} (hf : Free p f) :
    (takeFrame p f).1 = f * 4096 := h.addr_eq hf.1

/-- `pmm_alloc_block`: the first free frame, or `NULL` when there is none. -/
theorem allocBlock_cases {p : Info} (h : Wf p) :
    (allocBlock p = (0, p) ∧ ∀ g, ¬ Free p g) ∨
    ∃ f, Free p f ∧ (∀ g, Free p g → f ≤ g) ∧ allocBlock p = takeFrame p f := by
  have hs := mmapFirstFree_found p
  unfold allocBlock
  by_cases hg : p.maxBlocks ≤ p.usedBlocks
  · rw [if_pos hg]
    refine .inl ⟨rfl, fun g hf => ?_⟩
    have := h.used_lt_iff.mpr ⟨g, hf⟩
    omega
  · rw [if_neg hg]
    revert hs
    cases mmapFirstFree p with
    | none => exact fun hs => .inl ⟨rfl, hs⟩
    | some f => exact fun hs => .inr ⟨f, hs.1, hs.2, rfl⟩

/-- `pmm_alloc_block_low`: the first free frame below the limit, or `NULL` when there is none. -/
theorem allocBlockLow_cases {p : Info} (h : Wf p) (limit : Nat) :
    (allocBlockLow p limit = (0, p) ∧ ∀ g, ¬ FreeLow p (limit / 4096) g) ∨
    ∃ f, FreeLow p (limit / 4096) f ∧ (∀ g, FreeLow p (limit / 4096) g → f ≤ g) ∧
      allocBlockLow p limit = takeFrame p f := by
  have hs := mmapFirstFreeLow_found p (limit / 4096)
  unfold allocBlockLow
  by_cases hg : p.maxBlocks ≤ p.usedBlocks
  · rw [if_pos hg]
    refine .inl ⟨rfl, fun g hf => ?_⟩
    have := h.used_lt_iff.mpr ⟨g, hf.1⟩
    omega
  · rw [if_neg hg]
    revert hs
    cases mmapFirstFreeLow p (limit / 4096) with
    | none => exact fun hs => .inl ⟨rfl, hs⟩
    | some f => exact fun hs => .inr ⟨f, hs.1, hs.2, rfl⟩

@[simp] theorem setRun_maxBlocks (p : Info) (frame n : Nat) :
    (setRun p frame n).maxBlocks = p.maxBlocks := by
  induction n generalizing p frame with
  | zero => rfl
  | succ n ih => simp [setRun, ih]

@[simp] theorem setRun_usedBlocks (p : Info) (frame n : Nat) :
    (setRun p frame n).usedBlocks = p.usedBlocks := by
  induction n generalizing p frame with
  | zero => rfl
  | succ n ih => simp [setRun, ih]

theorem free_setRun {p : Info} {frame n g : Nat} (hr : frame + n ≤ p.maxBlocks) :
    Free (setRun p frame n) g ↔ Free p g ∧ ¬ (frame ≤ g ∧ g < frame + n) := by
  induction n generalizing p frame with
  | zero => exact ⟨fun h => ⟨h, by omega⟩, And.left⟩
  | succ n ih =>
    rw [setRun, ih (by rw [mmapSet_maxBlocks]; omega), free_mmapSet (by omega)]
    constructor
    · rintro ⟨⟨h1, h2⟩, h3⟩; exact ⟨h1, by omega⟩
    · rintro ⟨h1, h2⟩; exact ⟨⟨h1, by omega⟩, by omega⟩

theorem setBits_setRun {p : Info} {frame n : Nat}
    (hr : ∀ k, frame ≤ k → k < frame + n → Free p k) :
    (setRun p frame n).setBits = p.setBits + n := by
  induction n generalizing p frame with
  | zero => rfl
  | succ n ih =>
    have h0 := hr frame (by omega) (by omega)
    rw [setRun, ih fun k h1 h2 => (free_mmapSet h0.1).mpr ⟨hr k (by omega) (by omega), by omega⟩,
      setBits_mmapSet h0]
    omega

/-- What `pmm_alloc_blocks` does with the run that its search found. -/
def takeRun (p : Info) (frame size : Nat) : Nat × Info :=
  (frame * 4096 % 2 ^ 32,
    (setRun p frame size).withUsed ((p.usedBlocks + size) % 2 ^ 32))

theorem wf_takeRun {p : Info} (h : Wf p) {s a : Nat} (hr : IsRun (Free p) s a) :
    Wf (takeRun p a s).2 := by
  refine ⟨by simpa [takeRun] using h.max_le, ?_⟩
  have := h.used_add_le hr
  have := h.max_le
  simp only [takeRun, setBits_withUsed, withUsed_usedBlocks, setBits_setRun hr.2, ← h.used_eq]
  omega

theorem free_takeRun {p : Info} {s a g : Nat} (hr : IsRun (Free p) s a) :
    Free (takeRun p a s).2 g ↔ Free p g ∧ ¬ (a ≤ g ∧ g < a + s) := free_setRun (run_le hr)

@[simp] theorem takeRun_maxBlocks (p : Info) (a s : Nat) :
    (takeRun p a s).2.maxBlocks = p.maxBlocks := setRun_maxBlocks _ _ _

theorem takeRun_addr {p : Info} (h : Wf p) {s a : Nat} (hr : IsRun (Free p) s a) :
    (takeRun p a s).1 = a * 4096 :=
  h.addr_eq (by have := run_le hr; have := hr.1; omega)

/-- `pmm_alloc_blocks`: the first run of free frames of that length, or `NULL` when there is none.
The sum in the guard can wrap, but only for lengths of which there is no run. -/
theorem allocBlocks_cases {p : Info} (h : Wf p) (size : Nat) :
    (allocBlocks p size = (0, p) ∧ ∀ c, ¬ IsRun (Free p) size c) ∨
    ∃ a, IsRun (Free p) size a ∧ (∀ c, IsRun (Free p) size c → a ≤ c) ∧
      allocBlocks p size = takeRun p a size := by
  have hs := mmapFirstFreeBySize_found p size
  unfold allocBlocks
  by_cases hg : p.maxBlocks < (p.usedBlocks + size) % 2 ^ 32
  · rw [if_pos hg]
    refine .inl ⟨rfl, fun c hr => ?_⟩
    have := h.used_add_le hr
    have := h.max_le
    omega
  · rw [if_neg hg]
    revert hs
    cases mmapFirstFreeBySize p size with
    | none => exact fun hs => .inl ⟨rfl, fun c hr => hs c (run_le hr) hr⟩
    | some a =>
      rintro ⟨-, hr, hmin⟩
      exact .inr ⟨a, hr, hmin, by simp [takeRun]⟩

/-! The invariant after each allocation, whether it succeeds or not. -/

theorem wf_allocBlock {p : Info} (h : Wf p) : Wf (allocBlock p).2 := by
  rcases allocBlock_cases h with ⟨e, -⟩ | ⟨f, hf, -, e⟩
  · rwa [e]
  · rw [e]; exact wf_takeFrame h hf

theorem wf_allocBlockLow {p : Info} (h : Wf p) (limit : Nat) : Wf (allocBlockLow p limit).2 := by
  rcases allocBlockLow_cases h limit with ⟨e, -⟩ | ⟨f, hf, -, e⟩
  · rwa [e]
  · rw [e]; exact wf_takeFrame h hf.1

theorem wf_allocBlocks {p : Info} (h : Wf p) (size : Nat) : Wf (allocBlocks p size).2 := by
  rcases allocBlocks_cases h size with ⟨e, -⟩ | ⟨a, hr, -, e⟩
  · rwa [e]
  · rw [e]; exact wf_takeRun h hr

/-! ## Release -/

/-- The state after `pmm_free_block` released frame `f`. -/
def dropFrame (p : Info) (f : Nat) : Info :=
  (mmapUnset p (f : Int)).withUsed (sub32 p.usedBlocks 1)

theorem wf_dropFrame {p : Info} (h : Wf p) {f : Nat} (hf : f < p.maxBlocks) (hb : p.bit f = true) :
    Wf (dropFrame p f) := by
  refine ⟨by simpa [dropFrame] using h.max_le, ?_⟩
  have hc := setBits_mmapUnset hf hb
  have := p.setBits_le
  have := h.max_le
  simp only [dropFrame, setBits_withUsed, withUsed_usedBlocks, h.used_eq]
  rw [sub32_eq (by omega)]
  omega

theorem free_dropFrame {p : Info} {f g : Nat} (hf : f < p.maxBlocks) :
    Free (dropFrame p f) g ↔ Free p g ∨ g = f := free_mmapUnset hf

@[simp] theorem dropFrame_maxBlocks (p : Info) (f : Nat) :
    (dropFrame p f).maxBlocks = p.maxBlocks := mmapUnset_maxBlocks _ _

/-- `pmm_free_block` releases the frame of an aligned address, or changes nothing. -/
theorem freeBlock_cases (p : Info) (kd : Option KernelDir) (addr : Nat) :
    freeBlock p kd addr = p ∨
    (addr % 4096 = 0 ∧ addr / 4096 < p.maxBlocks ∧ p.bit (addr / 4096) = true ∧
      freeBlock p kd addr = dropFrame p (addr / 4096)) := by
  unfold freeBlock
  by_cases h0 : addr = 0
  · exact .inl (by rw [if_pos h0])
  rw [if_neg h0]
  by_cases ha : addr % 4096 = 0
  · rw [if_neg (by simpa using ha)]
    by_cases hk : kd.any (·.guards addr) = true
    · exact .inl (by rw [if_pos hk])
    rw [if_neg hk]
    by_cases hm : p.maxBlocks ≤ addr / 4096
    · exact .inl (by simp only [if_pos hm])
    simp only [if_neg hm]
    by_cases ht : mmapTest p ((addr / 4096 : Nat) : Int) = true
    · right
      obtain ⟨h1, h2⟩ := mmapTest_nat_eq_true.mp ht
      refine ⟨ha, h1, h2, ?_⟩
      rw [ht]
      rfl
    · exact .inl (by rw [if_pos (by simpa using ht)])
  · exact .inl (by rw [if_pos ha])

/-- `pmm_free_block` of a used frame that the guard lets through. -/
theorem freeBlock_eq {p : Info} {kd : Option KernelDir} {f : Nat} (h0 : f ≠ 0)
    (hf : f < p.maxBlocks) (hb : p.bit f = true) (hk : kd.any (·.guards (f * 4096)) = false) :
    freeBlock p kd (f * 4096) = dropFrame p f := by
  unfold freeBlock
  have hd : f * 4096 / 4096 = f := by omega
  rw [if_neg (by omega), if_neg (by omega), if_neg (by simp [hk])]
  simp only [hd]
  rw [if_neg (by omega), mmapTest_nat, if_neg (by simp [hf, hb])]
  simp [dropFrame]

theorem freeRun_spec {p : Info} (frame n i freed : Nat) (hm : p.maxBlocks ≤ 2 ^ 20)
    (hc : freed + p.setBits < 2 ^ 32) :
    (freeRun p frame n i freed).1.maxBlocks = p.maxBlocks ∧
    (freeRun p frame n i freed).1.usedBlocks = p.usedBlocks ∧
    (freeRun p frame n i freed).1.setBits + (freeRun p frame n i freed).2 = p.setBits + freed := by
  induction n generalizing p i freed with
  | zero => simp [freeRun]
  | succ n ih =>
    unfold freeRun
    split
    · rename_i ht
      obtain ⟨h0, h1, h2⟩ := mmapTest_eq_true.mp ht
      obtain ⟨k, hk⟩ := Int.eq_ofNat_of_zero_le h0
      rw [hk] at h1 h2 ⊢
      simp only [Int.toNat_natCast] at h1 h2
      have hs := setBits_mmapUnset h1 h2
      obtain ⟨e1, e2, e3⟩ := ih (p := mmapUnset p (k : Int)) (i + 1) ((freed + 1) % 2 ^ 32)
        (by simpa using hm) (by omega)
      refine ⟨by simpa using e1, by simpa using e2, ?_⟩
      rw [e3]
      omega
    · exact ih (i + 1) freed hm hc

theorem wf_freeBlocks {p : Info} (h : Wf p) (addr size : Nat) : Wf (freeBlocks p addr size) := by
  unfold freeBlocks
  split
  · exact h
  split
  · exact h
  dsimp only
  split
  · exact h
  have hle := p.setBits_le
  have hm := h.max_le
  obtain ⟨e1, e2, e3⟩ := freeRun_spec (p := p) (addr / 4096) size 0 0 hm (by omega)
  refine ⟨by simpa [e1] using hm, ?_⟩
  simp only [setBits_withUsed, withUsed_usedBlocks, e2, h.used_eq]
  rw [sub32_eq (by omega)]
  omega

@[simp] theorem freeBlocks_maxBlocks {p : Info} (h : Wf p) (addr size : Nat) :
    (freeBlocks p addr size).maxBlocks = p.maxBlocks := by
  unfold freeBlocks
  split
  · rfl
  split
  · rfl
  dsimp only
  split
  · rfl
  have hle := p.setBits_le
  have hm := h.max_le
  exact (freeRun_spec (p := p) (addr / 4096) size 0 0 hm (by omega)).1

theorem wf_freeBlock {p : Info} (h : Wf p) (kd : Option KernelDir) (addr : Nat) :
    Wf (freeBlock p kd addr) := by
  rcases freeBlock_cases p kd addr with e | ⟨-, h1, h2, e⟩
  · rwa [e]
  · rw [e]; exact wf_dropFrame h h1 h2

/-- The loop of `pmm_free_blocks` over managed frames clears exactly their bits. -/
theorem free_freeRun {p : Info} (frame n i freed g : Nat) (hr : frame + i + n ≤ p.maxBlocks)
    (hm : p.maxBlocks ≤ 2 ^ 20) :
    Free (freeRun p frame n i freed).1 g ↔
      Free p g ∨ (frame + i ≤ g ∧ g < frame + i + n) := by
  induction n generalizing p i freed with
  | zero => exact ⟨.inl, fun h => h.elim id fun h => absurd h (by omega)⟩
  | succ n ih =>
    have hi : toInt32 (frame + i) = ((frame + i : Nat) : Int) := by
      unfold toInt32; rw [if_pos (by omega), Nat.mod_eq_of_lt (by omega)]
    unfold freeRun
    rw [hi]
    split
    · rw [ih (i := i + 1) ((freed + 1) % 2 ^ 32) (by simp; omega) (by simpa using hm), free_mmapUnset (by omega)]
      constructor
      · rintro ((h | h) | h)
        · exact .inl h
        · right; omega
        · right; omega
      · rintro (h | h)
        · exact .inl (.inl h)
        · by_cases hg : g = frame + i
          · exact .inl (.inr hg)
          · right; omega
    · rename_i ht
      have hf : Free p (frame + i) := (not_mmapTest_iff (by omega)).mp (by simpa using ht)
      rw [ih (i := i + 1) freed (by omega) hm]
      constructor
      · rintro (h | h)
        · exact .inl h
        · right; omega
      · rintro (h | h)
        · exact .inl h
        · by_cases hg : g = frame + i
          · exact .inl (hg ▸ hf)
          · right; omega

/-- `pmm_free_blocks` of a run of managed frames frees exactly that run. -/
theorem free_freeBlocks {p : Info} (h : Wf p) {a s g : Nat} (h0 : a ≠ 0) (hs : 0 < s)
    (hr : a + s ≤ p.maxBlocks) :
    Free (freeBlocks p (a * 4096) s) g ↔ Free p g ∨ (a ≤ g ∧ g < a + s) := by
  have hm := h.max_le
  unfold freeBlocks
  have hd : a * 4096 / 4096 = a := by omega
  rw [if_neg (by omega), if_neg (by omega)]
  simp only [hd]
  rw [if_neg (by omega)]
  simp only [free_withUsed]
  rw [free_freeRun a s 0 0 g (by omega) hm]
  simp

@[simp] theorem freeBlock_maxBlocks (p : Info) (kd : Option KernelDir) (addr : Nat) :
    (freeBlock p kd addr).maxBlocks = p.maxBlocks := by
  rcases freeBlock_cases p kd addr with e | ⟨-, -, -, e⟩ <;> simp [e]

end Pmm
end Hashx86
