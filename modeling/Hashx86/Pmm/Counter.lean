import Hashx86.Lib.Run
import Hashx86.Pmm.Spec

/-!
# The counter of the PMM over whole runs

A run is `pmm_init` followed by calls of the seven other operations with any arguments (`Op`).
`Sound p op` is what is wanted of one call: `used_blocks` counts the set bits after it, an
allocation does not report exhaustion while a suitable frame is free, and no search runs on a full
bitmap. `StepOk p op` is the condition under which the code meets it:

* `pmm_deinit_region` stays inside the managed frames. Past them `pmm_mmap_test` says "free" and
  `pmm_mmap_set` does nothing, so the counter grows for frames that do not exist.
* The frame that an allocation finds is not frame 0, whose address is `NULL`.
* The guard of `pmm_alloc_blocks` does not wrap on a full bitmap.

On a state with an exact counter the two are equivalent (`sound_iff`), and so they are over a run.
-/

namespace Hashx86
namespace Pmm

open Lib

/-- One call of the PMM. `kd` is the kernel page directory as `pmm_free_block` finds it. -/
inductive Op where
  | initRegion (base regionSize : UInt32)
  | deinitRegion (base regionSize : UInt32)
  | allocBlock
  | allocBlockLow (limitAddr : UInt32)
  | allocBlocks (size : UInt32)
  | freeBlock (kd : Option KernelDir) (addr : UInt32)
  | freeBlocks (addr size : UInt32)

/-- The state after a call. -/
def step (p : Info) : Op → Info
  | .initRegion base size => initRegion p base.toNat size.toNat
  | .deinitRegion base size => deinitRegion p base.toNat size.toNat
  | .allocBlock => (allocBlock p).2
  | .allocBlockLow limit => (allocBlockLow p limit.toNat).2
  | .allocBlocks size => (allocBlocks p size.toNat).2
  | .freeBlock kd addr => freeBlock p kd addr.toNat
  | .freeBlocks addr size => freeBlocks p addr.toNat size.toNat

/-- The pointer that an allocation returns. -/
def answer (p : Info) : Op → Option Nat
  | .allocBlock => some (allocBlock p).1
  | .allocBlockLow limit => some (allocBlockLow p limit.toNat).1
  | .allocBlocks size => some (allocBlocks p size.toNat).1
  | _ => none

/-- A frame, or a run of frames, that serves the allocation is free. -/
def Suitable (p : Info) : Op → Prop
  | .allocBlock => ∃ f, Free p f
  | .allocBlockLow limit => ∃ f, FreeLow p (limit.toNat / 4096) f
  | .allocBlocks size => ∃ a, IsRun (Free p) size.toNat a
  | _ => False

/-- The guard of the allocation lets its search run (the search for a run of length 0 returns at
once). -/
def Searches (p : Info) : Op → Prop
  | .allocBlock => ¬ p.maxBlocks ≤ p.usedBlocks
  | .allocBlockLow _ => ¬ p.maxBlocks ≤ p.usedBlocks
  | .allocBlocks size => ¬ p.maxBlocks < (p.usedBlocks + size.toNat) % 2 ^ 32 ∧ size.toNat ≠ 0
  | _ => False

/-- The counter is the number of set bits. -/
def Exact (p : Info) : Prop := p.usedBlocks = p.setBits ∧ p.usedBlocks ≤ p.maxBlocks

/-- What is wanted of one call. -/
structure Sound (p : Info) (op : Op) : Prop where
  exact_after : Exact (step p op)
  exhausted : answer p op = some 0 → ¬ Suitable p op
  search : Searches p op → ∃ f, Free p f

/-- The condition under which the code does what is wanted. -/
def StepOk (p : Info) : Op → Prop
  | .deinitRegion base size => InRange p base.toNat size.toNat
  | .allocBlock => ¬ Free p 0
  | .allocBlockLow limit => ¬ FreeLow p (limit.toNat / 4096) 0
  | .allocBlocks size => ¬ IsRun (Free p) size.toNat 0 ∧
      (size.toNat = 0 ∨ p.usedBlocks < p.maxBlocks ∨ p.usedBlocks + size.toNat < 2 ^ 32)
  | _ => True

theorem Wf.exact {p : Info} (h : Wf p) : Exact p := ⟨h.used_eq, h.used_le⟩

/-! ## One call -/

@[simp] theorem step_maxBlocks (p : Info) (op : Op) (h : Wf p) :
    (step p op).maxBlocks = p.maxBlocks := by
  cases op with
  | initRegion base size => exact initRegion_maxBlocks _ _ _
  | deinitRegion base size => exact deinitRegion_maxBlocks _ _ _
  | allocBlock =>
    rcases allocBlock_cases h with ⟨e, -⟩ | ⟨f, -, -, e⟩ <;> simp [step, e]
  | allocBlockLow limit =>
    rcases allocBlockLow_cases h limit.toNat with ⟨e, -⟩ | ⟨f, -, -, e⟩ <;> simp [step, e]
  | allocBlocks size =>
    rcases allocBlocks_cases h size.toNat with ⟨e, -⟩ | ⟨f, -, -, e⟩ <;> simp [step, e]
  | freeBlock kd addr => exact freeBlock_maxBlocks _ _ _
  | freeBlocks addr size => exact freeBlocks_maxBlocks h _ _

/-- Every call but `pmm_deinit_region` keeps the invariant; that one does so inside the managed
frames. -/
theorem wf_step {p : Info} (h : Wf p) {op : Op} (hok : StepOk p op) : Wf (step p op) := by
  cases op with
  | initRegion base size => exact wf_initRegion h _ _
  | deinitRegion base size => exact wf_deinitRegion h size.toNat_lt hok
  | allocBlock => exact wf_allocBlock h
  | allocBlockLow limit => exact wf_allocBlockLow h _
  | allocBlocks size => exact wf_allocBlocks h _
  | freeBlock kd addr => exact wf_freeBlock h kd _
  | freeBlocks addr size => exact wf_freeBlocks h _ _

/-- On a state with an exact counter, a call does what is wanted exactly under its condition. -/
theorem sound_iff {p : Info} (h : Wf p) (op : Op) : Sound p op ↔ StepOk p op := by
  have hlt := h.used_lt_iff
  constructor
  · intro hs
    cases op with
    | initRegion base size => trivial
    | deinitRegion base size => exact (deinitRegion_used_iff h size.toNat_lt).mp hs.exact_after.1
    | allocBlock =>
      intro h0
      rcases allocBlock_cases h with ⟨-, hn⟩ | ⟨f, hf, hmin, e⟩
      · exact hn 0 h0
      · refine hs.exhausted ?_ ⟨0, h0⟩
        obtain rfl := Nat.le_zero.mp (hmin 0 h0)
        simp [answer, e, takeFrame]
    | allocBlockLow limit =>
      intro h0
      rcases allocBlockLow_cases h limit.toNat with ⟨-, hn⟩ | ⟨f, hf, hmin, e⟩
      · exact hn 0 h0
      · refine hs.exhausted ?_ ⟨0, h0⟩
        obtain rfl := Nat.le_zero.mp (hmin 0 h0)
        simp [answer, e, takeFrame]
    | allocBlocks size =>
      refine ⟨fun h0 => ?_, ?_⟩
      · rcases allocBlocks_cases h size.toNat with ⟨-, hn⟩ | ⟨a, ha, hmin, e⟩
        · exact hn 0 h0
        · refine hs.exhausted ?_ ⟨0, h0⟩
          obtain rfl := Nat.le_zero.mp (hmin 0 h0)
          simp [answer, e, takeRun]
      · by_contra hc
        have := h.max_le
        have := h.used_le
        have := size.toNat_lt
        exact absurd (hlt.mpr (hs.search ⟨by omega, by omega⟩)) (by omega)
    | freeBlock kd addr => trivial
    | freeBlocks addr size => trivial
  · intro hok
    refine ⟨(wf_step h hok).exact, ?_, ?_⟩
    · -- An allocation that found something returns the address of a frame other than 0.
      cases op with
      | allocBlock =>
        rcases allocBlock_cases h with ⟨-, hn⟩ | ⟨f, hf, -, e⟩
        · rintro - ⟨f, hf⟩
          exact hn f hf
        · intro ha
          simp only [answer, e, takeFrame_addr h hf, Option.some.injEq] at ha
          obtain rfl : f = 0 := by omega
          exact absurd hf hok
      | allocBlockLow limit =>
        rcases allocBlockLow_cases h limit.toNat with ⟨-, hn⟩ | ⟨f, hf, -, e⟩
        · rintro - ⟨f, hf⟩
          exact hn f hf
        · intro ha
          simp only [answer, e, takeFrame_addr h hf.1, Option.some.injEq] at ha
          obtain rfl : f = 0 := by omega
          exact absurd hf hok
      | allocBlocks size =>
        rcases allocBlocks_cases h size.toNat with ⟨-, hn⟩ | ⟨a, hr, -, e⟩
        · rintro - ⟨a, hr⟩
          exact hn a hr
        · intro ha
          simp only [answer, e, takeRun_addr h hr, Option.some.injEq] at ha
          obtain rfl : a = 0 := by omega
          exact absurd hr hok.1
      | _ => exact fun _ => id
    · cases op with
      | allocBlock => exact fun hs => hlt.mp (Nat.not_le.mp hs)
      | allocBlockLow limit => exact fun hs => hlt.mp (Nat.not_le.mp hs)
      | allocBlocks size =>
        rintro ⟨hs, h0⟩
        have := h.max_le
        have := h.used_le
        have := hok.2
        exact hlt.mp (by omega)
      | _ => exact False.elim

/-! ## Runs -/

/-- A run from `pmm_init`: the counter is exact at the start and every call does what is wanted. -/
def CounterRight (old : Nat → BitVec 32) (bitmap total : UInt32) (ops : List Op) : Prop :=
  Exact (init old bitmap.toNat total.toNat) ∧
    Along step Sound (init old bitmap.toNat total.toNat) ops

/-- A run of calls is right exactly when every call of it meets its condition. -/
theorem counterRight_iff (old : Nat → BitVec 32) (bitmap total : UInt32) (ops : List Op) :
    CounterRight old bitmap total ops ↔
      Along step StepOk (init old bitmap.toNat total.toNat) ops := by
  have hwf := wf_init old bitmap.toNat total.toNat_lt
  unfold CounterRight
  rw [and_iff_right hwf.exact]
  exact Along.iff_of_inv (fun _ _ h hok => wf_step h hok) (fun _ op h => sound_iff h op) hwf

/-- Reserving one page past the end of a machine of eight frames counts a ninth used frame. -/
theorem deinitRegion_past_end :
    ¬ CounterRight (fun _ => 0) 0 0x8000 [.deinitRegion 0x8000 0x1000] := by
  rintro ⟨-, h, -⟩
  exact absurd h.exact_after.2 (by decide)

end Pmm
end Hashx86
