import Hashx86.Lib.Bitmap
import Hashx86.Pmm.Defs

/-!
# The bit helpers and the three searches

`Info.bit p f` is the bit of frame `f`, and `Free p f` says that the PMM may hand the frame out.
The bit helpers set, clear and read exactly one bit inside `[0, maxBlocks)` and do nothing
outside. Each search is first fit although it skips fully used words and stops inside the last
one: `mmapFirstFree_found`, `mmapFirstFreeLow_found`, `mmapFirstFreeBySize_found`.
-/

namespace Hashx86
namespace Pmm

open Lib

/-- The bit of frame `f`. -/
def Info.bit (p : Info) (f : Nat) : Bool := bitAt p.memoryMapArray f

/-- Frame `f` is managed and not used. -/
def Free (p : Info) (f : Nat) : Prop := f < p.maxBlocks ∧ p.bit f = false

instance (p : Info) (f : Nat) : Decidable (Free p f) := inferInstanceAs (Decidable (_ ∧ _))

/-! ## The bit helpers -/

theorem mmapTest_nat (p : Info) (f : Nat) :
    mmapTest p (f : Int) = (decide (f < p.maxBlocks) && p.bit f) := by
  unfold mmapTest
  by_cases h : f < p.maxBlocks
  · rw [if_pos (by omega), Int.toNat_natCast, and_bit_ne_zero (Nat.mod_lt _ (by decide))]
    simp [h, Info.bit, bitAt]
  · rw [if_neg (by omega)]
    simp [h]

theorem mmapTest_of_neg (p : Info) {i : Int} (h : i < 0) : mmapTest p i = false := by
  unfold mmapTest; rw [if_neg (by omega)]

/-- `pmm_mmap_test` reports a used frame inside the bitmap. -/
theorem mmapTest_eq_true {p : Info} {i : Int} :
    mmapTest p i = true ↔ 0 ≤ i ∧ i.toNat < p.maxBlocks ∧ p.bit i.toNat = true := by
  by_cases h : i < 0
  · simp [mmapTest_of_neg p h]; omega
  · obtain ⟨n, rfl⟩ := Int.eq_ofNat_of_zero_le (Int.not_lt.mp h)
    simp [mmapTest_nat]

theorem mmapTest_nat_eq_true {p : Info} {f : Nat} :
    mmapTest p (f : Int) = true ↔ f < p.maxBlocks ∧ p.bit f = true := by
  simp [mmapTest_nat]

@[simp] theorem mmapSet_maxBlocks (p : Info) (i : Int) : (mmapSet p i).maxBlocks = p.maxBlocks := by
  unfold mmapSet; split <;> rfl

@[simp] theorem mmapSet_usedBlocks (p : Info) (i : Int) : (mmapSet p i).usedBlocks = p.usedBlocks := by
  unfold mmapSet; split <;> rfl

@[simp] theorem mmapUnset_maxBlocks (p : Info) (i : Int) :
    (mmapUnset p i).maxBlocks = p.maxBlocks := by
  unfold mmapUnset; split <;> rfl

@[simp] theorem mmapUnset_usedBlocks (p : Info) (i : Int) :
    (mmapUnset p i).usedBlocks = p.usedBlocks := by
  unfold mmapUnset; split <;> rfl

theorem bit_mmapSet (p : Info) (f g : Nat) :
    (mmapSet p (f : Int)).bit g = (decide (g = f ∧ f < p.maxBlocks) || p.bit g) := by
  unfold mmapSet
  by_cases h : f < p.maxBlocks
  · rw [if_pos (by omega)]
    simp only [Info.bit, Int.toNat_natCast]
    rw [bitAt_setBit _ (by decide)]
    simp [h]
  · rw [if_neg (by omega)]
    simp [h]

theorem bit_mmapUnset (p : Info) (f g : Nat) :
    (mmapUnset p (f : Int)).bit g = (!decide (g = f ∧ f < p.maxBlocks) && p.bit g) := by
  unfold mmapUnset
  by_cases h : f < p.maxBlocks
  · rw [if_pos (by omega)]
    simp only [Info.bit, Int.toNat_natCast]
    rw [bitAt_clearBit _ (by decide)]
    simp [h]
  · rw [if_neg (by omega)]
    simp [h]

theorem free_mmapSet {p : Info} {f g : Nat} (hf : f < p.maxBlocks) :
    Free (mmapSet p (f : Int)) g ↔ Free p g ∧ g ≠ f := by
  unfold Free
  rw [bit_mmapSet, mmapSet_maxBlocks]
  by_cases h : g = f <;> simp [h, hf]

theorem free_mmapUnset {p : Info} {f g : Nat} (hf : f < p.maxBlocks) :
    Free (mmapUnset p (f : Int)) g ↔ Free p g ∨ g = f := by
  unfold Free
  rw [bit_mmapUnset, mmapUnset_maxBlocks]
  by_cases h : g = f <;> simp [h, hf]

/-! ## Words -/

theorem clearAt_eq (p : Info) {i j : Nat} (hj : j < 32) : clearAt p i j = !p.bit (i * 32 + j) := by
  rw [clearAt, and_bit_eq_zero hj, Info.bit, bitAt_word _ hj]

/-- A frame in a fully used word is not free. -/
theorem not_free_of_full {p : Info} {i f : Nat} (h : p.memoryMapArray i = 0xffffffff#32)
    (h1 : i * 32 ≤ f) (h2 : f < (i + 1) * 32) : ¬ Free p f := by
  obtain ⟨j, rfl⟩ := Nat.exists_eq_add_of_le h1
  rintro ⟨-, hb⟩
  rw [Info.bit, bitAt_word _ (show j < 32 by omega), h] at hb
  have : (0xffffffff#32).getLsbD j = true := by
    rw [show 0xffffffff#32 = BitVec.allOnes 32 by decide, BitVec.getLsbD_allOnes]
    simp; omega
  rw [this] at hb; cases hb

theorem lt_entries {p : Info} {f : Nat} (h : f < p.maxBlocks) : f < entries p * 32 := by
  unfold entries; omega

/-! ## `pmm_mmap_first_free` -/

theorem firstFreeBits_found (p : Info) (i : Nat) {n j : Nat} (hn : n + j = 32) :
    Found (Free p) (i * 32 + j) ((i + 1) * 32) (firstFreeBits p i n j) := by
  induction n generalizing j with
  | zero => exact Found.empty (by omega)
  | succ n ih =>
    unfold firstFreeBits
    split
    · rename_i hm
      intro g h1 _ hf
      have := hf.1
      omega
    · rw [clearAt_eq p (by omega)]
      split
      · rename_i hm hb
        exact Found.hit (by omega) ⟨by omega, by simpa using hb⟩
      · rename_i hm hb
        have hnf : ¬ Free p (i * 32 + j) := fun hf => hb (by simp [hf.2])
        exact (Found.skip hnf).append (ih (by omega)) (by omega)

theorem firstFreeWords_found (p : Info) {n i : Nat} :
    Found (Free p) (i * 32) ((i + n) * 32) (firstFreeWords p n i) := by
  induction n generalizing i with
  | zero => exact Found.empty (by omega)
  | succ n ih =>
    have hnext : Found (Free p) ((i + 1) * 32) ((i + (n + 1)) * 32) (firstFreeWords p n (i + 1)) := by
      have := ih (i := i + 1)
      rwa [show i + 1 + n = i + (n + 1) by omega] at this
    unfold firstFreeWords
    split
    · have hw := firstFreeBits_found p i (n := 32) (j := 0) rfl
      cases hb : firstFreeBits p i 32 0 with
      | some bit => rw [hb] at hw; exact hw.widen (by omega)
      | none => rw [hb] at hw; exact hw.append hnext (by omega)
    · rename_i hfull
      have hskip : Found (Free p) (i * 32) ((i + 1) * 32) none := fun g h1 h2 =>
        not_free_of_full (by simpa using hfull) h1 h2
      exact hskip.append hnext (by omega)

/-- `pmm_mmap_first_free` finds the first free frame. -/
theorem mmapFirstFree_found (p : Info) :
    match mmapFirstFree p with
    | some f => Free p f ∧ ∀ g, Free p g → f ≤ g
    | none => ∀ g, ¬ Free p g := by
  have h := firstFreeWords_found p (n := entries p) (i := 0)
  unfold mmapFirstFree
  cases hr : firstFreeWords p (entries p) 0 with
  | some f =>
    rw [hr] at h
    exact ⟨h.2.2.1, fun g hg => by
      by_contra hlt
      exact h.2.2.2 g (by omega) (by omega) hg⟩
  | none =>
    rw [hr] at h
    intro g hg
    have := lt_entries hg.1
    exact h g (by omega) (by omega) hg

/-! ## `pmm_mmap_first_free_low` -/

/-- Frame `f` is free and below the limit. -/
def FreeLow (p : Info) (limitFrame f : Nat) : Prop := Free p f ∧ f < limitFrame

theorem firstFreeLowBits_found (p : Info) (lim i : Nat) {n j : Nat} (hn : n + j = 32) :
    match firstFreeLowBits p lim i n j with
    | some (some f) => Found (FreeLow p lim) (i * 32 + j) ((i + 1) * 32) (some f)
    | some none => ∀ g, i * 32 + j ≤ g → ¬ FreeLow p lim g
    | none => Found (FreeLow p lim) (i * 32 + j) ((i + 1) * 32) none := by
  induction n generalizing j with
  | zero => exact Found.empty (by omega)
  | succ n ih =>
    unfold firstFreeLowBits
    by_cases hl : lim ≤ i * 32 + j
    · rw [if_pos hl]
      intro g h1 hf
      have := hf.2
      omega
    rw [if_neg hl]
    by_cases hm : p.maxBlocks ≤ i * 32 + j
    · rw [if_pos hm]
      intro g h1 hf
      have := hf.1.1
      omega
    rw [if_neg hm, clearAt_eq p (by omega)]
    by_cases hb : (!p.bit (i * 32 + j)) = true
    · rw [if_pos hb]
      exact Found.hit (by omega) ⟨⟨by omega, by simpa using hb⟩, by omega⟩
    rw [if_neg hb]
    have hnf : ¬ FreeLow p lim (i * 32 + j) := fun hf => hb (by simp [hf.1.2])
    have hs := Found.skip hnf
    have hrec := ih (j := j + 1) (by omega)
    revert hrec
    cases firstFreeLowBits p lim i n (j + 1) with
    | none => exact fun hrec => hs.append hrec (by omega)
    | some r =>
      cases r with
      | some f => exact fun hrec => hs.append hrec (by omega)
      | none =>
        intro hrec g hg
        by_cases hgj : g = i * 32 + j
        · rwa [hgj]
        · exact hrec g (by omega)

theorem firstFreeLowWords_found (p : Info) (lim : Nat) {n i : Nat} (hi : i + n = entries p) :
    match firstFreeLowWords p lim n i with
    | some f => i * 32 ≤ f ∧ FreeLow p lim f ∧ ∀ g, i * 32 ≤ g → FreeLow p lim g → f ≤ g
    | none => ∀ g, i * 32 ≤ g → ¬ FreeLow p lim g := by
  induction n generalizing i with
  | zero =>
    intro g h1 hf
    have := lt_entries hf.1.1
    omega
  | succ n ih =>
    -- What the rest of the search finds holds from word `i` on when word `i` has no hit.
    have hnext (hw : Found (FreeLow p lim) (i * 32) ((i + 1) * 32) none) :
        match firstFreeLowWords p lim n (i + 1) with
        | some f => i * 32 ≤ f ∧ FreeLow p lim f ∧ ∀ g, i * 32 ≤ g → FreeLow p lim g → f ≤ g
        | none => ∀ g, i * 32 ≤ g → ¬ FreeLow p lim g := by
      have hrec := ih (i := i + 1) (by omega)
      revert hrec
      cases firstFreeLowWords p lim n (i + 1) with
      | some f =>
        rintro ⟨h1, h2, h3⟩
        refine ⟨by omega, h2, fun g h4 h5 => ?_⟩
        by_cases hg : g < (i + 1) * 32
        · exact absurd h5 (hw g h4 hg)
        · exact h3 g (by omega) h5
      | none =>
        intro hrec g h1
        by_cases hg : g < (i + 1) * 32
        · exact hw g h1 hg
        · exact hrec g (by omega)
    unfold firstFreeLowWords
    by_cases hl : lim ≤ i * 32
    · rw [if_pos hl]
      intro g h1 hf
      have := hf.2
      omega
    rw [if_neg hl]
    by_cases hfull : p.memoryMapArray i = 0xffffffff#32
    · rw [if_neg (by simpa using hfull)]
      exact hnext fun g h1 h2 hf => not_free_of_full hfull h1 h2 hf.1
    · rw [if_pos hfull]
      have hb := firstFreeLowBits_found p lim i (n := 32) (j := 0) rfl
      revert hb
      cases firstFreeLowBits p lim i 32 0 with
      | none => exact fun hb => hnext hb
      | some r =>
        cases r with
        | none => exact fun hb => hb
        | some f =>
          rintro ⟨h1, -, h3, h4⟩
          refine ⟨h1, h3, fun g h5 h6 => ?_⟩
          by_contra hlt
          exact h4 g h5 (by omega) h6

/-- `pmm_mmap_first_free_low` finds the first free frame below the limit. -/
theorem mmapFirstFreeLow_found (p : Info) (lim : Nat) :
    match mmapFirstFreeLow p lim with
    | some f => FreeLow p lim f ∧ ∀ g, FreeLow p lim g → f ≤ g
    | none => ∀ g, ¬ FreeLow p lim g := by
  have h := firstFreeLowWords_found p lim (n := entries p) (i := 0) (by omega)
  unfold mmapFirstFreeLow
  revert h
  cases firstFreeLowWords p lim (entries p) 0 with
  | some f => exact fun h => ⟨h.2.1, fun g hg => h.2.2 g (by omega) hg⟩
  | none => exact fun h g => h g (by omega)

/-! ## `pmm_mmap_first_free_by_size` -/

theorem not_mmapTest_iff {p : Info} {f : Nat} (hf : f < p.maxBlocks) :
    (!mmapTest p (f : Int)) = true ↔ Free p f := by
  rw [mmapTest_nat]
  simp [Free, hf]

/-- A run of free frames ends inside the bitmap. -/
theorem run_le {p : Info} {s c : Nat} (h : IsRun (Free p) s c) : c + s ≤ p.maxBlocks := by
  have := (h.2 (c + s - 1) (by have := h.1; omega) (by have := h.1; omega)).1
  omega

theorem firstFreeBySizeBits_found (p : Info) {s i n j free start : Nat} (hn : n + j = 32)
    (hs : Streak (Free p) s (i * 32 + j) free start)
    (hold : ∀ c, c + s ≤ i * 32 + j → ¬ IsRun (Free p) s c) :
    match firstFreeBySizeBits p s i n j free start with
    | .ret r => FoundRun (Free p) s p.maxBlocks r
    | .next free start => Streak (Free p) s ((i + 1) * 32) free start ∧
        ∀ c, c + s ≤ (i + 1) * 32 → ¬ IsRun (Free p) s c := by
  induction n generalizing j free start with
  | zero =>
    obtain rfl : j = 32 := by omega
    rw [show i * 32 + 32 = (i + 1) * 32 by omega] at hs hold
    exact ⟨hs, hold⟩
  | succ n ih =>
    unfold firstFreeBySizeBits
    by_cases hm : p.maxBlocks ≤ i * 32 + j
    · rw [if_pos hm]
      exact fun c hc => hold c (by omega)
    rw [if_neg hm]
    by_cases hf : Free p (i * 32 + j)
    · rw [if_pos ((not_mmapTest_iff (by omega)).mpr hf)]
      by_cases hsz : free + 1 = s
      · simp only [if_pos hsz]
        exact hs.found hold hf (by omega) hsz
      · simp only [if_neg hsz]
        exact ih (by omega) (hs.grow hf hsz) (hs.no_run hold (.inr hsz))
    · rw [if_neg (fun h => hf ((not_mmapTest_iff (by omega)).mp h))]
      exact ih (by omega) (Streak.reset (Nat.zero_lt_of_lt hs.lt) hf) (hs.no_run hold (.inl hf))

theorem firstFreeBySizeWords_found (p : Info) {s n i free start : Nat} (hi : i + n = entries p)
    (hs : Streak (Free p) s (i * 32) free start)
    (hold : ∀ c, c + s ≤ i * 32 → ¬ IsRun (Free p) s c) :
    FoundRun (Free p) s p.maxBlocks (firstFreeBySizeWords p s n i free start) := by
  induction n generalizing i free start with
  | zero =>
    intro c _ hr
    have := run_le hr
    have : p.maxBlocks ≤ entries p * 32 := by unfold entries; omega
    exact hold c (by omega) hr
  | succ n ih =>
    unfold firstFreeBySizeWords
    by_cases hfull : p.memoryMapArray i = 0xffffffff#32
    · rw [if_neg (by simpa using hfull)]
      have hnf : ∀ k, i * 32 ≤ k → k < (i + 1) * 32 → ¬ Free p k := fun k => not_free_of_full hfull
      have hlast : ¬ Free p ((i + 1) * 32 - 1) := hnf _ (by omega) (by omega)
      have hpos : (i + 1) * 32 - 1 + 1 = (i + 1) * 32 := by omega
      refine ih (by omega) (hpos ▸ Streak.reset (Nat.zero_lt_of_lt hs.lt) hlast) fun c hc hr => ?_
      by_cases hx : c + s ≤ i * 32
      · exact hold c hx hr
      · exact hnf (c + s - 1) (by omega) (by omega) (hr.2 _ (by have := hr.1; omega)
          (by have := hr.1; omega))
    · rw [if_pos hfull]
      rw [← Nat.add_zero (i * 32)] at hs hold
      have hb := firstFreeBySizeBits_found p (n := 32) rfl hs hold
      revert hb
      cases firstFreeBySizeBits p s i 32 0 free start with
      | ret r => exact fun hb => hb
      | next free start => exact fun hb => ih (by omega) hb.1 hb.2

/-- `pmm_mmap_first_free_by_size` finds the first run of free frames. -/
theorem mmapFirstFreeBySize_found (p : Info) (s : Nat) :
    FoundRun (Free p) s p.maxBlocks (mmapFirstFreeBySize p s) := by
  unfold mmapFirstFreeBySize
  by_cases hs : s = 0
  · rw [if_pos hs]
    exact fun c _ hr => absurd hr.1 (by omega)
  · rw [if_neg hs]
    have h0 : Streak (Free p) s (0 * 32) 0 0 := by
      rw [Nat.zero_mul]; exact Streak.zero (by omega)
    exact firstFreeBySizeWords_found p (i := 0) (by omega) h0 fun c hc hr => by
      have := hr.1
      omega

end Pmm
end Hashx86
