import Hashx86.Pmm.Spec

/-!
# Searches and regions against their plain meaning

* `searches_plain`: the three searches give what a search bit by bit gives.
* `clearsExtent_iff`: `pmm_free_blocks` stays inside its extent unless `frame + size` wraps, the
  wrapped sum passes the check and the loop then meets a used frame.
* `regions_iff`: the frames that a region covers in part. `pmm_init_region` and `pmm_deinit_region`
  round base and size down, both of them, so the first can free a frame that begins before the
  region, and the second leaves out the last frames.
-/

namespace Hashx86
namespace Pmm

open Lib

/-! ## The searches -/

/-- The result of a search is the least index in `P`, or none when there is none. -/
def Least (P : Nat → Prop) : Option Nat → Prop
  | some f => P f ∧ ∀ g, P g → f ≤ g
  | none => ∀ g, ¬ P g

theorem Least.unique {P : Nat → Prop} {r s : Option Nat} (hr : Least P r) (hs : Least P s) :
    r = s := by
  cases r with
  | none =>
    cases s with
    | none => rfl
    | some g => exact absurd hs.1 (hr g)
  | some f =>
    cases s with
    | none => exact absurd hr.1 (hs f)
    | some g => rw [Nat.le_antisymm (hr.2 g hs.1) (hs.2 f hr.1)]

/-- One index after the other. -/
def plainSearch (P : Nat → Prop) [DecidablePred P] (n : Nat) : Option Nat :=
  (List.range n).find? fun f => decide (P f)

theorem least_plainSearch (P : Nat → Prop) [DecidablePred P] {n : Nat} (hP : ∀ f, P f → f < n) :
    Least P (plainSearch P n) := by
  unfold plainSearch
  cases h : (List.range n).find? fun f => decide (P f) with
  | none =>
    intro f hf
    have := List.find?_eq_none.mp h f (List.mem_range.mpr (hP f hf))
    exact this (decide_eq_true hf)
  | some f =>
    obtain ⟨hf, as, bs, hsplit, hbefore⟩ := List.find?_eq_some_iff_append.mp h
    refine ⟨of_decide_eq_true hf, fun g hg => ?_⟩
    by_contra hlt
    have hlen : f = as.length := by
      have hget : (List.range n)[as.length]? = some f := by rw [hsplit]; simp
      obtain ⟨_, h2⟩ := List.getElem?_eq_some_iff.mp hget
      simpa using h2.symm
    have hmem : g ∈ as := by
      have hget : (List.range n)[g]? = as[g]? := by
        rw [hsplit, List.getElem?_append_left (by omega)]
      rw [List.getElem?_range (hP g hg)] at hget
      exact List.mem_of_getElem? hget.symm
    simpa [hg] using hbefore g hmem

instance (P : Nat → Prop) [DecidablePred P] (s a : Nat) : Decidable (IsRun P s a) :=
  decidable_of_iff (0 < s ∧ ∀ i, i < s → P (a + i)) <| and_congr_right fun _ =>
    ⟨fun h k h1 h2 => by simpa [Nat.add_sub_cancel' h1] using h (k - a) (by omega),
      fun h i hi => h _ (by omega) (by omega)⟩

instance (p : Info) (limit f : Nat) : Decidable (FreeLow p limit f) :=
  inferInstanceAs (Decidable (_ ∧ _))

theorem least_mmapFirstFreeBySize (p : Info) (size : Nat) :
    Least (IsRun (Free p) size) (mmapFirstFreeBySize p size) := by
  have h := mmapFirstFreeBySize_found p size
  cases hr : mmapFirstFreeBySize p size with
  | none =>
    rw [hr] at h
    exact fun c hc => h c (run_le hc) hc
  | some a =>
    rw [hr] at h
    exact h.2

/-- Each search that skips words gives the least frame, or the least run of `size` frames, that is
free, managed and below its limit, and `none` when there is none: it agrees with the search bit by
bit. -/
theorem searches_plain (p : Info) :
    (Least (Free p) (mmapFirstFree p) ∧
      mmapFirstFree p = plainSearch (Free p) p.maxBlocks) ∧
    (∀ limit, Least (FreeLow p limit) (mmapFirstFreeLow p limit) ∧
      mmapFirstFreeLow p limit = plainSearch (FreeLow p limit) p.maxBlocks) ∧
    ∀ size, Least (IsRun (Free p) size) (mmapFirstFreeBySize p size) ∧
      mmapFirstFreeBySize p size = plainSearch (IsRun (Free p) size) p.maxBlocks := by
  have hfree : Least (Free p) (mmapFirstFree p) := mmapFirstFree_found p
  have hlow (limit : Nat) : Least (FreeLow p limit) (mmapFirstFreeLow p limit) :=
    mmapFirstFreeLow_found p limit
  refine ⟨⟨hfree, hfree.unique ?_⟩, fun limit => ⟨hlow limit, (hlow limit).unique ?_⟩,
    fun size => ⟨least_mmapFirstFreeBySize p size, (least_mmapFirstFreeBySize p size).unique ?_⟩⟩
  · exact least_plainSearch _ fun f hf => hf.1
  · exact least_plainSearch _ fun f hf => hf.1.1
  · refine least_plainSearch _ fun c hc => ?_
    have := run_le hc
    have := hc.1
    omega

/-! ## `pmm_free_blocks` -/

/-- The frame that round `k` of the loop is about. -/
def reached (frame k : Nat) (f : Nat) : Prop := toInt32 (frame + k) = (f : Int)

theorem reached_iff {frame k f : Nat} (hk : frame + k < 2 ^ 33) :
    reached frame k f ↔ f < 2 ^ 31 ∧ (frame + k = f ∨ frame + k = f + 2 ^ 32) := by
  unfold reached toInt32
  split <;> omega

/-- A round whose frame is outside the bitmap, or free, does nothing. -/
theorem freeRun_of_not_test {p : Info} (frame : Nat) {n : Nat} : ∀ i freed,
    (∀ k, i ≤ k → k < i + n → mmapTest p (toInt32 (frame + k)) = false) →
    freeRun p frame n i freed = (p, freed) := by
  induction n with
  | zero => exact fun _ _ _ => rfl
  | succ n ih =>
    intro i freed h
    rw [freeRun, h i (Nat.le_refl i) (by omega), if_neg Bool.false_ne_true]
    exact ih (i + 1) freed fun k h1 h2 => h k (by omega) (by omega)

theorem bit_freeRun (p : Info) (frame n i freed g : Nat) :
    (freeRun p frame n i freed).1.bit g = true ↔ p.bit g = true ∧
      (g < p.maxBlocks → ∀ k, i ≤ k → k < i + n → ¬ reached frame k g) := by
  induction n generalizing p i freed with
  | zero => exact ⟨fun h => ⟨h, fun _ k h1 h2 => by omega⟩, And.left⟩
  | succ n ih =>
    have hsplit (P : Nat → Prop) : (∀ k, i ≤ k → k < i + (n + 1) → P k) ↔
        P i ∧ ∀ k, i + 1 ≤ k → k < i + 1 + n → P k := by
      refine ⟨fun h => ⟨h i (by omega) (by omega), fun k h1 h2 => h k (by omega) (by omega)⟩,
        fun h k h1 h2 => ?_⟩
      obtain rfl | hk := Nat.eq_or_lt_of_le h1
      · exact h.1
      · exact h.2 k hk (by omega)
    rw [freeRun, hsplit]
    by_cases ht : mmapTest p (toInt32 (frame + i)) = true
    · rw [if_pos ht, ih, mmapUnset_maxBlocks]
      obtain ⟨h0, h1, -⟩ := mmapTest_eq_true.mp ht
      obtain ⟨f, hf⟩ := Int.eq_ofNat_of_zero_le h0
      have hr : reached frame i g ↔ g = f := by
        unfold reached
        rw [hf]
        exact ⟨fun h => (Int.ofNat_inj.mp h).symm, fun h => by rw [h]⟩
      rw [hf] at h1 ⊢
      rw [bit_mmapUnset, hr]
      simp only [Int.toNat_natCast] at h1
      by_cases hg : g = f
      · subst hg
        simp [h1]
      · simp [hg]
    · rw [if_neg ht, ih]
      refine and_congr_right fun hb => ⟨fun h hg => ⟨fun hr => ht ?_, h hg⟩, fun h hg => (h hg).2⟩
      rw [hr]
      exact mmapTest_nat_eq_true.mpr ⟨hg, hb⟩

/-- Only frames of the extent are freed, and none when the extent leaves the managed frames. -/
def ClearsExtent (p : Info) (addr size : Nat) : Prop :=
  (∀ f, p.bit f = true → (freeBlocks p addr size).bit f = false →
    addr / 4096 ≤ f ∧ f < addr / 4096 + size) ∧
  (¬ addr / 4096 + size ≤ p.maxBlocks → freeBlocks p addr size = p)

/-- `frame + size` wraps to a sum that passes the check, and the loop meets a used frame: from the
first frame on, or from frame 0 on after the wrap. -/
def Overruns (p : Info) (addr size : Nat) : Prop :=
  addr ≠ 0 ∧ addr % 4096 = 0 ∧ addr / 4096 < p.maxBlocks ∧ 0x100000000 ≤ addr / 4096 + size ∧
  addr / 4096 + size - 0x100000000 ≤ p.maxBlocks ∧
  ∃ f, f < 0x80000000 ∧ f < p.maxBlocks ∧ p.bit f = true ∧
    (addr / 4096 ≤ f ∨ f < addr / 4096 + size - 0x100000000)

theorem withUsed_sub_zero (p : Info) : p.withUsed (sub32 p.usedBlocks 0) = p := by
  rw [sub32_eq (Nat.zero_le _)]
  rfl

/-- A used frame that the loop meets is cleared. -/
theorem Overruns.changes {p : Info} {addr size : Nat} (h : Overruns p addr size)
    (ha : addr < 0x100000000) (hs : size < 0x100000000) : freeBlocks p addr size ≠ p := by
  obtain ⟨h0, h1, h2, h3, h4, f, hf⟩ := h
  intro hsame
  have hbit : (freeBlocks p addr size).bit f = true := by rw [hsame]; exact hf.2.2.1
  unfold freeBlocks at hbit
  rw [if_neg h0, if_neg (by omega)] at hbit
  dsimp only at hbit
  rw [if_neg (by omega), bit_withUsed, bit_freeRun] at hbit
  obtain hle | hlt := hf.2.2.2
  · exact hbit.2 hf.2.1 (f - addr / 4096) (by omega) (by omega)
      ((reached_iff (by omega)).mpr (by omega))
  · exact hbit.2 hf.2.1 (f + 0x100000000 - addr / 4096) (by omega) (by omega)
      ((reached_iff (by omega)).mpr (by omega))

theorem clearsExtent_iff {p : Info} (hp : p.maxBlocks < 0x100000000) {addr size : Nat}
    (ha : addr < 0x100000000) (hs : size < 0x100000000) :
    ClearsExtent p addr size ↔ ¬ Overruns p addr size := by
  by_cases hsame : freeBlocks p addr size = p
  · refine iff_of_true ⟨fun f h1 h2 => ?_, fun _ => hsame⟩ fun h => h.changes ha hs hsame
    rw [hsame, h1] at h2
    cases h2
  · have hguard : addr ≠ 0 ∧ addr % 4096 = 0 ∧
        ¬ (p.maxBlocks ≤ addr / 4096 ∨ p.maxBlocks < (addr / 4096 + size) % 2 ^ 32) := by
      have h0 : addr ≠ 0 := fun h => hsame (by rw [freeBlocks, if_pos h])
      have h1 : ¬ addr % 4096 ≠ 0 := fun h => hsame (by rw [freeBlocks, if_neg h0, if_pos h])
      refine ⟨h0, by omega, fun h => hsame ?_⟩
      rw [freeBlocks, if_neg h0, if_neg h1]
      dsimp only
      rw [if_pos h]
    obtain ⟨h0, h1, h2⟩ := hguard
    have heq : freeBlocks p addr size =
        (freeRun p (addr / 4096) size 0 0).1.withUsed
          (sub32 (freeRun p (addr / 4096) size 0 0).1.usedBlocks
            (freeRun p (addr / 4096) size 0 0).2) := by
      rw [freeBlocks, if_neg h0, if_neg (by omega)]
      dsimp only
      rw [if_neg h2]
    by_cases hw : 0x100000000 ≤ addr / 4096 + size
    · refine iff_of_false (fun h => hsame (h.2 (by omega))) fun h => hsame ?_
      have hrun : freeRun p (addr / 4096) size 0 0 = (p, 0) := by
        refine freeRun_of_not_test _ _ _ fun k _ hk => ?_
        cases ht : mmapTest p (toInt32 (addr / 4096 + k)) with
        | false => rfl
        | true =>
          exfalso
          obtain ⟨h3, h4, h5⟩ := mmapTest_eq_true.mp ht
          obtain ⟨f, hf⟩ := Int.eq_ofNat_of_zero_le h3
          rw [hf, Int.toNat_natCast] at h4 h5
          have := (reached_iff (f := f) (by omega)).mp hf
          exact h ⟨h0, h1, by omega, hw, by omega, f, this.1, h4, h5, by omega⟩
      rw [heq, hrun]
      exact withUsed_sub_zero p
    · refine iff_of_true ⟨fun f hb hc => ?_, fun h => absurd h (by omega)⟩ fun h => hw h.2.2.2.1
      by_contra hout
      have hkept : (freeBlocks p addr size).bit f = true := by
        rw [heq, bit_withUsed, bit_freeRun]
        refine ⟨hb, fun _ k _ hk hr => hout ?_⟩
        have := (reached_iff (by omega)).mp hr
        omega
      rw [hkept] at hc
      cases hc

/-- Four managed frames, all used. -/
def fourUsed : Info where
  memorySize := 0x4000
  maxBlocks := 4
  memoryMapArray := fun _ => 0xffffffff#32
  memoryMapEnd := 0
  usedBlocks := 4

theorem clearsExtent_fourUsed : ClearsExtent fourUsed 0x1000 2 :=
  (clearsExtent_iff (by decide) (by decide) (by decide)).mpr fun h => absurd h.2.2.2.1 (by decide)

/-- `pmm_free_blocks(0x1000, 0xffffffff)`: the sum is 0, and the loop frees frame 1. -/
theorem freeBlocks_overruns : ¬ ClearsExtent fourUsed 0x1000 0xffffffff := fun h =>
  Overruns.changes (p := fourUsed)
    ⟨by decide, by decide, by decide, by decide, by decide, 1, by decide, by decide, by decide,
      .inl (by decide)⟩ (by decide) (by decide) (h.2 (by decide))

/-! ## Regions -/

/-- The frame has a byte of the region. -/
def Overlaps (base size f : Nat) : Prop :=
  0 < size ∧ f * 4096 < base + size ∧ base < (f + 1) * 4096

/-- Every byte of the frame is in the region. -/
def Inside (base size f : Nat) : Prop := base ≤ f * 4096 ∧ (f + 1) * 4096 ≤ base + size

/-- `pmm_init_region` frees only frames inside the region. -/
def FreesInside (p : Info) (base size : Nat) : Prop :=
  ∀ f, Free (initRegion p base size) f → Free p f ∨ Inside base size f

/-- `pmm_deinit_region` leaves no frame free that overlaps the region. -/
def ReservesAll (p : Info) (base size : Nat) : Prop :=
  ∀ f, Overlaps base size f → ¬ Free (deinitRegion p base size) f

/-- The region begins with a frame, or it has no whole block, or its first frame is not there to
be freed. -/
def FirstFits (p : Info) (base size : Nat) : Prop :=
  base % 4096 = 0 ∨ size < 4096 ∨ p.maxBlocks ≤ base / 4096 ∨ Free p (base / 4096)

/-- The frames past the last whole block that overlap the region, two at most, are not free. -/
def RestReserved (p : Info) (base size : Nat) : Prop :=
  ∀ f, base / 4096 + size / 4096 ≤ f → f * 4096 < base + size → 0 < size → ¬ Free p f

theorem freesInside_iff (p : Info) (base size : Nat) :
    FreesInside p base size ↔ FirstFits p base size := by
  unfold FreesInside FirstFits Inside
  refine ⟨fun h => ?_, fun h f hf => ?_⟩
  · by_cases hin : base % 4096 = 0 ∨ size < 4096 ∨ p.maxBlocks ≤ base / 4096
    · tauto
    · have hfree := (free_initRegion p base size (base / 4096)).mpr (.inr (by omega))
      obtain h1 | h1 := h _ hfree
      · exact .inr (.inr (.inr h1))
      · omega
  · obtain h1 | h1 := (free_initRegion p base size f).mp hf
    · exact .inl h1
    · by_cases hfirst : f = base / 4096
      · subst hfirst
        obtain h | h | h | h := h
        · exact .inr (by omega)
        · omega
        · omega
        · exact .inl h
      · exact .inr (by omega)

theorem reservesAll_iff (p : Info) (base size : Nat) :
    ReservesAll p base size ↔ RestReserved p base size := by
  unfold ReservesAll RestReserved Overlaps
  constructor
  · intro h f h1 h2 h3 hf
    exact h f ⟨h3, h2, by omega⟩ ((free_deinitRegion p base size f).mpr ⟨hf, by omega⟩)
  · intro h f ho hf
    obtain ⟨h1, h2⟩ := (free_deinitRegion p base size f).mp hf
    exact h f (by omega) ho.2.1 ho.1 h1

/-- What the two region calls do to the frames that a region covers in part. -/
theorem regions_iff (p : Info) (base size : Nat) :
    (FreesInside p base size ∧ ReservesAll p base size) ↔
      (FirstFits p base size ∧ RestReserved p base size) :=
  and_congr (freesInside_iff p base size) (reservesAll_iff p base size)

/-- Regions of whole frames are handled as wanted in every state. -/
theorem regions_of_aligned (p : Info) {base size : Nat} (hb : base % 4096 = 0)
    (hs : size % 4096 = 0) : FreesInside p base size ∧ ReservesAll p base size :=
  ⟨(freesInside_iff p base size).mpr (.inl hb),
    (reservesAll_iff p base size).mpr fun f h1 h2 _ _ => by omega⟩

/-- The region `0x800 .. 0x1800`: the first call frees frame 0, which begins before it, and the
second leaves frame 1 free. -/
theorem region_half_frames :
    ¬ FreesInside fourUsed 0x800 0x1000 ∧
      ¬ ReservesAll (initRegion fourUsed 0 0x4000) 0x800 0x1000 := by
  refine ⟨fun h => ?_, fun h => ?_⟩
  · have := (freesInside_iff fourUsed 0x800 0x1000).mp h
    revert this
    unfold FirstFits
    decide
  · have := (reservesAll_iff _ 0x800 0x1000).mp h 1 (by decide) (by decide) (by decide)
    exact this ((free_initRegion _ _ _ _).mpr (.inr (by decide)))

end Pmm
end Hashx86
