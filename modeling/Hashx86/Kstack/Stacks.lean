import Hashx86.Kstack.Spec
import Hashx86.Lib.Run
import Hashx86.Paging.Defs

/-!
# The live kernel stacks

`World` is the zone with the stacks that are live: handed out by `kstack_alloc` and not given back
since. A call of `kstack_free` may get any number. `Inv` ties the list of live stacks to the slot
bitmap and the counter; `stacks_run` is the result for whole runs from `kstack_init`:

* the counter is the number of set bits;
* the live stacks are disjoint, lie inside the zone and have no guard page in them;
* `kstack_alloc` fails exactly when every slot is live;
* `kstack_free` of anything else than a live stack changes nothing.
-/

namespace Hashx86
namespace Kstack

open Lib Paging

/-! ## Guard pages -/

/-- The page below the stack of slot `s`. -/
def guardPage (z : Zone) (s : Nat) : Nat := z.base + s * slotSize

/-- The guard pages of all slots. -/
def guardPages (z : Zone) : List Nat := (List.range z.slotCount).map (guardPage z)

/-- The body of the loop of `kstack_zone_activate`: the page is not mapped any more. -/
def armGuard (directory : Nat) (m : Machine) (guard : Nat) : Machine :=
  let pde := m.entry directory (pdIdx guard)
  if !present pde then m else m.setEntry (frameAddr pde) (ptIdx guard) 0

/-- `kstack_zone_activate`. -/
def kstackZoneActivate (m : Machine) (z : Zone) (directory : Nat) : Machine :=
  if directory = 0 ∨ !z.ready then m else (guardPages z).foldl (armGuard directory) m

/-- `kstack_is_guard_page`. -/
def kstackIsGuardPage (z : Zone) (addr : Nat) : Bool :=
  if !z.ready then false
  else if addr < z.base ∨ z.stop ≤ addr then false
  else decide ((addr - z.base) % slotSize < guardSize)

/-! ## Runs -/

/-- The zone and the stacks that are live. -/
structure World where
  zone : Zone
  live : List Nat

inductive Op where
  | alloc
  | free (stack : Nat)

/-- The zone and the live stacks after a call. -/
def kstep (w : World) : Op → World
  | .alloc =>
    let r := kstackAlloc w.zone
    ⟨r.2, if r.1 = 0 then w.live else r.1 :: w.live⟩
  | .free stack => ⟨kstackFree w.zone stack, w.live.erase stack⟩

/-- The set bits of `g_slotBitmap`, which has 16 words. -/
def setSlots (z : Zone) : Nat := countBits (slotInUse z) 512

/-- Two stacks have no byte in common. -/
def Apart (a b : Nat) : Prop := a + kernelStackSize ≤ b ∨ b + kernelStackSize ≤ a

structure Good (w : World) : Prop where
  counter : w.zone.inUse = setSlots w.zone
  inside : ∀ a ∈ w.live, w.zone.base ≤ a ∧ a + kernelStackSize ≤ w.zone.stop
  apart : w.live.Pairwise Apart
  guarded : ∀ a ∈ w.live, ∀ g ∈ guardPages w.zone, g + pageSize ≤ a ∨ a + kernelStackSize ≤ g
  notGuard : ∀ a ∈ w.live, ∀ x, a ≤ x → x < a + kernelStackSize →
    kstackIsGuardPage w.zone x = false

/-- The answer to a call is right: `kstack_alloc` fails exactly when all slots are live, and then
changes nothing, like a `kstack_free` of what is not a live stack (`freed` is the ghost). -/
def Answered (w : World) : Op → Prop
  | .alloc => ((kstackAlloc w.zone).1 = 0 ↔ w.live.length = w.zone.slotCount) ∧
      ((kstackAlloc w.zone).1 = 0 → (kstackAlloc w.zone).2 = w.zone)
  | .free stack => stack ∉ w.live →
      kstackFree w.zone stack = { w.zone with freed := (kstackFree w.zone stack).freed }

/-! ## The invariant -/

/-- The stack of slot `i`. -/
def stackAddr (z : Zone) (i : Nat) : Nat := z.base + i * slotSize + guardSize

structure Inv (w : World) : Prop where
  ready : w.zone.ready = true
  count_le : w.zone.slotCount ≤ 512
  zone : ZoneOk w.zone
  bit_iff : ∀ i, slotInUse w.zone i = true ↔ i < w.zone.slotCount ∧ stackAddr w.zone i ∈ w.live
  slot : ∀ a ∈ w.live, ∃ i, i < w.zone.slotCount ∧ a = stackAddr w.zone i
  nodup : w.live.Nodup
  inUse_eq : w.zone.inUse = countBits (slotInUse w.zone) w.zone.slotCount
  length_eq : w.live.length = w.zone.inUse

theorem stackAddr_inj {z : Zone} {i j : Nat} (h : stackAddr z i = stackAddr z j) : i = j := by
  unfold stackAddr slotSize at h
  omega

theorem stackAddr_ne_zero (z : Zone) (i : Nat) : stackAddr z i ≠ 0 := by
  unfold stackAddr guardSize
  omega

/-- Two slots are at least a slot apart. -/
theorem stackAddr_apart (z : Zone) {i j : Nat} (h : i ≠ j) :
    stackAddr z i + slotSize ≤ stackAddr z j ∨ stackAddr z j + slotSize ≤ stackAddr z i := by
  unfold stackAddr slotSize
  omega

theorem slotInUse_slotSet (z : Zone) (i j n : Nat) :
    slotInUse { slotSet z i with inUse := n } j = true ↔ j = i ∨ slotInUse z j = true := by
  rw [slotInUse_eq, slotInUse_eq]
  have h := bitAt_setBit z.slotBitmap (by decide) i j
  unfold bitAt at h
  unfold slotSet
  rw [h, Bool.or_eq_true, decide_eq_true_eq]

theorem slotInUse_slotClear (z : Zone) (i j n : Nat) :
    slotInUse { slotClear z i with inUse := n } j = true ↔ j ≠ i ∧ slotInUse z j = true := by
  rw [slotInUse_eq, slotInUse_eq]
  have h := bitAt_clearBit z.slotBitmap (by decide) i j
  unfold bitAt at h
  unfold slotClear
  rw [h, Bool.and_eq_true, Bool.not_eq_true', decide_eq_false_iff_not]

/-! ## The search of `kstack_alloc` -/

/-- Slot `i` can be handed out. -/
def Vacant (z : Zone) (i : Nat) : Prop := i < z.slotCount ∧ slotInUse z i = false

theorem freeSlotBits_found (z : Zone) (w : Nat) {n b : Nat} (hn : n + b = 32) :
    Found (Vacant z) (w * 32 + b) ((w + 1) * 32) (freeSlotBits z w n b) := by
  induction n generalizing b with
  | zero => exact Found.empty (by omega)
  | succ n ih =>
    unfold freeSlotBits
    split
    · intro g h1 _ hv
      have := hv.1
      omega
    · split
      · rename_i hu
        have hnv : ¬ Vacant z (w * 32 + b) := fun hv => by rw [hv.2] at hu; cases hu
        exact (Found.skip hnv).append (ih (by omega)) (by omega)
      · rename_i hc hu
        exact Found.hit (by omega) ⟨by omega, by simpa using hu⟩

/-- No slot of a full word is vacant. -/
theorem not_vacant_of_full {z : Zone} {w g : Nat} (hw : z.slotBitmap w = 0xffffffff#32)
    (h1 : w * 32 ≤ g) (h2 : g < (w + 1) * 32) : ¬ Vacant z g := by
  intro hv
  have hg := hv.2
  rw [slotInUse_eq, show g / 32 = w by omega, hw] at hg
  have hlt : g % 32 < 32 := Nat.mod_lt _ (by decide)
  have hone : (0xffffffff#32).getLsbD (g % 32) = true := by
    rw [show (0xffffffff#32) = BitVec.allOnes 32 from rfl, BitVec.getLsbD_allOnes]
    simpa using hlt
  rw [hone] at hg
  cases hg

theorem freeSlotWords_found (z : Zone) (n w : Nat) :
    Found (Vacant z) (w * 32) ((w + n) * 32) (freeSlotWords z n w) := by
  induction n generalizing w with
  | zero => exact Found.empty (by omega)
  | succ n ih =>
    have hnext : Found (Vacant z) ((w + 1) * 32) ((w + (n + 1)) * 32)
        (freeSlotWords z n (w + 1)) := by
      have := ih (w + 1)
      rwa [show w + 1 + n = w + (n + 1) by omega] at this
    unfold freeSlotWords
    split
    · rename_i hfull
      have hskip : Found (Vacant z) (w * 32) ((w + 1) * 32) none := fun g h1 h2 =>
        not_vacant_of_full hfull h1 h2
      exact hskip.append hnext (by omega)
    · have hw := freeSlotBits_found z w (n := 32) (b := 0) rfl
      cases hb : freeSlotBits z w 32 0 with
      | some idx => rw [hb] at hw; exact hw.widen (by omega)
      | none => rw [hb] at hw; exact hw.append hnext (by omega)

/-- `kstack_alloc` on a zone that is ready: all slots are used, or a vacant one is handed out. -/
theorem kstackAlloc_spec {z : Zone} (hr : z.ready = true)
    (hu : z.inUse = countBits (slotInUse z) z.slotCount) :
    (kstackAlloc z = (0, z) ∧ z.inUse = z.slotCount) ∨
    ∃ i, Vacant z i ∧ z.inUse < z.slotCount ∧
      kstackAlloc z = (stackAddr z i, { slotSet z i with inUse := z.inUse + 1 }) := by
  have hle : z.inUse ≤ z.slotCount := hu ▸ countBits_le _ _
  unfold kstackAlloc
  rw [if_neg (by simp [hr])]
  by_cases hfull : z.slotCount ≤ z.inUse
  · rw [if_pos hfull]
    exact .inl ⟨rfl, Nat.le_antisymm hle hfull⟩
  · rw [if_neg hfull]
    have hfound := freeSlotWords_found z ((z.slotCount + 31) / 32) 0
    cases hs : freeSlotWords z ((z.slotCount + 31) / 32) 0 with
    | some i =>
      rw [hs] at hfound
      exact .inr ⟨i, hfound.2.2.1, by omega, rfl⟩
    | none =>
      rw [hs] at hfound
      obtain ⟨i, hi, hc⟩ := countBits_lt_iff.mp (show countBits (slotInUse z) z.slotCount <
        z.slotCount by omega)
      exact absurd ⟨hi, hc⟩ (hfound i (by omega) (by omega))

/-! ## `kstack_free` -/

/-- `kstack_free` releases the slot of a stack that is in use, and does nothing else. -/
theorem releaseSlot_spec {z : Zone} (hz : ZoneOk z) (hr : z.ready = true) (stack : Nat) :
    (∃ i, i < z.slotCount ∧ slotInUse z i = true ∧ stack = stackAddr z i ∧
      releaseSlot z stack = { slotClear z i with inUse := sub32 z.inUse 1 }) ∨
    ((∀ i, i < z.slotCount → slotInUse z i = true → stack ≠ stackAddr z i) ∧
      releaseSlot z stack = z) := by
  by_cases h : ∃ i, i < z.slotCount ∧ slotInUse z i = true ∧ stack = stackAddr z i
  · obtain ⟨i, hi, hu, rfl⟩ := h
    exact .inl ⟨i, hi, hu, rfl, releaseSlot_eq hz hr hi hu⟩
  · refine .inr ⟨fun i hi hu e => h ⟨i, hi, hu, e⟩, ?_⟩
    unfold releaseSlot
    dsimp only
    split
    · rfl
    split
    · rfl
    split
    · rfl
    split
    · rfl
    split
    · rfl
    · rename_i h1 h2 h3 h4
      refine absurd ⟨_, Nat.lt_of_not_le h3, by simpa using h4, ?_⟩ h
      unfold stackAddr
      have := Nat.div_mul_cancel (Nat.dvd_of_mod_eq_zero (not_not.mp h2))
      unfold guardSize at *
      omega

/-! ## The steps -/

theorem inv_kstep {w : World} (h : Inv w) (op : Op) : Inv (kstep w op) := by
  obtain ⟨z, live⟩ := w
  obtain ⟨hr, hc, hz, hbit, hslot, hnodup, hu, hlen⟩ := h
  dsimp only at hr hc hz hbit hslot hnodup hu hlen
  cases op with
  | alloc =>
    unfold kstep
    dsimp only
    rcases kstackAlloc_spec hr hu with ⟨e, -⟩ | ⟨i, ⟨hi, hfree⟩, hlt, e⟩
    · rw [e]
      exact ⟨hr, hc, hz, hbit, hslot, hnodup, hu, hlen⟩
    · rw [e]
      dsimp only
      rw [if_neg (stackAddr_ne_zero z i)]
      have hnew : stackAddr z i ∉ live := fun hm => by
        rw [(hbit i).mpr ⟨hi, hm⟩] at hfree
        cases hfree
      refine ⟨hr, hc, hz, fun j => ?_, fun a ha => ?_, List.nodup_cons.mpr ⟨hnew, hnodup⟩, ?_, ?_⟩
      · rw [slotInUse_slotSet, hbit, List.mem_cons]
        change _ ↔ j < z.slotCount ∧ (stackAddr z j = stackAddr z i ∨ stackAddr z j ∈ live)
        constructor
        · rintro (rfl | ⟨h1, h2⟩)
          · exact ⟨hi, .inl rfl⟩
          · exact ⟨h1, .inr h2⟩
        · rintro ⟨h1, h2 | h2⟩
          · exact .inl (stackAddr_inj h2)
          · exact .inr ⟨h1, h2⟩
      · rcases List.mem_cons.mp ha with rfl | ha
        · exact ⟨i, hi, rfl⟩
        · exact hslot a ha
      · change z.inUse + 1 = countBits _ z.slotCount
        rw [hu]
        refine (countBits_set hi hfree ((slotInUse_slotSet z i i _).mpr (.inl rfl)) ?_).symm
        intro k hk
        rw [Bool.eq_iff_iff, slotInUse_slotSet]
        exact or_iff_right hk
      · rw [List.length_cons, hlen]
  | free stack =>
    unfold kstep kstackFree
    dsimp only
    split
    · rename_i h0
      have hm : stack ∉ live := fun hm => by
        obtain ⟨i, -, e⟩ := hslot stack hm
        exact stackAddr_ne_zero z i (e ▸ h0)
      rw [List.erase_of_not_mem hm]
      exact ⟨hr, hc, hz, hbit, hslot, hnodup, hu, hlen⟩
    · rcases releaseSlot_spec hz hr stack with ⟨i, hi, hused, rfl, e⟩ | ⟨hno, e⟩
      · rw [e]
        have hm := ((hbit i).mp hused).2
        have hpos : 0 < z.inUse := hlen ▸ List.length_pos_of_mem hm
        refine ⟨hr, hc, hz, fun j => ?_, fun a ha => hslot a (List.mem_of_mem_erase ha),
          hnodup.erase _, ?_, ?_⟩
        · refine (slotInUse_slotClear z i j (sub32 z.inUse 1)).trans ?_
          rw [hbit, hnodup.mem_erase_iff]
          change _ ↔ j < z.slotCount ∧ stackAddr z j ≠ stackAddr z i ∧ stackAddr z j ∈ live
          constructor
          · rintro ⟨h1, h2, h3⟩
            exact ⟨h2, fun e => h1 (stackAddr_inj e), h3⟩
          · rintro ⟨h1, h2, h3⟩
            exact ⟨fun e => h2 (e ▸ rfl), h1, h3⟩
        · change sub32 z.inUse 1 = countBits _ z.slotCount
          rw [sub32_eq hpos, hu]
          have hclear := countBits_clear (n := z.slotCount) hi hused
            (show slotInUse { slotClear z i with inUse := sub32 z.inUse 1 } i = false by
              rw [← Bool.not_eq_true, slotInUse_slotClear]
              exact fun h => h.1 rfl)
            (fun k hk => by
              rw [Bool.eq_iff_iff, slotInUse_slotClear]
              exact and_iff_right hk)
          rw [hclear, Nat.add_sub_cancel]
          rfl
        · change (live.erase (stackAddr z i)).length = sub32 z.inUse 1
          rw [List.length_erase_of_mem hm, hlen, sub32_eq hpos]
      · have hm : stack ∉ live := fun hm => by
          obtain ⟨i, hi, rfl⟩ := hslot stack hm
          exact hno i hi ((hbit i).mpr ⟨hi, hm⟩) rfl
        rw [e, List.erase_of_not_mem hm]
        exact ⟨hr, hc, hz, hbit, hslot, hnodup, hu, hlen⟩

theorem Inv.answered {w : World} (h : Inv w) (op : Op) : Answered w op := by
  cases op with
  | alloc =>
    unfold Answered
    rw [h.length_eq]
    rcases kstackAlloc_spec h.ready h.inUse_eq with ⟨e, hu⟩ | ⟨i, -, hlt, e⟩
    · rw [e]
      exact ⟨iff_of_true rfl hu, fun _ => rfl⟩
    · rw [e]
      have h0 := stackAddr_ne_zero w.zone i
      exact ⟨iff_of_false h0 (by omega), fun h => absurd h h0⟩
  | free stack =>
    intro hm
    unfold kstackFree
    split
    · rfl
    · rcases releaseSlot_spec h.zone h.ready stack with ⟨i, hi, hu, rfl, -⟩ | ⟨-, e⟩
      · exact absurd ((h.bit_iff i).mp hu).2 hm
      · rw [e]

theorem Inv.good {w : World} (h : Inv w) : Good w where
  counter := by
    rw [h.inUse_eq]
    refine (countBits_tail h.count_le fun k hk => ?_).symm
    rw [← Bool.not_eq_true, h.bit_iff]
    omega
  inside a ha := by
    obtain ⟨i, hi, rfl⟩ := h.slot a ha
    have hz := h.zone
    have hle : (i + 1) * slotSize ≤ w.zone.slotCount * slotSize := Nat.mul_le_mul_right _ hi
    unfold ZoneOk at hz
    unfold stackAddr slotSize guardSize kernelStackSize at *
    omega
  apart := by
    refine h.nodup.imp_of_mem fun {a b} ha hb hab => ?_
    obtain ⟨i, -, rfl⟩ := h.slot a ha
    obtain ⟨j, -, rfl⟩ := h.slot b hb
    have := stackAddr_apart w.zone (fun e : i = j => hab (e ▸ rfl))
    unfold Apart
    unfold kernelStackSize slotSize at *
    omega
  guarded a ha g hg := by
    obtain ⟨i, -, rfl⟩ := h.slot a ha
    obtain ⟨s, -, rfl⟩ := List.mem_map.mp hg
    unfold stackAddr guardPage slotSize guardSize pageSize kernelStackSize
    omega
  notGuard a ha x h1 h2 := by
    obtain ⟨i, -, rfl⟩ := h.slot a ha
    unfold kstackIsGuardPage
    split
    · rfl
    split
    · rfl
    · unfold stackAddr slotSize guardSize kernelStackSize at *
      rw [decide_eq_false_iff_not]
      omega

/-- What `kstack_init` sets up. -/
theorem inv_kstackInit {z z' : Zone} {p p' : Pmm.Info} {availEnd : Nat} (hr : z.ready = false)
    (h : kstackInit z p availEnd = some (z', p')) : Inv ⟨z', []⟩ := by
  have hz := zoneOk_kstackInit hr h
  unfold kstackInit at h
  rw [hr] at h
  cases hc : clampSize availEnd with
  | none => simp [hc] at h
  | some size =>
    simp only [hc, Bool.false_eq_true, ↓reduceIte, Option.some.injEq, Prod.mk.injEq] at h
    have hcount : z'.slotCount = size / slotSize := by rw [← h.1]
    have hclear : ∀ i, slotInUse z' i = false := fun i => by
      rw [slotInUse_eq, ← h.1]
      exact BitVec.getLsbD_zero
    have hsize := (clampSize_spec hc).2.1
    unfold zoneSize at hsize
    refine ⟨by rw [← h.1], ?_, hz, fun i => ?_, fun a ha => absurd ha List.not_mem_nil,
      List.nodup_nil, ?_, ?_⟩
    · change z'.slotCount ≤ 512
      rw [hcount]
      unfold slotSize
      omega
    · rw [hclear]
      exact iff_of_false (by simp) fun h => by cases h.2
    · have hzero := countBits_tail (Nat.zero_le z'.slotCount) fun k _ => hclear k
      change z'.inUse = countBits _ _
      rw [hzero, ← h.1]
      rfl
    · change 0 = z'.inUse
      rw [← h.1]

/-- In every run from a successful `kstack_init`, with any pointers given to `kstack_free`, the live
stacks are good and every call is answered right. -/
theorem stacks_run {z z' : Zone} {p p' : Pmm.Info} {availEnd : Nat} (hr : z.ready = false)
    (h : kstackInit z p availEnd = some (z', p')) (ops : List Op) :
    Good (run kstep ⟨z', []⟩ ops) ∧ Along kstep Answered ⟨z', []⟩ ops := by
  have hinv := inv_kstackInit hr h
  have hall := along_true kstep ⟨z', []⟩ ops
  have hstep : ∀ w op, Inv w → True → Inv (kstep w op) := fun w op h _ => inv_kstep h op
  exact ⟨(run_inv hstep hinv hall).good,
    Along.of_inv (fun w op h _ => ⟨inv_kstep h op, h.answered op⟩) hinv hall⟩

/-- The full zone: two stacks are taken, a pointer into the first and a forged one are given back,
and the second stack, twice. -/
theorem stacks_run_full_zone :
    ∃ r, kstackInit .empty (Pmm.init (fun _ => 0) 0x9000 0x8000) 0x10000000 = some r ∧
      Good (run kstep ⟨r.1, []⟩ [.alloc, .alloc, .free 0x0E001010, .free 5, .free 0x0E012000,
        .free 0x0E012000, .alloc]) := by
  obtain ⟨r, h⟩ : ∃ r, kstackInit .empty (Pmm.init (fun _ => 0) 0x9000 0x8000) 0x10000000 = some r :=
    ⟨_, rfl⟩
  exact ⟨r, h, (stacks_run rfl h _).1⟩

end Kstack
end Hashx86
