import Hashx86.Kstack.Defs
import Hashx86.Lib.Bitmap

/-!
# A kernel stack that is taken and given back

`ZoneOk z` says that the slots lie inside the zone; `kstack_init` establishes it. Under it,
`kstack_free` of a stack that `kstack_alloc` just returned restores the zone exactly
(`kstackFree_kstackAlloc`).
-/

namespace Hashx86
namespace Kstack

open Lib

/-- The slots lie inside the zone. -/
def ZoneOk (z : Zone) : Prop := z.base + z.slotCount * slotSize ≤ z.stop

theorem slotInUse_eq (z : Zone) (idx : Nat) :
    slotInUse z idx = (z.slotBitmap (idx / 32)).getLsbD (idx % 32) := by
  unfold slotInUse
  generalize z.slotBitmap (idx / 32) = w
  have hi : idx % 32 < 32 := Nat.mod_lt _ (by decide)
  generalize idx % 32 = i at hi
  have h : (w >>> i &&& 1#32 = 1#32) ↔ w.getLsbD i = true := by
    constructor
    · intro he
      have h0 := congrArg (fun x : BitVec 32 => x.getLsbD 0) he
      simpa using h0
    · intro hb
      ext j hj
      by_cases h0 : j = 0
      · subst h0; simpa using hb
      · simp [h0]
  by_cases hb : w.getLsbD i = true
  · rw [hb]; simpa using h.mpr hb
  · rw [Bool.not_eq_true] at hb
    rw [hb, beq_eq_false_iff_ne]
    exact fun he => by rw [h.mp he] at hb; cases hb

/-- The search of `kstack_alloc` finds a slot that is not in use. -/
theorem freeSlotBits_some {z : Zone} {w n b idx : Nat} (h : freeSlotBits z w n b = some idx) :
    idx < z.slotCount ∧ slotInUse z idx = false := by
  induction n generalizing b with
  | zero => cases h
  | succ n ih =>
    unfold freeSlotBits at h
    split at h
    · cases h
    · split at h
      · exact ih h
      · rename_i h1 h2
        obtain rfl := Option.some.inj h
        exact ⟨by omega, by simpa using h2⟩

theorem freeSlotWords_some {z : Zone} {n w idx : Nat} (h : freeSlotWords z n w = some idx) :
    idx < z.slotCount ∧ slotInUse z idx = false := by
  induction n generalizing w with
  | zero => cases h
  | succ n ih =>
    unfold freeSlotWords at h
    split at h
    · exact ih h
    · split at h
      · rename_i hb
        obtain rfl := Option.some.inj h
        exact freeSlotBits_some hb
      · exact ih h

/-- The two outcomes of `kstack_alloc`. -/
theorem kstackAlloc_cases (z : Zone) :
    kstackAlloc z = (0, z) ∨
    ∃ idx, z.ready = true ∧ idx < z.slotCount ∧ slotInUse z idx = false ∧
      kstackAlloc z =
        (z.base + idx * slotSize + guardSize, { slotSet z idx with inUse := z.inUse + 1 }) := by
  unfold kstackAlloc
  split
  · exact .inl rfl
  · split
    · exact .inl rfl
    · cases hs : freeSlotWords z ((z.slotCount + 31) / 32) 0 with
      | none => exact .inl rfl
      | some idx =>
        obtain ⟨h1, h2⟩ := freeSlotWords_some hs
        rename_i hr _
        exact .inr ⟨idx, by simpa using hr, h1, h2, rfl⟩

/-- Setting a clear bit and clearing it again. -/
theorem set_clear_bit {w : BitVec 32} {i : Nat} (h : w.getLsbD i = false) :
    (w ||| (1#32 <<< i)) &&& ~~~(1#32 <<< i) = w := by
  ext j hj
  by_cases hji : j = i
  · subst hji
    rw [BitVec.getLsbD_eq_getElem hj] at h
    simp [h]
  · simp only [BitVec.getElem_and, BitVec.getElem_or, BitVec.getElem_not, BitVec.getElem_shiftLeft,
      BitVec.getElem_one]
    have : j - i ≠ 0 ∨ j < i := by omega
    rcases this with h0 | h0 <;> simp [h0]

/-- `kstack_free` of a slot that is in use. -/
theorem releaseSlot_eq {z : Zone} {idx : Nat} (hz : ZoneOk z) (hr : z.ready = true)
    (hi : idx < z.slotCount) (hu : slotInUse z idx = true) :
    releaseSlot z (z.base + idx * slotSize + guardSize) =
      { slotClear z idx with inUse := sub32 z.inUse 1 } := by
  unfold ZoneOk at hz
  have hle : (idx + 1) * slotSize ≤ z.slotCount * slotSize := Nat.mul_le_mul_right _ hi
  have hgs : guardSize < slotSize := by decide
  have hoff : z.base + idx * slotSize + guardSize - z.base - guardSize = idx * slotSize := by omega
  have hdiv : idx * slotSize / slotSize = idx := Nat.mul_div_cancel _ (by decide)
  rw [Nat.add_mul, Nat.one_mul] at hle
  unfold releaseSlot
  rw [if_neg (by simp [hr]), if_neg (by omega)]
  simp only [hoff, hdiv]
  rw [if_neg (by simp), if_neg (by omega), if_neg (by simp [hu])]

/-- `kstack_free` of the stack that `kstack_alloc` returned gives the old zone. -/
theorem kstackFree_kstackAlloc {z : Zone} (hz : ZoneOk z) (h0 : (kstackAlloc z).1 ≠ 0) :
    kstackFree (kstackAlloc z).2 (kstackAlloc z).1 =
      { z with freed := (kstackAlloc z).1 :: z.freed } := by
  rcases kstackAlloc_cases z with e | ⟨idx, hr, hi, hu, e⟩
  · rw [e] at h0
    exact absurd rfl h0
  · obtain ⟨z', hz'⟩ : ∃ z', z' = { slotSet z idx with inUse := z.inUse + 1 } := ⟨_, rfl⟩
    rw [e, ← hz'] at h0 ⊢
    have hset : slotInUse z' idx = true := by
      rw [slotInUse_eq, hz']
      simp [slotSet, Nat.mod_lt]
    have hrel : releaseSlot z' (z.base + idx * slotSize + guardSize) =
        { slotClear z' idx with inUse := sub32 z'.inUse 1 } := by
      have hb : z'.base = z.base := by rw [hz']; rfl
      rw [← hb]
      exact releaseSlot_eq (by rw [hz']; exact hz) (by rw [hz']; exact hr) (by rw [hz']; exact hi) hset
    rw [slotInUse_eq] at hu
    unfold kstackFree
    rw [if_neg h0, hrel, hz']
    simp only [slotClear, slotSet, Function.update_self, Function.update_idem, set_clear_bit hu,
      Function.update_eq_self]
    rw [sub32_eq (by omega), Nat.add_sub_cancel]

theorem zoneOk_kstackAlloc {z : Zone} (hz : ZoneOk z) : ZoneOk (kstackAlloc z).2 := by
  rcases kstackAlloc_cases z with e | ⟨idx, -, -, -, e⟩
  · rwa [e]
  · rw [e]; exact hz

theorem zoneOk_kstackFree {z : Zone} (hz : ZoneOk z) (stack : Nat) : ZoneOk (kstackFree z stack) := by
  have h : ZoneOk (releaseSlot z stack) := by
    unfold releaseSlot
    dsimp only
    repeat' split
    all_goals exact hz
  unfold kstackFree
  split
  · exact hz
  · exact h

theorem zoneCap_le (availEnd : Nat) :
    zoneCap availEnd ≤ availEnd ∧ zoneCap availEnd ≤ 0x10000000 := by
  unfold zoneCap
  split <;> omega

theorem clampSize_spec {availEnd size : Nat} (h : clampSize availEnd = some size) :
    zoneMinSize ≤ size ∧ size ≤ zoneSize ∧ zoneBase + size ≤ availEnd ∧ size % 4096 = 0 := by
  have hcap := zoneCap_le availEnd
  unfold clampSize at h
  dsimp only at h
  unfold zoneBase zoneSize zoneMinSize slotSize at *
  split at h
  · split at h
    · cases h
    · split at h
      · cases h
      · obtain rfl := Option.some.inj h
        omega
  · obtain rfl := Option.some.inj h
    omega

/-- The zone that `kstack_init` sets up. -/
theorem zoneOk_kstackInit {z z' : Zone} {p p' : Pmm.Info} {availEnd : Nat} (hr : z.ready = false)
    (h : kstackInit z p availEnd = some (z', p')) : ZoneOk z' := by
  unfold kstackInit at h
  rw [hr] at h
  cases hc : clampSize availEnd with
  | none => simp [hc] at h
  | some size =>
    simp only [hc, Bool.false_eq_true, ↓reduceIte, Option.some.injEq, Prod.mk.injEq] at h
    obtain ⟨rfl, -⟩ := h
    exact Nat.add_le_add_left (Nat.div_mul_le_self _ _) _

end Kstack
end Hashx86
