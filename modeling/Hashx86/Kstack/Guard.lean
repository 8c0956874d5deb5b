import Hashx86.Kstack.Spec
import Hashx86.Kstack.Stacks
import Hashx86.Paging.Activate

/-!
# The guard pages of the kernel stacks

`kstack_zone_activate` goes through the slots and unmaps the page below each stack;
`kstack_is_guard_page` takes the offset of an address in the zone modulo the size of a slot.

* `armGuards_spec`: the loop clears the entries of the guard pages and no other.
* `unmaps_iff`: the pages that it unmaps are the guard pages of the slots.
* `isGuardPage_iff`: the offsets that the test accepts.
* `guard_page_iff`: the two agree but for one page. A zone of the full size is no multiple of the
  slot size: the test also accepts the first page behind the last slot.
-/

namespace Hashx86
namespace Kstack

open Lib Paging

/-! ## What the two sides say -/

/-- `kstack_zone_activate` unmaps the page of the address in the kernel's directory. -/
def Unmaps (m : Machine) (z : Zone) (addr : Nat) : Prop :=
  present (pte m m.kernelPageDirectory (pdIdx addr) (ptIdx addr)) = true ∧
    present (pte (kstackZoneActivate m z m.kernelPageDirectory) m.kernelPageDirectory (pdIdx addr)
      (ptIdx addr)) = false

/-- The address lies in the guard page of a slot. -/
def InGuard (z : Zone) (addr : Nat) : Prop :=
  ∃ s < z.slotCount, guardPage z s ≤ addr ∧ addr < guardPage z s + guardSize

/-- The zone is not clamped, and the address lies in the page behind its 481 slots. -/
def BehindSlots (availEnd addr : Nat) : Prop :=
  0x10000000 ≤ availEnd ∧ zoneBase + 481 * slotSize ≤ addr ∧
    addr < zoneBase + 481 * slotSize + guardSize

/-! ## Arming -/

section arm

variable {m : Machine} {table : Nat → Nat}

/-- One entry of one table of the kernel is cleared. -/
theorem armGuard_spec (h : KernelMap m table) {g : Nat} (hg : g < zoneBase + zoneSize) :
    KernelMap (armGuard m.kernelPageDirectory m g) table ∧
      (armGuard m.kernelPageDirectory m g).kernelPageDirectory = m.kernelPageDirectory ∧
      ∀ i < 1024, kernelIdx i → ∀ j < 1024,
        (armGuard m.kernelPageDirectory m g).entry (table i) j =
          if pdIdx g = i ∧ ptIdx g = j then 0 else m.entry (table i) j := by
  have hpd : pdIdx g < 1024 ∧ kernelIdx (pdIdx g) = true := by
    unfold zoneBase zoneSize at hg
    unfold kernelIdx pdIdx
    simp
    omega
  obtain ⟨hi, hk⟩ := hpd
  have hj := ptIdx_lt g
  have hmod := h.aligned _ hi hk
  have hne := h.notDir _ hi hk
  have harm : armGuard m.kernelPageDirectory m g = m.setEntry (table (pdIdx g)) (ptIdx g) 0 := by
    unfold armGuard
    dsimp only
    rw [h.present_entry hi hk, h.frameAddr_entry hi hk]
    rfl
  rw [harm]
  have hdir : ∀ i < 1024, (m.setEntry (table (pdIdx g)) (ptIdx g) 0).entry m.kernelPageDirectory i =
      m.entry m.kernelPageDirectory i := fun i hi' =>
    Machine.entry_setEntry_of_ne 0 hmod h.dir.2 hj hi' (.inl hne.symm)
  refine ⟨⟨h.dir, fun i hi' hk' => (hdir i hi').trans (h.entry i hi' hk'), h.aligned, h.notDir, h.inj,
    fun i hi' hk' => (hdir i hi').trans (h.empty i hi' hk')⟩, rfl, fun i hi' hk' j hj' => ?_⟩
  rw [Machine.entry_setEntry (by decide) hmod (h.aligned i hi' hk') hj hj']
  refine if_congr ?_ rfl rfl
  constructor
  · rintro ⟨ht, rfl⟩
    exact ⟨h.inj _ hi hk _ hi' hk' ht.symm, rfl⟩
  · rintro ⟨rfl, rfl⟩
    exact ⟨rfl, rfl⟩

/-- The loop of `kstack_zone_activate`. -/
theorem armGuards_spec (gs : List Nat) : ∀ {m : Machine}, KernelMap m table →
    (∀ g ∈ gs, g < zoneBase + zoneSize) →
    KernelMap (gs.foldl (armGuard m.kernelPageDirectory) m) table ∧
      (gs.foldl (armGuard m.kernelPageDirectory) m).kernelPageDirectory = m.kernelPageDirectory ∧
      ∀ i < 1024, kernelIdx i → ∀ j < 1024,
        (gs.foldl (armGuard m.kernelPageDirectory) m).entry (table i) j =
          if ∃ g ∈ gs, pdIdx g = i ∧ ptIdx g = j then 0 else m.entry (table i) j := by
  induction gs with
  | nil => exact fun {m} h _ => ⟨h, rfl, fun i _ _ j _ => by simp⟩
  | cons g gs ih =>
    intro m h hgs
    obtain ⟨h₁, hd₁, he₁⟩ := armGuard_spec h (hgs g List.mem_cons_self)
    obtain ⟨h₂, hd₂, he₂⟩ := ih h₁ fun g' hg' => hgs g' (List.mem_cons_of_mem g hg')
    rw [hd₁] at h₂ hd₂ he₂
    refine ⟨h₂, hd₂, fun i hi hk j hj => ?_⟩
    rw [List.foldl_cons, he₂ i hi hk j hj, he₁ i hi hk j hj]
    by_cases hg : pdIdx g = i ∧ ptIdx g = j <;> simp [hg]

end arm

/-! ## The zone of `kstack_init` -/

/-- The sizes that `kstack_init` chooses: all 32 MiB, or whole slots. -/
theorem clampSize_cases {availEnd size : Nat} (h : clampSize availEnd = some size) :
    (0x10000000 ≤ availEnd ∧ size = zoneSize) ∨
      (availEnd < 0x10000000 ∧ size % slotSize = 0 ∧ size < zoneSize) := by
  unfold clampSize zoneCap at h
  dsimp only at h
  unfold zoneBase zoneSize zoneMinSize slotSize at *
  by_cases hlt : availEnd < 0x10000000
  · rw [if_pos hlt, if_pos (by omega)] at h
    split at h
    · cases h
    · split at h
      · cases h
      · obtain rfl := Option.some.inj h
        exact .inr ⟨hlt, by omega, by omega⟩
  · rw [if_neg hlt, if_neg (by decide)] at h
    obtain rfl := Option.some.inj h
    exact .inl ⟨by omega, rfl⟩

/-- What `kstack_init` sets up. -/
theorem kstackInit_spec {z z' : Zone} {p p' : Pmm.Info} {availEnd : Nat} (hr : z.ready = false)
    (h : kstackInit z p availEnd = some (z', p')) : ∃ size, clampSize availEnd = some size ∧
      z'.ready = true ∧ z'.base = zoneBase ∧ z'.stop = zoneBase + size ∧
      z'.slotCount = size / slotSize := by
  unfold kstackInit at h
  rw [hr] at h
  cases hc : clampSize availEnd with
  | none => simp [hc] at h
  | some size =>
    simp only [hc, Bool.false_eq_true, ↓reduceIte, Option.some.injEq, Prod.mk.injEq] at h
    obtain ⟨rfl, -⟩ := h
    exact ⟨size, rfl, rfl, rfl, rfl, rfl⟩

section zone

variable {m : Machine} {table : Nat → Nat} {z : Zone} {addr : Nat}

/-- Guard pages are whole pages. -/
theorem inGuard_iff_page (hb : z.base = zoneBase) :
    InGuard z addr ↔ ∃ g ∈ guardPages z, pdIdx g = pdIdx addr ∧ ptIdx g = ptIdx addr := by
  unfold InGuard guardPages
  simp only [List.mem_map, List.mem_range, exists_exists_and_eq_and, idx_eq_iff]
  refine exists_congr fun s => and_congr_right fun _ => ?_
  unfold guardPage guardSize slotSize
  rw [hb]
  unfold zoneBase
  omega

/-- `kstack_zone_activate` unmaps the guard pages of the slots. -/
theorem unmaps_iff (h : KernelMap m table) (hid : Identity m table) (hr : z.ready = true)
    (hb : z.base = zoneBase) (hn : z.slotCount * slotSize ≤ zoneSize) (ha : addr < 2 ^ 32) :
    Unmaps m z addr ↔ InGuard z addr := by
  have hgs : ∀ g ∈ guardPages z, g < zoneBase + zoneSize := fun g hg => by
    obtain ⟨s, hs, rfl⟩ := List.mem_map.mp hg
    have hs := List.mem_range.mp hs
    unfold guardPage
    rw [hb]
    unfold slotSize at *
    omega
  have hact : kstackZoneActivate m z m.kernelPageDirectory =
      (guardPages z).foldl (armGuard m.kernelPageDirectory) m := by
    unfold kstackZoneActivate
    rw [if_neg]
    simp [hr, h.dir.1]
  obtain ⟨h', hd', he'⟩ := armGuards_spec (guardPages z) h hgs
  have hi := pdIdx_lt ha
  have hj := ptIdx_lt addr
  unfold Unmaps
  rw [hact]
  have hpte := h'.pte hi (ptIdx addr)
  rw [hd'] at hpte
  rw [hpte, h.pte hi, inGuard_iff_page hb]
  cases hk : kernelIdx (pdIdx addr) with
  | false =>
    refine iff_of_false (by simp [present]) ?_
    rintro ⟨g, hg, hgi, -⟩
    have hlt := hgs g hg
    rw [← hgi] at hk
    unfold zoneBase zoneSize at hlt
    unfold kernelIdx pdIdx at hk
    simp at hk
    omega
  | true =>
    rw [if_pos rfl, if_pos rfl, he' _ hi hk _ hj, hid _ hi hk _ hj]
    obtain ⟨-, hp, -⟩ := identityEntry_spec (ptIdx addr) hi hj
    by_cases hg : ∃ g ∈ guardPages z, pdIdx g = pdIdx addr ∧ ptIdx g = ptIdx addr
    · simp [hg, hp, present_zero]
    · simp [hg, hp]

/-- `kstack_is_guard_page` looks at the offset in the zone. -/
theorem isGuardPage_iff (hr : z.ready = true) : kstackIsGuardPage z addr = true ↔
    z.base ≤ addr ∧ addr < z.stop ∧ (addr - z.base) % slotSize < guardSize := by
  unfold kstackIsGuardPage
  rw [hr]
  by_cases h : addr < z.base ∨ z.stop ≤ addr
  · simp [h]
    omega
  · simp [h]
    omega

/-- The addresses at which the test differs from the guard pages of the slots. -/
theorem isGuardPage_inGuard_iff {availEnd size : Nat} (hc : clampSize availEnd = some size)
    (hr : z.ready = true) (hb : z.base = zoneBase) (hstop : z.stop = zoneBase + size)
    (hn : z.slotCount = size / slotSize) :
    (kstackIsGuardPage z addr = true ↔ InGuard z addr) ↔ ¬ BehindSlots availEnd addr := by
  rw [isGuardPage_iff hr, hb, hstop]
  have hin : InGuard z addr ↔ zoneBase ≤ addr ∧ (addr - zoneBase) % slotSize < guardSize ∧
      (addr - zoneBase) / slotSize < size / slotSize := by
    unfold InGuard guardPage
    rw [hb, hn]
    unfold guardSize slotSize
    constructor
    · rintro ⟨s, hs, h1, h2⟩
      omega
    · rintro ⟨h1, h2, h3⟩
      exact ⟨(addr - zoneBase) / 0x11000, h3, by omega, by omega⟩
  rw [hin]
  unfold BehindSlots
  rcases clampSize_cases hc with ⟨hfull, rfl⟩ | ⟨hclamped, hwhole, -⟩
  · unfold zoneBase zoneSize slotSize guardSize
    omega
  · unfold slotSize guardSize at *
    refine iff_of_true ?_ (by omega)
    refine ⟨fun ⟨h1, h2, h3⟩ => ⟨h1, h3, by omega⟩, fun ⟨h1, h2, h3⟩ => ⟨h1, by omega, h2⟩⟩

end zone

/-! ## The result -/

/-- `kstack_is_guard_page` tells the pages that `kstack_zone_activate` unmapped, the guard pages of
the slots, from all others, unless the zone has its full size and the address is in the page behind
the slots. -/
theorem guard_page_iff {z₀ z : Zone} {p p' : Pmm.Info} {availEnd : Nat} {m : Machine}
    {table : Nat → Nat} (hr : z₀.ready = false) (hinit : kstackInit z₀ p availEnd = some (z, p'))
    (hmap : KernelMap m table) (hid : Identity m table) (addr : UInt32) :
    ((kstackIsGuardPage z addr.toNat = true ↔ Unmaps m z addr.toNat) ∧
      (Unmaps m z addr.toNat ↔ InGuard z addr.toNat)) ↔ ¬ BehindSlots availEnd addr.toNat := by
  obtain ⟨size, hc, hready, hb, hstop, hn⟩ := kstackInit_spec hr hinit
  have hle : z.slotCount * slotSize ≤ zoneSize := by
    rw [hn]
    exact Nat.le_trans (Nat.div_mul_le_self _ _) (clampSize_spec hc).2.1
  have hunmaps := unmaps_iff hmap hid hready hb hle addr.toNat_lt
  rw [← isGuardPage_inGuard_iff hc hready hb hstop hn, hunmaps]
  exact and_iff_left Iff.rfl

/-! ### A full zone -/

/-- A kernel directory at `0x1000` with its tables at `0x100000`, one after another. -/
def identityWord (k : Nat) : Nat :=
  if 0x400 ≤ k ∧ k < 0x800 then
    if kernelIdx (k - 0x400) then (0x100000 + (k - 0x400) * 4096) ||| (pagePresent ||| pageRW) else 0
  else if 0x40000 ≤ k ∧ k < 0x140000 then (k - 0x40000) * 4096 ||| (pagePresent ||| pageRW)
  else 0

def identityMachine : Machine :=
  { pmm := Pmm.init (fun _ => 0) 0x9000 0x20000000
    mem := words identityWord, kernelPageDirectory := 0x1000, log := [] }

theorem identityWord_lt (k : Nat) : identityWord k < 2 ^ 32 := by
  unfold identityWord pagePresent pageRW
  split
  · split
    · exact Nat.or_lt_two_pow (by omega) (by decide)
    · decide
  · split
    · exact Nat.or_lt_two_pow (by omega) (by decide)
    · decide

theorem identityMachine_entry {t : Nat} (ht : t % 4096 = 0) (i : Nat) :
    identityMachine.entry t i = identityWord (t / 4 + i) := by
  have he : t + 4 * i = 4 * (t / 4 + i) := by omega
  unfold Machine.entry
  rw [he]
  exact read32_words (identityWord_lt _)

theorem identityMachine_map :
    KernelMap identityMachine (fun i => 0x100000 + i * 4096) ∧
      Identity identityMachine fun i => 0x100000 + i * 4096 := by
  have hdir : identityMachine.kernelPageDirectory = 0x1000 := rfl
  refine ⟨⟨by rw [hdir]; decide, fun i hi hk => ?_, fun i _ _ => by omega, fun i _ _ => by omega,
    fun i _ _ k _ _ h => by omega, fun i hi hk => ?_⟩, fun i hi hk j hj => ?_⟩
  · rw [hdir, identityMachine_entry rfl, identityWord, if_pos (by omega), if_pos (by simpa using hk)]
    simp
  · rw [hdir, identityMachine_entry rfl, identityWord, if_pos (by omega), if_neg (by simpa using hk)]
  · have hword : (0x100000 + i * 4096) / 4 + j = 0x40000 + (i * 1024 + j) := by omega
    show identityMachine.entry (0x100000 + i * 4096) j = _
    rw [identityMachine_entry (by omega), hword, identityWord, if_neg (by omega), if_pos (by omega),
      Nat.add_sub_cancel_left, identityEntry]

/-- The zone of a machine with 512 MB. -/
def fullZone : Zone :=
  { ready := true, base := zoneBase, stop := zoneBase + zoneSize, slotCount := 481, inUse := 0
    slotBitmap := fun _ => 0, freed := [] }

theorem kstackInit_full : kstackInit .empty identityMachine.pmm 0x20000000 =
    some (fullZone, Pmm.deinitRegion identityMachine.pmm zoneBase zoneSize) := rfl

theorem guard_page_iff_full :
    ((kstackIsGuardPage fullZone 0x0E000000 = true ↔ Unmaps identityMachine fullZone 0x0E000000) ∧
      (Unmaps identityMachine fullZone 0x0E000000 ↔ InGuard fullZone 0x0E000000)) ↔
      ¬ BehindSlots 0x20000000 0x0E000000 :=
  guard_page_iff rfl kstackInit_full identityMachine_map.1 identityMachine_map.2 0x0E000000

/-- The page behind the slots is mapped, and the test takes it for a guard page. -/
theorem page_behind_slots :
    kstackInit .empty identityMachine.pmm 0x20000000 =
        some (fullZone, Pmm.deinitRegion identityMachine.pmm zoneBase zoneSize) ∧
      kstackIsGuardPage fullZone 0x0FFF1000 = true ∧
      ¬ Unmaps identityMachine fullZone 0x0FFF1000 ∧ ¬ InGuard fullZone 0x0FFF1000 := by
  have hin : ¬ InGuard fullZone 0x0FFF1000 := by
    rintro ⟨s, hs, h1, h2⟩
    unfold guardPage fullZone zoneBase slotSize guardSize at *
    dsimp only at *
    omega
  refine ⟨kstackInit_full, rfl, fun h => hin ?_, hin⟩
  exact (unmaps_iff identityMachine_map.1 identityMachine_map.2 rfl rfl (by decide) (by decide)).mp h

end Kstack
end Hashx86
