import Mathlib.Data.Finset.Card
import Hashx86.Sched.Clone
import Hashx86.Sched.Recycle
import Hashx86.Sched.Slots

/-!
# Fresh slots over pages that are mapped

A slot of the pool is looked up in the directory before it is used, a slot from the counter is not.

* `lowFrames`: the frames that are left; each page of a stack takes one (`allocBlockLow_frames`,
  `mapPage_frames`).
* `unwindStack_pte`: the roll-back clears the entry of every page below the one that failed.
* `mapStack_reaches`: the mapping loop with as many frames as it needs, and with fewer.
* `allocUserStack_apart`: no two threads have a stack in one slot.
* `allocUserStack_preserves_iff`: the call keeps what was mapped exactly when the pages of the fresh
  slot that it gets to were not. `fresh_slot_mapped`: one that was.
-/

namespace Hashx86
namespace Sched

open Lib Paging

/-! ## The frames that are left -/

/-- The free frames that `pmm_alloc_block_low` can return. -/
def lowFrames (p : Pmm.Info) : Nat := ((Finset.range (lowLimit / 4096)).filter (Pmm.Free p)).card

theorem lowFrames_congr {p p' : Pmm.Info} (h : ∀ g, Pmm.Free p' g ↔ Pmm.Free p g) :
    lowFrames p' = lowFrames p := by
  unfold lowFrames
  rw [Finset.filter_congr fun g _ => h g]

theorem lowFrames_take {p p' : Pmm.Info} {f : Nat} (hf : Pmm.Free p f) (hlow : f < lowLimit / 4096)
    (h : ∀ g, Pmm.Free p' g ↔ Pmm.Free p g ∧ g ≠ f) : lowFrames p = lowFrames p' + 1 := by
  unfold lowFrames
  generalize lowLimit / 4096 = n at hlow ⊢
  have hmem : f ∈ (Finset.range n).filter (Pmm.Free p) :=
    Finset.mem_filter.mpr ⟨Finset.mem_range.mpr hlow, hf⟩
  have herase : (Finset.range n).filter (Pmm.Free p') =
      ((Finset.range n).filter (Pmm.Free p)).erase f := by
    ext g
    simp only [Finset.mem_filter, Finset.mem_erase, h]
    tauto
  rw [herase, Finset.card_erase_of_mem hmem]
  have := Finset.card_pos.mpr ⟨f, hmem⟩
  omega

variable {base : Nat → Prop} {tramp : Nat} {m m' : Machine} {own : Owners} {d stack : Nat}

/-- A frame is taken as long as one is left. -/
theorem allocBlockLow_frames (h : Space base m own) :
    (m.allocBlockLow.1 = 0 ∧ m.allocBlockLow.2 = m ∧ lowFrames m.pmm = 0) ∨
      (m.allocBlockLow.1 ≠ 0 ∧ m.allocBlockLow.1 % 4096 = 0 ∧ m.allocBlockLow.2.mem = m.mem ∧
        lowFrames m.pmm = lowFrames m.allocBlockLow.2.pmm + 1) := by
  rcases Pmm.allocBlockLow_cases h.frames.wf lowLimit with ⟨he, hnone⟩ | ⟨f, ⟨hf, hlow⟩, -, he⟩
  · refine .inl ?_
    unfold Machine.allocBlockLow
    rw [he]
    refine ⟨rfl, rfl, Finset.card_eq_zero.mpr (Finset.filter_eq_empty_iff.mpr fun g hg hfree => ?_)⟩
    exact hnone g ⟨hfree, Finset.mem_range.mp hg⟩
  · have haddr : (Pmm.takeFrame m.pmm f).1 = f * 4096 := Pmm.takeFrame_addr h.frames.wf hf
    have h0 : f ≠ 0 := by
      rintro rfl
      exact (h.frames.used 0 h.frames.zero).2 hf
    have ha : m.allocBlockLow.1 = f * 4096 := by
      unfold Machine.allocBlockLow
      rw [he]
      exact haddr
    have hp : m.allocBlockLow.2.pmm = (Pmm.takeFrame m.pmm f).2 := by
      unfold Machine.allocBlockLow
      rw [he]
    refine .inr ⟨by omega, by omega, rfl, ?_⟩
    rw [hp]
    exact lowFrames_take hf hlow fun g => Pmm.free_takeFrame hf

/-- The pages that the frames suffice for: without a table for them, one frame goes to the table. -/
def pagesLeft (m : Machine) (d stack : Nat) : Nat :=
  if present (m.entry d (pdIdx stack)) then lowFrames m.pmm else lowFrames m.pmm - 1

/-- A page is mapped as long as a frame is left for its table, or it has one. -/
theorem mapPage_frames (h : Space base m own) (d : Nat) {va : Nat} (pa flags : Nat)
    (hk : kernelIdx (pdIdx va) = false) :
    ((mapPage m d va pa flags).1 = false ∧ present (m.entry d (pdIdx va)) = false ∧
        lowFrames m.pmm = 0) ∨
      ((mapPage m d va pa flags).1 = true ∧
        (present (m.entry d (pdIdx va)) = true ∧
          lowFrames (mapPage m d va pa flags).2.pmm = lowFrames m.pmm ∨
        present (m.entry d (pdIdx va)) = false ∧
          lowFrames m.pmm = lowFrames (mapPage m d va pa flags).2.pmm + 1)) := by
  unfold mapPage
  rw [if_neg (by rw [hk]; exact Bool.false_ne_true)]
  unfold ensureTable
  cases hp : present (m.entry d (pdIdx va)) with
  | true => exact .inr ⟨rfl, .inl ⟨rfl, rfl⟩⟩
  | false =>
    rw [if_neg Bool.false_ne_true]
    rcases allocBlockLow_frames h with ⟨h0, -, hf⟩ | ⟨h0, -, -, hf⟩
    · generalize m.allocBlockLow = r at h0
      dsimp only
      rw [if_pos h0]
      exact .inl ⟨rfl, rfl, hf⟩
    · generalize m.allocBlockLow = r at h0 hf
      dsimp only
      rw [if_neg h0]
      exact .inr ⟨rfl, .inr ⟨rfl, hf⟩⟩

/-! ## The entries of a stack -/

/-- Page `q` of the stack is mapped. -/
def PageMapped (m : Machine) (d stack q : Nat) : Prop :=
  present (pte m d (pdIdx (stack + q * pageSize)) (ptIdx (stack + q * pageSize))) = true

instance (m : Machine) (d stack q : Nat) : Decidable (PageMapped m d stack q) :=
  inferInstanceAs (Decidable (_ = true))

theorem pageMapped_iff {q : Nat} (hs : InUserRange stack) :
    PageMapped m d stack q ↔ getPhysicalAddress m d (stack + q * pageSize) ≠ unmapped := by
  have hmod : (stack + q * pageSize) % 4096 = 0 := by
    have := hs.aligned
    unfold pageSize
    omega
  unfold PageMapped
  by_cases hp : present (pte m d (pdIdx (stack + q * pageSize)) (ptIdx (stack + q * pageSize))) = true
  · rw [getPhysicalAddress_of_present hp hmod]
    refine iff_of_true hp fun he => ?_
    have := frameAddr_mod (pte m d (pdIdx (stack + q * pageSize)) (ptIdx (stack + q * pageSize)))
    unfold unmapped at he
    omega
  · rw [getPhysicalAddress_of_not_present (by simpa using hp)]
    exact iff_of_false hp fun hne => hne rfl

/-- The pages of a slot are in one page table. -/
theorem pdIdx_slot {slot q : Nat} (hlt : slot < 5631) (hq : q < 128) :
    pdIdx (slotBase slot + q * pageSize) = pdIdx (slotBase slot) := by
  unfold pdIdx slotBase sub32 userStackVirtTop userStackSize pageSize
  rw [Nat.mod_eq_of_lt (by omega), if_pos (by omega)]
  omega

theorem inUserRange_of_lt {slot : Nat} (hlt : slot < 5631) : InUserRange (slotBase slot) := by
  refine (inUserRange_slot ?_ ?_).2
  · unfold userStackVirtTop userStackSize
    omega
  · unfold userStackVirtTop userStackSize userStackVirtBottom
    omega

theorem present_entry {i j : Nat} (h : present (pte m d i j) = true) :
    present (m.entry d i) = true := by
  by_contra hne
  rw [pte_of_not_present (Bool.eq_false_iff.mpr hne)] at h
  exact absurd h (by decide)

/-- The roll-back leaves none of the pages from `q` on, `n` of them, mapped, and changes no other. -/
theorem unwindStack_pte {p : Pmm.Info} (hf : Frames base p own) (hd : own d = some .dir)
    (hs : InUserRange stack) (n : Nat) : ∀ {m : Machine} (q : Nat), Tables base m own → q + n ≤ 128 →
    ∀ i < 1024, ∀ j < 1024,
      (StackPages stack q (q + n) i j → present (pte (unwindStack m d stack n q) d i j) = false) ∧
      (¬ StackPages stack q (q + n) i j → pte (unwindStack m d stack n q) d i j = pte m d i j) := by
  induction n with
  | zero =>
    intro m q _ _ i _ j _
    refine ⟨fun ⟨r, h1, h2, _⟩ => by omega, fun _ => rfl⟩
  | succ n ih =>
    intro m q ht hq i hi j hj
    obtain ⟨hva, hmod, ⟨hpd, hk⟩, hpt⟩ := hs.va (show q < 128 by omega)
    have hstep : StackPages stack q (q + (n + 1)) i j ↔
        (i = pdIdx (stack + q * pageSize) ∧ j = ptIdx (stack + q * pageSize)) ∨
          StackPages stack (q + 1) (q + 1 + n) i j := by
      constructor
      · rintro ⟨r, h1, h2, h3⟩
        by_cases hr : r = q
        · exact .inl (hr ▸ h3)
        · exact .inr ⟨r, by omega, by omega, h3⟩
      · rintro (h3 | ⟨r, h1, h2, h3⟩)
        · exact ⟨q, Nat.le_refl q, by omega, h3⟩
        · exact ⟨r, by omega, by omega, h3⟩
    -- Page `q` is not looked at again.
    have hself : ¬ StackPages stack (q + 1) (q + 1 + n) (pdIdx (stack + q * pageSize))
        (ptIdx (stack + q * pageSize)) := fun ⟨r, h1, _, h3, h4⟩ => by
      have := hs.page_inj h3 h4
      omega
    unfold unwindStack
    dsimp only
    by_cases hp : PageMapped m d stack q
    · have hpe := present_entry hp
      have htab : own (frameAddr (m.entry d (pdIdx (stack + q * pageSize)))) =
          some (.table d (pdIdx (stack + q * pageSize))) :=
        ht.table.mpr ⟨hd, hpd, hpe, rfl, fun hk' => absurd (hk.symm.trans hk') Bool.false_ne_true⟩
      -- Freeing the frame changes no memory: the entry that is cleared is all.
      obtain ⟨m₁, hm₁⟩ : ∃ m₁, m₁ = (m.setEntry (frameAddr (m.entry d (pdIdx (stack + q * pageSize))))
          (ptIdx (stack + q * pageSize)) 0).freeBlock
          (getPhysicalAddress m d (stack + q * pageSize)) := ⟨_, rfl⟩
      have ht₁ : Tables base m₁ own := by
        rw [hm₁]
        exact (ht.setTableEntry hf htab hpt 0).same hf ⟨rfl, fun _ _ => rfl⟩
      have hpte₁ : ∀ i' < 1024, ∀ j' < 1024, pte m₁ d i' j' =
          if d = d ∧ i' = pdIdx (stack + q * pageSize) ∧ j' = ptIdx (stack + q * pageSize) then 0
          else pte m d i' j' := fun i' hi' j' hj' => by
        rw [hm₁]
        exact ht.pte_setTableEntry hf htab hpt (by decide) hd hi' hj'
      obtain ⟨hclear, hkeep⟩ := ih (q + 1) ht₁ (by omega) i hi j hj
      rw [if_pos ((pageMapped_iff hs).mp hp), ← hm₁, hstep]
      refine ⟨?_, fun hno => ?_⟩
      · rintro (⟨rfl, rfl⟩ | hin)
        · rw [hkeep hself, hpte₁ _ hi _ hj, if_pos ⟨rfl, rfl, rfl⟩]
          rfl
        · exact hclear hin
      · rw [not_or] at hno
        rw [hkeep hno.2, hpte₁ i hi j hj, if_neg fun h => hno.1 h.2]
    · obtain ⟨hclear, hkeep⟩ := ih (q + 1) ht (by omega) i hi j hj
      rw [if_neg fun h => hp ((pageMapped_iff hs).mpr h), hstep]
      refine ⟨?_, fun hno => hkeep (not_or.mp hno).2⟩
      rintro (⟨rfl, rfl⟩ | hin)
      · rw [hkeep hself]
        exact Bool.eq_false_iff.mpr hp
      · exact hclear hin

/-- What the loop does to the entries when it begins at page `p` with `r` pages left: it maps all
pages, or it leaves none of the pages below `p + r` mapped. -/
structure Reaches (m : Machine) (d stack n p r top : Nat) : Prop where
  maps : n ≤ r → ∃ top' m', mapStack m d stack n p top = (some top', m') ∧
    ∀ i < 1024, ∀ j < 1024, ¬ StackPages stack p 128 i j → pte m' d i j = pte m d i j
  fails : r < n → ∃ m', mapStack m d stack n p top = (none, m') ∧ ∀ i < 1024, ∀ j < 1024,
    (StackPages stack 0 (p + r) i j → present (pte m' d i j) = false) ∧
    (¬ StackPages stack 0 (p + r) i j → pte m' d i j = pte m d i j)

/-- No frame is left, for a page or for its table. -/
theorem reaches_none {m₁ : Machine} (h : Owned base tramp m₁ own) (hd : own d = some .dir)
    (hs : InUserRange stack) {n p top : Nat} (hp : p + (n + 1) = 128)
    (hmap : mapStack m d stack (n + 1) p top = (none, unwindStack m₁ d stack p 0))
    (hpte : ∀ i < 1024, ∀ j < 1024, pte m₁ d i j = pte m d i j) :
    Reaches m d stack (n + 1) p 0 top where
  maps hle := absurd hle (by omega)
  fails _ := by
    refine ⟨_, hmap, fun i hi j hj => ?_⟩
    have hpages := unwindStack_pte h.frames hd hs p 0 h.tables (by omega) i hi j hj
    rwa [Nat.zero_add, hpte i hi j hj] at hpages

/-- The pages that the frames suffice for are all that the mapping loop gets to. -/
theorem mapStack_reaches (hs : InUserRange stack)
    (hone : ∀ q < 128, pdIdx (stack + q * pageSize) = pdIdx stack) (n : Nat) :
    ∀ {m : Machine} {own : Owners} (p top : Nat), Owned base tramp m own → own d = some .dir →
      p + n = 128 → Reaches m d stack n p (pagesLeft m d stack) top := by
  induction n with
  | zero =>
    intro m own p top _ _ _
    exact ⟨fun _ => ⟨top, m, rfl, fun _ _ _ _ _ => rfl⟩, fun hlt => absurd hlt (by omega)⟩
  | succ n ih =>
    intro m own p top h hd hp
    obtain ⟨hva, -, ⟨hpd, hk⟩, hpt⟩ := hs.va (show p < 128 by omega)
    have hdmod := (h.frames.aligned hd).1
    rcases allocBlockLow_frames h.toSpace with ⟨h0, hsame, hf⟩ | ⟨h0, hmod, hmem, hf⟩
    · have hr : pagesLeft m d stack = 0 := by
        unfold pagesLeft
        rw [hf, ite_self]
      rw [hr]
      refine reaches_none h hd hs hp ?_ fun _ _ _ _ => rfl
      unfold mapStack
      rw [show m.allocBlockLow = (0, m) from Prod.ext h0 hsame]
      exact if_pos rfl
    rcases h.newPage hd hva with he | ⟨a, m₁, he, htook, hpage⟩
    · rw [he] at h0
      exact absurd rfl h0
    rw [he] at h0 hmod hmem hf
    dsimp only at h0 hmod hmem hf
    obtain ⟨m₂, hm₂⟩ : ∃ m₂, m₂ = m₁.store a 4096 fun _ => 0 := ⟨_, rfl⟩
    have hspace : Owned base tramp m₂ (Function.update own a (some .held)) := by
      rw [hm₂]
      exact (htook.owned.store (d := d) (R := fun _ _ => False) htook.held fun _ => 0).1
    have hda : d ≠ a := fun he => by
      rw [he, htook.fresh.1] at hd
      cases hd
    have hpmm : m₂.pmm = m₁.pmm := by
      rw [hm₂]
      rfl
    have hentry : m₂.entry d (pdIdx stack) = m.entry d (pdIdx stack) := by
      rw [hm₂, Machine.entry_store_of_ne _ hmod hdmod (hone p (by omega) ▸ hpd) hda,
        Machine.entry_of_mem hmem]
    have hloop : mapStack m d stack (n + 1) p top =
        if !(mapPage m₂ d (stack + p * pageSize) a userFlags).1 then
          (none, unwindStack ((mapPage m₂ d (stack + p * pageSize) a userFlags).2.freeBlock a) d
            stack p 0)
        else mapStack (mapPage m₂ d (stack + p * pageSize) a userFlags).2 d stack n (p + 1)
          (if p = userStackPages - 1 then a else top) := by
      rw [hm₂, mapStack, he]
      exact if_neg h0
    have hframes := mapPage_frames hspace.toSpace d a userFlags hk
    rw [hone p (by omega), hentry, hpmm] at hframes
    have hout := hpage (fun _ => 0) userFlags rfl (show userFlags < 4096 by decide)
    rw [← hm₂] at hout
    rcases hout with ⟨hm, own', ho, hc, -⟩ | ⟨m', own', hm, -, hnew⟩
    · rw [hm] at hloop hframes
      rcases hframes with ⟨-, hpe, hzero⟩ | ⟨hbad, -⟩
      · have hr : pagesLeft m d stack = 0 := by
          unfold pagesLeft
          rw [if_neg (by rw [hpe]; exact Bool.false_ne_true)]
          omega
        rw [hr]
        exact reaches_none ho ((hc.dirs d).mpr hd) hs hp hloop fun i hi j hj =>
          hc.pte hd hi hj fun _ hf => hf
      · cases hbad
    · rw [hm] at hloop hframes
      dsimp only at hframes
      have hpe' : present (m'.entry d (pdIdx stack)) = true := by
        rw [← hone p (by omega)]
        exact present_entry hnew.pte.1
      have hr : pagesLeft m d stack = pagesLeft m' d stack + 1 := by
        unfold pagesLeft
        rw [if_pos hpe']
        rcases hframes with ⟨hbad, -⟩ | ⟨-, ⟨hpe, hsame⟩ | ⟨hpe, hless⟩⟩
        · cases hbad
        · rw [if_pos hpe]
          omega
        · rw [if_neg (by rw [hpe]; exact Bool.false_ne_true)]
          omega
      have hother : ∀ i < 1024, ∀ j < 1024,
          ¬ (i = pdIdx (stack + p * pageSize) ∧ j = ptIdx (stack + p * pageSize)) →
          pte m' d i j = pte m d i j := fun i hi j hj hne =>
        hnew.changes.pte hd hi hj fun _ => hne
      obtain ⟨hmaps, hfails⟩ := ih (p + 1) (if p = userStackPages - 1 then a else top) hnew.owned
        ((hnew.changes.dirs d).mpr hd) (by omega)
      rw [hr]
      constructor
      · intro hle
        obtain ⟨top', m'', hrun, hkeep⟩ := hmaps (by omega)
        refine ⟨top', m'', hloop.trans hrun, fun i hi j hj hno => ?_⟩
        rw [hkeep i hi j hj fun ⟨q, h1, h2, h3⟩ => hno ⟨q, by omega, h2, h3⟩]
        exact hother i hi j hj fun h3 => hno ⟨p, Nat.le_refl p, by omega, h3⟩
      · intro hlt
        obtain ⟨m'', hrun, hpages⟩ := hfails (by omega)
        have hpr : p + 1 + pagesLeft m' d stack = p + (pagesLeft m' d stack + 1) := by omega
        refine ⟨m'', hloop.trans hrun, fun i hi j hj => ?_⟩
        obtain ⟨hclear, hkeep⟩ := hpages i hi j hj
        rw [hpr] at hclear hkeep
        refine ⟨hclear, fun hno => ?_⟩
        rw [hkeep hno]
        exact hother i hi j hj fun h3 => hno ⟨p, Nat.zero_le p, by omega, h3⟩

/-! ## The call -/

/-- No translation changed. -/
def Untranslated (m m' : Machine) (d : Nat) : Prop :=
  ∀ va < 2 ^ 32, getPhysicalAddress m' d va = getPhysicalAddress m d va

/-- A stack was mapped where nothing was: its guard page stays unmapped, and the translations
outside its other pages stay. -/
structure TakenOver (m m' : Machine) (d stack : Nat) : Prop where
  fresh : ∀ q < 128, getPhysicalAddress m d (stack + q * pageSize) = unmapped
  guard : getPhysicalAddress m' d stack = unmapped
  others : ∀ va < 2 ^ 32, ¬ StackPages stack 1 128 (pdIdx va) (ptIdx va) →
    getPhysicalAddress m' d va = getPhysicalAddress m d va

/-- What a result of `AllocUserStack` promises. -/
def Preserved (m m' : Machine) (d : Nat) : Option Nat → Prop
  | some stack => TakenOver m m' d stack
  | none => Untranslated m m' d

theorem getPhysicalAddress_of_pte {va : Nat}
    (h : pte m' d (pdIdx va) (ptIdx va) = pte m d (pdIdx va) (ptIdx va)) :
    getPhysicalAddress m' d va = getPhysicalAddress m d va := by
  rw [getPhysicalAddress_eq, getPhysicalAddress_eq, h]

/-- The mapping loop keeps what was mapped exactly when the pages that it gets to were not. -/
theorem mapStack_preserved_iff (h : Owned base tramp m own) (hd : own d = some .dir) {slot : Nat}
    (hlt : slot < 5631) :
    Preserved m (mapStack m d (slotBase slot) 127 1 0).2 d
        ((mapStack m d (slotBase slot) 127 1 0).1.map fun _ => slotBase slot) ↔
      ∀ q < 128, q ≤ pagesLeft m d (slotBase slot) →
        getPhysicalAddress m d (slotBase slot + q * pageSize) = unmapped := by
  have hs := inUserRange_of_lt hlt
  obtain ⟨hmaps, hfails⟩ := mapStack_reaches hs (fun q hq => pdIdx_slot hlt hq) 127 1 0 h hd rfl
  obtain ⟨r, hr⟩ : ∃ r, r = pagesLeft m d (slotBase slot) := ⟨_, rfl⟩
  rw [← hr] at hmaps hfails ⊢
  by_cases hle : 127 ≤ r
  · obtain ⟨top, m', hrun, hkeep⟩ := hmaps hle
    rw [hrun]
    refine ⟨fun hp q hq _ => hp.fresh q hq, fun hclear => ⟨fun q hq => hclear q hq (by omega), ?_, ?_⟩⟩
    · have h0 := hclear 0 (by omega) (by omega)
      rw [Nat.zero_mul, Nat.add_zero] at h0
      rw [← h0]
      obtain ⟨hva, -, hi, hj⟩ := hs.va (show 0 < 128 by omega)
      rw [Nat.zero_mul, Nat.add_zero] at hi hj
      refine getPhysicalAddress_of_pte (hkeep _ hi.1 _ hj fun ⟨q, h1, h2, h3, h4⟩ => ?_)
      have := hs.page_inj (p := 0) (q := q) (by rwa [Nat.zero_mul, Nat.add_zero])
        (by rwa [Nat.zero_mul, Nat.add_zero])
      omega
    · exact fun va hva hno =>
        getPhysicalAddress_of_pte (hkeep _ (pdIdx_lt hva) _ (ptIdx_lt va) hno)
  · obtain ⟨m', hrun, hpages⟩ := hfails (by omega)
    rw [hrun]
    refine ⟨fun hp q hq hqr => ?_, fun hclear va hva => ?_⟩
    · obtain ⟨hva, hmod, hi, hj⟩ := hs.va hq
      rw [← hp _ hva]
      exact getPhysicalAddress_of_not_present
        ((hpages _ hi.1 _ hj).1 ⟨q, Nat.zero_le q, by omega, rfl, rfl⟩)
    · obtain ⟨hclr, hkeep⟩ := hpages _ (pdIdx_lt hva) _ (ptIdx_lt va)
      by_cases hin : StackPages (slotBase slot) 0 (1 + r) (pdIdx va) (ptIdx va)
      · -- A page below the one that failed: it was not mapped, and is not mapped.
        rw [getPhysicalAddress_of_not_present (hclr hin)]
        obtain ⟨q, -, hq, hi, hj⟩ := hin
        have hnot : ¬ PageMapped m d (slotBase slot) q := fun hm =>
          (pageMapped_iff hs).mp hm (hclear q (by omega) (by omega))
        unfold PageMapped at hnot
        rw [← hi, ← hj] at hnot
        exact (getPhysicalAddress_of_not_present (Bool.eq_false_iff.mpr hnot)).symm
      · exact getPhysicalAddress_of_pte (hkeep hin)

variable {k : Kernel} {t : Nat}

/-- The result of `AllocUserStack` without the address of the top page. -/
def Preserves (k : Kernel) (t d : Nat) : Prop :=
  Preserved k.machine (allocUserStack k t d).2.machine d
    ((allocUserStack k t d).1.map Prod.fst)

theorem allocUserStack_of_none (t : Nat) (h : (takeSlot k d).1 = none) :
    (allocUserStack k t d).1 = none ∧ (allocUserStack k t d).2.machine = k.machine := by
  have hmach := (takeSlot_machine k d).1
  unfold allocUserStack
  generalize takeSlot k d = r at h hmach
  obtain ⟨slot, k₁⟩ := r
  obtain rfl : slot = none := h
  exact ⟨rfl, (machine_dropThread _ _).trans hmach⟩

theorem allocUserStack_of_some (t : Nat) {slot : Nat} (h : (takeSlot k d).1 = some slot)
    (hlt : slot < 5631) :
    (allocUserStack k t d).1.map Prod.fst =
        (mapStack k.machine d (slotBase slot) 127 1 0).1.map (fun _ => slotBase slot) ∧
      (allocUserStack k t d).2.machine = (mapStack k.machine d (slotBase slot) 127 1 0).2 := by
  have hmach := (takeSlot_machine k d).1
  have h1 : ¬ userStackVirtTop - userStackSize < slot * userStackSize := by
    unfold userStackVirtTop userStackSize
    omega
  have h2 : ¬ userStackVirtTop - slot * userStackSize - userStackSize < userStackVirtBottom := by
    unfold userStackVirtTop userStackSize userStackVirtBottom
    omega
  have hbase := (inUserRange_slot h1 h2).1
  unfold allocUserStack
  generalize takeSlot k d = r at h hmach
  obtain ⟨found, k₁⟩ := r
  obtain rfl : found = some slot := h
  have hmod : (k₁.modTcb t fun tcb => { tcb with stackSlotIdx := slot }).machine = k.machine := hmach
  dsimp only
  rw [if_neg h1, if_neg h2, hbase, hmod, show userStackPages - 1 = 127 from rfl]
  generalize mapStack k.machine d (slotBase slot) 127 1 0 = r
  obtain ⟨top, m⟩ := r
  cases top with
  | none => exact ⟨rfl, machine_dropThread _ _⟩
  | some top => exact ⟨rfl, rfl⟩

/-! ## The slots of two threads -/

/-- Whatever the call does, each slot has one owner. -/
theorem allocUserStack_ledger (hs : SlotsOk k) {tcb : Tcb} (ht : k.tcbs t = some tcb)
    (hnew : tcb.stackSlotIdx = noSlot) (d : Nat) :
    Ledger (· < (allocUserStack k t d).2.nextStackSlotIdx) (allocUserStack k t d).2.freeStackOffsets
        (allocUserStack k t d).2.slotOf ∧ (allocUserStack k t d).2.nextStackSlotIdx ≤ 5631 := by
  have hnone : k.slotOf t = none := by
    unfold Kernel.slotOf
    rw [ht]
    exact if_pos hnew
  rcases allocUserStack_cases ht d with ⟨m, pool, next, e, hkept⟩ | ⟨r, m, s, pool, next, e, htaken⟩
  · rw [e]
    have hslots : (k.undone t tcb.stack m pool next).slotOf = k.slotOf := by
      rw [slotOf_update (k := k) (x := none) rfl]
      exact Function.update_eq_self_iff.mpr hnone.symm
    rw [hslots]
    have hle := hs.next_le
    rcases hkept hs.noSlot_not_pooled with ⟨hp, hn⟩ | ⟨hp, hn, hlt⟩
    · rw [hp, hn]
      exact ⟨hs.ledger, hle⟩
    · rw [hp, hn]
      exact ⟨hs.issue_ledger, by omega⟩
  · rw [e]
    obtain ⟨tcb', htcb'⟩ : ∃ tcb', tcb' = { tcb with stackSlotIdx := s } := ⟨_, rfl⟩
    rw [← htcb']
    exact hs.ledger_moved hnone rfl (.inr (htcb' ▸ htaken))

/-- The address is in the range of the slot. -/
def InSlot (slot va : Nat) : Prop := slotBase slot ≤ va ∧ va < slotBase slot + userStackSize

theorem slotBase_of_lt {slot : Nat} (h : slot < 5631) :
    slotBase slot + (slot + 1) * userStackSize = userStackVirtTop := by
  unfold slotBase sub32 userStackVirtTop userStackSize
  rw [Nat.mod_eq_of_lt (by omega), if_pos (by omega)]
  omega

theorem inSlot_inj {slot slot' va : Nat} (h : slot < 5631) (h' : slot' < 5631) (hin : InSlot slot va)
    (hin' : InSlot slot' va) : slot = slot' := by
  have := slotBase_of_lt h
  have := slotBase_of_lt h'
  unfold InSlot userStackSize at *
  omega

/-- No two threads have a stack in one slot. -/
def SlotsApart (k : Kernel) : Prop :=
  ∀ u v slot slot' va, u ≠ v → k.slotOf u = some slot → k.slotOf v = some slot' →
    ¬ (InSlot slot va ∧ InSlot slot' va)

theorem allocUserStack_apart (hs : SlotsOk k) {tcb : Tcb} (ht : k.tcbs t = some tcb)
    (hnew : tcb.stackSlotIdx = noSlot) (d : Nat) : SlotsApart (allocUserStack k t d).2 := by
  obtain ⟨hl, hle⟩ := allocUserStack_ledger hs ht hnew d
  rintro u v slot slot' va huv hu hv ⟨hin, hin'⟩
  have hlt := hl.owner_issued u slot hu
  have hlt' := hl.owner_issued v slot' hv
  obtain rfl := inSlot_inj (by omega) (by omega) hin hin'
  exact huv (hl.inj u v slot hu hv)

/-! ## The condition -/

theorem freshSlot_of_lt {next : Nat} (h : next < 5631) : freshSlot next = some next := by
  unfold freshSlot
  refine if_neg ?_
  unfold userStackVirtTop userStackVirtBottom userStackSize
  omega

/-- The slot comes from the counter: the head of the pool is mapped, and the range of the user
stacks is not used up. -/
def TakesFresh (k : Kernel) (d : Nat) : Prop := ¬ HeadUnmapped k d ∧ k.nextStackSlotIdx < 5631

/-- The pages of the fresh slot that the free frames suffice for, and the guard page, are unmapped. -/
def FreshUnmapped (k : Kernel) (d : Nat) : Prop :=
  ∀ q < 128, q ≤ pagesLeft k.machine d (slotBase k.nextStackSlotIdx) →
    getPhysicalAddress k.machine d (slotBase k.nextStackSlotIdx + q * pageSize) = unmapped

/-- A scan that stops at the head of the pool finds nothing. -/
theorem scanPool_none (hs : SlotsOk k) (h : ¬ HeadUnmapped k d) :
    scanPool k.machine d k.freeStackOffsets.length k.freeStackOffsets =
      (none, k.freeStackOffsets) := by
  cases hp : k.freeStackOffsets with
  | nil => rfl
  | cons head rest =>
    rw [List.length_cons]
    refine scanPool_stuck ?_ (rest.length + 1) rest
    by_contra hm
    refine h ⟨head, rest, hp, fun he => ?_, Bool.eq_false_iff.mpr hm⟩
    exact hs.noSlot_not_pooled (hp ▸ he ▸ List.mem_cons_self)

theorem takeSlot_of_not_head (hs : SlotsOk k) (h : ¬ HeadUnmapped k d) :
    (takeSlot k d).1 = freshSlot k.nextStackSlotIdx := by
  unfold takeSlot
  rw [scanPool_none hs h]
  cases freshSlot k.nextStackSlotIdx <;> rfl

theorem slotMapped_false {m : Machine} {slot : Nat} (hlt : slot < 5631)
    (h : slotMapped m d slot = false) {q : Nat} (hq : q < 128) :
    getPhysicalAddress m d (slotBase slot + q * pageSize) = unmapped := by
  unfold slotMapped at h
  have hpage := List.any_eq_false.mp h q (List.mem_range.mpr hq)
  rw [Nat.mod_eq_of_lt ((inUserRange_of_lt hlt).va hq).1] at hpage
  simpa using hpage

theorem preserves_of_slot (h : Owned base tramp k.machine own) (hd : own d = some .dir) (t : Nat)
    {slot : Nat} (htake : (takeSlot k d).1 = some slot) (hlt : slot < 5631) :
    Preserves k t d ↔ ∀ q < 128, q ≤ pagesLeft k.machine d (slotBase slot) →
      getPhysicalAddress k.machine d (slotBase slot + q * pageSize) = unmapped := by
  obtain ⟨hres, hmach⟩ := allocUserStack_of_some t htake hlt
  unfold Preserves
  rw [hres, hmach]
  exact mapStack_preserved_iff h hd hlt

/-- `AllocUserStack` keeps the slots of two threads apart. It keeps what is mapped in the directory,
and maps what was not, exactly when the slot is not a fresh one with a page that is mapped and that
the loop gets to. -/
theorem allocUserStack_preserves_iff (h : Owned base tramp k.machine own) (hd : own d = some .dir)
    (hs : SlotsOk k) {tcb : Tcb} (ht : k.tcbs t = some tcb) (hnew : tcb.stackSlotIdx = noSlot) :
    SlotsApart (allocUserStack k t d).2 ∧
      (Preserves k t d ↔ (TakesFresh k d → FreshUnmapped k d)) := by
  refine ⟨allocUserStack_apart hs ht hnew d, ?_⟩
  by_cases hhead : HeadUnmapped k d
  · -- A slot of the pool was looked up.
    refine iff_of_true ?_ fun hf => absurd hhead hf.1
    obtain ⟨head, rest, hp, hne, hm⟩ := hhead
    have hlt : head < 5631 := by
      have := hs.ledger.pool_issued head (hp ▸ List.mem_cons_self)
      have := hs.next_le
      omega
    rw [preserves_of_slot h hd t (by rw [takeSlot_head hp hne hm]) hlt]
    exact fun q hq _ => slotMapped_false hlt hm hq
  have htake := takeSlot_of_not_head hs hhead
  by_cases hlt : k.nextStackSlotIdx < 5631
  · rw [freshSlot_of_lt hlt] at htake
    rw [preserves_of_slot h hd t htake hlt]
    exact ⟨fun hp _ => hp, fun hp => hp ⟨hhead, hlt⟩⟩
  · -- No slot is left, and nothing is done.
    refine iff_of_true ?_ fun hf => absurd hf.2 hlt
    have hfresh : freshSlot k.nextStackSlotIdx = none := by
      cases he : freshSlot k.nextStackSlotIdx with
      | none => rfl
      | some s =>
        obtain ⟨rfl, hs'⟩ := freshSlot_spec he
        exact absurd hs' hlt
    obtain ⟨hres, hmach⟩ := allocUserStack_of_none t (htake.trans hfresh)
    unfold Preserves
    rw [hres, hmach]
    exact fun _ _ => rfl

/-- The thread of `oneProcess` has no slot yet. -/
theorem oneProcess_thread (m : Machine) : ∃ tcb, (oneProcess m).tcbs 1 = some tcb ∧
    tcb.stackSlotIdx = noSlot := ⟨_, rfl, rfl⟩

theorem slotsOk_oneProcess (m : Machine) : SlotsOk (oneProcess m) := by
  have hone : ∀ t tcb, (oneProcess m).tcbs t = some tcb →
      tcb.stackSlotIdx = noSlot ∧ tcb.state = .running := fun t tcb ht => by
    simp only [oneProcess, Function.update_apply] at ht
    split at ht
    · obtain rfl := Option.some.inj ht
      exact ⟨rfl, rfl⟩
    · cases ht
  have hslot : (oneProcess m).slotOf = fun _ => none := funext fun t => by
    unfold Kernel.slotOf
    cases ht : (oneProcess m).tcbs t with
    | none => rfl
    | some tcb => exact if_pos (hone t tcb ht).1
  refine ⟨?_, Nat.zero_le _, fun t tcb ht _ => (hone t tcb ht).1, fun t tcb ht _ => (hone t tcb ht).1,
    fun p pcb hp => ?_, ?_, fun hne => absurd rfl hne, Nat.le_refl _⟩
  · rw [hslot]
    exact Ledger.empty.congr_issued fun r => iff_of_false (Nat.not_lt_zero r) id
  · simp only [oneProcess, Function.update_apply] at hp
    split at hp
    · obtain rfl := Option.some.inj hp
      rfl
    · cases hp
  · rintro t ⟨⟩

/-- A directory without a user page keeps what it maps. -/
theorem allocUserStack_preserves_oneDirectory :
    SlotsApart (allocUserStack (oneProcess oneDirectory) 1 0x3000).2 ∧
      Preserves (oneProcess oneDirectory) 1 0x3000 := by
  obtain ⟨own, h, hd, hn⟩ := oneDirectory_owned
  obtain ⟨tcb, ht, hnew⟩ := oneProcess_thread oneDirectory
  obtain ⟨hapart, hiff⟩ := allocUserStack_preserves_iff (k := oneProcess oneDirectory) h hd
    (slotsOk_oneProcess _) ht hnew
  refine ⟨hapart, hiff.mpr fun _ q hq _ => getPhysicalAddress_of_not_present ?_⟩
  obtain ⟨-, -, ⟨hi, hk⟩, hj⟩ := (inUserRange_of_lt (show 0 < 5631 by omega)).va hq
  unfold pte
  have hent : oneDirectory.entry 0x3000 (pdIdx (slotBase 0 + q * pageSize)) = 0 := hn.empty _ hi hk
  rw [show (oneProcess oneDirectory).nextStackSlotIdx = 0 from rfl,
    show (oneProcess oneDirectory).machine = oneDirectory from rfl, hent]
  rfl

/-! ### A segment at the top of the user range -/

/-- One page at `0xBFF81000` is mapped, the first one above the guard page of slot 0. -/
def segmentMapped : Machine :=
  (mapPage (oneDirectory.allocBlockLow.2.store 0x4000 4096 fun _ => 0) 0x3000 0xBFF81000 0x4000
    userFlags).2

theorem segmentMapped_owned : ∃ own,
    Owned (inUse Paging.eightFrames.pmm) 0x2000 segmentMapped own ∧ own 0x3000 = some .dir := by
  obtain ⟨own, h, hd, -⟩ := oneDirectory_owned
  have haddr : oneDirectory.allocBlockLow.1 = 0x4000 := by decide +kernel
  rcases h.newPage hd (show 0xBFF81000 < 2 ^ 32 by decide) with he | ⟨a, m₁, he, -, hpage⟩
  · rw [he] at haddr
    exact absurd haddr (by decide)
  obtain rfl : a = 0x4000 := by rw [he] at haddr; exact haddr
  have hm₁ : m₁ = oneDirectory.allocBlockLow.2 := by rw [he]
  subst hm₁
  rcases hpage (fun _ => 0) userFlags rfl (by decide) with ⟨hm, -⟩ | ⟨m', own', hm, -, hnew⟩
  · have hok : (mapPage (oneDirectory.allocBlockLow.2.store 0x4000 4096 fun _ => 0) 0x3000 0xBFF81000
        0x4000 userFlags).1 = true := by decide +kernel
    rw [hm] at hok
    cases hok
  · unfold segmentMapped
    rw [hm]
    exact ⟨own', hnew.owned, (hnew.changes.dirs _).mpr hd⟩

/-- The first stack of the process is mapped over the page and then, out of frames, rolled back: the
page is gone. -/
theorem fresh_slot_mapped :
    (∃ own, Owned (inUse Paging.eightFrames.pmm) 0x2000 segmentMapped own ∧
      own 0x3000 = some .dir) ∧
    SlotsOk (oneProcess segmentMapped) ∧ (oneProcess segmentMapped).nextStackSlotIdx = 0 ∧
    slotBase 0 + pageSize = 0xBFF81000 ∧
    getPhysicalAddress segmentMapped 0x3000 0xBFF81000 = 0x4000 ∧
    (allocUserStack (oneProcess segmentMapped) 1 0x3000).1 = none ∧
    getPhysicalAddress (allocUserStack (oneProcess segmentMapped) 1 0x3000).2.machine 0x3000
      0xBFF81000 = unmapped ∧
    ¬ Preserves (oneProcess segmentMapped) 1 0x3000 := by
  have hbefore : getPhysicalAddress segmentMapped 0x3000 0xBFF81000 = 0x4000 := by decide +kernel
  have hnone : (allocUserStack (oneProcess segmentMapped) 1 0x3000).1 = none := by decide +kernel
  have hafter : getPhysicalAddress (allocUserStack (oneProcess segmentMapped) 1 0x3000).2.machine
      0x3000 0xBFF81000 = unmapped := by decide +kernel
  refine ⟨segmentMapped_owned, slotsOk_oneProcess _, rfl, by decide, hbefore, hnone, hafter,
    fun hp => ?_⟩
  unfold Preserves at hp
  rw [hnone] at hp
  have hsame : getPhysicalAddress (allocUserStack (oneProcess segmentMapped) 1 0x3000).2.machine
      0x3000 0xBFF81000 = getPhysicalAddress segmentMapped 0x3000 0xBFF81000 :=
    hp 0xBFF81000 (by decide)
  rw [hafter, hbefore] at hsame
  exact absurd hsame (by decide)

end Sched
end Hashx86
