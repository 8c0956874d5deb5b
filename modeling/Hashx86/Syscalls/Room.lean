import Hashx86.Syscalls.Brk

/-!
# When `sys_brk` gets its memory

* `room`: the free frames below 256 MiB. `alloc_room`: an allocation fails exactly when there is
  none, and takes one.
* `meets`: the room is enough for the missing pages of a range and their missing tables, and no
  missing page is in the range of the kernel. `brkLoop_fst`: then, and only then, the loop succeeds.
* `brk_atomic_iff`: the condition under which a call is all or nothing.
-/

namespace Hashx86
namespace Syscalls

open Lib Pmm Paging

/-- The free frames below the limit of `pmm_alloc_block_low`. -/
@[irreducible] def room (p : Info) : Nat :=
  lowLimit / 4096 - countBits (fun f => !decide (Free p f)) (lowLimit / 4096)

variable {base : Nat → Prop} {m₀ m m' : Machine} {own₀ own own' : Owners} {d : Nat}

theorem room_congr {p p' : Info} (h : ∀ g, Free p' g ↔ Free p g) : room p' = room p := by
  unfold room
  rw [countBits_congr fun f _ => by rw [decide_eq_decide.mpr (h f)]]

theorem room_pos_iff (p : Info) : 0 < room p ↔ ∃ f, FreeLow p (lowLimit / 4096) f := by
  have hle := countBits_le (fun f => !decide (Free p f)) (lowLimit / 4096)
  have hlt := countBits_lt_iff (b := fun f => !decide (Free p f)) (n := lowLimit / 4096)
  unfold room
  constructor
  · intro h
    obtain ⟨f, hf, hb⟩ := hlt.mp (by omega)
    exact ⟨f, by simpa using hb, hf⟩
  · rintro ⟨f, hf, hlim⟩
    have := hlt.mpr ⟨f, hlim, by simpa using hf⟩
    omega

theorem room_take {p p' : Info} {f : Nat} (hf : FreeLow p (lowLimit / 4096) f)
    (h : ∀ g, Free p' g ↔ Free p g ∧ g ≠ f) : room p' + 1 = room p := by
  have hcount : countBits (fun g => !decide (Free p' g)) (lowLimit / 4096) =
      countBits (fun g => !decide (Free p g)) (lowLimit / 4096) + 1 := by
    refine countBits_set hf.2 (by simpa using hf.1) ?_ fun k hk => ?_
    · simp [h f]
    · simp [h k, hk]
  have hle := countBits_le (fun g => !decide (Free p' g)) (lowLimit / 4096)
  unfold room
  omega

/-- The outcome of an allocation is decided by the room. -/
theorem alloc_room (h : Space base m own) :
    (room m.pmm = 0 → m.allocBlockLow.1 = 0) ∧
    (0 < room m.pmm → m.allocBlockLow.1 ≠ 0 ∧ room m.allocBlockLow.2.pmm + 1 = room m.pmm) := by
  unfold Machine.allocBlockLow
  dsimp only
  rcases allocBlockLow_cases h.frames.wf lowLimit with ⟨he, hno⟩ | ⟨f, hf, -, he⟩
  · rw [he]
    exact ⟨fun _ => rfl, fun hpos => absurd ((room_pos_iff _).mp hpos) fun ⟨g, hg⟩ => hno g hg⟩
  · have hpos := (room_pos_iff m.pmm).mpr ⟨f, hf⟩
    refine ⟨fun h0 => by omega, fun _ => ⟨?_, ?_⟩⟩
    · rw [he, takeFrame_addr h.frames.wf hf.1]
      intro h0
      have hf0 : f = 0 := by omega
      have hused := (h.frames.used 0 h.frames.zero).2
      rw [Nat.zero_div, ← hf0] at hused
      exact hused hf.1
    · have hiff : ∀ g, Free (takeFrame m.pmm f).2 g ↔ Free m.pmm g ∧ g ≠ f :=
        fun g => free_takeFrame hf.1
      rw [he]
      exact room_take hf hiff

theorem setEntry_pmm (m : Machine) (table i v : Nat) : (m.setEntry table i v).pmm = m.pmm := rfl

theorem zero_pmm (m : Machine) (addr n : Nat) : (m.zero addr n).pmm = m.pmm := rfl

/-- What a table takes: a frame when it is missing. -/
theorem ensureTable_room (h : Space base m own) (pd : Nat) :
    (ensureTable m d pd).1 = (present (m.entry d pd) || decide (0 < room m.pmm)) ∧
    ((ensureTable m d pd).1 = true → room (ensureTable m d pd).2.pmm =
      room m.pmm - if present (m.entry d pd) then 0 else 1) := by
  obtain ⟨hnone, hsome⟩ := alloc_room h
  unfold ensureTable
  cases hp : present (m.entry d pd) with
  | true =>
    rw [if_pos rfl, if_pos rfl, Bool.true_or, Nat.sub_zero]
    exact ⟨rfl, fun _ => rfl⟩
  | false =>
    rw [if_neg Bool.false_ne_true, if_neg Bool.false_ne_true, Bool.false_or]
    dsimp only
    by_cases hpos : 0 < room m.pmm
    · obtain ⟨h1, h2⟩ := hsome hpos
      rw [if_neg h1, decide_eq_true hpos]
      refine ⟨rfl, fun _ => ?_⟩
      rw [setEntry_pmm, zero_pmm]
      omega
    · rw [if_pos (hnone (by omega)), decide_eq_false hpos]
      exact ⟨rfl, nofun⟩

/-- What `MapPage` takes is what the table takes. -/
theorem mapPage_room (h : Space base m own) (pa flags : Nat) {va : Nat}
    (hk : kernelIdx (pdIdx va) = false) :
    (mapPage m d va pa flags).1 = (present (m.entry d (pdIdx va)) || decide (0 < room m.pmm)) ∧
    ((mapPage m d va pa flags).1 = true → room (mapPage m d va pa flags).2.pmm =
      room m.pmm - if present (m.entry d (pdIdx va)) then 0 else 1) := by
  obtain ⟨hok, hroom⟩ := ensureTable_room (d := d) h (pdIdx va)
  unfold mapPage
  rw [if_neg (by rw [hk]; exact Bool.false_ne_true), ← hok]
  dsimp only
  cases ht : (ensureTable m d (pdIdx va)).1 with
  | true =>
    rw [if_neg (by decide)]
    refine ⟨rfl, fun _ => ?_⟩
    rw [setEntry_pmm]
    exact hroom ht
  | false =>
    rw [if_pos (by decide)]
    exact ⟨rfl, nofun⟩

/-- The room is enough for the pages from `addr` on that are not mapped, `n` pages in all, and for
the tables that they miss. -/
def meets (tabled mapped : Nat → Bool) : (n addr room : Nat) → Bool
  | 0, _, _ => true
  | n + 1, addr, room =>
    if mapped addr then meets tabled mapped n (addr + pageSize) room
    else
      let cost := if tabled (pdIdx addr) then 1 else 2
      !kernelIdx (pdIdx addr) && decide (cost ≤ room) &&
        meets (fun i => tabled i || decide (i = pdIdx addr)) mapped n (addr + pageSize)
          (room - cost)

theorem meets_congr {mapped mapped' : Nat → Bool} (n : Nat) : ∀ {tabled tabled' : Nat → Bool}
    {addr r : Nat}, addr + n * pageSize ≤ 0x100000000 → (∀ i < 1024, tabled i = tabled' i) →
    (∀ k < n, mapped (addr + k * pageSize) = mapped' (addr + k * pageSize)) →
    meets tabled mapped n addr r = meets tabled' mapped' n addr r := by
  induction n with
  | zero => exact fun _ _ _ => rfl
  | succ n ih =>
    intro tabled tabled' addr r hend ht hm
    have hend : addr + (n + 1) * 4096 ≤ 0x100000000 := hend
    have hend' : addr + pageSize + n * pageSize ≤ 0x100000000 :=
      show addr + 4096 + n * 4096 ≤ 0x100000000 by omega
    have hidx : pdIdx addr < 1024 := pdIdx_lt (by omega)
    have hhere : mapped addr = mapped' addr := by
      have := hm 0 (by omega)
      rwa [Nat.zero_mul, Nat.add_zero] at this
    have hnext : ∀ k < n, mapped (addr + pageSize + k * pageSize) =
        mapped' (addr + pageSize + k * pageSize) := fun k hk => by
      have := hm (k + 1) (by omega)
      rwa [Nat.succ_mul, Nat.add_comm (k * pageSize), ← Nat.add_assoc] at this
    rw [meets, meets, hhere, ht _ hidx]
    dsimp only
    rw [ih hend' ht hnext, ih hend' (fun i hi => by rw [ht i hi]) hnext]

/-- Entry `i` of the directory leads to a table. -/
def tabledAt (m : Machine) (d i : Nat) : Bool := present (m.entry d i)

/-- The page is mapped. -/
def mappedAt (m : Machine) (d a : Nat) : Bool := present (pte m d (pdIdx a) (ptIdx a))

/-- The loop succeeds exactly when the room is enough. -/
theorem brkLoop_fst (n : Nat) : ∀ {addr : Nat} {frames : List (Nat × Nat)} {m : Machine}
    {own : Owners}, Grown base d m₀ own₀ frames m own → addr % 4096 = 0 →
    addr + n * pageSize ≤ 0x100000000 →
    (brkLoop d n addr frames m).1 = meets (tabledAt m d) (mappedAt m d) n addr (room m.pmm) := by
  induction n with
  | zero => exact fun _ _ _ => rfl
  | succ n ih =>
    intro addr frames m own h hmod hend
    have hend : addr + (n + 1) * 4096 ≤ 0x100000000 := hend
    have hend' : addr + pageSize + n * pageSize ≤ 0x100000000 :=
      show addr + 4096 + n * 4096 ≤ 0x100000000 by omega
    have hmod' : (addr + pageSize) % 4096 = 0 := show (addr + 4096) % 4096 = 0 by omega
    have hv : addr < 2 ^ 32 := by omega
    rw [brkLoop, meets]
    cases hun : mappedAt m d addr with
    | true =>
      rw [if_neg fun hu => ?_, if_pos rfl]
      · exact ih h hmod' hend'
      · rw [unmapped_iff m d hmod] at hu
        exact Bool.false_ne_true (hu.symm.trans hun)
    | false =>
      rw [if_pos ((unmapped_iff m d hmod).mpr hun), if_neg Bool.false_ne_true]
      dsimp only
      obtain ⟨hnone, hsome⟩ := alloc_room h.space
      rcases h.map hv hmod hun with he | ⟨f, m₁, he, h0, hmap⟩
      · have hroom : room m.pmm = 0 := by
          by_contra hne
          exact (hsome (by omega)).1 (by rw [he])
        rw [he]
        dsimp only
        rw [if_pos rfl, hroom]
        split <;> simp
      · have hpos : 0 < room m.pmm := by
          by_contra hne
          exact h0 (by rw [← hnone (by omega), he])
        have hroom₁ : room m₁.pmm + 1 = room m.pmm := by
          have := (hsome hpos).2
          rwa [he] at this
        have hzero : ∃ own₂, Space base (m₁.zero f pageSize) own₂ ∧
            (m₁.zero f pageSize).entry d (pdIdx addr) = m.entry d (pdIdx addr) := by
          rcases allocZero_cases h.space with he₂ | ⟨f₂, m₂, he₂, -, -, -, hs, hsame, -⟩
          · exact absurd (congrArg Prod.fst (he.symm.trans he₂)) h0
          · obtain ⟨rfl, rfl⟩ := Prod.mk.inj (he₂.symm.trans he)
            exact ⟨_, hs, hsame.entry (.inr (.inl h.dir)) (h.space.frames.aligned h.dir).1
              (pdIdx_lt hv)⟩
        obtain ⟨own₂, hs₂, hent⟩ := hzero
        rw [he]
        dsimp only
        rw [if_neg h0]
        cases hk : kernelIdx (pdIdx addr) with
        | true =>
          have hm : mapPage (m₁.zero f pageSize) d addr f brkFlags =
              (false, m₁.zero f pageSize) := if_pos hk
          rw [hm]
          rfl
        | false =>
          obtain ⟨hfst, hleft⟩ := mapPage_room (d := d) hs₂ f brkFlags hk
          have hpmm : room (m₁.zero f pageSize).pmm = room m₁.pmm := by rw [zero_pmm]
          rw [hent, hpmm] at hfst hleft
          have htab : tabledAt m d (pdIdx addr) = present (m.entry d (pdIdx addr)) := rfl
          rw [htab]
          rcases hmap with ⟨hm, -⟩ | ⟨m', own', hm, hg, hmaps⟩
          · rw [hm] at hfst
            obtain ⟨hp, hr⟩ := Bool.or_eq_false_iff.mp hfst.symm
            have hr := of_decide_eq_false hr
            have hcost : decide (2 ≤ room m.pmm) = false := decide_eq_false (by omega)
            rw [hm, hp, if_neg Bool.false_ne_true, hcost]
            rfl
          · rw [hm] at hfst hleft
            have hroom' : room m'.pmm = room m.pmm -
                (if present (m.entry d (pdIdx addr)) then 1 else 2) := by
              have := hleft rfl
              dsimp only at this
              rw [this]
              split <;> omega
            have hcost : decide ((if present (m.entry d (pdIdx addr)) then 1 else 2) ≤
                room m.pmm) = true := by
              refine decide_eq_true ?_
              cases hp : present (m.entry d (pdIdx addr)) with
              | true => rw [if_pos rfl]; exact hpos
              | false =>
                rw [hp, Bool.false_or] at hfst
                have := of_decide_eq_true hfst.symm
                rw [if_neg Bool.false_ne_true]
                omega
            rw [hm]
            dsimp only
            rw [if_neg (by simp), ih hg hmod' hend', hroom', hcost]
            refine (meets_congr n hend' (fun i hi => hmaps.tabled i hi) fun k hk => ?_).trans
              (Bool.true_and _).symm
            have hpage : ¬ IsAt addr (pdIdx (addr + 4096 + k * 4096))
                (ptIdx (addr + 4096 + k * 4096)) := fun hat => by
              have := (isAt_iff (by omega) hmod).mp hat
              omega
            have hlt : addr + 4096 + k * 4096 < 2 ^ 32 := by omega
            exact congrArg present (hmaps.pte (pdIdx_lt hlt) (ptIdx_lt _) hpage)

/-! ## The condition -/

/-- The call gets what it needs: the roll-back array, and the frames for the whole pages of the new
part. -/
def Served (kmallocOk : Bool) (m : Machine) (d : Nat) (heap : Sched.HeapSegment) (brk : Nat) :
    Prop :=
  kmallocOk = true ∧ meets (tabledAt m d) (mappedAt m d)
    ((pageUp brk - pageUp heap.endAddress) / pageSize) (pageUp heap.endAddress) (room m.pmm) = true

/-- A growth by whole pages succeeds exactly when it is served. -/
theorem sysBrk_served {heap : Sched.HeapSegment} {brk : Nat} (h : Space base m own)
    (hd : own d = some .dir) (h1 : heap.endAddress < brk) (h2 : brk ≤ heap.maxAddress)
    (hp : pageUp heap.endAddress < pageUp brk) (k : Bool) :
    (sysBrk k m d heap brk).2.1.endAddress = brk ↔ Served k m d heap brk := by
  have hm1 := pageUp_mod heap.endAddress
  have hm2 := pageUp_mod brk
  have hend : pageUp heap.endAddress + (pageUp brk - pageUp heap.endAddress) / pageSize * pageSize ≤
      0x100000000 := by
    unfold pageUp pageSize
    omega
  have hloop := brkLoop_fst _ (.init h hd) hm1 hend
  unfold sysBrk Served
  dsimp only
  rw [if_neg (by omega), if_neg (by omega), if_neg (by omega), if_neg (by omega)]
  cases k with
  | false => exact ⟨fun he => absurd he (by change heap.endAddress ≠ brk; omega), nofun⟩
  | true =>
    rw [if_neg (by decide), hloop]
    cases meets (tabledAt m d) (mappedAt m d) ((pageUp brk - pageUp heap.endAddress) / pageSize)
        (pageUp heap.endAddress) (room m.pmm) with
    | false => exact ⟨fun he => absurd he (by change heap.endAddress ≠ brk; omega), nofun⟩
    | true => exact ⟨fun _ => ⟨rfl, rfl⟩, fun _ => rfl⟩

/-- All or nothing: the new part is covered, or there are whole pages to add and no memory for
them. -/
theorem brk_atomic_iff {heap : Sched.HeapSegment} {brk : Nat} (h : Space base m own)
    (hd : own d = some .dir) (hbrk : brk < 0x100000000) (k : Bool) :
    Atomic k m d heap brk ↔ Covered m d heap brk ∨
      pageUp heap.endAddress < pageUp brk ∧ ¬ Served k m d heap brk := by
  by_cases hgrow : heap.endAddress < brk ∧ brk ≤ heap.maxAddress
  · obtain ⟨h1, h2⟩ := hgrow
    by_cases hp : pageUp heap.endAddress < pageUp brk
    · have hserved := sysBrk_served h hd h1 h2 hp k
      rcases sysBrk_grow h hd h1 h2 hp k with ⟨m', he, hu⟩ | ⟨m', frames, own', he, hg, hq, -⟩
      · -- The call fails.
        refine iff_of_true ⟨fun _ => ?_, fun hno => absurd ?_ hno⟩ (.inr ⟨hp, fun hs => ?_⟩)
        · rw [he]
          exact ⟨rfl, hu⟩
        · rw [he]
        · rw [he] at hserved
          have := hserved.mpr hs
          dsimp only at this
          omega
      · have hyes : Served k m d heap brk := hserved.mp (by rw [he])
        refine ⟨fun ha => .inl fun _ _ => ?_, fun hc =>
          atomic_of_covered h hd hbrk (hc.resolve_right fun hn => hn.2 hyes) k⟩
        have hne : brk ≠ failure := fun hf => by
          rw [pageUp_wraps (by rw [hf]; decide) hbrk] at hp
          exact absurd hp (by omega)
        refine ⟨hne, fun a hpage hout hun => ?_⟩
        -- The page keeps its walk, as it is not among the recorded ones.
        have hgrew := ha.done (by rw [he]; exact hne)
        rw [he] at hgrew
        obtain ⟨frame, hpages⟩ := hgrew.pages
        have hnew := (hpages a hpage hun).1
        have hwalk := hnew.walk 0 (by decide)
        have ha32 : a < 2 ^ 32 := Nat.lt_trans hpage.2.2.2 hbrk
        have hsame : getPhysicalAddress m' d a = getPhysicalAddress m d a := by
          rw [getPhysicalAddress_eq, getPhysicalAddress_eq]
          refine hg.others (pdIdx_lt ha32) (ptIdx_lt a) (fun q hm hat => hout ?_) a
          have := (isAt_iff hpage.1 (hg.recorded hm).va.2.1).mp hat
          exact this ▸ hq q hm
        have hmod := hnew.frame.1
        rw [Nat.add_zero, hsame, hun] at hwalk
        unfold unmapped at hwalk
        omega
    · exact ⟨fun ha => .inl (covered_of_atomic (by omega) ha), fun hc =>
        atomic_of_covered h hd hbrk (hc.resolve_right fun hn => hp hn.1) k⟩
  · exact iff_of_true (sysBrk_stay hgrow k) (.inl fun h1 h2 => absurd ⟨h1, h2⟩ hgrow)

/-- A heap at the end of the address space. -/
def lastPage : Sched.HeapSegment := ⟨0xFFFFF000, 0xFFFFF000, 0xFFFFFFFF⟩

/-- An empty heap above the low memory. -/
def lowHeap : Sched.HeapSegment := ⟨0x10000000, 0x10000000, 0x20000000⟩

theorem brk_atomic_low : Atomic true Sched.oneDirectory 0x3000 lowHeap 0x10000800 := by
  obtain ⟨own, h, hd, hnew⟩ := Sched.oneDirectory_owned
  refine (brk_atomic_iff h.toSpace hd (by decide) true).mpr (.inl fun _ _ => ⟨by decide, ?_⟩)
  intro a ha hout
  have h1 := ha.1
  have h2 := ha.2.2.1
  have h3 := ha.2.2.2
  have hlow : pageUp lowHeap.endAddress = 0x10000000 := by decide
  have hhigh : pageUp 0x10000800 = 0x10001000 := by decide
  have hstart : lowHeap.endAddress = 0x10000000 := rfl
  rw [hlow, hhigh] at hout
  rw [hstart] at h2
  omega

/-- `sys_brk(0xFFFFFFFF)` rounds up to 0, moves the break and returns `-1`. -/
theorem brk_wraps : ¬ Atomic true Sched.oneDirectory 0x3000 lastPage 0xFFFFFFFF := by
  intro h
  have hrun : sysBrk true Sched.oneDirectory 0x3000 lastPage 0xFFFFFFFF =
      (0xFFFFFFFF, { lastPage with endAddress := 0xFFFFFFFF }, Sched.oneDirectory) :=
    sysBrk_same (by decide) (by decide) (by decide) true
  have hend := (h.failed (by rw [hrun]; rfl)).1
  rw [hrun] at hend
  exact absurd hend (by decide)

end Syscalls
end Hashx86
