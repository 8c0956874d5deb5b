import Hashx86.Sched.Clone

/-!
# `sys_brk` (`core/syscalls.cpp`)

`sysBrk` is `Handle_sys_brk` for a process with directory `d` and heap `heap`. Whether the heap of
the kernel has room for the roll-back array is an argument; the frames come from the machine.

* `Grown`: what the loop has done so far. The frames of the recorded pages were free, they are
  mapped at unmapped pages and zeroed; besides them only new tables are taken.
* `Grown.map`, `Grown.unmap`: one page more, and the roll-back of one page.
* `Atomic`: all or nothing. `brk_atomic`: it holds unless rounding the new break up to a page wraps,
  or the old break lies inside a page that is not mapped.
-/

namespace Hashx86
namespace Syscalls

open Lib Pmm Paging

/-! ## The call -/

/-- `PAGE_PRESENT | PAGE_RW | PAGE_USER` -/
def brkFlags : Nat := 7

/-- `(n + PAGE_SIZE - 1) & ~(PAGE_SIZE - 1)` -/
def pageUp (n : Nat) : Nat := (n + pageSize - 1) % 0x100000000 / pageSize * pageSize

/-- The roll-back: the recorded pages are unmapped and their frames freed. -/
def rollBack (d : Nat) : List (Nat × Nat) → Machine → Machine
  | [], m => m
  | (vaddr, phys) :: frames, m => rollBack d frames ((mapPage m d vaddr 0 0).2.freeBlock phys)

/-- The loop over the pages from `addr` on, `n` of them left. -/
def brkLoop (d : Nat) : (n addr : Nat) → List (Nat × Nat) → Machine → Bool × Machine
  | 0, _, _, m => (true, m)
  | n + 1, addr, frames, m =>
    if getPhysicalAddress m d addr = unmapped then
      let (phys, m) := m.allocBlockLow
      if phys = 0 then (false, rollBack d frames m)
      else
        let (ok, m) := mapPage (m.zero phys pageSize) d addr phys brkFlags
        if !ok then (false, rollBack d frames (m.freeBlock phys))
        else brkLoop d n (addr + pageSize) (frames ++ [(addr, phys)]) m
    else brkLoop d n (addr + pageSize) frames m

/-- The result `-1`, as a `uint32_t`. -/
def failure : Nat := 0xFFFFFFFF

/-- `Handle_sys_brk`: the result, the heap and the machine. -/
def sysBrk (kmallocOk : Bool) (m : Machine) (d : Nat) (heap : Sched.HeapSegment) (brk : Nat) :
    Nat × Sched.HeapSegment × Machine :=
  let oldBrk := heap.endAddress
  if brk = 0 then (oldBrk, heap, m)
  else if brk ≤ oldBrk then (oldBrk, heap, m)
  else if heap.maxAddress < brk then (failure, heap, m)
  else
    let pageStart := pageUp oldBrk
    let pageEnd := pageUp brk
    if pageEnd ≤ pageStart then (brk, { heap with endAddress := brk }, m)
    else if !kmallocOk then (failure, heap, m)
    else
      let (ok, m) := brkLoop d ((pageEnd - pageStart) / pageSize) pageStart [] m
      if !ok then (failure, heap, m)
      else (brk, { heap with endAddress := brk }, m)

/-! ## Walks -/

variable {base : Nat → Prop} {m₀ m m' : Machine} {own₀ own own' : Owners} {d : Nat}
variable {frames : List (Nat × Nat)}

theorem resolved_unmapped_iff (e : Nat) {va : Nat} (hva : va % 4096 = 0) :
    resolved e va = unmapped ↔ present e = false := by
  unfold resolved
  cases present e with
  | false => exact ⟨fun _ => rfl, fun _ => rfl⟩
  | true =>
    have := frameAddr_mod e
    rw [if_pos rfl]
    unfold unmapped
    exact ⟨fun h => by omega, nofun⟩

theorem unmapped_iff (m : Machine) (d : Nat) {a : Nat} (ha : a % 4096 = 0) :
    getPhysicalAddress m d a = unmapped ↔ present (pte m d (pdIdx a) (ptIdx a)) = false := by
  rw [getPhysicalAddress_eq]
  exact resolved_unmapped_iff _ ha

theorem resolved_not_present {e : Nat} (h : present e = false) (va : Nat) :
    resolved e va = unmapped := by
  unfold resolved
  rw [if_neg (by rw [h]; exact Bool.false_ne_true)]

theorem resolved_brk {f : Nat} (hf : f % 4096 = 0) (va : Nat) :
    resolved (f ||| brkFlags) va = f + va % 4096 := by
  have hp : present (f ||| brkFlags) = true := (present_or hf).trans rfl
  unfold resolved
  rw [if_pos hp, frameAddr_or hf (by decide)]

/-! ## What the loop has done -/

/-- Page `q` is the page of entry `j` of table `i`. -/
abbrev IsAt (q i j : Nat) : Prop := pdIdx q = i ∧ ptIdx q = j

/-- What is known of a recorded page `v` with frame `f`. -/
structure Recorded (m₀ m : Machine) (own : Owners) (d v f : Nat) : Prop where
  held : own f = some .held
  wasFree : Free m₀.pmm (f / 4096)
  va : v < 2 ^ 32 ∧ v % 4096 = 0 ∧ kernelIdx (pdIdx v) = false
  wasUnmapped : present (pte m₀ d (pdIdx v) (ptIdx v)) = false
  pte : pte m d (pdIdx v) (ptIdx v) = f ||| brkFlags
  zero : ∀ x < 4096, m.mem (f + x) = 0

structure Grown (base : Nat → Prop) (d : Nat) (m₀ : Machine) (own₀ : Owners)
    (frames : List (Nat × Nat)) (m : Machine) (own : Owners) : Prop where
  space : Space base m own
  dir : own d = some .dir
  recorded : ∀ {v f}, (v, f) ∈ frames → Recorded m₀ m own d v f
  vaddrs : (frames.map Prod.fst).Nodup
  physs : (frames.map Prod.snd).Nodup
  /-- The walks to the other pages are as before. -/
  others : ∀ {i j}, i < 1024 → j < 1024 → (∀ q ∈ frames, ¬ IsAt q.1 i j) → ∀ va,
    resolved (pte m d i j) va = resolved (pte m₀ d i j) va
  kept : ∀ {a u}, own₀ a = some u → own a = some u
  sub : ∀ {g}, Free m.pmm g → Free m₀.pmm g
  /-- A frame that was free is free, recorded or a new table. -/
  taken : ∀ {g}, Free m₀.pmm g → Free m.pmm g ∨ (∃ v, (v, g * 4096) ∈ frames) ∨
    ∃ i, kernelIdx i = false ∧ own (g * 4096) = some (.table d i) ∧ own₀ (g * 4096) = none

theorem Grown.init (hs : Space base m own) (hd : own d = some .dir) :
    Grown base d m own [] m own where
  space := hs
  dir := hd
  recorded h := nomatch h
  vaddrs := List.nodup_nil
  physs := List.nodup_nil
  others _ _ _ _ := rfl
  kept h := h
  sub h := h
  taken h := .inl h

/-- A `MapPage` in the directory leaves every use as it was. -/
theorem own_mapped {i j v t : Nat} (hm : Mapped base own own' m m' d i j v t) {a : Nat} {u : Use}
    (ha : own a = some u) : own' a = some u := by
  rcases hm.grown with hg | ⟨hnone, -, hg⟩
  · rw [hg]
    exact ha
  · rw [hg]
    exact update_of_some hnone ha

/-- A frame that is used for something else than a table of the directory is not written. -/
theorem mem_mapped {i j v t : Nat} (hm : Mapped base own own' m m' d i j v t) {a : Nat}
    (ha : own a = some .held) (hd : own d = some .dir) (hmod : a % 4096 = 0) {x : Nat}
    (hx : x < 4096) : m'.mem (a + x) = m.mem (a + x) := by
  refine hm.mem _ fun h => ?_
  rw [frameAddr_add hmod hx] at h
  rcases h with h | h
  · have := own_mapped hm ha
    rw [h, hm.table] at this
    exact absurd (Option.some.inj this) (by simp)
  · rw [h, hd] at ha
    exact absurd (Option.some.inj ha) (by simp)

/-- The frame that `pmm_alloc_block_low` returns is not that of a recorded page. -/
theorem Recorded.ne {v f a : Nat} (h : Recorded m₀ m own d v f) (ha : own a = none) : f ≠ a :=
  fun he => by
    have := h.held
    rw [he, ha] at this
    exact nomatch this

theorem isAt_iff {v w : Nat} (hv : v % 4096 = 0) (hw : w % 4096 = 0) :
    IsAt w (pdIdx v) (ptIdx v) ↔ w = v := by
  unfold IsAt
  rw [idx_eq_iff]
  omega

/-- A page that is not mapped is not recorded. -/
theorem Grown.not_recorded (h : Grown base d m₀ own₀ frames m own) {v : Nat} (hmod : v % 4096 = 0)
    (hun : present (pte m d (pdIdx v) (ptIdx v)) = false) : ∀ q ∈ frames, q.1 ≠ v := by
  rintro ⟨w, f⟩ hq rfl
  have hr := h.recorded hq
  rw [hr.pte, present_or (h.space.frames.aligned hr.held).1] at hun
  exact absurd hun (by decide)

theorem Grown.was_none (h : Grown base d m₀ own₀ frames m own) {a : Nat} (ha : own a = none) :
    own₀ a = none := by
  cases h₀ : own₀ a with
  | none => rfl
  | some u =>
    rw [h.kept h₀] at ha
    exact nomatch ha

/-! ## One page more -/

/-- A frame is taken and zeroed. -/
theorem allocZero_cases (h : Space base m own) : m.allocBlockLow = (0, m) ∨
    ∃ f m₁, m.allocBlockLow = (f, m₁) ∧ f ≠ 0 ∧ f % 4096 = 0 ∧ own f = none ∧
      Space base (m₁.zero f pageSize) (Function.update own f (some .held)) ∧
      SameTables base own m (m₁.zero f pageSize) ∧
      (∀ x, frameAddr x ≠ f → (m₁.zero f pageSize).mem x = m.mem x) ∧
      (∀ x < 4096, (m₁.zero f pageSize).mem (f + x) = 0) ∧ Free m.pmm (f / 4096) ∧
      ∀ g, Free (m₁.zero f pageSize).pmm g ↔ Free m.pmm g ∧ g ≠ f / 4096 := by
  rcases h.alloc with he | ⟨f, m₁, he, h0, hmod, hnone, hbase, hs, hmem, hkd, -, hwas, hfree⟩
  · exact .inl he
  · have hheld : Function.update own f (some Use.held) f = some .held := Function.update_self ..
    have hstore : SameTables base (Function.update own f (some .held)) m₁ (m₁.zero f pageSize) :=
      sameTables_store _ hmod (hs.held_not_structural hheld)
    have hother : ∀ x, frameAddr x ≠ f → (m₁.zero f pageSize).mem x = m.mem x := fun x hx => by
      rw [← hmem]
      exact Machine.mem_store_of_ne _ hmod hx
    have hnot : ¬ Structural base own f := by
      rintro (hb | hd | ⟨e, i, ht⟩)
      · exact hbase hb
      · rw [hnone] at hd
        exact nomatch hd
      · rw [hnone] at ht
        exact nomatch ht
    refine .inr ⟨f, m₁, he, h0, hmod, hnone, hs.same hstore rfl,
      ⟨hkd, fun a ha => hother a fun heq => hnot (heq ▸ ha)⟩, hother, fun x hx => ?_, hwas, hfree⟩
    have hlt : f + x < f + pageSize := Nat.add_lt_add_left hx f
    exact overwrite_of_in m₁.mem (fun _ => 0) (Nat.le_add_right f x) hlt

/-- A call that leaves the walks, the recorded frames and all uses alone. -/
theorem Grown.keep (h : Grown base d m₀ own₀ frames m own) (hs : Space base m' own)
    (hpte : ∀ i j, i < 1024 → j < 1024 → pte m' d i j = pte m d i j)
    (hmem : ∀ a, own a = some .held → ∀ x < 4096, m'.mem (a + x) = m.mem (a + x))
    (hfree : ∀ g, Free m'.pmm g ↔ Free m.pmm g) : Grown base d m₀ own₀ frames m' own where
  space := hs
  dir := h.dir
  recorded hq := by
    have hr := h.recorded hq
    refine ⟨hr.held, hr.wasFree, hr.va, hr.wasUnmapped, ?_, fun x hx => ?_⟩
    · rw [hpte _ _ (pdIdx_lt hr.va.1) (ptIdx_lt _), hr.pte]
    · rw [hmem _ hr.held x hx, hr.zero x hx]
  vaddrs := h.vaddrs
  physs := h.physs
  others hi hj hq va := by rw [hpte _ _ hi hj, h.others hi hj hq va]
  kept := h.kept
  sub hg := h.sub ((hfree _).mp hg)
  taken hg := (h.taken hg).imp_left (hfree _).mpr

/-- What mapping page `v` does to the directory. -/
structure Maps (m m' : Machine) (d v : Nat) : Prop where
  tabled : ∀ i < 1024, present (m'.entry d i) = (present (m.entry d i) || decide (i = pdIdx v))
  pte : ∀ {i j}, i < 1024 → j < 1024 → ¬ IsAt v i j → pte m' d i j = pte m d i j

/-- What a page of the loop does: it is mapped to a frame that is new and recorded, or nothing
changes but that frames are taken and given back. -/
theorem Grown.map (h : Grown base d m₀ own₀ frames m own) {v : Nat} (hv : v < 2 ^ 32)
    (hmod : v % 4096 = 0) (hun : present (pte m d (pdIdx v) (ptIdx v)) = false) :
    m.allocBlockLow = (0, m) ∨ ∃ f m₁, m.allocBlockLow = (f, m₁) ∧ f ≠ 0 ∧
      ((mapPage (m₁.zero f pageSize) d v f brkFlags = (false, m₁.zero f pageSize) ∧
          Grown base d m₀ own₀ frames ((m₁.zero f pageSize).freeBlock f) own) ∨
        ∃ m' own', mapPage (m₁.zero f pageSize) d v f brkFlags = (true, m') ∧
          Grown base d m₀ own₀ (frames ++ [(v, f)]) m' own' ∧ Maps m m' d v) := by
  rcases allocZero_cases h.space with
    he | ⟨f, m₁, he, h0, hfmod, hnone, hs, hsame, hother, hzero, hwas, hfree⟩
  · exact .inl he
  refine .inr ⟨f, m₁, he, h0, ?_⟩
  have hheld : Function.update own f (some Use.held) f = some .held := Function.update_self ..
  have hkeep : ∀ {a u}, own a = some u → Function.update own f (some .held) a = some u :=
    update_of_some hnone
  have hpte : ∀ i j, i < 1024 → j < 1024 → pte (m₁.zero f pageSize) d i j = pte m d i j :=
    fun i j hi hj => h.space.tables.pte_same h.space.frames hsame h.dir hi hj
  have hmem : ∀ a, own a = some .held → ∀ x < 4096,
      (m₁.zero f pageSize).mem (a + x) = m.mem (a + x) := fun a ha x hx => hother _ fun heq => by
    rw [frameAddr_add (h.space.frames.aligned ha).1 hx] at heq
    rw [heq, hnone] at ha
    exact nomatch ha
  have hval : frameAddr f ||| brkFlags < 2 ^ 32 := by
    refine Nat.or_lt_two_pow (Nat.lt_of_le_of_lt (frameAddr_le f) ?_) (by decide)
    have := (hs.frames.aligned hheld).2.2
    unfold lowLimit at this
    omega
  rcases mapPage_cases hs (hkeep h.dir) hv hval with hm | ⟨m', own', t, hm, hk, hmap⟩
  · -- The frame is given back.
    refine .inl ⟨hm, ?_⟩
    obtain ⟨hs', -, hfree'⟩ := hs.free hheld
    rw [Function.update_idem, ← hnone, Function.update_eq_self] at hs'
    refine h.keep hs' hpte hmem fun g => ?_
    rw [hfree', hfree]
    refine ⟨fun hg => hg.elim And.left fun hg => hg ▸ hwas, fun hg => ?_⟩
    by_cases hgf : g = f / 4096
    · exact .inr hgf
    · exact .inl ⟨hg, hgf⟩
  · refine .inr ⟨m', own', hm, ?_⟩
    rw [frameAddr_of_mod hfmod] at hmap
    have hnew := h.not_recorded hmod hun
    have hat : ∀ q ∈ frames, ¬ IsAt q.1 (pdIdx v) (ptIdx v) := fun q hq hat =>
      hnew q hq ((isAt_iff hmod (h.recorded hq).va.2.1).mp hat)
    have hwasUn : present (pte m₀ d (pdIdx v) (ptIdx v)) = false := by
      rw [← resolved_unmapped_iff _ hmod, ← h.others (pdIdx_lt hv) (ptIdx_lt v) hat,
        resolved_unmapped_iff _ hmod]
      exact hun
    have hpte' : ∀ i j, i < 1024 → j < 1024 → ¬ IsAt v i j → pte m' d i j = pte m d i j :=
      fun i j hi hj hne => by
        rw [hmap.pte d i j (hkeep h.dir) hi hj, if_neg fun he => hne ⟨he.2.1.symm, he.2.2.symm⟩,
          hpte i j hi hj]
    have hmem' : ∀ {a}, Function.update own f (some .held) a = some .held → ∀ x < 4096,
        m'.mem (a + x) = (m₁.zero f pageSize).mem (a + x) := fun ha x hx =>
      mem_mapped hmap ha (hkeep h.dir) (hs.frames.aligned ha).1 hx
    have htabled : ∀ i < 1024, present (m'.entry d i) =
        (present (m.entry d i) || decide (i = pdIdx v)) := fun i hi => by
      have hent : (m₁.zero f pageSize).entry d i = m.entry d i :=
        hsame.entry (.inr (.inl h.dir)) (h.space.frames.aligned h.dir).1 hi
      by_cases hiv : i = pdIdx v
      · rw [hiv, (hmap.space.tables.table.mp hmap.table).2.2.1]
        simp
      · rcases hmap.entries d i (hkeep h.dir) hi with heq | ⟨-, hi', -⟩
        · rw [heq, hent]
          simp [hiv]
        · exact absurd hi' hiv
    refine ⟨{
      space := hmap.space
      dir := own_mapped hmap (hkeep h.dir)
      recorded := fun {w g} hq => by
        rcases List.mem_append.mp hq with hq | hq
        · have hr := h.recorded hq
          refine ⟨own_mapped hmap (hkeep hr.held), hr.wasFree, hr.va, hr.wasUnmapped, ?_,
            fun x hx => ?_⟩
          · rw [hpte' _ _ (pdIdx_lt hr.va.1) (ptIdx_lt _) fun hat' => hat _ hq
              ⟨hat'.1.symm, hat'.2.symm⟩, hr.pte]
          · rw [hmem' (hkeep hr.held) x hx, hmem g hr.held x hx, hr.zero x hx]
        · obtain ⟨rfl, rfl⟩ := Prod.mk.inj (List.mem_singleton.mp hq)
          refine ⟨own_mapped hmap hheld, h.sub hwas, ⟨hv, hmod, hk⟩, hwasUn, ?_, fun x hx => ?_⟩
          · rw [hmap.pte d _ _ (hkeep h.dir) (pdIdx_lt hv) (ptIdx_lt _), if_pos ⟨rfl, rfl, rfl⟩]
          · rw [hmem' hheld x hx, hzero x hx]
      vaddrs := by
        rw [List.map_append, List.nodup_append]
        refine ⟨h.vaddrs, List.nodup_singleton _, fun w hw x hx => ?_⟩
        obtain ⟨q, hq, rfl⟩ := List.mem_map.mp hw
        rw [List.mem_singleton.mp hx]
        exact hnew q hq
      physs := by
        rw [List.map_append, List.nodup_append]
        refine ⟨h.physs, List.nodup_singleton _, fun w hw x hx => ?_⟩
        obtain ⟨⟨w', g⟩, hq, rfl⟩ := List.mem_map.mp hw
        rw [List.mem_singleton.mp hx]
        exact (h.recorded hq).ne hnone
      others := fun {i j} hi hj hq va => by
        rw [hpte' i j hi hj (hq (v, f) (List.mem_append_right _ List.mem_cons_self))]
        exact h.others hi hj (fun q hq' => hq q (List.mem_append_left _ hq')) va
      kept := fun ha => own_mapped hmap (hkeep (h.kept ha))
      sub := fun hg => h.sub ((hfree _).mp ((hmap.free _).mp hg).1).1
      taken := fun {g} hg => by
        rcases h.taken hg with hg | ⟨w, hq⟩ | ⟨i, hki, ht, hn⟩
        · by_cases hgf : g = f / 4096
          · refine .inr (.inl ⟨v, List.mem_append_right _ (List.mem_singleton.mpr ?_)⟩)
            rw [hgf, Nat.div_mul_cancel (Nat.dvd_of_mod_eq_zero hfmod)]
          · have hg₂ := (hfree g).mpr ⟨hg, hgf⟩
            rcases hmap.grown with hown | ⟨htn, -, hown⟩
            · exact .inl ((hmap.free g).mpr ⟨hg₂, .inl hown⟩)
            · by_cases hgt : g = t / 4096
              · have htmod := (hmap.space.frames.aligned hmap.table).1
                have heq : g * 4096 = t := by omega
                refine .inr (.inr ⟨pdIdx v, hk, heq ▸ hmap.table, heq ▸ h.was_none ?_⟩)
                cases ho : own t with
                | none => rfl
                | some u =>
                  rw [hkeep ho] at htn
                  exact nomatch htn
              · exact .inl ((hmap.free g).mpr ⟨hg₂, .inr hgt⟩)
        · exact .inr (.inl ⟨w, List.mem_append_left _ hq⟩)
        · exact .inr (.inr ⟨i, hki, own_mapped hmap (hkeep ht), hn⟩) },
      ⟨htabled, fun hi hj hne => hpte' _ _ hi hj hne⟩⟩

/-! ## The roll-back -/

theorem mapPage_fst (pa flags : Nat) {va : Nat} (hk : kernelIdx (pdIdx va) = false)
    (hp : present (m.entry d (pdIdx va)) = true) : (mapPage m d va pa flags).1 = true := by
  unfold mapPage ensureTable
  rw [if_neg (by rw [hk]; exact Bool.false_ne_true), if_pos hp]
  rfl

/-- One page of the roll-back. Its table is there, so that `MapPage` does not fail. -/
theorem Grown.unmap {v f : Nat} (h₀ : Space base m₀ own₀)
    (h : Grown base d m₀ own₀ ((v, f) :: frames) m own) : ∃ own',
    Grown base d m₀ own₀ frames ((mapPage m d v 0 0).2.freeBlock f) own' := by
  have hr := h.recorded List.mem_cons_self
  obtain ⟨hv, hmod, hk⟩ := hr.va
  have hfmod := (h.space.frames.aligned hr.held).1
  have hpe : present (m.entry d (pdIdx v)) = true := by
    by_contra hne
    have hzero := pte_of_not_present (d := d) (Bool.eq_false_iff.mpr hne) (ptIdx v)
    have hp : present (f ||| brkFlags) = true := (present_or hfmod).trans rfl
    rw [hr.pte] at hzero
    rw [hzero] at hp
    exact absurd hp (by decide)
  have hfst := mapPage_fst (m := m) (d := d) 0 0 hk hpe
  rcases mapPage_cases h.space h.dir hv (show frameAddr 0 ||| 0 < 2 ^ 32 by decide) with
    hm | ⟨m', own', t, hm, -, hmap⟩
  · rw [hm] at hfst
    exact absurd hfst Bool.false_ne_true
  rw [hm]
  have hheld := own_mapped hmap hr.held
  obtain ⟨hs, -, hfree⟩ := hmap.space.free hheld
  have hkeep : ∀ {a u}, own a = some u → a ≠ f → Function.update own' f none a = some u :=
    fun ha hne => by
      rw [Function.update_of_ne hne]
      exact own_mapped hmap ha
  have hdf : d ≠ f := fun he => by
    have := h.dir
    rw [he, hr.held] at this
    exact absurd (Option.some.inj this) (by simp)
  have hnone : own₀ f = none := by
    cases ho : own₀ f with
    | none => rfl
    | some u => exact absurd hr.wasFree (h₀.frames.owned ho).2.1
  have hvs := List.nodup_cons.mp h.vaddrs
  have hfs := List.nodup_cons.mp h.physs
  have hpte' : ∀ i j, i < 1024 → j < 1024 → ¬ IsAt v i j → pte m' d i j = pte m d i j :=
    fun i j hi hj hne => by
      rw [hmap.pte d i j h.dir hi hj, if_neg fun he => hne ⟨he.2.1.symm, he.2.2.symm⟩]
  refine ⟨_, {
    space := hs
    dir := hkeep h.dir hdf
    recorded := fun {w g} hq => ?_
    vaddrs := hvs.2
    physs := hfs.2
    others := fun {i j} hi hj hq va => ?_
    kept := fun {a u} ha => hkeep (h.kept ha) fun he => by
      rw [he, hnone] at ha
      exact nomatch ha
    sub := fun {g} hg => ?_
    taken := fun {g} hg => ?_ }⟩
  · have hrw := h.recorded (List.mem_cons_of_mem _ hq)
    have hgf : g ≠ f := fun he => hfs.1 (List.mem_map.mpr ⟨(w, g), hq, he⟩)
    have hwv : ¬ IsAt v (pdIdx w) (ptIdx w) := fun hat =>
      hvs.1 (List.mem_map.mpr ⟨(w, g), hq, ((isAt_iff hrw.va.2.1 hmod).mp hat).symm⟩)
    refine ⟨hkeep hrw.held hgf, hrw.wasFree, hrw.va, hrw.wasUnmapped, ?_, fun x hx => ?_⟩
    · exact (hpte' _ _ (pdIdx_lt hrw.va.1) (ptIdx_lt _) hwv).trans hrw.pte
    · exact (mem_mapped hmap hrw.held h.dir (h.space.frames.aligned hrw.held).1 hx).trans
        (hrw.zero x hx)
  · by_cases hat : IsAt v i j
    · obtain ⟨rfl, rfl⟩ := hat
      have hzero : pte m' d (pdIdx v) (ptIdx v) = 0 := by
        rw [hmap.pte d _ _ h.dir hi hj, if_pos ⟨rfl, rfl, rfl⟩]
        rfl
      calc resolved (pte m' d (pdIdx v) (ptIdx v)) va
          = unmapped := by rw [hzero]; exact resolved_not_present rfl va
        _ = resolved (pte m₀ d (pdIdx v) (ptIdx v)) va :=
          (resolved_not_present hr.wasUnmapped va).symm
    · have hq' : ∀ q ∈ (v, f) :: frames, ¬ IsAt q.1 i j := fun q hm => by
        rcases List.mem_cons.mp hm with rfl | hm
        · exact hat
        · exact hq q hm
      exact (congrArg (resolved · va) (hpte' i j hi hj hat)).trans (h.others hi hj hq' va)
  · rcases (hfree g).mp hg with hg | rfl
    · exact h.sub ((hmap.free g).mp hg).1
    · exact hr.wasFree
  · have hfreed : ∀ {g}, g * 4096 = f → Free (m'.freeBlock f).pmm g := fun {g} he =>
      (hfree g).mpr (.inr (by omega))
    rcases h.taken hg with hg | ⟨w, hq⟩ | ⟨i, hki, ht, hn⟩
    · rcases hmap.grown with hown | ⟨htn, -, hown⟩
      · exact .inl ((hfree g).mpr (.inl ((hmap.free g).mpr ⟨hg, .inl hown⟩)))
      · by_cases hgt : g = t / 4096
        · have htmod := (hmap.space.frames.aligned hmap.table).1
          have heq : g * 4096 = t := by omega
          refine .inr (.inr ⟨pdIdx v, hk, ?_, heq ▸ h.was_none htn⟩)
          rw [heq, Function.update_of_ne fun he => by
            rw [he, hr.held] at htn
            exact nomatch htn]
          exact hmap.table
        · exact .inl ((hfree g).mpr (.inl ((hmap.free g).mpr ⟨hg, .inr hgt⟩)))
    · rcases List.mem_cons.mp hq with he | hq
      · exact .inl (hfreed (Prod.mk.inj he).2)
      · exact .inr (.inl ⟨w, hq⟩)
    · refine .inr (.inr ⟨i, hki, hkeep ht fun he => ?_, hn⟩)
      rw [he, hr.held] at ht
      exact absurd (Option.some.inj ht) (by simp)

/-- The roll-back undoes everything but the new tables. -/
theorem Grown.rollBack (h₀ : Space base m₀ own₀) (frames : List (Nat × Nat)) :
    ∀ {m : Machine} {own : Owners}, Grown base d m₀ own₀ frames m own →
    ∃ own', Grown base d m₀ own₀ [] (Syscalls.rollBack d frames m) own' := by
  induction frames with
  | nil => exact fun {m own} h => ⟨own, h⟩
  | cons q frames ih =>
    intro m own h
    obtain ⟨own', h'⟩ := Grown.unmap (v := q.1) (f := q.2) h₀ h
    exact ih h'

/-- The outcomes of the loop. -/
theorem brkLoop_cases (h₀ : Space base m₀ own₀) (n : Nat) : ∀ {addr : Nat}
    {frames : List (Nat × Nat)} {m : Machine} {own : Owners},
    Grown base d m₀ own₀ frames m own → addr % 4096 = 0 → addr + n * pageSize ≤ 0x100000000 →
    (∃ m' own', brkLoop d n addr frames m = (false, m') ∧ Grown base d m₀ own₀ [] m' own') ∨
    ∃ frames' m' own', brkLoop d n addr frames m = (true, m') ∧
      Grown base d m₀ own₀ frames' m' own' ∧
      (∀ q ∈ frames', q ∈ frames ∨ addr ≤ q.1 ∧ q.1 < addr + n * pageSize) ∧ (frames ⊆ frames') ∧
      ∀ a, addr ≤ a → a < addr + n * pageSize → a % 4096 = 0 →
        (∃ f, (a, f) ∈ frames') ∨ present (pte m₀ d (pdIdx a) (ptIdx a)) = true := by
  induction n with
  | zero =>
    exact fun {addr frames m own} h _ _ => .inr ⟨frames, m, own, rfl, h, fun q hq => .inl hq,
      fun _ hq => hq, fun a h1 h2 => by omega⟩
  | succ n ih =>
    intro addr frames m own h hmod hend
    have hsize : addr + (n + 1) * pageSize = addr + pageSize + n * pageSize := by
      unfold pageSize
      omega
    have hpage : pageSize = 4096 := rfl
    rw [hsize] at hend ⊢
    have hv : addr < 2 ^ 32 := by omega
    have hnext : (addr + pageSize) % 4096 = 0 := by omega
    -- What the rest of the loop says about the pages from `addr` on.
    have hrest : ∀ {frames₁ : List (Nat × Nat)} {m₁ : Machine} {own₁ : Owners},
        Grown base d m₀ own₀ frames₁ m₁ own₁ → frames ⊆ frames₁ →
        (∀ q ∈ frames₁, q ∈ frames ∨ q.1 = addr) →
        ((∃ f, (addr, f) ∈ frames₁) ∨ present (pte m₀ d (pdIdx addr) (ptIdx addr)) = true) →
        (∃ m' own', brkLoop d n (addr + pageSize) frames₁ m₁ = (false, m') ∧
          Grown base d m₀ own₀ [] m' own') ∨
        ∃ frames' m' own', brkLoop d n (addr + pageSize) frames₁ m₁ = (true, m') ∧
          Grown base d m₀ own₀ frames' m' own' ∧
          (∀ q ∈ frames', q ∈ frames ∨ addr ≤ q.1 ∧ q.1 < addr + pageSize + n * pageSize) ∧
          (frames ⊆ frames') ∧
          ∀ a, addr ≤ a → a < addr + pageSize + n * pageSize → a % 4096 = 0 →
            (∃ f, (a, f) ∈ frames') ∨ present (pte m₀ d (pdIdx a) (ptIdx a)) = true := by
      intro frames₁ m₁ own₁ h₁ hsub hback hhere
      rcases ih h₁ hnext hend with hfail | ⟨frames', m', own', he, h', hq', hsub', hall⟩
      · exact .inl hfail
      · refine .inr ⟨frames', m', own', he, h', fun q hq => ?_, fun q hq => hsub' (hsub hq),
          fun a h1 h2 h3 => ?_⟩
        · rcases hq' q hq with hq | hq
          · exact (hback q hq).imp_right fun he => by omega
          · exact .inr (by omega)
        · by_cases ha : a = addr
          · subst ha
            exact hhere.imp_left fun ⟨f, hf⟩ => ⟨f, hsub' hf⟩
          · exact hall a (by omega) h2 h3
    rw [brkLoop]
    by_cases hun : getPhysicalAddress m d addr = unmapped
    · rw [if_pos hun]
      rcases h.map hv hmod ((unmapped_iff m d hmod).mp hun) with
        he | ⟨f, m₁, he, h0, ⟨hm, hback⟩ | ⟨m', own', hm, hgrown, -⟩⟩
      · rw [he]
        obtain ⟨own', h'⟩ := Grown.rollBack h₀ frames h
        exact .inl ⟨_, own', if_pos rfl, h'⟩
      · rw [he]
        dsimp only
        rw [if_neg h0, hm]
        obtain ⟨own', h'⟩ := Grown.rollBack h₀ frames hback
        exact .inl ⟨_, own', if_pos rfl, h'⟩
      · rw [he]
        dsimp only
        rw [if_neg h0, hm]
        dsimp only
        rw [if_neg (by simp)]
        refine hrest hgrown (List.subset_append_left _ _) (fun q hq => ?_)
          (.inl ⟨f, List.mem_append_right _ List.mem_cons_self⟩)
        rcases List.mem_append.mp hq with hq | hq
        · exact .inl hq
        · exact .inr (by rw [List.mem_singleton.mp hq])
    · rw [if_neg hun]
      refine hrest h (fun _ hq => hq) (fun q hq => .inl hq) ?_
      by_cases hrec : ∃ f, (addr, f) ∈ frames
      · exact .inl hrec
      · right
        have hat : ∀ q ∈ frames, ¬ IsAt q.1 (pdIdx addr) (ptIdx addr) := fun q hq hat =>
          hrec ⟨q.2, ((isAt_iff hmod (h.recorded hq).va.2.1).mp hat) ▸ hq⟩
        by_contra hne
        refine hun ((unmapped_iff m d hmod).mpr ?_)
        rw [← resolved_unmapped_iff _ hmod, h.others (pdIdx_lt hv) (ptIdx_lt _) hat,
          resolved_unmapped_iff _ hmod]
        exact Bool.eq_false_iff.mpr hne

/-! ## All or nothing -/

/-- Page `a` has an address of the new part of the heap. -/
def PageOf (oldBrk brk a : Nat) : Prop := a % 4096 = 0 ∧ oldBrk < brk ∧ oldBrk < a + 4096 ∧ a < brk

/-- Frame `g` holds a table that the directory did not have. -/
def NewTable (m m' : Machine) (d g : Nat) : Prop :=
  ∃ i < 1024, present (m.entry d i) = false ∧ present (m'.entry d i) = true ∧
    frameAddr (m'.entry d i) = g * 4096

/-- No address translates differently, and what was free is free, new tables apart. -/
structure Unchanged (m m' : Machine) (d : Nat) : Prop where
  walks : ∀ va < 0x100000000, getPhysicalAddress m' d va = getPhysicalAddress m d va
  frames : ∀ g, Free m.pmm g → Free m'.pmm g ∨ NewTable m m' d g

/-- Page `a` is mapped to a frame that was free and is zeroed. -/
structure NewPage (m m' : Machine) (d a f : Nat) : Prop where
  frame : f % 4096 = 0 ∧ Free m.pmm (f / 4096)
  walk : ∀ x < 4096, getPhysicalAddress m' d (a + x) = f + x
  zero : ∀ x < 4096, m'.mem (f + x) = 0

/-- Exactly the unmapped pages of the new part are mapped, each to a frame of its own. -/
structure Grew (m m' : Machine) (d oldBrk brk : Nat) : Prop where
  pages : ∃ frame : Nat → Nat, ∀ a, PageOf oldBrk brk a → getPhysicalAddress m d a = unmapped →
    NewPage m m' d a (frame a) ∧ ∀ b, PageOf oldBrk brk b → getPhysicalAddress m d b = unmapped →
      frame a = frame b → a = b
  others : ∀ va < 0x100000000, ¬ (PageOf oldBrk brk (frameAddr va) ∧
      getPhysicalAddress m d (frameAddr va) = unmapped) →
    getPhysicalAddress m' d va = getPhysicalAddress m d va

structure Atomic (kmallocOk : Bool) (m : Machine) (d : Nat) (heap : Sched.HeapSegment)
    (brk : Nat) : Prop where
  failed : (sysBrk kmallocOk m d heap brk).1 = failure →
    (sysBrk kmallocOk m d heap brk).2.1.endAddress = heap.endAddress ∧
      Unchanged m (sysBrk kmallocOk m d heap brk).2.2 d
  done : (sysBrk kmallocOk m d heap brk).1 ≠ failure →
    Grew m (sysBrk kmallocOk m d heap brk).2.2 d heap.endAddress brk

/-- A growth is not to the last address, and the pages of the new part that rounding leaves out are
mapped: the page of the old break, and all of them when the new break rounds up to 0. -/
def Covered (m : Machine) (d : Nat) (heap : Sched.HeapSegment) (brk : Nat) : Prop :=
  heap.endAddress < brk → brk ≤ heap.maxAddress → brk ≠ failure ∧
    ∀ a, PageOf heap.endAddress brk a → ¬ (pageUp heap.endAddress ≤ a ∧ a < pageUp brk) →
      getPhysicalAddress m d a ≠ unmapped

theorem pageUp_mod (n : Nat) : pageUp n % 4096 = 0 := Nat.mul_mod_left _ _

theorem pageUp_eq {n : Nat} (h : n ≤ 0xFFFFF000) : n ≤ pageUp n ∧ pageUp n < n + 4096 := by
  unfold pageUp pageSize
  omega

theorem pageUp_wraps {n : Nat} (h : 0xFFFFF000 < n) (hn : n < 0x100000000) : pageUp n = 0 := by
  unfold pageUp pageSize
  omega

theorem unchanged_refl (m : Machine) (d : Nat) : Unchanged m m d :=
  ⟨fun _ _ => rfl, fun _ h => .inl h⟩

/-- Nothing to map: every page of the new part is mapped already. -/
theorem grew_refl {oldBrk brk : Nat} (h : ∀ a, PageOf oldBrk brk a →
    getPhysicalAddress m d a ≠ unmapped) : Grew m m d oldBrk brk :=
  ⟨⟨fun _ => 0, fun a ha hun => absurd hun (h a ha)⟩, fun _ _ _ => rfl⟩

/-- After a failure there is nothing left but new tables. -/
theorem Grown.unchanged (h₀ : Space base m₀ own₀) (hd₀ : own₀ d = some .dir)
    (h : Grown base d m₀ own₀ [] m own) : Unchanged m₀ m d := by
  refine ⟨fun va hva => ?_, fun g hg => ?_⟩
  · rw [getPhysicalAddress_eq, getPhysicalAddress_eq]
    exact h.others (pdIdx_lt hva) (ptIdx_lt va) (fun _ hq => nomatch hq) va
  · rcases h.taken hg with hg | ⟨_, hq⟩ | ⟨i, hki, ht, hn⟩
    · exact .inl hg
    · exact nomatch hq
    · obtain ⟨-, hi, hp, haddr, -⟩ := h.space.tables.table.mp ht
      refine .inr ⟨i, hi, ?_, hp, haddr⟩
      -- A table that the entry led to before would be the table of the entry still.
      by_contra hne
      have ht₀ : own₀ (frameAddr (m₀.entry d i)) = some (.table d i) :=
        h₀.tables.table.mpr ⟨hd₀, hi, by simpa using hne, rfl, fun hk =>
          absurd (hki.symm.trans hk) Bool.false_ne_true⟩
      have heq : frameAddr (m₀.entry d i) = g * 4096 :=
        (h.space.tables.table.mp (h.kept ht₀)).2.2.2.1.symm.trans haddr
      rw [heq, hn] at ht₀
      exact nomatch ht₀

/-- After a success the recorded pages are the new ones. -/
theorem Grown.grew {oldBrk brk : Nat} (h : Grown base d m₀ own₀ frames m own)
    (hnew : ∀ q ∈ frames, PageOf oldBrk brk q.1)
    (hall : ∀ a, PageOf oldBrk brk a → getPhysicalAddress m₀ d a = unmapped →
      ∃ f, (a, f) ∈ frames) : Grew m₀ m d oldBrk brk := by
  classical
  refine ⟨⟨fun a => if h : ∃ f, (a, f) ∈ frames then h.choose else 0, fun a ha hun => ?_⟩,
    fun va hva hno => ?_⟩
  · have hex := hall a ha hun
    have hr := h.recorded hex.choose_spec
    have hfmod := (h.space.frames.aligned hr.held).1
    dsimp only
    rw [dif_pos hex]
    refine ⟨⟨⟨hfmod, hr.wasFree⟩, fun x hx => ?_, hr.zero⟩, fun b hb hunb heq => ?_⟩
    · have hidx : pdIdx (a + x) = pdIdx a ∧ ptIdx (a + x) = ptIdx a := by
        rw [idx_eq_iff]
        have := ha.1
        omega
      have hoff : (a + x) % 4096 = x := by
        have := ha.1
        omega
      rw [getPhysicalAddress_eq, hidx.1, hidx.2, hr.pte, resolved_brk hfmod, hoff]
    · have hexb := hall b hb hunb
      rw [dif_pos hexb] at heq
      exact congrArg Prod.fst (List.inj_on_of_nodup_map h.physs hex.choose_spec hexb.choose_spec heq)
  · rw [getPhysicalAddress_eq, getPhysicalAddress_eq]
    refine h.others (pdIdx_lt hva) (ptIdx_lt va) (fun q hq hat => hno ?_) va
    have hr := h.recorded hq
    have hpage : frameAddr va = q.1 := by
      have := (idx_eq_iff _ _).mp hat
      have := hr.va.2.1
      unfold frameAddr
      omega
    rw [hpage]
    exact ⟨hnew q hq, (unmapped_iff _ _ hr.va.2.1).mpr hr.wasUnmapped⟩

/-- What a growth does when there are whole pages to add. -/
theorem sysBrk_grow {heap : Sched.HeapSegment} {brk : Nat} (h₀ : Space base m own)
    (hd : own d = some .dir) (h1 : heap.endAddress < brk) (h2 : brk ≤ heap.maxAddress)
    (hp : pageUp heap.endAddress < pageUp brk) (k : Bool) :
    (∃ m', sysBrk k m d heap brk = (failure, heap, m') ∧ Unchanged m m' d) ∨
    ∃ m' frames own', sysBrk k m d heap brk = (brk, { heap with endAddress := brk }, m') ∧
      Grown base d m own frames m' own' ∧
      (∀ q ∈ frames, pageUp heap.endAddress ≤ q.1 ∧ q.1 < pageUp brk) ∧
      ∀ a, pageUp heap.endAddress ≤ a → a < pageUp brk → a % 4096 = 0 →
        (∃ f, (a, f) ∈ frames) ∨ present (pte m d (pdIdx a) (ptIdx a)) = true := by
  have hpage : pageSize = 4096 := rfl
  have hm1 := pageUp_mod heap.endAddress
  have hm2 := pageUp_mod brk
  have hn : pageUp heap.endAddress + (pageUp brk - pageUp heap.endAddress) / pageSize * pageSize =
      pageUp brk := by
    rw [hpage]
    omega
  have hle : pageUp brk ≤ 0x100000000 := by
    unfold pageUp pageSize
    omega
  unfold sysBrk
  dsimp only
  rw [if_neg (by omega), if_neg (by omega), if_neg (by omega), if_neg (by omega)]
  cases k with
  | false => exact .inl ⟨m, rfl, unchanged_refl m d⟩
  | true =>
    rw [if_neg (by decide)]
    rcases brkLoop_cases h₀ ((pageUp brk - pageUp heap.endAddress) / pageSize) (.init h₀ hd) hm1
        (hn.symm ▸ hle) with ⟨m', own', he, hg⟩ | ⟨frames, m', own', he, hg, hq, -, hall⟩
    · rw [he]
      exact .inl ⟨m', rfl, hg.unchanged h₀ hd⟩
    · rw [he]
      rw [hn] at hq hall
      exact .inr ⟨m', frames, own', rfl, hg, fun q hm => (hq q hm).resolve_left nofun, hall⟩

/-- A growth inside the last page, or one whose pages round away, maps nothing. -/
theorem sysBrk_same {heap : Sched.HeapSegment} {brk : Nat} (h1 : heap.endAddress < brk)
    (h2 : brk ≤ heap.maxAddress) (hp : pageUp brk ≤ pageUp heap.endAddress) (k : Bool) :
    sysBrk k m d heap brk = (brk, { heap with endAddress := brk }, m) := by
  unfold sysBrk
  dsimp only
  rw [if_neg (by omega), if_neg (by omega), if_neg (by omega), if_pos hp]

/-- A call that does not grow the heap changes nothing. -/
theorem sysBrk_stay {heap : Sched.HeapSegment} {brk : Nat}
    (h : ¬ (heap.endAddress < brk ∧ brk ≤ heap.maxAddress)) (k : Bool) :
    Atomic k m d heap brk := by
  have hgrew : ¬ heap.endAddress < brk → Grew m m d heap.endAddress brk := fun hle =>
    grew_refl fun a ha => absurd ha.2.1 hle
  have hcase : sysBrk k m d heap brk = (heap.endAddress, heap, m) ∧ ¬ heap.endAddress < brk ∨
      sysBrk k m d heap brk = (failure, heap, m) := by
    unfold sysBrk
    dsimp only
    by_cases h0 : brk = 0
    · exact .inl ⟨if_pos h0, by omega⟩
    · rw [if_neg h0]
      by_cases hle : brk ≤ heap.endAddress
      · exact .inl ⟨if_pos hle, by omega⟩
      · rw [if_neg hle, if_pos (by omega)]
        exact .inr rfl
  rcases hcase with ⟨he, hle⟩ | he
  · refine ⟨fun _ => ?_, fun _ => ?_⟩
    · rw [he]
      exact ⟨rfl, unchanged_refl m d⟩
    · rw [he]
      exact hgrew hle
  · refine ⟨fun _ => ?_, fun hne => absurd ?_ hne⟩
    · rw [he]
      exact ⟨rfl, unchanged_refl m d⟩
    · rw [he]

theorem atomic_of_covered {heap : Sched.HeapSegment} {brk : Nat} (h₀ : Space base m own)
    (hd : own d = some .dir) (hbrk : brk < 0x100000000) (hc : Covered m d heap brk) (k : Bool) :
    Atomic k m d heap brk := by
  by_cases hgrow : heap.endAddress < brk ∧ brk ≤ heap.maxAddress
  · obtain ⟨h1, h2⟩ := hgrow
    obtain ⟨hne, hcov⟩ := hc h1 h2
    by_cases hp : pageUp heap.endAddress < pageUp brk
    · rcases sysBrk_grow h₀ hd h1 h2 hp k with ⟨m', he, hu⟩ | ⟨m', frames, own', he, hg, hq, hall⟩
      · refine ⟨fun _ => ?_, fun hno => absurd ?_ hno⟩
        · rw [he]
          exact ⟨rfl, hu⟩
        · rw [he]
      · refine ⟨fun hno => absurd ?_ hne, fun _ => ?_⟩
        · rw [he] at hno
          exact hno
        · rw [he]
          -- Some page is to be added, so nothing wraps.
          have hlow : brk ≤ 0xFFFFF000 := by
            by_contra hw
            rw [pageUp_wraps (by omega) hbrk] at hp
            exact absurd hp (by omega)
          have hb := pageUp_eq hlow
          have ho := pageUp_eq (n := heap.endAddress) (by omega)
          refine hg.grew (fun q hm => ?_) fun a ha hun => ?_
          · have := hq q hm
            have hmod := (hg.recorded hm).va.2.1
            have := pageUp_mod brk
            exact ⟨hmod, h1, by omega, by omega⟩
          · by_cases hin : pageUp heap.endAddress ≤ a ∧ a < pageUp brk
            · refine (hall a hin.1 hin.2 ha.1).resolve_right fun hpres => ?_
              rw [unmapped_iff _ _ ha.1, hpres] at hun
              exact Bool.false_ne_true hun.symm
            · exact absurd hun (hcov a ha hin)
    · have he := sysBrk_same (m := m) (d := d) h1 h2 (by omega) k
      refine ⟨fun hno => absurd ?_ hne, fun _ => ?_⟩
      · rw [he] at hno
        exact hno
      · rw [he]
        exact grew_refl fun a ha => hcov a ha (by omega)
  · exact sysBrk_stay hgrow k

/-- Where no page is to be added, the pages of the new part must be mapped. -/
theorem covered_of_atomic {heap : Sched.HeapSegment} {brk : Nat}
    (hp : pageUp brk ≤ pageUp heap.endAddress) {k : Bool} (h : Atomic k m d heap brk) :
    Covered m d heap brk := by
  intro h1 h2
  have he := sysBrk_same (m := m) (d := d) h1 h2 hp k
  have hne : brk ≠ failure := fun hf => by
    have := (h.failed (by rw [he]; exact hf)).1
    rw [he] at this
    exact absurd this (by dsimp only; omega)
  refine ⟨hne, fun a ha _ hun => ?_⟩
  have hg := h.done (by rw [he]; exact hne)
  rw [he] at hg
  obtain ⟨frame, hpages⟩ := hg.pages
  have hnew := (hpages a ha hun).1
  have hwalk := hnew.walk 0 (by decide)
  have hmod := hnew.frame.1
  rw [Nat.add_zero, hun] at hwalk
  unfold unmapped at hwalk
  omega

end Syscalls
end Hashx86
