import Hashx86.Paging.Space

/-!
# What the paging calls do to the frames and the walks

`Space` is `Frames` with `Tables`: what holds between the calls. `Mapped` is what a `MapPage` that
succeeds does: one page-table entry of one directory changes, and a table may be new.

* `createProcessDirectory_cases`, `mapPage_cases`: the outcomes of the calls.
* `Space.alloc`, `Space.free`: a frame is taken and given back.
-/

namespace Hashx86
namespace Paging

open Lib Pmm

structure Space (base : Nat → Prop) (m : Machine) (own : Owners) : Prop where
  frames : Frames base m.pmm own
  tables : Tables base m own

variable {base : Nat → Prop} {m m' : Machine} {own own' : Owners} {a d i j t : Nat}

/-- Only the frames at these addresses are written. -/
def WritesOnly (m m' : Machine) (frames : Nat → Prop) : Prop :=
  ∀ x, ¬ frames (frameAddr x) → m'.mem x = m.mem x

theorem Space.held_not_structural (h : Space base m own) (ha : own a = some .held) :
    ¬ Structural base own a := by
  rintro (hb | hd | ⟨d, i, ht⟩)
  · exact (h.frames.owned ha).2.2 hb
  · rw [ha] at hd
    exact absurd (Option.some.inj hd) (by simp)
  · rw [ha] at ht
    exact absurd (Option.some.inj ht) (by simp)

/-- The kernel does not use a frame of the processes. -/
theorem Space.kernelDir_ne (h : Space base m own) {u : Use} (ha : own a = some u) :
    a ≠ m.kernelPageDirectory := fun he => (h.frames.owned ha).2.2 (he ▸ h.tables.kernelDir.1)

/-! ## Frames come and go -/

/-- Uses that are not held are the same. -/
theorem update_held_iff (ho : own a = none ∨ own a = some .held) {o : Option Use}
    (hn : o = none ∨ o = some .held) {u : Use} (hu : u ≠ .held) (b : Nat) :
    Function.update own a o b = some u ↔ own b = some u := by
  by_cases hb : b = a
  · rw [hb, Function.update_self]
    refine iff_of_false (fun h => ?_) fun h => ?_
    · rcases hn with hn | hn <;> rw [hn] at h
      · exact absurd h (by simp)
      · exact hu (Option.some.inj h).symm
    · rcases ho with ho | ho <;> rw [ho] at h
      · exact absurd h (by simp)
      · exact hu (Option.some.inj h).symm
  · rw [Function.update_of_ne hb]

theorem Space.alloc (h : Space base m own) : m.allocBlockLow = (0, m) ∨
    ∃ a m', m.allocBlockLow = (a, m') ∧ a ≠ 0 ∧ a % 4096 = 0 ∧ own a = none ∧ ¬ base a ∧
      Space base m' (Function.update own a (some .held)) ∧ m'.mem = m.mem ∧
      m'.kernelPageDirectory = m.kernelPageDirectory ∧ m'.log = .alloc a :: m.log ∧
      Free m.pmm (a / 4096) ∧ ∀ g, Free m'.pmm g ↔ Free m.pmm g ∧ g ≠ a / 4096 := by
  unfold Machine.allocBlockLow
  rcases h.frames.alloc with he | ⟨a, p', he, h0, hmod, hnone, hbase, hf, hfree, hiff⟩
  · rw [he]
    exact .inl rfl
  · rw [he]
    dsimp only
    rw [if_neg h0]
    refine .inr ⟨a, _, rfl, h0, hmod, hnone, hbase, ⟨hf, ?_⟩, rfl, rfl, rfl, hfree, hiff⟩
    have hsame : SameTables base own m { m with pmm := p', log := .alloc a :: m.log } :=
      ⟨rfl, fun _ _ => rfl⟩
    exact (h.tables.same h.frames hsame).reown
      (fun d => update_held_iff (.inl hnone) (.inr rfl) (by simp) d)
      fun b d i => update_held_iff (.inl hnone) (.inr rfl) (by simp) b

/-- The guard of `pmm_free_block` lets a frame of the processes pass. -/
theorem Space.unguarded (h : Space base m own) {u : Use} (ha : own a = some u) :
    m.kernelDir.any (·.guards a) = false := by
  have hbase := (h.frames.owned ha).2.2
  have hne : ∀ i < 1024, kernelIdx i →
      (m.entry m.kernelPageDirectory i / 4096 * 4096 == a) = false := fun i hi hk => by
    rw [beq_eq_false_iff_ne]
    intro he
    have hb := (h.tables.kernelTables i hi hk).2
    unfold frameAddr at hb
    rw [he] at hb
    exact hbase hb
  have hdir : (a == m.kernelPageDirectory / 4096 * 4096) = false := by
    rw [beq_eq_false_iff_ne]
    intro he
    have hmod := h.tables.kernelDir.2
    have hb := h.tables.kernelDir.1
    rw [show m.kernelPageDirectory = a by omega] at hb
    exact hbase hb
  unfold Machine.kernelDir
  split
  · rfl
  · rw [Option.any_some]
    unfold KernelDir.guards
    dsimp only
    rw [hdir, Bool.or_false, Bool.or_eq_false_iff, List.any_eq_false, List.any_eq_false]
    refine ⟨fun i hi => ?_, fun i hi => ?_⟩
    · have hi := List.mem_range.mp hi
      rw [hne i (by omega) (by unfold kernelIdx; simp [hi])]
      exact Bool.false_ne_true
    · obtain ⟨h1, h2⟩ := List.mem_range'_1.mp hi
      rw [hne i (by omega) (by unfold kernelIdx; simp; omega)]
      exact Bool.false_ne_true

/-- A frame that is held is freed. -/
theorem Space.free (h : Space base m own) (ha : own a = some .held) :
    Space base (m.freeBlock a) (Function.update own a none) ∧
      (m.freeBlock a).log = .free a true :: m.log ∧
      ∀ g, Free (m.freeBlock a).pmm g ↔ Free m.pmm g ∨ g = a / 4096 := by
  obtain ⟨hf, hused, hfree⟩ := h.frames.free ha (h.unguarded ha)
  refine ⟨⟨hf, ?_⟩, ?_, hfree⟩
  · have hsame : SameTables base own m (m.freeBlock a) := ⟨rfl, fun _ _ => rfl⟩
    exact (h.tables.same h.frames hsame).reown
      (fun d => update_held_iff (.inr ha) (.inl rfl) (by simp) d)
      fun b d i => update_held_iff (.inr ha) (.inl rfl) (by simp) b
  · unfold Machine.freeBlock
    dsimp only
    rw [hused]

/-- Memory that holds no table is written. -/
theorem Space.same (h : Space base m own) (hs : SameTables base own m m') (hp : m'.pmm = m.pmm) :
    Space base m' own := ⟨hp ▸ h.frames, h.tables.same h.frames hs⟩

/-- The use of a frame that had none leaves the other uses alone. -/
theorem update_of_some {own : Owners} {a b : Nat} {o : Option Use} {u : Use} (ha : own a = none)
    (hb : own b = some u) : Function.update own a o b = some u := by
  rw [Function.update_of_ne fun heq => by
    rw [heq, ha] at hb
    exact absurd hb (by simp)]
  exact hb

/-! ## `CreateProcessDirectory` -/

theorem linkKernel_pmm (newDir : Nat) (n : Nat) : ∀ (m : Machine) (lo : Nat),
    (linkKernel m newDir lo n).pmm = m.pmm ∧ (linkKernel m newDir lo n).log = m.log ∧
      (linkKernel m newDir lo n).kernelPageDirectory = m.kernelPageDirectory := by
  induction n with
  | zero => exact fun _ _ => ⟨rfl, rfl, rfl⟩
  | succ n ih => exact fun m lo => ih (m.setEntry newDir lo (m.entry m.kernelPageDirectory lo)) (lo + 1)

theorem linkKernel_spec (ha : a % 4096 = 0) (n : Nat) : ∀ (m : Machine) (lo : Nat),
    m.kernelPageDirectory % 4096 = 0 → m.kernelPageDirectory ≠ a → lo + n ≤ 1024 →
    WritesOnly m (linkKernel m a lo n) (· = a) ∧ ∀ i < 1024, (linkKernel m a lo n).entry a i =
      if lo ≤ i ∧ i < lo + n then m.entry m.kernelPageDirectory i else m.entry a i := by
  induction n with
  | zero =>
    intro m lo hk hne hlo
    exact ⟨fun _ _ => rfl, fun i _ => (if_neg (by omega)).symm⟩
  | succ n ih =>
    intro m lo hk hne hlo
    have hset : WritesOnly m (m.setEntry a lo (m.entry m.kernelPageDirectory lo)) (· = a) :=
      fun x hx => Machine.mem_setEntry_of_ne ha (by omega) hx
    obtain ⟨hw, he⟩ := ih (m.setEntry a lo (m.entry m.kernelPageDirectory lo)) (lo + 1) hk hne
      (by omega)
    refine ⟨fun x hx => (hw x hx).trans (hset x hx), fun i hi => ?_⟩
    have hkd : (m.setEntry a lo (m.entry m.kernelPageDirectory lo)).entry m.kernelPageDirectory i =
        m.entry m.kernelPageDirectory i :=
      Machine.entry_setEntry_of_ne _ ha hk (by omega) hi (.inl hne)
    rw [linkKernel, he i hi, Machine.entry_setEntry (Machine.entry_lt _ _ _) ha ha (by omega) hi]
    by_cases h1 : lo + 1 ≤ i ∧ i < lo + 1 + n
    · rw [if_pos h1, if_pos (by omega)]
      exact hkd
    · rw [if_neg h1]
      by_cases h2 : i = lo
      · subst h2
        rw [if_pos ⟨rfl, rfl⟩, if_pos (by omega)]
      · rw [if_neg (fun h => h2 h.2), if_neg (by omega)]

/-- The shared ranges of a directory are those of the kernel. -/
def Linked (m : Machine) (d : Nat) : Prop :=
  ∀ i < 1024, kernelIdx i → m.entry d i = m.entry m.kernelPageDirectory i

/-- What a successful `CreateProcessDirectory` does. -/
structure NewDir (base : Nat → Prop) (own : Owners) (m m' : Machine) (a : Nat) : Prop where
  space : Space base m' (Function.update own a (some .dir))
  fresh : own a = none ∧ ¬ base a ∧ a ≠ 0
  kernelDir : m'.kernelPageDirectory = m.kernelPageDirectory
  linked : Linked m' a
  empty : ∀ i < 1024, kernelIdx i = false → m'.entry a i = 0
  mem : WritesOnly m m' (· = a)
  log : m'.log = .alloc a :: m.log
  free : Free m.pmm (a / 4096) ∧ ∀ g, Free m'.pmm g ↔ Free m.pmm g ∧ g ≠ a / 4096

theorem createProcessDirectory_cases (h : Space base m own) :
    createProcessDirectory m = (0, m) ∨
    ∃ a m', createProcessDirectory m = (a, m') ∧ NewDir base own m m' a := by
  unfold createProcessDirectory
  rcases h.alloc with he | ⟨a, m₁, he, h0, hmod, hnone, hbase, hs, hmem, hkd, hlog, hfree, hiff⟩
  · rw [he]
    exact .inl rfl
  · rw [he]
    dsimp only
    rw [if_neg h0]
    have hheld : Function.update own a (some .held) a = some .held := Function.update_self ..
    have hne : m₁.kernelPageDirectory ≠ a := (hs.kernelDir_ne hheld).symm
    have hkmod := hs.tables.kernelDir.2
    obtain ⟨hw₁, he₁⟩ := linkKernel_spec hmod 64 (m₁.zero a 4096) 0 hkmod hne (by decide)
    obtain ⟨hp₁, hl₁, hk₁⟩ := linkKernel_pmm a 64 (m₁.zero a 4096) 0
    generalize linkKernel (m₁.zero a 4096) a 0 64 = m₂ at hw₁ he₁ hp₁ hl₁ hk₁ ⊢
    have hk₂ : m₂.kernelPageDirectory = m₁.kernelPageDirectory := hk₁
    obtain ⟨hw₂, he₂⟩ := linkKernel_spec hmod 256 m₂ 768 (hk₂ ▸ hkmod) (hk₂ ▸ hne) (by decide)
    obtain ⟨hp₂, hl₂, hk₃⟩ := linkKernel_pmm a 256 m₂ 768
    generalize linkKernel m₂ a 768 256 = m₃ at hw₂ he₂ hp₂ hl₂ hk₃ ⊢
    have hw : WritesOnly m₁ m₃ (· = a) := fun x hx => by
      rw [hw₂ x hx, hw₁ x hx]
      exact Machine.mem_store_of_ne _ hmod hx
    have hkd₃ : m₃.kernelPageDirectory = m₁.kernelPageDirectory := hk₃.trans hk₂
    have hkent : ∀ i < 1024, m₃.entry m₁.kernelPageDirectory i = m₁.entry m₁.kernelPageDirectory i :=
      fun i hi => Machine.entry_congr hkmod hi fun x hx => hw x (hx ▸ hne)
    have hk₂ent : ∀ i < 1024, m₂.entry m₁.kernelPageDirectory i = m₁.entry m₁.kernelPageDirectory i :=
      fun i hi => Machine.entry_congr hkmod hi fun x hx => by
        rw [hw₁ x (hx ▸ hne)]
        exact Machine.mem_store_of_ne _ hmod (hx ▸ hne)
    have hzent : ∀ i < 1024, (m₁.zero a 4096).entry m₁.kernelPageDirectory i =
        m₁.entry m₁.kernelPageDirectory i := fun i hi =>
      Machine.entry_store_of_ne _ hmod hkmod hi hne
    have hent : ∀ i < 1024, m₃.entry a i =
        if kernelIdx i then m₁.entry m₁.kernelPageDirectory i else 0 := fun i hi => by
      rw [he₂ i hi, he₁ i hi, hk₂, hk₂ent i hi, Machine.entry_zero m₁ a hi]
      have hz := hzent i hi
      unfold kernelIdx
      by_cases h1 : 768 ≤ i
      · rw [if_pos (by omega), if_pos (by simp; omega)]
      · by_cases h2 : i < 64
        · rw [if_neg (by omega), if_pos (by omega), if_pos (by simp [h2])]
          exact hz
        · rw [if_neg (by omega), if_neg (by omega), if_neg (by simp; omega)]
    have hsame : SameTables base (Function.update own a (some .held)) m₁ m₃ :=
      ⟨hkd₃, fun x hx => hw x fun hxa => hs.held_not_structural hheld (hxa ▸ hx)⟩
    have hs₃ := hs.same hsame (hp₂.trans hp₁)
    have hlink : Linked m₃ a := fun i hi hk => by
      rw [hent i hi, if_pos hk, hkd₃, hkent i hi]
    have hempty : ∀ i < 1024, kernelIdx i = false → m₃.entry a i = 0 := fun i hi hk => by
      rw [hent i hi, if_neg (by rw [hk]; exact Bool.false_ne_true)]
    have hdir := hs₃.tables.addDir hheld hlink fun i hi hk => by
      rw [hempty i hi hk]
      rfl
    have hfr := hs₃.frames.reown hheld .dir
    rw [Function.update_idem] at hdir hfr
    have hpmm : m₃.pmm = m₁.pmm := hp₂.trans hp₁
    refine .inr ⟨a, m₃, rfl, ⟨hfr, hdir⟩, ⟨hnone, hbase, h0⟩, hkd₃.trans hkd, hlink, hempty,
      fun x hx => (hw x hx).trans (congrFun hmem x), (hl₂.trans hl₁).trans hlog, hfree, fun g => ?_⟩
    rw [hpmm]
    exact hiff g

/-- A new directory leaves the tables of the others alone. -/
theorem NewDir.same {a : Nat} (hn : NewDir base own m m' a) :
    SameTables base own m m' := by
  refine ⟨hn.kernelDir, fun x hx => hn.mem x fun hxa => ?_⟩
  obtain ⟨hnone, hbase, -⟩ := hn.fresh
  rcases hx with hb | hd | ⟨d, i, ht⟩
  · exact hbase (hxa ▸ hb)
  · rw [hxa, hnone] at hd
    exact absurd hd (by simp)
  · rw [hxa, hnone] at ht
    exact absurd ht (by simp)

/-! ## `MapPage` -/

/-- What a successful `MapPage` does: the page-table entry is `v`, in the table at `t`. The table is
that of the directory entry, or it is new (`own'`). -/
structure Mapped (base : Nat → Prop) (own own' : Owners) (m m' : Machine) (d i j v t : Nat) :
    Prop where
  space : Space base m' own'
  table : own' t = some (.table d i)
  grown : own' = own ∨ own t = none ∧ ¬ base t ∧ own' = Function.update own t (some (.table d i))
  kernelDir : m'.kernelPageDirectory = m.kernelPageDirectory
  pte : ∀ e i' j', own e = some .dir → i' < 1024 → j' < 1024 →
    pte m' e i' j' = if e = d ∧ i' = i ∧ j' = j then v else pte m e i' j'
  entries : ∀ e i', own e = some .dir → i' < 1024 → m'.entry e i' = m.entry e i' ∨
    e = d ∧ i' = i ∧ m'.entry e i' % 4096 = 7
  mem : WritesOnly m m' fun x => x = t ∨ x = d
  free : ∀ g, Free m'.pmm g ↔ Free m.pmm g ∧ (own' = own ∨ g ≠ t / 4096)
  log : m'.log = m.log ∨ m'.log = .alloc t :: m.log

/-- The table of a new entry: what `ensureTable` does. -/
theorem ensureTable_cases (h : Space base m own) (hd : own d = some .dir) (hi : i < 1024)
    (hk : kernelIdx i = false) : ensureTable m d i = (false, m) ∨
    ∃ m₁ t own', ensureTable m d i = (true, m₁) ∧ Space base m₁ own' ∧
      own' t = some (.table d i) ∧
      (own' = own ∨ own t = none ∧ ¬ base t ∧ own' = Function.update own t (some (.table d i))) ∧
      m₁.kernelPageDirectory = m.kernelPageDirectory ∧
      (∀ e i' j', own e = some .dir → i' < 1024 → j' < 1024 → pte m₁ e i' j' = pte m e i' j') ∧
      (∀ e i', own e = some .dir → i' < 1024 → m₁.entry e i' = m.entry e i' ∨
        e = d ∧ i' = i ∧ m₁.entry e i' % 4096 = 7) ∧
      (WritesOnly m m₁ fun x => x = t ∨ x = d) ∧
      (∀ g, Free m₁.pmm g ↔ Free m.pmm g ∧ (own' = own ∨ g ≠ t / 4096)) ∧
      (m₁.log = m.log ∨ m₁.log = .alloc t :: m.log) := by
  unfold ensureTable
  cases hp : present (m.entry d i) with
  | true =>
    rw [if_pos rfl]
    have ht : own (frameAddr (m.entry d i)) = some (.table d i) :=
      h.tables.table.mpr ⟨hd, hi, hp, rfl, fun hk' => absurd hk' (by rw [hk]; exact Bool.false_ne_true)⟩
    exact .inr ⟨m, frameAddr (m.entry d i), own, rfl, h, ht, .inl rfl, rfl, fun _ _ _ _ _ _ => rfl,
      fun _ _ _ _ => .inl rfl, fun _ _ => rfl, fun g => ⟨fun hg => ⟨hg, .inl rfl⟩, fun hg => hg.1⟩,
      .inl rfl⟩
  | false =>
    rw [if_neg Bool.false_ne_true]
    rcases h.alloc with he | ⟨t, m₁, he, h0, hmod, hnone, hbase, hs, hmem, hkd, hlog, hfree, hiff⟩
    · rw [he]
      exact .inl rfl
    · rw [he]
      dsimp only
      rw [if_neg h0]
      have hheld : Function.update own t (some .held) t = some .held := Function.update_self ..
      have hdt : d ≠ t := fun heq => by
        rw [heq, hnone] at hd
        exact absurd hd (by simp)
      have hsame : SameTables base (Function.update own t (some .held)) m₁ (m₁.zero t 4096) :=
        sameTables_store _ hmod (hs.held_not_structural hheld)
      have hs₂ := hs.same hsame rfl
      have hd₂ : Function.update own t (some .held) d = some .dir := by
        rw [Function.update_of_ne hdt]
        exact hd
      have hfree₂ : ∀ b, Function.update own t (some .held) b ≠ some (.table d i) := fun b hb => by
        by_cases hbt : b = t
        · rw [hbt, hheld] at hb
          exact absurd (Option.some.inj hb) (by simp)
        · rw [Function.update_of_ne hbt] at hb
          have := (h.tables.table.mp hb).2.2.1
          rw [hp] at this
          exact Bool.false_ne_true this
      -- the new directory entry
      have htlt : t < lowLimit := (hs.frames.aligned hheld).2.2
      have hor : t ||| pagePresent ||| pageRW ||| pageUser = t ||| 7 := by
        rw [Nat.or_assoc, Nat.or_assoc]
        rfl
      have hva : frameAddr (t ||| 7) = t := frameAddr_or hmod (by decide)
      have hvp : present (t ||| 7) = true := present_or hmod
      have hvlt : t ||| 7 < 2 ^ 32 := Nat.or_lt_two_pow (by unfold lowLimit at htlt; omega) (by decide)
      rw [hor]
      have htab := hs₂.tables.addTable hs₂.frames hheld hd₂ hi hfree₂ hvlt hvp hva
      have hfr := hs₂.frames.reown hheld (.table d i)
      rw [Function.update_idem] at htab hfr
      have hdmod := (h.frames.aligned hd).1
      refine .inr ⟨_, t, _, rfl, ⟨hfr, htab⟩, Function.update_self .., .inr ⟨hnone, hbase, rfl⟩, hkd,
        fun e i' j' he hi' hj' => ?_, fun e i' he hi' => ?_, fun x hx => ?_, fun g => ?_, .inr hlog⟩
      · have het : e ≠ t := fun heq => by
          rw [heq, hnone] at he
          exact absurd he (by simp)
        have he₂ : Function.update own t (some .held) e = some .dir := by
          rw [Function.update_of_ne het]
          exact he
        by_cases hdi : e = d ∧ i' = i
        · obtain ⟨rfl, rfl⟩ := hdi
          rw [pte_setDirEntry_self hs₂.frames hd₂ hi hvlt hj' (hva.symm ▸ hdt.symm),
            if_pos hvp, hva, Machine.entry_zero m₁ t hj', pte_of_not_present hp]
        · rw [hs₂.tables.pte_setDirEntry_of_ne hs₂.frames hd₂ hi _ he₂ hi' hj' (by tauto),
            hs.tables.pte_same hs.frames hsame he₂ hi' hj', pte_of_mem hmem]
      · have het : e ≠ t := fun heq => by
          rw [heq, hnone] at he
          exact absurd he (by simp)
        have hemod := (h.frames.aligned he).1
        by_cases hdi : e = d ∧ i' = i
        · obtain ⟨rfl, rfl⟩ := hdi
          refine .inr ⟨rfl, rfl, ?_⟩
          rw [Machine.entry_setEntry_self _ _ _ hvlt]
          exact or_mod hmod
        · rw [Machine.entry_setEntry_of_ne _ hdmod hemod hi hi' (by tauto),
            ← Machine.entry_of_mem hmem]
          exact .inl (Machine.entry_store_of_ne _ hmod hemod hi' het)
      · rw [Machine.mem_setEntry_of_ne hdmod hi fun hxd => hx (.inr hxd)]
        exact (Machine.mem_store_of_ne _ hmod fun hxt => hx (.inl hxt)).trans (congrFun hmem x)
      · refine (hiff g).trans (and_congr_right fun _ => ⟨.inr, fun hor => ?_⟩)
        refine hor.resolve_left fun he => ?_
        have := congrFun he t
        rw [Function.update_self, hnone] at this
        exact absurd this (by simp)

/-- The shared ranges of the directories are the same. -/
theorem Mapped.shared {v : Nat} (hm : Mapped base own own' m m' d i j v t)
    (hk : kernelIdx i = false) {e i' : Nat} (he : own e = some .dir) (hi' : i' < 1024)
    (hk' : kernelIdx i') : m'.entry e i' = m.entry e i' := by
  rcases hm.entries e i' he hi' with heq | ⟨-, rfl, -⟩
  · exact heq
  · exact absurd (hk.symm.trans hk') Bool.false_ne_true

theorem mapPage_cases (h : Space base m own) (hd : own d = some .dir) {va pa flags : Nat}
    (hva : va < 2 ^ 32) (hv : frameAddr pa ||| flags < 2 ^ 32) :
    mapPage m d va pa flags = (false, m) ∨
    ∃ m' own' t, mapPage m d va pa flags = (true, m') ∧ kernelIdx (pdIdx va) = false ∧
      Mapped base own own' m m' d (pdIdx va) (ptIdx va) (frameAddr pa ||| flags) t := by
  unfold mapPage
  cases hk : kernelIdx (pdIdx va) with
  | true =>
    rw [if_pos rfl]
    exact .inl rfl
  | false =>
    rw [if_neg Bool.false_ne_true]
    have hi := pdIdx_lt hva
    have hj := ptIdx_lt va
    rcases ensureTable_cases h hd hi hk with
      he | ⟨m₁, t, own', he, hs, ht, hgrown, hkd, hpte, hentries, hmem, hfree, hlog⟩
    · rw [he]
      exact .inl rfl
    · rw [he]
      dsimp only
      obtain ⟨hd', -, -, haddr, -⟩ := hs.tables.table.mp ht
      have hdir : ∀ e, own e = some .dir → own' e = some .dir := fun e he => by
        rcases hgrown with hg | ⟨hnone, -, hg⟩
        · rw [hg]
          exact he
        · rw [hg, Function.update_of_ne fun heq => by
            rw [heq, hnone] at he
            exact absurd he (by simp)]
          exact he
      rw [if_neg (by simp), haddr]
      refine .inr ⟨_, own', t, rfl, rfl, ⟨hs.frames, hs.tables.setTableEntry hs.frames ht hj _⟩, ht,
        hgrown, hkd, fun e i' j' he hi' hj' => ?_, fun e i' he hi' => ?_, fun x hx => ?_,
        hfree, hlog⟩
      · rw [hs.tables.pte_setTableEntry hs.frames ht hj hv (hdir e he) hi' hj', hpte e i' j' he hi' hj']
      · have het : e ≠ t := fun heq => by
          have := hdir e he
          rw [heq, ht] at this
          exact absurd (Option.some.inj this) (by simp)
        rw [Machine.entry_setEntry_of_ne _ (hs.frames.aligned ht).1 (h.frames.aligned he).1 hj hi'
          (.inl het)]
        exact hentries e i' he hi'
      · rw [Machine.mem_setEntry_of_ne (hs.frames.aligned ht).1 hj fun hxt => hx (.inl hxt)]
        exact hmem x hx

end Paging
end Hashx86
