import Hashx86.Paging.Walk
import Hashx86.Pmm.Spec

/-!
# Who uses the frames of the address spaces

`own` says what each frame of the processes is used for; `base` are the frames of the kernel.

* `Frames`: the frames in use are allocated, and none is of the kernel.
* `Tables`: a frame is the table of an entry of a directory exactly when `own` says so. A table is
  that of one entry, since `own` is a function.
* `Pages`: the same for the pages in the user range.

Each has a lemma for every kind of change: a frame is allocated or freed, a store goes to a frame
that holds no table, and a directory, a table or a page comes or goes.
-/

namespace Hashx86
namespace Paging

open Lib Pmm

/-- What a frame is used for: it is allocated and in no address space, a directory, the table of
entry `i` of directory `d`, or page `j` of that table. -/
inductive Use where
  | held
  | dir
  | table (d i : Nat)
  | page (d i j : Nat)
  deriving DecidableEq

/-- The use of a frame, by its address. -/
abbrev Owners := Nat → Option Use

/-! ## Frames -/

structure Frames (base : Nat → Prop) (p : Info) (own : Owners) : Prop where
  wf : Wf p
  aligned : ∀ {a u}, own a = some u → a % 4096 = 0 ∧ a ≠ 0 ∧ a < lowLimit
  owned : ∀ {a u}, own a = some u → a / 4096 < p.maxBlocks ∧ ¬ Free p (a / 4096) ∧ ¬ base a
  used : ∀ a, base a → a % 4096 = 0 ∧ ¬ Free p (a / 4096)
  zero : base 0

variable {base : Nat → Prop} {p : Info} {own own' : Owners} {a : Nat}

theorem Frames.alloc (h : Frames base p own) : allocBlockLow p lowLimit = (0, p) ∨
    ∃ a p', allocBlockLow p lowLimit = (a, p') ∧ a ≠ 0 ∧ a % 4096 = 0 ∧ own a = none ∧ ¬ base a ∧
      Frames base p' (Function.update own a (some .held)) ∧ Free p (a / 4096) ∧
      ∀ g, Free p' g ↔ Free p g ∧ g ≠ a / 4096 := by
  rcases allocBlockLow_cases h.wf lowLimit with ⟨he, -⟩ | ⟨f, ⟨hf, hlow⟩, -, he⟩
  · exact .inl he
  · have haddr : (takeFrame p f).1 = f * 4096 := takeFrame_addr h.wf hf
    have hdiv : f * 4096 / 4096 = f := Nat.mul_div_cancel f (by decide)
    have hbase : ¬ base (f * 4096) := fun hb => (h.used _ hb).2 (hdiv.symm ▸ hf)
    have hnone : own (f * 4096) = none := by
      cases ho : own (f * 4096) with
      | none => rfl
      | some u => exact absurd (hdiv.symm ▸ hf) (h.owned ho).2.1
    have h0 : f * 4096 ≠ 0 := fun h0 => hbase (h0 ▸ h.zero)
    have hlt : f * 4096 < lowLimit := by unfold lowLimit at hlow ⊢; omega
    refine .inr ⟨f * 4096, (takeFrame p f).2, he.trans (Prod.ext haddr rfl), h0,
      Nat.mul_mod_left f 4096, hnone, hbase, ⟨wf_takeFrame h.wf hf, fun {b u} hb => ?_,
        fun {b u} hb => ?_, fun b hb => ⟨(h.used b hb).1, fun hfree => ?_⟩, h.zero⟩, hdiv.symm ▸ hf,
      fun g => hdiv.symm ▸ free_takeFrame hf⟩
    · by_cases hba : b = f * 4096
      · exact hba ▸ ⟨Nat.mul_mod_left f 4096, h0, hlt⟩
      · rw [Function.update_of_ne hba] at hb
        exact h.aligned hb
    · rw [takeFrame_maxBlocks, free_takeFrame hf]
      by_cases hba : b = f * 4096
      · subst hba
        rw [hdiv]
        exact ⟨hf.1, fun hn => hn.2 rfl, hbase⟩
      · rw [Function.update_of_ne hba] at hb
        obtain ⟨h1, h2, h3⟩ := h.owned hb
        exact ⟨h1, fun hn => h2 hn.1, h3⟩
    · exact (h.used b hb).2 ((free_takeFrame hf).mp hfree).1

/-- The use of a frame changes. -/
theorem Frames.reown (h : Frames base p own) {u : Use} (ho : own a = some u) (u' : Use) :
    Frames base p (Function.update own a (some u')) := by
  refine ⟨h.wf, fun {b v} hb => ?_, fun {b v} hb => ?_, h.used, h.zero⟩
  · by_cases hba : b = a
    · exact hba ▸ h.aligned ho
    · rw [Function.update_of_ne hba] at hb
      exact h.aligned hb
  · by_cases hba : b = a
    · exact hba ▸ h.owned ho
    · rw [Function.update_of_ne hba] at hb
      exact h.owned hb

/-- A frame is freed. -/
theorem Frames.free (h : Frames base p own) {u : Use} (ho : own a = some u) {kd : Option KernelDir}
    (hk : kd.any (·.guards a) = false) :
    Frames base (freeBlock p kd a) (Function.update own a none) ∧
      mmapTest p ((a / 4096 : Nat) : Int) = true ∧
      ∀ g, Free (freeBlock p kd a) g ↔ Free p g ∨ g = a / 4096 := by
  obtain ⟨hmod, h0, -⟩ := h.aligned ho
  obtain ⟨hlt, hused, hbase⟩ := h.owned ho
  have hmul : a / 4096 * 4096 = a := Nat.div_mul_cancel (Nat.dvd_of_mod_eq_zero hmod)
  have hbit : p.bit (a / 4096) = true := by
    by_contra hb
    exact hused ⟨hlt, Bool.eq_false_iff.mpr hb⟩
  have he : freeBlock p kd a = dropFrame p (a / 4096) := by
    have hk' : kd.any (·.guards (a / 4096 * 4096)) = false := by rwa [hmul]
    have := freeBlock_eq (show a / 4096 ≠ 0 by omega) hlt hbit hk'
    rwa [hmul] at this
  have hfree : ∀ g, Free (freeBlock p kd a) g ↔ Free p g ∨ g = a / 4096 := fun g =>
    he ▸ free_dropFrame hlt
  refine ⟨⟨wf_freeBlock h.wf kd a, fun {b v} hb => ?_, fun {b v} hb => ?_,
    fun b hb => ⟨(h.used b hb).1, fun hf => ?_⟩, h.zero⟩,
    by rw [mmapTest_nat, hbit]; simp [hlt], hfree⟩
  · by_cases hba : b = a
    · rw [hba, Function.update_self] at hb
      exact absurd hb (Option.some_ne_none v).symm
    · rw [Function.update_of_ne hba] at hb
      exact h.aligned hb
  · by_cases hba : b = a
    · rw [hba, Function.update_self] at hb
      exact absurd hb (Option.some_ne_none v).symm
    · rw [Function.update_of_ne hba] at hb
      obtain ⟨h1, h2, h3⟩ := h.owned hb
      have hb4 := (h.aligned hb).1
      refine ⟨by rwa [freeBlock_maxBlocks], fun hf => ?_, h3⟩
      rcases (hfree _).mp hf with hf | hf
      · exact h2 hf
      · omega
  · rcases (hfree _).mp hf with hf | hf
    · exact (h.used b hb).2 hf
    · have := (h.used b hb).1
      exact hbase ((show b = a by omega) ▸ hb)

/-! ## Tables -/

/-- Entry `i` of directory `d` is a table of the process at `a`. -/
def HasTable (m : Machine) (d i a : Nat) : Prop :=
  present (m.entry d i) ∧ frameAddr (m.entry d i) = a ∧
    (kernelIdx i → m.entry d i ≠ m.entry m.kernelPageDirectory i)

structure Tables (base : Nat → Prop) (m : Machine) (own : Owners) : Prop where
  kernelDir : base m.kernelPageDirectory ∧ m.kernelPageDirectory % 4096 = 0
  kernelTables : ∀ i < 1024, kernelIdx i → present (m.entry m.kernelPageDirectory i) ∧
    base (frameAddr (m.entry m.kernelPageDirectory i))
  table : ∀ {a d i}, own a = some (.table d i) ↔ own d = some .dir ∧ i < 1024 ∧ HasTable m d i a

/-- The frame holds a directory or a table, of a process or of the kernel. -/
def Structural (base : Nat → Prop) (own : Owners) (a : Nat) : Prop :=
  base a ∨ own a = some .dir ∨ ∃ d i, own a = some (.table d i)

/-- Directories, tables and the memory of the kernel are the same. -/
structure SameTables (base : Nat → Prop) (own : Owners) (m m' : Machine) : Prop where
  kernelDir : m'.kernelPageDirectory = m.kernelPageDirectory
  mem : ∀ a, Structural base own (frameAddr a) → m'.mem a = m.mem a

theorem SameTables.refl (base : Nat → Prop) (own : Owners) (m : Machine) :
    SameTables base own m m := ⟨rfl, fun _ _ => rfl⟩

theorem SameTables.trans {m m₁ m₂ : Machine} (h₁ : SameTables base own m m₁)
    (h₂ : SameTables base own m₁ m₂) : SameTables base own m m₂ :=
  ⟨h₂.kernelDir.trans h₁.kernelDir, fun a ha => (h₂.mem a ha).trans (h₁.mem a ha)⟩

theorem SameTables.entry {m m' : Machine} (h : SameTables base own m m') {t i : Nat}
    (hs : Structural base own t) (ht : t % 4096 = 0) (hi : i < 1024) :
    m'.entry t i = m.entry t i :=
  Machine.entry_congr ht hi fun a ha => h.mem a (ha.symm ▸ hs)

section Tables

variable {m m' : Machine} {d i t : Nat}

/-- A store to a frame that holds no table. -/
theorem sameTables_store (src : Nat → UInt8) (ht : t % 4096 = 0) (hs : ¬ Structural base own t) :
    SameTables base own m (m.store t 4096 src) :=
  ⟨rfl, fun _ ha => Machine.mem_store_of_ne src ht fun he => hs (he ▸ ha)⟩

theorem sameTables_setEntry (v : Nat) (ht : t % 4096 = 0) (hi : i < 1024)
    (hs : ¬ Structural base own t) : SameTables base own m (m.setEntry t i v) :=
  ⟨rfl, fun _ ha => Machine.mem_setEntry_of_ne ht hi fun he => hs (he ▸ ha)⟩

theorem Tables.same (h : Tables base m own) (hf : Frames base p own)
    (hs : SameTables base own m m') : Tables base m' own := by
  have hkd : ∀ i < 1024, m'.entry m.kernelPageDirectory i = m.entry m.kernelPageDirectory i :=
    fun _ hi => hs.entry (.inl h.kernelDir.1) h.kernelDir.2 hi
  refine ⟨hs.kernelDir ▸ h.kernelDir, fun i hi hk => ?_, fun {_ d i} => ?_⟩
  · rw [hs.kernelDir, hkd i hi]
    exact h.kernelTables i hi hk
  · rw [h.table]
    refine and_congr_right fun hd => and_congr_right fun hi => ?_
    unfold HasTable
    rw [hs.kernelDir, hkd i hi, hs.entry (.inr (.inl hd)) (hf.aligned hd).1 hi]

/-- Uses of frames change that are no directories and no tables. -/
theorem Tables.reown (h : Tables base m own) (hdir : ∀ d, own' d = some .dir ↔ own d = some .dir)
    (htab : ∀ a d i, own' a = some (.table d i) ↔ own a = some (.table d i)) :
    Tables base m own' :=
  ⟨h.kernelDir, h.kernelTables, by simp only [htab, hdir, h.table, implies_true]⟩

/-- The table that an entry leads to is the kernel's or that of the entry alone. -/
theorem Tables.leads (h : Tables base m own) (hd : own d = some .dir) (hi : i < 1024)
    (hp : present (m.entry d i)) :
    own (frameAddr (m.entry d i)) = some (.table d i) ∨ base (frameAddr (m.entry d i)) := by
  by_cases hk : kernelIdx i ∧ m.entry d i = m.entry m.kernelPageDirectory i
  · exact .inr (hk.2 ▸ (h.kernelTables i hi hk.1).2)
  · exact .inl (h.table.mpr ⟨hd, hi, hp, rfl, fun h1 h2 => hk ⟨h1, h2⟩⟩)

theorem Tables.structural (h : Tables base m own) (hd : own d = some .dir) (hi : i < 1024)
    (hp : present (m.entry d i)) : Structural base own (frameAddr (m.entry d i)) :=
  (h.leads hd hi hp).elim (fun ht => .inr (.inr ⟨d, i, ht⟩)) .inl

/-- The walks from a directory are the same. -/
theorem Tables.pte_same (h : Tables base m own) (hf : Frames base p own)
    (hs : SameTables base own m m') (hd : own d = some .dir) (hi : i < 1024) {j : Nat}
    (hj : j < 1024) : pte m' d i j = pte m d i j := by
  have he : m'.entry d i = m.entry d i := hs.entry (.inr (.inl hd)) (hf.aligned hd).1 hi
  unfold pte
  rw [he]
  split
  · rename_i hp
    exact hs.entry (h.structural hd hi hp) (frameAddr_mod _) hj
  · rfl

/-- A held frame with the entries of the kernel becomes a directory. -/
theorem Tables.addDir (h : Tables base m own) (ha : own a = some .held)
    (hk : ∀ i < 1024, kernelIdx i → m.entry a i = m.entry m.kernelPageDirectory i)
    (hu : ∀ i < 1024, kernelIdx i = false → present (m.entry a i) = false) :
    Tables base m (Function.update own a (some .dir)) := by
  refine ⟨h.kernelDir, h.kernelTables, fun {b d i} => ?_⟩
  have hno : ∀ {b i}, i < 1024 → ¬ HasTable m a i b := fun {b i} hi ht => by
    cases hki : kernelIdx i with
    | true => exact ht.2.2 hki (hk i hi hki)
    | false => exact absurd ht.1 (by rw [hu i hi hki]; exact Bool.false_ne_true)
  by_cases hd : d = a
  · subst hd
    refine iff_of_false (fun ho => ?_) fun ho => hno ho.2.1 ho.2.2
    by_cases hb : b = d
    · rw [hb, Function.update_self] at ho
      exact absurd (Option.some.inj ho) (by simp)
    · rw [Function.update_of_ne hb] at ho
      exact absurd (ha.symm.trans (h.table.mp ho).1) (by simp)
  · rw [Function.update_of_ne hd]
    by_cases hb : b = a
    · rw [hb, Function.update_self]
      refine iff_of_false (by simp) fun ho => ?_
      exact absurd (ha.symm.trans (h.table.mpr ho)) (by simp)
    · rw [Function.update_of_ne hb]
      exact h.table

/-- An entry of a directory is stored; `own'` has the table that it leads to then. -/
theorem Tables.setDirEntry (h : Tables base m own) (hf : Frames base p own)
    (hd : own d = some .dir) (hi : i < 1024) {v : Nat} (hv : v < 2 ^ 32)
    (hdir : ∀ e, own' e = some .dir ↔ own e = some .dir)
    (hother : ∀ b e j, e ≠ d ∨ j ≠ i → (own' b = some (.table e j) ↔ own b = some (.table e j)))
    (hself : ∀ b, own' b = some (.table d i) ↔ present v ∧ frameAddr v = b ∧
      (kernelIdx i → v ≠ m.entry m.kernelPageDirectory i)) :
    Tables base (m.setEntry d i v) own' := by
  have hmod := (hf.aligned hd).1
  have hkd : m.kernelPageDirectory ≠ d := fun he => (hf.owned hd).2.2 (he ▸ h.kernelDir.1)
  have hke : ∀ j < 1024, (m.setEntry d i v).entry m.kernelPageDirectory j =
      m.entry m.kernelPageDirectory j := fun j hj =>
    Machine.entry_setEntry_of_ne v hmod h.kernelDir.2 hi hj (.inl hkd)
  have hkd' : (m.setEntry d i v).kernelPageDirectory = m.kernelPageDirectory := rfl
  refine ⟨h.kernelDir, fun j hj hk => ?_, fun {b e j} => ?_⟩
  · rw [hkd', hke j hj]
    exact h.kernelTables j hj hk
  · unfold HasTable
    rw [hdir, hkd']
    by_cases hsame : e = d ∧ j = i
    · obtain ⟨rfl, rfl⟩ := hsame
      rw [hself, Machine.entry_setEntry_self m e j hv, hke j hi]
      exact ⟨fun hb => ⟨hd, hi, hb⟩, fun hb => hb.2.2⟩
    · rw [hother b e j (by tauto), h.table]
      refine and_congr_right fun he => and_congr_right fun hj => ?_
      rw [hke j hj, Machine.entry_setEntry_of_ne v hmod (hf.aligned he).1 hi hj (by tauto)]
      exact Iff.rfl

/-- A held frame becomes the table of an entry that has none. -/
theorem Tables.addTable (h : Tables base m own) (hf : Frames base p own) (ha : own a = some .held)
    (hd : own d = some .dir) (hi : i < 1024) (hfree : ∀ b, own b ≠ some (.table d i)) {v : Nat}
    (hv : v < 2 ^ 32) (hp : present v) (hva : frameAddr v = a) :
    Tables base (m.setEntry d i v) (Function.update own a (some (.table d i))) := by
  refine h.setDirEntry hf hd hi hv (fun e => ?_) (fun b e j hne => ?_) fun b => ?_
  · by_cases he : e = a
    · rw [he, Function.update_self, ha]
      simp
    · rw [Function.update_of_ne he]
  · by_cases hb : b = a
    · rw [hb, Function.update_self, ha]
      refine iff_of_false (fun hs => ?_) (by simp)
      obtain ⟨rfl, rfl⟩ := Use.table.inj (Option.some.inj hs)
      tauto
    · rw [Function.update_of_ne hb]
  · by_cases hb : b = a
    · rw [hb, Function.update_self]
      refine iff_of_true rfl ⟨hp, hva, fun hk he => (hf.owned ha).2.2 ?_⟩
      rw [← hva, he]
      exact (h.kernelTables i hi hk).2
    · rw [Function.update_of_ne hb]
      exact iff_of_false (hfree b) fun hs => hb (hs.2.1.symm.trans hva)

/-- The entry of a table is cleared, or becomes that of the kernel again; the frame is held. -/
theorem Tables.dropTable (h : Tables base m own) (hf : Frames base p own)
    (ha : own a = some (.table d i)) {v : Nat} (hv : v < 2 ^ 32)
    (hno : present v → kernelIdx i ∧ v = m.entry m.kernelPageDirectory i) :
    Tables base (m.setEntry d i v) (Function.update own a (some .held)) := by
  obtain ⟨hd, hi, -, haddr, -⟩ := h.table.mp ha
  refine h.setDirEntry hf hd hi hv (fun e => ?_) (fun b e j hne => ?_) fun b => ?_
  · by_cases he : e = a
    · rw [he, Function.update_self, ha]
      simp
    · rw [Function.update_of_ne he]
  · by_cases hb : b = a
    · rw [hb, Function.update_self, ha]
      refine iff_of_false (by simp) fun hs => ?_
      obtain ⟨rfl, rfl⟩ := Use.table.inj (Option.some.inj hs)
      tauto
    · rw [Function.update_of_ne hb]
  · refine iff_of_false (fun hs => ?_) fun hs => hs.2.2 (hno hs.1).1 (hno hs.1).2
    by_cases hb : b = a
    · rw [hb, Function.update_self] at hs
      exact absurd (Option.some.inj hs) (by simp)
    · rw [Function.update_of_ne hb] at hs
      exact hb ((h.table.mp hs).2.2.2.1.symm.trans haddr)

/-- A directory without tables is held. -/
theorem Tables.dropDir (h : Tables base m own) (ha : own a = some .dir)
    (hno : ∀ b i, own b ≠ some (.table a i)) : Tables base m (Function.update own a (some .held)) := by
  refine ⟨h.kernelDir, h.kernelTables, fun {b d i} => ?_⟩
  have hb : ∀ d, d ≠ a → (Function.update own a (some .held) b = some (.table d i) ↔
      own b = some (.table d i)) := fun d hd => by
    by_cases hb : b = a
    · rw [hb, Function.update_self, ha]
      simp
    · rw [Function.update_of_ne hb]
  by_cases hd : d = a
  · subst hd
    rw [Function.update_self]
    refine iff_of_false (fun hs => ?_) fun hs => absurd hs.1 (by simp)
    by_cases hbd : b = d
    · rw [hbd, Function.update_self] at hs
      exact absurd (Option.some.inj hs) (by simp)
    · rw [Function.update_of_ne hbd] at hs
      exact hno b i hs
  · rw [hb d hd, Function.update_of_ne hd]
    exact h.table

/-- An entry of a table is stored. -/
theorem Tables.setTableEntry (h : Tables base m own) (hf : Frames base p own)
    (ht : own t = some (.table d i)) {j : Nat} (hj : j < 1024) (v : Nat) :
    Tables base (m.setEntry t j v) own := by
  have htmod := (hf.aligned ht).1
  have hkd : m.kernelPageDirectory ≠ t := fun he => (hf.owned ht).2.2 (he ▸ h.kernelDir.1)
  have hke : ∀ i < 1024, (m.setEntry t j v).entry m.kernelPageDirectory i =
      m.entry m.kernelPageDirectory i := fun i hi =>
    Machine.entry_setEntry_of_ne v htmod h.kernelDir.2 hj hi (.inl hkd)
  have hkd' : (m.setEntry t j v).kernelPageDirectory = m.kernelPageDirectory := rfl
  refine ⟨h.kernelDir, fun i hi hk => ?_, fun {b e i} => ?_⟩
  · rw [hkd', hke i hi]
    exact h.kernelTables i hi hk
  · unfold HasTable
    rw [h.table, hkd']
    refine and_congr_right fun he => and_congr_right fun hi => ?_
    have het : e ≠ t := fun heq => by
      rw [heq, ht] at he
      exact absurd (Option.some.inj he) (by simp)
    rw [hke i hi, Machine.entry_setEntry_of_ne v htmod (hf.aligned he).1 hj hi (.inl het)]
    exact Iff.rfl

/-! ## Walks after a store -/

/-- The table that an entry leads to is not in the frame of a directory. -/
theorem Tables.leads_ne (h : Tables base m own) (hf : Frames base p own) {e : Nat}
    (hd : own d = some .dir) (he : own e = some .dir) (hi : i < 1024) (hp : present (m.entry e i)) :
    frameAddr (m.entry e i) ≠ d := fun heq => by
  rcases h.leads he hi hp with ht | hb
  · rw [heq, hd] at ht
    exact absurd (Option.some.inj ht) (by simp)
  · exact (hf.owned hd).2.2 (heq ▸ hb)

theorem Tables.pte_setDirEntry_of_ne (h : Tables base m own) (hf : Frames base p own)
    (hd : own d = some .dir) (hi : i < 1024) (v : Nat) {e i' j : Nat} (he : own e = some .dir)
    (hi' : i' < 1024) (hj : j < 1024) (hne : e ≠ d ∨ i' ≠ i) :
    pte (m.setEntry d i v) e i' j = pte m e i' j := by
  have hmod := (hf.aligned hd).1
  unfold pte
  rw [Machine.entry_setEntry_of_ne v hmod (hf.aligned he).1 hi hi' hne]
  split
  · rename_i hp
    exact Machine.entry_setEntry_of_ne v hmod (frameAddr_mod _) hi hj
      (.inl (h.leads_ne hf hd he hi' hp))
  · rfl

theorem pte_setDirEntry_self (hf : Frames base p own) (hd : own d = some .dir)
    (hi : i < 1024) {v : Nat} (hv : v < 2 ^ 32) {j : Nat} (hj : j < 1024) (hvd : frameAddr v ≠ d) :
    pte (m.setEntry d i v) d i j = if present v then m.entry (frameAddr v) j else 0 := by
  unfold pte
  rw [Machine.entry_setEntry_self m d i hv, Machine.entry_setEntry_of_ne v (hf.aligned hd).1
    (frameAddr_mod v) hi hj (.inl hvd)]

theorem Tables.pte_setTableEntry (h : Tables base m own) (hf : Frames base p own)
    (ht : own t = some (.table d i)) {j v : Nat} (hj : j < 1024) (hv : v < 2 ^ 32) {e i' j' : Nat}
    (he : own e = some .dir) (hi' : i' < 1024) (hj' : j' < 1024) :
    pte (m.setEntry t j v) e i' j' =
      if e = d ∧ i' = i ∧ j' = j then v else pte m e i' j' := by
  have htmod := (hf.aligned ht).1
  have het : e ≠ t := fun heq => by
    rw [heq, ht] at he
    exact absurd (Option.some.inj he) (by simp)
  obtain ⟨-, -, hp, haddr, -⟩ := h.table.mp ht
  unfold pte
  rw [Machine.entry_setEntry_of_ne v htmod (hf.aligned he).1 hj hi' (.inl het)]
  by_cases hdi : e = d ∧ i' = i
  · obtain ⟨rfl, rfl⟩ := hdi
    rw [if_pos hp, if_pos hp, haddr, Machine.entry_setEntry hv htmod htmod hj hj']
    simp
  · rw [if_neg (show ¬ (e = d ∧ i' = i ∧ j' = j) from fun hs => hdi ⟨hs.1, hs.2.1⟩)]
    split
    · rename_i hpe
      refine Machine.entry_setEntry_of_ne v htmod (frameAddr_mod _) hj hj' (.inl fun heq => ?_)
      rcases h.leads he hi' hpe with hte | hb
      · rw [heq, ht] at hte
        obtain ⟨rfl, rfl⟩ := Use.table.inj (Option.some.inj hte)
        exact hdi ⟨rfl, rfl⟩
      · exact (hf.owned ht).2.2 (heq ▸ hb)
    · rfl

end Tables

/-! ## Pages -/

/-- A table entry of the user range maps a page of the process: it is present, and it is not the
exit trampoline that all processes share. -/
def MapsPage (tramp pte a : Nat) : Prop :=
  present pte ∧ frameAddr pte = a ∧ a ≠ tramp ∧ a ≠ 0

structure Pages (tramp : Nat) (m : Machine) (own : Owners) : Prop where
  page : ∀ {a d i j}, own a = some (.page d i j) ↔ own d = some .dir ∧ (i < 1024 ∧
    kernelIdx i = false) ∧ j < 1024 ∧ MapsPage tramp (pte m d i j) a

section Pages

variable {tramp d i j : Nat} {m m' : Machine}

/-- The walks from the directories are the same, and no page comes or goes. -/
theorem Pages.same (h : Pages tramp m own) (hdir : ∀ d, own' d = some .dir ↔ own d = some .dir)
    (hpage : ∀ a d i j, own' a = some (.page d i j) ↔ own a = some (.page d i j))
    (hpte : ∀ d i j, own d = some .dir → i < 1024 → j < 1024 → pte m' d i j = pte m d i j) :
    Pages tramp m' own' := by
  refine ⟨fun {a d i j} => ?_⟩
  rw [hpage, hdir, h.page]
  refine and_congr_right fun hd => and_congr_right fun hi => and_congr_right fun hj => ?_
  rw [hpte d i j hd hi.1 hj]

/-- The entry of one page changes. -/
theorem Pages.setPte (h : Pages tramp m own) (hdir : ∀ d, own' d = some .dir ↔ own d = some .dir)
    (hd : own d = some .dir) (hi : i < 1024 ∧ kernelIdx i = false) (hj : j < 1024) {v : Nat}
    (hpte : ∀ e i' j', own e = some .dir → i' < 1024 → j' < 1024 →
      pte m' e i' j' = if e = d ∧ i' = i ∧ j' = j then v else pte m e i' j')
    (hother : ∀ a e i' j', ¬ (e = d ∧ i' = i ∧ j' = j) →
      (own' a = some (.page e i' j') ↔ own a = some (.page e i' j')))
    (hself : ∀ a, own' a = some (.page d i j) ↔ MapsPage tramp v a) : Pages tramp m' own' := by
  refine ⟨fun {a e i' j'} => ?_⟩
  rw [hdir]
  by_cases hsame : e = d ∧ i' = i ∧ j' = j
  · obtain ⟨rfl, rfl, rfl⟩ := hsame
    rw [hself]
    refine ⟨fun hv => ⟨hd, hi, hj, ?_⟩, fun hv => ?_⟩
    · rw [hpte e i' j' hd hi.1 hj, if_pos ⟨rfl, rfl, rfl⟩]
      exact hv
    · have hv := hv.2.2.2
      rw [hpte e i' j' hd hi.1 hj, if_pos ⟨rfl, rfl, rfl⟩] at hv
      exact hv
  · rw [hother a e i' j' hsame, h.page]
    refine and_congr_right fun he => and_congr_right fun hi' => and_congr_right fun hj' => ?_
    rw [hpte e i' j' he hi'.1 hj', if_neg hsame]

/-- A new directory has no pages. -/
theorem Pages.addDir (h : Pages tramp m own) (ha : own a = some .held)
    (hu : ∀ i < 1024, kernelIdx i = false → present (m.entry a i) = false) :
    Pages tramp m (Function.update own a (some .dir)) := by
  refine ⟨fun {b d i j} => ?_⟩
  have hb : Function.update own a (some .dir) b = some (.page d i j) ↔
      own b = some (.page d i j) := by
    by_cases hb : b = a
    · rw [hb, Function.update_self, ha]
      simp
    · rw [Function.update_of_ne hb]
  rw [hb, h.page]
  by_cases hd : d = a
  · subst hd
    rw [Function.update_self, ha]
    refine iff_of_false (fun hs => absurd hs.1 (by simp)) fun hs => ?_
    obtain ⟨-, hi, -, hm⟩ := hs
    rw [pte_of_not_present (hu i hi.1 hi.2)] at hm
    exact absurd hm.1 (by decide)
  · rw [Function.update_of_ne hd]

/-- A directory without pages is held. -/
theorem Pages.dropDir (h : Pages tramp m own) (ha : own a = some .dir)
    (hno : ∀ b i j, own b ≠ some (.page a i j)) :
    Pages tramp m (Function.update own a (some .held)) := by
  refine ⟨fun {b d i j} => ?_⟩
  have hb : Function.update own a (some .held) b = some (.page d i j) ↔
      own b = some (.page d i j) := by
    by_cases hb : b = a
    · rw [hb, Function.update_self, ha]
      simp
    · rw [Function.update_of_ne hb]
  rw [hb]
  by_cases hd : d = a
  · subst hd
    rw [Function.update_self]
    exact iff_of_false (hno b i j) fun hs => absurd hs.1 (by simp)
  · rw [Function.update_of_ne hd]
    exact h.page

end Pages

end Paging
end Hashx86
