import Hashx86.Paging.Sweep

/-!
# A change to some address spaces

`Within` is what an operation on the address spaces in `D` leaves alone: the frames of the other address
spaces with what they hold, and the memory of the kernel but for the frame that all processes share. The
creation of a directory, every call on it, its teardown, and a store through its mappings are of this
kind.

* `Within.pte`, `Within.priv`: the other address spaces are as they were.
-/

namespace Hashx86
namespace Paging

open Lib Pmm

structure Within (base : Nat → Prop) (tramp : Nat) (D : Nat → Prop) (m m' : Machine)
    (own own' : Owners) : Prop where
  kernelDir : m'.kernelPageDirectory = m.kernelPageDirectory
  uses : ∀ {a u e}, u.dirOf a = some e → ¬ D e → (own' a = some u ↔ own a = some u)
  mem : ∀ {x u e}, own (frameAddr x) = some u → u.dirOf (frameAddr x) = some e → ¬ D e →
    m'.mem x = m.mem x
  kernel : ∀ {x}, base (frameAddr x) → frameAddr x ≠ tramp → m'.mem x = m.mem x
  frees : FreesOk base m.log → FreesOk base m'.log
  accounted : Accounted base m.pmm own → Accounted base m'.pmm own'

/-- The frame that all processes share is not one of the kernel's directory and tables. -/
structure TrampApart (tramp : Nat) (m : Machine) : Prop where
  dir : m.kernelPageDirectory ≠ tramp
  table : ∀ i < 1024, kernelIdx i → frameAddr (m.entry m.kernelPageDirectory i) ≠ tramp

/-- The pages of the user range are in frames of their own, but for that of the exit trampoline. -/
def Private (m : Machine) (own : Owners) (d : Nat) : Prop :=
  ∀ i j, i < 1024 ∧ kernelIdx i = false → j < 1024 → Proper m own d i j

variable {base : Nat → Prop} {tramp d e i j a : Nat} {m m₁ m' : Machine} {own own₁ own' : Owners}
variable {R : Nat → Nat → Prop} {D D' : Nat → Prop}

theorem Within.refl (base : Nat → Prop) (tramp : Nat) (D : Nat → Prop) (m : Machine) (own : Owners) :
    Within base tramp D m m own own :=
  ⟨rfl, fun _ _ => Iff.rfl, fun _ _ _ => rfl, fun _ _ => rfl, id, id⟩

theorem Within.trans (h : Within base tramp D m m₁ own own₁)
    (h₁ : Within base tramp D m₁ m' own₁ own') : Within base tramp D m m' own own' where
  kernelDir := h₁.kernelDir.trans h.kernelDir
  uses hu he := (h₁.uses hu he).trans (h.uses hu he)
  mem hx hu he := (h₁.mem ((h.uses hu he).mpr hx) hu he).trans (h.mem hx hu he)
  kernel hx ht := (h₁.kernel hx ht).trans (h.kernel hx ht)
  frees hl := h₁.frees (h.frees hl)
  accounted ha := h₁.accounted (h.accounted ha)

theorem Within.mono (h : Within base tramp D m m' own own') (hD : ∀ e, D e → D' e) :
    Within base tramp D' m m' own own' where
  kernelDir := h.kernelDir
  uses hu he := h.uses hu fun hd => he (hD _ hd)
  mem hx hu he := h.mem hx hu fun hd => he (hD _ hd)
  kernel := h.kernel
  frees := h.frees
  accounted := h.accounted

/-! ## The kinds of changes -/

theorem Changes.within (hc : Changes base d R m m' own own') (h : Owned base tramp m own)
    (h' : Owned base tramp m' own') : Within base tramp (· = d) m m' own own' where
  kernelDir := hc.kernelDir
  uses {a u e} hu he := by
    cases u with
    | held => exact absurd hu (by simp [Use.dirOf])
    | dir => exact hc.dirs a
    | table f i =>
      obtain rfl : f = e := Option.some.inj hu
      rw [h'.tables.table, h.tables.table, hc.dirs]
      refine and_congr_right fun hf => and_congr_right fun hi => ?_
      have hke : m'.entry m.kernelPageDirectory i = m.entry m.kernelPageDirectory i :=
        Machine.entry_congr h.tables.kernelDir.2 hi fun x hx => hc.kernel (hx ▸ h.tables.kernelDir.1)
      unfold HasTable
      rw [hc.kernelDir, hke, (hc.entries hf hi).resolve_right fun hd => he hd.1]
    | page f i j =>
      obtain rfl : f = e := Option.some.inj hu
      exact hc.page_iff h h' (fun hd => absurd hd he) a
  mem {x u e} hx hu he := hc.mem hx (by
    cases u with
    | held => exact absurd hu (by simp [Use.dirOf])
    | dir => exact fun hd => he (by rw [← Option.some.inj hu, hd])
    | table f i => exact fun hd => he ((Option.some.inj hu).symm.trans hd)
    | page f i j => exact fun hd => absurd ((Option.some.inj hu).symm.trans hd) he)
  kernel hx _ := hc.kernel hx
  frees := hc.frees
  accounted := hc.accounted

theorem NewDir.within (hn : NewDir base own m m' a) :
    Within base tramp (· = a) m m' own (Function.update own a (some .dir)) where
  kernelDir := hn.kernelDir
  uses {b u e} hu he := by
    by_cases hb : b = a
    · rw [hb, Function.update_self, hn.fresh.1]
      refine iff_of_false (fun hs => ?_) nofun
      obtain rfl := Option.some.inj hs
      exact he ((Option.some.inj hu).symm.trans hb)
    · rw [Function.update_of_ne hb]
  mem {x u e} hx _ _ := hn.mem x fun hxa => by
    rw [hxa, hn.fresh.1] at hx
    exact nomatch hx
  kernel {x} hx _ := hn.mem x fun hxa => hn.fresh.2.1 (hxa ▸ hx)
  frees hl := hn.log ▸ hl.alloc a
  accounted hacc := by
    refine hacc.move (fun g hg => (hn.free.2 g).trans (and_iff_left fun he => hg ?_)) nofun
    have hmod := (hn.space.frames.aligned (Function.update_self ..)).1
    rw [he, Nat.div_mul_cancel (Nat.dvd_of_mod_eq_zero hmod)]

theorem Freed.within {gone : List Nat} (hf : Freed base tramp d gone m m' own)
    (h : Owned base tramp m own) (hd : own d = some .dir) :
    Within base tramp (· = d) m m' own (without own gone) where
  kernelDir := hf.kernelDir
  uses {a u e} hu he := by
    rw [without_some]
    refine and_iff_right_of_imp fun ha hm => ?_
    obtain ⟨v, hv, hd'⟩ := hf.mine a hm
    obtain rfl := Option.some.inj (hv.symm.trans ha)
    exact he (Option.some.inj (hu.symm.trans hd'))
  mem {x u e} hx hu he := hf.mem x fun hxd => by
    rcases hxd with hxd | ⟨i, ht⟩
    · rw [hxd] at hx hu
      obtain rfl := Option.some.inj (hd.symm.trans hx)
      exact he (Option.some.inj hu).symm
    · obtain rfl := Option.some.inj (ht.symm.trans hx)
      exact he (Option.some.inj hu).symm
  kernel {x} hx _ := hf.mem x fun hxd => by
    rcases hxd with hxd | ⟨i, ht⟩
    · exact (h.frames.owned hd).2.2 (hxd ▸ hx)
    · exact (h.frames.owned ht).2.2 hx
  frees := hf.freesOk h
  accounted := hf.accounted

/-! ## Walks -/

/-- The table that an entry leads to is that of the entry alone, or the entry is the kernel's. -/
theorem Tables.leads_cases (h : Tables base m own) (hd : own d = some .dir) (hi : i < 1024)
    (hp : present (m.entry d i)) : own (frameAddr (m.entry d i)) = some (.table d i) ∨
      kernelIdx i ∧ m.entry d i = m.entry m.kernelPageDirectory i := by
  by_cases hk : kernelIdx i ∧ m.entry d i = m.entry m.kernelPageDirectory i
  · exact .inr hk
  · exact .inl (h.table.mpr ⟨hd, hi, hp, rfl, fun h1 h2 => hk ⟨h1, h2⟩⟩)

/-- The walks from a directory are the same where the directory and its tables are. -/
theorem Tables.pte_congr (h : Tables base m own) (hd : own d = some .dir) (hmod : d % 4096 = 0)
    (hi : i < 1024) (hj : j < 1024) (hdir : ∀ x, frameAddr x = d → m'.mem x = m.mem x)
    (htable : ∀ x, own (frameAddr x) = some (.table d i) → m'.mem x = m.mem x)
    (hkernel : ∀ x, kernelIdx i → frameAddr x = frameAddr (m.entry m.kernelPageDirectory i) →
      m'.mem x = m.mem x) : pte m' d i j = pte m d i j := by
  have he : m'.entry d i = m.entry d i := Machine.entry_congr hmod hi hdir
  unfold pte
  rw [he]
  split
  · rename_i hp
    refine Machine.entry_congr (frameAddr_mod _) hj fun x hx => ?_
    rcases h.leads_cases hd hi hp with ht | ⟨hk, hke⟩
    · rw [← hx] at ht
      exact htable x ht
    · rw [hke] at hx
      exact hkernel x hk hx
  · rfl

theorem Within.pte (hw : Within base tramp D m m' own own') (h : Owned base tramp m own)
    (ha : TrampApart tramp m) (he : own e = some .dir) (hne : ¬ D e) (hi : i < 1024) (hj : j < 1024) :
    pte m' e i j = pte m e i j := by
  refine h.tables.pte_congr he (h.frames.aligned he).1 hi hj (fun x hx => ?_) (fun x hx => ?_)
    fun x hk hx => ?_
  · exact hw.mem (u := .dir) (hx ▸ he) (congrArg some hx) hne
  · exact hw.mem hx rfl hne
  · have hbase := (h.tables.kernelTables i hi hk).2
    have htramp := ha.table i hi hk
    rw [← hx] at hbase htramp
    exact hw.kernel hbase htramp

theorem Within.apart (hw : Within base tramp D m m' own own') (h : Owned base tramp m own)
    (ha : TrampApart tramp m) : TrampApart tramp m' := by
  refine ⟨hw.kernelDir ▸ ha.dir, fun i hi hk => ?_⟩
  have he : m'.entry m.kernelPageDirectory i = m.entry m.kernelPageDirectory i :=
    Machine.entry_congr h.tables.kernelDir.2 hi fun x hx =>
      hw.kernel (hx ▸ h.tables.kernelDir.1) (hx ▸ ha.dir)
  rw [hw.kernelDir, he]
  exact ha.table i hi hk

theorem Within.priv (hw : Within base tramp D m m' own own') (h : Owned base tramp m own)
    (ha : TrampApart tramp m) (he : own e = some .dir) (hne : ¬ D e) (hp : Private m own e) :
    Private m' own' e := fun i j hi hj => by
  unfold Proper
  rw [hw.pte h ha he hne hi.1 hj]
  exact fun hpr => ⟨(hp i j hi hj hpr).1, fun ht => (hw.uses rfl hne).mpr ((hp i j hi hj hpr).2 ht)⟩

theorem Changes.priv (hc : Changes base d R m m' own own') (hd : own d = some .dir)
    (hp : Private m own d) : Private m' own' d := fun i j hi hj =>
  hc.proper hd hi hj (hp i j hi hj)

/-! ## Stores -/

/-- The frame holds user data: a page of the directory, or what all processes share. -/
def UserFrame (tramp : Nat) (own : Owners) (d a : Nat) : Prop :=
  a = tramp ∨ ∃ i j, own a = some (.page d i j)

/-- A store through the mappings of a directory. -/
theorem Owned.poke (h : Owned base tramp m own) (ha : TrampApart tramp m)
    (hu : UserFrame tramp own d a) (hmem : WritesOnly m m' (· = a)) (hpmm : m'.pmm = m.pmm)
    (hkd : m'.kernelPageDirectory = m.kernelPageDirectory)
    (hlog : FreesOk base m.log → FreesOk base m'.log) :
    Owned base tramp m' own ∧ Within base tramp (· = d) m m' own own ∧
      ∀ e i j, own e = some .dir → i < 1024 → j < 1024 → Paging.pte m' e i j = Paging.pte m e i j := by
  have htramp : own tramp = none := by
    cases ho : own tramp with
    | none => rfl
    | some u => exact absurd h.tramp (h.frames.owned ho).2.2
  have hdir : ∀ {b}, own b = some .dir → b ≠ a := fun hb hba => by
    subst hba
    rcases hu with rfl | ⟨i, j, hp⟩
    · rw [htramp] at hb
      exact nomatch hb
    · exact absurd (Option.some.inj (hp.symm.trans hb)) (by simp)
  have htable : ∀ {b e i}, own b = some (.table e i) → b ≠ a := fun hb hba => by
    subst hba
    rcases hu with rfl | ⟨i, j, hp⟩
    · rw [htramp] at hb
      exact nomatch hb
    · exact absurd (Option.some.inj (hp.symm.trans hb)) (by simp)
  have hbase : ∀ {b}, base b → b ≠ tramp → b ≠ a := fun {b} hb ht hba => by
    subst hba
    rcases hu with rfl | ⟨i, j, hp⟩
    · exact ht rfl
    · exact (h.frames.owned hp).2.2 hb
  have hkent : ∀ i < 1024, m'.entry m.kernelPageDirectory i = m.entry m.kernelPageDirectory i :=
    fun i hi => Machine.entry_congr h.tables.kernelDir.2 hi fun x hx =>
      hmem x (hx ▸ hbase h.tables.kernelDir.1 ha.dir)
  have hent : ∀ e i, own e = some .dir → i < 1024 → m'.entry e i = m.entry e i := fun e i he hi =>
    Machine.entry_congr (h.frames.aligned he).1 hi fun x hx => hmem x (hx ▸ hdir he)
  have hpte : ∀ e i j, own e = some .dir → i < 1024 → j < 1024 →
      Paging.pte m' e i j = Paging.pte m e i j := fun e i j he hi hj =>
    h.tables.pte_congr he (h.frames.aligned he).1 hi hj (fun x hx => hmem x (hx ▸ hdir he))
      (fun x hx => hmem x (htable hx)) fun x hk hx => hmem x (by
        rw [hx]
        exact hbase (h.tables.kernelTables i hi hk).2 (ha.table i hi hk))
  refine ⟨⟨⟨hpmm ▸ h.frames, ⟨hkd ▸ h.tables.kernelDir, fun i hi hk => ?_, fun {b e i} => ?_⟩⟩,
    h.pages.same (fun _ => Iff.rfl) (fun _ _ _ _ => Iff.rfl) hpte, h.tramp⟩,
    ⟨hkd, fun _ _ => Iff.rfl, fun {x u e} hx hu' he => hmem x fun hxa => ?_, fun hx ht =>
      hmem _ (hbase hx ht), hlog, fun hacc => hpmm ▸ hacc⟩, hpte⟩
  · rw [hkd, hkent i hi]
    exact h.tables.kernelTables i hi hk
  · rw [h.tables.table]
    refine and_congr_right fun he => and_congr_right fun hi => ?_
    unfold HasTable
    rw [hkd, hkent i hi, hent e i he hi]
  · rw [hxa] at hx hu'
    rcases hu with rfl | ⟨i, j, hp⟩
    · rw [htramp] at hx
      exact nomatch hx
    · obtain rfl := Option.some.inj (hp.symm.trans hx)
      exact he (Option.some.inj hu').symm

end Paging
end Hashx86
