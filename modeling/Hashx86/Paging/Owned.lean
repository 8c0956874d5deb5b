import Hashx86.Paging.Map

/-!
# Address spaces with their pages

`Owned` is `Space` with `Pages`. Every call that maps or unmaps a page of a directory keeps it, and
`Changes` says what such a call leaves alone: all other uses of frames, the walks to all other
pages, and the memory of all frames but the tables of the directory and the pages that changed.

* `Owned.alloc`, `Owned.free`, `Owned.store`: a frame that is in no address space.
* `Owned.mapPage`, `Owned.mapShared`: a held frame becomes a page, or the frame that all processes
  share is mapped.
* `Owned.unmap`: the entry of a page is cleared; its frame is held then.
-/

namespace Hashx86
namespace Paging

open Lib Pmm

structure Owned (base : Nat → Prop) (tramp : Nat) (m : Machine) (own : Owners) : Prop
    extends Space base m own where
  pages : Pages tramp m own
  tramp : base tramp

variable {base : Nat → Prop} {tramp : Nat} {m m₁ m' : Machine} {own own₁ own' : Owners}
variable {a d i j t v : Nat} {R : Nat → Nat → Prop}

/-! ## Uses -/

/-- The frame of the page, if it has one, is held. -/
def vacate (own : Owners) (d i j : Nat) : Owners := fun a =>
  if own a = some (.page d i j) then some .held else own a

theorem vacate_iff {u : Use} (hu : u ≠ .held) (hp : u ≠ .page d i j) (a : Nat) :
    vacate own d i j a = some u ↔ own a = some u := by
  unfold vacate
  split
  · rename_i h
    rw [h]
    exact iff_of_false (fun he => hu (Option.some.inj he).symm) fun he => hp (Option.some.inj he).symm
  · exact Iff.rfl

theorem vacate_page (own : Owners) (d i j a : Nat) : vacate own d i j a ≠ some (.page d i j) := by
  unfold vacate
  split
  · simp
  · assumption

theorem vacate_held (h : vacate own d i j a = some .held) :
    own a = some .held ∨ own a = some (.page d i j) := by
  unfold vacate at h
  split at h
  · exact .inr ‹_›
  · exact .inl h

theorem vacate_self {u : Use} (h : own a = some u) (hu : u ≠ .page d i j) :
    vacate own d i j a = some u := by
  unfold vacate
  rw [if_neg fun he => hu (Option.some.inj (h.symm.trans he)), h]

theorem vacate_used {u : Use} (h : own a = some u) : ∃ u', vacate own d i j a = some u' := by
  unfold vacate
  split
  · exact ⟨_, rfl⟩
  · exact ⟨u, h⟩

/-- A page without a frame has nothing to give up. -/
theorem vacate_of_none (h : ∀ a, own a ≠ some (.page d i j)) : vacate own d i j = own := by
  funext a
  exact if_neg (h a)

/-- No frame comes into use. -/
theorem Frames.of_sub {p : Info} (h : Frames base p own)
    (hsub : ∀ {a u}, own' a = some u → ∃ v, own a = some v) : Frames base p own' := by
  refine ⟨h.wf, fun hb => ?_, fun hb => ?_, h.used, h.zero⟩
  · obtain ⟨_, hb⟩ := hsub hb
    exact h.aligned hb
  · obtain ⟨_, hb⟩ := hsub hb
    exact h.owned hb

theorem Frames.vacate {p : Info} (h : Frames base p own) (d i j : Nat) :
    Frames base p (vacate own d i j) :=
  h.of_sub fun {b u} hb => by
    unfold Paging.vacate at hb
    split at hb
    · exact ⟨_, ‹_›⟩
    · exact ⟨u, hb⟩

theorem Tables.vacate (h : Tables base m own) (d i j : Nat) : Tables base m (vacate own d i j) :=
  h.reown (fun e => vacate_iff (by simp) (by simp) e) fun a e i' => vacate_iff (by simp) (by simp) a

/-! ## What a call leaves alone -/

/-- The memory of a frame is not that of a table of `d`, of a page in `R` of `d`, or of a frame
that is in no address space. -/
def Untouched (d : Nat) (R : Nat → Nat → Prop) (a : Nat) : Use → Prop
  | .held => False
  | .dir => a ≠ d
  | .table e _ => e ≠ d
  | .page e i j => e = d → ¬ R i j

/-- A frame that was freed was in use, and it is not of the kernel. `pmm_free_block` ignores
`NULL`. -/
def FreesOk (base : Nat → Prop) (log : List Event) : Prop :=
  ∀ a inUse, .free a inUse ∈ log → a ≠ 0 → inUse = true ∧ a % 4096 = 0 ∧ ¬ base a

theorem FreesOk.alloc {log : List Event} (h : FreesOk base log) (a : Nat) :
    FreesOk base (.alloc a :: log) := fun b inUse hb =>
  h b inUse ((List.mem_cons.mp hb).resolve_left (by simp))

theorem FreesOk.free {log : List Event} (h : FreesOk base log) (hmod : a % 4096 = 0) (ha : ¬ base a) :
    FreesOk base (.free a true :: log) := fun b inUse hb h0 => by
  rcases List.mem_cons.mp hb with he | hb
  · obtain ⟨rfl, rfl⟩ := Event.free.inj he
    exact ⟨rfl, hmod, ha⟩
  · exact h b inUse hb h0

/-- Each frame in use is the kernel's, or it has a use. -/
def Accounted (base : Nat → Prop) (p : Info) (own : Owners) : Prop :=
  ∀ g, ¬ Free p g → base (g * 4096) ∨ ∃ u, own (g * 4096) = some u

/-- A frame is taken, or given back. -/
theorem Accounted.move {p p' : Info} (h : Accounted base p own) {o : Option Use}
    (hfree : ∀ g, g * 4096 ≠ a → (Free p' g ↔ Free p g))
    (ho : o = none → Free p' (a / 4096)) : Accounted base p' (Function.update own a o) :=
  fun g hg => by
    by_cases hga : g * 4096 = a
    · cases o with
      | none => exact absurd (ho rfl) (by rwa [← hga, Nat.mul_div_cancel _ (by decide)])
      | some u => exact .inr ⟨u, hga ▸ Function.update_self ..⟩
    · rw [Function.update_of_ne hga]
      exact h g fun hf => hg ((hfree g hga).mpr hf)

/-- The page, if it is mapped, is backed by a frame of its own. -/
def Plain (m : Machine) (own : Owners) (d i j : Nat) : Prop :=
  present (pte m d i j) → own (frameAddr (pte m d i j)) = some (.page d i j)

/-- The page where every process has the frame that all share. -/
def AtTrampoline (i j : Nat) : Prop := i = 256 ∧ j = 0

/-- The page, if it is mapped, is backed by a frame of its own, or it is that of the exit trampoline
and not backed by frame 0. -/
def Proper (m : Machine) (own : Owners) (d i j : Nat) : Prop :=
  present (pte m d i j) → frameAddr (pte m d i j) ≠ 0 ∧
    (¬ AtTrampoline i j → own (frameAddr (pte m d i j)) = some (.page d i j))

theorem Proper.plain (h : Proper m own d i j) (ht : ¬ AtTrampoline i j) : Plain m own d i j :=
  fun hp => (h hp).2 ht

/-- A call for directory `d` that may change the pages in `R`. -/
structure Changes (base : Nat → Prop) (d : Nat) (R : Nat → Nat → Prop) (m m' : Machine)
    (own own' : Owners) : Prop where
  kernelDir : m'.kernelPageDirectory = m.kernelPageDirectory
  dirs : ∀ e, own' e = some .dir ↔ own e = some .dir
  kept : ∀ {a u}, own a = some u → u ≠ .held → (∀ i j, u = .page d i j → ¬ R i j) → own' a = some u
  pte : ∀ {e i j}, own e = some .dir → i < 1024 → j < 1024 → (e = d → ¬ R i j) →
    pte m' e i j = pte m e i j
  entries : ∀ {e i}, own e = some .dir → i < 1024 → m'.entry e i = m.entry e i ∨
    e = d ∧ kernelIdx i = false ∧ m'.entry e i % 4096 = 7
  mem : ∀ {x u}, own (frameAddr x) = some u → Untouched d R (frameAddr x) u → m'.mem x = m.mem x
  kernel : ∀ {x}, base (frameAddr x) → m'.mem x = m.mem x
  frees : FreesOk base m.log → FreesOk base m'.log
  accounted : Accounted base m.pmm own → Accounted base m'.pmm own'
  proper : ∀ {i j}, own d = some .dir → i < 1024 ∧ kernelIdx i = false → j < 1024 →
    Proper m own d i j → Proper m' own' d i j

theorem Changes.refl (base : Nat → Prop) (d : Nat) (R : Nat → Nat → Prop) (m : Machine)
    (own : Owners) : Changes base d R m m own own :=
  ⟨rfl, fun _ => Iff.rfl, fun h _ _ => h, fun _ _ _ _ => rfl, fun _ _ => .inl rfl, fun _ _ => rfl,
    fun _ => rfl, id, id, fun _ _ _ h => h⟩

theorem Untouched.kept {u : Use} (h : Untouched d R a u) :
    u ≠ .held ∧ ∀ i j, u = .page d i j → ¬ R i j := by
  refine ⟨fun he => ?_, fun i j he => ?_⟩
  · rw [he] at h
    exact h
  · rw [he] at h
    exact h rfl

theorem Changes.trans (h₁ : Changes base d R m m₁ own own₁) (h₂ : Changes base d R m₁ m' own₁ own') :
    Changes base d R m m' own own' where
  kernelDir := h₂.kernelDir.trans h₁.kernelDir
  dirs e := (h₂.dirs e).trans (h₁.dirs e)
  kept h hu hr := h₂.kept (h₁.kept h hu hr) hu hr
  pte he hi hj hr := (h₂.pte ((h₁.dirs _).mpr he) hi hj hr).trans (h₁.pte he hi hj hr)
  entries he hi := by
    rcases h₂.entries ((h₁.dirs _).mpr he) hi with h | h
    · rw [h]
      exact h₁.entries he hi
    · exact .inr h
  mem h hu := (h₂.mem (h₁.kept h hu.kept.1 hu.kept.2) hu).trans (h₁.mem h hu)
  kernel h := (h₂.kernel h).trans (h₁.kernel h)
  frees h := h₂.frees (h₁.frees h)
  accounted h := h₂.accounted (h₁.accounted h)
  proper hd hi hj hp := h₂.proper ((h₁.dirs d).mpr hd) hi hj (h₁.proper hd hi hj hp)

theorem Changes.mono {R' : Nat → Nat → Prop} (h : Changes base d R m m' own own')
    (hr : ∀ i j, R i j → R' i j) : Changes base d R' m m' own own' where
  kernelDir := h.kernelDir
  dirs := h.dirs
  kept ha hu hno := h.kept ha hu fun i j he hij => hno i j he (hr i j hij)
  pte he hi hj hno := h.pte he hi hj fun hd hij => hno hd (hr _ _ hij)
  entries := h.entries
  mem {x u} hx hu := h.mem hx (by
    cases u with
    | held => exact hu
    | dir => exact hu
    | table => exact hu
    | page e i j => exact fun hd hij => hu hd (hr _ _ hij))
  kernel := h.kernel
  frees := h.frees
  accounted := h.accounted
  proper := h.proper

/-- The shared ranges of every directory are the same. -/
theorem Changes.shared (h : Changes base d R m m' own own') {e : Nat} (he : own e = some .dir)
    (hi : i < 1024) (hk : kernelIdx i) : m'.entry e i = m.entry e i := by
  rcases h.entries he hi with heq | ⟨-, hk', -⟩
  · exact heq
  · exact absurd (hk'.symm.trans hk) Bool.false_ne_true

/-! ## Frames in no address space -/

/-- What a successful `pmm_alloc_block_low` does. -/
structure Took (base : Nat → Prop) (tramp : Nat) (m m' : Machine) (own : Owners) (a : Nat) :
    Prop where
  owned : Owned base tramp m' (Function.update own a (some .held))
  fresh : own a = none ∧ ¬ base a ∧ a ≠ 0
  mem : m'.mem = m.mem
  kernelDir : m'.kernelPageDirectory = m.kernelPageDirectory
  log : m'.log = .alloc a :: m.log
  free : ∀ g, Free m'.pmm g ↔ Free m.pmm g ∧ g ≠ a / 4096

/-- The use of a held frame, or of one without a use, changes; no page comes or goes. -/
theorem Pages.reheld (h : Pages tramp m own) (hm : m'.mem = m.mem)
    (ha : own a = none ∨ own a = some .held) {o : Option Use} (ho : o = none ∨ o = some .held) :
    Pages tramp m' (Function.update own a o) :=
  h.same (fun d => update_held_iff ha ho (by simp) d)
    (fun b d i j => update_held_iff ha ho (by simp) b) fun d i j _ _ _ => pte_of_mem hm d i j

theorem Owned.alloc (h : Owned base tramp m own) : m.allocBlockLow = (0, m) ∨
    ∃ a m', m.allocBlockLow = (a, m') ∧ Took base tramp m m' own a := by
  rcases h.toSpace.alloc with he | ⟨a, m', he, h0, -, hnone, hbase, hs, hmem, hkd, hlog, -, hfree⟩
  · exact .inl he
  · exact .inr ⟨a, m', he, ⟨hs, h.pages.reheld hmem (.inl hnone) (.inr rfl), h.tramp⟩,
      ⟨hnone, hbase, h0⟩, hmem, hkd, hlog, hfree⟩

/-- A frame that is held, or has no use, may get another such use: nothing else changes. -/
theorem changes_of_mem (hm : m'.mem = m.mem) (hk : m'.kernelPageDirectory = m.kernelPageDirectory)
    (hl : FreesOk base m.log → FreesOk base m'.log) (ha : own a = none ∨ own a = some .held)
    {o : Option Use} (ho : o = none ∨ o = some .held)
    (hacc : Accounted base m.pmm own → Accounted base m'.pmm (Function.update own a o)) :
    Changes base d R m m' own (Function.update own a o) where
  kernelDir := hk
  dirs e := update_held_iff ha ho (by simp) e
  kept {b u} hb hu _ := (update_held_iff ha ho hu b).mpr hb
  pte _ _ _ _ := pte_of_mem hm _ _ _
  entries _ _ := .inl (Machine.entry_of_mem hm _ _)
  mem _ _ := congrFun hm _
  kernel _ := congrFun hm _
  frees := hl
  accounted := hacc
  proper _ _ _ hp := by
    unfold Proper
    rw [pte_of_mem hm]
    exact fun hpr => ⟨(hp hpr).1, fun ht => (update_held_iff ha ho (by simp) _).mpr ((hp hpr).2 ht)⟩

theorem Took.changes (h : Took base tramp m m' own a) (d : Nat) (R : Nat → Nat → Prop) :
    Changes base d R m m' own (Function.update own a (some .held)) :=
  changes_of_mem h.mem h.kernelDir (fun hl => h.log ▸ hl.alloc a) (.inl h.fresh.1) (.inr rfl)
    fun hacc => hacc.move (fun g hg => (h.free g).trans (and_iff_left fun he => hg (by
      rw [he, Nat.div_mul_cancel (Nat.dvd_of_mod_eq_zero
        (h.owned.frames.aligned (Function.update_self ..)).1)]))) nofun

theorem Took.held (_ : Took base tramp m m' own a) :
    Function.update own a (some .held) a = some .held := Function.update_self ..

theorem Took.held_iff (_ : Took base tramp m m' own a) {b : Nat} (hb : b ≠ a) {o : Option Use} :
    Function.update own a (some .held) b = o ↔ own b = o := by
  rw [Function.update_of_ne hb]

theorem Took.other (h : Took base tramp m m' own a) {b : Nat} {u : Use} (hb : own b = some u) :
    Function.update own a (some .held) b = some u := by
  rw [Function.update_of_ne fun heq => by
    rw [heq, h.fresh.1] at hb
    exact absurd hb (by simp)]
  exact hb

/-- A held frame is freed. -/
theorem Owned.free (h : Owned base tramp m own) (ha : own a = some .held) :
    Owned base tramp (m.freeBlock a) (Function.update own a none) ∧
      Changes base d R m (m.freeBlock a) own (Function.update own a none) := by
  obtain ⟨hs, hlog, hfree⟩ := h.toSpace.free ha
  have hmem : (m.freeBlock a).mem = m.mem := rfl
  have hmod := (h.frames.aligned ha).1
  exact ⟨⟨hs, h.pages.reheld hmem (.inr ha) (.inl rfl), h.tramp⟩,
    changes_of_mem hmem rfl (fun hl => hlog ▸ hl.free hmod (h.frames.owned ha).2.2) (.inr ha) (.inl rfl)
      fun hacc => hacc.move (fun g hg => (hfree g).trans (or_iff_left (by omega)))
        fun _ => (hfree _).mpr (.inr rfl)⟩

/-- A frame of the processes is not written by a store elsewhere. -/
theorem Owned.held_ne (ha : own a = some .held) {b : Nat} {u : Use}
    (hb : own b = some u) (hu : u ≠ .held) : b ≠ a := fun he => by
  rw [he, ha] at hb
  exact hu (Option.some.inj hb).symm

/-- A frame that holds no table is written. -/
theorem Owned.write (h : Owned base tramp m own) {u : Use} (ha : own a = some u)
    (hu : ¬ Untouched d R a u) (hs : ¬ Structural base own a) (hmem : WritesOnly m m' (· = a))
    (hpmm : m'.pmm = m.pmm) (hkd : m'.kernelPageDirectory = m.kernelPageDirectory)
    (hlog : m'.log = m.log) :
    Owned base tramp m' own ∧ Changes base d R m m' own own ∧
      ∀ e i j, own e = some .dir → i < 1024 → j < 1024 → pte m' e i j = pte m e i j := by
  have hsame : SameTables base own m m' := ⟨hkd, fun x hx => hmem x fun he => hs (he ▸ hx)⟩
  have hpte : ∀ e i j, own e = some .dir → i < 1024 → j < 1024 → pte m' e i j = pte m e i j :=
    fun e i j he hi hj => h.tables.pte_same h.frames hsame he hi hj
  refine ⟨⟨h.toSpace.same hsame hpmm, h.pages.same (fun _ => Iff.rfl) (fun _ _ _ _ => Iff.rfl) hpte,
    h.tramp⟩, ⟨hkd, fun _ => Iff.rfl, fun hb _ _ => hb, fun he hi hj _ => hpte _ _ _ he hi hj,
    fun he hi => .inl ?_, fun {x v} hx hv => hmem x fun he => hu ?_, fun {x} hx => ?_,
    fun hl => hlog ▸ hl, fun hacc => hpmm ▸ hacc, fun {i j} hd hi hj hp => ?_⟩, hpte⟩
  · exact hsame.entry (.inr (.inl he)) (h.frames.aligned he).1 hi
  · rw [he, ha] at hx
    obtain rfl := Option.some.inj hx
    rwa [he] at hv
  · exact hsame.mem x (.inl hx)
  · unfold Proper
    rw [hpte d i j hd hi.1 hj]
    exact hp

/-- A held frame is written. -/
theorem Owned.store (h : Owned base tramp m own) (ha : own a = some .held) (src : Nat → UInt8) :
    Owned base tramp (m.store a 4096 src) own ∧
      Changes base d R m (m.store a 4096 src) own own := by
  have hmem : WritesOnly m (m.store a 4096 src) (· = a) := fun _ hx =>
    Machine.mem_store_of_ne src (h.frames.aligned ha).1 hx
  obtain ⟨ho, hc, -⟩ := h.write ha id (h.held_not_structural ha) hmem rfl rfl rfl
  exact ⟨ho, hc⟩

/-- A page of a process holds no table. -/
theorem Owned.page_not_structural (h : Owned base tramp m own) {e : Nat}
    (ha : own a = some (.page e i j)) : ¬ Structural base own a := by
  rintro (hb | hd | ⟨e', i', ht⟩)
  · exact (h.frames.owned ha).2.2 hb
  · exact absurd (Option.some.inj (ha.symm.trans hd)) (by simp)
  · exact absurd (Option.some.inj (ha.symm.trans ht)) (by simp)

/-- A page in `R` is written. -/
theorem Owned.writePage (h : Owned base tramp m own) (ha : own a = some (.page d i j)) (hr : R i j)
    (hmem : WritesOnly m m' (· = a)) (hpmm : m'.pmm = m.pmm)
    (hkd : m'.kernelPageDirectory = m.kernelPageDirectory) (hlog : m'.log = m.log) :
    Owned base tramp m' own ∧ Changes base d R m m' own own ∧
      ∀ e i j, own e = some .dir → i < 1024 → j < 1024 → pte m' e i j = pte m e i j :=
  h.write ha (fun hu => hu rfl hr) (h.page_not_structural ha) hmem hpmm hkd hlog

/-- A new directory has no pages. -/
theorem NewDir.owned (hn : NewDir base own m m' a) (h : Owned base tramp m own) :
    Owned base tramp m' (Function.update own a (some .dir)) := by
  obtain ⟨hnone, -, -⟩ := hn.fresh
  have hpages : Pages tramp m' (Function.update own a (some .held)) :=
    h.pages.same (fun d => update_held_iff (.inl hnone) (.inr rfl) (by simp) d)
      (fun b d i j => update_held_iff (.inl hnone) (.inr rfl) (by simp) b)
      fun d i j hd hi hj => h.tables.pte_same h.frames hn.same hd hi hj
  have hadd := hpages.addDir (Function.update_self ..) fun i hi hk => by
    rw [hn.empty i hi hk]
    rfl
  rw [Function.update_idem] at hadd
  exact ⟨hn.space, hadd, h.tramp⟩

/-! ## Pages come and go -/

/-- What a `MapPage` of frame `a` at page `i`, `j` does. -/
structure PutPage (base : Nat → Prop) (tramp d i j a v : Nat) (m m' : Machine)
    (own own' : Owners) : Prop where
  owned : Owned base tramp m' own'
  changes : Changes base d (fun i' j' => i' = i ∧ j' = j) m m' own own'
  pte : pte m' d i j = v
  page : own a = some .held → own' a = some (.page d i j)
  held : ∀ b, own' b = some .held → (own b = some .held ∧ b ≠ a) ∨ own b = some (.page d i j)
  content : ∀ x, own (frameAddr x) = some .held → m'.mem x = m.mem x

section Mapped

variable (hm : Mapped base own own' m m' d i j v t)
include hm

theorem Mapped.hold {b : Nat} {u : Use} (hb : own b = some u) : own' b = some u := by
  rcases hm.grown with hg | ⟨hnone, -, hg⟩
  · rw [hg]
    exact hb
  · rw [hg, Function.update_of_ne fun heq => by
      rw [heq, hnone] at hb
      exact absurd hb (by simp)]
    exact hb

theorem Mapped.own_iff {u : Use} (hu : u ≠ .table d i) (b : Nat) : own' b = some u ↔ own b = some u := by
  refine ⟨fun hb => ?_, fun hb => hm.hold hb⟩
  rcases hm.grown with hg | ⟨hnone, -, hg⟩
  · rwa [hg] at hb
  · by_cases hbt : b = t
    · rw [hbt, hm.table] at hb
      exact absurd (Option.some.inj hb).symm hu
    · rwa [hg, Function.update_of_ne hbt] at hb

/-- A frame that is neither the directory nor its table is not written. -/
theorem Mapped.content {x : Nat} {u : Use} (hx : own (frameAddr x) = some u) (hd : frameAddr x ≠ d)
    (ht : u ≠ .table d i) : m'.mem x = m.mem x :=
  hm.mem x fun hxt => hxt.elim
    (fun hxt => ht (Option.some.inj ((hm.hold hx).symm.trans (hxt ▸ hm.table)))) hd

variable (h : Owned base tramp m own)
include h

theorem Mapped.kernel (hd : own d = some .dir) {x : Nat} (hx : base (frameAddr x)) :
    m'.mem x = m.mem x :=
  hm.mem x fun hxt => hxt.elim (fun hxt => (hm.space.frames.owned hm.table).2.2 (hxt ▸ hx))
    fun hxd => (h.frames.owned hd).2.2 (hxd ▸ hx)

/-- What does not depend on the frame that was mapped. -/
theorem Mapped.changes (hd : own d = some .dir) (hi : kernelIdx i = false) {own₂ : Owners}
    (hdirs : ∀ e, own₂ e = some .dir ↔ own e = some .dir)
    (hkept : ∀ {b u}, own b = some u → u ≠ .held → u ≠ .page d i j → own₂ b = some u)
    (hused : ∀ {b u}, own' b = some u → ∃ u', own₂ b = some u')
    (hproper : present v → frameAddr v ≠ 0 ∧
      (¬ AtTrampoline i j → own₂ (frameAddr v) = some (.page d i j))) :
    Changes base d (fun i' j' => i' = i ∧ j' = j) m m' own own₂ where
  kernelDir := hm.kernelDir
  dirs := hdirs
  kept hb hu hr := hkept hb hu fun he => hr i j he ⟨rfl, rfl⟩
  pte he hi' hj' hr := by
    rw [hm.pte _ _ _ he hi' hj', if_neg fun hs => hr hs.1 hs.2]
  entries he hi' := by
    rcases hm.entries _ _ he hi' with hs | ⟨hed, rfl, h7⟩
    · exact .inl hs
    · exact .inr ⟨hed, hi, h7⟩
  mem {x u} hx hu := hm.content hx (fun hxd => by
      rw [hxd, hd] at hx
      obtain rfl := Option.some.inj hx
      exact hu hxd) fun ht => by
    rw [ht] at hu
    exact hu rfl
  kernel hx := hm.kernel h hd hx
  frees hl := by
    rcases hm.log with he | he
    · rwa [he]
    · exact he ▸ hl.alloc t
  accounted hacc g hg := by
    have hmod := (hm.space.frames.aligned hm.table).1
    by_cases hgt : g = t / 4096
    · rw [hgt, Nat.div_mul_cancel (Nat.dvd_of_mod_eq_zero hmod)]
      exact .inr (hused hm.table)
    · refine (hacc g fun hf => hg ((hm.free g).mpr ⟨hf, .inr hgt⟩)).imp_right fun ⟨u, hu⟩ => ?_
      exact hused (hm.hold hu)
  proper {i' j'} _ hi' hj' hp := by
    unfold Proper
    rw [hm.pte d i' j' hd hi'.1 hj']
    split
    · rename_i he
      obtain ⟨-, rfl, rfl⟩ := he
      exact hproper
    · rename_i hne
      refine fun hpr => ⟨(hp hpr).1, fun ht => hkept ((hp hpr).2 ht) (by simp) fun he => ?_⟩
      obtain ⟨-, rfl, rfl⟩ := Use.page.inj he
      exact hne ⟨rfl, rfl, rfl⟩

/-- A held frame was mapped. -/
theorem Mapped.put (hd : own d = some .dir) (hi : i < 1024 ∧ kernelIdx i = false) (hj : j < 1024)
    (ha : own a = some .held) (hp : present v) (hva : frameAddr v = a) :
    PutPage base tramp d i j a v m m'
      own (Function.update (vacate own' d i j) a (some (.page d i j))) := by
  have ha' : own' a = some .held := hm.hold ha
  have hvac : vacate own' d i j a = some .held := vacate_self ha' (by simp)
  obtain ⟨hmod, h0, -⟩ := h.frames.aligned ha
  have htramp : a ≠ tramp := fun he => (h.frames.owned ha).2.2 (he ▸ h.tramp)
  have hiff : ∀ {u : Use}, u ≠ .held → u ≠ .page d i j → ∀ b,
      Function.update (vacate own' d i j) a (some (.page d i j)) b = some u ↔ own' b = some u :=
    fun {u} hu hpu b => by
      by_cases hb : b = a
      · rw [hb, Function.update_self, ha']
        exact iff_of_false (fun he => hpu (Option.some.inj he).symm)
          fun he => hu (Option.some.inj he).symm
      · rw [Function.update_of_ne hb, vacate_iff hu hpu]
  have hdirs : ∀ e, Function.update (vacate own' d i j) a (some (.page d i j)) e = some .dir ↔
      own e = some .dir := fun e => by
    rw [hiff (by simp) (by simp), hm.own_iff (by simp)]
  refine ⟨⟨⟨(hm.space.frames.vacate d i j).reown hvac _, hm.space.tables.reown
      (fun e => hiff (by simp) (by simp) e) fun b e i' => hiff (by simp) (by simp) b⟩, ?_, h.tramp⟩,
    hm.changes h hd hi.2 hdirs (fun hb hu hpu => (hiff hu hpu _).mpr (hm.hold hb)) (fun {b u} hb => ?_)
      (fun _ => by
      rw [hva]
      exact ⟨h0, fun _ => Function.update_self ..⟩), ?_, fun _ => Function.update_self ..,
    fun b hb => ?_, fun x hx => ?_⟩
  · refine h.pages.setPte (d := d) (i := i) (j := j) (v := v) hdirs hd hi hj hm.pte
      (fun b e i' j' hne => ?_) fun b => ?_
    · rw [hiff (by simp) fun he => hne (by cases he; exact ⟨rfl, rfl, rfl⟩), hm.own_iff (by simp)]
    · by_cases hb : b = a
      · rw [hb, Function.update_self]
        exact iff_of_true rfl ⟨hp, hva, htramp, h0⟩
      · rw [Function.update_of_ne hb]
        exact iff_of_false (vacate_page own' d i j b) fun hs => hb (hs.2.1.symm.trans hva)
  · by_cases hba : b = a
    · rw [hba, Function.update_self]
      exact ⟨_, rfl⟩
    · rw [Function.update_of_ne hba]
      exact vacate_used hb
  · rw [hm.pte d i j hd hi.1 hj, if_pos ⟨rfl, rfl, rfl⟩]
  · by_cases hba : b = a
    · rw [hba, Function.update_self] at hb
      exact absurd (Option.some.inj hb) (by simp)
    · rw [Function.update_of_ne hba] at hb
      rcases vacate_held hb with hb | hb
      · exact .inl ⟨(hm.own_iff (by simp) b).mp hb, hba⟩
      · exact .inr ((hm.own_iff (by simp) b).mp hb)
  · exact hm.content hx (fun hxd => by
      rw [hxd, hd] at hx
      exact absurd (Option.some.inj hx) (by simp)) (by simp)

/-- A frame that is no page of a process was mapped, or the entry was cleared. -/
theorem Mapped.putShared (hd : own d = some .dir) (hi : i < 1024 ∧ kernelIdx i = false)
    (hj : j < 1024) (hv : ∀ b, ¬ MapsPage tramp v b) (hvt : present v → AtTrampoline i j ∧ frameAddr v ≠ 0)
    (ha : own a ≠ some .held) : PutPage base tramp d i j a v m m' own (vacate own' d i j) := by
  have hdirs : ∀ e, vacate own' d i j e = some .dir ↔ own e = some .dir := fun e => by
    rw [vacate_iff (by simp) (by simp), hm.own_iff (by simp)]
  refine ⟨⟨⟨hm.space.frames.vacate d i j, hm.space.tables.vacate d i j⟩, ?_, h.tramp⟩,
    hm.changes h hd hi.2 hdirs (fun hb hu hpu => (vacate_iff hu hpu _).mpr (hm.hold hb))
      (fun hb => vacate_used hb) (fun hp => ⟨(hvt hp).2, fun hnot => absurd (hvt hp).1 hnot⟩),
    ?_, fun hh => absurd hh ha,
    fun b hb => ?_, fun x hx => ?_⟩
  · refine h.pages.setPte (d := d) (i := i) (j := j) (v := v) hdirs hd hi hj hm.pte
      (fun b e i' j' hne => ?_) fun b => ?_
    · rw [vacate_iff (by simp) fun he => hne (by cases he; exact ⟨rfl, rfl, rfl⟩),
        hm.own_iff (by simp)]
    · exact iff_of_false (vacate_page own' d i j b) (hv b)
  · rw [hm.pte d i j hd hi.1 hj, if_pos ⟨rfl, rfl, rfl⟩]
  · rcases vacate_held hb with hb | hb
    · have hb := (hm.own_iff (by simp) b).mp hb
      exact .inl ⟨hb, fun he => ha (he ▸ hb)⟩
    · exact .inr ((hm.own_iff (by simp) b).mp hb)
  · exact hm.content hx (fun hxd => by
      rw [hxd, hd] at hx
      exact absurd (Option.some.inj hx) (by simp)) (by simp)

end Mapped

theorem Owned.mapPage (h : Owned base tramp m own) (hd : own d = some .dir) (ha : own a = some .held)
    {va flags : Nat} (hva : va < 2 ^ 32) (hp : present flags) (hlt : flags < 4096) :
    mapPage m d va a flags = (false, m) ∨
    ∃ m' own', mapPage m d va a flags = (true, m') ∧ kernelIdx (pdIdx va) = false ∧
      PutPage base tramp d (pdIdx va) (ptIdx va) a (a ||| flags) m m' own own' := by
  obtain ⟨hmod, -, hlow⟩ := h.frames.aligned ha
  have haddr : frameAddr a = a := frameAddr_of_mod hmod
  have hv : frameAddr a ||| flags < 2 ^ 32 :=
    Nat.or_lt_two_pow (by rw [haddr]; unfold lowLimit at hlow; omega) (by omega)
  rcases mapPage_cases h.toSpace hd hva hv with he | ⟨m', own', t, he, hk, hm⟩
  · exact .inl he
  · rw [haddr] at hm
    exact .inr ⟨m', _, he, hk, hm.put h hd ⟨pdIdx_lt hva, hk⟩ (ptIdx_lt va) ha
      ((present_or hmod).trans hp) (frameAddr_or hmod hlt)⟩

/-- `MapPage` of the frame that all processes share. -/
theorem Owned.mapTramp (h : Owned base tramp m own) (hd : own d = some .dir)
    (ht : tramp < 2 ^ 32) (h0 : tramp ≠ 0)
    {va flags : Nat} (hva : va < 2 ^ 32) (hat : AtTrampoline (pdIdx va) (ptIdx va))
    (hlt : flags < 4096) : Paging.mapPage m d va tramp flags = (false, m) ∨
    ∃ m' own', Paging.mapPage m d va tramp flags = (true, m') ∧ kernelIdx (pdIdx va) = false ∧
      PutPage base tramp d (pdIdx va) (ptIdx va) tramp (tramp ||| flags) m m' own own' := by
  have hmod := (h.frames.used _ h.tramp).1
  have haddr : frameAddr tramp = tramp := frameAddr_of_mod hmod
  have hno : own tramp ≠ some .held := fun ho => (h.frames.owned ho).2.2 h.tramp
  have hv : frameAddr tramp ||| flags < 2 ^ 32 :=
    Nat.or_lt_two_pow (haddr.symm ▸ ht) (by omega)
  rcases mapPage_cases h.toSpace hd hva hv with he | ⟨m', own', t, he, hk, hm⟩
  · exact .inl he
  · rw [haddr] at hm
    exact .inr ⟨m', _, he, hk, hm.putShared h hd ⟨pdIdx_lt hva, hk⟩ (ptIdx_lt va)
      (fun b hb => hb.2.2.1 (hb.2.1.symm.trans (frameAddr_or hmod hlt)))
      (fun _ => ⟨hat, by rwa [frameAddr_or hmod hlt]⟩) hno⟩

/-- `MapPage` that clears an entry. -/
theorem Owned.mapZero (h : Owned base tramp m own) (hd : own d = some .dir) {va : Nat}
    (hva : va < 2 ^ 32) : Paging.mapPage m d va 0 0 = (false, m) ∨
    ∃ m' own', Paging.mapPage m d va 0 0 = (true, m') ∧
      PutPage base tramp d (pdIdx va) (ptIdx va) 0 0 m m' own own' := by
  have hno : own 0 ≠ some .held := fun ho => (h.frames.owned ho).2.2 h.frames.zero
  have hv : frameAddr 0 ||| 0 < 2 ^ 32 := by decide
  rcases mapPage_cases h.toSpace hd hva hv with he | ⟨m', own', t, he, hk, hm⟩
  · exact .inl he
  · exact .inr ⟨m', _, he, hm.putShared h hd ⟨pdIdx_lt hva, hk⟩ (ptIdx_lt va)
      (fun b hb => absurd hb.1 (by decide)) (fun hp => absurd hp (by decide)) hno⟩

/-- An entry of a table is cleared. -/
theorem Owned.clear (h : Owned base tramp m own) (ht : own t = some (.table d i)) (hj : j < 1024)
    (hi : kernelIdx i = false) :
    PutPage base tramp d i j 0 0 m (m.setEntry t j 0) own (vacate own d i j) := by
  obtain ⟨hd, hlt, -⟩ := h.tables.table.mp ht
  have hno : own 0 ≠ some .held := fun ho => (h.frames.owned ho).2.2 h.frames.zero
  have hpte : ∀ e i' j', own e = some .dir → i' < 1024 → j' < 1024 →
      Paging.pte (m.setEntry t j 0) e i' j' =
        if e = d ∧ i' = i ∧ j' = j then 0 else Paging.pte m e i' j' := fun e i' j' he hi' hj' =>
    h.tables.pte_setTableEntry h.frames ht hj (by decide) he hi' hj'
  have hmod := (h.frames.aligned ht).1
  have hmap : Mapped base own own m (m.setEntry t j 0) d i j 0 t := by
    refine ⟨⟨h.frames, h.tables.setTableEntry h.frames ht hj 0⟩, ht, .inl rfl, rfl, hpte,
      fun e i' he hi' => .inl ?_, fun x hx => ?_, fun g => ⟨fun hg => ⟨hg, .inl rfl⟩, fun hg => hg.1⟩,
      .inl rfl⟩
    · refine Machine.entry_setEntry_of_ne 0 hmod (h.frames.aligned he).1 hj hi' (.inl fun heq => ?_)
      rw [heq, ht] at he
      exact absurd (Option.some.inj he) (by simp)
    · exact Machine.mem_setEntry_of_ne hmod hj fun hxt => hx (.inl hxt)
  exact hmap.putShared h hd ⟨hlt, hi⟩ hj (fun b hb => absurd hb.1 (by decide))
    (fun hp => absurd hp (by decide)) hno

/-! ## Pages of a directory -/

theorem Owned.page_cases (h : Owned base tramp m own) (hd : own d = some .dir)
    (hi : i < 1024 ∧ kernelIdx i = false) (hj : j < 1024) (hp : present (pte m d i j)) :
    own (frameAddr (pte m d i j)) = some (.page d i j) ∨ frameAddr (pte m d i j) = tramp ∨
      frameAddr (pte m d i j) = 0 := by
  by_cases ht : frameAddr (pte m d i j) = tramp
  · exact .inr (.inl ht)
  · by_cases h0 : frameAddr (pte m d i j) = 0
    · exact .inr (.inr h0)
    · exact .inl (h.pages.page.mpr ⟨hd, hi, hj, hp, rfl, ht, h0⟩)

/-- The page that a frame is used for maps it. -/
theorem Owned.pte_of_page (h : Owned base tramp m own) (ha : own a = some (.page d i j)) :
    present (pte m d i j) ∧ frameAddr (pte m d i j) = a :=
  have hm := (h.pages.page.mp ha).2.2.2
  ⟨hm.1, hm.2.1⟩

theorem Changes.page_iff (hc : Changes base d R m m' own own') (h : Owned base tramp m own)
    (h' : Owned base tramp m' own') {e : Nat} (hr : e = d → ¬ R i j) (b : Nat) :
    own' b = some (.page e i j) ↔ own b = some (.page e i j) := by
  refine ⟨fun hb => ?_, fun hb => hc.kept hb (by simp) fun i' j' he hr' => ?_⟩
  · obtain ⟨hd, hi, hj, hm⟩ := h'.pages.page.mp hb
    have hd' := (hc.dirs e).mp hd
    rw [hc.pte hd' hi.1 hj hr] at hm
    exact h.pages.page.mpr ⟨hd', hi, hj, hm⟩
  · obtain ⟨rfl, rfl, rfl⟩ := Use.page.inj he
    exact absurd hr' (by tauto)

theorem Plain.changes {e : Nat} (hp : Plain m own e i j) (hc : Changes base d R m m' own own')
    (he : own e = some .dir) (hi : i < 1024) (hj : j < 1024) (hr : e = d → ¬ R i j) :
    Plain m' own' e i j := by
  unfold Plain
  rw [hc.pte he hi hj hr]
  exact fun h => hc.kept (hp h) (by simp) fun i' j' heq hr' => by
    obtain ⟨rfl, rfl, rfl⟩ := Use.page.inj heq
    exact hr rfl hr'

/-- The entry of a page is cleared and its frame is freed. -/
theorem Owned.drop (h : Owned base tramp m own) (hd : own d = some .dir)
    (hi : i < 1024 ∧ kernelIdx i = false) (hj : j < 1024) (hp : present (pte m d i j))
    (hplain : Plain m own d i j) : ∃ own',
      Owned base tramp ((m.setEntry (frameAddr (m.entry d i)) j 0).freeBlock (frameAddr (pte m d i j)))
        own' ∧
      Changes base d (fun i' j' => i' = i ∧ j' = j) m
        ((m.setEntry (frameAddr (m.entry d i)) j 0).freeBlock (frameAddr (pte m d i j))) own own' ∧
      ∀ b, own' b = some .held → own b = some .held := by
  have hpe : present (m.entry d i) = true := by
    by_contra hne
    rw [pte_of_not_present (Bool.eq_false_iff.mpr hne)] at hp
    exact absurd hp (by decide)
  have ht : own (frameAddr (m.entry d i)) = some (.table d i) :=
    h.tables.table.mpr ⟨hd, hi.1, hpe, rfl, fun hk => absurd (hi.2.symm.trans hk) Bool.false_ne_true⟩
  have hput := h.clear ht hj hi.2
  have hheld : vacate own d i j (frameAddr (pte m d i j)) = some .held := if_pos (hplain hp)
  obtain ⟨ho, hc⟩ := hput.owned.free hheld
  refine ⟨_, ho, hput.changes.trans hc, fun b hb => ?_⟩
  by_cases hba : b = frameAddr (pte m d i j)
  · rw [hba, Function.update_self] at hb
    exact absurd hb (by simp)
  · rw [Function.update_of_ne hba] at hb
    rcases hput.held b hb with hb | hb
    · exact hb.1
    · exact absurd (h.pte_of_page hb).2.symm hba

/-! ## A new page -/

/-- A fresh frame `a` that holds `src` is mapped. -/
structure NewPage (base : Nat → Prop) (tramp d i j a flags : Nat) (src : Nat → UInt8)
    (m m' : Machine) (own own' : Owners) : Prop where
  owned : Owned base tramp m' own'
  changes : Changes base d (fun i' j' => i' = i ∧ j' = j) m m' own own'
  pte : present (pte m' d i j) ∧ frameAddr (pte m' d i j) = a ∧ pte m' d i j % 4096 = flags
  page : own' a = some (.page d i j)
  content : ∀ x < 4096, m'.mem (a + x) = src x
  held : ∀ b, own' b = some .held → own b = some .held ∨ own b = some (.page d i j)

theorem NewPage.plain {flags : Nat} {src : Nat → UInt8}
    (h : NewPage base tramp d i j a flags src m m' own own') : Plain m' own' d i j := fun _ => by
  rw [h.pte.2.1]
  exact h.page

/-- The outcomes of taking a frame, filling it and mapping it. The frame is freed when `MapPage`
fails. -/
theorem Owned.newPage (h : Owned base tramp m own) (hd : own d = some .dir) {va : Nat}
    (hva : va < 2 ^ 32) : m.allocBlockLow = (0, m) ∨
    ∃ a m₁, m.allocBlockLow = (a, m₁) ∧ Took base tramp m m₁ own a ∧ ∀ src flags,
      present flags → flags < 4096 →
      (Paging.mapPage (m₁.store a 4096 src) d va a flags = (false, m₁.store a 4096 src) ∧ ∃ own',
        Owned base tramp ((m₁.store a 4096 src).freeBlock a) own' ∧
        Changes base d (fun _ _ => False) m ((m₁.store a 4096 src).freeBlock a) own own' ∧
        ∀ b, own' b = some .held → own b = some .held) ∨
      ∃ m' own', Paging.mapPage (m₁.store a 4096 src) d va a flags = (true, m') ∧
        kernelIdx (pdIdx va) = false ∧
        NewPage base tramp d (pdIdx va) (ptIdx va) a flags src m m' own own' := by
  rcases h.alloc with he | ⟨a, m₁, he, ht⟩
  · exact .inl he
  · refine .inr ⟨a, m₁, he, ht, fun src flags hp hlt => ?_⟩
    obtain ⟨ho₂, hc₂⟩ := ht.owned.store (d := d) (R := fun _ _ => False) ht.held src
    have hmod := (ho₂.frames.aligned ht.held).1
    have hc := (ht.changes d fun _ _ => False).trans hc₂
    rcases ho₂.mapPage (ht.other hd) ht.held hva hp hlt with hm | ⟨m', own', hm, hk, hput⟩
    · obtain ⟨ho₃, hc₃⟩ := ho₂.free (d := d) (R := fun _ _ => False) ht.held
      refine .inl ⟨hm, _, ho₃, hc.trans hc₃, fun b hb => ?_⟩
      by_cases hba : b = a
      · rw [hba, Function.update_self] at hb
        exact absurd hb (by simp)
      · rwa [Function.update_of_ne hba, ht.held_iff hba] at hb
    · refine .inr ⟨m', own', hm, hk, hput.owned, (hc.mono fun _ _ hf => hf.elim).trans hput.changes,
        ?_, hput.page ht.held, fun x hx => ?_, fun b hb => ?_⟩
      · rw [hput.pte]
        exact ⟨(present_or hmod).trans hp, frameAddr_or hmod hlt,
          (or_mod hmod).trans (Nat.mod_eq_of_lt hlt)⟩
      · have hax : frameAddr (a + x) = a := frameAddr_add hmod hx
        rw [hput.content (a + x) (hax.symm ▸ ht.held)]
        exact (overwrite_of_in _ _ (by omega) (by omega)).trans (congrArg src (by omega))
      · rcases hput.held b hb with ⟨hb, hba⟩ | hb
        · exact .inl ((ht.held_iff hba).mp hb)
        · refine .inr ((ht.held_iff fun hba => ?_).mp hb)
          rw [hba, ht.held] at hb
          exact absurd (Option.some.inj hb) (by simp)

end Paging
end Hashx86
