import Hashx86.Paging.Sweep
import Hashx86.Sched.Switch

/-!
# The teardown of an address space

* `sweepTable_spec`, `sweepTables_spec`: the sweep over the user range frees its pages and tables.
* `sweepPrivate_spec`: the sweep over a shared range frees the tables that the directory does not
  share with the kernel.
* `killSpace_spec`, `freeAddressSpace_spec`: the frames that are freed are those of the address space.
  The second sweep is missing from `freeAddressSpace`, so it needs a directory without private tables.
-/

namespace Hashx86
namespace Sched

open Lib Paging

variable {base : Nat → Prop} {tramp d i t : Nat} {m : Machine} {own : Owners}

/-- The frames of the pages of table `i` from page `lo` on. -/
def PagesFrom (own : Owners) (d i lo a : Nat) : Prop := ∃ j, lo ≤ j ∧ own a = some (.page d i j)

theorem sweepTable_spec (hi : kernelIdx i = false) (n : Nat) : ∀ {m : Machine} {own : Owners} (j : Nat),
    Owned base tramp m own → own t = some (.table d i) → j + n = 1024 → ∃ gone,
      Freed base tramp d gone m (sweepTable m tramp t n j) own ∧
      ∀ a, a ∈ gone ↔ PagesFrom own d i j a := by
  induction n with
  | zero =>
    refine fun {m own} j h _ hj => ⟨[], .refl h d, fun a => iff_of_false List.not_mem_nil ?_⟩
    rintro ⟨j', hle, ha⟩
    have := (h.pages.page.mp ha).2.2.1
    omega
  | succ n ih =>
    intro m own j h ht hj
    obtain ⟨hd, hlt, hp, haddr, -⟩ := h.tables.table.mp ht
    have hent : m.entry t j = pte m d i j := by rw [pte_of_present hp, haddr]
    have hpage : ∀ {b}, own b = some (.page d i j) →
        present (pte m d i j) ∧ frameAddr (pte m d i j) = b := fun hb => h.pte_of_page hb
    -- The rest of the table, after the frames `gone` of page `j`.
    have hrest : ∀ {m₁ gone}, Freed base tramp d gone m m₁ own →
        (∀ a, a ∈ gone ↔ own a = some (.page d i j)) → ∃ gone',
        Freed base tramp d gone' m (sweepTable m₁ tramp t n (j + 1)) own ∧
        ∀ a, a ∈ gone' ↔ PagesFrom own d i j a := fun {m₁ gone} hf hgone => by
      have ht₁ : without own gone t = some (.table d i) := without_some.mpr ⟨fun hm => by
        rw [hgone, ht] at hm
        exact absurd (Option.some.inj hm) (by simp), ht⟩
      obtain ⟨gone', hf', hgone'⟩ := ih (j + 1) hf.owned ht₁ (by omega)
      refine ⟨gone ++ gone', hf.trans hf', fun a => ?_⟩
      rw [List.mem_append, hgone, hgone']
      constructor
      · rintro (ha | ⟨j', hle, ha⟩)
        · exact ⟨j, Nat.le_refl j, ha⟩
        · exact ⟨j', by omega, (without_some.mp ha).2⟩
      · rintro ⟨j', hle, ha⟩
        by_cases hjj : j' = j
        · exact .inl (hjj ▸ ha)
        · refine .inr ⟨j', by omega, without_some.mpr ⟨fun hm => ?_, ha⟩⟩
          rw [hgone, ha] at hm
          exact hjj (Use.page.inj (Option.some.inj hm)).2.2
    unfold sweepTable
    dsimp only
    rw [hent]
    cases hpr : present (pte m d i j) with
    | false =>
      rw [if_pos (by rfl)]
      exact hrest (.refl h d) fun a => iff_of_false List.not_mem_nil fun ha => by
        rw [(hpage ha).1] at hpr
        exact absurd hpr (by simp)
    | true =>
      rw [if_neg (by simp)]
      by_cases hshared : frameAddr (pte m d i j) ≠ 0 ∧ frameAddr (pte m d i j) ≠ tramp
      · rw [if_pos hshared]
        have ha : own (frameAddr (pte m d i j)) = some (.page d i j) :=
          h.pages.page.mpr ⟨hd, ⟨hlt, hi⟩, by omega, hpr, rfl, hshared.2, hshared.1⟩
        refine hrest (h.freePage ht hi (by omega) ha) fun a => ?_
        rw [List.mem_singleton]
        exact ⟨fun he => he ▸ ha, fun hb => (hpage hb).2.symm⟩
      · rw [if_neg hshared]
        have hno : ∀ b, own b ≠ some (.page d i j) := fun b hb => by
          have hm := (h.pages.page.mp hb).2.2.2
          exact hshared (by rw [hm.2.1]; exact ⟨hm.2.2.2, hm.2.2.1⟩)
        exact hrest (h.clearEntry ht hi (by omega) hno) fun a =>
          iff_of_false List.not_mem_nil (hno a)

/-- The use is a table of the directory with an index in `P`, or a page of it. -/
def Use.Under (d : Nat) (P : Nat → Prop) : Use → Prop
  | .table e i => e = d ∧ P i
  | .page e i _ => e = d ∧ P i
  | _ => False

/-- The frame is a table of the directory with an index in `P`, or a page of it. -/
def Below (own : Owners) (d : Nat) (P : Nat → Prop) (a : Nat) : Prop :=
  ∃ u, own a = some u ∧ Use.Under d P u

/-- A sweep freed the frames below the directory with an index in `P`. -/
def Swept (base : Nat → Prop) (tramp d : Nat) (P : Nat → Prop) (m m' : Machine) (own : Owners) :
    Prop := ∃ gone, Freed base tramp d gone m m' own ∧ ∀ a, a ∈ gone ↔ Below own d P a

theorem below_or {P Q : Nat → Prop} (a : Nat) :
    Below own d (fun i => P i ∨ Q i) a ↔ Below own d P a ∨ Below own d Q a := by
  unfold Below
  rw [← exists_or]
  refine exists_congr fun u => ?_
  rw [← and_or_left]
  refine and_congr_right fun _ => ?_
  cases u with
  | held => exact (or_self_iff).symm
  | dir => exact (or_self_iff).symm
  | table e i => exact and_or_left
  | page e i j => exact and_or_left

theorem not_below_dir {P : Nat → Prop} (hd : own d = some .dir) : ¬ Below own d P d :=
  fun ⟨u, hu, hu'⟩ => by
    obtain rfl := Option.some.inj (hd.symm.trans hu)
    exact hu'

theorem swept_nil (h : Owned base tramp m own) {P : Nat → Prop} (hno : ∀ a, ¬ Below own d P a) :
    Swept base tramp d P m m own :=
  ⟨[], .refl h d, fun a => iff_of_false List.not_mem_nil (hno a)⟩

theorem Swept.congr {P Q : Nat → Prop} {m' : Machine} (h : Swept base tramp d P m m' own)
    (hpq : ∀ i, P i ↔ Q i) : Swept base tramp d Q m m' own := by
  obtain rfl : P = Q := funext fun i => propext (hpq i)
  exact h

/-- One sweep after another. -/
theorem Swept.append {P Q : Nat → Prop} {m₁ m' : Machine} (hd : own d = some .dir)
    (h : Swept base tramp d P m m₁ own)
    (hnext : ∀ {own₁}, Owned base tramp m₁ own₁ → own₁ d = some .dir →
      Swept base tramp d Q m₁ m' own₁) :
    Swept base tramp d (fun i => P i ∨ Q i) m m' own := by
  obtain ⟨gone, hf, hgone⟩ := h
  obtain ⟨gone', hf', hgone'⟩ := hnext hf.owned
    (without_some.mpr ⟨fun hm => not_below_dir hd ((hgone d).mp hm), hd⟩)
  refine ⟨gone ++ gone', hf.trans hf', fun a => ?_⟩
  rw [List.mem_append, hgone', below_or, ← hgone]
  refine ⟨Or.imp_right fun ⟨u, hu, hq⟩ => ⟨u, (without_some.mp hu).2, hq⟩, fun ha => ?_⟩
  by_cases hm : a ∈ gone
  · exact .inl hm
  · exact ha.imp_right fun ⟨u, hu, hq⟩ => ⟨u, without_some.mpr ⟨hm, hu⟩, hq⟩

/-- A directory entry that leads to no table of the process has no frames under it. -/
theorem not_below_one (h : Owned base tramp m own) (hno : ∀ b, own b ≠ some (.table d i)) (a : Nat) :
    ¬ Below own d (· = i) a := by
  rintro ⟨u, ha, hu⟩
  cases u with
  | held => exact hu
  | dir => exact hu
  | table e k =>
    obtain ⟨rfl, rfl⟩ := hu
    exact hno a ha
  | page e k j =>
    obtain ⟨rfl, rfl⟩ := hu
    obtain ⟨t, ht⟩ := h.table_of_page ha
    exact hno t ht

/-- The frames under one entry: its table, and the pages of the table. -/
theorem below_one_iff (h : Owned base tramp m own) (ht : own t = some (.table d i)) (a : Nat) :
    Below own d (· = i) a ↔ (∃ j, own a = some (.page d i j)) ∨ a = t := by
  constructor
  · rintro ⟨u, ha, hu⟩
    cases u with
    | held => exact hu.elim
    | dir => exact hu.elim
    | table e k =>
      obtain ⟨rfl, rfl⟩ := hu
      rw [← (h.tables.table.mp ha).2.2.2.1, (h.tables.table.mp ht).2.2.2.1]
      exact .inr rfl
    | page e k j =>
      obtain ⟨rfl, rfl⟩ := hu
      exact .inl ⟨j, ha⟩
  · rintro (⟨j, ha⟩ | rfl)
    · exact ⟨_, ha, rfl, rfl⟩
    · exact ⟨_, ht, rfl, rfl⟩

/-- The indices `i` to `i + n`. -/
abbrev Span (i n k : Nat) : Prop := i ≤ k ∧ k < i + n

theorem sweepTables_spec (n : Nat) : ∀ {m : Machine} {own : Owners} (i : Nat), Owned base tramp m own →
    own d = some .dir → 64 ≤ i → i + n ≤ 768 →
    Swept base tramp d (Span i n) m (sweepTables m tramp d n i) own := by
  induction n with
  | zero =>
    refine fun {m own} i h _ _ _ => swept_nil h fun a ⟨u, _, hu⟩ => ?_
    cases u with
    | held => exact hu
    | dir => exact hu
    | table e k => exact absurd hu.2.2 (Nat.not_lt.mpr hu.2.1)
    | page e k j => exact absurd hu.2.2 (Nat.not_lt.mpr hu.2.1)
  | succ n ih =>
    intro m own i h hd hlo hi
    have hk : kernelIdx i = false := by
      unfold kernelIdx
      simp
      omega
    have hrest : ∀ {m₁}, Swept base tramp d (· = i) m m₁ own →
        Swept base tramp d (Span i (n + 1)) m (sweepTables m₁ tramp d n (i + 1)) own := fun hs =>
      (hs.append hd fun ho hd₁ => ih (i + 1) ho hd₁ (by omega) (by omega)).congr fun k => by omega
    unfold sweepTables
    cases hp : present (m.entry d i) with
    | false =>
      rw [if_pos (by rfl)]
      refine hrest (swept_nil h (not_below_one h fun b hb => ?_))
      rw [(h.tables.table.mp hb).2.2.1] at hp
      exact absurd hp (by simp)
    | true =>
      rw [if_neg (by simp)]
      have ht : own (frameAddr (m.entry d i)) = some (.table d i) :=
        h.tables.table.mpr ⟨hd, by omega, hp, rfl, fun hk' => absurd (hk.symm.trans hk')
          Bool.false_ne_true⟩
      generalize frameAddr (m.entry d i) = t at ht
      obtain ⟨pages, hf, hpages⟩ := sweepTable_spec hk 1024 0 h ht (by decide)
      dsimp only
      generalize sweepTable m tramp t 1024 0 = m₁ at hf ⊢
      have ht₁ : without own pages t = some (.table d i) := without_some.mpr ⟨fun hm => by
        obtain ⟨j, -, hj⟩ := (hpages t).mp hm
        exact absurd (Option.some.inj (ht.symm.trans hj)) (by simp), ht⟩
      rw [(hf.owned.tables.table.mp ht₁).2.2.2.1]
      refine hrest ⟨_, hf.trans (hf.owned.freeTable ht₁ fun b j hb => ?_), fun a => ?_⟩
      · obtain ⟨hb1, hb2⟩ := without_some.mp hb
        exact hb1 ((hpages b).mpr ⟨j, Nat.zero_le j, hb2⟩)
      · rw [List.mem_append, hpages, List.mem_singleton, below_one_iff h ht]
        exact or_congr_left (exists_congr fun j => and_iff_right (Nat.zero_le j))

/-- The sweep over indices of one of the shared ranges. -/
theorem sweepPrivate_spec (n : Nat) : ∀ {m : Machine} {own : Owners} (i : Nat), Owned base tramp m own →
    own d = some .dir → (∀ k, Span i n k → k < 1024 ∧ kernelIdx k) →
    Swept base tramp d (Span i n) m (sweepPrivate m d n i) own := by
  induction n with
  | zero =>
    refine fun {m own} i h _ _ => swept_nil h fun a ⟨u, _, hu⟩ => ?_
    cases u with
    | held => exact hu
    | dir => exact hu
    | table e k => exact absurd hu.2.2 (Nat.not_lt.mpr hu.2.1)
    | page e k j => exact absurd hu.2.2 (Nat.not_lt.mpr hu.2.1)
  | succ n ih =>
    intro m own i h hd hk
    obtain ⟨hlt, hki⟩ := hk i ⟨Nat.le_refl i, by omega⟩
    have hrest : ∀ {m₁}, Swept base tramp d (· = i) m m₁ own →
        Swept base tramp d (Span i (n + 1)) m (sweepPrivate m₁ d n (i + 1)) own := fun hs =>
      (hs.append hd fun ho hd₁ => ih (i + 1) ho hd₁ fun k hs => hk k (by omega)).congr
        fun k => by omega
    have hno : (∀ b, own b ≠ some (.table d i)) →
        Swept base tramp d (Span i (n + 1)) m (sweepPrivate m d n (i + 1)) own := fun hno =>
      hrest (swept_nil h (not_below_one h hno))
    unfold sweepPrivate
    dsimp only
    cases hp : present (m.entry d i) with
    | false =>
      rw [if_pos (by rfl)]
      refine hno fun b hb => ?_
      rw [(h.tables.table.mp hb).2.2.1] at hp
      exact absurd hp (by simp)
    | true =>
      rw [if_neg (by simp)]
      by_cases hshared : m.entry d i = m.entry m.kernelPageDirectory i
      · rw [if_pos hshared]
        exact hno fun b hb => (h.tables.table.mp hb).2.2.2.2 hki hshared
      · rw [if_neg hshared]
        have ht : own (frameAddr (m.entry d i)) = some (.table d i) :=
          h.tables.table.mpr ⟨hd, hlt, hp, rfl, fun _ => hshared⟩
        have hnoPage : ∀ b j, own b ≠ some (.page d i j) := fun b j hb =>
          absurd ((h.pages.page.mp hb).2.1.2.symm.trans hki) Bool.false_ne_true
        refine hrest ⟨_, h.freeTable ht hnoPage, fun a => ?_⟩
        rw [List.mem_singleton, below_one_iff h ht]
        exact (or_iff_right fun ⟨j, hj⟩ => hnoPage a j hj).symm

/-- The directory is freed after all frames below it. -/
theorem Swept.freeDir {P : Nat → Prop} {m₁ : Machine} (hs : Swept base tramp d P m m₁ own)
    (h : Owned base tramp m own) (hd : own d = some .dir)
    (hall : ∀ a i, own a = some (.table d i) → P i) : ∃ gone,
    Freed base tramp d gone m (m₁.freeBlock d) own ∧ ∀ a, a ∈ gone ↔ InSpace own d a := by
  obtain ⟨gone, hf, hgone⟩ := hs
  have hd₁ : without own gone d = some .dir :=
    without_some.mpr ⟨fun hm => not_below_dir hd ((hgone d).mp hm), hd⟩
  refine ⟨_, hf.trans (hf.owned.freeDir hd₁ fun b i hb => ?_), fun a => ?_⟩
  · obtain ⟨hb1, hb2⟩ := without_some.mp hb
    exact hb1 ((hgone b).mpr ⟨_, hb2, rfl, hall b i hb2⟩)
  · rw [List.mem_append, hgone, List.mem_singleton]
    constructor
    · rintro (⟨u, ha, hu⟩ | rfl)
      · cases u with
        | held => exact hu.elim
        | dir => exact hu.elim
        | table e i => exact ⟨_, ha, congrArg some hu.1⟩
        | page e i j => exact ⟨_, ha, congrArg some hu.1⟩
      · exact ⟨_, hd, rfl⟩
    · rintro ⟨u, ha, hu⟩
      cases u with
      | held => exact absurd hu (by simp [Use.dirOf])
      | dir => exact .inr (Option.some.inj hu)
      | table e i =>
        obtain rfl : e = d := Option.some.inj hu
        exact .inl ⟨_, ha, rfl, hall a i ha⟩
      | page e i j =>
        obtain rfl : e = d := Option.some.inj hu
        obtain ⟨t, ht⟩ := h.table_of_page ha
        exact .inl ⟨_, ha, rfl, hall t i ht⟩

/-- `KillProcess` frees exactly the frames of the address space. -/
theorem killSpace_spec (h : Owned base tramp m own) (hd : own d = some .dir) : ∃ gone,
    Freed base tramp d gone m (killSpace m tramp d) own ∧ ∀ a, a ∈ gone ↔ InSpace own d a := by
  have huser := sweepTables_spec 704 64 h hd (by decide) (by decide)
  have hlow := huser.append hd fun ho hd₁ => sweepPrivate_spec 64 0 ho hd₁ fun k hk =>
    ⟨by omega, by unfold kernelIdx; simp; omega⟩
  have hall := hlow.append hd fun ho hd₁ => sweepPrivate_spec 256 768 ho hd₁ fun k hk =>
    ⟨by omega, by unfold kernelIdx; simp; omega⟩
  refine hall.freeDir h hd fun a i ha => ?_
  have := (h.tables.table.mp ha).2.1
  omega

/-- The failure paths of the creations free exactly the frames of the address space, when it has no
private table in a shared range. -/
theorem freeAddressSpace_spec (h : Owned base tramp m own) (hd : own d = some .dir)
    (hno : ∀ a i, own a = some (.table d i) → kernelIdx i = false) : ∃ gone,
    Freed base tramp d gone m (freeAddressSpace m tramp d) own ∧ ∀ a, a ∈ gone ↔ InSpace own d a := by
  refine (sweepTables_spec 704 64 h hd (by decide) (by decide)).freeDir h hd fun a i ha => ?_
  have hlt := (h.tables.table.mp ha).2.1
  have hk := hno a i ha
  unfold kernelIdx at hk
  simp at hk
  omega

end Sched
end Hashx86
