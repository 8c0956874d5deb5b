import Hashx86.Paging.Owned
import Hashx86.Sched.Defs

/-!
# The copy of an address space

`Copying` is what holds while `CloneCurrentProcess` copies the user space of the parent: the memory
of all address spaces that existed before is unchanged, and the pages copied so far are in frames of
their own that hold what the parent's hold.

* `Copying.page`: the outcomes for one page.
* `copyTable_spec`, `copySpace_spec`: the loops.
-/

namespace Hashx86
namespace Sched

open Lib Paging

variable {base : Nat → Prop} {tramp : Nat} {m₀ m m' : Machine} {own₀ own own' : Owners}
variable {parent child : Nat}

/-- Page `i`, `j` of the child is as that of the parent was in `m₀`: it is in a frame of the child,
with the same flags and the same bytes, or neither is mapped. -/
def CopyOf (m₀ m : Machine) (own : Owners) (parent child i j : Nat) : Prop :=
  if present (pte m₀ parent i j) then
    present (pte m child i j) ∧ pte m child i j % 4096 = pte m₀ parent i j % 4096 ∧
    own (frameAddr (pte m child i j)) = some (.page child i j) ∧
    ∀ x < 4096, m.mem (frameAddr (pte m child i j) + x) = m₀.mem (frameAddr (pte m₀ parent i j) + x)
  else present (pte m child i j) = false

structure Copying (base : Nat → Prop) (tramp : Nat) (m₀ : Machine) (own₀ : Owners)
    (parent child : Nat) (done : Nat → Nat → Prop) (m : Machine) (own : Owners) : Prop where
  owned : Owned base tramp m own
  dir : own child = some .dir
  kept : ∀ {a u}, own₀ a = some u → u ≠ .held → own a = some u
  mem : ∀ {x u}, own₀ (frameAddr x) = some u → u ≠ .held → m.mem x = m₀.mem x
  kernel : ∀ {x}, base (frameAddr x) → m.mem x = m₀.mem x
  copied : ∀ i j, i < 1024 ∧ kernelIdx i = false → j < 1024 → done i j →
    CopyOf m₀ m own parent child i j
  todo : ∀ i j, i < 1024 ∧ kernelIdx i = false → j < 1024 → ¬ done i j →
    present (pte m child i j) = false
  tables : ∀ i < 1024, kernelIdx i = false → present (m.entry child i) → m.entry child i % 4096 = 7

/-- The pages before page `pt` of table `pd`. -/
def Before (pd pt i j : Nat) : Prop := i < pd ∨ i = pd ∧ j < pt

/-- A copy does not change with the other pages. -/
theorem CopyOf.changes {i j : Nat} {R : Nat → Nat → Prop} (h : CopyOf m₀ m own parent child i j)
    (hc : Changes base child R m m' own own') (hd : own child = some .dir) (hi : i < 1024)
    (hj : j < 1024) (hr : ¬ R i j) : CopyOf m₀ m' own' parent child i j := by
  unfold CopyOf at h ⊢
  rw [hc.pte hd hi hj fun _ => hr]
  split at h
  · rename_i hpre
    rw [if_pos hpre]
    refine ⟨h.1, h.2.1, hc.kept h.2.2.1 (by simp) fun i' j' he => ?_, fun x hx => ?_⟩
    · obtain ⟨-, rfl, rfl⟩ := Use.page.inj he
      exact hr
    · rw [← h.2.2.2 x hx]
      have hf := frameAddr_add (frameAddr_mod (pte m child i j)) hx
      exact hc.mem (u := .page child i j) (hf.symm ▸ h.2.2.1) fun _ => hr
  · rename_i hpre
    rw [if_neg hpre]
    exact h

section Old

variable (h₀ : Owned base tramp m₀ own₀) (hc₀ : own₀ child = none)
include h₀ hc₀

/-- A frame that was in use before the copy is not one of the child's. -/
theorem untouched_of_old {a : Nat} {u : Use} (ha : own₀ a = some u) (hu : u ≠ .held)
    (R : Nat → Nat → Prop) : Untouched child R a u := by
  have hno : own₀ child ≠ some .dir := by
    rw [hc₀]
    simp
  cases u with
  | held => exact absurd rfl hu
  | dir =>
    exact fun he => by
      rw [he] at ha
      exact hno ha
  | table e i => exact fun he => hno (he ▸ (h₀.tables.table.mp ha).1)
  | page e i j => exact fun he => absurd (he ▸ (h₀.pages.page.mp ha).1) hno

/-- A page that is not done stays as it is, and so do the copies. -/
theorem Copying.step {done done' R : Nat → Nat → Prop}
    (h : Copying base tramp m₀ own₀ parent child done m own) (ho : Owned base tramp m' own')
    (hc : Changes base child R m m' own own') (hdone : ∀ i j, done i j → done' i j ∧ ¬ R i j)
    (hnew : ∀ i j, i < 1024 ∧ kernelIdx i = false → j < 1024 → done' i j → ¬ done i j →
      CopyOf m₀ m' own' parent child i j)
    (htodo : ∀ i j, i < 1024 ∧ kernelIdx i = false → j < 1024 → ¬ done' i j → R i j →
      present (pte m' child i j) = false) :
    Copying base tramp m₀ own₀ parent child done' m' own' := by
  refine ⟨ho, (hc.dirs child).mpr h.dir, fun ha hu => ?_, fun hx hu => ?_, fun hx => ?_,
    fun i j hi hj hd => ?_, fun i j hi hj hd => ?_, fun i hi hk hp => ?_⟩
  · exact hc.kept (h.kept ha hu) hu (untouched_of_old h₀ hc₀ ha hu R).kept.2
  · rw [hc.mem (h.kept hx hu) (untouched_of_old h₀ hc₀ hx hu R), h.mem hx hu]
  · rw [hc.kernel hx, h.kernel hx]
  · by_cases hd' : done i j
    · exact (h.copied i j hi hj hd').changes hc h.dir hi.1 hj (hdone i j hd').2
    · exact hnew i j hi hj hd hd'
  · by_cases hr : R i j
    · exact htodo i j hi hj hd hr
    · rw [hc.pte h.dir hi.1 hj fun _ => hr]
      exact h.todo i j hi hj fun hd' => hd (hdone i j hd').1
  · rcases hc.entries h.dir hi with he | ⟨-, -, h7⟩
    · rw [he] at hp ⊢
      exact h.tables i hi hk hp
    · exact h7

/-- A page that the parent does not map is not copied. -/
theorem Copying.skip {pd pt pd' pt' : Nat}
    (h : Copying base tramp m₀ own₀ parent child (Before pd pt) m own)
    (hle : ∀ i j, Before pd pt i j → Before pd' pt' i j)
    (hno : ∀ i j, i < 1024 ∧ kernelIdx i = false → j < 1024 → Before pd' pt' i j →
      ¬ Before pd pt i j → present (pte m₀ parent i j) = false) :
    Copying base tramp m₀ own₀ parent child (Before pd' pt') m own := by
  refine h.step h₀ hc₀ h.owned (.refl base child (fun _ _ => False) m own)
    (fun i j hb => ⟨hle i j hb, id⟩) (fun i j hi hj hb hnb => ?_) fun _ _ _ _ _ hf => hf.elim
  unfold CopyOf
  rw [if_neg (by rw [hno i j hi hj hb hnb]; exact Bool.false_ne_true)]
  exact h.todo i j hi hj hnb

/-- The new directory of the child, before the first page is copied. -/
theorem copying_start (hn : NewDir base own₀ m₀ m child) :
    Copying base tramp m₀ own₀ parent child (Before 64 0) m (Function.update own₀ child (some .dir)) := by
  have hpre : ∀ i < 1024, kernelIdx i = false → present (m.entry child i) = false := fun i hi hk => by
    rw [hn.empty i hi hk]
    rfl
  refine ⟨hn.owned h₀, Function.update_self .., fun ha _ => update_of_some hc₀ ha,
    fun {x u} hx _ => hn.mem x fun he => ?_, fun {x} hx => hn.mem x fun he => ?_,
    fun i j hi _ hb => ?_, fun i j hi _ _ => ?_, fun i hi hk hp => ?_⟩
  · rw [he, hc₀] at hx
    exact absurd hx (by simp)
  · exact hn.fresh.2.1 (he ▸ hx)
  · have hk := hi.2
    unfold kernelIdx at hk
    unfold Before at hb
    simp at hk
    omega
  · rw [pte_of_not_present (hpre i hi.1 hi.2)]
    rfl
  · rw [hpre i hi hk] at hp
    exact absurd hp Bool.false_ne_true

end Old

/-- The address of page `pt` of table `pd`. -/
theorem pageVa_idx {pd pt : Nat} (hpd : pd < 1024) (hpt : pt < 1024) :
    pd <<< 22 ||| pt <<< 12 < 2 ^ 32 ∧ pdIdx (pd <<< 22 ||| pt <<< 12) = pd ∧
      ptIdx (pd <<< 22 ||| pt <<< 12) = pt := by
  have h : pd <<< 22 ||| pt <<< 12 = pd * 2 ^ 22 + pt * 2 ^ 12 := by
    rw [← Nat.shiftLeft_add_eq_or_of_lt (by rw [Nat.shiftLeft_eq]; omega), Nat.shiftLeft_eq,
      Nat.shiftLeft_eq]
  rw [h]
  unfold pdIdx ptIdx
  omega

section Source

variable (h₀ : Owned base tramp m₀ own₀)
include h₀

/-- The parent's tables are as they were. -/
theorem Copying.table_entry {done : Nat → Nat → Prop}
    (h : Copying base tramp m₀ own₀ parent child done m own) {a i j e : Nat}
    (ht : own₀ a = some (.table e i)) (hj : j < 1024) : m.entry a j = m₀.entry a j := by
  refine Machine.entry_congr (h₀.frames.aligned ht).1 hj fun x hx => ?_
  exact h.mem (u := .table e i) (hx.symm ▸ ht) (by simp)

variable (hp₀ : own₀ parent = some .dir)
include hp₀

theorem Copying.dir_entry {done : Nat → Nat → Prop}
    (h : Copying base tramp m₀ own₀ parent child done m own) {i : Nat} (hi : i < 1024) :
    m.entry parent i = m₀.entry parent i := by
  refine Machine.entry_congr (h₀.frames.aligned hp₀).1 hi fun x hx => ?_
  exact h.mem (u := .dir) (hx.symm ▸ hp₀) (by simp)

/-- The walks from the parent are as they were. -/
theorem Copying.parent_pte {done : Nat → Nat → Prop}
    (h : Copying base tramp m₀ own₀ parent child done m own) {i j : Nat}
    (hi : i < 1024 ∧ kernelIdx i = false) (hj : j < 1024) :
    pte m parent i j = pte m₀ parent i j := by
  unfold pte
  rw [h.dir_entry h₀ hp₀ hi.1]
  split
  · rename_i hp
    have ht := h₀.tables.table.mpr ⟨hp₀, hi.1, hp, rfl, fun hk => absurd (hi.2.symm.trans hk) (by simp)⟩
    exact h.table_entry h₀ ht hj
  · rfl

/-- The pages of the parent hold what they held. -/
theorem Copying.source {done : Nat → Nat → Prop}
    (h : Copying base tramp m₀ own₀ parent child done m own) {i j : Nat}
    (hi : i < 1024 ∧ kernelIdx i = false) (hj : j < 1024) (hp : present (pte m₀ parent i j))
    {x : Nat} (hx : x < 4096) :
    m.mem (frameAddr (pte m₀ parent i j) + x) = m₀.mem (frameAddr (pte m₀ parent i j) + x) := by
  have hf := frameAddr_add (frameAddr_mod (pte m₀ parent i j)) hx
  rcases h₀.page_cases hp₀ hi hj hp with ho | ht | h0
  · exact h.mem (u := .page parent i j) (hf.symm ▸ ho) (by simp)
  · exact h.kernel (hf.symm ▸ ht ▸ h₀.tramp)
  · exact h.kernel (hf.symm ▸ h0 ▸ h₀.frames.zero)

/-- The copy of a frame. -/
def copyFrame (m : Machine) (dst src : Nat) : Machine :=
  m.store dst pageSize fun i => m.mem (src + i)

variable (hc₀ : own₀ child = none)
include hc₀

/-- The outcomes of the copy of one page. -/
theorem Copying.page {pd pt : Nat} (h : Copying base tramp m₀ own₀ parent child (Before pd pt) m own)
    (hi : pd < 1024 ∧ kernelIdx pd = false) (hj : pt < 1024) (hp : present (pte m₀ parent pd pt)) :
    m.allocBlockLow = (0, m) ∨
    ∃ a m₁, m.allocBlockLow = (a, m₁) ∧ Took base tramp m m₁ own a ∧ ∀ flags, flags = pte m₀ parent pd pt % 4096 →
      (mapPage (copyFrame m₁ a (frameAddr (pte m₀ parent pd pt))) child
          (pd <<< 22 ||| pt <<< 12) a flags =
        (false, copyFrame m₁ a (frameAddr (pte m₀ parent pd pt))) ∧ ∃ own',
        Owned base tramp ((copyFrame m₁ a (frameAddr (pte m₀ parent pd pt))).freeBlock a) own' ∧
        Changes base child (fun _ _ => True) m ((copyFrame m₁ a (frameAddr (pte m₀ parent pd pt))).freeBlock a) own own' ∧
        ∀ b, own' b = some .held → own b = some .held) ∨
      ∃ m' own', mapPage (copyFrame m₁ a (frameAddr (pte m₀ parent pd pt)))
          child (pd <<< 22 ||| pt <<< 12) a flags = (true, m') ∧
        Copying base tramp m₀ own₀ parent child (Before pd (pt + 1)) m' own' ∧
        Changes base child (fun _ _ => True) m m' own own' ∧
        ∀ b, own' b = some .held → own b = some .held := by
  obtain ⟨hva, hpd, hpt⟩ := pageVa_idx hi.1 hj
  rcases h.owned.newPage h.dir hva with he | ⟨a, m₁, he, ht, hout⟩
  · exact .inl he
  · refine .inr ⟨a, m₁, he, ht, ?_⟩
    rintro flags rfl
    have hpf : present (pte m₀ parent pd pt % 4096) = true := by
      unfold present at hp ⊢
      rw [decide_eq_true_eq] at hp ⊢
      omega
    rcases hout (fun i => m₁.mem (frameAddr (pte m₀ parent pd pt) + i)) _ hpf
      (Nat.mod_lt _ (by decide)) with ⟨hm, own', ho, hc, hheld⟩ | ⟨m', own', hm, -, hnew⟩
    · exact .inl ⟨hm, own', ho, hc.mono fun _ _ hf => hf.elim, hheld⟩
    · rw [hpd, hpt] at hnew
      have hnb : ¬ Before pd pt pd pt := by
        unfold Before
        omega
      refine .inr ⟨m', own', hm, h.step h₀ hc₀ hnew.owned hnew.changes (fun i j hb => ?_)
        (fun i j _ _ hb hnb => ?_) (fun i j _ _ hb hr => ?_), hnew.changes.mono fun _ _ _ => trivial,
        fun b hb => (hnew.held b hb).resolve_right fun hb => ?_⟩
      · unfold Before at hb ⊢
        exact ⟨by omega, by omega⟩
      · obtain ⟨rfl, rfl⟩ : i = pd ∧ j = pt := by
          unfold Before at hb hnb
          omega
        obtain ⟨hp', haddr, hflags⟩ := hnew.pte
        unfold CopyOf
        rw [if_pos hp, haddr]
        refine ⟨hp', hflags, hnew.page, fun x hx => ?_⟩
        rw [hnew.content x hx, ht.mem]
        exact h.source h₀ hp₀ hi hj hp hx
      · obtain ⟨rfl, rfl⟩ := hr
        unfold Before at hb
        omega
      · have := (h.owned.pte_of_page hb).1
        rw [h.todo pd pt hi hj hnb] at this
        exact Bool.false_ne_true this

theorem copyTable_spec {pd : Nat} (hi : pd < 1024 ∧ kernelIdx pd = false)
    (hpre : present (m₀.entry parent pd)) (n : Nat) : ∀ {m : Machine} {own : Owners} (pt : Nat),
    Copying base tramp m₀ own₀ parent child (Before pd pt) m own → pt + n = 1024 → ∃ own',
      Owned base tramp (copyTable m child (frameAddr (m₀.entry parent pd)) pd n pt).2 own' ∧
      Changes base child (fun _ _ => True) m
        (copyTable m child (frameAddr (m₀.entry parent pd)) pd n pt).2 own own' ∧
      (∀ b, own' b = some .held → own b = some .held) ∧
      ((copyTable m child (frameAddr (m₀.entry parent pd)) pd n pt).1 = true →
        Copying base tramp m₀ own₀ parent child (Before pd 1024)
          (copyTable m child (frameAddr (m₀.entry parent pd)) pd n pt).2 own') := by
  have ht₀ : own₀ (frameAddr (m₀.entry parent pd)) = some (.table parent pd) :=
    h₀.tables.table.mpr ⟨hp₀, hi.1, hpre, rfl, fun hk => absurd (hi.2.symm.trans hk) (by simp)⟩
  induction n with
  | zero =>
    intro m own pt h hpt
    obtain rfl : pt = 1024 := hpt
    exact ⟨own, h.owned, .refl .., fun _ hb => hb, fun _ => h⟩
  | succ n ih =>
    intro m own pt h hpt
    have hj : pt < 1024 := by omega
    have hent : m.entry (frameAddr (m₀.entry parent pd)) pt = pte m₀ parent pd pt := by
      rw [h.table_entry h₀ ht₀ hj, pte_of_present hpre]
    unfold copyTable
    dsimp only
    cases hp : present (pte m₀ parent pd pt) with
    | false =>
      rw [hent, hp, if_pos (by rfl)]
      refine ih (pt + 1) (h.skip h₀ hc₀ (fun i j hb => ?_) fun i j _ _ hb hnb => ?_) (by omega)
      · unfold Before at hb ⊢
        omega
      · unfold Before at hb hnb
        obtain ⟨rfl, rfl⟩ : i = pd ∧ j = pt := by omega
        exact hp
    | true =>
      rw [hent, hp, if_neg (by simp)]
      rcases h.page h₀ hp₀ hc₀ hi hj hp with he | ⟨a, m₁, he, ht, hout⟩
      · rw [he]
        dsimp only
        rw [if_pos rfl]
        exact ⟨own, h.owned, .refl .., fun _ hb => hb, fun hf => absurd hf Bool.false_ne_true⟩
      · rw [he]
        dsimp only
        rw [if_neg ht.fresh.2.2]
        have hne : frameAddr (m₀.entry parent pd) ≠ a := fun heq => by
          have := h.kept ht₀ (by simp)
          rw [heq, ht.fresh.1] at this
          exact absurd this (by simp)
        have hflags : (copyFrame m₁ a (frameAddr (pte m₀ parent pd pt))).entry
            (frameAddr (m₀.entry parent pd)) pt = pte m₀ parent pd pt := by
          rw [← hent, ← Machine.entry_of_mem ht.mem]
          exact Machine.entry_store_of_ne _ (ht.owned.frames.aligned ht.held).1 (frameAddr_mod _) hj hne
        unfold copyFrame at hflags hout
        rw [hflags]
        rcases hout _ rfl with ⟨hm, own', ho, hc, hheld⟩ | ⟨m', own', hm, hcopy, hc, hheld⟩
        · rw [hm]
          dsimp only
          rw [if_neg Bool.false_ne_true]
          exact ⟨own', ho, hc, hheld, fun hf => absurd hf Bool.false_ne_true⟩
        · rw [hm]
          dsimp only
          rw [if_pos rfl]
          obtain ⟨own₂, ho₂, hc₂, hheld₂, hcopy₂⟩ := ih (pt + 1) hcopy (by omega)
          exact ⟨own₂, ho₂, hc.trans hc₂, fun b hb => hheld b (hheld₂ b hb), hcopy₂⟩

theorem copySpace_spec (n : Nat) : ∀ {m : Machine} {own : Owners} (pd : Nat),
    Copying base tramp m₀ own₀ parent child (Before pd 0) m own → 64 ≤ pd → pd + n = 768 → ∃ own',
      Owned base tramp (copySpace m parent child n pd).2 own' ∧
      Changes base child (fun _ _ => True) m (copySpace m parent child n pd).2 own own' ∧
      (∀ b, own' b = some .held → own b = some .held) ∧
      ((copySpace m parent child n pd).1 = true →
        Copying base tramp m₀ own₀ parent child (Before 768 0) (copySpace m parent child n pd).2
          own') := by
  induction n with
  | zero =>
    intro m own pd h _ hpd
    obtain rfl : pd = 768 := hpd
    exact ⟨own, h.owned, .refl .., fun _ hb => hb, fun _ => h⟩
  | succ n ih =>
    intro m own pd h hlo hpd
    have hi : pd < 1024 ∧ kernelIdx pd = false := ⟨by omega, by unfold kernelIdx; simp; omega⟩
    unfold copySpace
    rw [h.dir_entry h₀ hp₀ hi.1]
    cases hpre : present (m₀.entry parent pd) with
    | false =>
      rw [if_pos (by rfl)]
      refine ih (pd + 1) (h.skip h₀ hc₀ (fun i j hb => ?_) fun i j _ hj hb hnb => ?_) (by omega)
        (by omega)
      · unfold Before at hb ⊢
        omega
      · unfold Before at hb hnb
        obtain rfl : i = pd := by omega
        rw [pte_of_not_present hpre]
        rfl
    | true =>
      rw [if_neg (by simp)]
      obtain ⟨own₁, ho₁, hc₁, hheld₁, hcopy₁⟩ := copyTable_spec h₀ hp₀ hc₀ hi hpre 1024 0 h (by omega)
      generalize copyTable m child (frameAddr (m₀.entry parent pd)) pd 1024 0 = r at ho₁ hc₁ hcopy₁ ⊢
      obtain ⟨ok, m₁⟩ := r
      cases ok with
      | false => exact ⟨own₁, ho₁, hc₁, hheld₁, fun hf => absurd hf Bool.false_ne_true⟩
      | true =>
        have hcopy : Copying base tramp m₀ own₀ parent child (Before (pd + 1) 0) m₁ own₁ := by
          refine (hcopy₁ rfl).skip h₀ hc₀ (fun i j hb => ?_) fun i j _ hj hb hnb => ?_
          · unfold Before at hb ⊢
            omega
          · unfold Before at hb hnb
            omega
        obtain ⟨own₂, ho₂, hc₂, hheld₂, hcopy₂⟩ := ih (pd + 1) hcopy (by omega) (by omega)
        exact ⟨own₂, ho₂, hc₁.trans hc₂, fun b hb => hheld₁ b (hheld₂ b hb), hcopy₂⟩

end Source

end Sched
end Hashx86
