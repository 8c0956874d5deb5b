import Hashx86.Paging.Owned

/-!
# Frames that leave an address space

`Freed` says exactly what a part of a teardown did: each frame of `gone` was in the address space of
`d` and was freed once, and of the memory only the directory and its tables were written.

* `Owned.clearEntry`, `Owned.freePage`, `Owned.freeTable`, `Owned.freeDir`: the four steps.
* `Freed.trans`: one part after another.
-/

namespace Hashx86
namespace Paging

open Lib Pmm

/-- The directory of the address space that the frame at `a` is in. -/
def Use.dirOf (a : Nat) : Use → Option Nat
  | .held => none
  | .dir => some a
  | .table d _ => some d
  | .page d _ _ => some d

/-- The frame at `a` is in the address space of `d`. -/
def InSpace (own : Owners) (d a : Nat) : Prop := ∃ u, own a = some u ∧ u.dirOf a = some d

/-- The frames `gone` have no use. -/
def without (own : Owners) (gone : List Nat) : Owners := fun a => if a ∈ gone then none else own a

variable {base : Nat → Prop} {tramp : Nat} {m m₁ m' : Machine} {own : Owners}
variable {a d i j t : Nat} {gone gone₁ : List Nat}

theorem without_nil (own : Owners) : without own [] = own := rfl

theorem without_of_mem (h : a ∈ gone) : without own gone a = none := if_pos h

theorem without_of_notMem (h : a ∉ gone) : without own gone a = own a := if_neg h

theorem without_some {u : Use} : without own gone a = some u ↔ a ∉ gone ∧ own a = some u := by
  by_cases h : a ∈ gone
  · rw [without_of_mem h]
    simp [h]
  · rw [without_of_notMem h]
    simp [h]

theorem without_append : without (without own gone) gone₁ = without own (gone ++ gone₁) := by
  funext a
  by_cases h : a ∈ gone
  · rw [without_of_mem (List.mem_append_left gone₁ h)]
    by_cases h₁ : a ∈ gone₁
    · exact without_of_mem h₁
    · rw [without_of_notMem h₁, without_of_mem h]
  · by_cases h₁ : a ∈ gone₁
    · rw [without_of_mem h₁, without_of_mem (List.mem_append_right gone h₁)]
    · rw [without_of_notMem h₁, without_of_notMem h,
        without_of_notMem fun hm => (List.mem_append.mp hm).elim h h₁]

theorem without_singleton (own : Owners) (a : Nat) : without own [a] = Function.update own a none := by
  funext b
  by_cases h : b = a
  · rw [h, Function.update_self]
    exact without_of_mem (List.mem_singleton_self a)
  · rw [Function.update_of_ne h]
    exact without_of_notMem fun hm => h (List.mem_singleton.mp hm)

structure Freed (base : Nat → Prop) (tramp d : Nat) (gone : List Nat) (m m' : Machine)
    (own : Owners) : Prop where
  owned : Owned base tramp m' (without own gone)
  mine : ∀ a ∈ gone, InSpace own d a
  nodup : gone.Nodup
  free : ∀ g, Free m'.pmm g ↔ Free m.pmm g ∨ g * 4096 ∈ gone
  log : m'.log = gone.reverse.map (.free · true) ++ m.log
  mem : WritesOnly m m' fun a => a = d ∨ ∃ i, own a = some (.table d i)
  kernelDir : m'.kernelPageDirectory = m.kernelPageDirectory

theorem Freed.refl (h : Owned base tramp m own) (d : Nat) : Freed base tramp d [] m m own where
  owned := h
  mine _ ha := absurd ha List.not_mem_nil
  nodup := .nil
  free g := by simp
  log := rfl
  mem _ _ := rfl
  kernelDir := rfl

theorem Freed.trans (h : Freed base tramp d gone m m₁ own)
    (h₁ : Freed base tramp d gone₁ m₁ m' (without own gone)) :
    Freed base tramp d (gone ++ gone₁) m m' own where
  owned := without_append ▸ h₁.owned
  mine a ha := by
    rcases List.mem_append.mp ha with ha | ha
    · exact h.mine a ha
    · obtain ⟨u, hu, hd⟩ := h₁.mine a ha
      exact ⟨u, (without_some.mp hu).2, hd⟩
  nodup := by
    refine List.nodup_append.mpr ⟨h.nodup, h₁.nodup, fun a ha b hb hab => ?_⟩
    obtain ⟨u, hu, -⟩ := h₁.mine b hb
    exact (without_some.mp hu).1 (hab ▸ ha)
  free g := by rw [h₁.free, h.free, List.mem_append, or_assoc]
  log := by rw [h₁.log, h.log, List.reverse_append, List.map_append, List.append_assoc]
  mem x hx := by
    rw [h₁.mem x fun hx' => hx (hx'.imp_right fun ⟨i, hi⟩ => ⟨i, (without_some.mp hi).2⟩), h.mem x hx]
  kernelDir := h₁.kernelDir.trans h.kernelDir

/-- Each frame in use still has a use. -/
theorem Freed.accounted (h : Freed base tramp d gone m m' own)
    (hacc : Accounted base m.pmm own) : Accounted base m'.pmm (without own gone) := fun g hg => by
  have hnot := fun hf => hg ((h.free g).mpr hf)
  refine (hacc g fun hf => hnot (.inl hf)).imp_right fun ⟨u, hu⟩ => ⟨u, ?_⟩
  rw [without_of_notMem fun hm => hnot (.inr hm)]
  exact hu

theorem Freed.freesOk (h : Freed base tramp d gone m m' own) (ho : Owned base tramp m own)
    (hl : FreesOk base m.log) : FreesOk base m'.log := fun b inUse hb h0 => by
  rw [h.log] at hb
  rcases List.mem_append.mp hb with hb | hb
  · obtain ⟨c, hc, he⟩ := List.mem_map.mp hb
    obtain ⟨rfl, rfl⟩ := Event.free.inj he
    obtain ⟨u, hu, -⟩ := h.mine c (List.mem_reverse.mp hc)
    exact ⟨rfl, (ho.frames.aligned hu).1, (ho.frames.owned hu).2.2⟩
  · exact hl b inUse hb h0

/-! ## A frame is freed before its entry is cleared -/

/-- The guard of `pmm_free_block` does not see the store. -/
theorem freeBlock_setEntry {v : Nat} (h : m.kernelDir.any (·.guards a) = false)
    (h' : (m.setEntry t j v).kernelDir.any (·.guards a) = false) :
    (m.freeBlock a).setEntry t j v = (m.setEntry t j v).freeBlock a := by
  have hpmm : Pmm.freeBlock m.pmm m.kernelDir a =
      Pmm.freeBlock m.pmm (m.setEntry t j v).kernelDir a := by
    unfold Pmm.freeBlock
    rw [h, h']
  unfold Machine.freeBlock
  rw [hpmm]
  rfl

/-- A frame that is held in `own₁` was freed; no other use changed. -/
theorem freed_of_held {own₁ : Owners} {u : Use} (ho : Owned base tramp m₁ own₁)
    (hheld : own₁ a = some .held) (ha : own a = some u) (hu : u.dirOf a = some d)
    (hown : ∀ b, b ≠ a → own₁ b = own b) (hpmm : m₁.pmm = m.pmm) (hlog : m₁.log = m.log)
    (hkd : m₁.kernelPageDirectory = m.kernelPageDirectory)
    (hmem : WritesOnly m m₁ fun a => a = d ∨ ∃ i, own a = some (.table d i)) :
    Freed base tramp d [a] m (m₁.freeBlock a) own := by
  obtain ⟨hs, hl, hfree⟩ := ho.toSpace.free hheld
  have hmod := (ho.frames.aligned hheld).1
  have heq : Function.update own₁ a none = without own [a] := by
    rw [without_singleton]
    funext b
    by_cases hb : b = a
    · rw [hb, Function.update_self, Function.update_self]
    · rw [Function.update_of_ne hb, Function.update_of_ne hb, hown b hb]
  have howned := (ho.free (d := d) (R := fun _ _ => False) hheld).1
  rw [heq] at howned
  refine ⟨howned, fun b hb => ?_, List.nodup_singleton a, fun g => ?_, ?_, hmem, hkd⟩
  · obtain rfl := List.mem_singleton.mp hb
    exact ⟨u, ha, hu⟩
  · rw [hfree, hpmm, List.mem_singleton]
    exact or_congr_right (by omega)
  · rw [hl, hlog]
    rfl

/-- A page is under a table. -/
theorem Owned.table_of_page (h : Owned base tramp m own) (ha : own a = some (.page d i j)) :
    ∃ t, own t = some (.table d i) := by
  obtain ⟨hd, hi, -, hm⟩ := h.pages.page.mp ha
  have hp := hm.1
  unfold pte at hp
  split at hp
  · rename_i he
    exact ⟨_, h.tables.table.mpr ⟨hd, hi.1, he, rfl, fun hk => absurd (hi.2.symm.trans hk)
      Bool.false_ne_true⟩⟩
  · exact absurd hp (by decide)

/-! ## The steps -/

/-- The entry of a page without a frame of its own is cleared. -/
theorem Owned.clearEntry (h : Owned base tramp m own) (ht : own t = some (.table d i))
    (hi : kernelIdx i = false) (hj : j < 1024) (hno : ∀ b, own b ≠ some (.page d i j)) :
    Freed base tramp d [] m (m.setEntry t j 0) own := by
  have hclear := (h.clear ht hj hi).owned
  rw [vacate_of_none hno] at hclear
  exact ⟨hclear, fun _ hb => absurd hb List.not_mem_nil, .nil, fun g => by simp [Machine.setEntry], rfl,
    fun x hx => Machine.mem_setEntry_of_ne (h.frames.aligned ht).1 hj fun hxt => hx (.inr ⟨i, hxt ▸ ht⟩),
    rfl⟩

/-- A page is freed and its entry is cleared. -/
theorem Owned.freePage (h : Owned base tramp m own) (ht : own t = some (.table d i))
    (hi : kernelIdx i = false) (hj : j < 1024) (ha : own a = some (.page d i j)) :
    Freed base tramp d [a] m ((m.freeBlock a).setEntry t j 0) own := by
  have hclear := (h.clear ht hj hi).owned
  have hheld : vacate own d i j a = some .held := if_pos ha
  rw [freeBlock_setEntry (h.unguarded ha) (hclear.unguarded hheld)]
  refine freed_of_held hclear hheld ha rfl (fun b hb => if_neg fun hb' => hb ?_) rfl rfl rfl
    fun x hx => Machine.mem_setEntry_of_ne (h.frames.aligned ht).1 hj fun hxt => hx (.inr ⟨i, hxt ▸ ht⟩)
  rw [← (h.pte_of_page hb').2, (h.pte_of_page ha).2]

/-- The entry of a table without pages is cleared; the frame is held. -/
theorem Owned.dropTable (h : Owned base tramp m own) (ht : own t = some (.table d i))
    (hno : ∀ b j, own b ≠ some (.page d i j)) :
    Owned base tramp (m.setEntry d i 0) (Function.update own t (some .held)) := by
  obtain ⟨hd, hi, -⟩ := h.tables.table.mp ht
  have hother : ∀ {b u}, u ≠ .held → (∀ e k, u ≠ .table e k) →
      (Function.update own t (some .held) b = some u ↔ own b = some u) := fun {b u} hu hu' => by
    by_cases hb : b = t
    · rw [hb, Function.update_self, ht]
      exact iff_of_false (fun he => hu (Option.some.inj he).symm)
        fun he => hu' d i (Option.some.inj he).symm
    · rw [Function.update_of_ne hb]
  refine ⟨⟨h.frames.reown ht .held, h.tables.dropTable h.frames ht (by decide)
    fun hp => absurd hp (by decide)⟩, ⟨fun {b e i' j'} => ?_⟩, h.tramp⟩
  rw [hother (by simp) (by simp), hother (by simp) (by simp)]
  by_cases hdi : e = d ∧ i' = i
  · obtain ⟨rfl, rfl⟩ := hdi
    refine iff_of_false (hno b j') fun hs => ?_
    have hne : frameAddr 0 ≠ e := (h.frames.aligned hd).2.1.symm
    have hzero : pte (m.setEntry e i' 0) e i' j' = 0 :=
      pte_setDirEntry_self h.frames hd hi (by decide) hs.2.2.1 hne
    have hm := hs.2.2.2.1
    rw [hzero] at hm
    exact absurd hm (by decide)
  · rw [h.pages.page]
    refine and_congr_right fun he => and_congr_right fun hi' => and_congr_right fun hj' => ?_
    rw [h.tables.pte_setDirEntry_of_ne h.frames hd hi 0 he hi'.1 hj' (by tauto)]

/-- A table without pages is freed and its entry is cleared. -/
theorem Owned.freeTable (h : Owned base tramp m own) (ht : own t = some (.table d i))
    (hno : ∀ b j, own b ≠ some (.page d i j)) :
    Freed base tramp d [t] m ((m.freeBlock t).setEntry d i 0) own := by
  have hdrop := h.dropTable ht hno
  have hheld : Function.update own t (some .held) t = some .held := Function.update_self ..
  obtain ⟨hd, hi, -⟩ := h.tables.table.mp ht
  rw [freeBlock_setEntry (h.unguarded ht) (hdrop.unguarded hheld)]
  exact freed_of_held hdrop hheld ht rfl (fun b hb => Function.update_of_ne hb _ _) rfl rfl rfl
    fun x hx => Machine.mem_setEntry_of_ne (h.frames.aligned hd).1 hi fun hxd => hx (.inl hxd)

/-- A directory without tables is freed. -/
theorem Owned.freeDir (h : Owned base tramp m own) (hd : own d = some .dir)
    (hno : ∀ b i, own b ≠ some (.table d i)) : Freed base tramp d [d] m (m.freeBlock d) own := by
  have hnoPage : ∀ b i j, own b ≠ some (.page d i j) := fun b i j hb => by
    obtain ⟨t, ht⟩ := h.table_of_page hb
    exact hno t i ht
  have hheld : Function.update own d (some .held) d = some .held := Function.update_self ..
  exact freed_of_held ⟨⟨h.frames.reown hd .held, h.tables.dropDir hd hno⟩, h.pages.dropDir hd hnoPage,
    h.tramp⟩ hheld hd rfl (fun b hb => Function.update_of_ne hb _ _) rfl rfl rfl fun _ _ => rfl

end Paging
end Hashx86
