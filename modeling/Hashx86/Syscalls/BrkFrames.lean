import Hashx86.Sched.Stays
import Hashx86.Syscalls.Brk

/-!
# The frames of `sys_brk`

`sys_brk` stays inside the address space of the process and leaves no frame without a page
(`sysBrk_stays`), also when it fails half way and unmaps what it had mapped.
-/

namespace Hashx86
namespace Syscalls

open Lib Paging Sched

/-- The frame of a recorded page is that page's. -/
def Backed (own : Owners) (d : Nat) (q : Nat × Nat) : Prop :=
  q.1 < 2 ^ 32 ∧ own q.2 = some (.page d (pdIdx q.1) (ptIdx q.1))

variable {base : Nat → Prop} {tramp d : Nat} {m m' : Machine} {own own' : Owners}

/-- A page keeps its frame when another page changes. -/
theorem Backed.changes {q : Nat × Nat} {i j : Nat} (h : Backed own d q)
    (hc : Changes base d (fun i' j' => i' = i ∧ j' = j) m m' own own')
    (hne : ¬ (pdIdx q.1 = i ∧ ptIdx q.1 = j)) : Backed own' d q :=
  ⟨h.1, hc.kept h.2 (by simp) fun i' j' he => by
    obtain ⟨-, rfl, rfl⟩ := Use.page.inj he
    exact hne⟩

/-- A recorded page is unmapped and its frame freed. -/
theorem unmap_stays (h : Lives base tramp d m own) {q : Nat × Nat} (hq : Backed own d q) : ∃ own',
    Stays base tramp d True m ((mapPage m d q.1 0 0).2.freeBlock q.2) own own' ∧
    ∀ r, Backed own d r → r.2 ≠ q.2 → Backed own' d r := by
  obtain ⟨v, f⟩ := q
  obtain ⟨hv, hf⟩ := hq
  obtain ⟨hp, hframe⟩ := h.owned.pte_of_page hf
  have hk := (h.owned.pages.page.mp hf).2.1.2
  have hpe : present (m.entry d (pdIdx v)) = true := by
    by_contra hne
    rw [pte_of_not_present (Bool.eq_false_iff.mpr hne)] at hp
    exact absurd hp (by decide)
  have hm : mapPage m d v 0 0 =
      (true, m.setEntry (frameAddr (m.entry d (pdIdx v))) (ptIdx v) 0) := by
    unfold mapPage ensureTable
    rw [if_neg (by rw [hk]; exact Bool.false_ne_true), if_pos hpe]
    rfl
  obtain ⟨own', ho, hc, hheld⟩ := h.owned.drop h.dir ⟨pdIdx_lt hv, hk⟩ (ptIdx_lt v) hp
    fun _ => hframe.symm ▸ hf
  rw [hm, ← hframe]
  refine ⟨own', .of_changes hc h.owned ho h.dir fun _ => hheld, fun r hr hne => ?_⟩
  refine hr.changes hc fun ⟨hi, hj⟩ => hne ?_
  have hr' := (h.owned.pte_of_page hr.2).2
  rw [hi, hj] at hr'
  exact hr'.symm

theorem rollBack_stays (frames : List (Nat × Nat)) : ∀ {m : Machine} {own : Owners},
    Lives base tramp d m own → (∀ q ∈ frames, Backed own d q) → (frames.map Prod.snd).Nodup →
    ∃ own', Stays base tramp d True m (rollBack d frames m) own own' := by
  induction frames with
  | nil => exact fun {m own} h _ _ => ⟨own, .refl h⟩
  | cons q frames ih =>
    intro m own h hq hn
    rw [List.map_cons, List.nodup_cons] at hn
    obtain ⟨own₁, hs, hkeep⟩ := unmap_stays h (hq q List.mem_cons_self)
    obtain ⟨own', hs'⟩ := ih (hs.lives h) (fun r hr => hkeep r (hq r (List.mem_cons_of_mem q hr))
      fun he => hn.1 (he ▸ List.mem_map_of_mem hr)) hn.2
    exact ⟨own', hs.trans hs'⟩

theorem brkLoop_stays (n : Nat) : ∀ (addr : Nat) (frames : List (Nat × Nat)) {m : Machine}
    {own : Owners}, Lives base tramp d m own → (∀ q ∈ frames, Backed own d q) →
    (frames.map Prod.snd).Nodup → addr % 4096 = 0 → addr + n * pageSize ≤ 2 ^ 32 →
    ∃ own', Stays base tramp d True m (brkLoop d n addr frames m).2 own own' := by
  induction n with
  | zero => exact fun addr frames {m own} h _ _ _ _ => ⟨own, .refl h⟩
  | succ n ih =>
    intro addr frames m own h hq hn hmod hend
    have hnext : (addr + pageSize) % 4096 = 0 ∧ addr + pageSize + n * pageSize ≤ 2 ^ 32 ∧
        addr < 2 ^ 32 := by
      unfold pageSize at hend ⊢
      omega
    have hv := hnext.2.2
    unfold brkLoop
    by_cases hun : getPhysicalAddress m d addr = unmapped
    swap
    · rw [if_neg hun]
      exact ih (addr + pageSize) frames h hq hn hnext.1 hnext.2.1
    rw [if_pos hun]
    rcases h.owned.newPage h.dir hv with he | ⟨f, m₁, he, ht, hnew⟩
    · rw [he]
      exact rollBack_stays frames h hq hn
    rw [he]
    dsimp only
    rw [if_neg ht.fresh.2.2]
    have hkeep : ∀ {own₁ : Owners}, (∀ a u, own a = some u → u ≠ .held →
        (∀ i j, u = .page d i j → ¬ (i = pdIdx addr ∧ j = ptIdx addr)) → own₁ a = some u) →
        ∀ q ∈ frames, Backed own₁ d q := fun hk q hm => by
      refine ⟨(hq q hm).1, hk _ _ (hq q hm).2 (by simp) fun i j heq => ?_⟩
      -- a recorded page is mapped
      obtain ⟨-, rfl, rfl⟩ := Use.page.inj heq
      rintro ⟨hi, hj⟩
      have hp := (h.owned.pte_of_page (hq q hm).2).1
      rw [hi, hj, (unmapped_iff m d hmod).mp hun] at hp
      exact absurd hp Bool.false_ne_true
    rcases hnew (fun _ => 0) brkFlags (by decide) (by decide) with
      ⟨hm, own₁, ho, hc, hheld⟩ | ⟨m₂, own₁, hm, hk, hp⟩
    · rw [show m₁.zero f pageSize = m₁.store f 4096 fun _ => 0 from rfl, hm]
      dsimp only
      rw [if_pos (by rfl)]
      have hs : Stays base tramp d True m _ own own₁ := .of_changes hc h.owned ho h.dir fun _ => hheld
      obtain ⟨own', hs'⟩ := rollBack_stays frames (hs.lives h)
        (hkeep fun a u ha hu _ => hc.kept ha hu fun _ _ _ => id) hn
      exact ⟨own', hs.trans hs'⟩
    · rw [show m₁.zero f pageSize = m₁.store f 4096 fun _ => 0 from rfl, hm]
      dsimp only
      rw [if_neg (by simp)]
      have hs : Stays base tramp d True m m₂ own own₁ :=
        .of_changes hp.changes h.owned hp.owned h.dir fun _ b hb => (hp.held b hb).resolve_right
          fun hb => by
            have hpr := (h.owned.pte_of_page hb).1
            rw [(unmapped_iff m d hmod).mp hun] at hpr
            exact absurd hpr Bool.false_ne_true
      have hbacked : ∀ q ∈ frames ++ [(addr, f)], Backed own₁ d q := fun q hm => by
        rcases List.mem_append.mp hm with hm | hm
        · exact hkeep (fun a u ha hu hr => hp.changes.kept ha hu hr) q hm
        · rw [List.mem_singleton.mp hm]
          exact ⟨hv, hp.page⟩
      have hnodup : ((frames ++ [(addr, f)]).map Prod.snd).Nodup := by
        rw [List.map_append, List.nodup_append]
        refine ⟨hn, List.nodup_singleton f, fun a ha b hb => ?_⟩
        obtain ⟨q, hm, rfl⟩ := List.mem_map.mp ha
        rw [List.mem_singleton.mp hb]
        intro heq
        have := (hq q hm).2
        rw [heq, ht.fresh.1] at this
        exact absurd this.symm (Option.some_ne_none _)
      obtain ⟨own', hs'⟩ := ih (addr + pageSize) (frames ++ [(addr, f)]) (hs.lives h) hbacked hnodup
        hnext.1 hnext.2.1
      exact ⟨own', hs.trans hs'⟩

theorem pageUp_lt (n : Nat) : pageUp n < 2 ^ 32 := by
  unfold pageUp pageSize
  omega

/-- `sys_brk` of a user process. -/
theorem sysBrk_stays (h : Lives base tramp d m own) (kmallocOk : Bool) (heap : HeapSegment)
    (brk : Nat) : ∃ own', Stays base tramp d True m (sysBrk kmallocOk m d heap brk).2.2 own own' := by
  unfold sysBrk
  dsimp only
  repeat' split
  all_goals try exact ⟨own, .refl h⟩
  all_goals
    rename_i hlt _
    have hloop := brkLoop_stays ((pageUp brk - pageUp heap.endAddress) / pageSize)
      (pageUp heap.endAddress) [] h (by simp) List.nodup_nil (pageUp_mod heap.endAddress) (by
        have := pageUp_lt brk
        have := pageUp_mod brk
        have := pageUp_mod heap.endAddress
        unfold pageSize
        omega)
    exact hloop

end Syscalls
end Hashx86
