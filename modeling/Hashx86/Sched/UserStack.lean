import Hashx86.Paging.Owned
import Hashx86.Sched.Defs

/-!
# The memory of the user stacks

* `mapStack_cases`: on success the pages of the stack are mapped, each by a frame of its own; on
  failure the roll-back frees what was mapped. Everything else in the address spaces is unchanged.
* `freeStackPages_spec`: the pages of a slot are unmapped and freed.

Both need the pages of the slot that are mapped to be `Plain`: none of them maps the exit trampoline.
-/

namespace Hashx86
namespace Sched

open Lib Paging

/-- The pages from `lo` to `hi` of the stack at `stack`. -/
def StackPages (stack lo hi i j : Nat) : Prop :=
  ∃ p, lo ≤ p ∧ p < hi ∧ i = pdIdx (stack + p * pageSize) ∧ j = ptIdx (stack + p * pageSize)

/-- The stack lies in the user range. -/
structure InUserRange (stack : Nat) : Prop where
  aligned : stack % 4096 = 0
  low : 0x10000000 ≤ stack
  high : stack + userStackSize ≤ 0xC0000000

variable {base : Nat → Prop} {tramp : Nat} {m m' : Machine} {own own' : Owners} {d stack : Nat}

section Range

variable (hs : InUserRange stack)
include hs

theorem InUserRange.va {p : Nat} (hp : p < 128) : stack + p * pageSize < 2 ^ 32 ∧
    (stack + p * pageSize) % 4096 = 0 ∧
    (pdIdx (stack + p * pageSize) < 1024 ∧ kernelIdx (pdIdx (stack + p * pageSize)) = false) ∧
    ptIdx (stack + p * pageSize) < 1024 := by
  obtain ⟨h1, h2, h3⟩ := hs
  unfold userStackSize at h3
  unfold pageSize
  refine ⟨by omega, by omega, ⟨pdIdx_lt (by omega), ?_⟩, ptIdx_lt _⟩
  unfold kernelIdx pdIdx
  simp
  omega

/-- Two pages of a stack are different pages. -/
theorem InUserRange.page_inj {p q : Nat}
    (hi : pdIdx (stack + p * pageSize) = pdIdx (stack + q * pageSize))
    (hj : ptIdx (stack + p * pageSize) = ptIdx (stack + q * pageSize)) : p = q := by
  have := (idx_eq_iff _ _).mp ⟨hi, hj⟩
  unfold pageSize at this
  obtain ⟨h1, -, -⟩ := hs
  omega

end Range

/-- The pages `p` of the stack for which something holds. -/
abbrev AtPage (P : Nat → Nat → Prop) (stack p : Nat) : Prop :=
  P (pdIdx (stack + p * pageSize)) (ptIdx (stack + p * pageSize))

theorem getPhysicalAddress_of_present {va : Nat} (h : present (pte m d (pdIdx va) (ptIdx va)))
    (hva : va % 4096 = 0) : getPhysicalAddress m d va = frameAddr (pte m d (pdIdx va) (ptIdx va)) := by
  rw [getPhysicalAddress_eq]
  unfold resolved
  rw [if_pos h, hva, Nat.add_zero]

theorem getPhysicalAddress_of_not_present {va : Nat}
    (h : present (pte m d (pdIdx va) (ptIdx va)) = false) : getPhysicalAddress m d va = unmapped := by
  rw [getPhysicalAddress_eq]
  unfold resolved
  rw [if_neg (by rw [h]; exact Bool.false_ne_true)]

/-- The roll-back frees the pages that are mapped. -/
theorem unwindStack_spec (hs : InUserRange stack) (n : Nat) : ∀ {m : Machine} {own : Owners} (q : Nat),
    Owned base tramp m own → own d = some .dir → q + n ≤ 128 →
    (∀ p, q ≤ p → p < q + n → AtPage (Plain m own d) stack p) →
    ∃ own', Owned base tramp (unwindStack m d stack n q) own' ∧
      Changes base d (StackPages stack q (q + n)) m (unwindStack m d stack n q) own own' ∧
      ∀ b, own' b = some .held → own b = some .held := by
  induction n with
  | zero => exact fun {m own} q h hd _ _ => ⟨own, h, .refl .., fun _ hb => hb⟩
  | succ n ih =>
    intro m own q h hd hq hplain
    obtain ⟨hva, hmod, hi, hj⟩ := hs.va (show q < 128 by omega)
    have hp := hplain q (Nat.le_refl q) (by omega)
    unfold unwindStack
    dsimp only
    cases hpr : present (pte m d (pdIdx (stack + q * pageSize)) (ptIdx (stack + q * pageSize))) with
    | false =>
      rw [if_neg (by rw [getPhysicalAddress_of_not_present hpr]; exact fun hne => hne rfl)]
      obtain ⟨own', ho, hc, hheld⟩ := ih (q + 1) h hd (by omega) fun p h1 h2 =>
        hplain p (by omega) (by omega)
      exact ⟨own', ho, hc.mono fun i j ⟨p, h1, h2, h3⟩ => ⟨p, by omega, by omega, h3⟩, hheld⟩
    | true =>
      have hpa := getPhysicalAddress_of_present hpr hmod
      have hlow := (h.frames.aligned (hp hpr)).2.2
      rw [hpa, if_pos (by unfold unmapped; unfold lowLimit at hlow; omega)]
      obtain ⟨own₁, ho₁, hc₁, hheld₁⟩ := h.drop hd hi hj hpr hp
      obtain ⟨own', ho, hc, hheld⟩ := ih (q + 1) ho₁ ((hc₁.dirs d).mpr hd) (by omega)
        fun p h1 h2 => by
          obtain ⟨-, -, hi', hj'⟩ := hs.va (show p < 128 by omega)
          exact (hplain p (by omega) (by omega)).changes hc₁ hd hi'.1 hj' fun _ he =>
            absurd (hs.page_inj he.1 he.2) (by omega)
      refine ⟨own', ho, (hc₁.mono ?_).trans (hc.mono ?_), fun b hb => hheld₁ b (hheld b hb)⟩
      · rintro i j ⟨rfl, rfl⟩
        exact ⟨q, Nat.le_refl q, by omega, rfl, rfl⟩
      · rintro i j ⟨p, h1, h2, h3⟩
        exact ⟨p, by omega, by omega, h3⟩

/-- The frames that are held after pages `lo` to `hi` of the stack changed were held before, or are
what these pages had. -/
def HeldFrom (own own' : Owners) (d stack lo hi : Nat) : Prop :=
  ∀ b, own' b = some .held → own b = some .held ∨
    ∃ p, lo ≤ p ∧ p < hi ∧ AtPage (fun i j => own b = some (.page d i j)) stack p

/-- The outcomes of the mapping loop. -/
theorem mapStack_cases (hs : InUserRange stack) (n : Nat) : ∀ {m : Machine} {own : Owners}
    (p top : Nat), Owned base tramp m own → own d = some .dir → p + n = 128 →
    (∃ top' m' own', mapStack m d stack n p top = (some top', m') ∧ Owned base tramp m' own' ∧
      Changes base d (StackPages stack p 128) m m' own own' ∧ HeldFrom own own' d stack p 128 ∧
      (∀ q, p ≤ q → q < 128 → AtPage (Plain m' own' d) stack q) ∧
      (n = 0 → top' = top) ∧ (n ≠ 0 → AtPage (fun i j => own' top' = some (.page d i j)) stack 127)) ∨
    ∃ m', mapStack m d stack n p top = (none, m') ∧
      ((∀ q, q < p → AtPage (Plain m own d) stack q) → ∃ own', Owned base tramp m' own' ∧
        Changes base d (StackPages stack 0 128) m m' own own' ∧ HeldFrom own own' d stack p 128) := by
  induction n with
  | zero =>
    exact fun {m own} p top h _ _ => .inl ⟨top, m, own, rfl, h, .refl .., fun b hb => .inl hb,
      fun q _ _ => by omega, fun _ => rfl, fun hn => absurd rfl hn⟩
  | succ n ih =>
    intro m own p top h hd hp
    unfold mapStack
    obtain ⟨hva, -, hi, hj⟩ := hs.va (show p < 128 by omega)
    rcases h.newPage hd hva with he | ⟨a, m₁, he, ht, hpage⟩
    · rw [he]
      refine .inr ⟨_, if_pos rfl, fun hq => ?_⟩
      obtain ⟨own', ho, hc, hheld⟩ := unwindStack_spec hs p 0 h hd (by omega) fun q _ hlt =>
        hq q (by omega)
      exact ⟨own', ho, hc.mono fun i j ⟨q, h1, h2, h3⟩ => ⟨q, h1, by omega, h3⟩,
        fun b hb => .inl (hheld b hb)⟩
    have hout := hpage (fun _ => 0) userFlags rfl (show userFlags < 4096 by decide)
    have hzero : m₁.zero a pageSize = m₁.store a 4096 fun _ => 0 := rfl
    rw [he]
    dsimp only
    rw [if_neg ht.fresh.2.2, hzero]
    rcases hout with ⟨hm, own', ho, hc, hheld⟩ | ⟨m', own', hm, -, hnew⟩
    · rw [hm]
      refine .inr ⟨_, if_pos rfl, fun hq => ?_⟩
      obtain ⟨own₂, ho₂, hc₂, hheld₂⟩ := unwindStack_spec hs p 0 ho ((hc.dirs d).mpr hd) (by omega)
        fun q _ hlt => by
          obtain ⟨-, -, hi, hj⟩ := hs.va (show q < 128 by omega)
          exact (hq q (by omega)).changes hc hd hi.1 hj fun _ hf => hf
      exact ⟨own₂, ho₂, (hc.mono fun _ _ hf => hf.elim).trans
        (hc₂.mono fun i j ⟨q, h1, h2, h3⟩ => ⟨q, h1, by omega, h3⟩),
        fun b hb => .inl (hheld b (hheld₂ b hb))⟩
    · rw [hm]
      dsimp only
      rw [if_neg (by simp)]
      have ho := hnew.owned
      have hc : Changes base d (StackPages stack p (p + 1)) m m' own own' := hnew.changes.mono (by
        rintro i j ⟨rfl, rfl⟩
        exact ⟨p, Nat.le_refl p, Nat.lt_succ_self p, rfl, rfl⟩)
      have hback : ∀ {b q}, p + 1 ≤ q → AtPage (fun i j => own' b = some (.page d i j)) stack q →
          AtPage (fun i j => own b = some (.page d i j)) stack q := fun {b q} hlt hb =>
        (hc.page_iff h ho (fun _ ⟨r, h1, h2, h3, h4⟩ => by
          have := hs.page_inj h3 h4
          omega) b).mp hb
      have hfrom : ∀ {own₂ : Owners}, HeldFrom own' own₂ d stack (p + 1) 128 →
          HeldFrom own own₂ d stack p 128 := fun {own₂} hf b hb => by
        rcases hf b hb with hb | ⟨q, h1, h2, hb⟩
        · exact (hnew.held b hb).imp_right fun hb => ⟨p, Nat.le_refl p, by omega, hb⟩
        · exact .inr ⟨q, by omega, h2, hback h1 hb⟩
      rcases ih (p + 1) (if p = userStackPages - 1 then a else top) ho ((hc.dirs d).mpr hd)
        (by omega) with ⟨top', m₂, own₂, hr, ho₂, hc₂, hf, hpl, htop, htop'⟩ | ⟨m₂, hr, hf⟩
      · refine .inl ⟨top', m₂, own₂, hr, ho₂, (hc.mono ?_).trans (hc₂.mono ?_), hfrom hf,
          fun q h1 h2 => ?_, fun hn => absurd hn (Nat.succ_ne_zero n), fun _ => ?_⟩
        · rintro i j ⟨q, h1, h2, h3⟩
          exact ⟨q, h1, by omega, h3⟩
        · rintro i j ⟨q, h1, h2, h3⟩
          exact ⟨q, by omega, h2, h3⟩
        · by_cases hqp : q = p
          · refine hqp ▸ hnew.plain.changes hc₂ ((hc.dirs d).mpr hd) hi.1 hj fun _ ⟨r, h3, h4, h5⟩ => ?_
            have := hs.page_inj h5.1 h5.2
            omega
          · exact hpl q (by omega) h2
        · by_cases hn : n = 0
          · subst hn
            obtain rfl : p = 127 := by omega
            obtain rfl := htop rfl
            refine hc₂.kept hnew.page (by simp) ?_
            rintro i j - ⟨q, h1, h2, -⟩
            omega
          · exact htop' hn
      · refine .inr ⟨m₂, hr, fun hq => ?_⟩
        obtain ⟨own₂, ho₂, hc₂, hf⟩ := hf fun q hlt => by
          by_cases hqp : q = p
          · exact hqp ▸ hnew.plain
          · obtain ⟨-, -, hi, hj⟩ := hs.va (show q < 128 by omega)
            refine (hq q (by omega)).changes hc hd hi.1 hj fun _ ⟨r, h1, h2, h3, h4⟩ => ?_
            have := hs.page_inj h3 h4
            omega
        exact ⟨own₂, ho₂, (hc.mono fun i j ⟨q, h1, h2, h3⟩ => ⟨q, by omega, by omega, h3⟩).trans hc₂,
          hfrom hf⟩

/-! ## `AllocUserStack` -/

theorem takeSlot_machine (k : Kernel) (directory : Nat) :
    (takeSlot k directory).2.machine = k.machine ∧ (takeSlot k directory).2.tcbs = k.tcbs := by
  unfold takeSlot
  split <;> exact ⟨rfl, rfl⟩

theorem machine_dropThread (k : Kernel) (t : Nat) : (k.dropThread t).machine = k.machine := by
  unfold Kernel.dropThread
  split <;> rfl

/-- The bounds that `AllocUserStack` checks. -/
theorem inUserRange_slot {slot : Nat} (h1 : ¬ userStackVirtTop - userStackSize < slot * userStackSize)
    (h2 : ¬ userStackVirtTop - slot * userStackSize - userStackSize < userStackVirtBottom) :
    userStackVirtTop - slot * userStackSize - userStackSize = slotBase slot ∧
      InUserRange (slotBase slot) := by
  have he : userStackVirtTop - slot * userStackSize - userStackSize = slotBase slot := by
    unfold slotBase sub32
    unfold userStackVirtTop userStackSize at h1 ⊢
    rw [Nat.mod_eq_of_lt (by omega), if_pos (by omega)]
    omega
  rw [he] at h2
  refine ⟨he, ?_, ?_, ?_⟩
  · rw [← he]
    unfold userStackVirtTop userStackSize at h1 ⊢
    omega
  · unfold userStackVirtBottom at h2
    omega
  · rw [← he]
    unfold userStackVirtTop userStackSize at h1 ⊢
    omega

/-- What `AllocUserStack` does to memory. -/
theorem allocUserStack_machine (k : Kernel) (t directory : Nat) :
    (∃ k', allocUserStack k t directory = (none, k') ∧ (k'.machine = k.machine ∨
      ∃ slot, (takeSlot k directory).1 = some slot ∧ InUserRange (slotBase slot) ∧
        mapStack k.machine directory (slotBase slot) 127 1 0 = (none, k'.machine))) ∨
    ∃ slot top k', allocUserStack k t directory = (some (slotBase slot, top), k') ∧
      (takeSlot k directory).1 = some slot ∧ InUserRange (slotBase slot) ∧
      mapStack k.machine directory (slotBase slot) 127 1 0 = (some top, k'.machine) ∧
      k'.tcbs t = (k.tcbs t).map fun tcb => { tcb with stackSlotIdx := slot } := by
  obtain ⟨hmach, htcbs⟩ := takeSlot_machine k directory
  unfold allocUserStack
  generalize takeSlot k directory = r at hmach htcbs ⊢
  obtain ⟨slot, k₁⟩ := r
  cases slot with
  | none => exact .inl ⟨_, rfl, .inl ((machine_dropThread _ _).trans hmach)⟩
  | some slot =>
    dsimp only
    by_cases h1 : userStackVirtTop - userStackSize < slot * userStackSize
    · rw [if_pos h1]
      exact .inl ⟨_, rfl, .inl ((machine_dropThread _ _).trans hmach)⟩
    by_cases h2 : userStackVirtTop - slot * userStackSize - userStackSize < userStackVirtBottom
    · rw [if_neg h1, if_pos h2]
      exact .inl ⟨_, rfl, .inl ((machine_dropThread _ _).trans hmach)⟩
    obtain ⟨hbase, hrange⟩ := inUserRange_slot h1 h2
    have hmod : (k₁.modTcb t fun tcb => { tcb with stackSlotIdx := slot }).machine = k.machine := hmach
    have hpages : userStackPages - 1 = 127 := rfl
    rw [if_neg h1, if_neg h2, hbase, hmod, hpages]
    generalize hr : mapStack k.machine directory (slotBase slot) 127 1 0 = r
    obtain ⟨top, m⟩ := r
    cases top with
    | none => exact .inl ⟨_, rfl, .inr ⟨slot, rfl, hrange, (machine_dropThread _ _).symm ▸ hr⟩⟩
    | some top =>
      refine .inr ⟨slot, top, _, rfl, rfl, hrange, hr, ?_⟩
      rw [← htcbs]
      exact Function.update_self ..

/-- The two words at the top of a stack are in its last page. -/
theorem writeStackTop_writes {top : Nat} (htop : top % 4096 = 0) (m : Machine) (arg : Nat) :
    WritesOnly m (writeStackTop m top arg) (· = top) := fun x hx => by
  unfold frameAddr at hx
  unfold writeStackTop write32 pageSize
  dsimp only
  rw [overwrite_of_out _ _ (by omega), overwrite_of_out _ _ (by omega)]

end Sched
end Hashx86
