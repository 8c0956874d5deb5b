import Hashx86.Sched.Run
import Hashx86.Sched.UserStack

/-!
# Which slot `AllocUserStack` takes

The scan of the pool pops the head and puts a mapped candidate back with `LinkedList::Add`, which
prepends: every round looks at the same head.

* `scanPool_head`, `scanPool_stuck`: the two ways in which the scan ends at the head.
* `allocUserStack_pool`: the pool and the counter after the call, from those after the choice.
* `reuses_iff`: the call reuses an unmapped slot of the pool exactly when the head is one.
-/

namespace Hashx86
namespace Sched

open Lib Paging

variable {k : Kernel} {t directory : Nat}

/-! ## The scan -/

/-- A mapped head is looked at again and again. -/
theorem scanPool_stuck {m : Machine} {head : Nat} (h : slotMapped m directory head = true)
    (n : Nat) (rest : List Nat) :
    scanPool m directory n (head :: rest) = (none, head :: rest) := by
  induction n with
  | zero => rfl
  | succ n ih => rw [scanPool, if_pos h, ih]

/-- An unmapped head is taken. -/
theorem scanPool_head {m : Machine} {head : Nat} (h : slotMapped m directory head = false)
    (hs : head ≠ noSlot) (n : Nat) (rest : List Nat) :
    scanPool m directory (n + 1) (head :: rest) = (some head, rest) := by
  rw [scanPool, if_neg (by simp [h]), if_neg hs]

/-- A head `UINT32_MAX` that is not mapped is lost. -/
theorem scanPool_lost {m : Machine} (h : slotMapped m directory noSlot = false) (n : Nat)
    (rest : List Nat) :
    scanPool m directory (n + 1) (noSlot :: rest) = scanPool m directory n rest := by
  rw [scanPool, if_neg (by simp [h]), if_pos rfl]

/-- The scan takes from the pool, and adds nothing. -/
theorem scanPool_count (m : Machine) (directory n : Nat) (pool : List Nat) (s : Nat) :
    (scanPool m directory n pool).2.count s ≤ pool.count s := by
  induction n generalizing pool with
  | zero => exact Nat.le_refl _
  | succ n ih =>
    cases pool with
    | nil => exact Nat.le_refl _
    | cons head rest =>
      have hle : rest.count s ≤ (head :: rest).count s :=
        (List.sublist_cons_self head rest).count_le s
      unfold scanPool
      split
      · exact ih _
      · split
        · exact (ih rest).trans hle
        · exact hle

theorem scanPool_ne_noSlot {m : Machine} {n s : Nat} {pool : List Nat}
    (h : (scanPool m directory n pool).1 = some s) : s ≠ noSlot := by
  induction n generalizing pool with
  | zero => simp [scanPool] at h
  | succ n ih =>
    cases pool with
    | nil => simp [scanPool] at h
    | cons head rest =>
      unfold scanPool at h
      split at h
      · exact ih h
      · split at h
        · exact ih h
        · rename_i hne
          cases h
          exact hne

/-! ## The call -/

theorem takeSlot_pool (k : Kernel) (directory : Nat) : (takeSlot k directory).2.freeStackOffsets =
    (scanPool k.machine directory k.freeStackOffsets.length k.freeStackOffsets).2 := by
  unfold takeSlot
  split <;> simp_all

theorem takeSlot_ne_noSlot {s : Nat} (h : (takeSlot k directory).1 = some s) : s ≠ noSlot := by
  unfold takeSlot at h
  split at h
  · rename_i he
    exact scanPool_ne_noSlot ((congrArg Prod.fst he).trans h)
  · cases h
  · rename_i hf
    obtain ⟨hs, hlt⟩ := freshSlot_spec hf
    obtain rfl := Option.some.inj h
    unfold noSlot
    omega

theorem dropThread_slots (k : Kernel) (t : Nat) :
    (k.dropThread t).freeStackOffsets = k.freeStackOffsets ∧
      (k.dropThread t).nextStackSlotIdx = k.nextStackSlotIdx := by
  unfold Kernel.dropThread
  split <;> exact ⟨rfl, rfl⟩

/-- After the choice the counter stays, and the pool gets the slot back if the call fails. -/
theorem allocUserStack_pool (k : Kernel) (t directory : Nat) :
    (allocUserStack k t directory).2.nextStackSlotIdx =
        (takeSlot k directory).2.nextStackSlotIdx ∧
      (allocUserStack k t directory).2.freeStackOffsets =
        if (allocUserStack k t directory).1.isSome then (takeSlot k directory).2.freeStackOffsets
        else (takeSlot k directory).1.toList ++ (takeSlot k directory).2.freeStackOffsets := by
  have hdrop := dropThread_slots
  unfold allocUserStack
  generalize takeSlot k directory = r
  obtain ⟨slot, k₁⟩ := r
  cases slot with
  | none => simp [hdrop]
  | some slot =>
    dsimp only
    split
    · simp [hdrop, Kernel.recycleSlot, Kernel.modTcb, Kernel.setTcb]
    split
    · simp [hdrop, Kernel.recycleSlot, Kernel.modTcb, Kernel.setTcb]
    split
    · simp [hdrop, Kernel.recycleSlot, Kernel.modTcb, Kernel.setTcb, Kernel.withMachine]
    · simp [Kernel.modTcb, Kernel.setTcb, Kernel.withMachine]

/-- The call uses a slot of the pool that is not mapped in the directory. The counter stays, and
so do the other slots of the pool; the one that was used is back if the call fails. -/
def Reuses (k : Kernel) (t directory : Nat) : Prop :=
  ∃ slot ∈ k.freeStackOffsets, slotMapped k.machine directory slot = false ∧
    (takeSlot k directory).1 = some slot ∧
    (∀ base top, (allocUserStack k t directory).1 = some (base, top) → base = slotBase slot) ∧
    (allocUserStack k t directory).2.nextStackSlotIdx = k.nextStackSlotIdx ∧
    (allocUserStack k t directory).2.freeStackOffsets.Perm
      (if (allocUserStack k t directory).1.isSome then k.freeStackOffsets.erase slot
        else k.freeStackOffsets)

/-- The head of the pool is a slot that is not mapped. -/
def HeadUnmapped (k : Kernel) (directory : Nat) : Prop :=
  ∃ head rest, k.freeStackOffsets = head :: rest ∧ head ≠ noSlot ∧
    slotMapped k.machine directory head = false

theorem takeSlot_head {head : Nat} {rest : List Nat} (hp : k.freeStackOffsets = head :: rest)
    (hs : head ≠ noSlot) (hm : slotMapped k.machine directory head = false) :
    takeSlot k directory = (some head, { k with freeStackOffsets := rest }) := by
  unfold takeSlot
  rw [hp, List.length_cons, scanPool_head hm hs]

/-- A slot that the scan did not find comes from the counter. -/
theorem takeSlot_of_none {pool : List Nat}
    (h : scanPool k.machine directory k.freeStackOffsets.length k.freeStackOffsets = (none, pool)) :
    (takeSlot k directory).1 = none ∨
      (takeSlot k directory).2.nextStackSlotIdx = k.nextStackSlotIdx + 1 := by
  unfold takeSlot
  rw [h]
  cases hf : freshSlot k.nextStackSlotIdx with
  | none => exact .inl rfl
  | some s => exact .inr (congrArg (· + 1) (freshSlot_spec hf).1)

theorem reuses_of_head (h : HeadUnmapped k directory) : Reuses k t directory := by
  obtain ⟨head, rest, hp, hs, hm⟩ := h
  have htake := takeSlot_head hp hs hm
  obtain ⟨hnext, hpool⟩ := allocUserStack_pool k t directory
  rw [htake] at hnext hpool
  refine ⟨head, hp ▸ List.mem_cons_self, hm, by rw [htake], fun base top he => ?_, hnext, ?_⟩
  · rcases allocUserStack_machine k t directory with ⟨_, he', -⟩ | ⟨slot, _, _, he', hslot, -⟩
    · rw [he'] at he
      cases he
    · rw [he'] at he
      rw [htake] at hslot
      cases hslot
      cases he
      rfl
  · rw [hpool, hp]
    split
    · rw [List.erase_cons_head]
    · exact List.Perm.refl _

/-- The call reuses a slot only if the head of the pool is not mapped. -/
theorem head_of_reuses (h : Reuses k t directory) : HeadUnmapped k directory := by
  obtain ⟨slot, hmem, hm, htake, -, hnext, hperm⟩ := h
  obtain ⟨hnext', hpool⟩ := allocUserStack_pool k t directory
  rw [hnext'] at hnext
  cases hp : k.freeStackOffsets with
  | nil => simp [hp] at hmem
  | cons head rest =>
    -- A head that is mapped hides the rest of the pool, and the slot comes from the counter.
    have hhead : slotMapped k.machine directory head = false := by
      by_contra hne
      have hmapped : slotMapped k.machine directory head = true := by simpa using hne
      have hscan : scanPool k.machine directory k.freeStackOffsets.length k.freeStackOffsets =
          (none, head :: rest) := by
        rw [hp, List.length_cons]
        exact scanPool_stuck hmapped (rest.length + 1) rest
      rcases takeSlot_of_none hscan with hnone | hsucc
      · rw [hnone] at htake
        cases htake
      · omega
    refine ⟨head, rest, hp, fun hs => ?_, hhead⟩
    -- A head `UINT32_MAX` that is not mapped is missing from the pool afterwards.
    subst hs
    have hslot := takeSlot_ne_noSlot htake
    have hlost : (takeSlot k directory).2.freeStackOffsets.count noSlot ≤ rest.count noSlot := by
      rw [takeSlot_pool, hp, List.length_cons, scanPool_lost hhead]
      exact scanPool_count ..
    have hcount := hperm.count_eq noSlot
    rw [hpool, hp] at hcount
    split at hcount
    · rw [List.count_erase_of_ne hslot.symm, List.count_cons_self] at hcount
      omega
    · rw [htake, Option.toList_some, List.singleton_append, List.count_cons_of_ne hslot,
        List.count_cons_self] at hcount
      omega

/-- The call reuses a slot of the pool, if one is not mapped in the directory, exactly when the head
of the pool is one. -/
theorem reuses_iff (k : Kernel) (t directory : Nat) :
    ((∃ slot ∈ k.freeStackOffsets, slotMapped k.machine directory slot = false) →
        Reuses k t directory) ↔
      (∀ slot ∈ k.freeStackOffsets, slotMapped k.machine directory slot = true) ∨
        HeadUnmapped k directory := by
  constructor
  · intro h
    by_cases hall : ∀ slot ∈ k.freeStackOffsets, slotMapped k.machine directory slot = true
    · exact .inl hall
    · push Not at hall
      obtain ⟨slot, hmem, hm⟩ := hall
      exact .inr (head_of_reuses (h ⟨slot, hmem, by simpa using hm⟩))
  · rintro (hall | hhead) ⟨slot, hmem, hm⟩
    · rw [hall slot hmem] at hm
      cases hm
    · exact reuses_of_head hhead

/-! ### A pool with a mapped head -/

/-- A directory at `0x1000` that maps one page, the topmost of slot 0. -/
def oneStackPage : Machine :=
  { pmm := eightFrames.pmm
    mem := words fun k => if k = 0x400 + 767 then 0x2007 else if k = 0x800 + 0x3FF then 0x3007 else 0
    kernelPageDirectory := 0x4000, log := [] }

/-- Slot 0 is at the head of the pool, slot 1 behind it; two slots were used so far. -/
def twoPooled : Kernel :=
  { Kernel.boot oneStackPage tenStacks with freeStackOffsets := [0, 1], nextStackSlotIdx := 2 }

theorem twoPooled_mapped : slotMapped oneStackPage 0x1000 0 = true ∧
    slotMapped oneStackPage 0x1000 1 = false := by
  constructor <;> decide +kernel

/-- Slot 1 is not mapped, but the call takes slot 2 from the counter. -/
theorem pooled_slot_missed :
    (∃ slot ∈ twoPooled.freeStackOffsets, slotMapped twoPooled.machine 0x1000 slot = false) ∧
      (takeSlot twoPooled 0x1000).1 = some 2 ∧ ¬ Reuses twoPooled 1 0x1000 := by
  refine ⟨⟨1, by decide, twoPooled_mapped.2⟩, ?_, fun h => ?_⟩
  · have hscan : scanPool twoPooled.machine 0x1000 2 [0, 1] = (none, [0, 1]) :=
      scanPool_stuck twoPooled_mapped.1 2 [1]
    show (takeSlot twoPooled 0x1000).1 = _
    unfold takeSlot
    rw [show scanPool twoPooled.machine 0x1000 twoPooled.freeStackOffsets.length
      twoPooled.freeStackOffsets = (none, [0, 1]) from hscan]
    rfl
  · obtain ⟨head, rest, hp, -, hm⟩ := head_of_reuses h
    cases hp
    rw [show slotMapped twoPooled.machine 0x1000 0 = true from twoPooled_mapped.1] at hm
    cases hm

end Sched
end Hashx86
