import Hashx86.Lib.Ledger
import Hashx86.Lib.Run
import Hashx86.Sched.Run

/-!
# The user-stack slots are conserved

`SlotsOk k` says that each slot below `g_nextStackSlotIdx` is once in `g_freeStackOffsets` or owned
by one thread (a `Ledger`), with what keeps it so: a terminated thread owns no slot, and neither
does a thread without a process. Every function of the scheduler keeps it, whatever it does to
memory and whether it succeeds or not (`slotsOk_step`). `slots_run` is the result for whole runs.
-/

namespace Hashx86
namespace Sched

open Lib Kstack

/-- The slot of a thread. -/
def Tcb.slot (tcb : Tcb) : Option Nat :=
  if tcb.stackSlotIdx = noSlot then none else some tcb.stackSlotIdx

/-- The slot of the thread at `t`. -/
def Kernel.slotOf (k : Kernel) (t : Nat) : Option Nat := (k.tcbs t).bind Tcb.slot

structure SlotsOk (k : Kernel) : Prop where
  ledger : Ledger (· < k.nextStackSlotIdx) k.freeStackOffsets k.slotOf
  next_le : k.nextStackSlotIdx ≤ 5631
  orphan : ∀ t tcb, k.tcbs t = some tcb → tcb.parent = none → tcb.stackSlotIdx = noSlot
  retired : ∀ t tcb, k.tcbs t = some tcb → tcb.state = .terminated → tcb.stackSlotIdx = noSlot
  deferred : ∀ p pcb, k.pcbs p = some pcb → pcb.deferredStackSlots = []
  pending : ∀ t ∈ k.pendingReclaims, ∃ tcb, k.tcbs t = some tcb ∧ tcb.state = .terminated
  running : k.pendingReclaims ≠ [] → k.currentThread = none
  zone : ZoneOk k.zone

/-- Thread `t` is live and owns slot `s`. -/
def Owns (k : Kernel) (t s : Nat) : Prop :=
  ∃ tcb, k.tcbs t = some tcb ∧ tcb.state ≠ .terminated ∧ tcb.stackSlotIdx = s

/-- Every slot below `g_nextStackSlotIdx` is once in the pool, or owned by one live thread. -/
def SlotsConserved (k : Kernel) : Prop :=
  ∀ s, s < k.nextStackSlotIdx →
    (k.freeStackOffsets.count s = 1 ∧ ∀ t, ¬ Owns k t s) ∨
    (k.freeStackOffsets.count s = 0 ∧ ∃! t, Owns k t s)

theorem Tcb.slot_eq_some {tcb : Tcb} {s : Nat} (hs : s ≠ noSlot) :
    tcb.slot = some s ↔ tcb.stackSlotIdx = s := by
  unfold Tcb.slot
  split
  · rename_i h
    rw [h]
    constructor
    · rintro ⟨⟩
    · exact fun e => absurd e.symm hs
  · exact ⟨Option.some.inj, congrArg some⟩

theorem SlotsOk.owns_iff {k : Kernel} (h : SlotsOk k) {t s : Nat} (hs : s ≠ noSlot) :
    Owns k t s ↔ k.slotOf t = some s := by
  unfold Owns Kernel.slotOf
  rw [Option.bind_eq_some_iff]
  constructor
  · rintro ⟨tcb, ht, -, hsl⟩
    exact ⟨tcb, ht, (Tcb.slot_eq_some hs).mpr hsl⟩
  · rintro ⟨tcb, ht, hsl⟩
    rw [Tcb.slot_eq_some hs] at hsl
    exact ⟨tcb, ht, fun hst => hs (hsl.symm.trans (h.retired t tcb ht hst)), hsl⟩

/-- The pool holds slots only. -/
theorem SlotsOk.noSlot_not_pooled {k : Kernel} (h : SlotsOk k) : noSlot ∉ k.freeStackOffsets := by
  intro hm
  have := h.ledger.pool_issued _ hm
  have := h.next_le
  unfold noSlot at *
  omega

theorem SlotsOk.conserved {k : Kernel} (h : SlotsOk k) : SlotsConserved k := by
  intro s hs
  have hne : s ≠ noSlot := by
    have := h.next_le
    unfold noSlot
    omega
  have howns := fun t => h.owns_iff (t := t) hne
  simp only [howns]
  exact h.ledger.exactly_one hs

/-! ## Updates that the slots do not see -/

theorem slotOf_update {k k' : Kernel} {t : Nat} {x : Option Tcb}
    (h : k'.tcbs = Function.update k.tcbs t x) :
    k'.slotOf = Function.update k.slotOf t (x.bind Tcb.slot) := by
  funext u
  unfold Kernel.slotOf
  rw [h]
  by_cases hu : u = t
  · subst hu
    simp
  · simp [hu]

/-- The slots do not see queues, memory, the clock or the thread that runs. -/
theorem SlotsOk.congr {k k' : Kernel} (h : SlotsOk k) (ht : k'.tcbs = k.tcbs)
    (hd : ∀ p pcb, k'.pcbs p = some pcb → pcb.deferredStackSlots = [])
    (hp : k'.freeStackOffsets = k.freeStackOffsets) (hn : k'.nextStackSlotIdx = k.nextStackSlotIdx)
    (hpend : k'.pendingReclaims = k.pendingReclaims)
    (hrun : k'.pendingReclaims ≠ [] → k'.currentThread = none) (hz : ZoneOk k'.zone) :
    SlotsOk k' where
  ledger := by
    have hs : k'.slotOf = k.slotOf := funext fun t => by unfold Kernel.slotOf; rw [ht]
    rw [hp, hn, hs]
    exact h.ledger
  next_le := hn ▸ h.next_le
  orphan := ht ▸ h.orphan
  retired := ht ▸ h.retired
  deferred := hd
  pending := by rw [hpend, ht]; exact h.pending
  running := hrun
  zone := hz

/-- A change to a live thread that keeps its slot and its parent. -/
theorem SlotsOk.modTcb {k : Kernel} (h : SlotsOk k) (t : Nat) (f : Tcb → Tcb)
    (hslot : ∀ tcb, (f tcb).stackSlotIdx = tcb.stackSlotIdx)
    (hpar : ∀ tcb, (f tcb).parent = tcb.parent)
    (hst : ∀ tcb, k.tcbs t = some tcb → (f tcb).state = .terminated → tcb.state = .terminated)
    (hpend : t ∉ k.pendingReclaims) : SlotsOk (k.modTcb t f) where
  ledger := by
    have hs : (k.modTcb t f).slotOf = k.slotOf := by
      rw [slotOf_update (k := k) rfl]
      refine (congrArg _ ?_).trans (Function.update_eq_self t _)
      unfold Kernel.slotOf
      cases k.tcbs t with
      | none => rfl
      | some tcb => simp only [Option.map_some, Option.bind_some, Tcb.slot, hslot]
    rw [hs]
    exact h.ledger
  next_le := h.next_le
  orphan := by
    intro u tcb hu
    simp only [Kernel.modTcb, Kernel.setTcb] at hu
    by_cases hut : u = t
    · subst hut
      rw [Function.update_self, Option.map_eq_some_iff] at hu
      obtain ⟨tcb', h', rfl⟩ := hu
      rw [hpar, hslot]
      exact h.orphan u tcb' h'
    · rw [Function.update_of_ne hut] at hu
      exact h.orphan u tcb hu
  retired := by
    intro u tcb hu hterm
    simp only [Kernel.modTcb, Kernel.setTcb] at hu
    by_cases hut : u = t
    · subst hut
      rw [Function.update_self, Option.map_eq_some_iff] at hu
      obtain ⟨tcb', h', rfl⟩ := hu
      rw [hslot]
      exact h.retired u tcb' h' (hst tcb' h' hterm)
    · rw [Function.update_of_ne hut] at hu
      exact h.retired u tcb hu hterm
  deferred := h.deferred
  pending := by
    intro u hu
    have hut : u ≠ t := fun e => hpend (e ▸ hu)
    simp only [Kernel.modTcb, Kernel.setTcb, Function.update_of_ne hut]
    exact h.pending u hu
  running := h.running
  zone := h.zone

/-! ## Creation -/

theorem zoneOk_returned {z z' : Zone} (hz : ZoneOk z) (h : Returned z z') : ZoneOk z' := by
  rcases h with rfl | ⟨-, rfl⟩
  · exact hz
  · exact hz

/-- The slots of a kernel in which a slot entered the pool. -/
theorem SlotsOk.issue_ledger {k : Kernel} (h : SlotsOk k) :
    Ledger (· < k.nextStackSlotIdx + 1) (k.nextStackSlotIdx :: k.freeStackOffsets) k.slotOf :=
  (h.ledger.issue (Nat.lt_irrefl _)).congr_issued fun s => by omega

theorem slotsOk_failed {k k' : Kernel} (h : SlotsOk k) (hf : Failed k k') : SlotsOk k' := by
  have hz := zoneOk_returned h.zone (hf.zone h.zone)
  rcases hf.slots h.noSlot_not_pooled with ⟨hp, hn⟩ | ⟨hp, hn, hlt⟩
  · exact h.congr hf.tcbs (hf.pcbs ▸ h.deferred) hp hn hf.pending
      (by rw [hf.pending, hf.current]; exact h.running) hz
  · have hs : k'.slotOf = k.slotOf := funext fun t => by unfold Kernel.slotOf; rw [hf.tcbs]
    refine ⟨?_, by omega, hf.tcbs ▸ h.orphan, hf.tcbs ▸ h.retired, hf.pcbs ▸ h.deferred, ?_, ?_, hz⟩
    · rw [hs, hp, hn]
      exact h.issue_ledger
    · rw [hf.pending, hf.tcbs]
      exact h.pending
    · rw [hf.pending, hf.current]
      exact h.running

theorem slotOf_fresh {k : Kernel} {t : Nat} (h : k.tcbs t = none) : k.slotOf t = none := by
  unfold Kernel.slotOf
  rw [h]
  rfl

/-- A new thread takes no slot, one of the pool, or a new one. -/
theorem SlotsOk.ledger_moved {k k' : Kernel} (h : SlotsOk k) {t : Nat} {tcb : Tcb}
    (hnone : k.slotOf t = none) (ht : k'.tcbs = Function.update k.tcbs t (some tcb))
    (hm : SlotMoved k k' tcb.stackSlotIdx) :
    Ledger (· < k'.nextStackSlotIdx) k'.freeStackOffsets k'.slotOf ∧ k'.nextStackSlotIdx ≤ 5631 := by
  have hle := h.next_le
  rw [slotOf_update ht, Option.bind_some]
  rcases hm with ⟨hs, hp, hn⟩ | htaken
  · have hslot : tcb.slot = none := if_pos hs
    rw [hslot, hp, hn, ← hnone, Function.update_eq_self]
    exact ⟨h.ledger, hle⟩
  rcases htaken h.noSlot_not_pooled with ⟨hp, hn⟩ | ⟨hs, hp, hn, hlt⟩
  · have hl := h.ledger
    rw [hp] at hl
    have hlt := hl.pool_issued _ List.mem_cons_self
    have hslot : tcb.slot = some tcb.stackSlotIdx := if_neg (by unfold noSlot; omega)
    rw [hslot, hn]
    exact ⟨hl.take hnone, hle⟩
  · have hslot : tcb.slot = some tcb.stackSlotIdx := if_neg (by unfold noSlot; omega)
    rw [hslot, hp, hn, hs]
    exact ⟨h.issue_ledger.take hnone, by omega⟩

theorem slotsOk_spawned {k k' : Kernel} {p t : Nat} (h : SlotsOk k) (hs : Spawned k k' p t) :
    SlotsOk k' := by
  obtain ⟨tcb, ht, hst, hpar, hm⟩ := hs.tcbs
  obtain ⟨hl, hle⟩ := h.ledger_moved (slotOf_fresh hs.fresh) ht hm
  have hother : ∀ u x, k'.tcbs u = some x → (u = t ∧ x = tcb) ∨ (u ≠ t ∧ k.tcbs u = some x) := by
    intro u x hu
    rw [ht] at hu
    by_cases hut : u = t
    · subst hut
      rw [Function.update_self] at hu
      exact .inl ⟨rfl, (Option.some.inj hu).symm⟩
    · rw [Function.update_of_ne hut] at hu
      exact .inr ⟨hut, hu⟩
  refine ⟨hl, hle, ?_, ?_, ?_, ?_, ?_, ?_⟩
  · intro u x hu hp
    rcases hother u x hu with ⟨-, rfl⟩ | ⟨-, hu⟩
    · rw [hpar] at hp; cases hp
    · exact h.orphan u x hu hp
  · intro u x hu hterm
    rcases hother u x hu with ⟨-, rfl⟩ | ⟨-, hu⟩
    · rw [hst] at hterm; cases hterm
    · exact h.retired u x hu hterm
  · intro q x hq
    obtain ⟨pcb, hp, hpcbs⟩ := hs.pcbs
    rw [hpcbs] at hq
    by_cases hqp : q = p
    · subst hqp
      rw [Function.update_self] at hq
      obtain rfl := Option.some.inj hq
      exact h.deferred q pcb hp
    · rw [Function.update_of_ne hqp] at hq
      exact h.deferred q x hq
  · intro u hu
    rw [hs.pending] at hu
    obtain ⟨x, hx, hterm⟩ := h.pending u hu
    have hut : u ≠ t := fun e => by rw [e, hs.fresh] at hx; cases hx
    exact ⟨x, by rw [ht, Function.update_of_ne hut, hx], hterm⟩
  · rw [hs.pending, hs.current]
    exact h.running
  · rw [hs.zone]
    exact zoneOk_kstackAlloc h.zone

theorem slotsOk_addedProcess {k k' : Kernel} {p : Nat} (h : SlotsOk k) (ha : AddedProcess k k' p) :
    SlotsOk k' := by
  obtain ⟨pcb, hpcbs, -, hd⟩ := ha.pcbs
  refine h.congr ha.tcbs ?_ ha.pool ha.next ha.pending ?_ (ha.zone ▸ h.zone)
  · intro q x hq
    rw [hpcbs] at hq
    by_cases hqp : q = p
    · subst hqp
      rw [Function.update_self] at hq
      obtain rfl := Option.some.inj hq
      exact hd
    · rw [Function.update_of_ne hqp] at hq
      exact h.deferred q x hq
  · rw [ha.pending, ha.current]
    exact h.running

/-- A thread without a process: the idle thread. -/
theorem slotsOk_withThread {k : Kernel} (h : SlotsOk k) {t : Nat} (hfree : k.tcbs t = none)
    (context : CpuState) : SlotsOk (k.withThread t (freshTcb k none 0 noSlot context)) := by
  obtain ⟨k', hk'⟩ : ∃ k', k' = k.withThread t (freshTcb k none 0 noSlot context) := ⟨_, rfl⟩
  obtain ⟨hl, hle⟩ := h.ledger_moved (slotOf_fresh hfree) (congrArg Kernel.tcbs hk')
    (.inl ⟨rfl, by rw [hk']; rfl, by rw [hk']; rfl⟩)
  subst hk'
  have hother : ∀ u x, (k.withThread t (freshTcb k none 0 noSlot context)).tcbs u = some x →
      x = freshTcb k none 0 noSlot context ∨ k.tcbs u = some x := by
    intro u x hu
    change Function.update k.tcbs t _ u = some x at hu
    by_cases hut : u = t
    · subst hut
      rw [Function.update_self] at hu
      exact .inl (Option.some.inj hu).symm
    · rw [Function.update_of_ne hut] at hu
      exact .inr hu
  refine ⟨hl, hle, ?_, ?_, h.deferred, ?_, h.running, zoneOk_kstackAlloc h.zone⟩
  · intro u x hu hp
    rcases hother u x hu with rfl | hu
    · rfl
    · exact h.orphan u x hu hp
  · intro u x hu hterm
    rcases hother u x hu with rfl | hu
    · rfl
    · exact h.retired u x hu hterm
  · intro u hu
    obtain ⟨x, hx, hterm⟩ := h.pending u hu
    have hut : u ≠ t := fun e => by rw [e, hfree] at hx; cases hx
    exact ⟨x, (Function.update_of_ne hut _ _).trans hx, hterm⟩

/-! ## Termination -/

theorem slotsOk_terminated {k k' : Kernel} {t : Nat} {tcb : Tcb} (h : SlotsOk k)
    (ht : k.tcbs t = some tcb) (hs : tcb.state ≠ .terminated) (hk : Terminated k k' t tcb) :
    SlotsOk k' := by
  have hpend : t ∉ k.pendingReclaims := fun hm => by
    obtain ⟨x, hx, hterm⟩ := h.pending t hm
    rw [ht] at hx
    exact hs (Option.some.inj hx ▸ hterm)
  have hdead : ∀ s, tcb.dead.stackSlotIdx = s → s = noSlot := fun s e => by
    unfold Tcb.dead at e
    dsimp only at e
    split at e
    · rename_i hp
      rw [← e, h.orphan t tcb ht hp]
    · exact e.symm
  have hnew : ∀ x, (if k.currentThread = some t then some tcb.dead else none) = some x →
      x = tcb.dead := fun x hx => by
    split at hx
    · exact (Option.some.inj hx).symm
    · cases hx
  have hother : ∀ u x, k'.tcbs u = some x → x = tcb.dead ∨ k.tcbs u = some x := by
    intro u x hu
    rw [hk.tcbs] at hu
    by_cases hut : u = t
    · subst hut
      rw [Function.update_self] at hu
      exact .inl (hnew x hu)
    · rw [Function.update_of_ne hut] at hu
      exact .inr hu
  have howner : k'.slotOf = Function.update k.slotOf t none := by
    rw [slotOf_update hk.tcbs]
    congr 1
    split
    · exact if_pos (hdead _ rfl)
    · rfl
  refine ⟨?_, by rw [hk.next]; exact h.next_le, ?_, ?_, ?_, ?_, ?_, hk.zone h.zone⟩
  · rw [howner, hk.pool, hk.next]
    unfold Tcb.givenBack
    split
    · rename_i hnone
      have hslot : tcb.stackSlotIdx = noSlot := hnone.elim (h.orphan t tcb ht) id
      have hown : k.slotOf t = none := by
        unfold Kernel.slotOf
        rw [ht]
        exact if_pos hslot
      rw [← hown, Function.update_eq_self]
      exact h.ledger
    · rename_i hsome
      refine h.ledger.give ?_
      unfold Kernel.slotOf
      rw [ht]
      exact if_neg fun e => hsome (.inr e)
  · intro u x hu hp
    rcases hother u x hu with rfl | hu
    · exact hdead _ rfl
    · exact h.orphan u x hu hp
  · intro u x hu hterm
    rcases hother u x hu with rfl | hu
    · exact hdead _ rfl
    · exact h.retired u x hu hterm
  · intro q x hq
    rw [hk.pcbs] at hq
    cases hp : tcb.parent with
    | none =>
      rw [hp] at hq
      exact h.deferred q x hq
    | some p =>
      rw [hp] at hq
      dsimp only at hq
      by_cases hqp : q = p
      · subst hqp
        rw [Function.update_self, Option.map_eq_some_iff] at hq
        obtain ⟨pcb, hpcb, rfl⟩ := hq
        exact h.deferred q pcb hpcb
      · rw [Function.update_of_ne hqp] at hq
        exact h.deferred q x hq
  · intro u hu
    rw [hk.pending] at hu
    by_cases hut : u = t
    · subst hut
      split at hu
      · rename_i hc
        exact ⟨tcb.dead, by rw [hk.tcbs, Function.update_self, if_pos hc], rfl⟩
      · exact absurd hu hpend
    · have hu' : u ∈ k.pendingReclaims := by
        split at hu
        · simpa [hut] using hu
        · exact hu
      obtain ⟨x, hx, hterm⟩ := h.pending u hu'
      exact ⟨x, by rw [hk.tcbs, Function.update_of_ne hut, hx], hterm⟩
  · rw [hk.pending, hk.current]
    split
    · exact fun _ => rfl
    · exact h.running

theorem slotsOk_terminateThread {k : Kernel} (h : SlotsOk k) (t : Nat) :
    SlotsOk (terminateThread k t) := by
  cases ht : k.tcbs t with
  | none =>
    unfold terminateThread
    rw [ht]
    exact h
  | some tcb =>
    by_cases hs : tcb.state = .terminated
    · unfold terminateThread
      rw [ht]
      dsimp only
      rw [if_pos hs]
      exact h
    · exact slotsOk_terminated h ht hs (terminateThread_spec ht hs)

/-- A store to a PCB that leaves its deferred slots empty. -/
theorem SlotsOk.modPcb {k : Kernel} (h : SlotsOk k) (p : Nat) (f : Pcb → Pcb)
    (hf : ∀ pcb, (f pcb).deferredStackSlots = pcb.deferredStackSlots) : SlotsOk (k.modPcb p f) := by
  refine h.congr rfl ?_ rfl rfl rfl h.running h.zone
  intro q x hq
  simp only [Kernel.modPcb, Kernel.setPcb] at hq
  by_cases hqp : q = p
  · subst hqp
    rw [Function.update_self, Option.map_eq_some_iff] at hq
    obtain ⟨pcb, hpcb, rfl⟩ := hq
    rw [hf]
    exact h.deferred q pcb hpcb
  · rw [Function.update_of_ne hqp] at hq
    exact h.deferred q x hq

theorem slotsOk_killThreads {k : Kernel} (h : SlotsOk k) (p n : Nat) :
    SlotsOk (killThreads k p n) := by
  induction n generalizing k with
  | zero => exact h
  | succ n ih =>
    unfold killThreads
    split
    · exact ih h
    · refine ih (slotsOk_terminateThread ?_ _)
      exact h.modPcb p _ fun _ => rfl

theorem slotsOk_killProcess {k : Kernel} (h : SlotsOk k) (pid : Nat) :
    SlotsOk (killProcess k pid).2 := by
  unfold killProcess
  generalize killScan k pid k.globalProcessList.length k.globalProcessList = scan
  obtain ⟨target, list⟩ := scan
  dsimp only
  cases target with
  | none => exact h.congr rfl h.deferred rfl rfl rfl h.running h.zone
  | some p =>
    dsimp only
    cases hp : k.pcbs p with
    | none => exact h.congr rfl h.deferred rfl rfl rfl h.running h.zone
    | some target =>
      dsimp only
      generalize hk₁ : (if target.pageDirectory = k.cr3 then
        ({ k with globalProcessList := list, cr3 := k.machine.kernelPageDirectory } : Kernel)
        else { k with globalProcessList := list }) = k₁
      have h₁ : SlotsOk k₁ := by
        subst hk₁
        split <;> exact h.congr rfl h.deferred rfl rfl rfl h.running h.zone
      have h₂ := slotsOk_killThreads h₁ p target.threads.length
      generalize killThreads k₁ p target.threads.length = k₂ at h₂
      rw [h.deferred p target hp, List.reverse_nil, List.nil_append]
      have hforget : ∀ m list, SlotsOk
          (({ k₂ with machine := m, globalProcessList := list } : Kernel).setPcb p none) := fun m list => by
        refine h₂.congr rfl ?_ rfl rfl rfl h₂.running h₂.zone
        intro q x hq
        simp only [Kernel.setPcb] at hq
        by_cases hqp : q = p
        · subst hqp
          rw [Function.update_self] at hq
          cases hq
        · rw [Function.update_of_ne hqp] at hq
          exact h₂.deferred q x hq
      split
      · exact hforget k₂.machine _
      · exact hforget _ _

theorem slotsOk_exitCurrentThread {k : Kernel} (h : SlotsOk k) :
    SlotsOk (exitCurrentThread k).2 := by
  unfold exitCurrentThread
  split
  · exact h
  split
  · exact h
  split
  · exact slotsOk_terminateThread h _
  split
  · exact h
  dsimp only
  generalize countActive k _ _ = counted
  have hk : ∀ p threads, SlotsOk (k.modPcb p fun pcb => { pcb with threads := threads }) :=
    fun p threads => h.modPcb p _ fun _ => rfl
  split
  · exact slotsOk_killProcess (hk _ _) _
  · exact slotsOk_terminateThread (hk _ _) _

/-! ## Sleep, wake and the context switch -/

/-- The thread that runs is not waiting to be reclaimed. -/
theorem SlotsOk.current_not_pending {k : Kernel} (h : SlotsOk k) {cur : Nat}
    (hc : k.currentThread = some cur) : cur ∉ k.pendingReclaims := fun hm => by
  have := h.running (List.ne_nil_of_mem hm)
  rw [hc] at this
  cases this

theorem slotsOk_sleep {k : Kernel} (h : SlotsOk k) (ms : Nat) : SlotsOk (sleep k ms) := by
  unfold sleep
  split
  · exact h
  · rename_i cur hc
    exact h.modTcb cur _ (fun _ => rfl) (fun _ => rfl) (fun _ _ hst => by cases hst)
      (h.current_not_pending hc)

theorem slotsOk_wakeThread {k : Kernel} (h : SlotsOk k) (t : Nat) : SlotsOk (wakeThread k t) := by
  unfold wakeThread
  split
  · exact h
  · rename_i tcb ht
    split
    · exact h
    · rename_i hb
      have hpend : t ∉ k.pendingReclaims := fun hm => by
        obtain ⟨x, hx, hterm⟩ := h.pending t hm
        rw [ht] at hx
        obtain rfl := Option.some.inj hx
        exact hb (by rw [hterm]; decide)
      have hm := h.modTcb t Tcb.awake (fun _ => rfl) (fun _ => rfl) (fun _ _ hst => by cases hst) hpend
      exact hm.congr rfl hm.deferred rfl rfl rfl hm.running hm.zone

theorem slotsOk_saveCurrent {k : Kernel} (h : SlotsOk k) (context : CpuState) :
    SlotsOk (saveCurrent k context) := by
  unfold saveCurrent
  split
  · exact h
  · rename_i cur hc
    have hpend := h.current_not_pending hc
    have h₁ : SlotsOk (k.modTcb cur fun tcb => { tcb with context := context }) :=
      h.modTcb cur _ (fun _ => rfl) (fun _ => rfl) (fun _ _ hst => hst) hpend
    dsimp only
    split
    · split
      · exact h₁
      · have h₂ : SlotsOk ((k.modTcb cur fun tcb => { tcb with context := context }).modTcb cur
            fun tcb => { tcb with state := .ready }) :=
          h₁.modTcb cur _ (fun _ => rfl) (fun _ => rfl) (fun _ _ hst => by cases hst) hpend
        exact h₂.congr rfl h₂.deferred rfl rfl rfl h₂.running h₂.zone
    · exact h₁.congr rfl h₁.deferred rfl rfl rfl h₁.running h₁.zone
    · exact h₁.congr rfl h₁.deferred rfl rfl rfl h₁.running h₁.zone
    · exact h₁

theorem slotsOk_wakeDue {k : Kernel} (h : SlotsOk k) (n : Nat) : SlotsOk (wakeDue k n) := by
  induction n generalizing k with
  | zero => exact h
  | succ n ih =>
    unfold wakeDue
    split
    · exact h
    · rename_i t rest hq
      split
      · rename_i hdue
        have hpend : t ∉ k.pendingReclaims := fun hm => by
          obtain ⟨x, hx, hterm⟩ := h.pending t hm
          rw [hx] at hdue
          simp [Tcb.due, hterm] at hdue
        have h₁ := h.modTcb t Tcb.awake (fun _ => rfl) (fun _ => rfl) (fun _ _ hst => by cases hst) hpend
        exact ih (h₁.congr rfl h₁.deferred rfl rfl rfl h₁.running h₁.zone)
      · exact ih (h.congr rfl h.deferred rfl rfl rfl h.running h.zone)

/-- The slots between the choice of the next thread and the end of `Schedule`: a thread that waits
to be reclaimed may be marked as running, but it owns no slot. -/
structure Switching (k : Kernel) : Prop where
  ledger : Ledger (· < k.nextStackSlotIdx) k.freeStackOffsets k.slotOf
  next_le : k.nextStackSlotIdx ≤ 5631
  orphan : ∀ t tcb, k.tcbs t = some tcb → tcb.parent = none → tcb.stackSlotIdx = noSlot
  retired : ∀ t tcb, k.tcbs t = some tcb → tcb.state = .terminated → tcb.stackSlotIdx = noSlot
  deferred : ∀ p pcb, k.pcbs p = some pcb → pcb.deferredStackSlots = []
  pending : ∀ t ∈ k.pendingReclaims, ∀ tcb, k.tcbs t = some tcb → tcb.stackSlotIdx = noSlot
  zone : ZoneOk k.zone

theorem SlotsOk.switching {k : Kernel} (h : SlotsOk k) : Switching k :=
  ⟨h.ledger, h.next_le, h.orphan, h.retired, h.deferred, fun t ht tcb htcb => by
    obtain ⟨x, hx, hterm⟩ := h.pending t ht
    rw [htcb] at hx
    obtain rfl := Option.some.inj hx
    exact h.retired t _ htcb hterm, h.zone⟩

/-- A thread starts to run. -/
theorem Switching.run {k : Kernel} (h : Switching k) (t : Nat) (current : Option Nat)
    (ready : List Nat) (cr3 : Nat) :
    Switching { k.modTcb t fun tcb => { tcb with state := .running } with
      currentThread := current, readyQueue := ready, cr3 := cr3 } := by
  have hold : ∀ u x, Function.update k.tcbs t
      ((k.tcbs t).map fun tcb => { tcb with state := .running }) u = some x →
      ∃ y, k.tcbs u = some y ∧ x.stackSlotIdx = y.stackSlotIdx ∧ x.parent = y.parent ∧
        (x.state = .terminated → y.state = .terminated) := by
    intro u x hu
    by_cases hut : u = t
    · subst hut
      rw [Function.update_self, Option.map_eq_some_iff] at hu
      obtain ⟨y, hy, rfl⟩ := hu
      exact ⟨y, hy, rfl, rfl, fun e => by cases e⟩
    · rw [Function.update_of_ne hut] at hu
      exact ⟨x, hu, rfl, rfl, id⟩
  have howner : ({ k.modTcb t fun tcb => { tcb with state := .running } with
      currentThread := current, readyQueue := ready, cr3 := cr3 } : Kernel).slotOf = k.slotOf := by
    rw [slotOf_update (k := k) rfl]
    refine (congrArg _ ?_).trans (Function.update_eq_self t _)
    unfold Kernel.slotOf
    cases k.tcbs t <;> rfl
  refine ⟨howner ▸ h.ledger, h.next_le, ?_, ?_, h.deferred, ?_, h.zone⟩
  · intro u x hu hp
    obtain ⟨y, hy, h1, h2, -⟩ := hold u x hu
    rw [h1]
    exact h.orphan u y hy (h2 ▸ hp)
  · intro u x hu hterm
    obtain ⟨y, hy, h1, -, h3⟩ := hold u x hu
    rw [h1]
    exact h.retired u y hy (h3 hterm)
  · intro u hm x hu
    obtain ⟨y, hy, h1, -, -⟩ := hold u x hu
    rw [h1]
    exact h.pending u hm y hy

/-- A reclaimed thread is deleted: it owned no slot. -/
theorem Switching.drop {k : Kernel} (h : Switching k) {t : Nat} {rest : List Nat}
    (hq : k.pendingReclaims = t :: rest) :
    Switching ({ k with pendingReclaims := rest }.dropThread t) := by
  have hpend : ∀ u ∈ rest, ∀ tcb, k.tcbs u = some tcb → tcb.stackSlotIdx = noSlot := fun u hu =>
    h.pending u (by rw [hq]; exact List.mem_cons_of_mem t hu)
  unfold Kernel.dropThread
  dsimp only
  cases ht : k.tcbs t with
  | none => exact ⟨h.ledger, h.next_le, h.orphan, h.retired, h.deferred, hpend, h.zone⟩
  | some tcb =>
    dsimp only
    have hnone : k.slotOf t = none := by
      unfold Kernel.slotOf
      rw [ht]
      exact if_pos (h.pending t (by rw [hq]; exact List.mem_cons_self) tcb ht)
    have hold : ∀ u x, Function.update k.tcbs t none u = some x → k.tcbs u = some x := by
      intro u x hu
      by_cases hut : u = t
      · subst hut
        rw [Function.update_self] at hu
        cases hu
      · rwa [Function.update_of_ne hut] at hu
    refine ⟨?_, h.next_le, fun u x hu => h.orphan u x (hold u x hu),
      fun u x hu => h.retired u x (hold u x hu), h.deferred,
      fun u hm x hu => hpend u hm x (hold u x hu), zoneOk_kstackFree h.zone _⟩
    have howner : ((({ k with pendingReclaims := rest } : Kernel).kstackFree tcb.stack).setTcb t
        none).slotOf = k.slotOf := by
      rw [slotOf_update (k := k) (t := t) (x := none) rfl, Option.bind_none, ← hnone,
        Function.update_eq_self]
    rw [howner]
    exact h.ledger

theorem Switching.drain {k : Kernel} (h : Switching k) {n : Nat} (hn : n = k.pendingReclaims.length) :
    SlotsOk (drainPendingReclaims k n) := by
  induction n generalizing k with
  | zero =>
    have hnil := List.length_eq_zero_iff.mp hn.symm
    refine ⟨h.ledger, h.next_le, h.orphan, h.retired, h.deferred, ?_, ?_, h.zone⟩
    · intro t ht
      change t ∈ k.pendingReclaims at ht
      rw [hnil] at ht
      cases ht
    · exact fun hne => absurd hnil hne
  | succ n ih =>
    unfold drainPendingReclaims
    cases hq : k.pendingReclaims with
    | nil => rw [hq] at hn; cases hn
    | cons t rest =>
      refine ih (h.drop hq) ?_
      rw [hq, List.length_cons] at hn
      have : ({ k with pendingReclaims := rest }.dropThread t).pendingReclaims = rest := by
        unfold Kernel.dropThread
        split <;> rfl
      rw [this]
      omega

theorem slotsOk_schedule {k : Kernel} (h : SlotsOk k) (context : CpuState) :
    SlotsOk (schedule k context) := by
  have h₁ := (slotsOk_wakeDue (slotsOk_saveCurrent h context)
    (saveCurrent k context).blockedQueue.length).switching
  unfold schedule
  dsimp only
  generalize wakeDue (saveCurrent k context) (saveCurrent k context).blockedQueue.length = k₁ at h₁
  refine Switching.drain ?_ rfl
  cases hq : k₁.readyQueue with
  | nil =>
    dsimp only
    unfold switchDirectory
    split
    · exact h₁.run k₁.idleThread _ k₁.readyQueue k₁.cr3
    · exact h₁.run k₁.idleThread _ k₁.readyQueue _
  | cons t rest =>
    dsimp only
    unfold dispatch
    dsimp only
    split
    · exact h₁.run t _ rest k₁.cr3
    · unfold switchDirectory
      split
      · exact h₁.run t _ rest k₁.cr3
      · exact h₁.run t _ rest _

/-! ## Runs -/

theorem slotsOk_createThread {k : Kernel} (h : SlotsOk k) (threadExit ptr : Nat)
    (parent : Option Nat) (entrypoint arg : Nat) :
    SlotsOk (createThread threadExit k ptr parent entrypoint arg).2 := by
  rcases createThread_cases threadExit k ptr parent entrypoint arg with
    ⟨k', e, hf⟩ | ⟨-, hfree, context, e⟩ | ⟨p, k', -, e, hs⟩
  · rw [e]; exact slotsOk_failed h hf
  · rw [e]; exact slotsOk_withThread h hfree context
  · rw [e]; exact slotsOk_spawned h hs

/-- Every call keeps the slots, whatever the memory is. -/
theorem slotsOk_step {k : Kernel} (h : SlotsOk k) (threadExit : Nat) (op : Op) :
    SlotsOk (step threadExit k op) := by
  cases op with
  | createProcess pcbPtr tcbPtr isKernel entrypoint arg main =>
    simp only [step]
    rcases createProcess_cases threadExit k pcbPtr tcbPtr isKernel entrypoint arg main with
      ⟨k', e, hf⟩ | ⟨k₁, k', e, ha, rfl | hs⟩
    · rw [e]; exact slotsOk_failed h hf
    · rw [e]; exact slotsOk_addedProcess h ha
    · rw [e]; exact slotsOk_spawned (slotsOk_addedProcess h ha) hs
  | startProcess p tcbPtr arg =>
    simp only [step]
    unfold startProcess
    split
    · exact h
    split
    · exact h
    · rename_i pcb _ _
      have hc := slotsOk_createThread h threadExit tcbPtr (some p) pcb.mainEntry arg
      split
      · rename_i e; rwa [e] at hc
      · rename_i e; rw [e] at hc; exact slotsOk_killProcess hc _
  | createThread tcbPtr parent entrypoint arg =>
    exact slotsOk_createThread h threadExit tcbPtr parent entrypoint arg
  | cloneCurrentThread tcbPtr args =>
    simp only [step]
    rcases cloneCurrentThread_cases k tcbPtr args with ⟨k', e, hf⟩ | ⟨p, k', e, hs⟩
    · rw [e]; exact slotsOk_failed h hf
    · rw [e]; exact slotsOk_spawned h hs
  | cloneCurrentProcess pcbPtr tcbPtr args =>
    simp only [step]
    rcases cloneCurrentProcess_cases k pcbPtr tcbPtr args with ⟨k', e, hf⟩ | ⟨k₁, k', e, ha, hs⟩
    · rw [e]; exact slotsOk_failed h hf
    · rw [e]; exact slotsOk_spawned (slotsOk_addedProcess h ha) hs
  | sleep ms => exact slotsOk_sleep h ms
  | wakeThread t => exact slotsOk_wakeThread h t
  | terminateThread t => exact slotsOk_terminateThread h t
  | exitCurrentThread => exact slotsOk_exitCurrentThread h
  | killProcess pid => exact slotsOk_killProcess h pid
  | schedule context => exact slotsOk_schedule h context
  | tick ticks => exact h.congr rfl h.deferred rfl rfl rfl h.running h.zone
  | memory m => exact h.congr rfl h.deferred rfl rfl rfl h.running h.zone

/-- A call that fails to create a thread leaves the zone of the kernel stacks as it was: a stack that
was taken is given back, once. -/
def FailureReturns (threadExit : Nat) (k : Kernel) (op : Op) : Prop :=
  created threadExit k op = some none → Returned k.zone (step threadExit k op).zone

theorem failureReturns {k : Kernel} (hz : ZoneOk k.zone) (threadExit : Nat) (op : Op) :
    FailureReturns threadExit k op := by
  intro hc
  cases op with
  | createProcess pcbPtr tcbPtr isKernel entrypoint arg main =>
    simp only [step]
    simp only [created, Option.some.injEq] at hc
    rcases createProcess_cases threadExit k pcbPtr tcbPtr isKernel entrypoint arg main with
      ⟨k', e, hf⟩ | ⟨k₁, k', e, -, -⟩
    · rw [e]; exact hf.zone hz
    · rw [e] at hc; cases hc
  | createThread tcbPtr parent entrypoint arg =>
    simp only [step]
    simp only [created, Option.some.injEq] at hc
    rcases createThread_cases threadExit k tcbPtr parent entrypoint arg with
      ⟨k', e, hf⟩ | ⟨-, -, context, e⟩ | ⟨p, k', -, e, -⟩
    · rw [e]; exact hf.zone hz
    · rw [e] at hc; cases hc
    · rw [e] at hc; cases hc
  | cloneCurrentThread tcbPtr args =>
    simp only [step]
    simp only [created, Option.some.injEq] at hc
    rcases cloneCurrentThread_cases k tcbPtr args with ⟨k', e, hf⟩ | ⟨p, k', e, -⟩
    · rw [e]; exact hf.zone hz
    · rw [e] at hc; cases hc
  | cloneCurrentProcess pcbPtr tcbPtr args =>
    simp only [step]
    simp only [created, Option.some.injEq] at hc
    rcases cloneCurrentProcess_cases k pcbPtr tcbPtr args with ⟨k', e, hf⟩ | ⟨k₁, k', e, -, -⟩
    · rw [e]; exact hf.zone hz
    · rw [e] at hc; cases hc
  | _ => cases hc

/-- The scheduler after its constructor. -/
theorem slotsOk_newScheduler {m : Machine} {zone : Zone} {threadExit idleTask tcbPtr : Nat}
    {k : Kernel} (hz : ZoneOk zone) (h : newScheduler m zone threadExit idleTask tcbPtr = some k) :
    SlotsOk k := by
  unfold newScheduler at h
  dsimp only at h
  split at h
  · cases h
  · generalize hb : ({ Kernel.boot _ zone with trampolinePhys := _ } : Kernel) = b at h
    have hb' : SlotsOk b := by
      subst hb
      refine ⟨Ledger.empty.congr_issued fun r => ?_, Nat.zero_le _, ?_, ?_, ?_, ?_, fun _ => rfl, hz⟩
      · exact iff_of_false (Nat.not_lt_zero r) id
      · rintro t tcb ⟨⟩
      · rintro t tcb ⟨⟩
      · rintro p pcb ⟨⟩
      · rintro t ⟨⟩
    have hc := slotsOk_createThread hb' threadExit tcbPtr none idleTask 0
    split at h
    · cases h
    · rename_i e
      rw [e] at hc
      obtain rfl := Option.some.inj h
      exact hc.congr rfl hc.deferred rfl rfl rfl hc.running hc.zone

end Sched
end Hashx86
