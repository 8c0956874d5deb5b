import Hashx86.Kstack.Spec
import Hashx86.Sched.Switch

/-!
# What the functions of the scheduler can do

One lemma for each function says everything that it can do to the threads, the processes, the
queues, the slots and the kernel-stack zone. What it does to memory is not said here: the results
about queues and slots hold whatever the memory is.

* `Failed`: a creation that failed. The scheduler is as before, the slots are conserved and the
  kernel stack is back.
* `Spawned`: a creation that succeeded.
* `AddedProcess`: a process without threads was added.
* `Terminated`: what `TerminateThread` does to a live thread.
-/

namespace Hashx86
namespace Sched

open Lib Paging Kstack

/-- The two kernels agree on the threads, the processes and the queues. -/
structure SameSched (k k' : Kernel) : Prop where
  tcbs : k'.tcbs = k.tcbs
  pcbs : k'.pcbs = k.pcbs
  ready : k'.readyQueue = k.readyQueue
  blocked : k'.blockedQueue = k.blockedQueue
  terminated : k'.terminatedQueue = k.terminatedQueue
  pending : k'.pendingReclaims = k.pendingReclaims
  current : k'.currentThread = k.currentThread
  idle : k'.idleThread = k.idleThread

theorem SameSched.refl (k : Kernel) : SameSched k k := ⟨rfl, rfl, rfl, rfl, rfl, rfl, rfl, rfl⟩

/-- No slot was taken, but a new one may be in the pool. The pool holds slots only. -/
def SlotsKept (k k' : Kernel) : Prop := noSlot ∉ k.freeStackOffsets →
  (k'.freeStackOffsets = k.freeStackOffsets ∧ k'.nextStackSlotIdx = k.nextStackSlotIdx) ∨
  (k'.freeStackOffsets = k.nextStackSlotIdx :: k.freeStackOffsets ∧
    k'.nextStackSlotIdx = k.nextStackSlotIdx + 1 ∧ k.nextStackSlotIdx < 5631)

theorem SlotsKept.same {k k' : Kernel} (hp : k'.freeStackOffsets = k.freeStackOffsets)
    (hn : k'.nextStackSlotIdx = k.nextStackSlotIdx) : SlotsKept k k' := fun _ => .inl ⟨hp, hn⟩

/-- Slot `s` was taken, from the pool or past the slots used so far. -/
def SlotTaken (k k' : Kernel) (s : Nat) : Prop := noSlot ∉ k.freeStackOffsets →
  (k.freeStackOffsets = s :: k'.freeStackOffsets ∧ k'.nextStackSlotIdx = k.nextStackSlotIdx) ∨
  (s = k.nextStackSlotIdx ∧ k'.freeStackOffsets = k.freeStackOffsets ∧
    k'.nextStackSlotIdx = k.nextStackSlotIdx + 1 ∧ k.nextStackSlotIdx < 5631)

/-- The slot of a new thread: none, or one that was taken. -/
def SlotMoved (k k' : Kernel) (s : Nat) : Prop :=
  (s = noSlot ∧ k'.freeStackOffsets = k.freeStackOffsets ∧
    k'.nextStackSlotIdx = k.nextStackSlotIdx) ∨ SlotTaken k k' s

/-- The zone is as before, or a stack was taken from it and given back, once. -/
def Returned (z z' : Zone) : Prop :=
  z' = z ∨ ((kstackAlloc z).1 ≠ 0 ∧ z' = { z with freed := (kstackAlloc z).1 :: z.freed })

/-- A creation that failed. -/
structure Failed (k k' : Kernel) : Prop extends SameSched k k' where
  slots : SlotsKept k k'
  zone : ZoneOk k.zone → Returned k.zone k'.zone

/-- A creation that succeeded: thread `t` of process `p` is runnable. -/
structure Spawned (k k' : Kernel) (p t : Nat) : Prop where
  fresh : k.tcbs t = none
  pcbs : ∃ pcb, k.pcbs p = some pcb ∧
    k'.pcbs = Function.update k.pcbs p (some { pcb with threads := pcb.threads ++ [t] })
  tcbs : ∃ tcb, k'.tcbs = Function.update k.tcbs t (some tcb) ∧ tcb.state = .ready ∧
    tcb.parent = some p ∧ SlotMoved k k' tcb.stackSlotIdx
  ready : k'.readyQueue = k.readyQueue ++ [t]
  blocked : k'.blockedQueue = k.blockedQueue
  terminated : k'.terminatedQueue = k.terminatedQueue
  pending : k'.pendingReclaims = k.pendingReclaims
  current : k'.currentThread = k.currentThread
  idle : k'.idleThread = k.idleThread
  zone : k'.zone = (kstackAlloc k.zone).2

/-- A process without threads was added. -/
structure AddedProcess (k k' : Kernel) (p : Nat) : Prop where
  fresh : k.pcbs p = none
  pcbs : ∃ pcb, k'.pcbs = Function.update k.pcbs p (some pcb) ∧ pcb.threads = [] ∧
    pcb.deferredStackSlots = []
  tcbs : k'.tcbs = k.tcbs
  ready : k'.readyQueue = k.readyQueue
  blocked : k'.blockedQueue = k.blockedQueue
  terminated : k'.terminatedQueue = k.terminatedQueue
  pending : k'.pendingReclaims = k.pendingReclaims
  current : k'.currentThread = k.currentThread
  idle : k'.idleThread = k.idleThread
  pool : k'.freeStackOffsets = k.freeStackOffsets
  next : k'.nextStackSlotIdx = k.nextStackSlotIdx
  zone : k'.zone = k.zone

/-! ## User stacks -/

/-- In a pool of slots the scan stops at the head, or finds nothing. -/
theorem scanPool_spec (m : Machine) (directory n : Nat) {pool : List Nat} (hp : noSlot ∉ pool) :
    scanPool m directory n pool = (none, pool) ∨
    ∃ s rest, pool = s :: rest ∧ scanPool m directory n pool = (some s, rest) := by
  induction n with
  | zero => exact .inl rfl
  | succ n ih =>
    cases pool with
    | nil => exact .inl rfl
    | cons candidate rest =>
      unfold scanPool
      split
      · exact ih
      · rw [if_neg fun he => hp (List.mem_cons.mpr (.inl he.symm))]
        exact .inr ⟨candidate, rest, rfl, rfl⟩

theorem freshSlot_spec {next s : Nat} (h : freshSlot next = some s) : s = next ∧ next < 5631 := by
  unfold freshSlot at h
  dsimp only at h
  by_cases hc : next * userStackSize % 2 ^ 32 / userStackSize ≠ next ∨
      userStackVirtTop - userStackVirtBottom - userStackSize ≤ next * userStackSize % 2 ^ 32
  · rw [if_pos hc] at h; cases h
  · rw [if_neg hc] at h
    obtain rfl := Option.some.inj h
    have h1 : userStackSize = 0x80000 := rfl
    have h2 : userStackVirtTop - userStackVirtBottom - userStackSize = 0xAFF80000 := rfl
    rw [h2, h1] at hc
    exact ⟨rfl, by omega⟩

/-- The choice of a slot: none is left, the head of the pool, or a new one. -/
theorem takeSlot_cases (k : Kernel) (directory : Nat) :
    (∃ pool, takeSlot k directory = (none, { k with freeStackOffsets := pool }) ∧
      (noSlot ∉ k.freeStackOffsets → pool = k.freeStackOffsets)) ∨
    ∃ s pool next, takeSlot k directory =
        (some s, { k with freeStackOffsets := pool, nextStackSlotIdx := next }) ∧
      SlotTaken k { k with freeStackOffsets := pool, nextStackSlotIdx := next } s := by
  have hspec := @scanPool_spec k.machine directory k.freeStackOffsets.length k.freeStackOffsets
  unfold takeSlot
  generalize scanPool k.machine directory k.freeStackOffsets.length k.freeStackOffsets = r at hspec
  obtain ⟨found, pool⟩ := r
  cases found with
  | none =>
    have hkept : noSlot ∉ k.freeStackOffsets → pool = k.freeStackOffsets := fun hp => by
      rcases hspec hp with e | ⟨s, rest, -, e⟩
      · exact congrArg Prod.snd e
      · simp at e
    cases hfresh : freshSlot k.nextStackSlotIdx with
    | none => exact .inl ⟨pool, rfl, hkept⟩
    | some s =>
      obtain ⟨hs, hlt⟩ := freshSlot_spec hfresh
      exact .inr ⟨s, pool, s + 1, rfl, fun hp => .inr ⟨hs, hkept hp, congrArg (· + 1) hs, hlt⟩⟩
  | some s =>
    refine .inr ⟨s, pool, k.nextStackSlotIdx, rfl, fun hp => .inl ⟨?_, rfl⟩⟩
    rcases hspec hp with e | ⟨s', rest, hp', e⟩
    · simp at e
    · simp only [Prod.mk.injEq, Option.some.injEq] at e
      rw [hp', e.1, e.2]

/-- What is left when the new thread `t` is dropped again. -/
def Kernel.undone (k : Kernel) (t stack : Nat) (m : Machine) (pool : List Nat) (next : Nat) : Kernel :=
  { k with
    machine := m, zone := Kstack.kstackFree k.zone stack, tcbs := Function.update k.tcbs t none
    freeStackOffsets := pool, nextStackSlotIdx := next }

theorem allocUserStack_cases {k : Kernel} {t : Nat} {tcb : Tcb} (ht : k.tcbs t = some tcb)
    (directory : Nat) :
    (∃ m pool next, allocUserStack k t directory = (none, k.undone t tcb.stack m pool next) ∧
      SlotsKept k (k.undone t tcb.stack m pool next)) ∨
    ∃ r m s pool next, allocUserStack k t directory = (some r,
        { k with
          machine := m, freeStackOffsets := pool, nextStackSlotIdx := next
          tcbs := Function.update k.tcbs t (some { tcb with stackSlotIdx := s }) }) ∧
      SlotTaken k { k with freeStackOffsets := pool, nextStackSlotIdx := next } s := by
  unfold allocUserStack
  rcases takeSlot_cases k directory with ⟨pool, e, hp⟩ | ⟨s, pool, next, e, hs⟩
  · rw [e]
    refine .inl ⟨k.machine, pool, k.nextStackSlotIdx, ?_, fun h => .inl ⟨hp h, rfl⟩⟩
    simp only [Kernel.dropThread, ht]
    rfl
  · -- Every failure from here on drops the thread with the slot back in the pool.
    have hkept : ∀ m, SlotsKept k (k.undone t tcb.stack m (s :: pool) next) := fun m hp => by
      rcases hs hp with ⟨h1, h2⟩ | ⟨h1, h2, h3, h4⟩
      · exact .inl ⟨h1.symm, h2⟩
      · subst h1
        exact .inr ⟨congrArg _ h2, h3, h4⟩
    have hdrop : ∀ m, ((((({ k with freeStackOffsets := pool, nextStackSlotIdx := next }).modTcb t
        fun tcb => { tcb with stackSlotIdx := s }).withMachine m).recycleSlot s).dropThread t) =
        k.undone t tcb.stack m (s :: pool) next := fun m => by
      simp only [Kernel.dropThread, Kernel.modTcb, Kernel.setTcb, Kernel.withMachine,
        Kernel.recycleSlot, Kernel.kstackFree, Kernel.undone, ht, Option.map_some,
        Function.update_self, Function.update_idem]
    rw [e]
    dsimp only
    split
    · exact .inl ⟨k.machine, s :: pool, next, Prod.ext rfl (hdrop k.machine), hkept _⟩
    split
    · exact .inl ⟨k.machine, s :: pool, next, Prod.ext rfl (hdrop k.machine), hkept _⟩
    split
    · rename_i m _
      exact .inl ⟨m, s :: pool, next, Prod.ext rfl (hdrop m), hkept m⟩
    · rename_i top m _
      refine .inr ⟨_, m, s, pool, next, Prod.ext rfl ?_, hs⟩
      simp only [Kernel.modTcb, Kernel.setTcb, Kernel.withMachine, ht, Option.map_some]

/-! ## Threads -/

/-- The TCB that `newThread` fills in. -/
def freshTcb (k : Kernel) (parent : Option Nat) (pid slot : Nat) (context : CpuState) : Tcb :=
  { tid := k.tidCounter, pid := pid, state := .new, stack := (Kstack.kstackAlloc k.zone).1
    context := context, parent := parent, wakeTime := 0, stackSlotIdx := slot }

/-- The kernel with the new thread in it. -/
def Kernel.withThread (k : Kernel) (ptr : Nat) (tcb : Tcb) : Kernel :=
  { k with
    tidCounter := inc32 k.tidCounter, zone := (Kstack.kstackAlloc k.zone).2
    tcbs := Function.update k.tcbs ptr (some tcb) }

theorem Kernel.withThread_self (k : Kernel) (ptr : Nat) (tcb : Tcb) :
    (k.withThread ptr tcb).tcbs ptr = some tcb := Function.update_self _ _ _

theorem newThread_cases (k : Kernel) (ptr : Nat) (parent : Option Nat) (pid slot : Nat)
    (context : CpuState) :
    (∃ tid, newThread k ptr parent pid slot context = (none, { k with tidCounter := tid })) ∨
    (k.tcbs ptr = none ∧ (Kstack.kstackAlloc k.zone).1 ≠ 0 ∧
      newThread k ptr parent pid slot context =
        (some ptr, k.withThread ptr (freshTcb k parent pid slot context))) := by
  unfold newThread
  by_cases hc : k.canNewTcb ptr = true
  · rw [if_neg (by simp [hc])]
    have hfree : k.tcbs ptr = none := by
      simp only [Kernel.canNewTcb, Bool.and_eq_true, Option.isNone_iff_eq_none] at hc
      exact hc.2
    by_cases h0 : (Kstack.kstackAlloc k.zone).1 = 0
    · refine .inl ⟨inc32 k.tidCounter, (if_pos h0).trans ?_⟩
      rcases kstackAlloc_cases k.zone with e | ⟨idx, -, -, -, e⟩
      · simp only [e]
      · rw [e] at h0
        have : guardSize = 0x1000 := rfl
        omega
    · exact .inr ⟨hfree, h0, if_neg h0⟩
  · exact .inl ⟨k.tidCounter, if_pos (by simpa using hc)⟩

/-- A thread without a stack was not even made. -/
theorem failed_tidCounter (k : Kernel) (tid : Nat) : Failed k { k with tidCounter := tid } :=
  ⟨⟨rfl, rfl, rfl, rfl, rfl, rfl, rfl, rfl⟩, .same rfl rfl, fun _ => .inl rfl⟩

/-- A thread was made and dropped again. -/
theorem failed_undone {k : Kernel} {ptr : Nat} {parent : Option Nat} {pid slot : Nat}
    {context : CpuState} {m : Machine} {pool : List Nat} {next : Nat} (hfree : k.tcbs ptr = none)
    (h0 : (Kstack.kstackAlloc k.zone).1 ≠ 0)
    (hs : SlotsKept (k.withThread ptr (freshTcb k parent pid slot context))
      ((k.withThread ptr (freshTcb k parent pid slot context)).undone ptr
        (Kstack.kstackAlloc k.zone).1 m pool next)) :
    Failed k ((k.withThread ptr (freshTcb k parent pid slot context)).undone ptr
      (Kstack.kstackAlloc k.zone).1 m pool next) where
  tcbs := by
    simp only [Kernel.undone, Kernel.withThread, Function.update_idem]
    rw [← hfree, Function.update_eq_self]
  pcbs := rfl
  ready := rfl
  blocked := rfl
  terminated := rfl
  pending := rfl
  current := rfl
  idle := rfl
  slots := hs
  zone := fun hz => .inr ⟨h0, kstackFree_kstackAlloc hz h0⟩

/-- The end of a creation: the thread joins its process and the ready queue. -/
theorem spawned_enqueue {k k' : Kernel} {p t : Nat} {pcb : Pcb} (tcb : Tcb)
    (hfree : k.tcbs t = none) (hp : k.pcbs p = some pcb) (htcbs : k'.tcbs = Function.update k.tcbs t (some tcb))
    (hparent : tcb.parent = some p) (hslot : SlotMoved k k' tcb.stackSlotIdx)
    (hpcbs : k'.pcbs = k.pcbs) (hready : k'.readyQueue = k.readyQueue)
    (hblocked : k'.blockedQueue = k.blockedQueue)
    (hterm : k'.terminatedQueue = k.terminatedQueue)
    (hpending : k'.pendingReclaims = k.pendingReclaims)
    (hcurrent : k'.currentThread = k.currentThread) (hidle : k'.idleThread = k.idleThread)
    (hzone : k'.zone = (Kstack.kstackAlloc k.zone).2) : Spawned k (enqueue k' p t) p t where
  fresh := hfree
  pcbs := ⟨pcb, hp, by
    simp only [enqueue, Kernel.modPcb, Kernel.modTcb, Kernel.setPcb, Kernel.setTcb, hpcbs, hp,
      Option.map_some]⟩
  tcbs := ⟨{ tcb with state := .ready }, by
    simp only [enqueue, Kernel.modPcb, Kernel.modTcb, Kernel.setPcb, Kernel.setTcb, htcbs,
      Function.update_self, Option.map_some, Function.update_idem], rfl, hparent, hslot⟩
  ready := by
    simp only [enqueue, Kernel.modPcb, Kernel.modTcb, Kernel.setPcb, Kernel.setTcb, hready]
  blocked := hblocked
  terminated := hterm
  pending := hpending
  current := hcurrent
  idle := hidle
  zone := hzone

/-- `CreateThread`: it fails, it makes a thread without a process (the idle thread), or the new
thread of a process is runnable. -/
theorem createThread_cases (threadExit : Nat) (k : Kernel) (ptr : Nat) (parent : Option Nat)
    (entrypoint arg : Nat) :
    (∃ k', createThread threadExit k ptr parent entrypoint arg = (none, k') ∧ Failed k k') ∨
    (parent = none ∧ k.tcbs ptr = none ∧ ∃ context,
      createThread threadExit k ptr parent entrypoint arg =
        (some ptr, k.withThread ptr (freshTcb k none 0 noSlot context))) ∨
    (∃ p k', parent = some p ∧
      createThread threadExit k ptr parent entrypoint arg = (some ptr, k') ∧ Spawned k k' p ptr) := by
  unfold createThread
  cases parent with
  | none =>
    dsimp only
    rcases newThread_cases k ptr none 0 noSlot (kernelContext threadExit entrypoint arg) with
      ⟨tid, e⟩ | ⟨hfree, -, e⟩
    · exact .inl ⟨_, e, failed_tidCounter k tid⟩
    · exact .inr (.inl ⟨rfl, hfree, _, e⟩)
  | some p =>
    dsimp only
    cases hp : k.pcbs p with
    | none =>
      exact .inl ⟨k, rfl, SameSched.refl k, .same rfl rfl, fun _ => .inl rfl⟩
    | some pcb =>
      dsimp only
      split
      · rcases newThread_cases k ptr (some p) pcb.pid noSlot
            (kernelContext threadExit entrypoint arg) with ⟨tid, e⟩ | ⟨hfree, -, e⟩
        · rw [e]
          exact .inl ⟨_, rfl, failed_tidCounter k tid⟩
        · rw [e]
          exact .inr (.inr ⟨p, _, rfl, rfl, spawned_enqueue _ hfree hp rfl rfl
            (.inl ⟨rfl, rfl, rfl⟩) rfl rfl rfl rfl rfl rfl rfl rfl⟩)
      · rcases newThread_cases k ptr (some p) pcb.pid noSlot CpuState.zero with
          ⟨tid, e⟩ | ⟨hfree, h0, e⟩
        · rw [e]
          exact .inl ⟨_, rfl, failed_tidCounter k tid⟩
        · rw [e]
          dsimp only
          rcases allocUserStack_cases (k.withThread_self ptr _) pcb.pageDirectory with
            ⟨m, pool, next, e, hs⟩ | ⟨⟨base, top⟩, m, s, pool, next, e, hs⟩
          · rw [e]
            exact .inl ⟨_, rfl, failed_undone hfree h0 hs⟩
          · rw [e]
            refine .inr (.inr ⟨p, _, rfl, rfl, spawned_enqueue
              { freshTcb k (some p) pcb.pid s (userContext entrypoint base) with stackSlotIdx := s }
              hfree hp ?_ rfl (.inr hs) rfl rfl rfl rfl rfl rfl rfl rfl⟩)
            simp only [Kernel.modTcb, Kernel.setTcb, Kernel.withMachine, Kernel.withThread,
              Function.update_self, Option.map_some, Function.update_idem, freshTcb]

/-! ## Clones -/

theorem cloneStack_cases {k : Kernel} {t : Nat} {tcb : Tcb} (ht : k.tcbs t = some tcb)
    (directory childStack : Nat) :
    (∃ m pool next, cloneStack k t directory childStack =
        (false, k.undone t tcb.stack m pool next) ∧
      SlotsKept k (k.undone t tcb.stack m pool next)) ∨
    ∃ m s pool next context, cloneStack k t directory childStack = (true,
        { k with
          machine := m, freeStackOffsets := pool, nextStackSlotIdx := next
          tcbs := Function.update k.tcbs t (some { tcb with context := context, stackSlotIdx := s }) }) ∧
      ((childStack ≠ 0 ∧ s = tcb.stackSlotIdx ∧ pool = k.freeStackOffsets ∧
          next = k.nextStackSlotIdx) ∨
        SlotTaken k { k with freeStackOffsets := pool, nextStackSlotIdx := next } s) := by
  unfold cloneStack
  by_cases hc : childStack ≠ 0
  · rw [if_pos hc]
    refine .inr ⟨k.machine, tcb.stackSlotIdx, k.freeStackOffsets, k.nextStackSlotIdx,
      { tcb.context with esp := childStack }, Prod.ext rfl ?_, .inl ⟨hc, rfl, rfl, rfl⟩⟩
    simp only [Kernel.modTcb, Kernel.setTcb, ht, Option.map_some]
  · rw [if_neg hc]
    rcases allocUserStack_cases ht directory with
      ⟨m, pool, next, e, hs⟩ | ⟨⟨base, top⟩, m, s, pool, next, e, hs⟩
    · rw [e]
      exact .inl ⟨m, pool, next, rfl, hs⟩
    · rw [e]
      refine .inr ⟨writeStackTop m top 0, s, pool, next,
        { tcb.context with esp := base + userStackPages * pageSize - 8 }, Prod.ext rfl ?_, .inr hs⟩
      simp only [Kernel.modTcb, Kernel.setTcb, Kernel.withMachine, Function.update_self,
        Option.map_some, Function.update_idem]

/-- `CloneCurrentThread` fails, or the new thread of some process is runnable. -/
theorem cloneCurrentThread_cases (k : Kernel) (ptr : Nat) (a : CloneArgs) :
    (∃ k', cloneCurrentThread k ptr a = (none, k') ∧ Failed k k') ∨
    ∃ p k', cloneCurrentThread k ptr a = (some ptr, k') ∧ Spawned k k' p ptr := by
  have hrefl : Failed k k := ⟨SameSched.refl k, .same rfl rfl, fun _ => .inl rfl⟩
  unfold cloneCurrentThread
  cases hp : cloneParent k with
  | none => exact .inl ⟨k, rfl, hrefl⟩
  | some pp =>
    obtain ⟨p, pcb⟩ := pp
    have hpcb : k.pcbs p = some pcb := by
      simp only [cloneParent, Option.bind_eq_bind, Option.bind_eq_some_iff, Option.pure_def,
        Option.some.injEq, Prod.mk.injEq] at hp
      obtain ⟨cur, -, tcb, -, p', -, pcb', h, rfl, rfl⟩ := hp
      exact h
    cases a.parentContext with
    | none => exact .inl ⟨k, rfl, hrefl⟩
    | some context =>
      dsimp only
      rcases newThread_cases k ptr (some p) pcb.pid (if a.childStack ≠ 0 then noSlot else 0)
          { context with eax := 0 } with ⟨tid, e⟩ | ⟨hfree, h0, e⟩
      · rw [e]
        exact .inl ⟨_, rfl, failed_tidCounter k tid⟩
      · rw [e]
        dsimp only
        rcases cloneStack_cases (k.withThread_self ptr _) pcb.pageDirectory a.childStack with
          ⟨m, pool, next, e, hs⟩ | ⟨m, s, pool, next, context', e, hs⟩
        · rw [e]
          exact .inl ⟨_, rfl, failed_undone hfree h0 hs⟩
        · rw [e]
          refine .inr ⟨p, _, rfl, spawned_enqueue
            { freshTcb k (some p) pcb.pid s context' with stackSlotIdx := s } hfree hpcb ?_ rfl ?_ rfl rfl rfl rfl rfl rfl rfl rfl⟩
          · simp only [Kernel.withMachine, Kernel.withThread, Function.update_idem, freshTcb]
          · rcases hs with ⟨hc, rfl, rfl, rfl⟩ | hs
            · exact .inl ⟨if_pos hc, rfl, rfl⟩
            · exact .inr hs

theorem Spawned.withList {k k' : Kernel} {p t : Nat} (h : Spawned k k' p t) (list : List Nat) :
    Spawned k { k' with globalProcessList := list } p t :=
  ⟨h.fresh, h.pcbs, h.tcbs, h.ready, h.blocked, h.terminated, h.pending, h.current, h.idle, h.zone⟩

theorem canNewPcb_fresh {k : Kernel} {ptr : Nat} (h : k.canNewPcb ptr = true) : k.pcbs ptr = none := by
  simp only [Kernel.canNewPcb, Bool.and_eq_true, Option.isNone_iff_eq_none] at h
  exact h.2

/-- A failure after which other memory, or another PID, is in use. -/
theorem Failed.withMachine {k k' : Kernel} (h : Failed k k') (m : Machine) :
    Failed k (k'.withMachine m) :=
  ⟨⟨h.tcbs, h.pcbs, h.ready, h.blocked, h.terminated, h.pending, h.current, h.idle⟩, h.slots, h.zone⟩

theorem Failed.of_machine {k k' : Kernel} {m : Machine} {pid : Nat}
    (h : Failed { k with machine := m, pidCounter := pid } k') : Failed k k' :=
  ⟨⟨h.tcbs, h.pcbs, h.ready, h.blocked, h.terminated, h.pending, h.current, h.idle⟩, h.slots, h.zone⟩

/-- `CloneCurrentProcess` fails, or there is a new process whose thread is runnable. -/
theorem cloneCurrentProcess_cases (k : Kernel) (pcbPtr tcbPtr : Nat) (a : CloneArgs) :
    (∃ k', cloneCurrentProcess k pcbPtr tcbPtr a = (none, k') ∧ Failed k k') ∨
    ∃ k₁ k', cloneCurrentProcess k pcbPtr tcbPtr a = (some tcbPtr, k') ∧
      AddedProcess k k₁ pcbPtr ∧ Spawned k₁ k' pcbPtr tcbPtr := by
  have hrefl : ∀ m pid, Failed k { k with machine := m, pidCounter := pid } := fun m pid =>
    ⟨⟨rfl, rfl, rfl, rfl, rfl, rfl, rfl, rfl⟩, .same rfl rfl, fun _ => .inl rfl⟩
  unfold cloneCurrentProcess
  cases hp : cloneParent k with
  | none => exact .inl ⟨k, rfl, hrefl k.machine k.pidCounter⟩
  | some pp =>
    obtain ⟨p, parent⟩ := pp
    cases a.parentContext with
    | none => exact .inl ⟨k, rfl, hrefl k.machine k.pidCounter⟩
    | some context =>
      dsimp only
      split
      · exact .inl ⟨k, rfl, hrefl k.machine k.pidCounter⟩
      by_cases hnew : k.canNewPcb pcbPtr = true
      · rw [if_neg (by simp [hnew])]
        have hfresh := canNewPcb_fresh hnew
        split
        · exact .inl ⟨_, rfl, hrefl _ _⟩
        split
        · exact .inl ⟨_, rfl, hrefl _ _⟩
        · rename_i directory _ m hcopy
          obtain ⟨k₀, hk₀⟩ : ∃ k₀ : Kernel, k₀ = { k with machine := m, pidCounter := inc32 k.pidCounter } :=
            ⟨_, rfl⟩
          have hk₀' : ({ k with pidCounter := inc32 k.pidCounter }.withMachine
            (createProcessDirectory k.machine).2).withMachine m = k₀ := hk₀.symm
          simp only [hk₀']
          have hback : ∀ {k'}, Failed k₀ k' → Failed k k' := fun h => by
            subst hk₀
            exact h.of_machine
          rcases newThread_cases k₀ tcbPtr (some pcbPtr) k.pidCounter noSlot { context with eax := 0 }
            with ⟨tid, e⟩ | ⟨hfree, h0, e⟩
          · rw [e]
            exact .inl ⟨_, rfl, hback ((failed_tidCounter k₀ tid).withMachine _)⟩
          · rw [e]
            dsimp only
            rcases cloneStack_cases (k₀.withThread_self tcbPtr _)
                (createProcessDirectory k.machine).1 a.childStack with
              ⟨m', pool, next, e, hs⟩ | ⟨m', s, pool, next, context', e, hs⟩
            · rw [e]
              exact .inl ⟨_, rfl, hback ((failed_undone hfree h0 hs).withMachine _)⟩
            · rw [e]
              obtain ⟨child, hchild⟩ : ∃ child : Pcb, child =
                { newPcb k.pidCounter false 0 (createProcessDirectory k.machine).1 with
                  parent := some p, appType := parent.appType, heap := parent.heap } := ⟨_, rfl⟩
              have hadd : AddedProcess k (k₀.setPcb pcbPtr (some child)) pcbPtr := by
                subst hk₀
                exact ⟨hfresh, ⟨child, rfl, by rw [hchild]; rfl, by rw [hchild]; rfl⟩,
                  rfl, rfl, rfl, rfl, rfl, rfl, rfl, rfl, rfl, rfl⟩
              refine .inr ⟨k₀.setPcb pcbPtr (some child), _, rfl, hadd, ?_⟩
              refine Spawned.withList ?_ _
              refine spawned_enqueue (k := k₀.setPcb pcbPtr (some child))
                { freshTcb k₀ (some pcbPtr) k.pidCounter s context' with stackSlotIdx := s } hfree
                (Function.update_self _ _ _) ?_ rfl ?_ ?_ rfl rfl rfl rfl rfl rfl rfl
              · simp only [Kernel.withMachine, Kernel.withThread, Kernel.setPcb, Function.update_idem,
                  freshTcb]
              · rcases hs with ⟨hc, rfl, rfl, rfl⟩ | hs
                · exact .inl ⟨rfl, rfl, rfl⟩
                · exact .inr hs
              · rw [hchild]; rfl
      · exact .inl ⟨k, if_pos (by simpa using hnew), hrefl k.machine k.pidCounter⟩

/-! ## Processes -/

/-- `CreateProcess` fails, or there is a new process, with or without a runnable thread. -/
theorem createProcess_cases (threadExit : Nat) (k : Kernel) (pcbPtr tcbPtr : Nat) (isKernel : Bool)
    (entrypoint arg : Nat) (createMainThread : Bool) :
    (∃ k', createProcess threadExit k pcbPtr tcbPtr isKernel entrypoint arg createMainThread =
        (none, k') ∧ Failed k k') ∨
    ∃ k₁ k', createProcess threadExit k pcbPtr tcbPtr isKernel entrypoint arg createMainThread =
        (some pcbPtr, k') ∧ AddedProcess k k₁ pcbPtr ∧
      (k' = k₁ ∨ Spawned k₁ k' pcbPtr tcbPtr) := by
  unfold createProcess
  by_cases hnew : k.canNewPcb pcbPtr = true
  · rw [if_neg (by simp [hnew])]
    have hfresh := canNewPcb_fresh hnew
    generalize hspace : (if isKernel then (true, k.machine.kernelPageDirectory, k.machine)
      else newUserSpace k.machine k.trampolinePhys) = space
    obtain ⟨ok, directory, m⟩ := space
    dsimp only
    rw [hspace]
    dsimp only
    split
    · exact .inl ⟨_, rfl, ⟨rfl, rfl, rfl, rfl, rfl, rfl, rfl, rfl⟩, .same rfl rfl, fun _ => .inl rfl⟩
    · obtain ⟨k₁, hk₁⟩ : ∃ k₁ : Kernel, k₁ =
          { ({ k with pidCounter := inc32 k.pidCounter }.withMachine m).setPcb pcbPtr
              (some (newPcb k.pidCounter isKernel entrypoint directory)) with
            globalProcessList := k.globalProcessList ++ [pcbPtr] } := ⟨_, rfl⟩
      have hadd : AddedProcess k k₁ pcbPtr := by
        subst hk₁
        exact ⟨hfresh, ⟨_, rfl, rfl, rfl⟩, rfl, rfl, rfl, rfl, rfl, rfl, rfl, rfl, rfl, rfl⟩
      have hk₁' : ({ ({ k with pidCounter := inc32 k.pidCounter }.withMachine m).setPcb pcbPtr
          (some (newPcb k.pidCounter isKernel entrypoint directory)) with
          globalProcessList := (({ k with pidCounter := inc32 k.pidCounter }.withMachine m).setPcb pcbPtr
            (some (newPcb k.pidCounter isKernel entrypoint directory))).globalProcessList ++
              [pcbPtr] } : Kernel) = k₁ := hk₁.symm
      simp only [hk₁']
      split
      · exact .inr ⟨k₁, k₁, rfl, hadd, .inl rfl⟩
      · -- A main thread that cannot be created takes the process with it.
        have hback : ∀ {k' : Kernel} (m : Machine), Failed k₁ k' →
            Failed k (forgetProcess (k'.withMachine m) pcbPtr) := fun {k'} m h => by
          obtain ⟨pcb, hpcbs, -, -⟩ := hadd.pcbs
          have hslots := h.slots
          simp only [SlotsKept, hadd.pool, hadd.next] at hslots
          refine ⟨⟨h.tcbs.trans hadd.tcbs, ?_, h.ready.trans hadd.ready,
            h.blocked.trans hadd.blocked, h.terminated.trans hadd.terminated,
            h.pending.trans hadd.pending, h.current.trans hadd.current, h.idle.trans hadd.idle⟩,
            hslots, ?_⟩
          · change Function.update k'.pcbs pcbPtr none = k.pcbs
            rw [h.pcbs, hpcbs, Function.update_idem, ← hadd.fresh, Function.update_eq_self]
          · have hz := h.zone
            rw [hadd.zone] at hz
            exact hz
        rcases createThread_cases threadExit k₁ tcbPtr (some pcbPtr) entrypoint arg with
          ⟨k', e, hf⟩ | ⟨he, -⟩ | ⟨p, k', he, e, hs⟩
        · rw [e]
          refine .inl ⟨_, rfl, ?_⟩
          split
          · exact hback _ hf
          · exact hback k'.machine hf
        · cases he
        · rw [e]
          obtain rfl := Option.some.inj he
          exact .inr ⟨k₁, k', rfl, hadd, .inr hs⟩
  · exact .inl ⟨k, if_pos (by simpa using hnew), SameSched.refl k, .same rfl rfl, fun _ => .inl rfl⟩

/-! ## Termination -/

/-- The TCB of a terminated thread. -/
def Tcb.dead (tcb : Tcb) : Tcb :=
  { tcb with
    state := .terminated
    stackSlotIdx := if tcb.parent = none then tcb.stackSlotIdx else noSlot }

/-- The slot that a terminated thread gives back. -/
def Tcb.givenBack (tcb : Tcb) : List Nat :=
  if tcb.parent = none ∨ tcb.stackSlotIdx = noSlot then [] else [tcb.stackSlotIdx]

/-- What `TerminateThread` does to thread `t` with TCB `tcb`. -/
structure Terminated (k k' : Kernel) (t : Nat) (tcb : Tcb) : Prop where
  tcbs : k'.tcbs = Function.update k.tcbs t
    (if k.currentThread = some t then some tcb.dead else none)
  pcbs : k'.pcbs = match tcb.parent with
    | none => k.pcbs
    | some p => Function.update k.pcbs p
        ((k.pcbs p).map fun pcb => { pcb with threads := pcb.threads.erase t })
  ready : k'.readyQueue = k.readyQueue.erase t
  blocked : k'.blockedQueue = k.blockedQueue.erase t
  terminated : k'.terminatedQueue = k.terminatedQueue
  pending : k'.pendingReclaims =
    if k.currentThread = some t then k.pendingReclaims ++ [t] else k.pendingReclaims
  current : k'.currentThread = if k.currentThread = some t then none else k.currentThread
  idle : k'.idleThread = k.idleThread
  pool : k'.freeStackOffsets = tcb.givenBack ++ k.freeStackOffsets
  next : k'.nextStackSlotIdx = k.nextStackSlotIdx
  zone : ZoneOk k.zone → ZoneOk k'.zone

/-- `reclaimSlot` on a thread that is marked as terminated. -/
theorem reclaimSlot_eq (k : Kernel) (t : Nat) {tcb : Tcb}
    (ht : k.tcbs t = some { tcb with state := .terminated }) :
    ∃ m, reclaimSlot k t tcb =
      { k with
        machine := m, freeStackOffsets := tcb.givenBack ++ k.freeStackOffsets
        tcbs := Function.update k.tcbs t (some tcb.dead) } := by
  -- A thread with no process, or with no slot, gives nothing back.
  have hnone : tcb.parent = none ∨ tcb.stackSlotIdx = noSlot → k =
      { k with
        machine := k.machine, freeStackOffsets := tcb.givenBack ++ k.freeStackOffsets
        tcbs := Function.update k.tcbs t (some tcb.dead) } := fun h => by
    have hd : tcb.dead = { tcb with state := .terminated } := by
      unfold Tcb.dead
      split
      · rfl
      · rename_i hp
        rw [h.resolve_left hp]
    rw [Tcb.givenBack, if_pos h, hd, List.nil_append, ← ht, Function.update_eq_self]
  cases hp : tcb.parent with
  | none =>
    unfold reclaimSlot
    rw [hp]
    exact ⟨k.machine, hnone (.inl hp)⟩
  | some p =>
    by_cases hs : tcb.stackSlotIdx = noSlot
    · unfold reclaimSlot
      rw [hp]
      exact ⟨k.machine, (if_pos hs).trans (hnone (.inr hs))⟩
    · have hback : ∀ m, ((k.withMachine m).recycleSlot tcb.stackSlotIdx).modTcb t
          (fun tcb => { tcb with stackSlotIdx := noSlot }) =
          { k with
            machine := m, freeStackOffsets := tcb.givenBack ++ k.freeStackOffsets
            tcbs := Function.update k.tcbs t (some tcb.dead) } := fun m => by
        have hg : tcb.givenBack = [tcb.stackSlotIdx] := if_neg (by simp [hp, hs])
        have hd : tcb.dead = { tcb with state := .terminated, stackSlotIdx := noSlot } := by
          rw [Tcb.dead, if_neg (by simp [hp])]
        rw [hg, hd]
        simp only [Kernel.modTcb, Kernel.setTcb, Kernel.recycleSlot, Kernel.withMachine, ht,
          Option.map_some, List.cons_append, List.nil_append]
      unfold reclaimSlot
      rw [hp]
      dsimp only
      rw [if_neg hs]
      split
      · exact ⟨_, hback _⟩
      · exact ⟨k.machine, hback k.machine⟩

theorem terminateThread_spec {k : Kernel} {t : Nat} {tcb : Tcb} (ht : k.tcbs t = some tcb)
    (hs : tcb.state ≠ .terminated) : Terminated k (terminateThread k t) t tcb := by
  have hself : ({ k with
      readyQueue := k.readyQueue.erase t, blockedQueue := k.blockedQueue.erase t
      tcbs := Function.update k.tcbs t (some { tcb with state := .terminated }) } : Kernel).tcbs t =
      some { tcb with state := .terminated } := Function.update_self _ _ _
  obtain ⟨m, e⟩ := reclaimSlot_eq _ t hself
  unfold terminateThread
  rw [ht]
  dsimp only
  rw [if_neg hs]
  have hmark : ({ k.modTcb t fun tcb => { tcb with state := .terminated } with
      readyQueue := k.readyQueue.erase t, blockedQueue := k.blockedQueue.erase t } : Kernel) =
      { k with
        readyQueue := k.readyQueue.erase t, blockedQueue := k.blockedQueue.erase t
        tcbs := Function.update k.tcbs t (some { tcb with state := .terminated }) } := by
    simp only [Kernel.modTcb, Kernel.setTcb, ht, Option.map_some]
  change Terminated k (ite _ _ _) t tcb
  simp only [Kernel.modTcb, Kernel.setTcb, ht, Option.map_some] at hmark ⊢
  rw [e]
  by_cases hc : k.currentThread = some t
  · cases hp : tcb.parent <;>
      simp only [Kernel.modPcb, Kernel.setPcb, hc, ↓reduceIte] <;>
      constructor <;> simp [hc, hp, Function.update_idem]
  · cases hp : tcb.parent <;>
      simp only [Kernel.modPcb, Kernel.setPcb, hc, ↓reduceIte, Kernel.dropThread, Function.update_self] <;>
      constructor <;> simp [hc, hp, Function.update_idem, Kernel.setTcb, Kernel.kstackFree]
    all_goals exact fun hz => zoneOk_kstackFree hz _

end Sched
end Hashx86
