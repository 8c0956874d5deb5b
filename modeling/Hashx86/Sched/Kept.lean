import Hashx86.Sched.Creation
import Hashx86.Sched.Live
import Hashx86.Sched.Slots

/-!
# The scheduler's invariants together

`SchedOk` is all that the scheduler keeps: the queues (`Rota`), the stack slots (`SlotsOk`), the owners of
the stacks (`Stacked`) and the address spaces (`Spaces`).

* `stacked_step`: every call keeps the owners of the stacks.
* `step_acts`: a call changes the address space of one process, of the process that it ends, or none that
  existed before.
* `space_step`: a user process goes on with its directory, unless the call ends it.
* `SchedOk.aside`, `SchedOk.withMachine`: changes that the scheduler does not see.
-/

namespace Hashx86
namespace Sched

open Lib Paging

variable {base : Nat → Prop} {p t : Nat} {k k' : Kernel} {own own' : Owners}

/-! ## The owners of the stacks -/

/-- A thread of a kernel process has no stack slot. -/
theorem createThread_noSlot {pcb : Pcb} (hp : k.pcbs p = some pcb) (hk : pcb.isKernelProcess = true)
    (threadExit ptr entrypoint arg : Nat) (tcb : Tcb)
    (ht : (createThread threadExit k ptr (some p) entrypoint arg).2.tcbs ptr = some tcb)
    (hok : (createThread threadExit k ptr (some p) entrypoint arg).1 = some ptr) :
    tcb.stackSlotIdx = noSlot := by
  unfold createThread at ht hok
  simp only [hp, if_pos hk] at ht hok
  rcases newThread_cases k ptr (some p) pcb.pid noSlot (kernelContext threadExit entrypoint arg) with
    ⟨tid, e⟩ | ⟨-, -, e⟩
  · rw [e] at hok
    exact nomatch hok
  · rw [e] at ht
    simp only [enqueue, Kernel.modPcb, Kernel.modTcb, Kernel.setPcb, Kernel.setTcb, Kernel.withThread,
      Function.update_self, Option.map_some, Option.some.injEq] at ht
    exact ht ▸ rfl

theorem stacked_createThread (h : Stacked k) (threadExit ptr p entrypoint arg : Nat) :
    Stacked (createThread threadExit k ptr (some p) entrypoint arg).2 := by
  have hno := fun {pcb} hp hk => @createThread_noSlot p k pcb hp hk threadExit ptr entrypoint arg
  rcases createThread_cases threadExit k ptr (some p) entrypoint arg with
    ⟨k', e, hf⟩ | ⟨hn, -⟩ | ⟨q, k', hq, e, hs⟩
  · rw [e]
    exact stacked_sameSched h hf.toSameSched
  · exact absurd hn (by simp)
  · obtain rfl := Option.some.inj hq
    rw [e] at hno ⊢
    exact stacked_spawned h hs fun tcb pcb ht hslot hp =>
      Bool.eq_false_iff.mpr fun hk => hslot (hno hp hk tcb ht rfl)

/-- A new thread of a process with an address space of its own. -/
theorem Stacked.spawned (h : Stacked k) (hs : Spawned k k' p t) (hu : k.space p ≠ none) :
    Stacked k' := stacked_spawned h hs fun tcb pcb _ _ hp => by
  by_contra hk
  refine hu ?_
  unfold Kernel.space Pcb.space
  rw [hp, Option.bind_some, if_pos (Bool.eq_true_of_not_eq_false hk)]

theorem addedProcess_withProcess {ptr : Nat} (hnew : k.canNewPcb ptr = true) (isKernel : Bool)
    (entrypoint d : Nat) (m : Machine) : AddedProcess k (k.withProcess ptr isKernel entrypoint d m) ptr :=
  ⟨canNewPcb_fresh hnew, ⟨_, rfl, rfl, rfl⟩, rfl, rfl, rfl, rfl, rfl, rfl, rfl, rfl, rfl, rfl⟩

theorem stacked_createProcess (h : Stacked k) (threadExit ptr tcbPtr : Nat) (isKernel : Bool)
    (entrypoint arg : Nat) (main : Bool) :
    Stacked (createProcess threadExit k ptr tcbPtr isKernel entrypoint arg main).2 := by
  by_cases hnew : k.canNewPcb ptr = true
  swap
  · unfold createProcess
    rw [if_pos (by simpa using hnew)]
    exact h
  generalize hspace : (if isKernel then (true, k.machine.kernelPageDirectory, k.machine)
    else newUserSpace k.machine k.trampolinePhys) = r
  obtain ⟨ok, d, m⟩ := r
  rw [createProcess_eq threadExit tcbPtr entrypoint arg main hnew hspace]
  split
  · exact h.congr rfl rfl
  have hadd := addedProcess_withProcess hnew isKernel entrypoint d m
  generalize k.withProcess ptr isKernel entrypoint d m = k₁ at hadd ⊢
  have h₁ := stacked_addedProcess h hadd
  split
  · exact h₁
  have hthread := stacked_createThread h₁ threadExit tcbPtr ptr entrypoint arg
  have hnone : ∀ u, ¬ k.Slotted u ptr := fun u hu => by
    obtain ⟨pcb, hp, -⟩ := h u ptr hu
    rw [hadd.fresh] at hp
    exact nomatch hp
  rcases createThread_cases threadExit k₁ tcbPtr (some ptr) entrypoint arg with
    ⟨k₂, e, hf⟩ | ⟨hn, -⟩ | ⟨q, k₂, -, e, -⟩
  · rw [e] at hthread ⊢
    unfold afterThread
    refine stacked_forgetProcess ?_ fun u hu => hnone u ?_
    · generalize freeAddressSpace k₂.machine k₂.trampolinePhys d = m'
      split
      · exact hthread.congr rfl rfl
      · exact hthread
    · obtain ⟨tcb, htcb, hrest⟩ := hu
      refine ⟨tcb, ?_, hrest⟩
      rw [← hadd.tcbs, ← hf.tcbs, ← htcb]
      generalize freeAddressSpace k₂.machine k₂.trampolinePhys d = m'
      split <;> rfl
  · exact absurd hn (by simp)
  · rw [e] at hthread ⊢
    exact hthread

theorem stacked_killProcess (h : Stacked k) (hs : SlotsOk k) (pid : Nat) :
    Stacked (killProcess k pid).2 := by
  rcases killProcess_parts k pid with ⟨-, list, he⟩ |
    ⟨p, pcb, list, cr3, k₂, k₃, -, hpcb, hk₂, hk₃, he⟩
  · rw [he]
    exact h.congr rfl rfl
  · rw [he]
    obtain ⟨k₁, hk₁⟩ : ∃ k₁ : Kernel, k₁ = { k with globalProcessList := list, cr3 := cr3 } := ⟨_, rfl⟩
    rw [← hk₁] at hk₂
    have hs₁ : SlotsOk k₁ := hk₁ ▸ hs.congr rfl hs.deferred rfl rfl rfl hs.running hs.zone
    have h₁ : Stacked k₁ := h.congr (hk₁ ▸ rfl) (hk₁ ▸ rfl)
    have h₂ := stacked_killThreads p pcb.threads.length h₁ hs₁
    have hthreads := killThreads_threads p pcb.threads.length k₁
    have hlen : (k₁.threadsOf p).length = pcb.threads.length := by
      unfold Kernel.threadsOf
      rw [hk₁]
      dsimp only
      rw [hpcb]
      rfl
    rw [← hk₂, hlen, Nat.sub_self, Nat.le_zero, List.length_eq_zero_iff] at hthreads
    rw [← hk₂] at h₂
    have h₃ : Stacked k₃ ∧ k₃.tcbs = k₂.tcbs ∧ k₃.pcbs = k₂.pcbs := by
      rw [hk₃]
      generalize killSpace k₂.machine k₂.trampolinePhys pcb.pageDirectory = m
      split
      · exact ⟨h₂, rfl, rfl⟩
      · exact ⟨h₂.congr rfl rfl, rfl, rfl⟩
    refine stacked_forgetProcess (h₃.1.congr rfl rfl) fun u hu => ?_
    obtain ⟨tcb, htcb, hrest⟩ := hu
    exact h₂.none_left hthreads u ⟨tcb, h₃.2.1 ▸ htcb, hrest⟩

/-- The count of `ExitCurrentThread` turns the list of threads around. -/
theorem stacked_turned (h : Stacked k) {pcb : Pcb} (hp : k.pcbs p = some pcb) {threads : List Nat}
    (hperm : threads.Perm pcb.threads) :
    Stacked (k.modPcb p fun pcb => { pcb with threads := threads }) := fun u q hu => by
  obtain ⟨x, hx, hm, hk⟩ := h u q hu
  by_cases hqp : q = p
  · subst hqp
    obtain rfl := Option.some.inj (hp.symm.trans hx)
    refine ⟨{ pcb with threads := threads }, ?_, hperm.mem_iff.mpr hm, hk⟩
    unfold Kernel.modPcb Kernel.setPcb
    dsimp only
    rw [Function.update_self, hp]
    rfl
  · refine ⟨x, ?_, hm, hk⟩
    unfold Kernel.modPcb Kernel.setPcb
    dsimp only
    rwa [Function.update_of_ne hqp]

/-- The parts of `ExitCurrentThread` in a process. -/
theorem exitCurrentThread_parts (k : Kernel) :
    (exitCurrentThread k).2 = k ∨
    (∃ cur, k.currentThread = some cur ∧ (exitCurrentThread k).2 = terminateThread k cur ∧
      currentProcess k = none) ∨
    ∃ cur p pcb threads, k.currentThread = some cur ∧ currentProcess k = some p ∧
      k.pcbs p = some pcb ∧ (k.tcbs cur).bind Tcb.parent = some p ∧ threads.Perm pcb.threads ∧
      (exitCurrentThread k).2 =
        if activeThreads k pcb.threads ≤ 1 then
          (killProcess (k.modPcb p fun pcb => { pcb with threads := threads }) pcb.pid).2
        else terminateThread (k.modPcb p fun pcb => { pcb with threads := threads }) cur := by
  unfold exitCurrentThread currentProcess
  cases hc : k.currentThread with
  | none => exact .inl rfl
  | some cur =>
    simp only [Option.bind_some]
    cases ht : k.tcbs cur with
    | none => exact .inl rfl
    | some tcb =>
      simp only [Option.bind_some]
      cases hpar : tcb.parent with
      | none => exact .inr (.inl ⟨cur, rfl, rfl, rfl⟩)
      | some p =>
        dsimp only
        cases hp : k.pcbs p with
        | none => exact .inl rfl
        | some pcb =>
          have hcount := countActive_fst k pcb.threads []
          rw [List.append_nil] at hcount
          refine .inr (.inr ⟨cur, p, pcb, (countActive k pcb.threads.length pcb.threads).2, rfl, rfl,
            hp, by rw [ht]; exact hpar, countActive_perm .., ?_⟩)
          dsimp only
          rw [hcount]
          split <;> rfl

theorem stacked_exitCurrentThread (h : Stacked k) (hs : SlotsOk k) :
    Stacked (exitCurrentThread k).2 := by
  rcases exitCurrentThread_parts k with he | ⟨cur, -, he, -⟩ |
    ⟨cur, p, pcb, threads, -, -, hp, -, hperm, he⟩ <;> rw [he]
  · exact h
  · exact stacked_terminateThread h hs cur
  · have h₁ := stacked_turned h hp hperm
    have hs₁ : SlotsOk (k.modPcb p fun pcb => { pcb with threads := threads }) :=
      hs.modPcb p _ fun _ => rfl
    split
    · exact stacked_killProcess h₁ hs₁ pcb.pid
    · exact stacked_terminateThread h₁ hs₁ cur

theorem stacked_startProcess (h : Stacked k) (hs : SlotsOk k) (threadExit p tcbPtr arg : Nat) :
    Stacked (startProcess threadExit k p tcbPtr arg).2 := by
  unfold startProcess
  split
  · exact h
  split
  · exact h
  · rename_i pcb _ _
    have hc := stacked_createThread h threadExit tcbPtr p pcb.mainEntry arg
    have hsc := slotsOk_createThread hs threadExit tcbPtr (some p) pcb.mainEntry arg
    split
    · rename_i e
      rwa [e] at hc
    · rename_i e
      rw [e] at hc hsc
      exact stacked_killProcess hc hsc _

/-! ## The calls -/

/-- The caller is a user process: `clone` is a system call. -/
def UserCaller (k : Kernel) : Prop :=
  ∀ p, currentProcess k = some p → k.pcbs p ≠ none → k.space p ≠ none

/-- What the caller of the scheduler has to respect, besides `StepOk`. No stack is taken when the next
fresh slot is the one of the exit trampoline. -/
def Admits (k : Kernel) : Op → Prop
  | .createProcess _ _ isKernel _ _ main =>
    isKernel = false → main = true → k.nextStackSlotIdx ≠ 4095
  | .startProcess .. => k.nextStackSlotIdx ≠ 4095
  | .createThread _ parent _ _ => parent ≠ none ∧ k.nextStackSlotIdx ≠ 4095
  | .cloneCurrentThread _ a => UserCaller k ∧ (a.childStack = 0 → k.nextStackSlotIdx ≠ 4095)
  | .cloneCurrentProcess _ _ a => a.childStack = 0 → k.nextStackSlotIdx ≠ 4095
  | .memory _ => False
  | op => StepOk k op

theorem Admits.stepOk {op : Op} (h : Admits k op) : StepOk k op := by
  cases op with
  | createThread => exact h.1
  | createProcess => trivial
  | startProcess => trivial
  | cloneCurrentThread => trivial
  | cloneCurrentProcess => trivial
  | memory => trivial
  | _ => exact h

/-- The process in whose address space a call works. -/
def actor (k : Kernel) : Op → Option Nat
  | .startProcess p _ _ => some p
  | .createThread _ parent _ _ => parent
  | .cloneCurrentThread .. | .cloneCurrentProcess .. | .exitCurrentThread => currentProcess k
  | .terminateThread t => (k.tcbs t).bind Tcb.parent
  | _ => none

/-- The address spaces that a call may change: the one it works in, the one it frees, and new ones. -/
def Touched (threadExit : Nat) (k : Kernel) (op : Op) (d : Nat) : Prop :=
  (actor k op).bind k.space = some d ∨ (victim threadExit k op).bind k.space = some d ∨
    ∀ q, k.space q ≠ some d

/-- A fresh stack is not mapped yet. -/
def Clean (k : Kernel) (op : Op) : Prop :=
  ∀ d, (actor k op).bind k.space = some d → NextUnmapped k d

structure SchedOk (base : Nat → Prop) (k : Kernel) (own : Owners) : Prop where
  rota : Rota k.view
  slots : SlotsOk k
  stacked : Stacked k
  spaces : Spaces base k own

/-- The new thread is one of the process that runs. -/
theorem cloneCurrentThread_parent {ptr : Nat} {a : CloneArgs} {t : Nat}
    (h : cloneCurrentThread k ptr a = (some t, k')) : ∃ p, currentProcess k = some p ∧
      k.pcbs p ≠ none ∧ (k'.tcbs ptr).bind Tcb.parent = some p := by
  unfold cloneCurrentThread at h
  cases hp : cloneParent k with
  | none =>
    rw [hp] at h
    exact nomatch (Prod.mk.inj h).1
  | some pp =>
    obtain ⟨p, pcb⟩ := pp
    obtain ⟨hcur, hpcb⟩ := cloneParent_some hp
    refine ⟨p, hcur, by simp [hpcb], ?_⟩
    rw [hp] at h
    cases hc : a.parentContext with
    | none =>
      rw [hc] at h
      exact nomatch (Prod.mk.inj h).1
    | some context =>
      rw [hc] at h
      dsimp only at h
      rcases newThread_cases k ptr (some p) pcb.pid (if a.childStack ≠ 0 then noSlot else 0)
        { context with eax := 0 } with ⟨tid, e⟩ | ⟨-, -, e⟩
      · rw [e] at h
        exact nomatch (Prod.mk.inj h).1
      · rw [e] at h
        dsimp only at h
        rcases cloneStack_cases (k.withThread_self ptr _) pcb.pageDirectory a.childStack with
          ⟨m, pool, next, e, -⟩ | ⟨m, s, pool, next, context', e, -⟩
        · rw [e] at h
          exact nomatch (Prod.mk.inj h).1
        · rw [e] at h
          obtain ⟨-, rfl⟩ := Prod.mk.inj h
          simp only [enqueue, Kernel.modPcb, Kernel.modTcb, Kernel.setPcb, Kernel.setTcb,
            Kernel.withMachine, Kernel.withThread, Function.update_self, Option.map_some,
            Option.bind_some, freshTcb]

theorem stacked_step (h : SchedOk base k own) (threadExit : Nat) {op : Op} (hok : Admits k op) :
    Stacked (step threadExit k op) := by
  have hst := h.stacked
  cases op with
  | createProcess pcbPtr tcbPtr isKernel entrypoint arg main =>
    exact stacked_createProcess hst threadExit pcbPtr tcbPtr isKernel entrypoint arg main
  | startProcess p tcbPtr arg => exact stacked_startProcess hst h.slots threadExit p tcbPtr arg
  | createThread ptr parent entrypoint arg =>
    obtain ⟨p, rfl⟩ := Option.ne_none_iff_exists'.mp hok.1
    exact stacked_createThread hst threadExit ptr p entrypoint arg
  | cloneCurrentThread ptr a =>
    simp only [step]
    rcases cloneCurrentThread_cases k ptr a with ⟨k', e, hf⟩ | ⟨p, k', e, hs⟩
    · rw [e]
      exact stacked_sameSched hst hf.toSameSched
    · rw [e]
      obtain ⟨q, hq, hpcb, htcb⟩ := cloneCurrentThread_parent e
      obtain ⟨tcb, htcbs, -, hp, -⟩ := hs.tcbs
      rw [htcbs, Function.update_self, Option.bind_some, hp] at htcb
      obtain rfl := Option.some.inj htcb
      exact hst.spawned hs (hok.1 p hq hpcb)
  | cloneCurrentProcess pcbPtr tcbPtr a =>
    obtain ⟨-, -, hspace⟩ := cloneCurrentProcess_acts h.spaces pcbPtr tcbPtr hok
    simp only [step]
    rcases cloneCurrentProcess_cases k pcbPtr tcbPtr a with ⟨k', e, hf⟩ | ⟨k₁, k', e, ha, hs⟩
    · rw [e]
      exact stacked_sameSched hst hf.toSameSched
    · rw [e] at hspace ⊢
      refine (stacked_addedProcess hst ha).spawned hs ?_
      rw [← space_spawned hs]
      exact hspace (by simp)
  | sleep ms => exact stacked_sleep hst ms
  | wakeThread t => exact stacked_wakeThread hst t
  | terminateThread t => exact stacked_terminateThread hst h.slots t
  | exitCurrentThread => exact stacked_exitCurrentThread hst h.slots
  | killProcess pid => exact stacked_killProcess hst h.slots pid
  | schedule context => exact stacked_schedule hst context
  | tick => exact hst.congr rfl rfl
  | memory => exact absurd hok id

/-! ## The address spaces -/

/-- The memory and the frame of the exit trampoline are the same. -/
structure SameMemory (k k' : Kernel) : Prop where
  machine : k'.machine = k.machine
  tramp : k'.trampolinePhys = k.trampolinePhys

theorem SameMemory.trans {k₁ : Kernel} (h : SameMemory k k₁) (h₁ : SameMemory k₁ k') : SameMemory k k' :=
  ⟨h₁.machine.trans h.machine, h₁.tramp.trans h.tramp⟩

theorem SameMemory.after {k₁ : Kernel} (h : SameMemory k₁ k') (hm : k₁.machine = k.machine)
    (ht : k₁.trampolinePhys = k.trampolinePhys) : SameMemory k k' :=
  SameMemory.trans ⟨hm, ht⟩ h

theorem sameMemory_saveCurrent (k : Kernel) (context : CpuState) :
    SameMemory k (saveCurrent k context) := by
  unfold saveCurrent
  split
  · exact ⟨rfl, rfl⟩
  · dsimp only
    split
    · split <;> exact ⟨rfl, rfl⟩
    all_goals exact ⟨rfl, rfl⟩

theorem sameMemory_wakeDue (n : Nat) : ∀ k : Kernel, SameMemory k (wakeDue k n) := by
  induction n with
  | zero => exact fun k => ⟨rfl, rfl⟩
  | succ n ih =>
    intro k
    unfold wakeDue
    split
    · exact ⟨rfl, rfl⟩
    dsimp only
    split
    · exact (ih _).after rfl rfl
    · exact (ih _).after rfl rfl

theorem sameMemory_drain (n : Nat) : ∀ k : Kernel, SameMemory k (drainPendingReclaims k n) := by
  induction n with
  | zero => exact fun k => ⟨rfl, rfl⟩
  | succ n ih =>
    intro k
    unfold drainPendingReclaims
    split
    · exact ⟨rfl, rfl⟩
    · exact (ih _).after (machine_dropThread _ _) (sameSpaces_dropThread _ _).tramp

theorem sameMemory_switchDirectory (k : Kernel) (directory : Nat) :
    SameMemory k (switchDirectory k directory) := by
  unfold switchDirectory
  split <;> exact ⟨rfl, rfl⟩

theorem sameMemory_dispatch (k : Kernel) (t : Nat) : SameMemory k (dispatch k t) := by
  unfold dispatch
  dsimp only
  split
  · exact ⟨rfl, rfl⟩
  · exact (sameMemory_switchDirectory _ _).after rfl rfl

theorem sameMemory_schedule (k : Kernel) (context : CpuState) : SameMemory k (schedule k context) := by
  unfold schedule
  dsimp only
  have hsave := (sameMemory_saveCurrent k context).trans
    (sameMemory_wakeDue (saveCurrent k context).blockedQueue.length _)
  generalize wakeDue (saveCurrent k context) _ = k₁ at hsave
  refine hsave.trans (SameMemory.trans ?_ (sameMemory_drain _ _))
  split
  · exact (sameMemory_switchDirectory _ _).after rfl rfl
  · exact (sameMemory_dispatch _ _).after rfl rfl

theorem startProcess_acts (h : SchedOk base k own) (threadExit p tcbPtr arg : Nat)
    (hnext : k.nextStackSlotIdx ≠ 4095) : ∃ own',
    Acts base (Touched threadExit k (.startProcess p tcbPtr arg)) (Clean k (.startProcess p tcbPtr arg))
      k (startProcess threadExit k p tcbPtr arg).2 own own' := by
  unfold startProcess
  cases hp : k.pcbs p with
  | none => exact ⟨own, .same h.spaces rfl rfl rfl⟩
  | some pcb =>
    dsimp only
    by_cases hentry : pcb.mainEntry = 0
    · rw [if_pos hentry]
      exact ⟨own, .same h.spaces rfl rfl rfl⟩
    rw [if_neg hentry]
    obtain ⟨own₁, ha⟩ := createThread_acts h.spaces (fun _ => hnext) threadExit tcbPtr pcb.mainEntry arg
      (p := p)
    have hr := rota_createThread h.rota threadExit tcbPtr p pcb.mainEntry arg
    have hs := slotsOk_createThread h.slots threadExit tcbPtr (some p) pcb.mainEntry arg
    have hst := stacked_createThread h.stacked threadExit tcbPtr p pcb.mainEntry arg
    have hlist := globalProcessList_createThread threadExit k tcbPtr p pcb.mainEntry arg
    have hspace := space_createThread threadExit k tcbPtr p pcb.mainEntry arg
    have ha₁ : Acts base (Touched threadExit k (.startProcess p tcbPtr arg))
        (Clean k (.startProcess p tcbPtr arg)) k
        (createThread threadExit k tcbPtr (some p) pcb.mainEntry arg).2 own own₁ :=
      ha.mono (fun e he => .inl he) id
    rcases createThread_cases threadExit k tcbPtr (some p) pcb.mainEntry arg with
      ⟨k₁, e, hf⟩ | ⟨hn, -⟩ | ⟨q, k₁, -, e, -⟩
    · rw [e] at hr hs hst hlist hspace ha₁ ⊢
      obtain ⟨own', ha'⟩ := killProcess_acts ha₁.spaces hr hs hst pcb.pid
      refine ⟨own', ha₁.trans (ha'.mono (fun d hd => .inr (.inl ?_)) fun _ => trivial)⟩
      have hfirst : firstWithPid k₁ pcb.pid = firstWithPid k pcb.pid := by
        unfold firstWithPid
        rw [ids_congr hf.pcbs, hlist]
      unfold victim
      dsimp only
      rw [hp]
      dsimp only
      rw [if_pos ⟨hentry, by rw [e]⟩, ← hfirst, ← hspace]
      exact hd
    · exact absurd hn (by simp)
    · rw [e] at ha₁ ⊢
      exact ⟨own₁, ha₁⟩

theorem exitCurrentThread_acts (h : SchedOk base k own) (threadExit : Nat) : ∃ own',
    Acts base (Touched threadExit k .exitCurrentThread) True k (exitCurrentThread k).2 own own' := by
  rcases exitCurrentThread_parts k with he | ⟨cur, hc, he, hnone⟩ |
    ⟨cur, p, pcb, threads, hc, hcur, hp, hpar, hperm, he⟩ <;> rw [he]
  · exact ⟨own, .same h.spaces rfl rfl rfl⟩
  · obtain ⟨own', ha⟩ := terminateThread_acts h.spaces h.slots (t := cur) fun p hs => h.stacked.space hs
    refine ⟨own', ha.mono (fun d hd => .inl ?_) id⟩
    unfold actor currentProcess
    rw [hc, Option.bind_some]
    exact hd
  · obtain ⟨k₁, hk₁⟩ : ∃ k₁, k₁ = k.modPcb p fun pcb => { pcb with threads := threads } := ⟨_, rfl⟩
    have hthreads : k.view.threads p = pcb.threads := by
      unfold Kernel.view
      simp only [hp, Option.map_some, Option.getD_some]
    have hr₁ : Rota k₁.view := by
      have hturned := h.rota.setThreads (p := p) (hperm.nodup_iff.mpr (hthreads ▸ h.rota.threads_nodup p))
        fun t ht => hthreads ▸ hperm.mem_iff.mp ht
      rw [hk₁, view_modPcb k p threads hp]
      exact hturned
    have hs₁ : SlotsOk k₁ := hk₁ ▸ h.slots.modPcb p _ fun _ => rfl
    have hst₁ : Stacked k₁ := hk₁ ▸ stacked_turned h.stacked hp hperm
    have hspace : k₁.space = k.space := hk₁ ▸ space_modPcb k p fun _ => rfl
    have h₁ : Acts base (Touched threadExit k .exitCurrentThread) True k k₁ own own :=
      .same h.spaces (hk₁ ▸ rfl) (hk₁ ▸ rfl) hspace
    rw [← hk₁]
    split
    · rename_i hlast
      obtain ⟨own', ha⟩ := killProcess_acts h₁.spaces hr₁ hs₁ hst₁ pcb.pid
      refine ⟨own', h₁.trans (ha.mono (fun d hd => .inr (.inl ?_)) id)⟩
      have hfirst : firstWithPid k₁ pcb.pid = firstWithPid k pcb.pid := by
        unfold firstWithPid
        rw [hk₁, ids_modPcb k p (f := fun pcb => { pcb with threads := threads }) fun _ => rfl]
        rfl
      unfold victim
      dsimp only
      rw [hcur, Option.bind_some, hp]
      dsimp only
      rw [if_pos hlast, ← hfirst, ← hspace]
      exact hd
    · obtain ⟨own', ha⟩ := terminateThread_acts h₁.spaces hs₁ (t := cur) fun q hs => hst₁.space hs
      refine ⟨own', h₁.trans (ha.mono (fun d hd => .inl ?_) id)⟩
      have htcbs : k₁.tcbs = k.tcbs := hk₁ ▸ rfl
      unfold actor
      rw [hcur]
      rw [htcbs, hpar, hspace] at hd
      exact hd

/-- What a call of the scheduler does to the address spaces. -/
theorem step_acts (h : SchedOk base k own) (threadExit : Nat) {op : Op} (hok : Admits k op) : ∃ own',
    Acts base (Touched threadExit k op) (Clean k op) k (step threadExit k op) own own' := by
  have hsame : ∀ {k'}, SameMemory k k' → k'.pcbs = k.pcbs → ∃ own',
      Acts base (Touched threadExit k op) (Clean k op) k k' own own' := fun hm hp =>
    ⟨own, .same h.spaces hm.machine hm.tramp (space_congr hp)⟩
  cases op with
  | createProcess pcbPtr tcbPtr isKernel entrypoint arg main =>
    obtain ⟨own', ha⟩ := createProcess_acts h.spaces threadExit pcbPtr tcbPtr isKernel entrypoint arg
      main hok
    exact ⟨own', ha.mono (fun _ he => .inr (.inr he)) fun _ => trivial⟩
  | startProcess p tcbPtr arg => exact startProcess_acts h threadExit p tcbPtr arg hok
  | createThread ptr parent entrypoint arg =>
    obtain ⟨p, rfl⟩ := Option.ne_none_iff_exists'.mp hok.1
    obtain ⟨own', ha⟩ := createThread_acts h.spaces (fun _ => hok.2) threadExit ptr entrypoint arg (p := p)
    exact ⟨own', ha.mono (fun _ he => .inl he) id⟩
  | cloneCurrentThread ptr a =>
    obtain ⟨own', ha⟩ := cloneCurrentThread_acts h.spaces ptr hok.1 hok.2
    exact ⟨own', ha.mono (fun _ he => .inl he) fun hc _ => hc⟩
  | cloneCurrentProcess pcbPtr tcbPtr a =>
    obtain ⟨own', ha, -⟩ := cloneCurrentProcess_acts h.spaces pcbPtr tcbPtr hok
    exact ⟨own', ha.mono (fun _ he => he.imp_right .inr) fun hc _ => hc⟩
  | sleep ms =>
    refine hsame ?_ ?_
    all_goals
      dsimp only [step]
      unfold sleep
      split
    · exact ⟨rfl, rfl⟩
    · exact ⟨rfl, rfl⟩
    · rfl
    · rfl
  | wakeThread t =>
    dsimp only [step]
    unfold wakeThread
    split
    · exact hsame ⟨rfl, rfl⟩ rfl
    split
    · exact hsame ⟨rfl, rfl⟩ rfl
    · exact hsame ⟨rfl, rfl⟩ rfl
  | terminateThread t =>
    obtain ⟨own', ha⟩ := terminateThread_acts h.spaces h.slots (t := t) fun p hs => h.stacked.space hs
    exact ⟨own', ha.mono (fun _ he => .inl he) fun _ => trivial⟩
  | exitCurrentThread =>
    obtain ⟨own', ha⟩ := exitCurrentThread_acts h threadExit
    exact ⟨own', ha.mono (fun _ he => he) fun _ => trivial⟩
  | killProcess pid =>
    obtain ⟨own', ha⟩ := killProcess_acts h.spaces h.rota h.slots h.stacked pid
    exact ⟨own', ha.mono (fun _ he => .inr (.inl he)) fun _ => trivial⟩
  | schedule context => exact hsame (sameMemory_schedule k context) (pcbs_schedule k context)
  | tick => exact hsame ⟨rfl, rfl⟩ rfl
  | memory => exact absurd hok id

/-- Every call keeps the invariants. -/
theorem schedOk_step (h : SchedOk base k own) (threadExit : Nat) {op : Op} (hok : Admits k op)
    (ha : Acts base (Touched threadExit k op) (Clean k op) k (step threadExit k op) own own') :
    SchedOk base (step threadExit k op) own' :=
  ⟨rota_step h.rota threadExit hok.stepOk, slotsOk_step h.slots threadExit op,
    stacked_step h threadExit hok, ha.spaces⟩

/-! ## The processes that go on -/

theorem space_killProcess (k : Kernel) (pid : Nat) : (killProcess k pid).2.space =
    match firstWithPid k pid with
    | some p => Function.update k.space p none
    | none => k.space := by
  rcases killProcess_parts k pid with ⟨hn, list, he⟩ |
    ⟨p, pcb, list, cr3, k₂, k₃, hfirst, hpcb, hk₂, hk₃, he⟩
  · rw [he, hn]
    rfl
  · rw [he, hfirst, space_forgetProcess]
    dsimp only
    have h₂ : k₂.space = k.space := hk₂ ▸ space_killThreads p _ _
    refine congrArg (Function.update · p none) (Eq.trans ?_ h₂)
    rw [hk₃]
    split <;> rfl

/-- A new process is at an address where there was none. -/
theorem space_addedProcess_of_live (h : AddedProcess k k' p) {q d : Nat} (hq : k.space q = some d) :
    k'.space q = some d := by
  obtain ⟨pcb, hpcbs, -⟩ := h.pcbs
  have hne : q ≠ p := fun he => by
    unfold Kernel.space at hq
    rw [he, h.fresh] at hq
    exact nomatch hq
  unfold Kernel.space at hq ⊢
  rwa [hpcbs, Function.update_of_ne hne]

/-- A user process goes on with its directory, unless the call ends it. -/
theorem space_step (threadExit : Nat) {op : Op} {q d : Nat} (hq : k.space q = some d)
    (hv : victim threadExit k op ≠ some q) : (step threadExit k op).space q = some d := by
  have hkill : ∀ {k' : Kernel} {pid : Nat}, k'.space = k.space → firstWithPid k' pid ≠ some q →
      (killProcess k' pid).2.space q = some d := fun {k' pid} hspace hne => by
    rw [space_killProcess]
    cases hf : firstWithPid k' pid with
    | none => exact hspace ▸ hq
    | some p =>
      dsimp only
      have hqp : q ≠ p := fun he => hne (hf.trans (congrArg some he.symm))
      rw [Function.update_of_ne hqp, hspace]
      exact hq
  cases op with
  | createProcess pcbPtr tcbPtr isKernel entrypoint arg main =>
    dsimp only [step]
    rcases createProcess_cases threadExit k pcbPtr tcbPtr isKernel entrypoint arg main with
      ⟨k', e, hf⟩ | ⟨k₁, k', e, ha, hs⟩
    · rw [e]
      exact space_congr hf.pcbs ▸ hq
    · rw [e]
      have h₁ := space_addedProcess_of_live ha hq
      rcases hs with rfl | hs
      · exact h₁
      · exact (space_spawned hs).symm ▸ h₁
  | startProcess p tcbPtr arg =>
    dsimp only [step]
    unfold startProcess
    dsimp only [victim] at hv
    cases hp : k.pcbs p with
    | none => exact hq
    | some pcb =>
      have hlist := globalProcessList_createThread threadExit k tcbPtr p pcb.mainEntry arg
      have hspace := space_createThread threadExit k tcbPtr p pcb.mainEntry arg
      rw [hp] at hv
      dsimp only at hv ⊢
      by_cases hentry : pcb.mainEntry = 0
      · rw [if_pos hentry]
        exact hq
      rw [if_neg hentry]
      rcases createThread_cases threadExit k tcbPtr (some p) pcb.mainEntry arg with
        ⟨k', e, hf⟩ | ⟨hnone, -⟩ | ⟨p', k', -, e, hs⟩
      · rw [e] at hlist hspace hv ⊢
        rw [if_pos ⟨hentry, rfl⟩] at hv
        refine hkill hspace fun hfirst => hv ?_
        rw [← hfirst]
        unfold firstWithPid
        rw [ids_congr hf.pcbs, ← hlist]
      · exact absurd hnone (Option.some_ne_none p)
      · rw [e] at hspace ⊢
        exact hspace ▸ hq
  | createThread tcbPtr parent entrypoint arg =>
    dsimp only [step]
    rcases createThread_cases threadExit k tcbPtr parent entrypoint arg with
      ⟨k', e, hf⟩ | ⟨-, -, context, e⟩ | ⟨p, k', -, e, hs⟩
    · rw [e]
      exact space_congr hf.pcbs ▸ hq
    · rw [e]
      exact hq
    · rw [e]
      exact (space_spawned hs).symm ▸ hq
  | cloneCurrentThread tcbPtr args =>
    dsimp only [step]
    rcases cloneCurrentThread_cases k tcbPtr args with ⟨k', e, hf⟩ | ⟨p, k', e, hs⟩
    · rw [e]
      exact space_congr hf.pcbs ▸ hq
    · rw [e]
      exact (space_spawned hs).symm ▸ hq
  | cloneCurrentProcess pcbPtr tcbPtr args =>
    dsimp only [step]
    rcases cloneCurrentProcess_cases k pcbPtr tcbPtr args with ⟨k', e, hf⟩ | ⟨k₁, k', e, ha, hs⟩
    · rw [e]
      exact space_congr hf.pcbs ▸ hq
    · rw [e]
      exact (space_spawned hs).symm ▸ space_addedProcess_of_live ha hq
  | sleep ms =>
    dsimp only [step]
    unfold sleep
    split <;> exact hq
  | wakeThread t =>
    dsimp only [step]
    unfold wakeThread
    split
    · exact hq
    · split <;> exact hq
  | terminateThread t => exact (space_terminateThread k t).symm ▸ hq
  | exitCurrentThread =>
    dsimp only [step]
    rcases exitCurrentThread_parts k with he | ⟨cur, -, he, -⟩ |
      ⟨cur, p, pcb, threads, -, hcur, hp, -, -, he⟩ <;> rw [he]
    · exact hq
    · exact (space_terminateThread k cur).symm ▸ hq
    · have hspace : (k.modPcb p fun pcb => { pcb with threads := threads }).space = k.space :=
        space_modPcb k p fun _ => rfl
      split
      · rename_i hlast
        refine hkill hspace fun hfirst => hv ?_
        dsimp only [victim]
        rw [hcur, Option.bind_some, hp]
        dsimp only
        rw [if_pos hlast, ← hfirst]
        unfold firstWithPid
        rw [ids_modPcb k p (f := fun pcb => { pcb with threads := threads }) fun _ => rfl]
        rfl
      · rw [space_terminateThread, hspace]
        exact hq
  | killProcess pid => exact hkill rfl hv
  | schedule context => exact space_congr (pcbs_schedule k context) ▸ hq
  | tick => exact hq
  | memory => exact hq

/-! ## Changes that the scheduler does not see -/

/-- A store to fields of a PCB that the scheduler does not read. -/
structure Aside (f : Pcb → Pcb) : Prop where
  pid : ∀ pcb, (f pcb).pid = pcb.pid
  threads : ∀ pcb, (f pcb).threads = pcb.threads
  directory : ∀ pcb, (f pcb).pageDirectory = pcb.pageDirectory
  kernel : ∀ pcb, (f pcb).isKernelProcess = pcb.isKernelProcess
  deferred : ∀ pcb, (f pcb).deferredStackSlots = pcb.deferredStackSlots

variable {f : Pcb → Pcb}

theorem Aside.space (h : Aside f) (pcb : Pcb) : (f pcb).space = pcb.space := by
  unfold Pcb.space
  rw [h.kernel, h.directory]

theorem Aside.view (h : Aside f) (k : Kernel) (p : Nat) : (k.modPcb p f).view = k.view := by
  unfold Kernel.view Kernel.modPcb Kernel.setPcb
  dsimp only
  congr 1
  funext q
  by_cases hq : q = p
  · rw [hq, Function.update_self]
    cases k.pcbs p with
    | none => rfl
    | some pcb => exact h.threads pcb
  · rw [Function.update_of_ne hq]

theorem Aside.stacked (h : Aside f) (hs : Stacked k) (p : Nat) : Stacked (k.modPcb p f) :=
  fun u q hu => by
    obtain ⟨pcb, hp, hm, hk⟩ := hs u q hu
    by_cases hqp : q = p
    · refine ⟨f pcb, ?_, (h.threads pcb).symm ▸ hm, (h.kernel pcb).trans hk⟩
      unfold Kernel.modPcb Kernel.setPcb
      dsimp only
      rw [hqp, Function.update_self, ← hqp, hp]
      rfl
    · refine ⟨pcb, ?_, hm, hk⟩
      unfold Kernel.modPcb Kernel.setPcb
      dsimp only
      rwa [Function.update_of_ne hqp]

theorem SchedOk.aside (h : SchedOk base k own) (hf : Aside f) (p : Nat) :
    SchedOk base (k.modPcb p f) own where
  rota := by
    rw [hf.view]
    exact h.rota
  slots := h.slots.modPcb p f hf.deferred
  stacked := hf.stacked h.stacked p
  spaces := h.spaces.congr rfl rfl (space_modPcb k p hf.space)

/-- Memory changed, with the frames of the address spaces. -/
theorem SchedOk.withMachine (h : SchedOk base k own) {m : Machine}
    (hs : Spaces base (k.withMachine m) own') : SchedOk base (k.withMachine m) own' where
  rota := h.rota
  slots := h.slots.congr rfl h.slots.deferred rfl rfl rfl h.slots.running h.slots.zone
  stacked := h.stacked.congr rfl rfl
  spaces := hs

end Sched
end Hashx86
