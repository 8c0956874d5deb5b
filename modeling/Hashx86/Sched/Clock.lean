import Hashx86.Sched.Run

/-!
# The clock

`timerTicks` moves in the timer interrupt alone (`timerTicks_step`): every function of the scheduler
leaves it as it was.
-/

namespace Hashx86
namespace Sched

open Lib Paging Kstack

variable (k : Kernel)

/-! ## Threads and stacks -/

@[simp] theorem timerTicks_dropThread (t : Nat) : (k.dropThread t).timerTicks = k.timerTicks := by
  unfold Kernel.dropThread
  cases k.tcbs t <;> rfl

@[simp] theorem timerTicks_takeSlot (directory : Nat) :
    (takeSlot k directory).2.timerTicks = k.timerTicks := by
  unfold takeSlot
  split <;> rfl

@[simp] theorem timerTicks_allocUserStack (t directory : Nat) :
    (allocUserStack k t directory).2.timerTicks = k.timerTicks := by
  have htake := timerTicks_takeSlot k directory
  unfold allocUserStack
  generalize takeSlot k directory = r at htake
  obtain ⟨slot, k₁⟩ := r
  cases slot with
  | none => exact (timerTicks_dropThread k₁ t).trans htake
  | some slot =>
    dsimp only
    split
    · exact (timerTicks_dropThread _ t).trans htake
    split
    · exact (timerTicks_dropThread _ t).trans htake
    split
    · exact (timerTicks_dropThread _ t).trans htake
    · exact htake

@[simp] theorem timerTicks_newThread (ptr : Nat) (parent : Option Nat) (pid slot : Nat)
    (context : CpuState) : (newThread k ptr parent pid slot context).2.timerTicks = k.timerTicks := by
  unfold newThread
  split
  · rfl
  · dsimp only
    split <;> rfl

@[simp] theorem timerTicks_enqueue (p t : Nat) : (enqueue k p t).timerTicks = k.timerTicks := rfl

@[simp] theorem timerTicks_createThread (threadExit ptr : Nat) (parent : Option Nat)
    (entrypoint arg : Nat) :
    (createThread threadExit k ptr parent entrypoint arg).2.timerTicks = k.timerTicks := by
  unfold createThread
  cases parent with
  | none => exact timerTicks_newThread _ _ _ _ _ _
  | some p =>
    dsimp only
    cases k.pcbs p with
    | none => rfl
    | some pcb =>
      dsimp only
      split
      · have hnew := timerTicks_newThread k ptr (some p) pcb.pid noSlot
          (kernelContext threadExit entrypoint arg)
        split <;> rename_i e <;> rw [e] at hnew <;> exact hnew
      · have hnew := timerTicks_newThread k ptr (some p) pcb.pid noSlot CpuState.zero
        split
        · rename_i e
          rw [e] at hnew
          exact hnew
        · rename_i t k₁ e
          rw [e] at hnew
          have hstack := timerTicks_allocUserStack k₁ t pcb.pageDirectory
          split <;> rename_i e₁ <;> rw [e₁] at hstack <;> exact hstack.trans hnew

@[simp] theorem timerTicks_createProcess (threadExit pcbPtr tcbPtr : Nat) (isKernel : Bool)
    (entrypoint arg : Nat) (main : Bool) :
    (createProcess threadExit k pcbPtr tcbPtr isKernel entrypoint arg main).2.timerTicks =
      k.timerTicks := by
  unfold createProcess
  split
  · rfl
  dsimp only
  generalize (if isKernel = true then (true, k.machine.kernelPageDirectory, k.machine)
    else newUserSpace k.machine k.trampolinePhys) = space
  obtain ⟨ok, directory, m⟩ := space
  cases ok with
  | false => rfl
  | true =>
    cases main with
    | false => rfl
    | true =>
      dsimp only
      simp only [Bool.not_true, Bool.false_eq_true, if_false]
      split
      · rename_i e
        exact (congrArg (fun r => r.2.timerTicks) e).symm.trans (timerTicks_createThread _ _ _ _ _ _)
      · rename_i e
        have hk := (congrArg (fun r => r.2.timerTicks) e).symm.trans
          (timerTicks_createThread _ _ _ _ _ _)
        dsimp only
        split <;> exact hk

/-! ## Clones -/

@[simp] theorem timerTicks_cloneStack (t directory childStack : Nat) :
    (cloneStack k t directory childStack).2.timerTicks = k.timerTicks := by
  have hstack := timerTicks_allocUserStack k t directory
  unfold cloneStack
  split
  · rfl
  · split <;> rename_i e <;> rw [e] at hstack <;> exact hstack

theorem timerTicks_cloneCurrentThread (ptr : Nat) (a : CloneArgs) :
    (cloneCurrentThread k ptr a).2.timerTicks = k.timerTicks := by
  unfold cloneCurrentThread
  split
  · dsimp only
    split
    · rename_i e
      exact (congrArg (fun r => r.2.timerTicks) e).symm.trans (timerTicks_newThread _ _ _ _ _ _)
    · rename_i e
      have hk := (congrArg (fun r => r.2.timerTicks) e).symm.trans (timerTicks_newThread _ _ _ _ _ _)
      split <;> rename_i e₁ <;>
        exact ((congrArg (fun r => r.2.timerTicks) e₁).symm.trans
          (timerTicks_cloneStack _ _ _ _)).trans hk
  · rfl

theorem timerTicks_cloneCurrentProcess (pcbPtr tcbPtr : Nat) (a : CloneArgs) :
    (cloneCurrentProcess k pcbPtr tcbPtr a).2.timerTicks = k.timerTicks := by
  unfold cloneCurrentProcess
  split
  · split
    · rfl
    split
    · rfl
    dsimp only
    split
    · rfl
    split
    · rfl
    split
    · rename_i e
      exact (congrArg (fun r => r.2.timerTicks) e).symm.trans (timerTicks_newThread _ _ _ _ _ _)
    · rename_i e
      have hk := (congrArg (fun r => r.2.timerTicks) e).symm.trans (timerTicks_newThread _ _ _ _ _ _)
      split <;> rename_i e₁ <;>
        exact ((congrArg (fun r => r.2.timerTicks) e₁).symm.trans
          (timerTicks_cloneStack _ _ _ _)).trans hk
  · rfl

/-! ## Termination -/

@[simp] theorem timerTicks_reclaimSlot (t : Nat) (tcb : Tcb) :
    (reclaimSlot k t tcb).timerTicks = k.timerTicks := by
  have hrecycle : ∀ (k : Kernel) (slot : Nat) (f : Tcb → Tcb),
      ((k.recycleSlot slot).modTcb t f).timerTicks = k.timerTicks := fun _ _ _ => rfl
  have hmachine : ∀ m, (k.withMachine m).timerTicks = k.timerTicks := fun _ => rfl
  unfold reclaimSlot
  split
  · rfl
  split
  · rfl
  refine (hrecycle _ _ _).trans ?_
  split
  · exact hmachine _
  · rfl

@[simp] theorem timerTicks_terminateThread (t : Nat) :
    (terminateThread k t).timerTicks = k.timerTicks := by
  unfold terminateThread
  cases k.tcbs t with
  | none => rfl
  | some tcb =>
    dsimp only
    split
    · rfl
    · have hslot := timerTicks_reclaimSlot { k.modTcb t fun tcb => { tcb with state := .terminated } with
        readyQueue := k.readyQueue.erase t, blockedQueue := k.blockedQueue.erase t } t tcb
      cases tcb.parent <;> dsimp only <;> split
      · exact hslot
      · exact (timerTicks_dropThread _ t).trans hslot
      · exact hslot
      · exact (timerTicks_dropThread _ t).trans hslot

@[simp] theorem timerTicks_killThreads (p n : Nat) : (killThreads k p n).timerTicks = k.timerTicks := by
  induction n generalizing k with
  | zero => rfl
  | succ n ih =>
    unfold killThreads
    split
    · exact ih k
    · rw [ih, timerTicks_terminateThread]
      rfl

@[simp] theorem timerTicks_killProcess (pid : Nat) :
    (killProcess k pid).2.timerTicks = k.timerTicks := by
  unfold killProcess
  generalize killScan k pid k.globalProcessList.length k.globalProcessList = scan
  obtain ⟨target, list⟩ := scan
  dsimp only
  cases target with
  | none => rfl
  | some p =>
    dsimp only
    cases k.pcbs p with
    | none => rfl
    | some pcb =>
      dsimp only
      generalize hk₁ : (if pcb.pageDirectory = k.cr3 then
        ({ k with globalProcessList := list, cr3 := k.machine.kernelPageDirectory } : Kernel)
        else { k with globalProcessList := list }) = k₁
      have h₁ : k₁.timerTicks = k.timerTicks := by
        subst hk₁
        split <;> rfl
      have h₂ := (timerTicks_killThreads k₁ p pcb.threads.length).trans h₁
      split <;> exact h₂

theorem timerTicks_startProcess (threadExit p tcbPtr arg : Nat) :
    (startProcess threadExit k p tcbPtr arg).2.timerTicks = k.timerTicks := by
  unfold startProcess
  split
  · rfl
  split
  · rfl
  split <;> rename_i e
  · exact (congrArg (fun r => r.2.timerTicks) e).symm.trans (timerTicks_createThread _ _ _ _ _ _)
  · rw [timerTicks_killProcess]
    exact (congrArg (fun r => r.2.timerTicks) e).symm.trans (timerTicks_createThread _ _ _ _ _ _)

theorem timerTicks_exitCurrentThread : (exitCurrentThread k).2.timerTicks = k.timerTicks := by
  unfold exitCurrentThread
  split
  · rfl
  split
  · rfl
  split
  · exact timerTicks_terminateThread _ _
  split
  · rfl
  dsimp only
  split
  · exact timerTicks_killProcess _ _
  · exact timerTicks_terminateThread _ _

/-! ## Sleep, wake and the context switch -/

@[simp] theorem timerTicks_sleep (ms : Nat) : (sleep k ms).timerTicks = k.timerTicks := by
  unfold sleep
  split <;> rfl

theorem timerTicks_wakeThread (t : Nat) : (wakeThread k t).timerTicks = k.timerTicks := by
  unfold wakeThread
  split
  · rfl
  · split <;> rfl

@[simp] theorem timerTicks_saveCurrent (context : CpuState) :
    (saveCurrent k context).timerTicks = k.timerTicks := by
  unfold saveCurrent
  split
  · rfl
  dsimp only
  split
  · split <;> rfl
  all_goals rfl

@[simp] theorem timerTicks_wakeDue (n : Nat) : (wakeDue k n).timerTicks = k.timerTicks := by
  induction n generalizing k with
  | zero => rfl
  | succ n ih =>
    unfold wakeDue
    split
    · rfl
    · split <;> exact ih _

@[simp] theorem timerTicks_switchDirectory (directory : Nat) :
    (switchDirectory k directory).timerTicks = k.timerTicks := by
  unfold switchDirectory
  split <;> rfl

@[simp] theorem timerTicks_dispatch (t : Nat) : (dispatch k t).timerTicks = k.timerTicks := by
  unfold dispatch
  dsimp only
  split
  · rfl
  · exact timerTicks_switchDirectory _ _

@[simp] theorem timerTicks_drain (n : Nat) :
    (drainPendingReclaims k n).timerTicks = k.timerTicks := by
  induction n generalizing k with
  | zero => rfl
  | succ n ih =>
    unfold drainPendingReclaims
    split
    · rfl
    · rw [ih, timerTicks_dropThread]

theorem timerTicks_schedule (context : CpuState) :
    (schedule k context).timerTicks = k.timerTicks := by
  have hwake := (timerTicks_wakeDue (saveCurrent k context)
    (saveCurrent k context).blockedQueue.length).trans (timerTicks_saveCurrent k context)
  unfold schedule
  rw [timerTicks_drain]
  split
  · rw [timerTicks_switchDirectory]
    exact hwake
  · rw [timerTicks_dispatch]
    exact hwake

/-- A call leaves the clock alone, unless it is the timer's. -/
theorem timerTicks_step (threadExit : Nat) {op : Op} (h : ∀ n, op ≠ .tick n) :
    (step threadExit k op).timerTicks = k.timerTicks := by
  cases op with
  | createProcess => exact timerTicks_createProcess _ _ _ _ _ _ _ _
  | startProcess => exact timerTicks_startProcess _ _ _ _ _
  | createThread => exact timerTicks_createThread _ _ _ _ _ _
  | cloneCurrentThread => exact timerTicks_cloneCurrentThread _ _ _
  | cloneCurrentProcess => exact timerTicks_cloneCurrentProcess _ _ _ _
  | sleep => exact timerTicks_sleep _ _
  | wakeThread => exact timerTicks_wakeThread _ _
  | terminateThread => exact timerTicks_terminateThread _ _
  | exitCurrentThread => exact timerTicks_exitCurrentThread _
  | killProcess => exact timerTicks_killProcess _ _
  | schedule => exact timerTicks_schedule _ _
  | tick n => exact absurd rfl (h n)
  | memory => rfl

/-- The clock never goes back. -/
theorem timerTicks_mono (threadExit : Nat) (op : Op) :
    k.timerTicks ≤ (step threadExit k op).timerTicks := by
  by_cases h : ∀ n, op ≠ .tick n
  · exact (timerTicks_step k threadExit h).ge
  · push Not at h
    obtain ⟨n, rfl⟩ := h
    exact Nat.le_add_right _ _

end Sched
end Hashx86
