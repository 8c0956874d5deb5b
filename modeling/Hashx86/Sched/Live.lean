import Hashx86.Sched.Run

/-!
# Which processes live

`ids k p` is the PID of the process at `p`, if there is one. A call of the scheduler makes at most
one process or ends at most one (`ids_step`); `victim` says which one it ends.

* `KillProcess` ends the first process of the list that has the PID.
* `ExitCurrentThread` does so with the PID of the current process when it has at most one thread
  left, and `StartProcess` when the thread cannot be created.
-/

namespace Hashx86
namespace Sched

open Lib Paging Kstack

/-- The PID of a live process. -/
def Kernel.ids (k : Kernel) (p : Nat) : Option Nat := (k.pcbs p).map (·.pid)

/-- The process that `KillProcess` finds. -/
def firstWithPid (k : Kernel) (pid : Nat) : Option Nat :=
  k.globalProcessList.find? fun p => k.ids p = some pid

/-- The threads of the list that have not terminated. -/
def activeThreads (k : Kernel) (threads : List Nat) : Nat :=
  threads.countP fun t => (k.tcbs t).map (·.state) ≠ some .terminated

/-- `GetCurrentProcess`. -/
def currentProcess (k : Kernel) : Option Nat := (k.currentThread.bind k.tcbs).bind (·.parent)

/-- The process that a call ends. -/
def victim (threadExit : Nat) (k : Kernel) : Op → Option Nat
  | .killProcess pid => firstWithPid k pid
  | .exitCurrentThread =>
    match (currentProcess k).bind k.pcbs with
    | none => none
    | some pcb => if activeThreads k pcb.threads ≤ 1 then firstWithPid k pcb.pid else none
  | .startProcess p tcbPtr arg =>
    match k.pcbs p with
    | none => none
    | some pcb =>
      if pcb.mainEntry ≠ 0 ∧
          (createThread threadExit k tcbPtr (some p) pcb.mainEntry arg).1 = none then
        firstWithPid k pcb.pid
      else none
  | _ => none

/-- Where a call makes a process. -/
def newPcbPtr : Op → Option Nat
  | .createProcess pcbPtr _ _ _ _ _ => some pcbPtr
  | .cloneCurrentProcess pcbPtr _ _ => some pcbPtr
  | _ => none

/-! ## The pieces -/

section Pieces

variable {k k' : Kernel}

theorem ids_modPcb (k : Kernel) (p : Nat) {f : Pcb → Pcb} (hf : ∀ pcb, (f pcb).pid = pcb.pid) :
    (k.modPcb p f).ids = k.ids := by
  funext q
  unfold Kernel.modPcb Kernel.setPcb Kernel.ids
  dsimp only
  by_cases hq : q = p
  · subst hq
    rw [Function.update_self]
    cases k.pcbs q with
    | none => rfl
    | some pcb => exact congrArg some (hf pcb)
  · rw [Function.update_of_ne hq]

theorem ids_congr (h : k'.pcbs = k.pcbs) : k'.ids = k.ids := by
  unfold Kernel.ids
  rw [h]

theorem pcbs_dropThread (k : Kernel) (t : Nat) : (k.dropThread t).pcbs = k.pcbs := by
  unfold Kernel.dropThread
  split <;> rfl

theorem pcbs_reclaimSlot (k : Kernel) (t : Nat) (tcb : Tcb) :
    (reclaimSlot k t tcb).pcbs = k.pcbs := by
  unfold reclaimSlot
  cases tcb.parent with
  | none => rfl
  | some p =>
    dsimp only
    generalize ((k.pcbs p).map (·.pageDirectory)).getD 0 = directory
    by_cases hslot : tcb.stackSlotIdx = noSlot
    · rw [if_pos hslot]
    · rw [if_neg hslot]
      -- for any memory, so that the kernel need not look at the loop over the stack's pages
      have hback : ∀ m, (((k.withMachine m).recycleSlot tcb.stackSlotIdx).modTcb t fun tcb =>
          { tcb with stackSlotIdx := noSlot }).pcbs = k.pcbs := fun m => rfl
      by_cases hd : directory ≠ 0
      · rw [if_pos hd]
        exact hback _
      · rw [if_neg hd]
        exact hback k.machine

theorem ids_terminateThread (k : Kernel) (t : Nat) : (terminateThread k t).ids = k.ids := by
  have hleave : ∀ {k₁ : Kernel}, k₁.ids = k.ids → (if k₁.currentThread = some t then
      { k₁ with currentThread := none, pendingReclaims := k₁.pendingReclaims ++ [t] }
      else k₁.dropThread t).ids = k.ids := fun h => by
    split
    · exact h
    · exact (ids_congr (pcbs_dropThread _ t)).trans h
  unfold terminateThread
  split
  · rfl
  rename_i tcb _
  split
  · rfl
  dsimp only
  refine hleave ?_
  generalize hk₁ : reclaimSlot _ t tcb = k₁
  have h₁ : k₁.ids = k.ids := ids_congr (hk₁ ▸ pcbs_reclaimSlot _ _ _)
  cases tcb.parent with
  | none => exact h₁
  | some p => exact (ids_modPcb k₁ p (f := fun pcb => { pcb with threads := pcb.threads.erase t })
      fun _ => rfl).trans h₁

theorem ids_killThreads (k : Kernel) (p n : Nat) : (killThreads k p n).ids = k.ids := by
  induction n generalizing k with
  | zero => rfl
  | succ n ih =>
    unfold killThreads
    split
    · exact ih k
    · rw [ih, ids_terminateThread]
      exact ids_modPcb _ _ fun _ => rfl

theorem pcbs_wakeDue (k : Kernel) (n : Nat) : (wakeDue k n).pcbs = k.pcbs := by
  induction n generalizing k with
  | zero => rfl
  | succ n ih =>
    unfold wakeDue
    split
    · rfl
    split <;> exact ih _

theorem pcbs_drain (k : Kernel) (n : Nat) : (drainPendingReclaims k n).pcbs = k.pcbs := by
  induction n generalizing k with
  | zero => rfl
  | succ n ih =>
    unfold drainPendingReclaims
    split
    · rfl
    · exact (ih _).trans (pcbs_dropThread _ _)

theorem pcbs_saveCurrent (k : Kernel) (context : CpuState) :
    (saveCurrent k context).pcbs = k.pcbs := by
  unfold saveCurrent
  split
  · rfl
  · dsimp only
    split
    · split <;> rfl
    all_goals rfl

theorem pcbs_switchDirectory (k : Kernel) (directory : Nat) :
    (switchDirectory k directory).pcbs = k.pcbs := by
  unfold switchDirectory
  split <;> rfl

theorem pcbs_dispatch (k : Kernel) (t : Nat) : (dispatch k t).pcbs = k.pcbs := by
  unfold dispatch
  dsimp only
  split
  · rfl
  · exact pcbs_switchDirectory _ _

theorem pcbs_schedule (k : Kernel) (context : CpuState) : (schedule k context).pcbs = k.pcbs := by
  unfold schedule
  dsimp only
  rw [pcbs_drain]
  split
  · rw [pcbs_switchDirectory]
    exact (pcbs_wakeDue _ _).trans (pcbs_saveCurrent k context)
  · rw [pcbs_dispatch]
    exact (pcbs_wakeDue _ _).trans (pcbs_saveCurrent k context)

theorem ids_spawned {p t : Nat} (h : Spawned k k' p t) : k'.ids = k.ids := by
  obtain ⟨pcb, hp, hpcbs⟩ := h.pcbs
  funext q
  unfold Kernel.ids
  rw [hpcbs]
  by_cases hq : q = p
  · subst hq
    rw [Function.update_self, hp]
    rfl
  · rw [Function.update_of_ne hq]

theorem ids_addedProcess {p : Nat} (h : AddedProcess k k' p) :
    ∃ pid, k'.ids = Function.update k.ids p (some pid) := by
  obtain ⟨pcb, hpcbs, -⟩ := h.pcbs
  refine ⟨pcb.pid, funext fun q => ?_⟩
  unfold Kernel.ids
  rw [hpcbs]
  by_cases hq : q = p
  · subst hq
    rw [Function.update_self, Function.update_self]
    rfl
  · rw [Function.update_of_ne hq, Function.update_of_ne hq]

end Pieces

/-! ## The scans -/

theorem killScan_fst (k : Kernel) (pid : Nat) (list rest : List Nat) :
    (killScan k pid list.length (list ++ rest)).1 = list.find? fun p => k.ids p = some pid := by
  induction list generalizing rest with
  | nil => rfl
  | cons p list ih =>
    rw [List.length_cons, List.cons_append]
    unfold killScan
    change (if k.ids p = some pid then (some p, list ++ rest ++ [p])
      else killScan k pid list.length (list ++ rest ++ [p])).1 = _
    by_cases hp : k.ids p = some pid
    · rw [if_pos hp, List.find?_cons_of_pos (by simpa using hp)]
    · rw [if_neg hp, List.find?_cons_of_neg (by simpa using hp), List.append_assoc]
      exact ih (rest ++ [p])

theorem countActive_fst (k : Kernel) (list rest : List Nat) :
    (countActive k list.length (list ++ rest)).1 = activeThreads k list := by
  induction list generalizing rest with
  | nil => rfl
  | cons t list ih =>
    have h := ih (rest ++ [t])
    rw [List.length_cons, List.cons_append]
    unfold countActive activeThreads
    rw [List.append_assoc]
    dsimp only
    rw [h, List.countP_cons]
    unfold activeThreads
    by_cases ht : (k.tcbs t).map (·.state) = some .terminated
    · rw [if_pos ht, if_neg (by simpa using ht), Nat.add_zero]
    · rw [if_neg ht, if_pos (by simpa using ht)]

theorem firstWithPid_live {k : Kernel} {pid p : Nat} (h : firstWithPid k pid = some p) :
    (k.ids p).isSome := by
  have hp : k.ids p = some pid := by simpa using List.find?_some h
  rw [hp]
  rfl

theorem victim_live {threadExit : Nat} {k : Kernel} {op : Op} {p : Nat}
    (h : victim threadExit k op = some p) : (k.ids p).isSome := by
  unfold victim at h
  split at h
  · exact firstWithPid_live h
  · split at h
    · exact absurd h (Option.some_ne_none p).symm
    · split at h
      · exact firstWithPid_live h
      · exact absurd h (Option.some_ne_none p).symm
  · split at h
    · exact absurd h (Option.some_ne_none p).symm
    · split at h
      · exact firstWithPid_live h
      · exact absurd h (Option.some_ne_none p).symm
  · exact absurd h (Option.some_ne_none p).symm

/-! ## Each call -/

theorem ids_forgetProcess (k : Kernel) (p : Nat) :
    (forgetProcess k p).ids = Function.update k.ids p none := by
  funext q
  unfold forgetProcess Kernel.setPcb Kernel.ids
  dsimp only
  by_cases hq : q = p
  · subst hq
    rw [Function.update_self, Function.update_self]
    rfl
  · rw [Function.update_of_ne hq, Function.update_of_ne hq]

theorem ids_killProcess (k : Kernel) (pid : Nat) :
    (killProcess k pid).2.ids = match firstWithPid k pid with
      | some p => Function.update k.ids p none
      | none => k.ids := by
  have hscan := killScan_fst k pid k.globalProcessList []
  rw [List.append_nil] at hscan
  unfold killProcess firstWithPid
  dsimp only
  rw [hscan]
  cases hfind : k.globalProcessList.find? fun p => k.ids p = some pid with
  | none => rfl
  | some p =>
    have hp : k.ids p = some pid := by simpa using List.find?_some hfind
    obtain ⟨pcb, hpcb, -⟩ := Option.map_eq_some_iff.mp hp
    dsimp only
    rw [hpcb]
    dsimp only
    rw [ids_forgetProcess]
    generalize hk₁ : (if pcb.pageDirectory = k.cr3 then _ else _ : Kernel) = k₁
    have h₁ : k₁.ids = k.ids := by
      rw [← hk₁]
      split <;> rfl
    have h₂ := (ids_killThreads k₁ p pcb.threads.length).trans h₁
    generalize killThreads k₁ p pcb.threads.length = k₂ at h₂ ⊢
    refine congrArg (Function.update · p none) (Eq.trans ?_ h₂)
    split <;> rfl

theorem globalProcessList_createThread (threadExit : Nat) (k : Kernel) (ptr p entrypoint arg : Nat) :
    (createThread threadExit k ptr (some p) entrypoint arg).2.globalProcessList =
      k.globalProcessList := by
  unfold createThread
  dsimp only
  cases k.pcbs p with
  | none => rfl
  | some pcb =>
    dsimp only
    split
    · rcases newThread_cases k ptr (some p) pcb.pid noSlot
          (kernelContext threadExit entrypoint arg) with ⟨tid, e⟩ | ⟨-, -, e⟩
      · rw [e]
      · rw [e]
        rfl
    · rcases newThread_cases k ptr (some p) pcb.pid noSlot CpuState.zero with
        ⟨tid, e⟩ | ⟨-, -, e⟩
      · rw [e]
      · rw [e]
        dsimp only
        rcases allocUserStack_cases (k.withThread_self ptr _) pcb.pageDirectory with
          ⟨m, pool, next, e, -⟩ | ⟨r, m, s, pool, next, e, -⟩
        · rw [e]
          rfl
        · rw [e]
          rfl

/-- A call ends the victim, or makes a process, or neither. -/
theorem ids_step (threadExit : Nat) (k : Kernel) (op : Op) :
    (∃ p, victim threadExit k op = some p ∧
      (step threadExit k op).ids = Function.update k.ids p none) ∨
    victim threadExit k op = none ∧ ((step threadExit k op).ids = k.ids ∨
      ∃ p pid, newPcbPtr op = some p ∧ k.ids p = none ∧
        (step threadExit k op).ids = Function.update k.ids p (some pid)) := by
  have hkill : ∀ {k' : Kernel} {pid : Nat}, k'.ids = k.ids →
      k'.globalProcessList = k.globalProcessList →
      (∃ p, firstWithPid k pid = some p ∧
        (killProcess k' pid).2.ids = Function.update k.ids p none) ∨
      firstWithPid k pid = none ∧ (killProcess k' pid).2.ids = k.ids := fun {k' pid} hids hlist => by
    have hsame : firstWithPid k' pid = firstWithPid k pid := by
      unfold firstWithPid
      rw [hids, hlist]
    rw [ids_killProcess, hsame, hids]
    cases firstWithPid k pid with
    | none => exact .inr ⟨rfl, rfl⟩
    | some p => exact .inl ⟨p, rfl, rfl⟩
  cases op with
  | createProcess pcbPtr tcbPtr isKernel entrypoint arg main =>
    refine .inr ⟨rfl, ?_⟩
    dsimp only [step]
    rcases createProcess_cases threadExit k pcbPtr tcbPtr isKernel entrypoint arg main with
      ⟨k', e, hf⟩ | ⟨k₁, k', e, ha, hs⟩
    · rw [e]
      exact .inl (ids_congr hf.pcbs)
    · rw [e]
      obtain ⟨pid, hids⟩ := ids_addedProcess ha
      refine .inr ⟨pcbPtr, pid, rfl, congrArg (Option.map _) ha.fresh, ?_⟩
      rcases hs with rfl | hs
      · exact hids
      · exact (ids_spawned hs).trans hids
  | startProcess p tcbPtr arg =>
    dsimp only [step, victim]
    unfold startProcess
    cases hp : k.pcbs p with
    | none => exact .inr ⟨rfl, .inl rfl⟩
    | some pcb =>
      have hlist := globalProcessList_createThread threadExit k tcbPtr p pcb.mainEntry arg
      dsimp only
      by_cases hentry : pcb.mainEntry = 0
      · rw [if_pos hentry, if_neg fun h => h.1 hentry]
        exact .inr ⟨rfl, .inl rfl⟩
      rw [if_neg hentry]
      rcases createThread_cases threadExit k tcbPtr (some p) pcb.mainEntry arg with
        ⟨k', e, hf⟩ | ⟨hnone, -⟩ | ⟨p', k', -, e, hs⟩
      · rw [e] at hlist ⊢
        rw [if_pos ⟨hentry, rfl⟩]
        exact (hkill (ids_congr hf.pcbs) hlist).imp_right fun h => ⟨h.1, .inl h.2⟩
      · exact absurd hnone (Option.some_ne_none p)
      · rw [e, if_neg fun h => Option.some_ne_none _ h.2]
        exact .inr ⟨rfl, .inl (ids_spawned hs)⟩
  | createThread tcbPtr parent entrypoint arg =>
    refine .inr ⟨rfl, .inl ?_⟩
    dsimp only [step]
    rcases createThread_cases threadExit k tcbPtr parent entrypoint arg with
      ⟨k', e, hf⟩ | ⟨-, -, context, e⟩ | ⟨p, k', -, e, hs⟩
    · rw [e]
      exact ids_congr hf.pcbs
    · rw [e]
      rfl
    · rw [e]
      exact ids_spawned hs
  | cloneCurrentThread tcbPtr args =>
    refine .inr ⟨rfl, .inl ?_⟩
    dsimp only [step]
    rcases cloneCurrentThread_cases k tcbPtr args with ⟨k', e, hf⟩ | ⟨p, k', e, hs⟩
    · rw [e]
      exact ids_congr hf.pcbs
    · rw [e]
      exact ids_spawned hs
  | cloneCurrentProcess pcbPtr tcbPtr args =>
    refine .inr ⟨rfl, ?_⟩
    dsimp only [step]
    rcases cloneCurrentProcess_cases k pcbPtr tcbPtr args with ⟨k', e, hf⟩ | ⟨k₁, k', e, ha, hs⟩
    · rw [e]
      exact .inl (ids_congr hf.pcbs)
    · rw [e]
      obtain ⟨pid, hids⟩ := ids_addedProcess ha
      exact .inr ⟨pcbPtr, pid, rfl, congrArg (Option.map _) ha.fresh, (ids_spawned hs).trans hids⟩
  | sleep ms =>
    refine .inr ⟨rfl, .inl (ids_congr ?_)⟩
    dsimp only [step]
    unfold sleep
    split <;> rfl
  | wakeThread t =>
    refine .inr ⟨rfl, .inl (ids_congr ?_)⟩
    dsimp only [step]
    unfold wakeThread
    split
    · rfl
    · split <;> rfl
  | terminateThread t => exact .inr ⟨rfl, .inl (ids_terminateThread k t)⟩
  | exitCurrentThread =>
    dsimp only [step, victim]
    unfold exitCurrentThread currentProcess
    cases k.currentThread with
    | none => exact .inr ⟨rfl, .inl rfl⟩
    | some cur =>
      simp only [Option.bind_some]
      cases k.tcbs cur with
      | none => exact .inr ⟨rfl, .inl rfl⟩
      | some tcb =>
        simp only [Option.bind_some]
        cases tcb.parent with
        | none => exact .inr ⟨rfl, .inl (ids_terminateThread k cur)⟩
        | some p =>
          simp only [Option.bind_some]
          cases k.pcbs p with
          | none => exact .inr ⟨rfl, .inl rfl⟩
          | some pcb =>
            have hcount := countActive_fst k pcb.threads []
            rw [List.append_nil] at hcount
            dsimp only
            rw [hcount]
            generalize hk₁ : k.modPcb p _ = k₁
            have hids : k₁.ids = k.ids := hk₁ ▸ ids_modPcb k p fun _ => rfl
            have hlist : k₁.globalProcessList = k.globalProcessList := hk₁ ▸ rfl
            by_cases hlast : activeThreads k pcb.threads ≤ 1
            · rw [if_pos hlast, if_pos hlast]
              exact (hkill hids hlist).imp_right fun h => ⟨h.1, .inl h.2⟩
            · rw [if_neg hlast, if_neg hlast]
              exact .inr ⟨rfl, .inl ((ids_terminateThread k₁ cur).trans hids)⟩
  | killProcess pid =>
    exact (@hkill k pid rfl rfl).imp_right fun h => ⟨h.1, .inl h.2⟩
  | schedule context => exact .inr ⟨rfl, .inl (ids_congr (pcbs_schedule k context))⟩
  | tick => exact .inr ⟨rfl, .inl rfl⟩
  | memory => exact .inr ⟨rfl, .inl rfl⟩

end Sched
end Hashx86
