import Hashx86.Lib.Run
import Hashx86.Sched.Rota
import Hashx86.Sched.Run

/-!
# Every thread is in one queue

`Kernel.view` is the kernel as the rota sees it. Each function of the scheduler does to the view
what the view's own operation does (`view_spawned`, `view_terminated`, `view_schedule`), so the
invariant `Rota` holds along every run whose steps meet `StepOk` (`rota_step`). `placed_run` is the
result: after each `Schedule` every live thread is in one place.

Without `StepOk` it is not: `sleep_twice` puts the running thread in both queues.
-/

namespace Hashx86
namespace Sched

open Lib Paging Kstack

/-- The kernel as the rota sees it. -/
def Kernel.view (k : Kernel) : View where
  state t := (k.tcbs t).map Tcb.state
  parent t := (k.tcbs t).bind Tcb.parent
  threads p := ((k.pcbs p).map Pcb.threads).getD []
  ready := k.readyQueue
  blocked := k.blockedQueue
  terminated := k.terminatedQueue
  pending := k.pendingReclaims
  current := k.currentThread
  idle := k.idleThread

/-! ## Updates of the kernel -/

theorem map_update {α β : Type} (f : Nat → Option α) (t : Nat) (x : Option α) (g : α → β) :
    (fun u => (Function.update f t x u).map g) =
      Function.update (fun u => (f u).map g) t (x.map g) := by
  funext u
  by_cases h : u = t
  · subst h
    simp only [Function.update_self]
  · simp only [Function.update_of_ne h]

theorem bind_update {α β : Type} (f : Nat → Option α) (t : Nat) (x : Option α)
    (g : α → Option β) :
    (fun u => (Function.update f t x u).bind g) =
      Function.update (fun u => (f u).bind g) t (x.bind g) := by
  funext u
  by_cases h : u = t
  · subst h
    simp only [Function.update_self]
  · simp only [Function.update_of_ne h]

theorem getD_update {α β : Type} (f : Nat → Option α) (p : Nat) (x : Option α) (g : α → β) (d : β) :
    (fun q => ((Function.update f p x q).map g).getD d) =
      Function.update (fun q => ((f q).map g).getD d) p ((x.map g).getD d) := by
  funext q
  by_cases h : q = p
  · subst h
    simp only [Function.update_self]
  · simp only [Function.update_of_ne h]

theorem view_sameSched {k k' : Kernel} (h : SameSched k k') : k'.view = k.view := by
  unfold Kernel.view
  rw [h.tcbs, h.pcbs, h.ready, h.blocked, h.terminated, h.pending, h.current, h.idle]

theorem view_spawned {k k' : Kernel} {p t : Nat} (h : Spawned k k' p t) :
    k'.view = k.view.spawn p t := by
  obtain ⟨pcb, hp, hpcbs⟩ := h.pcbs
  obtain ⟨tcb, htcbs, hst, hpar, -⟩ := h.tcbs
  unfold Kernel.view View.spawn
  rw [htcbs, hpcbs, h.ready, h.blocked, h.terminated, h.pending, h.current, h.idle, map_update,
    bind_update, getD_update]
  simp only [hp, hst, hpar, Option.map_some, Option.bind_some, Option.getD_some]

theorem view_addedProcess {k k' : Kernel} {p : Nat} (h : AddedProcess k k' p) :
    k'.view = k.view := by
  obtain ⟨pcb, hpcbs, hnil, -⟩ := h.pcbs
  unfold Kernel.view
  rw [hpcbs, h.tcbs, h.ready, h.blocked, h.terminated, h.pending, h.current, h.idle, getD_update]
  simp only [Option.map_some, Option.getD_some, hnil]
  rw [Function.update_eq_self_iff.mpr]
  simp only [h.fresh, Option.map_none, Option.getD_none]

theorem view_terminated {k k' : Kernel} {t : Nat} {tcb : Tcb} (ht : k.tcbs t = some tcb)
    (h : Terminated k k' t tcb) : k'.view = k.view.terminate t := by
  have hpar : k.view.parent t = tcb.parent := by
    unfold Kernel.view
    simp only [ht, Option.bind_some]
  have hthreads : (fun q => ((k'.pcbs q).map Pcb.threads).getD []) = k.view.leaveParent t := by
    unfold View.leaveParent
    rw [hpar, h.pcbs]
    cases tcb.parent with
    | none => rfl
    | some p =>
      dsimp only
      rw [getD_update]
      change _ = Function.update k.view.threads p ((((k.pcbs p).map Pcb.threads).getD []).erase t)
      cases k.pcbs p <;> rfl
  have hstate : (fun u => (k'.tcbs u).map Tcb.state) = Function.update k.view.state t
      (if k.currentThread = some t then some .terminated else none) := by
    rw [h.tcbs, map_update]
    unfold Kernel.view
    split <;> rfl
  have hparent : (fun u => (k'.tcbs u).bind Tcb.parent) = Function.update k.view.parent t
      (if k.currentThread = some t then k.view.parent t else none) := by
    rw [h.tcbs, bind_update, hpar]
    unfold Kernel.view
    split <;> rfl
  unfold View.terminate
  rw [← hthreads, Kernel.view]
  simp only [hstate, hparent, h.ready, h.blocked, h.terminated, h.pending, h.current, h.idle]
  rfl

theorem view_modPcb (k : Kernel) (p : Nat) (threads : List Nat) {pcb : Pcb}
    (hp : k.pcbs p = some pcb) :
    (k.modPcb p fun pcb => { pcb with threads := threads }).view = k.view.setThreads p threads := by
  unfold Kernel.view View.setThreads Kernel.modPcb Kernel.setPcb
  simp only [hp, Option.map_some]
  rw [getD_update]
  rfl

theorem view_setPcb_none (k : Kernel) (p : Nat) :
    (k.setPcb p none).view = k.view.setThreads p [] := by
  unfold Kernel.view View.setThreads Kernel.setPcb
  simp only
  rw [getD_update]
  rfl

/-- A change to a thread that keeps its parent: the rota sees the new state. -/
theorem view_modTcb (k : Kernel) {t : Nat} {tcb : Tcb} (ht : k.tcbs t = some tcb) (f : Tcb → Tcb)
    (hpar : (f tcb).parent = tcb.parent) :
    (k.modTcb t f).view = k.view.setState t (f tcb).state := by
  unfold Kernel.view View.setState Kernel.modTcb Kernel.setTcb
  simp only [ht, Option.map_some]
  rw [map_update, bind_update]
  have hp : (k.tcbs t).bind Tcb.parent = (f tcb).parent := by rw [ht, hpar]; rfl
  simp only [Option.map_some, Option.bind_some]
  rw [← hp, Function.update_eq_self (f := fun u => (k.tcbs u).bind Tcb.parent)]

theorem view_dropThread {k : Kernel} {t : Nat} {tcb : Tcb} (ht : k.tcbs t = some tcb) :
    (k.dropThread t).view = { k.view with
      state := Function.update k.view.state t none, parent := Function.update k.view.parent t none } := by
  unfold Kernel.dropThread
  rw [ht]
  unfold Kernel.view Kernel.setTcb Kernel.kstackFree
  simp only
  rw [map_update, bind_update]
  rfl

/-! ## Termination -/

theorem rota_terminateThread {k : Kernel} (h : Rota k.view) {t : Nat} (hi : t ≠ k.idleThread) :
    Rota (terminateThread k t).view := by
  cases ht : k.tcbs t with
  | none =>
    unfold terminateThread
    rw [ht]
    exact h
  | some tcb =>
    by_cases hs : tcb.state = .terminated
    · unfold terminateThread
      rw [ht]
      dsimp only
      rw [if_pos hs]
      exact h
    · rw [view_terminated ht (terminateThread_spec ht hs)]
      refine h.terminate (View.live_of_state (s := tcb.state) ?_ hs) hi
      unfold Kernel.view
      simp only [ht, Option.map_some]

theorem rota_killThreads {k : Kernel} (h : Rota k.view) (p n : Nat) :
    Rota (killThreads k p n).view := by
  induction n generalizing k with
  | zero => exact h
  | succ n ih =>
    unfold killThreads
    cases hp : k.pcbs p with
    | none => exact ih h
    | some pcb =>
      have hthreads : k.view.threads p = pcb.threads := by
        unfold Kernel.view
        simp only [hp, Option.map_some, Option.getD_some]
      simp only [Option.map_some, Option.getD_some]
      cases hq : pcb.threads with
      | nil => exact ih h
      | cons t rest =>
        have hmem : ∀ u ∈ t :: rest, u ∈ k.view.threads p := by rw [hthreads, hq]; exact fun _ => id
        have hnodup := h.threads_nodup p
        rw [hthreads, hq, List.nodup_cons] at hnodup
        have hpop := h.setThreads hnodup.2 fun u hu => hmem u (List.mem_cons_of_mem t hu)
        rw [← view_modPcb k p rest hp] at hpop
        exact ih (rota_terminateThread hpop (h.thread_ne_idle (hmem t List.mem_cons_self)))

theorem rota_killProcess {k : Kernel} (h : Rota k.view) (pid : Nat) :
    Rota (killProcess k pid).2.view := by
  unfold killProcess
  generalize killScan k pid k.globalProcessList.length k.globalProcessList = scan
  obtain ⟨target, list⟩ := scan
  dsimp only
  cases target with
  | none => exact h
  | some p =>
    dsimp only
    cases hp : k.pcbs p with
    | none => exact h
    | some target =>
      dsimp only
      generalize hk₁ : (if target.pageDirectory = k.cr3 then
        ({ k with globalProcessList := list, cr3 := k.machine.kernelPageDirectory } : Kernel)
        else { k with globalProcessList := list }) = k₁
      have h₁ : Rota k₁.view := by
        subst hk₁
        split <;> exact h
      have h₂ := rota_killThreads h₁ p target.threads.length
      generalize killThreads k₁ p target.threads.length = k₂ at h₂
      have hforget : ∀ m pool list, Rota (({ k₂ with
          machine := m, freeStackOffsets := pool, globalProcessList := list } : Kernel).setPcb p
            none).view := fun m pool list => by
        rw [view_setPcb_none]
        exact h₂.setThreads List.nodup_nil (fun t ht => by cases ht)
      split
      · exact hforget k₂.machine _ _
      · exact hforget _ _ _

/-- The count of `ExitCurrentThread` turns the list around once. -/
theorem countActive_perm (k : Kernel) (n : Nat) (list : List Nat) :
    (countActive k n list).2.Perm list := by
  induction n generalizing list with
  | zero => exact List.Perm.refl list
  | succ n ih =>
    cases list with
    | nil => exact List.Perm.refl []
    | cons t list =>
      unfold countActive
      exact (ih (list ++ [t])).trans (List.perm_append_singleton t list)

theorem rota_exitCurrentThread {k : Kernel} (h : Rota k.view)
    (hi : k.currentThread ≠ some k.idleThread) : Rota (exitCurrentThread k).2.view := by
  unfold exitCurrentThread
  cases hc : k.currentThread with
  | none => exact h
  | some cur =>
    have hne : cur ≠ k.idleThread := fun e => hi (e ▸ hc)
    dsimp only
    cases k.tcbs cur with
    | none => exact h
    | some tcb =>
      dsimp only
      cases tcb.parent with
      | none => exact rota_terminateThread h hne
      | some p =>
        dsimp only
        cases hp : k.pcbs p with
        | none => exact h
        | some pcb =>
          have hperm := countActive_perm k pcb.threads.length pcb.threads
          have hthreads : k.view.threads p = pcb.threads := by
            unfold Kernel.view
            simp only [hp, Option.map_some, Option.getD_some]
          dsimp only
          generalize countActive k pcb.threads.length pcb.threads = counted at hperm
          have hturned := h.setThreads (p := p) (hperm.nodup_iff.mpr (hthreads ▸ h.threads_nodup p))
            fun t ht => hthreads ▸ hperm.mem_iff.mp ht
          rw [← view_modPcb k p counted.2 hp] at hturned
          split
          · exact rota_killProcess hturned _
          · exact rota_terminateThread hturned hne

/-! ## Sleep, wake and the context switch -/

theorem Rota.tcb_of_state {k : Kernel} {t : Nat} {st : ThreadState} (h : k.view.state t = some st) :
    ∃ tcb, k.tcbs t = some tcb ∧ tcb.state = st := Option.map_eq_some_iff.mp h

theorem Rota.tcb_of_live {k : Kernel} {t : Nat} (h : k.view.Live t) : ∃ tcb, k.tcbs t = some tcb := by
  obtain ⟨st, hst⟩ := Option.ne_none_iff_exists'.mp h.1
  obtain ⟨tcb, ht, -⟩ := Rota.tcb_of_state hst
  exact ⟨tcb, ht⟩

theorem rota_sleep {k : Kernel} (h : Rota k.view) (ms : Nat)
    (hok : ∀ cur, k.currentThread = some cur →
      cur ≠ k.idleThread ∧ (k.tcbs cur).map Tcb.state ≠ some .ready) :
    Rota (sleep k ms).view := by
  unfold sleep
  cases hc : k.currentThread with
  | none => exact h
  | some cur =>
    obtain ⟨hi, hs⟩ := hok cur hc
    obtain ⟨tcb, ht⟩ := Rota.tcb_of_live (h.live_current hc)
    dsimp only
    rw [view_modTcb k ht]
    · exact h.sleep hc hi hs
    · rfl

theorem rota_wakeThread {k : Kernel} (h : Rota k.view) (t : Nat) : Rota (wakeThread k t).view := by
  unfold wakeThread
  cases ht : k.tcbs t with
  | none => exact h
  | some tcb =>
    dsimp only
    split
    · exact h
    · rename_i hb
      have hs : k.view.state t = some .blocked := by
        unfold Kernel.view
        simp only [ht, Option.map_some, not_not.mp hb]
      have hw := h.wake hs
      unfold View.wake at hw
      rw [← show (k.modTcb t Tcb.awake).view = k.view.setState t .ready from
        view_modTcb k ht Tcb.awake rfl] at hw
      exact hw

/-- The view in which no thread is current. -/
def Kernel.parked (k : Kernel) : View := { k.view with current := none }

theorem View.setState_eq {v : View} {t : Nat} {s : ThreadState} (h : v.state t = some s) :
    v.setState t s = v := by
  unfold View.setState
  rw [← h, Function.update_eq_self]

theorem parked_saveCurrent {k : Kernel} {cur : Nat} (hc : k.currentThread = some cur)
    {tcb : Tcb} (ht : k.tcbs cur = some tcb) (context : CpuState) :
    (saveCurrent k context).parked = k.view.leave cur := by
  have hstate : k.view.state cur = some tcb.state := congrArg (Option.map Tcb.state) ht
  obtain ⟨k₁, hk₁⟩ : ∃ k₁, k₁ = k.modTcb cur fun tcb => { tcb with context := context } := ⟨_, rfl⟩
  have ht₁ : k₁.tcbs cur = some { tcb with context := context } := by
    rw [hk₁, Kernel.modTcb, Kernel.setTcb, ht]
    exact Function.update_self _ _ _
  have hv : k₁.view = k.view := by
    rw [hk₁, view_modTcb k ht]
    · exact View.setState_eq hstate
    · rfl
  have hi : k₁.idleThread = k.idleThread := congrArg View.idle hv
  unfold saveCurrent View.leave Kernel.parked
  rw [hc, hstate]
  dsimp only
  rw [← hk₁, ht₁, Option.map_some]
  cases tcb.state with
  | running =>
    dsimp only
    rw [hi]
    by_cases hidle : cur = k.idleThread
    · rw [if_pos hidle, hv]
      exact (if_pos hidle).symm
    · rw [if_neg hidle]
      refine Eq.trans ?_ (if_neg hidle).symm
      have hm := view_modTcb k₁ ht₁ (fun tcb => { tcb with state := .ready }) rfl
      rw [hv] at hm
      exact congrArg (fun v : View => { v with ready := v.ready ++ [cur], current := none }) hm
  | blocked => exact congrArg (fun v : View => { v with blocked := v.blocked ++ [cur], current := none }) hv
  | terminated =>
    exact congrArg (fun v : View => { v with terminated := v.terminated ++ [cur], current := none }) hv
  | ready => exact congrArg (fun v : View => { v with current := none }) hv
  | new => exact congrArg (fun v : View => { v with current := none }) hv

theorem rota_saveCurrent {k : Kernel} (h : Rota k.view) (context : CpuState) :
    Rota (saveCurrent k context).parked := by
  cases hc : k.currentThread with
  | none =>
    have hp : (saveCurrent k context).parked = k.view := by
      unfold saveCurrent Kernel.parked
      rw [hc]
      unfold Kernel.view
      rw [hc]
    rw [hp]
    exact h
  | some cur =>
    obtain ⟨tcb, ht⟩ := Rota.tcb_of_live (h.live_current hc)
    rw [parked_saveCurrent hc ht]
    exact h.leave hc

theorem rota_wakeDue {k : Kernel} (h : Rota k.parked) (n : Nat) : Rota (wakeDue k n).parked := by
  induction n generalizing k with
  | zero => exact h
  | succ n ih =>
    unfold wakeDue
    cases hq : k.blockedQueue with
    | nil => exact h
    | cons t rest =>
      dsimp only
      split
      · have hs := h.blocked_state t (show t ∈ k.blockedQueue from hq ▸ List.mem_cons_self)
        obtain ⟨tcb, ht, -⟩ := Rota.tcb_of_state hs
        refine ih ?_
        have hw := h.wake hs
        have herase : k.parked.blocked.erase t = rest := by
          change k.blockedQueue.erase t = rest
          rw [hq, List.erase_cons_head]
        unfold View.wake at hw
        rw [herase] at hw
        have hm := view_modTcb k ht Tcb.awake rfl
        have he := congrArg (fun v : View =>
          { v with blocked := rest, ready := v.ready ++ [t], current := none }) hm
        exact (congrArg Rota he).mpr hw
      · refine ih ?_
        have hp : (rest ++ [t]).Perm k.parked.blocked := by
          change (rest ++ [t]).Perm k.blockedQueue
          rw [hq]
          exact List.perm_append_singleton t rest
        exact h.perm hp

/-- The current thread is the one that runs. -/
def Running (v : View) : Prop := ∀ t, v.current = some t → v.state t = some .running

theorem view_switchDirectory (k : Kernel) (directory : Nat) :
    (switchDirectory k directory).view = k.view := by
  unfold switchDirectory
  split <;> rfl

theorem rota_dispatch {k : Kernel} (h : Rota k.parked) {t : Nat} {rest : List Nat}
    (hq : k.readyQueue = t :: rest) :
    Rota (dispatch { k with readyQueue := rest } t).view ∧
      Running (dispatch { k with readyQueue := rest } t).view := by
  have hs := h.ready_state t (show t ∈ k.readyQueue from hq ▸ List.mem_cons_self)
  obtain ⟨tcb, ht, -⟩ := Rota.tcb_of_state hs
  have hv : (dispatch { k with readyQueue := rest } t).view = k.parked.dispatch t rest := by
    have hm := view_modTcb k ht (fun tcb => { tcb with state := .running }) rfl
    refine Eq.trans ?_
      (congrArg (fun v : View => { v with ready := rest, current := some t }) hm)
    unfold dispatch
    dsimp only
    split
    · rfl
    · rw [view_switchDirectory]
      rfl
  rw [hv]
  refine ⟨h.dispatch rfl hq, ?_⟩
  rintro u ⟨⟩
  exact View.setState_self _ _

theorem rota_idle {k : Kernel} (h : Rota k.parked) (directory : Nat) :
    Rota (switchDirectory { k.modTcb k.idleThread fun tcb => { tcb with state := .running } with
      currentThread := some k.idleThread } directory).view ∧
    Running (switchDirectory { k.modTcb k.idleThread fun tcb => { tcb with state := .running } with
      currentThread := some k.idleThread } directory).view := by
  have hidle : ∃ tcb, k.tcbs k.idleThread = some tcb := by
    rcases h.idle_state with hs | hs <;> exact (Rota.tcb_of_state hs).imp fun _ => And.left
  obtain ⟨tcb, ht⟩ := hidle
  have hm := view_modTcb k ht (fun tcb => { tcb with state := .running }) rfl
  have hv := congrArg (fun v : View => { v with current := some k.idleThread }) hm
  rw [view_switchDirectory]
  refine ⟨(congrArg Rota hv).mpr (h.idle rfl), (congrArg Running hv).mpr ?_⟩
  rintro u ⟨⟩
  exact View.setState_self _ _

theorem rota_drain {k : Kernel} (h : Rota k.view) (hr : Running k.view) (n : Nat) :
    Rota (drainPendingReclaims k n).view ∧ Running (drainPendingReclaims k n).view := by
  induction n generalizing k with
  | zero => exact ⟨h, hr⟩
  | succ n ih =>
    unfold drainPendingReclaims
    cases hq : k.pendingReclaims with
    | nil => exact ⟨h, hr⟩
    | cons t rest =>
      have hs : k.view.state t = some .terminated :=
        (h.pending_iff t).mp (show t ∈ k.pendingReclaims from hq ▸ List.mem_cons_self)
      obtain ⟨tcb, ht, -⟩ := Rota.tcb_of_state hs
      have hv : (({ k with pendingReclaims := rest } : Kernel).dropThread t).view =
          k.view.reclaim t rest := view_dropThread (k := { k with pendingReclaims := rest }) ht
      refine ih (hv ▸ h.reclaim hq) (hv ▸ ?_)
      intro u hu
      have hu' := hr u hu
      have hut : u ≠ t := fun e => by rw [e, hs] at hu'; cases hu'
      exact (Function.update_of_ne hut _ _).trans hu'

theorem rota_schedule {k : Kernel} (h : Rota k.view) (context : CpuState) :
    Rota (schedule k context).view ∧ Running (schedule k context).view := by
  have h₁ := rota_wakeDue (rota_saveCurrent h context) (saveCurrent k context).blockedQueue.length
  unfold schedule
  dsimp only
  generalize wakeDue (saveCurrent k context) (saveCurrent k context).blockedQueue.length = k₁ at h₁
  cases hq : k₁.readyQueue with
  | nil =>
    obtain ⟨h2, h3⟩ := rota_idle h₁ k₁.machine.kernelPageDirectory
    exact rota_drain h2 h3 _
  | cons t rest =>
    obtain ⟨h2, h3⟩ := rota_dispatch h₁ hq
    exact rota_drain h2 h3 _

/-! ## Runs -/

/-- What the caller of the scheduler has to respect: only the constructor makes a thread without a
process; the idle thread neither sleeps nor exits nor is terminated; a thread that slept and was
woken does not sleep again before the next `Schedule`. -/
def StepOk (k : Kernel) : Op → Prop
  | .createThread _ parent _ _ => parent ≠ none
  | .sleep _ => ∀ cur ∈ k.currentThread,
      cur ≠ k.idleThread ∧ (k.tcbs cur).map Tcb.state ≠ some .ready
  | .terminateThread t => t ≠ k.idleThread
  | .exitCurrentThread => k.currentThread ≠ some k.idleThread
  | _ => True

instance (k : Kernel) : DecidablePred (StepOk k)
  | .createThread _ parent _ _ => inferInstanceAs (Decidable (parent ≠ none))
  | .sleep _ => inferInstanceAs (Decidable (∀ cur ∈ k.currentThread, _ ∧ _))
  | .terminateThread t => inferInstanceAs (Decidable (t ≠ k.idleThread))
  | .exitCurrentThread => inferInstanceAs (Decidable (k.currentThread ≠ some k.idleThread))
  | .createProcess .. | .startProcess .. | .cloneCurrentThread .. | .cloneCurrentProcess ..
  | .wakeThread _ | .killProcess _ | .schedule _ | .tick _ | .memory _ =>
    inferInstanceAs (Decidable True)

theorem rota_createThread {k : Kernel} (h : Rota k.view) (threadExit ptr p entrypoint arg : Nat) :
    Rota (createThread threadExit k ptr (some p) entrypoint arg).2.view := by
  rcases createThread_cases threadExit k ptr (some p) entrypoint arg with
    ⟨k', e, hf⟩ | ⟨hn, -⟩ | ⟨q, k', -, e, hs⟩
  · rw [e, view_sameSched hf.toSameSched]; exact h
  · cases hn
  · rw [e, view_spawned hs]
    exact h.spawn (congrArg (Option.map Tcb.state) hs.fresh)

theorem rota_step {k : Kernel} (h : Rota k.view) (threadExit : Nat) {op : Op} (hok : StepOk k op) :
    Rota (step threadExit k op).view := by
  have hspawn : ∀ {k₀ k₁ : Kernel} {p t : Nat}, Rota k₀.view → Spawned k₀ k₁ p t → Rota k₁.view :=
    fun h hs => view_spawned hs ▸ h.spawn (congrArg (Option.map Tcb.state) hs.fresh)
  have hfail : ∀ {k₁ : Kernel}, Failed k k₁ → Rota k₁.view := fun hf =>
    view_sameSched hf.toSameSched ▸ h
  have hadd : ∀ {k₁ : Kernel} {p : Nat}, AddedProcess k k₁ p → Rota k₁.view := fun ha =>
    view_addedProcess ha ▸ h
  cases op with
  | createProcess pcbPtr tcbPtr isKernel entrypoint arg main =>
    simp only [step]
    rcases createProcess_cases threadExit k pcbPtr tcbPtr isKernel entrypoint arg main with
      ⟨k', e, hf⟩ | ⟨k₁, k', e, ha, rfl | hs⟩
    · rw [e]; exact hfail hf
    · rw [e]; exact hadd ha
    · rw [e]; exact hspawn (hadd ha) hs
  | startProcess p tcbPtr arg =>
    simp only [step]
    unfold startProcess
    split
    · exact h
    split
    · exact h
    · rename_i pcb _ _
      have hc := rota_createThread h threadExit tcbPtr p pcb.mainEntry arg
      split
      · rename_i e; rwa [e] at hc
      · rename_i e; rw [e] at hc; exact rota_killProcess hc _
  | createThread tcbPtr parent entrypoint arg =>
    obtain ⟨p, rfl⟩ := Option.ne_none_iff_exists'.mp hok
    exact rota_createThread h threadExit tcbPtr p entrypoint arg
  | cloneCurrentThread tcbPtr args =>
    simp only [step]
    rcases cloneCurrentThread_cases k tcbPtr args with ⟨k', e, hf⟩ | ⟨p, k', e, hs⟩
    · rw [e]; exact hfail hf
    · rw [e]; exact hspawn h hs
  | cloneCurrentProcess pcbPtr tcbPtr args =>
    simp only [step]
    rcases cloneCurrentProcess_cases k pcbPtr tcbPtr args with ⟨k', e, hf⟩ | ⟨k₁, k', e, ha, hs⟩
    · rw [e]; exact hfail hf
    · rw [e]; exact hspawn (hadd ha) hs
  | sleep ms => exact rota_sleep h ms hok
  | wakeThread t => exact rota_wakeThread h t
  | terminateThread t => exact rota_terminateThread h hok
  | exitCurrentThread => exact rota_exitCurrentThread h hok
  | killProcess pid => exact rota_killProcess h pid
  | schedule context => exact (rota_schedule h context).1
  | tick ticks => exact h
  | memory m => exact h

/-- The scheduler after its constructor. -/
theorem rota_newScheduler {m : Machine} {zone : Zone} {threadExit idleTask tcbPtr : Nat} {k : Kernel}
    (h : newScheduler m zone threadExit idleTask tcbPtr = some k) : Rota k.view := by
  unfold newScheduler at h
  dsimp only at h
  split at h
  · cases h
  · generalize hb : ({ Kernel.boot _ zone with trampolinePhys := _ } : Kernel) = b at h
    have hqueues : b.readyQueue = [] ∧ b.blockedQueue = [] ∧ b.terminatedQueue = [] ∧
        b.pendingReclaims = [] ∧ b.currentThread = none ∧ (∀ t, b.tcbs t = none) ∧
        ∀ p, b.pcbs p = none := by
      subst hb
      exact ⟨rfl, rfl, rfl, rfl, rfl, fun _ => rfl, fun _ => rfl⟩
    obtain ⟨h1, h2, h3, h4, h5, h6, h7⟩ := hqueues
    rcases createThread_cases threadExit b tcbPtr none idleTask 0 with
      ⟨k', e, -⟩ | ⟨-, -, context, e⟩ | ⟨p, k', hp, -⟩
    · rw [e] at h; cases h
    · rw [e] at h
      obtain rfl := Option.some.inj h
      refine Rota.boot h1 h2 h3 h4 h5 ?_ (fun t ht => ?_) ?_ fun p => ?_
      · exact congrArg (Option.map Tcb.state) (b.withThread_self tcbPtr _)
      · exact congrArg (Option.map Tcb.state) ((Function.update_of_ne ht _ _).trans (h6 t))
      · exact congrArg (Option.bind · Tcb.parent) (b.withThread_self tcbPtr _)
      · exact congrArg (fun o : Option Pcb => (o.map Pcb.threads).getD []) (h7 p)
    · cases hp

/-- After a `Schedule` everything is placed. -/
def PlacesAll (threadExit : Nat) (k : Kernel) (op : Op) : Prop :=
  ∀ context, op = .schedule context → Placed (step threadExit k op).view

/-- In every run whose steps meet `StepOk`, everything is placed after every `Schedule`. -/
theorem placed_run {m : Machine} {zone : Zone} {threadExit idleTask tcbPtr : Nat} {k : Kernel}
    (h : newScheduler m zone threadExit idleTask tcbPtr = some k) {ops : List Op}
    (hok : Along (step threadExit) StepOk k ops) :
    Along (step threadExit) (PlacesAll threadExit) k ops := by
  refine Along.of_inv (I := fun k => Rota k.view) (fun k op h hok => ⟨rota_step h threadExit hok, ?_⟩)
    (rota_newScheduler h) hok
  rintro context rfl
  obtain ⟨h1, h2⟩ := rota_schedule h context
  exact h1.placed h2

/-- A kernel thread runs, sleeps and is scheduled away. -/
theorem placed_run_kernel_thread :
    ∃ k, newScheduler eightFrames tenStacks 0x5000 0x6000 1 = some k ∧
      Along (step 0x5000) (PlacesAll 0x5000) k
        [.createProcess 2 3 true 0x100000 0 true, .schedule .zero, .sleep 5, .schedule .zero] :=
  ⟨(newScheduler eightFrames tenStacks 0x5000 0x6000 1).get (by decide), by simp,
    placed_run (Option.some_get (by decide)).symm ⟨trivial, trivial, by decide, trivial, trivial⟩⟩

/-- The running thread sleeps, is woken and sleeps again before the next `Schedule`: it is in the
blocked queue while it runs. -/
theorem sleep_twice :
    ∃ k, newScheduler eightFrames tenStacks 0x5000 0x6000 1 = some k ∧
      ¬ Placed (run (step 0x5000) k
        [.createProcess 2 3 true 0x100000 0 true, .schedule .zero, .sleep 5, .wakeThread 3,
          .sleep 5, .schedule .zero]).view :=
  ⟨(newScheduler eightFrames tenStacks 0x5000 0x6000 1).get (by decide), by simp,
    fun h => absurd (h.blocked 3 (by decide)) (by decide)⟩

end Sched
end Hashx86
