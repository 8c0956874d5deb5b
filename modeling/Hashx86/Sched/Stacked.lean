import Hashx86.Sched.Live
import Hashx86.Sched.Queues
import Hashx86.Sched.Slots

/-!
# The threads that have a user stack

`Stacked` says that a thread with a user stack is one of the threads of its process, and that this is
a user process. So the stack that `TerminateThread` unmaps is in the directory of that process, and no
thread with a stack is left when the last thread of the process is gone.

* `stacked_terminateThread`, `stacked_spawned`, `stacked_schedule`: the calls keep it.
* `killThreads_threads`, `Stacked.none_left`: after the loop of `KillProcess` no thread of the process
  has a stack.
-/

namespace Hashx86
namespace Sched

variable {k k' : Kernel} {p q t u : Nat}

/-- Thread `t` of process `p` has a user stack. -/
def Kernel.Slotted (k : Kernel) (t p : Nat) : Prop :=
  ∃ tcb, k.tcbs t = some tcb ∧ tcb.parent = some p ∧ tcb.stackSlotIdx ≠ noSlot

/-- `t` is one of the threads of the user process `p`. -/
def Kernel.Homed (k : Kernel) (t p : Nat) : Prop :=
  ∃ pcb, k.pcbs p = some pcb ∧ t ∈ pcb.threads ∧ pcb.isKernelProcess = false

def Stacked (k : Kernel) : Prop := ∀ t p, k.Slotted t p → k.Homed t p

/-- The directory of a user process. -/
def Pcb.space (pcb : Pcb) : Option Nat :=
  if pcb.isKernelProcess then none else some pcb.pageDirectory

def Kernel.space (k : Kernel) (p : Nat) : Option Nat := (k.pcbs p).bind Pcb.space

theorem space_congr (h : k'.pcbs = k.pcbs) : k'.space = k.space := by
  unfold Kernel.space
  rw [h]

theorem space_modPcb (k : Kernel) (p : Nat) {f : Pcb → Pcb} (hf : ∀ pcb, (f pcb).space = pcb.space) :
    (k.modPcb p f).space = k.space := by
  unfold Kernel.modPcb Kernel.setPcb Kernel.space
  dsimp only
  rw [bind_update, Option.bind_map, Function.update_eq_self_iff]
  exact congrArg (Option.bind (k.pcbs p)) (funext hf)

theorem space_of_pcb {pcb : Pcb} (hp : k.pcbs p = some pcb) (hu : pcb.isKernelProcess = false) :
    k.space p = some pcb.pageDirectory := by
  unfold Kernel.space Pcb.space
  rw [hp, Option.bind_some, if_neg (by simp [hu])]

theorem Stacked.of_slotted (h : Stacked k) (hp : k'.pcbs = k.pcbs)
    (hs : ∀ t p, k'.Slotted t p → k.Slotted t p) : Stacked k' := fun t p ht => by
  obtain ⟨pcb, hpcb, hmem, hu⟩ := h t p (hs t p ht)
  exact ⟨pcb, hp.symm ▸ hpcb, hmem, hu⟩

theorem Stacked.congr (h : Stacked k) (hp : k'.pcbs = k.pcbs) (ht : k'.tcbs = k.tcbs) : Stacked k' :=
  h.of_slotted hp fun _ _ ⟨tcb, htcb, hs⟩ => ⟨tcb, ht ▸ htcb, hs⟩

/-- A change to a thread that keeps its process and its stack. -/
theorem slotted_modTcb {f : Tcb → Tcb} (hf : ∀ tcb, (f tcb).parent = tcb.parent ∧
    (f tcb).stackSlotIdx = tcb.stackSlotIdx) (h : (k.modTcb u f).Slotted t p) : k.Slotted t p := by
  obtain ⟨tcb, ht, hp, hs⟩ := h
  change Function.update k.tcbs u ((k.tcbs u).map f) t = some tcb at ht
  by_cases htu : t = u
  · subst htu
    rw [Function.update_self, Option.map_eq_some_iff] at ht
    obtain ⟨tcb', ht', rfl⟩ := ht
    exact ⟨tcb', ht', (hf tcb').1 ▸ hp, (hf tcb').2 ▸ hs⟩
  · rw [Function.update_of_ne htu] at ht
    exact ⟨tcb, ht, hp, hs⟩

theorem slotted_dropThread (h : (k.dropThread u).Slotted t p) : k.Slotted t p := by
  unfold Kernel.dropThread at h
  split at h
  · obtain ⟨tcb, ht, hs⟩ := h
    change Function.update k.tcbs u none t = some tcb at ht
    by_cases htu : t = u
    · rw [htu, Function.update_self] at ht
      exact nomatch ht
    · rw [Function.update_of_ne htu] at ht
      exact ⟨tcb, ht, hs⟩
  · exact h

/-! ## Creation -/

theorem space_spawned (h : Spawned k k' p t) : k'.space = k.space := by
  obtain ⟨pcb, hp, hpcbs⟩ := h.pcbs
  have hmod : k'.pcbs = (k.modPcb p fun pcb => { pcb with threads := pcb.threads ++ [t] }).pcbs := by
    unfold Kernel.modPcb Kernel.setPcb
    rw [hpcbs, hp]
    rfl
  exact (space_congr hmod).trans (space_modPcb k p fun _ => rfl)

theorem space_addedProcess (h : AddedProcess k k' p) {pcb : Pcb} (hp : k'.pcbs p = some pcb) :
    k'.space = Function.update k.space p pcb.space := by
  obtain ⟨pcb', hpcbs, -⟩ := h.pcbs
  rw [hpcbs, Function.update_self] at hp
  obtain rfl := Option.some.inj hp
  unfold Kernel.space
  rw [hpcbs, bind_update]
  rfl

theorem stacked_sameSched (h : Stacked k) (hs : SameSched k k') : Stacked k' := h.congr hs.pcbs hs.tcbs

/-- A new thread that has a stack is one of a user process. -/
theorem stacked_spawned (h : Stacked k) (hs : Spawned k k' p t)
    (hu : ∀ tcb pcb, k'.tcbs t = some tcb → tcb.stackSlotIdx ≠ noSlot → k.pcbs p = some pcb →
      pcb.isKernelProcess = false) : Stacked k' := fun u q hq => by
  obtain ⟨pcb, hp, hpcbs⟩ := hs.pcbs
  obtain ⟨tcb, htcbs, -, hpar, -⟩ := hs.tcbs
  have hself : k'.tcbs t = some tcb := htcbs ▸ Function.update_self ..
  have hmem : k'.pcbs p = some { pcb with threads := pcb.threads ++ [t] } :=
    hpcbs ▸ Function.update_self ..
  by_cases hut : u = t
  · obtain ⟨x, hx, hxp, hxs⟩ := hq
    subst hut
    obtain rfl := Option.some.inj (hself.symm.trans hx)
    obtain rfl := Option.some.inj (hpar.symm.trans hxp)
    exact ⟨_, hmem, List.mem_append_right _ (List.mem_singleton_self u), hu tcb pcb hself hxs hp⟩
  · obtain ⟨x, hx, hxs⟩ := hq
    rw [htcbs, Function.update_of_ne hut] at hx
    obtain ⟨pcb', hp', hm', hu'⟩ := h u q ⟨x, hx, hxs⟩
    by_cases hqp : q = p
    · subst hqp
      obtain rfl := Option.some.inj (hp.symm.trans hp')
      exact ⟨_, hmem, List.mem_append_left _ hm', hu'⟩
    · exact ⟨pcb', by rwa [hpcbs, Function.update_of_ne hqp], hm', hu'⟩

theorem stacked_addedProcess (h : Stacked k) (ha : AddedProcess k k' p) : Stacked k' := fun u q hq => by
  obtain ⟨x, hx, hxs⟩ := hq
  rw [ha.tcbs] at hx
  obtain ⟨pcb', hp', hm', hu'⟩ := h u q ⟨x, hx, hxs⟩
  obtain ⟨pcb, hpcbs, -⟩ := ha.pcbs
  have hqp : q ≠ p := fun he => by
    rw [he, ha.fresh] at hp'
    exact nomatch hp'
  exact ⟨pcb', by rwa [hpcbs, Function.update_of_ne hqp], hm', hu'⟩

/-! ## Termination -/

/-- `TerminateThread` does nothing to a thread that is gone. -/
theorem terminateThread_cases (k : Kernel) (t : Nat) :
    (terminateThread k t = k ∧ ∀ tcb, k.tcbs t = some tcb → tcb.state = .terminated) ∨
    ∃ tcb, k.tcbs t = some tcb ∧ tcb.state ≠ .terminated ∧
      Terminated k (terminateThread k t) t tcb := by
  cases ht : k.tcbs t with
  | none =>
    refine .inl ⟨?_, nofun⟩
    unfold terminateThread
    rw [ht]
  | some tcb =>
    by_cases hs : tcb.state = .terminated
    · refine .inl ⟨?_, fun tcb' ht' => Option.some.inj ht' ▸ hs⟩
      unfold terminateThread
      rw [ht]
      exact if_pos hs
    · exact .inr ⟨tcb, rfl, hs, terminateThread_spec ht hs⟩

theorem slotted_terminateThread (hs : SlotsOk k) (h : (terminateThread k t).Slotted u p) :
    u ≠ t ∧ k.Slotted u p := by
  rcases terminateThread_cases k t with ⟨he, hterm⟩ | ⟨tcb, ht, -, hk⟩
  · rw [he] at h
    refine ⟨fun hut => ?_, h⟩
    obtain ⟨x, hx, -, hxs⟩ := h
    rw [hut] at hx
    exact hxs (hs.retired t x hx (hterm x hx))
  · obtain ⟨x, hx, hxp, hxs⟩ := h
    rw [hk.tcbs] at hx
    by_cases hut : u = t
    · rw [hut, Function.update_self] at hx
      split at hx
      · obtain rfl := Option.some.inj hx
        have hpar : tcb.parent = some p := hxp
        exact absurd (if_neg (by simp [hpar])) hxs
      · exact nomatch hx
    · rw [Function.update_of_ne hut] at hx
      exact ⟨hut, x, hx, hxp, hxs⟩

theorem homed_terminateThread (hut : u ≠ t) (h : k.Homed u p) : (terminateThread k t).Homed u p := by
  rcases terminateThread_cases k t with ⟨he, -⟩ | ⟨tcb, -, -, hk⟩
  · rwa [he]
  · obtain ⟨pcb, hp, hm, hu⟩ := h
    have hpcbs := hk.pcbs
    split at hpcbs
    · exact ⟨pcb, hpcbs.symm ▸ hp, hm, hu⟩
    · rename_i q _
      by_cases hpq : p = q
      · subst hpq
        refine ⟨{ pcb with threads := pcb.threads.erase t }, ?_, (List.mem_erase_of_ne hut).mpr hm, hu⟩
        rw [hpcbs, Function.update_self, hp]
        rfl
      · exact ⟨pcb, by rwa [hpcbs, Function.update_of_ne hpq], hm, hu⟩

theorem stacked_terminateThread (h : Stacked k) (hs : SlotsOk k) (t : Nat) :
    Stacked (terminateThread k t) := fun u p hu => by
  obtain ⟨hut, hu⟩ := slotted_terminateThread hs hu
  exact homed_terminateThread hut (h u p hu)

theorem space_terminateThread (k : Kernel) (t : Nat) : (terminateThread k t).space = k.space := by
  rcases terminateThread_cases k t with ⟨he, -⟩ | ⟨tcb, -, -, hk⟩
  · rw [he]
  · have hpcbs := hk.pcbs
    split at hpcbs
    · exact space_congr hpcbs
    · rename_i q _
      exact (space_congr (k := k.modPcb q _) hpcbs).trans (space_modPcb k q fun _ => rfl)

/-! ## The end of a process -/

/-- The first thread of the process is terminated. -/
def popThread (k : Kernel) (p t : Nat) (rest : List Nat) : Kernel :=
  terminateThread (k.modPcb p fun pcb => { pcb with threads := rest }) t

theorem stacked_popThread (h : Stacked k) (hs : SlotsOk k) {pcb : Pcb} {rest : List Nat}
    (hp : k.pcbs p = some pcb) (hq : pcb.threads = t :: rest) : Stacked (popThread k p t rest) := by
  have hs₁ : SlotsOk (k.modPcb p fun pcb => { pcb with threads := rest }) := hs.modPcb p _ fun _ => rfl
  intro u q hu
  obtain ⟨hut, hu⟩ := slotted_terminateThread hs₁ hu
  refine homed_terminateThread hut ?_
  obtain ⟨pcb', hp', hm, hu'⟩ := h u q hu
  unfold Kernel.modPcb Kernel.setPcb Kernel.Homed
  dsimp only
  by_cases hqp : q = p
  · subst hqp
    obtain rfl := Option.some.inj (hp.symm.trans hp')
    rw [hq] at hm
    refine ⟨{ pcb with threads := rest }, ?_, (List.mem_cons.mp hm).resolve_left hut, hu'⟩
    rw [Function.update_self, hp]
    rfl
  · exact ⟨pcb', by rwa [Function.update_of_ne hqp], hm, hu'⟩

/-- The threads of a process. -/
def Kernel.threadsOf (k : Kernel) (p : Nat) : List Nat := ((k.pcbs p).map Pcb.threads).getD []

theorem threadsOf_terminateThread (k : Kernel) (t p : Nat) :
    ((terminateThread k t).threadsOf p).length ≤ (k.threadsOf p).length := by
  rcases terminateThread_cases k t with ⟨he, -⟩ | ⟨tcb, -, -, hk⟩
  · rw [he]
  · have hpcbs := hk.pcbs
    unfold Kernel.threadsOf
    split at hpcbs
    · rw [hpcbs]
    · rename_i q _
      rw [hpcbs]
      by_cases hpq : p = q
      · subst hpq
        rw [Function.update_self, Option.map_map]
        cases k.pcbs p with
        | none => exact Nat.le_refl _
        | some pcb => exact List.length_erase_le
      · rw [Function.update_of_ne hpq]

/-- Each round of the loop of `KillProcess` shortens the list of threads. -/
theorem killThreads_threads (p n : Nat) (k : Kernel) :
    ((killThreads k p n).threadsOf p).length ≤ (k.threadsOf p).length - n := by
  induction n generalizing k with
  | zero => exact Nat.le_refl _
  | succ n ih =>
    unfold killThreads
    split
    · rename_i hq
      have hnil : k.threadsOf p = [] := hq
      have := ih k
      rw [hnil, List.length_nil] at this ⊢
      omega
    · rename_i t rest hq
      have hcons : k.threadsOf p = t :: rest := hq
      have hpop : ((k.modPcb p fun pcb => { pcb with threads := rest }).threadsOf p).length ≤
          rest.length := by
        unfold Kernel.threadsOf Kernel.modPcb Kernel.setPcb
        dsimp only
        rw [Function.update_self]
        cases k.pcbs p with
        | none => exact Nat.zero_le _
        | some pcb => exact Nat.le_refl _
      have h₁ := threadsOf_terminateThread (k.modPcb p fun pcb => { pcb with threads := rest }) t p
      have h₂ := ih (terminateThread (k.modPcb p fun pcb => { pcb with threads := rest }) t)
      rw [hcons, List.length_cons]
      omega

theorem stacked_killThreads (p n : Nat) {k : Kernel} (h : Stacked k) (hs : SlotsOk k) :
    Stacked (killThreads k p n) := by
  induction n generalizing k with
  | zero => exact h
  | succ n ih =>
    unfold killThreads
    cases hp : k.pcbs p with
    | none => exact ih h hs
    | some pcb =>
      dsimp only [Option.map_some, Option.getD_some]
      cases hq : pcb.threads with
      | nil => exact ih h hs
      | cons t rest =>
        have hs₁ : SlotsOk (k.modPcb p fun pcb => { pcb with threads := rest }) :=
          hs.modPcb p _ fun _ => rfl
        exact ih (stacked_popThread h hs hp hq) (slotsOk_terminateThread hs₁ t)

theorem space_killThreads (p n : Nat) (k : Kernel) : (killThreads k p n).space = k.space := by
  induction n generalizing k with
  | zero => rfl
  | succ n ih =>
    unfold killThreads
    split
    · exact ih k
    · rw [ih, space_terminateThread]
      exact space_modPcb k p fun _ => rfl

/-- No thread of a process without threads has a stack. -/
theorem Stacked.none_left (h : Stacked k) (hp : k.threadsOf p = []) (t : Nat) : ¬ k.Slotted t p :=
  fun hs => by
    obtain ⟨pcb, hpcb, hm, -⟩ := h t p hs
    unfold Kernel.threadsOf at hp
    rw [hpcb] at hp
    have hnil : pcb.threads = [] := hp
    rw [hnil] at hm
    exact List.not_mem_nil hm

theorem stacked_forgetProcess (h : Stacked k) (hp : ∀ t, ¬ k.Slotted t p) : Stacked (forgetProcess k p) :=
  fun u q hu => by
    have hu' : k.Slotted u q := hu
    obtain ⟨pcb, hpcb, hm⟩ := h u q hu'
    refine ⟨pcb, ?_, hm⟩
    change Function.update k.pcbs p none q = some pcb
    have hqp : q ≠ p := fun he => by
      rw [he] at hu'
      exact hp u hu'
    rwa [Function.update_of_ne hqp]

theorem space_forgetProcess (k : Kernel) (p : Nat) :
    (forgetProcess k p).space = Function.update k.space p none := by
  unfold forgetProcess Kernel.setPcb Kernel.space
  dsimp only
  rw [bind_update]
  rfl

/-! ## Sleep, wake and the context switch -/

theorem stacked_modTcb (h : Stacked k) (t : Nat) {f : Tcb → Tcb}
    (hf : ∀ tcb, (f tcb).parent = tcb.parent ∧ (f tcb).stackSlotIdx = tcb.stackSlotIdx) :
    Stacked (k.modTcb t f) :=
  h.of_slotted rfl fun _ _ => slotted_modTcb hf

theorem stacked_sleep (h : Stacked k) (ms : Nat) : Stacked (sleep k ms) := by
  unfold sleep
  split
  · exact h
  · exact stacked_modTcb h _ fun _ => ⟨rfl, rfl⟩

theorem stacked_wakeThread (h : Stacked k) (t : Nat) : Stacked (wakeThread k t) := by
  unfold wakeThread
  split
  · exact h
  split
  · exact h
  · exact (stacked_modTcb h t (f := Tcb.awake) fun _ => ⟨rfl, rfl⟩).congr rfl rfl

theorem stacked_saveCurrent (h : Stacked k) (context : CpuState) : Stacked (saveCurrent k context) := by
  unfold saveCurrent
  split
  · exact h
  · rename_i cur _
    have h₁ : Stacked (k.modTcb cur fun tcb => { tcb with context := context }) :=
      stacked_modTcb h cur fun _ => ⟨rfl, rfl⟩
    dsimp only
    split
    · split
      · exact h₁
      · exact (stacked_modTcb h₁ cur (f := fun tcb => { tcb with state := .ready })
          fun _ => ⟨rfl, rfl⟩).congr rfl rfl
    · exact h₁.congr rfl rfl
    · exact h₁.congr rfl rfl
    · exact h₁

theorem stacked_wakeDue (n : Nat) {k : Kernel} (h : Stacked k) : Stacked (wakeDue k n) := by
  induction n generalizing k with
  | zero => exact h
  | succ n ih =>
    unfold wakeDue
    split
    · exact h
    · rename_i t rest _
      split
      · exact ih ((stacked_modTcb h t (f := Tcb.awake) fun _ => ⟨rfl, rfl⟩).congr rfl rfl)
      · exact ih (h.congr rfl rfl)

theorem stacked_drain (n : Nat) {k : Kernel} (h : Stacked k) : Stacked (drainPendingReclaims k n) := by
  induction n generalizing k with
  | zero => exact h
  | succ n ih =>
    unfold drainPendingReclaims
    split
    · exact h
    · rename_i t rest _
      have h₁ : Stacked ({ k with pendingReclaims := rest } : Kernel) := h.congr rfl rfl
      exact ih (h₁.of_slotted (pcbs_dropThread _ t) fun _ _ => slotted_dropThread)

theorem stacked_switchDirectory (h : Stacked k) (directory : Nat) :
    Stacked (switchDirectory k directory) := by
  unfold switchDirectory
  split
  · exact h
  · exact h.congr rfl rfl

theorem stacked_schedule (h : Stacked k) (context : CpuState) : Stacked (schedule k context) := by
  have h₁ := stacked_wakeDue (saveCurrent k context).blockedQueue.length (stacked_saveCurrent h context)
  unfold schedule
  dsimp only
  generalize wakeDue (saveCurrent k context) (saveCurrent k context).blockedQueue.length = k₁ at h₁
  have hrun : ∀ (k₂ : Kernel) (t : Nat), Stacked k₂ →
      Stacked { k₂.modTcb t fun tcb => { tcb with state := .running } with currentThread := some t } :=
    fun _ t h₂ => (stacked_modTcb h₂ t (f := fun tcb => { tcb with state := .running })
      fun _ => ⟨rfl, rfl⟩).congr rfl rfl
  split
  · exact stacked_drain _ (stacked_switchDirectory (hrun _ _ h₁) _)
  · rename_i t rest _
    have h₂ := hrun { k₁ with readyQueue := rest } t (h₁.congr rfl rfl)
    refine stacked_drain _ ?_
    unfold dispatch
    dsimp only at h₂ ⊢
    split
    · exact h₂
    · exact stacked_switchDirectory h₂ _

end Sched
end Hashx86
