import Hashx86.Sched.Clock
import Hashx86.Sched.Live
import Hashx86.Sched.Queues
import Hashx86.Syscalls.CopyUser

/-!
# Sleeping threads (`sys_nanosleep`)

`timerTicks` has 64 bits, `wakeTime` has 32, and both are compared as they are. A tick is a
millisecond.

* `handleSysNanosleep`: the system call. `Watch`: the kernel with the deadline of each sleeper, a
  ghost that never wraps.
* `step_spares`: what a call that does not sleep, wake or schedule leaves of another thread.
* `schedule_spec`: `Schedule` makes a sleeper ready when its `wakeTime` has come, and does not touch
  it before.
* `sleepers_on_time`: in a run whose requests fit (`Fits`) every sleeper is made ready by the first
  `Schedule` at its deadline or after it. `sleeper_woken_early`: a request that does not.
-/

namespace Hashx86
namespace Sched

open Lib Paging UserCopy

/-! ## The system call -/

/-- `struct timespec`. -/
structure Timespec where
  tvSec : Int
  tvNsec : Int

/-- A word read as an `int32_t`. -/
def int32 (w : Nat) : Int := if w < 2 ^ 31 then w else w - 2 ^ 32

def Timespec.ofBytes (bs : List UInt8) : Timespec :=
  { tvSec := int32 (read32 (fun i => bs.getD i 0) 0)
    tvNsec := int32 (read32 (fun i => bs.getD i 0) 4) }

/-- The milliseconds of the request. -/
def Timespec.milliseconds (req : Timespec) : Int := req.tvSec * 1000 + req.tvNsec.tdiv 1000000

/-- `sleep_ms`: the sum in 32 bits. -/
def Timespec.sleepMs (req : Timespec) : Nat := (req.milliseconds % 2 ^ 32).toNat

/-- The page directory of the current process. -/
def currentDirectory (k : Kernel) : Option Nat :=
  ((currentProcess k).bind k.pcbs).map (·.pageDirectory)

/-- `k_req`; `none` is a failed `CopyFromUser`. -/
def copyRequest (k : Kernel) (req : Nat) : Option Timespec :=
  if req = 0 then some ⟨0, 0⟩
  else match currentDirectory k with
    | none => none
    | some d => (copyFromUser k.machine d req 8).map Timespec.ofBytes

/-- `Handle_sys_nanosleep`. -/
def handleSysNanosleep (k : Kernel) (req rem : Nat) : Int × Kernel :=
  match copyRequest k req with
  | none => (-1, k)
  | some kReq =>
    let k := sleep k kReq.sleepMs
    if rem = 0 then (0, k)
    else match currentDirectory k with
      | none => (-1, k)
      | some d =>
        let r := copyToUser k.machine d rem (fun _ => 0) 8
        (if r.1 then 0 else -1, k.withMachine r.2)

/-! ## The deadlines -/

/-- A `sys_nanosleep` or another call of the scheduler. -/
inductive Call where
  | nanosleep (req rem : Nat)
  | other (op : Op)

/-- The kernel after a call. -/
def afterCall (threadExit : Nat) (k : Kernel) : Call → Kernel
  | .nanosleep req rem => (handleSysNanosleep k req rem).2
  | .other op => step threadExit k op

/-- The milliseconds that the current thread asks to sleep. -/
def asks (k : Kernel) : Call → Option Int
  | .nanosleep req _ => (copyRequest k req).map (·.milliseconds)
  | .other (.sleep ms) => some ms
  | .other _ => none

/-- The kernel, and when each thread that asked to sleep is to wake. -/
structure Watch where
  kernel : Kernel
  deadline : Nat → Option Int

/-- The call wakes `t` explicitly. -/
def Call.wakes (t : Nat) : Call → Bool
  | .other (.wakeThread u) => u = t
  | _ => false

def Call.schedules : Call → Bool
  | .other (.schedule _) => true
  | _ => false

/-- The deadlines after a call. A deadline is met in a `Schedule` that does not come before it, and
is void when the thread is woken explicitly, has ended or asks again. -/
def Watch.nextDeadline (w : Watch) (call : Call) (after : Kernel) (t : Nat) : Option Int :=
  if w.kernel.currentThread = some t ∧ (asks w.kernel call).isSome then
    (asks w.kernel call).map fun ms => w.kernel.timerTicks + ms
  else if call.wakes t ∨ after.view.state t = none ∨ after.view.state t = some .terminated then none
  else (w.deadline t).filter fun due => !(call.schedules && decide (due ≤ w.kernel.timerTicks))

def Watch.step (threadExit : Nat) (w : Watch) (call : Call) : Watch :=
  { kernel := afterCall threadExit w.kernel call
    deadline := w.nextDeadline call (afterCall threadExit w.kernel call) }

/-- Who sleeps is blocked. A `Schedule` before the deadline leaves it blocked, one at the deadline or
after it makes it ready, and maybe runs it at once. -/
def OnTime (threadExit : Nat) (w : Watch) (call : Call) : Prop :=
  ∀ t due, w.deadline t = some due → w.kernel.view.state t = some .blocked ∧
    (call.schedules = true →
      (w.kernel.timerTicks < due →
        (w.step threadExit call).kernel.view.state t = some .blocked) ∧
      (due ≤ w.kernel.timerTicks →
        (w.step threadExit call).kernel.view.state t = some .ready ∨
          (w.step threadExit call).kernel.view.state t = some .running))

/-- The deadline fits in `wakeTime`, or it has passed and its low 32 bits have too. -/
def Fits (ticks : Nat) (ms : Int) : Prop :=
  (0 ≤ ticks + ms ∧ ticks + ms < 2 ^ 32) ∨ (ms ≤ 0 ∧ (ticks + ms) % 2 ^ 32 ≤ ticks)

instance (ticks : Nat) (ms : Int) : Decidable (Fits ticks ms) := inferInstanceAs (Decidable (_ ∨ _))

/-- `StepOk` for both kinds of calls, and each request fits. -/
def CallOk (w : Watch) (call : Call) : Prop :=
  (∀ ms, asks w.kernel call = some ms → StepOk w.kernel (.sleep 0) ∧ Fits w.kernel.timerTicks ms) ∧
    ∀ op, call = .other op → StepOk w.kernel op

/-! ## What a call leaves of the threads -/

variable {k k' k'' : Kernel}

theorem live_of_tcb {t : Nat} {tcb : Tcb} (h : k.tcbs t = some tcb) (hs : tcb.state ≠ .terminated) :
    k.view.Live t := View.live_of_state (congrArg (Option.map Tcb.state) h) hs

/-- Each thread of `k` is as it was, or has ended. -/
def Spares (k k' : Kernel) : Prop := ∀ t tcb, k.tcbs t = some tcb → k'.tcbs t = some tcb ∨ ¬ k'.view.Live t

/-- The same, and no thread is new. -/
def Ends (k k' : Kernel) : Prop := ∀ t, k'.tcbs t = k.tcbs t ∨ ¬ k'.view.Live t

theorem Ends.of_tcbs (h : k'.tcbs = k.tcbs) : Ends k k' := fun _ => .inl (congrFun h _)

theorem Ends.trans (h : Ends k k') (h' : Ends k' k'') : Ends k k'' := fun t => by
  rcases h' t with he | hdead
  · rcases h t with he' | hdead
    · exact .inl (he.trans he')
    · refine .inr fun hl => hdead ?_
      have hv : k''.view.state t = k'.view.state t := congrArg (Option.map Tcb.state) he
      unfold View.Live at hl ⊢
      rwa [hv] at hl
  · exact .inr hdead

theorem Ends.spares (h : Ends k k') : Spares k k' := fun t _ ht => (h t).imp_left (·.trans ht)

theorem Spares.ends (h : Spares k k') (h' : Ends k' k'') : Spares k k'' := fun t tcb ht => by
  rcases h' t with he | hdead
  · rcases h t tcb ht with he' | hdead
    · exact .inl (he.trans he')
    · refine .inr fun hl => hdead ?_
      have hv : k''.view.state t = k'.view.state t := congrArg (Option.map Tcb.state) he
      unfold View.Live at hl ⊢
      rwa [hv] at hl
  · exact .inr hdead

theorem Spares.of_tcbs (h : k'.tcbs = k.tcbs) : Spares k k' := (Ends.of_tcbs h).spares

theorem Spawned.spares {p t : Nat} (h : Spawned k k' p t) : Spares k k' := fun u tcb hu => by
  obtain ⟨new, htcbs, -⟩ := h.tcbs
  have hne : u ≠ t := fun e => by
    rw [e, h.fresh] at hu
    cases hu
  rw [htcbs, Function.update_of_ne hne]
  exact .inl hu

theorem terminateThread_ends (k : Kernel) (t : Nat) : Ends k (terminateThread k t) := by
  cases ht : k.tcbs t with
  | none =>
    unfold terminateThread
    rw [ht]
    exact .of_tcbs rfl
  | some tcb =>
    by_cases hs : tcb.state = .terminated
    · unfold terminateThread
      rw [ht]
      dsimp only
      rw [if_pos hs]
      exact .of_tcbs rfl
    · intro u
      have htcbs := (terminateThread_spec ht hs).tcbs
      by_cases hu : u = t
      · subst hu
        refine .inr fun hl => ?_
        obtain ⟨hne, hnt⟩ := hl
        unfold Kernel.view at hne hnt
        simp only [htcbs, Function.update_self] at hne hnt
        split at hne
        · rename_i hc
          simp [hc, Tcb.dead] at hnt
        · simp at hne
      · rw [htcbs, Function.update_of_ne hu]
        exact .inl rfl

theorem killThreads_ends (k : Kernel) (p n : Nat) : Ends k (killThreads k p n) := by
  induction n generalizing k with
  | zero => exact .of_tcbs rfl
  | succ n ih =>
    unfold killThreads
    split
    · exact ih k
    · rename_i t rest _
      have hpop : Ends k (k.modPcb p fun pcb => { pcb with threads := rest }) := .of_tcbs rfl
      exact (hpop.trans (terminateThread_ends _ t)).trans (ih _)

theorem killProcess_ends (k : Kernel) (pid : Nat) : Ends k (killProcess k pid).2 := by
  unfold killProcess
  generalize killScan k pid k.globalProcessList.length k.globalProcessList = scan
  obtain ⟨target, list⟩ := scan
  dsimp only
  cases target with
  | none => exact .of_tcbs rfl
  | some p =>
    dsimp only
    cases k.pcbs p with
    | none => exact .of_tcbs rfl
    | some pcb =>
      dsimp only
      generalize hk₁ : (if pcb.pageDirectory = k.cr3 then
        ({ k with globalProcessList := list, cr3 := k.machine.kernelPageDirectory } : Kernel)
        else { k with globalProcessList := list }) = k₁
      have h₁ : k₁.tcbs = k.tcbs := by
        subst hk₁
        split <;> rfl
      have h₂ := (Ends.of_tcbs h₁).trans (killThreads_ends k₁ p pcb.threads.length)
      split <;> exact h₂.trans (.of_tcbs rfl)

theorem exitCurrentThread_ends (k : Kernel) : Ends k (exitCurrentThread k).2 := by
  unfold exitCurrentThread
  split
  · exact .of_tcbs rfl
  split
  · exact .of_tcbs rfl
  split
  · exact terminateThread_ends _ _
  split
  · exact .of_tcbs rfl
  dsimp only
  split
  · exact (Ends.of_tcbs rfl).trans (killProcess_ends _ _)
  · exact (Ends.of_tcbs rfl).trans (terminateThread_ends _ _)

theorem createThread_spares (threadExit : Nat) (k : Kernel) (ptr : Nat) (parent : Option Nat)
    (entrypoint arg : Nat) : Spares k (createThread threadExit k ptr parent entrypoint arg).2 := by
  rcases createThread_cases threadExit k ptr parent entrypoint arg with
    ⟨k', e, hf⟩ | ⟨-, hfree, context, e⟩ | ⟨p, k', -, e, hs⟩
  · rw [e]
    exact .of_tcbs hf.tcbs
  · rw [e]
    intro u tcb hu
    have hne : u ≠ ptr := fun he => by
      rw [he, hfree] at hu
      cases hu
    exact .inl ((Function.update_of_ne hne _ _).trans hu)
  · rw [e]
    exact hs.spares

/-- A call that does not sleep, wake or schedule. -/
theorem step_spares (threadExit : Nat) (k : Kernel) {op : Op} (hsleep : ∀ ms, op ≠ .sleep ms)
    (hwake : ∀ t, op ≠ .wakeThread t) (hsched : ∀ context, op ≠ .schedule context) :
    Spares k (step threadExit k op) := by
  cases op with
  | createProcess pcbPtr tcbPtr isKernel entrypoint arg main =>
    simp only [step]
    rcases createProcess_cases threadExit k pcbPtr tcbPtr isKernel entrypoint arg main with
      ⟨k', e, hf⟩ | ⟨k₁, k', e, ha, rfl | hs⟩
    · rw [e]
      exact .of_tcbs hf.tcbs
    · rw [e]
      exact .of_tcbs ha.tcbs
    · rw [e]
      intro u tcb hu
      exact hs.spares u tcb (by rw [ha.tcbs]; exact hu)
  | startProcess p tcbPtr arg =>
    simp only [step]
    unfold startProcess
    split
    · exact .of_tcbs rfl
    split
    · exact .of_tcbs rfl
    rename_i pcb _ _
    have hcreate := createThread_spares threadExit k tcbPtr (some p) pcb.mainEntry arg
    split <;> rename_i e <;> rw [e] at hcreate
    · exact hcreate
    · exact hcreate.ends (killProcess_ends _ _)
  | createThread tcbPtr parent entrypoint arg => exact createThread_spares _ _ _ _ _ _
  | cloneCurrentThread tcbPtr args =>
    simp only [step]
    rcases cloneCurrentThread_cases k tcbPtr args with ⟨k', e, hf⟩ | ⟨p, k', e, hs⟩
    · rw [e]
      exact .of_tcbs hf.tcbs
    · rw [e]
      exact hs.spares
  | cloneCurrentProcess pcbPtr tcbPtr args =>
    simp only [step]
    rcases cloneCurrentProcess_cases k pcbPtr tcbPtr args with ⟨k', e, hf⟩ | ⟨k₁, k', e, ha, hs⟩
    · rw [e]
      exact .of_tcbs hf.tcbs
    · rw [e]
      intro u tcb hu
      exact hs.spares u tcb (by rw [ha.tcbs]; exact hu)
  | sleep ms => exact absurd rfl (hsleep ms)
  | wakeThread t => exact absurd rfl (hwake t)
  | terminateThread t => exact (terminateThread_ends k t).spares
  | exitCurrentThread => exact (exitCurrentThread_ends k).spares
  | killProcess pid => exact (killProcess_ends k pid).spares
  | schedule context => exact absurd rfl (hsched context)
  | tick n => exact .of_tcbs rfl
  | memory m => exact .of_tcbs rfl

/-! ## The switch -/

/-- `t` sleeps until the counter is at `wake`. -/
def Asleep (k : Kernel) (t wake : Nat) : Prop :=
  ∃ tcb, k.tcbs t = some tcb ∧ tcb.state = .blocked ∧ tcb.wakeTime = wake

/-- `t` is ready, or runs. -/
def Awake (k : Kernel) (t : Nat) : Prop :=
  k.view.state t = some .ready ∨ k.view.state t = some .running

variable {t wake : Nat}

theorem Asleep.state (h : Asleep k t wake) : k.view.state t = some .blocked := by
  obtain ⟨tcb, ht, hs, -⟩ := h
  exact (congrArg (Option.map Tcb.state) ht).trans (congrArg some hs)

theorem Asleep.of_tcb (h : Asleep k t wake) (ht : k'.tcbs t = k.tcbs t) : Asleep k' t wake := by
  obtain ⟨tcb, htcb, hs, hw⟩ := h
  exact ⟨tcb, ht.trans htcb, hs, hw⟩

theorem Awake.of_tcb (h : Awake k t) (ht : k'.tcbs t = k.tcbs t) : Awake k' t := by
  have hv : k'.view.state t = k.view.state t := congrArg (Option.map Tcb.state) ht
  unfold Awake at h ⊢
  rwa [hv]

theorem modTcb_of_ne {u : Nat} (k : Kernel) (f : Tcb → Tcb) (h : t ≠ u) :
    (k.modTcb u f).tcbs t = k.tcbs t := Function.update_of_ne h _ _

theorem modTcb_self {tcb : Tcb} (h : k.tcbs t = some tcb) (f : Tcb → Tcb) :
    (k.modTcb t f).tcbs t = some (f tcb) :=
  (Function.update_self _ _ _).trans (congrArg (Option.map f) h)

/-- The registers of a sleeper that is still current are saved. -/
theorem saveCurrent_asleep (h : Asleep k t wake) (context : CpuState) :
    Asleep (saveCurrent k context) t wake := by
  obtain ⟨tcb, ht, hs, hw⟩ := h
  unfold saveCurrent
  cases hc : k.currentThread with
  | none => exact ⟨tcb, ht, hs, hw⟩
  | some cur =>
    dsimp only
    by_cases he : t = cur
    · subst he
      have hself := modTcb_self ht fun tcb => { tcb with context := context }
      rw [hself, Option.map_some, hs]
      exact ⟨_, hself, hs, hw⟩
    · have hsame := (modTcb_of_ne k (fun tcb => { tcb with context := context }) he).trans ht
      split
      · split
        · exact ⟨tcb, hsame, hs, hw⟩
        · exact ⟨tcb, (modTcb_of_ne _ _ he).trans hsame, hs, hw⟩
      all_goals exact ⟨tcb, hsame, hs, hw⟩

/-- A thread that is not among those left to look at. -/
theorem wakeDue_of_not_mem (n : Nat) (front back : List Nat) (hq : k.blockedQueue = front ++ back)
    (hn : front.length = n) (ht : t ∉ front) : (wakeDue k n).tcbs t = k.tcbs t := by
  induction n generalizing k front back with
  | zero => rfl
  | succ n ih =>
    cases front with
    | nil => cases hn
    | cons u front =>
      rw [List.mem_cons, not_or] at ht
      have hlen := Nat.succ.inj hn
      unfold wakeDue
      rw [hq, List.cons_append]
      dsimp only
      split
      · rw [ih front back rfl hlen ht.2]
        exact modTcb_of_ne k _ ht.1
      · rw [ih front (back ++ [u]) (List.append_assoc _ _ _) hlen ht.2]

/-- The loop over the blocked queue looks at each sleeper once. -/
theorem wakeDue_spec (n : Nat) (front back : List Nat) (hq : k.blockedQueue = front ++ back)
    (hn : front.length = n) (hnodup : front.Nodup) (ht : t ∈ front) (h : Asleep k t wake) :
    (wake ≤ k.timerTicks → (wakeDue k n).view.state t = some .ready) ∧
      (k.timerTicks < wake → Asleep (wakeDue k n) t wake) := by
  induction n generalizing k front back with
  | zero =>
    obtain rfl := List.length_eq_zero_iff.mp hn
    cases ht
  | succ n ih =>
    cases front with
    | nil => cases ht
    | cons u front =>
      obtain ⟨hu, hnodup⟩ := List.nodup_cons.mp hnodup
      have hlen := Nat.succ.inj hn
      unfold wakeDue
      rw [hq, List.cons_append]
      dsimp only
      by_cases he : t = u
      · -- The sleeper is at the head: it is made ready, or goes to the back as it was.
        subst he
        obtain ⟨tcb, htcb, hs, hw⟩ := h
        have hdue : (k.tcbs t).any (·.due k.timerTicks) = decide (wake ≤ k.timerTicks) := by
          rw [htcb, Option.any_some, Tcb.due, hs, hw]
          simp
        rw [hdue]
        by_cases hd : wake ≤ k.timerTicks
        · rw [if_pos (by simpa using hd)]
          refine ⟨fun _ => ?_, fun hlt => absurd hd (by omega)⟩
          have hkeep := wakeDue_of_not_mem (k := { k.modTcb t Tcb.awake with
            blockedQueue := front ++ back, readyQueue := k.readyQueue ++ [t] }) n front back rfl hlen hu
          exact congrArg (Option.map Tcb.state) (hkeep.trans (modTcb_self htcb Tcb.awake))
        · rw [if_neg (by simpa using hd)]
          refine ⟨fun hle => absurd hle hd, fun _ => ?_⟩
          have hkeep := wakeDue_of_not_mem (k := { k with blockedQueue := front ++ back ++ [t] }) n
            front (back ++ [t]) (List.append_assoc _ _ _) hlen hu
          exact Asleep.of_tcb ⟨tcb, htcb, hs, hw⟩ hkeep
      · have hmem : t ∈ front := (List.mem_cons.mp ht).resolve_left he
        split
        · exact ih (k := { k.modTcb u Tcb.awake with
            blockedQueue := front ++ back, readyQueue := k.readyQueue ++ [u] }) front back rfl hlen
            hnodup hmem (h.of_tcb (modTcb_of_ne k _ he))
        · exact ih (k := { k with blockedQueue := front ++ back ++ [u] }) front (back ++ [u])
            (List.append_assoc _ _ _) hlen hnodup hmem (h.of_tcb rfl)

theorem dropThread_of_ne (k : Kernel) {u : Nat} (h : t ≠ u) : (k.dropThread u).tcbs t = k.tcbs t := by
  unfold Kernel.dropThread
  cases k.tcbs u with
  | none => rfl
  | some tcb => exact Function.update_of_ne h _ _

theorem drain_of_not_mem (n : Nat) (ht : t ∉ k.pendingReclaims) :
    (drainPendingReclaims k n).tcbs t = k.tcbs t := by
  induction n generalizing k with
  | zero => rfl
  | succ n ih =>
    unfold drainPendingReclaims
    cases hq : k.pendingReclaims with
    | nil => rfl
    | cons u rest =>
      rw [hq, List.mem_cons, not_or] at ht
      have hpending : (({ k with pendingReclaims := rest } : Kernel).dropThread u).pendingReclaims =
          rest := by
        unfold Kernel.dropThread
        split <;> rfl
      rw [ih (by rw [hpending]; exact ht.2)]
      exact dropThread_of_ne _ ht.1

theorem switchDirectory_tcbs (k : Kernel) (directory : Nat) :
    (switchDirectory k directory).tcbs = k.tcbs := by
  unfold switchDirectory
  split <;> rfl

theorem dispatch_tcbs (k : Kernel) (u : Nat) :
    (dispatch k u).tcbs = (k.modTcb u fun tcb => { tcb with state := .running }).tcbs := by
  unfold dispatch
  dsimp only
  split
  · rfl
  · exact switchDirectory_tcbs _ _

/-- `Schedule` makes a sleeper ready when its time has come, and does not touch it before. -/
theorem schedule_spec (h : Rota k.view) (hs : Asleep k t wake) (context : CpuState) :
    (wake ≤ k.timerTicks → Awake (schedule k context) t) ∧
      (k.timerTicks < wake → Asleep (schedule k context) t wake) := by
  obtain ⟨k₁, hk₁⟩ : ∃ k₁, k₁ = saveCurrent k context := ⟨_, rfl⟩
  obtain ⟨k₂, hk₂⟩ : ∃ k₂, k₂ = wakeDue k₁ k₁.blockedQueue.length := ⟨_, rfl⟩
  have h₁ : Rota k₁.parked := hk₁ ▸ rota_saveCurrent h context
  have h₂ : Rota k₂.parked := hk₂ ▸ rota_wakeDue h₁ _
  have hs₁ : Asleep k₁ t wake := hk₁ ▸ saveCurrent_asleep hs context
  have hticks : k₁.timerTicks = k.timerTicks := hk₁ ▸ timerTicks_saveCurrent k context
  have hidle₁ : t ≠ k₁.idleThread := fun e => by
    have hi := h₁.idle_state
    rw [show k₁.parked.idle = t from e.symm] at hi
    rcases hi with hi | hi <;> cases hi.symm.trans hs₁.state
  -- A sleeper that is not current is in the blocked queue.
  have hblocked : t ∈ k₁.blockedQueue := by
    rcases h₁.somewhere t (View.live_of_state hs₁.state (by decide)) hidle₁ with hc | hr | hb
    · cases hc
    · cases (h₁.ready_state t hr).symm.trans hs₁.state
    · exact hb
  obtain ⟨hdue, hearly⟩ := wakeDue_spec k₁.blockedQueue.length k₁.blockedQueue []
    (List.append_nil _).symm rfl h₁.blocked_nodup hblocked hs₁
  rw [← hk₂, hticks] at hdue hearly
  have hlive : k₂.view.state t = some .ready ∨ k₂.view.state t = some .blocked := by
    by_cases hw : wake ≤ k.timerTicks
    · exact .inl (hdue hw)
    · exact .inr (hearly (by omega)).state
  have hpending : t ∉ k₂.pendingReclaims := fun hm => by
    have hterm : k₂.view.state t = some .terminated := (h₂.pending_iff t).mp hm
    rcases hlive with hl | hl <;> cases hl.symm.trans hterm
  have hidle : t ≠ k₂.idleThread := fun e => by
    have hi := h₂.idle_state
    rw [show k₂.parked.idle = t from e.symm] at hi
    rcases hi with hi | hi <;> rcases hlive with hl | hl <;> cases hi.symm.trans hl
  have hkeep : (schedule k context).tcbs t = k₂.tcbs t →
      (wake ≤ k.timerTicks → Awake (schedule k context) t) ∧
        (k.timerTicks < wake → Asleep (schedule k context) t wake) := fun he =>
    ⟨fun hle => Awake.of_tcb (.inl (hdue hle)) he, fun hlt => (hearly hlt).of_tcb he⟩
  unfold schedule at hkeep ⊢
  rw [← hk₁] at hkeep ⊢
  dsimp only at hkeep ⊢
  rw [← hk₂] at hkeep ⊢
  cases hq : k₂.readyQueue with
  | nil =>
    rw [hq] at hkeep
    apply hkeep
    dsimp only
    rw [drain_of_not_mem, switchDirectory_tcbs]
    · exact modTcb_of_ne k₂ _ hidle
    · unfold switchDirectory
      split <;> exact hpending
  | cons u rest =>
    rw [hq] at hkeep
    dsimp only at hkeep ⊢
    have hpick : t ∉ (dispatch { k₂ with readyQueue := rest } u).pendingReclaims := by
      unfold dispatch switchDirectory
      dsimp only
      split
      · exact hpending
      · split <;> exact hpending
    by_cases he : t = u
    · -- The sleeper is first in the ready queue: it was made ready, and runs.
      subst he
      have hready : k₂.view.state t = some .ready := h₂.ready_state t
        (show t ∈ k₂.readyQueue from hq ▸ List.mem_cons_self)
      obtain ⟨tcb, htcb, -⟩ := Rota.tcb_of_state hready
      refine ⟨fun _ => .inr ?_, fun hlt => ?_⟩
      · refine congrArg (Option.map Tcb.state) ?_ |>.trans
          (show Option.map Tcb.state (some { tcb with state := .running }) = _ from rfl)
        rw [drain_of_not_mem _ hpick, dispatch_tcbs]
        exact modTcb_self (k := { k₂ with readyQueue := rest }) htcb _
      · cases (hearly hlt).state.symm.trans hready
    · apply hkeep
      rw [drain_of_not_mem _ hpick, dispatch_tcbs]
      exact modTcb_of_ne _ _ he

/-! ## Runs -/

/-- `wakeTime` stands for the deadline: it is the deadline, or both have passed. -/
def StandsFor (wake : Nat) (due : Int) (ticks : Nat) : Prop :=
  (wake : Int) = due ∨ (due ≤ ticks ∧ wake ≤ ticks)

theorem Fits.standsFor {ticks : Nat} {ms : Int} (h : Fits ticks ms) (wake : Nat)
    (hw : (wake : Int) = (ticks + ms) % 2 ^ 32) : StandsFor wake (ticks + ms) ticks := by
  rcases h with h | h
  · exact .inl (by omega)
  · exact .inr (by omega)

theorem StandsFor.mono {due : Int} {ticks ticks' : Nat} (h : StandsFor wake due ticks)
    (hle : ticks ≤ ticks') : StandsFor wake due ticks' := by
  rcases h with h | ⟨h1, h2⟩
  · exact .inl h
  · exact .inr ⟨by omega, by omega⟩

/-- The sleepers of a run, each with a `wakeTime` that stands for its deadline. -/
structure Watching (w : Watch) : Prop where
  rota : Rota w.kernel.view
  asleep : ∀ t due, w.deadline t = some due →
    ∃ wake, Asleep w.kernel t wake ∧ StandsFor wake due w.kernel.timerTicks

theorem sleep_current {cur : Nat} (hc : k.currentThread = some cur) (hl : k.view.Live cur) (ms : Nat) :
    Asleep (sleep k ms) cur ((k.timerTicks + ms) % 2 ^ 32) := by
  obtain ⟨tcb, ht⟩ := Rota.tcb_of_live hl
  unfold sleep
  rw [hc]
  exact ⟨_, modTcb_self ht _, rfl, rfl⟩

theorem sleep_of_ne (ht : k.currentThread ≠ some t) (ms : Nat) :
    (sleep k ms).tcbs t = k.tcbs t := by
  unfold sleep
  split
  · rfl
  · rename_i cur hc
    exact modTcb_of_ne k _ fun e => ht (e ▸ hc)

/-- A call with a request does what `Sleep` does; a nanosleep changes user memory too. -/
theorem afterCall_asks (threadExit : Nat) {call : Call} {ms : Int} (h : asks k call = some ms) :
    ∃ n m, afterCall threadExit k call = (sleep k n).withMachine m ∧
      ((n : Int) - ms) % 2 ^ 32 = 0 := by
  cases call with
  | nanosleep req rem =>
    obtain ⟨kReq, hreq, rfl⟩ := Option.map_eq_some_iff.mp h
    have hn : (((kReq.sleepMs : Nat) : Int) - kReq.milliseconds) % 2 ^ 32 = 0 := by
      unfold Timespec.sleepMs
      omega
    simp only [afterCall, handleSysNanosleep, hreq]
    split
    · exact ⟨kReq.sleepMs, (sleep k kReq.sleepMs).machine, rfl, hn⟩
    split
    · exact ⟨kReq.sleepMs, (sleep k kReq.sleepMs).machine, rfl, hn⟩
    · exact ⟨kReq.sleepMs, _, rfl, hn⟩
  | other op =>
    cases op with
    | sleep n =>
      obtain rfl := Option.some.inj h
      exact ⟨n, (sleep k n).machine, rfl, by omega⟩
    | _ => cases h

/-- A nanosleep whose request cannot be read does nothing. -/
theorem afterCall_nanosleep_none {threadExit req rem : Nat} (h : asks k (.nanosleep req rem) = none) :
    afterCall threadExit k (.nanosleep req rem) = k := by
  have hreq : copyRequest k req = none := Option.map_eq_none_iff.mp h
  simp only [afterCall, handleSysNanosleep, hreq]

/-- Where a deadline comes from. -/
theorem nextDeadline_some {w : Watch} {call : Call} {after : Kernel} {due : Int}
    (h : w.nextDeadline call after t = some due) :
    (∃ ms, asks w.kernel call = some ms ∧ w.kernel.currentThread = some t ∧
        due = w.kernel.timerTicks + ms) ∨
      (w.deadline t = some due ∧ after.view.Live t ∧ call.wakes t = false ∧
        (call.schedules = true → w.kernel.timerTicks < due) ∧
        ¬ (w.kernel.currentThread = some t ∧ (asks w.kernel call).isSome = true)) := by
  unfold Watch.nextDeadline at h
  by_cases hask : w.kernel.currentThread = some t ∧ (asks w.kernel call).isSome = true
  · rw [if_pos hask] at h
    obtain ⟨ms, hms, rfl⟩ := Option.map_eq_some_iff.mp h
    exact .inl ⟨ms, hms, hask.1, rfl⟩
  rw [if_neg hask] at h
  by_cases hend : call.wakes t = true ∨ after.view.state t = none ∨
      after.view.state t = some .terminated
  · rw [if_pos hend] at h
    cases h
  rw [if_neg hend, Option.filter_eq_some_iff] at h
  rw [not_or, not_or, Bool.not_eq_true] at hend
  refine .inr ⟨h.1, hend.2, hend.1, fun hs => ?_, hask⟩
  have := h.2
  rw [hs] at this
  simpa using this

/-- A thread that asks for nothing, is not woken and does not end sleeps on. -/
theorem afterCall_asleep {threadExit : Nat} {call : Call} (h : Rota k.view) (hs : Asleep k t wake)
    (hl : (afterCall threadExit k call).view.Live t) (hwakes : call.wakes t = false)
    (hask : ¬ (k.currentThread = some t ∧ (asks k call).isSome = true))
    (hsched : call.schedules = true → k.timerTicks < wake) :
    Asleep (afterCall threadExit k call) t wake := by
  cases hms : asks k call with
  | some ms =>
    obtain ⟨n, m, he, -⟩ := afterCall_asks threadExit hms
    rw [he]
    exact hs.of_tcb (sleep_of_ne (fun hc => hask ⟨hc, by rw [hms]; rfl⟩) n)
  | none =>
    cases call with
    | nanosleep req rem =>
      rw [afterCall_nanosleep_none hms]
      exact hs
    | other op =>
      by_cases hctx : ∃ context, op = .schedule context
      · obtain ⟨context, rfl⟩ := hctx
        exact (schedule_spec h hs context).2 (hsched rfl)
      by_cases hwake : ∃ u, op = .wakeThread u
      · obtain ⟨u, rfl⟩ := hwake
        have hne : t ≠ u := fun e => by
          rw [e] at hwakes
          simp [Call.wakes] at hwakes
        refine hs.of_tcb ?_
        show (wakeThread k u).tcbs t = k.tcbs t
        unfold wakeThread
        split
        · rfl
        · split
          · rfl
          · exact modTcb_of_ne k _ hne
      push Not at hctx hwake
      have hsleep : ∀ ms, op ≠ .sleep ms := by
        rintro ms rfl
        cases hms
      obtain ⟨tcb, ht, hst, hw⟩ := hs
      exact ⟨tcb, (step_spares threadExit k hsleep hwake hctx t tcb ht).resolve_right
        (not_not_intro hl), hst, hw⟩

theorem rota_afterCall {threadExit : Nat} {w : Watch} {call : Call} (h : Rota w.kernel.view)
    (hok : CallOk w call) : Rota (afterCall threadExit w.kernel call).view := by
  cases call with
  | nanosleep req rem =>
    cases hms : asks w.kernel (.nanosleep req rem) with
    | none => rwa [afterCall_nanosleep_none hms]
    | some ms =>
      obtain ⟨n, m, he, -⟩ := afterCall_asks threadExit hms
      rw [he]
      exact rota_sleep h n (hok.1 ms hms).1
  | other op => exact rota_step h threadExit (hok.2 op rfl)

theorem timerTicks_afterCall (threadExit : Nat) (k : Kernel) (call : Call) :
    k.timerTicks ≤ (afterCall threadExit k call).timerTicks := by
  cases call with
  | nanosleep req rem =>
    cases hms : asks k (.nanosleep req rem) with
    | none => rw [afterCall_nanosleep_none hms]
    | some ms =>
      obtain ⟨n, m, he, -⟩ := afterCall_asks threadExit hms
      rw [he]
      exact (timerTicks_sleep k n).ge
  | other op => exact timerTicks_mono k threadExit op

theorem watching_step {threadExit : Nat} {w : Watch} {call : Call} (h : Watching w)
    (hok : CallOk w call) : Watching (w.step threadExit call) := by
  refine ⟨rota_afterCall h.rota hok, fun t due hdue => ?_⟩
  rcases nextDeadline_some hdue with ⟨ms, hms, hc, rfl⟩ | ⟨hd, hl, hwakes, hsched, hask⟩
  · obtain ⟨n, m, he, hn⟩ := afterCall_asks threadExit hms
    have hsleep := sleep_current hc (h.rota.live_current hc) n
    have hstands := (hok.1 ms hms).2.standsFor ((w.kernel.timerTicks + n) % 2 ^ 32) (by omega)
    refine ⟨_, ?_, hstands.mono (timerTicks_afterCall threadExit _ call)⟩
    show Asleep (afterCall threadExit w.kernel call) t _
    rw [he]
    exact hsleep
  · obtain ⟨wake, hs, hstands⟩ := h.asleep t due hd
    refine ⟨wake, afterCall_asleep h.rota hs hl hwakes hask fun hsc => ?_,
      hstands.mono (timerTicks_afterCall threadExit _ call)⟩
    have := hsched hsc
    rcases hstands with he | ⟨h1, -⟩ <;> omega

theorem Watching.onTime {w : Watch} (h : Watching w) (threadExit : Nat) (call : Call) :
    OnTime threadExit w call := by
  intro t due hdue
  obtain ⟨wake, hs, hstands⟩ := h.asleep t due hdue
  refine ⟨hs.state, fun hsched => ?_⟩
  cases call with
  | nanosleep req rem => cases hsched
  | other op =>
    cases op with
    | schedule context =>
      obtain ⟨hready, hearly⟩ := schedule_spec h.rota hs context
      refine ⟨fun hlt => (hearly ?_).state, fun hle => hready ?_⟩
      · rcases hstands with he | ⟨h1, -⟩ <;> omega
      · rcases hstands with he | ⟨-, h2⟩ <;> omega
    | _ => cases hsched

/-- In every run whose calls meet `CallOk`, every sleeper is made ready by the first `Schedule` at
its deadline or after it, and not before. -/
theorem sleepers_on_time {m : Machine} {zone : Kstack.Zone} {threadExit idleTask tcbPtr : Nat}
    {k : Kernel} (h : newScheduler m zone threadExit idleTask tcbPtr = some k) {calls : List Call}
    (hok : Along (Watch.step threadExit) CallOk ⟨k, fun _ => none⟩ calls) :
    Along (Watch.step threadExit) (OnTime threadExit) ⟨k, fun _ => none⟩ calls :=
  Along.of_inv (I := Watching)
    (fun _ call hw hok => ⟨watching_step hw hok, hw.onTime threadExit call⟩)
    ⟨rota_newScheduler h, fun _ _ hd => nomatch hd⟩ hok

theorem CallOk.other {w : Watch} {op : Op} (hask : asks w.kernel (.other op) = none)
    (h : StepOk w.kernel op) : CallOk w (.other op) := by
  refine ⟨fun ms hms => ?_, ?_⟩
  · rw [hask] at hms
    cases hms
  · rintro _ ⟨⟩
    exact h

theorem CallOk.sleep {w : Watch} {ms : Nat} (h : StepOk w.kernel (.sleep ms))
    (hf : Fits w.kernel.timerTicks ms) : CallOk w (.other (.sleep ms)) := by
  constructor
  · rintro _ ⟨⟩
    exact ⟨h, hf⟩
  · rintro _ ⟨⟩
    exact h

/-- A thread sleeps for five milliseconds: it is still blocked after the first `Schedule`, and runs
after the second. -/
theorem sleepers_on_time_five :
    ∃ k, newScheduler eightFrames tenStacks 0x5000 0x6000 1 = some k ∧
      Along (Watch.step 0x5000) (OnTime 0x5000) ⟨k, fun _ => none⟩
        [.other (.createProcess 2 3 true 0x100000 0 true), .other (.schedule .zero),
          .other (.sleep 5), .other (.schedule .zero), .other (.tick 5), .other (.schedule .zero)] :=
  ⟨(newScheduler eightFrames tenStacks 0x5000 0x6000 1).get (by decide), by simp,
    sleepers_on_time (Option.some_get (by decide)).symm
      ⟨.other rfl trivial, .other rfl trivial, .sleep (by decide) (by decide), .other rfl trivial,
        .other rfl trivial, .other rfl trivial, trivial⟩⟩

/-- The memory of a process whose user page at `0x10000000` begins with a request of 5 ms. -/
def requestPage : Machine :=
  { twoPages 0 with
    mem := words fun k =>
      if k = 0x440 then 0x2007 else if k = 0x800 then 0x3007 else if k = 0xC01 then 5000000 else 0 }

/-- The thread at `3` of a user process runs when the counter leaves 32 bits. -/
def lateKernel : Kernel :=
  { Kernel.boot requestPage tenStacks with
    timerTicks := 2 ^ 32, currentThread := some 3, idleThread := 1, globalProcessList := [2]
    pcbs := fun p => if p = 2 then some { newPcb 0 false 0 0x1000 with threads := [3] } else none
    tcbs := fun t =>
      if t = 1 then some (freshTcb (Kernel.boot requestPage tenStacks) none 0 noSlot .zero)
      else if t = 3 then
        some { freshTcb (Kernel.boot requestPage tenStacks) (some 2) 0 noSlot .zero with
          state := .running }
      else none }

/-- The request does not fit in `wakeTime`, and the next `Schedule`, in the same tick, makes the
thread ready. -/
theorem sleeper_woken_early :
    ((⟨lateKernel, fun _ => none⟩ : Watch).step 0 (.nanosleep 0x10000000 0)).deadline 3 =
        some (2 ^ 32 + 5) ∧
      ¬ OnTime 0 ((⟨lateKernel, fun _ => none⟩ : Watch).step 0 (.nanosleep 0x10000000 0))
        (.other (.schedule .zero)) := by
  have hdue : ((⟨lateKernel, fun _ => none⟩ : Watch).step 0 (.nanosleep 0x10000000 0)).deadline 3 =
      some (2 ^ 32 + 5) := by decide +kernel
  refine ⟨hdue, fun h => ?_⟩
  have hblocked := ((h 3 _ hdue).2 rfl).1 (by decide +kernel)
  revert hblocked
  decide +kernel

end Sched
end Hashx86
