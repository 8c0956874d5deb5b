import Mathlib.Data.List.Basic
import Mathlib.Logic.Function.Basic
import Hashx86.Sched.Defs

/-!
# The rota: where each thread is

`View` is the scheduler seen as queues of threads: the state, the parent and the process list of
each thread, and nothing of memory, slots or stacks. A thread or a process that does not exist has
no state and no threads.

`Rota v` is the invariant between two calls. Each operation of the scheduler has a counterpart on
views that keeps it. `Rota.placed` is what a view without a running switch promises: each live
thread is in one place.
-/

namespace Hashx86
namespace Sched

structure View where
  state : Nat → Option ThreadState
  parent : Nat → Option Nat
  threads : Nat → List Nat
  ready : List Nat
  blocked : List Nat
  terminated : List Nat
  pending : List Nat
  current : Option Nat
  idle : Nat

namespace View

/-- The thread exists and was not terminated. -/
def Live (v : View) (t : Nat) : Prop := v.state t ≠ none ∧ v.state t ≠ some .terminated

/-- A new thread `t` of process `p` is runnable. -/
def spawn (v : View) (p t : Nat) : View :=
  { v with
    state := Function.update v.state t (some .ready), parent := Function.update v.parent t (some p)
    threads := Function.update v.threads p (v.threads p ++ [t]), ready := v.ready ++ [t] }

/-- The threads of process `p` are `threads`. -/
def setThreads (v : View) (p : Nat) (threads : List Nat) : View :=
  { v with threads := Function.update v.threads p threads }

/-- The process list of the parent of `t` without `t`. -/
def leaveParent (v : View) (t : Nat) : Nat → List Nat :=
  match v.parent t with
  | none => v.threads
  | some p => Function.update v.threads p ((v.threads p).erase t)

/-- A live thread is terminated: it is deleted, or waits to be reclaimed when it is the current
one. -/
def terminate (v : View) (t : Nat) : View :=
  { v with
    state := Function.update v.state t (if v.current = some t then some .terminated else none)
    parent := Function.update v.parent t (if v.current = some t then v.parent t else none)
    threads := v.leaveParent t
    ready := v.ready.erase t
    blocked := v.blocked.erase t
    pending := if v.current = some t then v.pending ++ [t] else v.pending
    current := if v.current = some t then none else v.current }

/-- Thread `t` is in another state. -/
def setState (v : View) (t : Nat) (s : ThreadState) : View :=
  { v with state := Function.update v.state t (some s) }

/-- A blocked thread becomes runnable. -/
def wake (v : View) (t : Nat) : View :=
  { v.setState t .ready with blocked := v.blocked.erase t, ready := v.ready ++ [t] }

/-- The current thread goes where its state says. -/
def leave (v : View) (cur : Nat) : View :=
  match v.state cur with
  | some .running =>
    if cur = v.idle then { v with current := none }
    else { v.setState cur .ready with ready := v.ready ++ [cur], current := none }
  | some .blocked => { v with blocked := v.blocked ++ [cur], current := none }
  | some .terminated => { v with terminated := v.terminated ++ [cur], current := none }
  | _ => { v with current := none }

/-- The head of the ready queue runs. -/
def dispatch (v : View) (t : Nat) (rest : List Nat) : View :=
  { v.setState t .running with ready := rest, current := some t }

/-- A thread that waits to be reclaimed is deleted. -/
def reclaim (v : View) (t : Nat) (rest : List Nat) : View :=
  { v with
    state := Function.update v.state t none, parent := Function.update v.parent t none
    pending := rest }

end View

/-- The invariant of the queues. A thread that blocked itself stays current until the next
`Schedule`, and may be woken before it: it is in the ready queue then. -/
structure Rota (v : View) : Prop where
  ready_nodup : v.ready.Nodup
  blocked_nodup : v.blocked.Nodup
  ready_state : ∀ t ∈ v.ready, v.state t = some .ready
  blocked_state : ∀ t ∈ v.blocked, v.state t = some .blocked
  current : ∀ t, v.current = some t → t ∉ v.blocked ∧
    (v.state t = some .running ∨ (t ≠ v.idle ∧
      (v.state t = some .blocked ∨ (v.state t = some .ready ∧ t ∈ v.ready))))
  somewhere : ∀ t, v.Live t → t ≠ v.idle → v.current = some t ∨ t ∈ v.ready ∨ t ∈ v.blocked
  idle_state : v.state v.idle = some .new ∨ v.state v.idle = some .running
  idle_parent : v.parent v.idle = none
  terminated : v.terminated = []
  pending_nodup : v.pending.Nodup
  pending_iff : ∀ t, t ∈ v.pending ↔ v.state t = some .terminated
  threads_nodup : ∀ p, (v.threads p).Nodup
  threads_live : ∀ p, ∀ t ∈ v.threads p, v.Live t ∧ v.parent t = some p

/-- Every live thread but the idle one is in one place, in the state that belongs there, and what
was terminated is nowhere. -/
structure Placed (v : View) : Prop where
  once : ∀ t, v.Live t → t ≠ v.idle →
    (if v.current = some t then 1 else 0) + v.ready.count t + v.blocked.count t = 1
  ready : ∀ t ∈ v.ready, v.state t = some .ready
  blocked : ∀ t ∈ v.blocked, v.state t = some .blocked
  terminated : v.terminated = []
  current : ∀ t, v.current = some t → v.Live t
  threads : ∀ p, ∀ t ∈ v.threads p, v.Live t

variable {v : View}

theorem View.live_of_state {t : Nat} {s : ThreadState} (h : v.state t = some s)
    (hs : s ≠ .terminated) : v.Live t := by
  unfold View.Live
  rw [h]
  exact ⟨Option.some_ne_none s, fun e => hs (Option.some.inj e)⟩

/-- Where no thread waits to be reclaimed and the current thread runs, all is placed. -/
theorem Rota.placed (h : Rota v) (hrun : ∀ t, v.current = some t → v.state t = some .running) :
    Placed v where
  once t hl hi := by
    have hready : v.ready.count t = if t ∈ v.ready then 1 else 0 := h.ready_nodup.count
    have hblocked : v.blocked.count t = if t ∈ v.blocked then 1 else 0 := h.blocked_nodup.count
    rw [hready, hblocked]
    by_cases hb : t ∈ v.blocked
    · have hs := h.blocked_state t hb
      have hr : t ∉ v.ready := fun hr => by cases hs.symm.trans (h.ready_state t hr)
      have hc : v.current ≠ some t := fun hc => (h.current t hc).1 hb
      simp only [hb, hr, hc, if_true, if_false]
    · by_cases hr : t ∈ v.ready
      · have hc : v.current ≠ some t := fun hc => by
          cases (hrun t hc).symm.trans (h.ready_state t hr)
        simp only [hb, hr, hc, if_true, if_false]
      · have hc := (h.somewhere t hl hi).resolve_right (not_or.mpr ⟨hr, hb⟩)
        simp only [hb, hr, hc, if_true, if_false]
  ready := h.ready_state
  blocked := h.blocked_state
  terminated := h.terminated
  current t hc := View.live_of_state (hrun t hc) (by decide)
  threads p t ht := (h.threads_live p t ht).1

/-! ## What an update leaves alone -/

/-- Changing the state of a thread from one live state to another leaves the other threads and the
process lists alone. -/
theorem View.live_setState {t u : Nat} {s : ThreadState} (ht : v.Live t) (hs : s ≠ .terminated) :
    (v.setState t s).Live u ↔ v.Live u := by
  unfold View.Live View.setState
  by_cases h : u = t
  · subst h
    simp only [Function.update_self]
    exact iff_of_true ⟨Option.some_ne_none s, fun e => hs (Option.some.inj e)⟩ ht
  · simp only [Function.update_of_ne h]

/-- The idle thread is in no queue. -/
theorem Rota.idle_not_ready (h : Rota v) : v.idle ∉ v.ready := fun hr => by
  have := h.ready_state _ hr
  rcases h.idle_state with hi | hi <;> cases this.symm.trans hi

theorem Rota.idle_not_blocked (h : Rota v) : v.idle ∉ v.blocked := fun hb => by
  have := h.blocked_state _ hb
  rcases h.idle_state with hi | hi <;> cases this.symm.trans hi

/-- A thread of a process is not the idle thread. -/
theorem Rota.thread_ne_idle (h : Rota v) {p t : Nat} (ht : t ∈ v.threads p) : t ≠ v.idle := by
  rintro rfl
  cases h.idle_parent.symm.trans (h.threads_live p _ ht).2

/-- An operation that changes the state of one live thread, to a live state, and the queues. -/
theorem Rota.move (h : Rota v) {t : Nat} {s : ThreadState} {ready blocked : List Nat}
    {current : Option Nat} (ht : v.Live t) (hs : s ≠ .terminated) (hready_nodup : ready.Nodup)
    (hblocked_nodup : blocked.Nodup) (hready : ∀ u ∈ ready, (v.setState t s).state u = some .ready)
    (hblocked : ∀ u ∈ blocked, (v.setState t s).state u = some .blocked)
    (hcurrent : ∀ u, current = some u → u ∉ blocked ∧
      ((v.setState t s).state u = some .running ∨ (u ≠ v.idle ∧
        ((v.setState t s).state u = some .blocked ∨
          ((v.setState t s).state u = some .ready ∧ u ∈ ready)))))
    (hsome : ∀ u, v.Live u → u ≠ v.idle → current = some u ∨ u ∈ ready ∨ u ∈ blocked)
    (hidle : t = v.idle → s = .running) :
    Rota { v.setState t s with ready := ready, blocked := blocked, current := current } where
  ready_nodup := hready_nodup
  blocked_nodup := hblocked_nodup
  ready_state := hready
  blocked_state := hblocked
  current := hcurrent
  somewhere u hu hi := hsome u ((v.live_setState ht hs).mp hu) hi
  idle_state := by
    change Function.update v.state t (some s) v.idle = _ ∨ Function.update v.state t (some s) v.idle = _
    by_cases hi : v.idle = t
    · rw [hi, Function.update_self, hidle hi.symm]
      exact .inr rfl
    · rw [Function.update_of_ne hi]
      exact h.idle_state
  idle_parent := h.idle_parent
  terminated := h.terminated
  pending_nodup := h.pending_nodup
  pending_iff u := by
    change u ∈ v.pending ↔ Function.update v.state t (some s) u = _
    rw [h.pending_iff]
    by_cases hut : u = t
    · subst hut
      rw [Function.update_self]
      exact iff_of_false ht.2 fun e => hs (Option.some.inj e)
    · rw [Function.update_of_ne hut]
  threads_nodup := h.threads_nodup
  threads_live p u hu :=
    ⟨(v.live_setState ht hs).mpr (h.threads_live p u hu).1, (h.threads_live p u hu).2⟩

@[simp] theorem View.setState_self (t : Nat) (s : ThreadState) :
    (v.setState t s).state t = some s := Function.update_self _ _ _

theorem View.setState_of_ne {t u : Nat} (s : ThreadState) (h : u ≠ t) :
    (v.setState t s).state u = v.state u := Function.update_of_ne h _ _

/-- The states of a queue that `t` is not in. -/
theorem View.setState_queue {t : Nat} (s : ThreadState) {x : ThreadState} {queue : List Nat}
    (hq : ∀ u ∈ queue, v.state u = some x) (ht : t ∉ queue) :
    ∀ u ∈ queue, (v.setState t s).state u = some x := fun u hu => by
  have hut : u ≠ t := fun e => ht (e ▸ hu)
  rw [View.setState_of_ne s hut]
  exact hq u hu

/-- The states of a queue that `t` joins. -/
theorem View.setState_append {t : Nat} {s : ThreadState} {queue : List Nat}
    (hq : ∀ u ∈ queue, v.state u = some s) :
    ∀ u ∈ queue ++ [t], (v.setState t s).state u = some s := fun u hu => by
  by_cases hut : u = t
  · subst hut
    exact setState_self u s
  · rw [setState_of_ne s hut]
    exact hq u ((List.mem_append.mp hu).resolve_right fun h => hut (List.mem_singleton.mp h))

theorem nodup_append_singleton {queue : List Nat} {t : Nat} (hq : queue.Nodup) (ht : t ∉ queue) :
    (queue ++ [t]).Nodup :=
  List.nodup_append.mpr ⟨hq, List.nodup_singleton t, fun _ ha _ hb e =>
    ht (List.mem_singleton.mp hb ▸ e ▸ ha)⟩

/-- Only the idle thread exists. -/
theorem Rota.boot (hready : v.ready = []) (hblocked : v.blocked = []) (hterm : v.terminated = [])
    (hpending : v.pending = []) (hcurrent : v.current = none) (hidle : v.state v.idle = some .new)
    (hother : ∀ t, t ≠ v.idle → v.state t = none) (hparent : v.parent v.idle = none)
    (hthreads : ∀ p, v.threads p = []) : Rota v where
  ready_nodup := hready ▸ List.nodup_nil
  blocked_nodup := hblocked ▸ List.nodup_nil
  ready_state t ht := absurd (hready ▸ ht) List.not_mem_nil
  blocked_state t ht := absurd (hblocked ▸ ht) List.not_mem_nil
  current t ht := by cases hcurrent.symm.trans ht
  somewhere t hl hi := absurd (hother t hi) hl.1
  idle_state := .inl hidle
  idle_parent := hparent
  terminated := hterm
  pending_nodup := hpending ▸ List.nodup_nil
  pending_iff t := by
    refine iff_of_false (fun ht => absurd (hpending ▸ ht) List.not_mem_nil) fun hs => ?_
    by_cases ht : t = v.idle
    · cases hidle.symm.trans (ht ▸ hs)
    · cases (hother t ht).symm.trans hs
  threads_nodup p := hthreads p ▸ List.nodup_nil
  threads_live p t ht := absurd (hthreads p ▸ ht) List.not_mem_nil

/-! ## Sleep and wake -/

/-- The current thread, not woken since it slept, is in no queue. -/
theorem Rota.current_not_ready (h : Rota v) {cur : Nat} (hs : v.state cur ≠ some .ready) :
    cur ∉ v.ready := fun hr => hs (h.ready_state cur hr)

theorem Rota.live_current (h : Rota v) {cur : Nat} (hc : v.current = some cur) : v.Live cur := by
  rcases (h.current cur hc).2 with hs | ⟨-, hs | ⟨hs, -⟩⟩ <;>
    exact View.live_of_state hs (by decide)

/-- The current thread goes to sleep. -/
theorem Rota.sleep (h : Rota v) {cur : Nat} (hc : v.current = some cur) (hi : cur ≠ v.idle)
    (hs : v.state cur ≠ some .ready) : Rota (v.setState cur .blocked) := by
  have hr := h.current_not_ready hs
  have hb := (h.current cur hc).1
  refine h.move (h.live_current hc) (by decide) h.ready_nodup h.blocked_nodup
    (View.setState_queue _ h.ready_state hr) (View.setState_queue _ h.blocked_state hb) ?_
    h.somewhere (fun e => absurd e hi)
  intro u hu
  obtain rfl := Option.some.inj (hc.symm.trans hu)
  exact ⟨hb, .inr ⟨hi, .inl (View.setState_self _ _)⟩⟩

theorem Rota.wake (h : Rota v) {t : Nat} (hs : v.state t = some .blocked) : Rota (v.wake t) := by
  have hl := View.live_of_state hs (by decide)
  have hr : t ∉ v.ready := h.current_not_ready (by rw [hs]; decide)
  have hi : t ≠ v.idle := by
    rintro rfl
    rcases h.idle_state with hi | hi <;> cases hs.symm.trans hi
  refine h.move hl (by decide) (nodup_append_singleton h.ready_nodup hr) (h.blocked_nodup.erase t)
    (View.setState_append h.ready_state) ?_ ?_ ?_ (fun e => absurd e hi)
  · intro u hu
    obtain ⟨hut, hu⟩ := (h.blocked_nodup.mem_erase_iff).mp hu
    rw [View.setState_of_ne _ hut]
    exact h.blocked_state u hu
  · intro u hu
    obtain ⟨hb, hc⟩ := h.current u hu
    refine ⟨fun hb' => hb (List.mem_of_mem_erase hb'), ?_⟩
    by_cases hut : u = t
    · subst hut
      exact .inr ⟨hi, .inr ⟨View.setState_self _ _, by simp⟩⟩
    · rw [View.setState_of_ne _ hut]
      exact hc.imp_right fun ⟨h1, h2⟩ => ⟨h1, h2.imp_right fun ⟨h3, h4⟩ =>
        ⟨h3, List.mem_append_left _ h4⟩⟩
  · intro u hu hne
    by_cases hut : u = t
    · subst hut
      exact .inr (.inl (by simp))
    · rcases h.somewhere u hu hne with hc | hr | hb
      · exact .inl hc
      · exact .inr (.inl (List.mem_append_left _ hr))
      · exact .inr (.inr ((h.blocked_nodup.mem_erase_iff).mpr ⟨hut, hb⟩))

/-! ## The switch -/

/-- The thread that was running takes its place; no thread is current then. -/
theorem Rota.leave (h : Rota v) {cur : Nat} (hc : v.current = some cur) : Rota (v.leave cur) := by
  obtain ⟨hb, hs⟩ := h.current cur hc
  have hl := h.live_current hc
  have hother : ∀ u, v.Live u → u ≠ v.idle → u ≠ cur → u ∈ v.ready ∨ u ∈ v.blocked :=
    fun u hu hi hne => (h.somewhere u hu hi).resolve_left fun e =>
      hne (Option.some.inj (e.symm.trans hc))
  unfold View.leave
  rcases hs with hs | ⟨hi, hs | ⟨hs, hr⟩⟩
  · simp only [hs]
    split
    · rename_i hi
      refine ⟨h.ready_nodup, h.blocked_nodup, h.ready_state, h.blocked_state, ?_, ?_, h.idle_state,
        h.idle_parent, h.terminated, h.pending_nodup, h.pending_iff, h.threads_nodup,
        h.threads_live⟩
      · rintro u ⟨⟩
      · exact fun u hu hne => .inr (hother u hu hne (hi ▸ hne))
    · rename_i hi
      have hr : cur ∉ v.ready := h.current_not_ready (by rw [hs]; decide)
      refine h.move hl (by decide) (nodup_append_singleton h.ready_nodup hr) h.blocked_nodup
        (View.setState_append h.ready_state) (View.setState_queue _ h.blocked_state hb) ?_ ?_
        (fun e => absurd e hi)
      · rintro u ⟨⟩
      · intro u hu hne
        by_cases huc : u = cur
        · subst huc
          exact .inr (.inl (by simp))
        · exact .inr ((hother u hu hne huc).imp_left (List.mem_append_left _))
  · simp only [hs]
    refine ⟨h.ready_nodup, nodup_append_singleton h.blocked_nodup hb, h.ready_state, ?_, ?_, ?_,
      h.idle_state, h.idle_parent, h.terminated, h.pending_nodup, h.pending_iff, h.threads_nodup,
      h.threads_live⟩
    · intro u hu
      rcases List.mem_append.mp hu with hu | hu
      · exact h.blocked_state u hu
      · rw [List.mem_singleton.mp hu]
        exact hs
    · rintro u ⟨⟩
    · intro u hu hne
      by_cases huc : u = cur
      · subst huc
        exact .inr (.inr (List.mem_append_right _ (List.mem_singleton_self u)))
      · exact .inr ((hother u hu hne huc).imp_right (List.mem_append_left _))
  · simp only [hs]
    refine ⟨h.ready_nodup, h.blocked_nodup, h.ready_state, h.blocked_state, ?_, ?_, h.idle_state,
      h.idle_parent, h.terminated, h.pending_nodup, h.pending_iff, h.threads_nodup,
      h.threads_live⟩
    · rintro u ⟨⟩
    · intro u hu hne
      by_cases huc : u = cur
      · exact .inr (.inl (huc ▸ hr))
      · exact .inr (hother u hu hne huc)

/-- The blocked queue in another order. -/
theorem Rota.perm (h : Rota v) {blocked : List Nat} (hp : blocked.Perm v.blocked) :
    Rota { v with blocked := blocked } :=
  ⟨h.ready_nodup, hp.nodup_iff.mpr h.blocked_nodup, h.ready_state,
    fun t ht => h.blocked_state t (hp.mem_iff.mp ht),
    fun t ht => ⟨fun hb => (h.current t ht).1 (hp.mem_iff.mp hb), (h.current t ht).2⟩,
    fun t ht hi => (h.somewhere t ht hi).imp_right (Or.imp_right hp.mem_iff.mpr), h.idle_state,
    h.idle_parent, h.terminated, h.pending_nodup, h.pending_iff, h.threads_nodup, h.threads_live⟩

/-- The head of the ready queue runs. -/
theorem Rota.dispatch (h : Rota v) {t : Nat} {rest : List Nat} (hn : v.current = none)
    (hq : v.ready = t :: rest) : Rota (v.dispatch t rest) := by
  have hs := h.ready_state t (hq ▸ List.mem_cons_self)
  have hnodup := h.ready_nodup
  rw [hq, List.nodup_cons] at hnodup
  have hb : t ∉ v.blocked := fun hb => by cases hs.symm.trans (h.blocked_state t hb)
  refine h.move (View.live_of_state hs (by decide)) (by decide) hnodup.2 h.blocked_nodup
    (View.setState_queue _ (fun u hu => h.ready_state u (hq ▸ List.mem_cons_of_mem t hu)) hnodup.1)
    (View.setState_queue _ h.blocked_state hb) ?_ ?_ (fun _ => rfl)
  · rintro u ⟨⟩
    exact ⟨hb, .inl (View.setState_self _ _)⟩
  · intro u hu hi
    rcases h.somewhere u hu hi with hc | hr | hb
    · rw [hn] at hc; cases hc
    · rw [hq] at hr
      exact (List.mem_cons.mp hr).elim (fun e => .inl (congrArg some e.symm)) fun hr => .inr (.inl hr)
    · exact .inr (.inr hb)

/-- No thread is ready: the idle thread runs. -/
theorem Rota.idle (h : Rota v) (hn : v.current = none) :
    Rota { v.setState v.idle .running with current := some v.idle } := by
  have hl : v.Live v.idle := by
    rcases h.idle_state with hi | hi <;> exact View.live_of_state hi (by decide)
  refine h.move hl (by decide) h.ready_nodup h.blocked_nodup
    (View.setState_queue _ h.ready_state h.idle_not_ready)
    (View.setState_queue _ h.blocked_state h.idle_not_blocked) ?_ ?_ (fun _ => rfl)
  · rintro u ⟨⟩
    exact ⟨h.idle_not_blocked, .inl (View.setState_self _ _)⟩
  · intro u hu hi
    refine .inr ((h.somewhere u hu hi).resolve_left fun hc => ?_)
    rw [hn] at hc
    cases hc

/-- A terminated thread is deleted. -/
theorem Rota.reclaim (h : Rota v) {t : Nat} {rest : List Nat} (hq : v.pending = t :: rest) :
    Rota (v.reclaim t rest) := by
  have ht : v.state t = some .terminated := (h.pending_iff t).mp (hq ▸ List.mem_cons_self)
  have hnodup := h.pending_nodup
  rw [hq, List.nodup_cons] at hnodup
  have hne : ∀ {u : Nat} {s : ThreadState}, v.state u = some s → s ≠ .terminated → u ≠ t :=
    fun hu hs e => hs (Option.some.inj (hu.symm.trans (e ▸ ht)))
  have hkeep : ∀ {u : Nat} {s : ThreadState}, v.state u = some s → s ≠ .terminated →
      (v.reclaim t rest).state u = some s := fun hu hs =>
    (Function.update_of_ne (hne hu hs) _ _).trans hu
  have hlive : ∀ u, (v.reclaim t rest).Live u ↔ v.Live u := fun u => by
    unfold View.Live View.reclaim
    by_cases hut : u = t
    · subst hut
      simp [ht]
    · simp only [Function.update_of_ne hut]
  have hidle : v.idle ≠ t := by
    rcases h.idle_state with hi | hi <;> exact hne hi (by decide)
  refine ⟨h.ready_nodup, h.blocked_nodup, fun u hu => hkeep (h.ready_state u hu) (by decide),
    fun u hu => hkeep (h.blocked_state u hu) (by decide), ?_,
    fun u hu hi => h.somewhere u ((hlive u).mp hu) hi, ?_, ?_, h.terminated, hnodup.2, ?_,
    h.threads_nodup, ?_⟩
  · intro u hu
    refine ⟨(h.current u hu).1, ?_⟩
    rcases (h.current u hu).2 with hs | ⟨hi, hs | ⟨hs, hr⟩⟩
    · exact .inl (hkeep hs (by decide))
    · exact .inr ⟨hi, .inl (hkeep hs (by decide))⟩
    · exact .inr ⟨hi, .inr ⟨hkeep hs (by decide), hr⟩⟩
  · exact h.idle_state.imp (hkeep · (by decide)) (hkeep · (by decide))
  · exact (Function.update_of_ne hidle _ _).trans h.idle_parent
  · intro u
    change u ∈ rest ↔ Function.update v.state t none u = _
    by_cases hut : u = t
    · subst hut
      rw [Function.update_self]
      exact iff_of_false hnodup.1 (by simp)
    · rw [Function.update_of_ne hut, ← h.pending_iff, hq, List.mem_cons]
      exact (or_iff_right hut).symm
  · intro p u hu
    obtain ⟨hl, hp⟩ := h.threads_live p u hu
    refine ⟨(hlive u).mpr hl, (Function.update_of_ne ?_ _ _).trans hp⟩
    rintro rfl
    exact hl.2 ht

/-! ## Creation and termination -/

theorem Rota.spawn (h : Rota v) {p t : Nat} (hfree : v.state t = none) : Rota (v.spawn p t) := by
  have hne : ∀ {u : Nat} {s : ThreadState}, v.state u = some s → u ≠ t := fun hu e => by
    rw [e, hfree] at hu
    cases hu
  have hkeep : ∀ {u : Nat} {s : ThreadState}, v.state u = some s →
      (v.spawn p t).state u = some s := fun hu => (Function.update_of_ne (hne hu) _ _).trans hu
  have hself : (v.spawn p t).state t = some .ready := Function.update_self _ _ _
  have hlive : ∀ {u : Nat}, u ≠ t → ((v.spawn p t).Live u ↔ v.Live u) := fun hu => by
    unfold View.Live View.spawn
    simp only [Function.update_of_ne hu]
  have hdead : ¬ v.Live t := fun hl => hl.1 hfree
  have hidle : v.idle ≠ t := by
    rcases h.idle_state with hi | hi <;> exact hne hi
  have hnew : ∀ q, t ∉ v.threads q := fun q hq => hdead (h.threads_live q t hq).1
  refine ⟨nodup_append_singleton h.ready_nodup fun hr => hne (h.ready_state t hr) rfl,
    h.blocked_nodup, ?_, fun u hu => hkeep (h.blocked_state u hu), ?_, ?_,
    h.idle_state.imp hkeep hkeep, (Function.update_of_ne hidle _ _).trans h.idle_parent,
    h.terminated, h.pending_nodup, ?_, ?_, ?_⟩
  · exact View.setState_append h.ready_state
  · intro u hu
    refine ⟨(h.current u hu).1, ?_⟩
    rcases (h.current u hu).2 with hs | ⟨hi, hs | ⟨hs, hr⟩⟩
    · exact .inl (hkeep hs)
    · exact .inr ⟨hi, .inl (hkeep hs)⟩
    · exact .inr ⟨hi, .inr ⟨hkeep hs, List.mem_append_left _ hr⟩⟩
  · intro u hu hi
    by_cases hut : u = t
    · subst hut
      exact .inr (.inl (List.mem_append_right _ (List.mem_singleton_self u)))
    · exact (h.somewhere u ((hlive hut).mp hu) hi).imp_right (Or.imp_left (List.mem_append_left _))
  · intro u
    change u ∈ v.pending ↔ Function.update v.state t _ u = _
    rw [h.pending_iff]
    by_cases hut : u = t
    · subst hut
      rw [Function.update_self, hfree]
      exact iff_of_false (by simp) (by simp)
    · rw [Function.update_of_ne hut]
  · intro q
    change (Function.update v.threads p _ q).Nodup
    by_cases hq : q = p
    · subst hq
      rw [Function.update_self]
      exact nodup_append_singleton (h.threads_nodup q) (hnew q)
    · rw [Function.update_of_ne hq]
      exact h.threads_nodup q
  · intro q u hu
    have hold : u ∈ v.threads q → (v.spawn p t).Live u ∧ (v.spawn p t).parent u = some q := fun hm => by
      have hut : u ≠ t := fun e => hnew q (e ▸ hm)
      obtain ⟨hl, hp⟩ := h.threads_live q u hm
      exact ⟨(hlive hut).mpr hl, (Function.update_of_ne hut _ _).trans hp⟩
    change u ∈ Function.update v.threads p _ q at hu
    by_cases hq : q = p
    · subst hq
      rw [Function.update_self] at hu
      rcases List.mem_append.mp hu with hu | hu
      · exact hold hu
      · obtain rfl := List.mem_singleton.mp hu
        exact ⟨View.live_of_state hself (by decide), Function.update_self _ _ _⟩
    · rw [Function.update_of_ne hq] at hu
      exact hold hu

/-- A process list loses threads, or is in another order. -/
theorem Rota.setThreads (h : Rota v) {p : Nat} {threads : List Nat} (hn : threads.Nodup)
    (hs : ∀ t ∈ threads, t ∈ v.threads p) : Rota (v.setThreads p threads) := by
  refine ⟨h.ready_nodup, h.blocked_nodup, h.ready_state, h.blocked_state, h.current, h.somewhere,
    h.idle_state, h.idle_parent, h.terminated, h.pending_nodup, h.pending_iff, ?_, ?_⟩
  · intro q
    change (Function.update v.threads p threads q).Nodup
    by_cases hq : q = p
    · subst hq
      rwa [Function.update_self]
    · rw [Function.update_of_ne hq]
      exact h.threads_nodup q
  · intro q u hu
    change u ∈ Function.update v.threads p threads q at hu
    by_cases hq : q = p
    · subst hq
      rw [Function.update_self] at hu
      exact h.threads_live q u (hs u hu)
    · rw [Function.update_of_ne hq] at hu
      exact h.threads_live q u hu

/-- `leaveParent` takes `t` out of every process list. -/
theorem Rota.mem_leaveParent (h : Rota v) {t q u : Nat} (hu : u ∈ v.leaveParent t q) :
    u ≠ t ∧ u ∈ v.threads q := by
  unfold View.leaveParent at hu
  cases hp : v.parent t with
  | none =>
    rw [hp] at hu
    refine ⟨?_, hu⟩
    rintro rfl
    cases hp.symm.trans (h.threads_live q u hu).2
  | some p =>
    rw [hp] at hu
    dsimp only at hu
    by_cases hq : q = p
    · subst hq
      rw [Function.update_self] at hu
      exact ((h.threads_nodup q).mem_erase_iff).mp hu
    · rw [Function.update_of_ne hq] at hu
      refine ⟨?_, hu⟩
      rintro rfl
      exact hq (Option.some.inj ((h.threads_live q u hu).2.symm.trans hp))

theorem Rota.leaveParent_nodup (h : Rota v) (t q : Nat) : (v.leaveParent t q).Nodup := by
  unfold View.leaveParent
  cases v.parent t with
  | none => exact h.threads_nodup q
  | some p =>
    dsimp only
    by_cases hq : q = p
    · subst hq
      rw [Function.update_self]
      exact (h.threads_nodup q).erase t
    · rw [Function.update_of_ne hq]
      exact h.threads_nodup q

theorem Rota.terminate (h : Rota v) {t : Nat} (hl : v.Live t) (hi : t ≠ v.idle) :
    Rota (v.terminate t) := by
  have hkeep : ∀ {u : Nat}, u ≠ t → (v.terminate t).state u = v.state u := fun hu =>
    Function.update_of_ne hu _ _
  have hdead : ¬ (v.terminate t).Live t := fun ⟨h1, h2⟩ => by
    unfold View.terminate at h1 h2
    simp only [Function.update_self] at h1 h2
    split at h1
    · rename_i hc
      exact h2 (if_pos hc)
    · exact h1 rfl
  have hlive : ∀ {u : Nat}, u ≠ t → ((v.terminate t).Live u ↔ v.Live u) := fun hu => by
    unfold View.Live
    rw [hkeep hu]
  refine ⟨h.ready_nodup.erase t, h.blocked_nodup.erase t, ?_, ?_, ?_, ?_, ?_,
    (Function.update_of_ne hi.symm _ _).trans h.idle_parent, h.terminated, ?_, ?_,
    h.leaveParent_nodup t, ?_⟩
  · intro u hu
    obtain ⟨hut, hu⟩ := h.ready_nodup.mem_erase_iff.mp hu
    exact (hkeep hut).trans (h.ready_state u hu)
  · intro u hu
    obtain ⟨hut, hu⟩ := h.blocked_nodup.mem_erase_iff.mp hu
    exact (hkeep hut).trans (h.blocked_state u hu)
  · intro u hu
    change (if v.current = some t then none else v.current) = some u at hu
    split at hu
    · cases hu
    · rename_i hc
      have hut : u ≠ t := fun e => hc (e ▸ hu)
      obtain ⟨hb, hs⟩ := h.current u hu
      refine ⟨fun hb' => hb (List.mem_of_mem_erase hb'), ?_⟩
      rw [hkeep hut]
      exact hs.imp_right fun ⟨h1, h2⟩ => ⟨h1, h2.imp_right fun ⟨h3, h4⟩ =>
        ⟨h3, h.ready_nodup.mem_erase_iff.mpr ⟨hut, h4⟩⟩⟩
  · intro u hu hne
    have hut : u ≠ t := fun e => hdead (e ▸ hu)
    rcases h.somewhere u ((hlive hut).mp hu) hne with hc | hr | hb
    · refine .inl ((if_neg fun e => ?_).trans hc)
      exact hut (Option.some.inj (hc.symm.trans e))
    · exact .inr (.inl (h.ready_nodup.mem_erase_iff.mpr ⟨hut, hr⟩))
    · exact .inr (.inr (h.blocked_nodup.mem_erase_iff.mpr ⟨hut, hb⟩))
  · change (v.terminate t).state v.idle = _ ∨ (v.terminate t).state v.idle = _
    rw [hkeep hi.symm]
    exact h.idle_state
  · change (if v.current = some t then v.pending ++ [t] else v.pending).Nodup
    split
    · exact nodup_append_singleton h.pending_nodup fun hm => hl.2 ((h.pending_iff t).mp hm)
    · exact h.pending_nodup
  · intro u
    change u ∈ (if v.current = some t then v.pending ++ [t] else v.pending) ↔ _
    by_cases hut : u = t
    · subst hut
      have hm : u ∉ v.pending := fun hm => hl.2 ((h.pending_iff u).mp hm)
      change _ ↔ Function.update v.state u _ u = _
      rw [Function.update_self]
      split
      · exact iff_of_true (List.mem_append_right _ (List.mem_singleton_self u)) rfl
      · exact iff_of_false hm (by simp)
    · rw [hkeep hut, ← h.pending_iff]
      split
      · rw [List.mem_append, List.mem_singleton]
        exact or_iff_left hut
      · exact Iff.rfl
  · intro q u hu
    obtain ⟨hut, hu⟩ := h.mem_leaveParent hu
    obtain ⟨hl', hp⟩ := h.threads_live q u hu
    exact ⟨(hlive hut).mpr hl', (Function.update_of_ne hut _ _).trans hp⟩

end Sched
end Hashx86
