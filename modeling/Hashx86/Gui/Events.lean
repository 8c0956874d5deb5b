import Hashx86.Lib.Run
import Mathlib.Algebra.Group.Nat.Defs
import Mathlib.Data.List.Nodup
import Mathlib.Logic.Function.Basic

/-!
# Events for processes (`KernelWidgetHost`, `TerminalView`, `HguiHandler::HandleEvent`)

Widgets put events on the queue of a process's handler; the event thread of the process takes them
with `HguiAPI(EVENT, GET)`, which encodes the widget and the kind of the event in one word. An
event is named by the number of the `new` that made it. The desktop keeps, for each process, the
events `posted` for it and those `taken` by it since its handler was deleted last.

* `inv_step`: the events of a process are those taken and, newest first, those in the queue.
* `delivered_iff`: along a run, the events are taken in posting order exactly while at most one
  waits at each `GET`.
* `decode_encode_iff`: the word of an event is decoded to the event exactly for ids below `0x8000`.
-/

namespace Hashx86
namespace Gui

open Lib

inductive EventType where
  | onClick
  | onKeypress
  | onWindowClose
  deriving DecidableEq, Repr

/-- The value of an `EVENT_TYPE`. -/
def EventType.toBits : EventType → BitVec 32
  | .onClick => 0
  | .onKeypress => 1
  | .onWindowClose => 2

structure Event where
  widgetID : BitVec 32
  eventType : EventType
  param1 : BitVec 32
  param2 : BitVec 32
  deriving DecidableEq, Repr

structure EventHandler where
  id : Nat
  pid : Nat
  deriving DecidableEq, Repr

/-- The handlers of the desktop. `eventQueue` has the queue of each handler, `handlers` is the
number of handlers made, `events` has the events made, and `halted` is set by `HALT`. -/
structure EventState where
  hguiEventHandlers : List EventHandler
  handlers : Nat
  eventQueue : Nat → List Nat
  events : List Event
  posted : Nat → List Nat
  taken : Nat → List Nat
  halted : Bool

def EventState.init : EventState where
  hguiEventHandlers := []
  handlers := 0
  eventQueue := fun _ => []
  events := []
  posted := fun _ => []
  taken := fun _ => []
  halted := false

/-- `Desktop::getHandler`: the last handler of the list for the process. -/
def getHandler (d : EventState) (pid : Nat) : Option EventHandler :=
  d.hguiEventHandlers.foldl (fun found e => if e.pid = pid then some e else found) none

/-- `Desktop::createNewHandler` -/
def createNewHandler (d : EventState) (pid : Nat) (mem : Bool) : EventState :=
  if !mem then { d with halted := true }
  else
    { d with
      hguiEventHandlers := ⟨d.handlers, pid⟩ :: d.hguiEventHandlers
      handlers := d.handlers + 1
      eventQueue := Function.update d.eventQueue d.handlers [] }

/-- `Desktop::deleteEventHandler` -/
def deleteEventHandler (d : EventState) (pid : Nat) : EventState :=
  match getHandler d pid with
  | none => d
  | some found =>
    { d with
      hguiEventHandlers := d.hguiEventHandlers.eraseP fun e => e.id == found.id
      posted := Function.update d.posted pid []
      taken := Function.update d.taken pid [] }

/-- `handler->eventQueue.Add(event)`, which puts the event at the head of the list. -/
def addEvent (d : EventState) (handler : EventHandler) (pid : Nat) (event : Event) : EventState :=
  { d with
    events := d.events ++ [event]
    eventQueue := Function.update d.eventQueue handler.id
      (d.events.length :: d.eventQueue handler.id)
    posted := Function.update d.posted pid (d.posted pid ++ [d.events.length]) }

/-- `KernelWidgetHost::PostEvent`: whether the event was accepted, and the state after. -/
def postEvent (d : EventState) (pid : Nat) (event : Event) (mem : Bool) : Bool × EventState :=
  if pid = 0 then (false, d)
  else
    match getHandler d pid with
    | none => (false, d)
    | some handler => if !mem then (false, d) else (true, addEvent d handler pid event)

/-- The post of a click or a drag of a `TerminalView`. -/
def terminalPost (d : EventState) (pid : Nat) (widgetID : BitVec 32) (mem : Bool) : EventState :=
  if !mem then { d with halted := true }
  else
    match getHandler d pid with
    | none => d
    | some handler => addEvent d handler pid ⟨widgetID, .onClick, 0, 0⟩

/-- The word for an event. -/
def encode (event : Event) : BitVec 32 := event.widgetID <<< 16 ||| event.eventType.toBits

/-- `HguiHandler::HandleEvent` for `GET`: the state after, and the word returned. -/
def handleEvent (d : EventState) (pid : Nat) : EventState × BitVec 32 :=
  match getHandler d pid with
  | none => (d, -1)
  | some handler =>
    match d.eventQueue handler.id with
    | [] => (d, -1)
    | e :: rest =>
      ({ d with
          eventQueue := Function.update d.eventQueue handler.id rest
          taken := Function.update d.taken pid (d.taken pid ++ [e]) },
        (d.events[e]?).elim (-1) encode)

inductive EventOp where
  | createNewHandler (pid : Nat) (mem : Bool)
  | deleteEventHandler (pid : Nat)
  | postEvent (pid : Nat) (event : Event) (mem : Bool)
  | terminalPost (pid : Nat) (widgetID : BitVec 32) (mem : Bool)
  | get (pid : Nat)

def EventOp.step (d : EventState) (op : EventOp) : EventState :=
  if d.halted then d
  else
    match op with
    | .createNewHandler pid mem => Gui.createNewHandler d pid mem
    | .deleteEventHandler pid => Gui.deleteEventHandler d pid
    | .postEvent pid event mem => (Gui.postEvent d pid event mem).2
    | .terminalPost pid widgetID mem => Gui.terminalPost d pid widgetID mem
    | .get pid => (handleEvent d pid).1

/-- The queue of the handler of a process. -/
def pending (d : EventState) (pid : Nat) : List Nat :=
  (getHandler d pid).elim [] fun h => d.eventQueue h.id

/-- Each event posted for the process is taken once, in posting order, or still waits. -/
def Delivered (d : EventState) (pid : Nat) : Prop :=
  (d.posted pid).Nodup ∧ ∃ rest, d.posted pid = d.taken pid ++ rest ∧ rest.Perm (pending d pid)

/-- At a `GET` at most one event waits. -/
def OneWaits (d : EventState) : EventOp → Prop
  | .get pid => d.halted = false → (pending d pid).length ≤ 1
  | _ => True

/-! ## Handlers -/

/-- The last handler of a list for a process. -/
def lastFor (pid : Nat) (found : Option EventHandler) (hs : List EventHandler) :
    Option EventHandler :=
  hs.foldl (fun found e => if e.pid = pid then some e else found) found

theorem lastFor_cons (pid : Nat) (found : Option EventHandler) (e : EventHandler)
    (hs : List EventHandler) :
    lastFor pid found (e :: hs) = lastFor pid (if e.pid = pid then some e else found) hs := rfl

/-- A handler found in the list is found whatever came before the list. -/
theorem lastFor_or (pid : Nat) (found : Option EventHandler) (hs : List EventHandler) :
    lastFor pid found hs = (lastFor pid none hs).or found := by
  induction hs generalizing found with
  | nil => cases found <;> rfl
  | cons e hs ih =>
    rw [lastFor_cons, lastFor_cons, ih, ih (if e.pid = pid then some e else none)]
    by_cases he : e.pid = pid <;> simp [he]

theorem lastFor_mem {pid : Nat} {h : EventHandler} {hs : List EventHandler}
    (hl : lastFor pid none hs = some h) : h ∈ hs ∧ h.pid = pid := by
  induction hs with
  | nil => exact absurd hl (by simp [lastFor])
  | cons e hs ih =>
    rw [lastFor_cons, lastFor_or, Option.or_eq_some_iff] at hl
    rcases hl with hl | ⟨-, hl⟩
    · exact ⟨List.mem_cons_of_mem e (ih hl).1, (ih hl).2⟩
    · by_cases he : e.pid = pid
      · rw [if_pos he, Option.some.injEq] at hl
        exact hl ▸ ⟨List.mem_cons_self, he⟩
      · rw [if_neg he] at hl
        exact absurd hl (by simp)

/-- A handler of another process can leave the list. -/
theorem lastFor_eraseP {pid : Nat} {p : EventHandler → Bool} (found : Option EventHandler)
    {hs : List EventHandler} (hp : ∀ e ∈ hs, p e = true → e.pid ≠ pid) :
    lastFor pid found (hs.eraseP p) = lastFor pid found hs := by
  induction hs generalizing found with
  | nil => rfl
  | cons e hs ih =>
    by_cases he : p e = true
    · rw [List.eraseP_cons_of_pos he, lastFor_cons, if_neg (hp e List.mem_cons_self he)]
    · rw [List.eraseP_cons_of_neg he, lastFor_cons, lastFor_cons,
        ih _ fun x hx => hp x (List.mem_cons_of_mem e hx)]

/-- A removed handler has no other of its number left in the list. -/
theorem id_ne_of_mem_eraseP {i : Nat} {hs : List EventHandler} (hn : (hs.map (·.id)).Nodup)
    {e : EventHandler} (he : e ∈ hs.eraseP fun e => e.id == i) : e.id ≠ i := by
  induction hs with
  | nil => exact absurd he (by simp)
  | cons x hs ih =>
    obtain ⟨hx, hn⟩ := List.nodup_cons.mp hn
    by_cases hi : x.id = i
    · rw [List.eraseP_cons_of_pos (by simpa using hi)] at he
      rintro rfl
      exact hx (List.mem_map.mpr ⟨e, he, hi.symm⟩)
    · rw [List.eraseP_cons_of_neg (by simpa using hi)] at he
      rcases List.mem_cons.mp he with rfl | he
      · exact hi
      · exact ih hn he

theorem getHandler_eq (d : EventState) (pid : Nat) :
    getHandler d pid = lastFor pid none d.hguiEventHandlers := rfl

theorem getHandler_mem {d : EventState} {pid : Nat} {h : EventHandler}
    (hg : getHandler d pid = some h) : h ∈ d.hguiEventHandlers ∧ h.pid = pid := lastFor_mem hg

/-! ## The log of a process -/

structure Inv (d : EventState) : Prop where
  ids : (d.hguiEventHandlers.map (·.id)).Nodup
  fresh : ∀ e ∈ d.hguiEventHandlers, e.id < d.handlers
  /-- A handler that is not found gets no events. -/
  shadow : ∀ e ∈ d.hguiEventHandlers, getHandler d e.pid ≠ some e → d.eventQueue e.id = []
  log : ∀ pid, d.posted pid = d.taken pid ++ (pending d pid).reverse
  nodup : ∀ pid, (d.posted pid).Nodup
  bound : ∀ pid, ∀ e ∈ d.posted pid, e < d.events.length

theorem Inv.init : Inv .init where
  ids := .nil
  fresh := nofun
  shadow := nofun
  log := fun _ => rfl
  nodup := fun _ => .nil
  bound := nofun

theorem Inv.eq_of_id {d : EventState} (h : Inv d) {e f : EventHandler}
    (he : e ∈ d.hguiEventHandlers) (hf : f ∈ d.hguiEventHandlers) (hid : e.id = f.id) : e = f :=
  List.inj_on_of_nodup_map h.ids he hf hid

theorem pending_of_some {d : EventState} {pid : Nat} {e : EventHandler}
    (hg : getHandler d pid = some e) : pending d pid = d.eventQueue e.id := by
  rw [pending, hg, Option.elim_some]

/-- A change of the queue of one handler is seen by its process only. -/
theorem Inv.setQueue {d d' : EventState} (h : Inv d) {pid : Nat} {e : EventHandler}
    (hg : getHandler d pid = some e) {q ps ts : List Nat}
    (hh : d'.hguiEventHandlers = d.hguiEventHandlers) (hn : d'.handlers = d.handlers)
    (hq : d'.eventQueue = Function.update d.eventQueue e.id q)
    (hp : d'.posted = Function.update d.posted pid ps)
    (ht : d'.taken = Function.update d.taken pid ts)
    (hlog : ps = ts ++ q.reverse) (hnd : ps.Nodup) (hb : ∀ x ∈ ps, x < d'.events.length)
    (hl : d.events.length ≤ d'.events.length) : Inv d' := by
  obtain ⟨he, hpid⟩ := getHandler_mem hg
  have hget : ∀ i, getHandler d' i = getHandler d i := fun i => by
    rw [getHandler_eq, getHandler_eq, hh]
  refine ⟨by rw [hh]; exact h.ids, by rw [hh, hn]; exact h.fresh, ?_, fun i => ?_, fun i => ?_,
    fun i x hx => ?_⟩
  · rw [hh]
    intro f hf hs
    rw [hget] at hs
    have hne : f.id ≠ e.id := fun hid => hs (by
      rw [h.eq_of_id hf he hid, hpid]
      exact hg)
    rw [hq, Function.update_of_ne hne]
    exact h.shadow f hf hs
  · by_cases hi : i = pid
    · subst hi
      rw [hp, ht, Function.update_self, Function.update_self,
        pending_of_some ((hget i).trans hg), hq, Function.update_self]
      exact hlog
    · rw [hp, ht, Function.update_of_ne hi, Function.update_of_ne hi, h.log i]
      congr 2
      unfold pending
      rw [hget]
      cases hf : getHandler d i with
      | none => rfl
      | some f =>
        obtain ⟨hm, hfp⟩ := getHandler_mem hf
        have hne : f.id ≠ e.id := fun hid =>
          hi (hfp.symm.trans ((congrArg (·.pid) (h.eq_of_id hm he hid)).trans hpid))
        rw [Option.elim_some, Option.elim_some, hq, Function.update_of_ne hne]
  · by_cases hi : i = pid
    · rw [hp, hi, Function.update_self]
      exact hnd
    · rw [hp, Function.update_of_ne hi]
      exact h.nodup i
  · by_cases hi : i = pid
    · rw [hp, hi, Function.update_self] at hx
      exact hb x hx
    · rw [hp, Function.update_of_ne hi] at hx
      exact Nat.lt_of_lt_of_le (h.bound i x hx) hl

theorem Inv.addEvent {d : EventState} (h : Inv d) {pid : Nat} {e : EventHandler}
    (hg : getHandler d pid = some e) (event : Event) : Inv (Gui.addEvent d e pid event) := by
  have hnew : d.events.length ∉ d.posted pid := fun hm => Nat.lt_irrefl _ (h.bound pid _ hm)
  refine h.setQueue hg rfl rfl rfl rfl (Function.update_eq_self pid d.taken).symm ?_ ?_ ?_ ?_
  · rw [h.log pid, pending_of_some hg, List.reverse_cons, List.append_assoc]
  · exact List.nodup_append.mpr ⟨h.nodup pid, List.nodup_singleton _,
      fun x hx y hy hxy => hnew (List.mem_singleton.mp hy ▸ hxy ▸ hx)⟩
  · intro x hx
    simp only [Gui.addEvent, List.length_append, List.length_singleton]
    rcases List.mem_append.mp hx with hx | hx
    · exact Nat.lt_succ_of_lt (h.bound pid x hx)
    · rw [List.mem_singleton.mp hx]
      exact Nat.lt_succ_self _
  · simp [Gui.addEvent]

theorem Inv.createNewHandler {d : EventState} (h : Inv d) (pid : Nat) :
    Inv (Gui.createNewHandler d pid true) := by
  have hold : ∀ e ∈ d.hguiEventHandlers, e.id ≠ d.handlers := fun e he =>
    Nat.ne_of_lt (h.fresh e he)
  have hget : ∀ i, getHandler (Gui.createNewHandler d pid true) i =
      (getHandler d i).or (if pid = i then some ⟨d.handlers, pid⟩ else none) :=
    fun i => lastFor_or i _ d.hguiEventHandlers
  have hq : ∀ e ∈ d.hguiEventHandlers,
      (Gui.createNewHandler d pid true).eventQueue e.id = d.eventQueue e.id :=
    fun e he => Function.update_of_ne (hold e he) _ _
  refine ⟨List.nodup_cons.mpr ⟨?_, h.ids⟩, ?_, ?_, fun i => ?_, h.nodup, h.bound⟩
  · intro hm
    obtain ⟨e, he, hid⟩ := List.mem_map.mp hm
    exact hold e he hid
  · intro e he
    rcases List.mem_cons.mp he with rfl | he
    · exact Nat.lt_succ_self _
    · exact Nat.lt_succ_of_lt (h.fresh e he)
  · intro e he hs
    rcases List.mem_cons.mp he with rfl | he
    · exact Function.update_self _ _ _
    · rw [hq e he]
      refine h.shadow e he fun hg => hs ?_
      rw [hget, hg, Option.some_or]
  · refine (h.log i).trans (congrArg (d.taken i ++ List.reverse ·) ?_)
    unfold pending
    rw [hget]
    cases hg : getHandler d i with
    | none =>
      by_cases hi : pid = i
      · simp [hi, Gui.createNewHandler]
      · simp [hi]
    | some e =>
      rw [Option.some_or, Option.elim_some, Option.elim_some, hq e (getHandler_mem hg).1]

theorem deleteEventHandler_some {d : EventState} {pid : Nat} {f : EventHandler}
    (hg : getHandler d pid = some f) :
    deleteEventHandler d pid =
      { d with
        hguiEventHandlers := d.hguiEventHandlers.eraseP fun e => e.id == f.id
        posted := Function.update d.posted pid []
        taken := Function.update d.taken pid [] } := by
  rw [deleteEventHandler, hg]

theorem Inv.deleteEventHandler {d : EventState} (h : Inv d) (pid : Nat) :
    Inv (Gui.deleteEventHandler d pid) := by
  cases hg : getHandler d pid with
  | none =>
    rw [Gui.deleteEventHandler, hg]
    exact h
  | some f =>
    rw [deleteEventHandler_some hg]
    obtain ⟨hf, hpid⟩ := getHandler_mem hg
    have hmem : ∀ e ∈ d.hguiEventHandlers.eraseP (fun e => e.id == f.id),
        e ∈ d.hguiEventHandlers ∧ e ≠ f := fun e he =>
      ⟨List.mem_of_mem_eraseP he, fun hef => id_ne_of_mem_eraseP h.ids he (congrArg (·.id) hef)⟩
    have hget : ∀ i ≠ pid, lastFor i none (d.hguiEventHandlers.eraseP fun e => e.id == f.id) =
        getHandler d i := by
      refine fun i hi => lastFor_eraseP none fun e he hid hei => hi ?_
      rw [h.eq_of_id he hf (by simpa using hid), hpid] at hei
      exact hei.symm
    have hshadow : ∀ e ∈ d.hguiEventHandlers.eraseP (fun e => e.id == f.id), e.pid = pid →
        d.eventQueue e.id = [] := by
      intro e he hep
      refine h.shadow e (hmem e he).1 fun hge => (hmem e he).2 ?_
      rw [hep, hg] at hge
      exact (Option.some.inj hge).symm
    refine ⟨h.ids.sublist (List.eraseP_sublist.map _), fun e he => h.fresh e (hmem e he).1, ?_,
      fun i => ?_, fun i => ?_, fun i x hx => ?_⟩
    · intro e he hs
      by_cases hep : e.pid = pid
      · exact hshadow e he hep
      · exact h.shadow e (hmem e he).1 (hget e.pid hep ▸ hs)
    · by_cases hi : i = pid
      · subst hi
        dsimp only
        rw [Function.update_self, Function.update_self, List.nil_append, pending, getHandler_eq]
        dsimp only
        cases hl : lastFor i none (d.hguiEventHandlers.eraseP fun e => e.id == f.id) with
        | none => rfl
        | some e =>
          obtain ⟨he, hep⟩ := lastFor_mem hl
          rw [Option.elim_some, hshadow e he hep, List.reverse_nil]
      · dsimp only
        rw [Function.update_of_ne hi, Function.update_of_ne hi, h.log i]
        congr 2
        rw [pending, pending, getHandler_eq _ i]
        exact congrArg (Option.elim · [] fun e => d.eventQueue e.id) (hget i hi).symm
    · by_cases hi : i = pid
      · simp [hi]
      · simpa [hi] using h.nodup i
    · by_cases hi : i = pid
      · simp [hi] at hx
      · exact h.bound i x (by simpa [hi] using hx)

/-- `GET` takes the newest event of the queue. -/
theorem handleEvent_some {d : EventState} {pid e : Nat} {rest : List Nat} {h : EventHandler}
    (hg : getHandler d pid = some h) (hq : d.eventQueue h.id = e :: rest) :
    (handleEvent d pid).1 =
      { d with
        eventQueue := Function.update d.eventQueue h.id rest
        taken := Function.update d.taken pid (d.taken pid ++ [e]) } := by
  simp only [handleEvent, hg, hq]

theorem handleEvent_none {d : EventState} {pid : Nat} (hp : pending d pid = []) :
    (handleEvent d pid).1 = d := by
  unfold handleEvent
  cases hg : getHandler d pid with
  | none => rfl
  | some h =>
    rw [pending_of_some hg] at hp
    simp only [hp]

theorem Inv.get {d : EventState} (h : Inv d) {pid : Nat} (hw : (pending d pid).length ≤ 1) :
    Inv (handleEvent d pid).1 := by
  match hp : pending d pid with
  | [] =>
    rw [handleEvent_none hp]
    exact h
  | [e] =>
    cases hg : getHandler d pid with
    | none => simp [pending, hg] at hp
    | some f =>
      rw [handleEvent_some hg ((pending_of_some hg).symm.trans hp)]
      refine h.setQueue hg (q := []) rfl rfl rfl (Function.update_eq_self pid d.posted).symm rfl ?_
        (h.nodup pid) (h.bound pid) (Nat.le_refl _)
      rw [h.log pid, hp, List.reverse_singleton, List.reverse_nil, List.append_nil]
  | e :: f :: rest =>
    rw [hp] at hw
    simp at hw

theorem inv_step {d : EventState} (h : Inv d) {op : EventOp} (hw : OneWaits d op) :
    Inv (EventOp.step d op) := by
  have hhalt : Inv { d with halted := true } :=
    ⟨h.ids, h.fresh, h.shadow, h.log, h.nodup, h.bound⟩
  unfold EventOp.step
  by_cases hd : d.halted = true
  · rw [if_pos hd]
    exact h
  rw [if_neg hd]
  cases op with
  | createNewHandler pid mem =>
    cases mem with
    | false => exact hhalt
    | true => exact h.createNewHandler pid
  | deleteEventHandler pid => exact h.deleteEventHandler pid
  | postEvent pid event mem =>
    simp only [Gui.postEvent]
    by_cases h0 : pid = 0
    · rw [if_pos h0]
      exact h
    rw [if_neg h0]
    cases hg : getHandler d pid with
    | none => exact h
    | some e =>
      cases mem with
      | false => exact h
      | true => exact h.addEvent hg event
  | terminalPost pid widgetID mem =>
    cases mem with
    | false => exact hhalt
    | true =>
      simp only [Gui.terminalPost, Bool.not_true, Bool.false_eq_true, if_false]
      cases hg : getHandler d pid with
      | none => exact h
      | some e => exact h.addEvent hg _
  | get pid => exact h.get (hw (Bool.eq_false_iff.mpr hd))

theorem Inv.delivered {d : EventState} (h : Inv d) (pid : Nat) : Delivered d pid :=
  ⟨h.nodup pid, _, h.log pid, List.reverse_perm _⟩

/-- A `GET` while two events wait takes them out of order. -/
theorem not_delivered {d : EventState} (h : Inv d) {op : EventOp} (hw : ¬ OneWaits d op) :
    ¬ ∀ pid, Delivered (EventOp.step d op) pid := by
  cases op with
  | get pid =>
    simp only [OneWaits, Classical.not_imp, Nat.not_le] at hw
    obtain ⟨hd, hlen⟩ := hw
    match hp : pending d pid with
    | [] => simp [hp] at hlen
    | [e] => simp [hp] at hlen
    | e :: f :: rest =>
      cases hg : getHandler d pid with
      | none => simp [pending, hg] at hp
      | some x =>
        intro ha
        obtain ⟨hn, left, hl, -⟩ := ha pid
        have hs : EventOp.step d (.get pid) = (handleEvent d pid).1 := by
          simp [EventOp.step, hd]
        rw [hs, handleEvent_some hg ((pending_of_some hg).symm.trans hp)] at hl
        simp only [Function.update_self, h.log pid, hp, List.append_assoc] at hl
        have hl := List.append_cancel_left hl
        rw [List.reverse_cons, List.reverse_cons, List.append_assoc] at hl
        have hnd : (e :: f :: rest).Nodup := by
          have := h.nodup pid
          rw [h.log pid, hp] at this
          exact List.nodup_reverse.mp (List.nodup_append.mp this).2.1
        have he : e ∈ rest.reverse ++ [f] := by
          cases hr : rest.reverse with
          | nil =>
            rw [hr] at hl
            exact List.mem_singleton.mpr (List.cons.inj hl).1.symm
          | cons x xs =>
            rw [hr] at hl
            exact (List.cons.inj hl).1 ▸ List.mem_cons_self
        exact (List.nodup_cons.mp hnd).1 (by simpa [or_comm] using he)
  | _ => exact absurd trivial hw

/-- Along a run, the events of every process are taken once and in posting order, exactly while at
most one event waits at each `GET`. -/
theorem delivered_iff (ops : List EventOp) :
    Along EventOp.step (fun d op => ∀ pid, Delivered (EventOp.step d op) pid) .init ops ↔
      Along EventOp.step OneWaits .init ops :=
  Along.iff_of_inv (fun _ _ h hw => inv_step h hw)
    (fun _ _ h => ⟨fun ha => Classical.not_not.mp fun hw => not_delivered h hw ha,
      fun hw => (inv_step h hw).delivered⟩)
    Inv.init

/-- Two clicks of process 7 before its event thread asks for the first. -/
def twoClicks : List EventOp :=
  [.createNewHandler 7 true, .postEvent 7 ⟨1000, .onClick, 0, 0⟩ true,
    .postEvent 7 ⟨1001, .onClick, 0, 0⟩ true, .get 7]

/-- The second click is taken first. -/
theorem second_click_first : ¬ Delivered (run EventOp.step .init twoClicks) 7 := by
  rintro ⟨-, rest, h, -⟩
  have hp : (run EventOp.step .init twoClicks).posted 7 = [0, 1] := by decide
  have ht : (run EventOp.step .init twoClicks).taken 7 = [1] := by decide
  rw [hp, ht] at h
  exact absurd (List.cons.inj h).1 (by decide)

/-! ## The word of an event -/

/-- `HguiHandler::getNewID` with the counter: the id, and the counter after. -/
def getNewID (widgetIDCounter : BitVec 32) : BitVec 32 × BitVec 32 :=
  (widgetIDCounter, widgetIDCounter + 1)

/-- The counter after `n` ids. -/
def counterAfter : Nat → BitVec 32
  | 0 => 1000
  | n + 1 => (getNewID (counterAfter n)).2

/-- The decoding in `EventHandlerHGUI`: no event, or the widget and the kind of event. -/
def decode (ret : BitVec 32) : Option (BitVec 32 × BitVec 32) :=
  if 0 ≤ ret.toInt then some (ret.sshiftRight 16, ret &&& 0xFFFF#32) else none

theorem counterAfter_eq (n : Nat) : counterAfter n = BitVec.ofNat 32 (1000 + n) := by
  induction n with
  | zero => rfl
  | succ n ih =>
    rw [counterAfter, getNewID, ih]
    exact BitVec.eq_of_toNat_eq (by simp [BitVec.toNat_add, Nat.add_assoc])

theorem toBits_lt (ty : EventType) : ty.toBits.toNat < 2 ^ 16 := by cases ty <;> decide

/-- The word keeps the low half of the id. -/
theorem encode_toNat (event : Event) :
    (encode event).toNat =
      65536 * (event.widgetID.toNat % 65536) + event.eventType.toBits.toNat := by
  have hs : (event.widgetID <<< 16).toNat = 2 ^ 16 * (event.widgetID.toNat % 65536) := by
    rw [BitVec.toNat_shiftLeft, Nat.shiftLeft_eq]
    omega
  rw [encode, BitVec.toNat_or, hs, ← Nat.two_pow_add_eq_or_of_lt (toBits_lt event.eventType)]

theorem decode_of_lt {ret : BitVec 32} (h : ret.toNat < 2 ^ 31) :
    decode ret =
      some (BitVec.ofNat 32 (ret.toNat / 65536), BitVec.ofNat 32 (ret.toNat % 65536)) := by
  have hmsb : ret.msb = false := by
    rw [BitVec.msb_eq_false_iff_two_mul_lt]
    omega
  have h0 : 0 ≤ ret.toInt := by
    rw [BitVec.toInt_eq_toNat_of_msb hmsb]
    exact Int.natCast_nonneg _
  rw [decode, if_pos h0]
  congr 2
  · refine BitVec.eq_of_toNat_eq ?_
    rw [BitVec.sshiftRight_eq_of_msb_false hmsb, BitVec.toNat_ushiftRight,
      Nat.shiftRight_eq_div_pow, BitVec.toNat_ofNat]
    omega
  · refine BitVec.eq_of_toNat_eq ?_
    rw [BitVec.toNat_and, BitVec.toNat_ofNat, show 65535 % 2 ^ 32 = 2 ^ 16 - 1 from rfl,
      Nat.and_two_pow_sub_one_eq_mod, BitVec.toNat_ofNat]
    omega

theorem decode_of_le {ret : BitVec 32} (h : 2 ^ 31 ≤ ret.toNat) : decode ret = none := by
  have hneg : ret.toInt < 0 := by
    rw [BitVec.toInt_eq_toNat_cond]
    have := ret.isLt
    split <;> omega
  exact if_neg (by omega)

/-- The id of every `CREATE`, with every kind of event, comes back from the word exactly when the id
is below `0x8000`. -/
theorem decode_encode_iff (n : Nat) (ty : EventType) (param1 param2 : BitVec 32) :
    decode (encode ⟨(getNewID (counterAfter n)).1, ty, param1, param2⟩) =
        some ((getNewID (counterAfter n)).1, ty.toBits) ↔
      (getNewID (counterAfter n)).1.toNat < 0x8000 := by
  generalize (getNewID (counterAfter n)).1 = id
  have he := encode_toNat ⟨id, ty, param1, param2⟩
  have ht := toBits_lt ty
  dsimp only at he
  by_cases hlt : (encode ⟨id, ty, param1, param2⟩).toNat < 2 ^ 31
  · rw [decode_of_lt hlt, Option.some.injEq, Prod.mk.injEq]
    constructor
    · rintro ⟨h, -⟩
      have h := congrArg BitVec.toNat h
      rw [BitVec.toNat_ofNat] at h
      omega
    · intro h
      refine ⟨BitVec.eq_of_toNat_eq ?_, BitVec.eq_of_toNat_eq ?_⟩ <;> rw [BitVec.toNat_ofNat] <;>
        omega
  · rw [decode_of_le (Nat.le_of_not_lt hlt)]
    exact ⟨nofun, fun h => by omega⟩

/-- After 31768 widgets the click of the next one reads as no event. -/
theorem click_unseen :
    (getNewID (counterAfter 31768)).1 = 0x8000#32 ∧
      decode (encode ⟨(getNewID (counterAfter 31768)).1, .onClick, 0, 0⟩) = none := by
  rw [counterAfter_eq]
  decide

end Gui
end Hashx86
