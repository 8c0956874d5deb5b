import Hashx86.Drivers.Keyboard
import Hashx86.Lib.Run

/-!
# Queues of input

The characters for a process (`core/syscalls.cpp`), those of the keyboard (`core/drivers/keyboard.cpp`)
and the events of the desktop (`gui/input/inputQueue.cpp`). The operations run with the interrupts
off, one after the other.

* `Recent`: a queue that keeps the most recent elements; `stdin_refines`, `keyboard_refines`.
* `Bounded`: a queue that refuses and counts what it has no room for; `inputQueue_refines`.
* `queues_refine`: all three, over every run.
-/

namespace Hashx86

open Lib

inductive QueueOp (α : Type)
  | push (c : α)
  | pop
  | clear

inductive Answer (α : Type)
  | pushed (done : Bool)
  | popped (out : Option α)
  | cleared

variable {α : Type}

/-! ## What the queues are for -/

/-- A queue that keeps its `n` most recent elements. -/
def Recent.step (n : Nat) (xs : List α) : QueueOp α → Answer α × List α
  | .push c => (.pushed true, keepLast n (xs ++ [c]))
  | .pop => (.popped xs.head?, xs.tail)
  | .clear => (.cleared, [])

/-- A queue of at most `n` elements, and how often it has refused one. -/
def Bounded.step (n : Nat) (s : List α × UInt32) : QueueOp α → Answer α × (List α × UInt32)
  | .push c =>
    if s.1.length < n then (.pushed true, (s.1 ++ [c], s.2)) else (.pushed false, (s.1, s.2 + 1))
  | .pop => (.popped s.1.head?, (s.1.tail, s.2))
  | .clear => (.cleared, ([], s.2))

/-! ## The rings that drop the oldest element -/

def ringStep (cap : Nat) (q : RingQueue α) : QueueOp α → Answer α × RingQueue α
  | .push c => (.pushed true, q.push cap c)
  | .pop => (.popped (q.pop cap).1, (q.pop cap).2)
  | .clear => (.cleared, q.clear)

theorem indexed_ringStep {cap : Nat} {q : RingQueue α} (h : q.Indexed cap) (op : QueueOp α) :
    (ringStep cap q op).2.Indexed cap := by
  cases op with
  | push c => exact h.push c
  | pop => exact h.pop
  | clear => exact h.clear

theorem ringStep_recent {cap : Nat} {q : RingQueue α} (h : q.Indexed cap) (op : QueueOp α) :
    (ringStep cap q op).1 = (Recent.step (cap - 1) (q.list cap) op).1 ∧
      (ringStep cap q op).2.list cap = (Recent.step (cap - 1) (q.list cap) op).2 := by
  cases op with
  | push c => exact ⟨rfl, RingQueue.list_push h c⟩
  | pop =>
    obtain ⟨hout, hrest⟩ := RingQueue.list_pop h
    exact ⟨congrArg Answer.popped hout, hrest⟩
  | clear => exact ⟨rfl, RingQueue.list_clear h⟩

/-! ## The characters of a process -/

namespace Stdin

/-- `ProcessControlBlock::STDIN_QUEUE_SIZE` -/
def stdinQueueSize : Nat := 256

/-- `stdinQueue`, `stdinHead` and `stdinTail` of a process. -/
abbrev Queue := RingQueue UInt8

def pushProcessStdin (process : Queue) (c : UInt8) : Queue := process.push stdinQueueSize c

/-- `PopProcessStdin`, into an `out` that is not `NULL`. -/
def popProcessStdin (process : Queue) : Option UInt8 × Queue := process.pop stdinQueueSize

def clearProcessStdin (process : Queue) : Queue := process.clear

/-- The queue of a new process. -/
def new : Queue := ⟨fun _ => 0, 0, 0⟩

def step (process : Queue) : QueueOp UInt8 → Answer UInt8 × Queue
  | .push c => (.pushed true, pushProcessStdin process c)
  | .pop => (.popped (popProcessStdin process).1, (popProcessStdin process).2)
  | .clear => (.cleared, clearProcessStdin process)

theorem step_eq (process : Queue) (op : QueueOp UInt8) :
    step process op = ringStep stdinQueueSize process op := by
  cases op with
  | push c => rfl
  | pop => rfl
  | clear => rfl

theorem refines_recent :
    Refines step (Recent.step (stdinQueueSize - 1)) (RingQueue.list stdinQueueSize) new := by
  refine .of_inv (I := RingQueue.Indexed stdinQueueSize) ?_ ?_ ⟨by decide, by decide⟩
  · intro process op h
    rw [step_eq]
    exact indexed_ringStep h op
  · intro process op h
    rw [step_eq]
    exact ringStep_recent h op

end Stdin

/-! ## The characters of the keyboard -/

namespace Keyboard

/-- `PopInputChar`, into an `out` that is not `NULL`. -/
def Driver.popInputChar (d : Driver) : Option Char × Driver :=
  if d.inputHead = d.inputTail then (none, d)
  else (some (d.inputQueue d.inputTail), { d with inputTail := (d.inputTail + 1) % inputQueueSize })

def Driver.clearInputQueue (d : Driver) : Driver := { d with inputHead := 0, inputTail := 0 }

def Driver.step (d : Driver) : QueueOp Char → Answer Char × Driver
  | .push c => (.pushed true, d.queueInputChar c)
  | .pop => (.popped d.popInputChar.1, d.popInputChar.2)
  | .clear => (.cleared, d.clearInputQueue)

theorem step_ring (d : Driver) (op : QueueOp Char) :
    (d.step op).1 = (ringStep inputQueueSize d.ring op).1 ∧
      (d.step op).2.ring = (ringStep inputQueueSize d.ring op).2 := by
  cases op with
  | push c => exact ⟨rfl, rfl⟩
  | pop =>
    by_cases hempty : d.inputHead = d.inputTail
    · simp [Driver.step, Driver.popInputChar, ringStep, RingQueue.pop, Driver.ring, hempty]
    · simp [Driver.step, Driver.popInputChar, ringStep, RingQueue.pop, Driver.ring, hempty]
  | clear => exact ⟨rfl, rfl⟩

theorem refines_recent (eventHandler : Bool) :
    Refines Driver.step (Recent.step (inputQueueSize - 1)) Driver.queue (Driver.new eventHandler) := by
  refine .of_inv (I := fun d => d.ring.Indexed inputQueueSize) ?_ ?_
    ⟨Nat.zero_lt_succ _, Nat.zero_lt_succ _⟩
  · intro d op h
    rw [(step_ring d op).2]
    exact indexed_ringStep h op
  · intro d op h
    obtain ⟨hanswer, hring⟩ := step_ring d op
    rw [queue_eq, queue_eq, hanswer, hring]
    exact ringStep_recent h op

end Keyboard

/-! ## The events of the desktop -/

structure InputQueue (α : Type) where
  buffer : Nat → α
  head : Nat
  tail : Nat
  count : Nat
  overflow : UInt32

namespace InputQueue

/-- `CAPACITY` -/
def capacity : Nat := 256

/-- The constructor, over what the memory held. -/
def new (buffer : Nat → α) : InputQueue α := ⟨buffer, 0, 0, 0, 0⟩

def push (q : InputQueue α) (event : α) : Bool × InputQueue α :=
  if capacity ≤ q.count then (false, { q with overflow := q.overflow + 1 })
  else
    (true, { q with
      buffer := Function.update q.buffer q.tail event
      tail := (q.tail + 1) % capacity
      count := q.count + 1 })

def pop (q : InputQueue α) : Option α × InputQueue α :=
  if q.count = 0 then (none, q)
  else
    (some (q.buffer q.head), { q with head := (q.head + 1) % capacity, count := q.count - 1 })

def clear (q : InputQueue α) : InputQueue α := { q with head := 0, tail := 0, count := 0 }

def step (q : InputQueue α) : QueueOp α → Answer α × InputQueue α
  | .push event => (.pushed (q.push event).1, (q.push event).2)
  | .pop => (.popped q.pop.1, q.pop.2)
  | .clear => (.cleared, q.clear)

/-- The events, the oldest first, and how many were refused. -/
def contents (q : InputQueue α) : List α × UInt32 :=
  (window capacity q.buffer q.head q.count, q.overflow)

/-- The tail is behind the events. -/
structure Counted (q : InputQueue α) : Prop where
  head : q.head < capacity
  count : q.count ≤ capacity
  tail : q.tail = (q.head + q.count) % capacity

theorem Counted.step {q : InputQueue α} (h : q.Counted) (op : QueueOp α) : (q.step op).2.Counted := by
  have hpos : 0 < capacity := by decide
  cases op with
  | push event =>
    unfold InputQueue.step push
    by_cases hfull : capacity ≤ q.count
    · simp only [if_pos hfull]
      exact ⟨h.head, h.count, h.tail⟩
    · simp only [if_neg hfull]
      refine ⟨h.head, by dsimp only; omega, ?_⟩
      rw [h.tail, Nat.mod_add_mod, Nat.add_assoc]
  | pop =>
    unfold InputQueue.step pop
    by_cases hempty : q.count = 0
    · simp only [if_pos hempty]
      exact h
    · simp only [if_neg hempty]
      have hcount := h.count
      refine ⟨Nat.mod_lt _ hpos, by dsimp only; omega, ?_⟩
      rw [h.tail, Nat.mod_add_mod, show q.head + 1 + (q.count - 1) = q.head + q.count by omega]
  | clear => exact ⟨hpos, Nat.zero_le _, rfl⟩

theorem step_bounded {q : InputQueue α} (h : q.Counted) (op : QueueOp α) :
    (q.step op).1 = (Bounded.step capacity q.contents op).1 ∧
      (q.step op).2.contents = (Bounded.step capacity q.contents op).2 := by
  have hlen : q.contents.1.length = q.count := length_window _ _ _
  cases op with
  | push event =>
    unfold step push Bounded.step
    rw [hlen]
    by_cases hfull : capacity ≤ q.count
    · simp only [if_pos hfull, if_neg (Nat.not_lt.mpr hfull)]
      exact ⟨trivial, rfl⟩
    · have hroom : q.count < capacity := Nat.lt_of_not_le hfull
      simp only [if_neg hfull, if_pos hroom]
      refine ⟨trivial, ?_⟩
      rw [contents, h.tail, window_push q.buffer event hroom]
      rfl
  | pop =>
    unfold step pop Bounded.step
    by_cases hempty : q.count = 0
    · have hnil : q.contents.1 = [] := List.length_eq_zero_iff.mp (hlen.trans hempty)
      simp only [if_pos hempty, hnil]
      exact ⟨rfl, Prod.ext hnil rfl⟩
    · obtain ⟨n, hn⟩ := Nat.exists_eq_succ_of_ne_zero hempty
      have hcons : q.contents.1 = q.buffer q.head ::
          window capacity q.buffer ((q.head + 1) % capacity) n := by
        rw [contents, hn, window_cons, Nat.mod_eq_of_lt h.head]
      simp only [if_neg hempty, hcons]
      refine ⟨rfl, ?_⟩
      rw [contents, hn]
      rfl
  | clear => exact ⟨rfl, rfl⟩

theorem refines_bounded (buffer : Nat → α) :
    Refines step (Bounded.step capacity) contents (new buffer) :=
  .of_inv (I := Counted) (fun _ op h => h.step op) (fun _ op h => step_bounded h op)
    ⟨Nat.zero_lt_succ _, Nat.zero_le _, rfl⟩

end InputQueue

/-- The queues of a process and of the keyboard keep the most recent characters, the queue of the
desktop refuses what it has no room for. -/
theorem queues_refine :
    Refines Stdin.step (Recent.step (Stdin.stdinQueueSize - 1))
      (RingQueue.list Stdin.stdinQueueSize) Stdin.new ∧
    (∀ eventHandler, Refines Keyboard.Driver.step (Recent.step (Keyboard.inputQueueSize - 1))
      Keyboard.Driver.queue (.new eventHandler)) ∧
    ∀ (α : Type) (buffer : Nat → α), Refines InputQueue.step (Bounded.step InputQueue.capacity)
      InputQueue.contents (.new buffer) :=
  ⟨Stdin.refines_recent, Keyboard.refines_recent, fun _ => InputQueue.refines_bounded⟩

end Hashx86
