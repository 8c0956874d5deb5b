import Hashx86.Sched.Defs

/-!
# Termination, sleep and the context switch (`core/scheduler.cpp`)

The rest of the scheduler: `TerminateThread`, `KillProcess`, `ExitCurrentThread`, `Sleep`,
`WakeThread`, `Schedule`, `StartProcess` and the constructor. The loops over a queue pop the head and
push it back; they are recursions on the number of rounds left.
-/

namespace Hashx86
namespace Sched

open Lib Paging Kstack

/-! ## Termination -/

/-- The part of `TerminateThread` that gives the user stack back. -/
def reclaimSlot (k : Kernel) (t : Nat) (tcb : Tcb) : Kernel :=
  match tcb.parent with
  | none => k
  | some p =>
    if tcb.stackSlotIdx = noSlot then k
    else
      let directory := ((k.pcbs p).map (·.pageDirectory)).getD 0
      let k := if directory ≠ 0 then
          k.withMachine (freeUserStackSlot k.machine directory tcb.stackSlotIdx) else k
      (k.recycleSlot tcb.stackSlotIdx).modTcb t fun tcb => { tcb with stackSlotIdx := noSlot }

/-- `TerminateThread`. -/
def terminateThread (k : Kernel) (t : Nat) : Kernel :=
  match k.tcbs t with
  | none => k
  | some tcb =>
    if tcb.state = .terminated then k
    else
      let k := k.modTcb t fun tcb => { tcb with state := .terminated }
      let k := { k with readyQueue := k.readyQueue.erase t, blockedQueue := k.blockedQueue.erase t }
      let k := reclaimSlot k t tcb
      let k := match tcb.parent with
        | none => k
        | some p => k.modPcb p fun pcb => { pcb with threads := pcb.threads.erase t }
      if k.currentThread = some t then
        { k with currentThread := none, pendingReclaims := k.pendingReclaims ++ [t] }
      else k.dropThread t

/-- The search of `KillProcess`, `n` rounds left: the process with that PID, and the rotated list. -/
def killScan (k : Kernel) (pid : Nat) : Nat → List Nat → Option Nat × List Nat
  | 0, list => (none, list)
  | _ + 1, [] => (none, [])
  | n + 1, p :: list =>
    if (k.pcbs p).map (·.pid) = some pid then (some p, list ++ [p])
    else killScan k pid n (list ++ [p])

/-- The loop of `KillProcess` over the threads, `n` rounds left. -/
def killThreads (k : Kernel) (p : Nat) : Nat → Kernel
  | 0 => k
  | n + 1 =>
    match ((k.pcbs p).map (·.threads)).getD [] with
    | [] => killThreads k p n
    | t :: rest =>
      killThreads (terminateThread (k.modPcb p fun pcb => { pcb with threads := rest }) t) p n

/-- The sweep over one of the shared ranges of the directory: entries `i..`, `n` of them left. A
table that the process has of its own is freed, but not its frames. -/
def sweepPrivate (m : Machine) (directory : Nat) : (n i : Nat) → Machine
  | 0, _ => m
  | n + 1, i =>
    let pde := m.entry directory i
    if !present pde then sweepPrivate m directory n (i + 1)
    else if pde = m.entry m.kernelPageDirectory i then sweepPrivate m directory n (i + 1)
    else sweepPrivate ((m.freeBlock (frameAddr pde)).setEntry directory i 0) directory n (i + 1)

/-- The memory of a user process is freed. -/
def killSpace (m : Machine) (tramp directory : Nat) : Machine :=
  let m := sweepTables m tramp directory 704 64
  let m := sweepPrivate m directory 64 0
  let m := sweepPrivate m directory 256 768
  m.freeBlock directory

/-- `KillProcess`. -/
def killProcess (k : Kernel) (pid : Nat) : Bool × Kernel :=
  let (target, list) := killScan k pid k.globalProcessList.length k.globalProcessList
  let k := { k with globalProcessList := list }
  match target with
  | none => (false, k)
  | some p =>
    match k.pcbs p with
    | none => (false, k)
    | some target =>
      let k := if target.pageDirectory = k.cr3 then
          { k with cr3 := k.machine.kernelPageDirectory } else k
      let k := killThreads k p target.threads.length
      let k := if target.isKernelProcess then k
        else k.withMachine (killSpace k.machine k.trampolinePhys target.pageDirectory)
      let k := { k with
        freeStackOffsets := target.deferredStackSlots.reverse ++ k.freeStackOffsets }
      (true, forgetProcess k p)

/-- `StartProcess`. -/
def startProcess (threadExit : Nat) (k : Kernel) (p tcbPtr arg : Nat) : Bool × Kernel :=
  match k.pcbs p with
  | none => (false, k)
  | some pcb =>
    if pcb.mainEntry = 0 then (false, k)
    else match createThread threadExit k tcbPtr (some p) pcb.mainEntry arg with
      | (some _, k) => (true, k)
      | (none, k) => (false, (killProcess k pcb.pid).2)

/-- The loop of `ExitCurrentThread` that counts the threads, `n` rounds left: the count and the
rotated list. -/
def countActive (k : Kernel) : Nat → List Nat → Nat × List Nat
  | 0, list => (0, list)
  | _ + 1, [] => (0, [])
  | n + 1, t :: list =>
    let (count, list) := countActive k n (list ++ [t])
    (if (k.tcbs t).map (·.state) = some .terminated then count else count + 1, list)

/-- `ExitCurrentThread`: whether the process was killed. -/
def exitCurrentThread (k : Kernel) : Bool × Kernel :=
  match k.currentThread with
  | none => (false, k)
  | some cur =>
    match k.tcbs cur with
    | none => (false, k)
    | some tcb =>
      match tcb.parent with
      | none => (false, terminateThread k cur)
      | some p =>
        match k.pcbs p with
        | none => (false, k)
        | some pcb =>
          let (active, threads) := countActive k pcb.threads.length pcb.threads
          let k := k.modPcb p fun pcb => { pcb with threads := threads }
          if active ≤ 1 then (true, (killProcess k pcb.pid).2)
          else (false, terminateThread k cur)

/-! ## Sleep and wake -/

/-- `Sleep`. -/
def sleep (k : Kernel) (milliseconds : Nat) : Kernel :=
  match k.currentThread with
  | none => k
  | some cur =>
    k.modTcb cur fun tcb =>
      { tcb with wakeTime := (k.timerTicks + milliseconds) % 2 ^ 32, state := .blocked }

/-- A sleeping thread becomes runnable. -/
def Tcb.awake (tcb : Tcb) : Tcb := { tcb with state := .ready, wakeTime := 0 }

/-- `WakeThread`. -/
def wakeThread (k : Kernel) (t : Nat) : Kernel :=
  match k.tcbs t with
  | none => k
  | some tcb =>
    if tcb.state ≠ .blocked then k
    else
      let k := k.modTcb t Tcb.awake
      { k with blockedQueue := k.blockedQueue.erase t, readyQueue := k.readyQueue ++ [t] }

/-! ## The context switch -/

/-- What `Schedule` does with the thread that was running. -/
def saveCurrent (k : Kernel) (context : CpuState) : Kernel :=
  match k.currentThread with
  | none => k
  | some cur =>
    let k := k.modTcb cur fun tcb => { tcb with context := context }
    match (k.tcbs cur).map Tcb.state with
    | some .running =>
      if cur = k.idleThread then k
      else
        let k := k.modTcb cur fun tcb => { tcb with state := .ready }
        { k with readyQueue := k.readyQueue ++ [cur] }
    | some .blocked => { k with blockedQueue := k.blockedQueue ++ [cur] }
    | some .terminated => { k with terminatedQueue := k.terminatedQueue ++ [cur] }
    | _ => k

/-- The thread sleeps and its time has come. -/
def Tcb.due (tcb : Tcb) (ticks : Nat) : Bool := tcb.state = .blocked && decide (tcb.wakeTime ≤ ticks)

/-- The loop of `Schedule` over the blocked queue, `n` rounds left. -/
def wakeDue (k : Kernel) : Nat → Kernel
  | 0 => k
  | n + 1 =>
    match k.blockedQueue with
    | [] => k
    | t :: rest =>
      if (k.tcbs t).any (·.due k.timerTicks) then
        let k := k.modTcb t Tcb.awake
        wakeDue { k with blockedQueue := rest, readyQueue := k.readyQueue ++ [t] } n
      else wakeDue { k with blockedQueue := rest ++ [t] } n

/-- `DrainPendingReclaims`, `n` rounds left. -/
def drainPendingReclaims (k : Kernel) : Nat → Kernel
  | 0 => k
  | n + 1 =>
    match k.pendingReclaims with
    | [] => k
    | t :: rest => drainPendingReclaims ({ k with pendingReclaims := rest }.dropThread t) n

/-- The directory of a thread: its process's, or the kernel's. -/
def directoryOf (k : Kernel) (tcb : Tcb) : Nat :=
  match tcb.parent with
  | none => k.machine.kernelPageDirectory
  | some p => ((k.pcbs p).map (·.pageDirectory)).getD 0

/-- `SwitchDirectory`. -/
def switchDirectory (k : Kernel) (directory : Nat) : Kernel :=
  if directory = 0 then k else { k with cr3 := directory }

/-- `t` runs next, in its own address space. -/
def dispatch (k : Kernel) (t : Nat) : Kernel :=
  let k := { k.modTcb t fun tcb => { tcb with state := .running } with currentThread := some t }
  match k.tcbs t with
  | none => k
  | some tcb => switchDirectory k (directoryOf k tcb)

/-- `Schedule` up to the thread that it returns to. -/
def schedule (k : Kernel) (context : CpuState) : Kernel :=
  let k := saveCurrent k context
  let k := wakeDue k k.blockedQueue.length
  let k :=
    match k.readyQueue with
    | [] =>
      -- No real work to do: the idle thread runs, in the kernel's address space.
      let k := { k.modTcb k.idleThread fun tcb => { tcb with state := .running } with
        currentThread := some k.idleThread }
      switchDirectory k k.machine.kernelPageDirectory
    | t :: rest => dispatch { k with readyQueue := rest } t
  drainPendingReclaims k k.pendingReclaims.length

/-- The result of `Schedule`: the saved registers of the thread that runs now. -/
def scheduledContext (k : Kernel) : Option CpuState := do
  let cur ← k.currentThread
  let tcb ← k.tcbs cur
  pure tcb.context

/-! ## The constructor -/

/-- The bytes of the exit trampoline: `mov eax, 1; int 0x80; jmp $`. -/
def trampolineCode : List UInt8 := [0xB8, 0x01, 0x00, 0x00, 0x00, 0xCD, 0x80, 0xEB, 0xFE]

/-- The scheduler's fields before the constructor runs. -/
def Kernel.boot (m : Machine) (zone : Zone) : Kernel :=
  { machine := m, zone := zone, trampolinePhys := 0, pidCounter := 0, tidCounter := 0
    tcbs := fun _ => none, pcbs := fun _ => none, globalProcessList := [], readyQueue := []
    blockedQueue := [], terminatedQueue := [], pendingReclaims := [], currentThread := none
    idleThread := 0, freeStackOffsets := [], nextStackSlotIdx := 0, timerTicks := 0
    cr3 := m.kernelPageDirectory }

/-- `Scheduler::Scheduler`; `none` is a `HALT`. -/
def newScheduler (m : Machine) (zone : Zone) (threadExit idleTask tcbPtr : Nat) : Option Kernel :=
  let (tramp, m) := m.allocBlockLow
  if tramp = 0 then none
  else
    let m := m.zero tramp pageSize
    let m := m.store tramp trampolineCode.length fun i => trampolineCode.getD i 0
    let k := { Kernel.boot m zone with trampolinePhys := tramp }
    match createThread threadExit k tcbPtr none idleTask 0 with
    | (none, _) => none
    | (some idle, k) => some { k with idleThread := idle }

end Sched
end Hashx86
