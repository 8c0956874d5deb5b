import Hashx86.Sched.Effects

/-!
# Runs of the scheduler

`Op` is one call of the scheduler, `step` the kernel after it. Between the calls the timer advances
(`tick`) and the rest of the kernel and the programs do anything to memory (`memory`).
-/

namespace Hashx86
namespace Sched

inductive Op where
  | createProcess (pcbPtr tcbPtr : Nat) (isKernel : Bool) (entrypoint arg : Nat) (mainThread : Bool)
  | startProcess (p tcbPtr arg : Nat)
  | createThread (tcbPtr : Nat) (parent : Option Nat) (entrypoint arg : Nat)
  | cloneCurrentThread (tcbPtr : Nat) (args : CloneArgs)
  | cloneCurrentProcess (pcbPtr tcbPtr : Nat) (args : CloneArgs)
  | sleep (milliseconds : Nat)
  | wakeThread (t : Nat)
  | terminateThread (t : Nat)
  | exitCurrentThread
  | killProcess (pid : Nat)
  | schedule (context : CpuState)
  | tick (ticks : Nat)
  | memory (m : Machine)

/-- The kernel after a call. -/
def step (threadExit : Nat) (k : Kernel) : Op → Kernel
  | .createProcess pcbPtr tcbPtr isKernel entrypoint arg main =>
    (createProcess threadExit k pcbPtr tcbPtr isKernel entrypoint arg main).2
  | .startProcess p tcbPtr arg => (startProcess threadExit k p tcbPtr arg).2
  | .createThread tcbPtr parent entrypoint arg =>
    (createThread threadExit k tcbPtr parent entrypoint arg).2
  | .cloneCurrentThread tcbPtr args => (cloneCurrentThread k tcbPtr args).2
  | .cloneCurrentProcess pcbPtr tcbPtr args => (cloneCurrentProcess k pcbPtr tcbPtr args).2
  | .sleep ms => sleep k ms
  | .wakeThread t => wakeThread k t
  | .terminateThread t => terminateThread k t
  | .exitCurrentThread => (exitCurrentThread k).2
  | .killProcess pid => (killProcess k pid).2
  | .schedule context => schedule k context
  | .tick ticks => { k with timerTicks := k.timerTicks + ticks }
  | .memory m => k.withMachine m

/-- The result of a call that creates a thread or a process. -/
def created (threadExit : Nat) (k : Kernel) : Op → Option (Option Nat)
  | .createProcess pcbPtr tcbPtr isKernel entrypoint arg main =>
    some (createProcess threadExit k pcbPtr tcbPtr isKernel entrypoint arg main).1
  | .createThread tcbPtr parent entrypoint arg =>
    some (createThread threadExit k tcbPtr parent entrypoint arg).1
  | .cloneCurrentThread tcbPtr args => some (cloneCurrentThread k tcbPtr args).1
  | .cloneCurrentProcess pcbPtr tcbPtr args => some (cloneCurrentProcess k pcbPtr tcbPtr args).1
  | _ => none

/-! ## A small machine -/

/-- Eight frames of which the PMM manages all but frame 0; memory is zero. -/
def eightFrames : Machine :=
  { pmm := Pmm.initRegion (Pmm.init (fun _ => 0) 0x9000 0x8000) 0x1000 0x7000
    mem := fun _ => 0, kernelPageDirectory := 0, log := [] }

/-- A zone of ten free kernel stacks. -/
def tenStacks : Kstack.Zone :=
  { ready := true, base := Kstack.zoneBase, stop := Kstack.zoneBase + 10 * Kstack.slotSize
    slotCount := 10, inUse := 0, slotBitmap := fun _ => 0, freed := [] }

end Sched
end Hashx86
