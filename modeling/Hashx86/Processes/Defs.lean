import Hashx86.Elf.Process
import Hashx86.Syscalls.BrkFrames

/-!
# The processes and their memory

`Event` is what happens to the processes while the kernel runs: a call of the scheduler, a store of a
process to its own memory, `sys_brk`, and the load of a program. The page tables alone say what a process
`Uses` a frame for.

* `Admits`: what the callers respect. The file of a program is a regular one, and its segments end before
  the last page of the address space.
* `Touches`: the processes whose memory an event may change.
* `Clean`: the event leaves no frame without an owner. A stack at a fresh slot is clean when no page of
  the slot is mapped yet, and the load of a program when it succeeds and no two segments have a page in
  common.
-/

namespace Hashx86
namespace Processes

open Lib Paging Sched

inductive Event where
  | call (op : Sched.Op)
  | store (p va : Nat) (byte : UInt8)
  | brk (p : Nat) (kmallocOk : Bool) (brk : Nat)
  | load (pcbPtr : Nat) (env : Elf.Env) (file : Fs.File)

/-- `Handle_sys_brk` of the process at `p`. -/
def brkOf (k : Kernel) (p : Nat) (kmallocOk : Bool) (brk : Nat) : Kernel :=
  match k.pcbs p with
  | none => k
  | some pcb =>
    let (_, heap, m) := Syscalls.sysBrk kmallocOk k.machine pcb.pageDirectory pcb.heap brk
    (k.withMachine m).modPcb p fun pcb => { pcb with heap := heap }

/-- A process stores a byte. -/
def storeOf (k : Kernel) (p va : Nat) (byte : UInt8) : Kernel :=
  match k.pcbs p with
  | none => k
  | some pcb => k.withMachine (Sched.store k.machine ⟨pcb.pageDirectory, va, byte⟩)

def step (threadExit : Nat) (k : Kernel) : Event → Kernel
  | .call op => Sched.step threadExit k op
  | .store p va byte => storeOf k p va byte
  | .brk p kmallocOk brk => brkOf k p kmallocOk brk
  | .load pcbPtr env file => (Elf.loadELF threadExit k pcbPtr env file).2.1

/-- What the callers respect. -/
def Admits (k : Kernel) : Event → Prop
  | .call op => Sched.Admits k op
  | .store p va _ => k.space p ≠ none ∧ UserAddr va
  | .brk p _ _ => k.space p ≠ none
  | .load _ _ file => Fs.Inv file ∧ Elf.AllStraight file.fil.data

/-- The event is one of process `q`, or it ends `q`. -/
def Touches (threadExit : Nat) (k : Kernel) : Event → Nat → Prop
  | .call op, q => actor k op = some q ∨ victim threadExit k op = some q
  | .store p _ _, q => p = q
  | .brk p _ _, q => p = q
  | .load .., q => firstWithPid k k.pidCounter = some q

def Clean (threadExit : Nat) (k : Kernel) : Event → Prop
  | .call op => Sched.Clean k op
  | .load pcbPtr env file =>
    (Elf.loadELF threadExit k pcbPtr env file).1 ≠ none ∧ Elf.PagesOwn file.fil.data
  | _ => True

/-! ## Frames -/

/-- A part of an address space that needs a frame. -/
inductive Part where
  | directory
  | table (i : Nat)
  | page (i j : Nat)

/-- The frame is that part of the address space of the process. -/
def Uses (k : Kernel) (p : Nat) : Part → Nat → Prop
  | .directory, a => k.space p = some a
  | .table i, a => ∃ d, k.space p = some d ∧ i < 1024 ∧ HasTable k.machine d i a
  | .page i j, a => ∃ d, k.space p = some d ∧ (i < 1024 ∧ kernelIdx i = false) ∧ j < 1024 ∧
    MapsPage k.trampolinePhys (pte k.machine d i j) a

/-- Each frame is one part of one address space, and it is allocated. No frame was freed that was not
allocated, or that the kernel had at boot or uses for the exit trampoline. -/
structure FramesOk (boot : Pmm.Info) (k : Kernel) : Prop where
  once : ∀ {p q part part' a}, Uses k p part a → Uses k q part' a → p = q ∧ part = part'
  allocated : ∀ {p part a}, Uses k p part a → a % 4096 = 0 ∧ ¬ Pmm.Free k.machine.pmm (a / 4096) ∧
    Pmm.Free boot (a / 4096) ∧ a ≠ k.trampolinePhys
  frees : ∀ a inUse, .free a inUse ∈ k.machine.log → a ≠ 0 →
    inUse = true ∧ Pmm.Free boot (a / 4096) ∧ a ≠ k.trampolinePhys

/-- The frames in use are those of the kernel at boot, that of the exit trampoline, and those of the
address spaces. -/
def Conserved (boot : Pmm.Info) (k : Kernel) : Prop :=
  ∀ g, Pmm.Free k.machine.pmm g ↔ Pmm.Free boot g ∧ g * 4096 ≠ k.trampolinePhys ∧
    ∀ p part, ¬ Uses k p part (g * 4096)

/-! ## The start -/

/-- The machine when the scheduler is made: paging is on, and frame 0 is not the directory of anything. -/
structure Boots (m : Machine) : Prop where
  active : Active m
  null : present (m.entry 0 256) = false
  log : m.log = []

end Processes
end Hashx86
