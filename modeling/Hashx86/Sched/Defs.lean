import Hashx86.Kstack.Defs
import Hashx86.Paging.Defs

/-!
# Threads, processes and their memory (`core/scheduler.cpp`)

`Kernel` is the scheduler with the static variables of `scheduler.cpp`, the machine and the
kernel-stack zone. A pointer to a TCB or PCB is a number; `tcbs` and `pcbs` say which of them point
to an object. `new` is an oracle: each function that allocates gets the pointer that the kernel
heap answers, where `0`, or the address of an object that still exists, stands for `NULL`.

A `LinkedList` is a `List`: `PushBack` appends, `Add` puts in front, `PopFront` takes the head,
`Remove` erases the first occurrence.

This file has the user stacks, the creation of processes and threads, and the two clones.
`Hashx86.Sched.Switch` has the rest.
-/

namespace Hashx86
namespace Sched

open Lib Paging Kstack

/-- `CPUState`. -/
structure CpuState where
  eax : Nat
  ebx : Nat
  ecx : Nat
  edx : Nat
  esi : Nat
  edi : Nat
  ebp : Nat
  ds : Nat
  es : Nat
  fs : Nat
  gs : Nat
  error : Nat
  eip : Nat
  cs : Nat
  eflags : Nat
  esp : Nat
  ss : Nat

/-- `memset(context, 0, sizeof(CPUState))`. -/
def CpuState.zero : CpuState := ⟨0, 0, 0, 0, 0, 0, 0, 0, 0, 0, 0, 0, 0, 0, 0, 0, 0⟩

inductive ThreadState where
  | new
  | ready
  | running
  | blocked
  | terminated
  deriving DecidableEq

/-- `ThreadControlBlock`. -/
structure Tcb where
  tid : Nat
  pid : Nat
  state : ThreadState
  stack : Nat
  context : CpuState
  parent : Option Nat
  wakeTime : Nat
  stackSlotIdx : Nat

structure HeapSegment where
  startAddress : Nat
  endAddress : Nat
  maxAddress : Nat

/-- `ProcessControlBlock`, without the files, the console and the arguments. -/
structure Pcb where
  pid : Nat
  pageDirectory : Nat
  threads : List Nat
  parent : Option Nat
  isKernelProcess : Bool
  mainEntry : Nat
  appType : Nat
  heap : HeapSegment
  deferredStackSlots : List Nat

structure Kernel where
  machine : Machine
  zone : Zone
  trampolinePhys : Nat
  pidCounter : Nat
  tidCounter : Nat
  tcbs : Nat → Option Tcb
  pcbs : Nat → Option Pcb
  globalProcessList : List Nat
  readyQueue : List Nat
  blockedQueue : List Nat
  terminatedQueue : List Nat
  pendingReclaims : List Nat
  currentThread : Option Nat
  idleThread : Nat
  freeStackOffsets : List Nat
  nextStackSlotIdx : Nat
  timerTicks : Nat
  cr3 : Nat

def userStackVirtTop : Nat := 0xC0000000
def userStackVirtBottom : Nat := 0x10000000
def userExitTrampolineVirt : Nat := 0x40000000
def userStackPages : Nat := 128

/-- `USER_STACK_PAGES * PAGE_SIZE`. -/
def userStackSize : Nat := 0x80000

/-- `UINT32_MAX` in `stackSlotIdx`. -/
def noSlot : Nat := 0xFFFFFFFF

/-- `PAGE_PRESENT | PAGE_RW | PAGE_USER`. -/
def userFlags : Nat := 7

/-- `n++` of a `uint32_t`. -/
def inc32 (n : Nat) : Nat := if n = 0xFFFFFFFF then 0 else n + 1

namespace Kernel

def withMachine (k : Kernel) (m : Machine) : Kernel := { k with machine := m }

/-- `*t = tcb`. -/
def setTcb (k : Kernel) (t : Nat) (tcb : Option Tcb) : Kernel :=
  { k with tcbs := Function.update k.tcbs t tcb }

/-- A store to fields of `*t`. -/
def modTcb (k : Kernel) (t : Nat) (f : Tcb → Tcb) : Kernel := k.setTcb t ((k.tcbs t).map f)

/-- `*p = pcb`. -/
def setPcb (k : Kernel) (p : Nat) (pcb : Option Pcb) : Kernel :=
  { k with pcbs := Function.update k.pcbs p pcb }

/-- A store to fields of `*p`. -/
def modPcb (k : Kernel) (p : Nat) (f : Pcb → Pcb) : Kernel := k.setPcb p ((k.pcbs p).map f)

/-- The answer of `new` for a TCB is usable. -/
def canNewTcb (k : Kernel) (ptr : Nat) : Bool := decide (ptr ≠ 0) && (k.tcbs ptr).isNone

/-- The answer of `new` for a PCB is usable. -/
def canNewPcb (k : Kernel) (ptr : Nat) : Bool := decide (ptr ≠ 0) && (k.pcbs ptr).isNone

/-- `kstack_alloc`. -/
def kstackAlloc (k : Kernel) : Nat × Kernel :=
  let r := Kstack.kstackAlloc k.zone
  (r.1, { k with zone := r.2 })

/-- `kstack_free`. -/
def kstackFree (k : Kernel) (stack : Nat) : Kernel := { k with zone := Kstack.kstackFree k.zone stack }

/-- `g_freeStackOffsets.Add`. -/
def recycleSlot (k : Kernel) (slot : Nat) : Kernel :=
  { k with freeStackOffsets := slot :: k.freeStackOffsets }

/-- `kstack_free(tcb->stack); delete tcb`. -/
def dropThread (k : Kernel) (t : Nat) : Kernel :=
  match k.tcbs t with
  | some tcb => (k.kstackFree tcb.stack).setTcb t none
  | none => k

end Kernel

/-! ## User stacks -/

/-- The base of a slot, as the pool scan and `FreeUserStackSlot` compute it. -/
def slotBase (slot : Nat) : Nat := sub32 userStackVirtTop ((slot + 1) * userStackSize % 2 ^ 32)

/-- A page of the slot is mapped in the directory. -/
def slotMapped (m : Machine) (directory slot : Nat) : Bool :=
  (List.range userStackPages).any fun p =>
    getPhysicalAddress m directory ((slotBase slot + p * pageSize) % 2 ^ 32) != unmapped

/-- The scan of the pool, `n` rounds left: the first slot that is not mapped, and the pool. `Add`
puts a mapped candidate back in front, so that the next round looks at it again. An unmapped
candidate `UINT32_MAX` reads as if none had been found: the scan goes on without it. -/
def scanPool (m : Machine) (directory : Nat) : Nat → List Nat → Option Nat × List Nat
  | 0, pool => (none, pool)
  | _ + 1, [] => (none, [])
  | n + 1, candidate :: pool =>
    if slotMapped m directory candidate then scanPool m directory n (candidate :: pool)
    else if candidate = noSlot then scanPool m directory n pool
    else (some candidate, pool)

/-- A slot past the ones used so far, `none` when the range of the user stacks is used up. -/
def freshSlot (next : Nat) : Option Nat :=
  let nextOffset := next * userStackSize % 2 ^ 32
  if nextOffset / userStackSize ≠ next ∨
      userStackVirtTop - userStackVirtBottom - userStackSize ≤ nextOffset then none
  else some next

/-- `AllocUserStack` up to the choice of the slot: one of the pool, else a fresh one. -/
def takeSlot (k : Kernel) (directory : Nat) : Option Nat × Kernel :=
  match scanPool k.machine directory k.freeStackOffsets.length k.freeStackOffsets,
      freshSlot k.nextStackSlotIdx with
  | (some slot, pool), _ => (some slot, { k with freeStackOffsets := pool })
  | (none, pool), none => (none, { k with freeStackOffsets := pool })
  | (none, pool), some slot =>
    (some slot, { k with freeStackOffsets := pool, nextStackSlotIdx := slot + 1 })

/-- The roll-back of a half-mapped stack: pages `q..`, `n` of them left. -/
def unwindStack (m : Machine) (directory base : Nat) : (n q : Nat) → Machine
  | 0, _ => m
  | n + 1, q =>
    let va := base + q * pageSize
    let pf := getPhysicalAddress m directory va
    if pf ≠ unmapped then
      let m := m.setEntry (frameAddr (m.entry directory (pdIdx va))) (ptIdx va) 0
      unwindStack (m.freeBlock pf) directory base n (q + 1)
    else unwindStack m directory base n (q + 1)

/-- The mapping loop of `AllocUserStack`: pages `p..`, `n` of them left. `some` is the address of
the top page, `none` a failure after its roll-back. -/
def mapStack (m : Machine) (directory base : Nat) : (n p top : Nat) → Option Nat × Machine
  | 0, _, top => (some top, m)
  | n + 1, p, top =>
    let (phys, m) := m.allocBlockLow
    if phys = 0 then (none, unwindStack m directory base p 0)
    else
      let m := m.zero phys pageSize
      let (ok, m) := mapPage m directory (base + p * pageSize) phys userFlags
      if !ok then (none, unwindStack (m.freeBlock phys) directory base p 0)
      else mapStack m directory base n (p + 1) (if p = userStackPages - 1 then phys else top)

/-- `AllocUserStack`: the base of the slot and the address of its top page. On failure the slot is
back in the pool, the kernel stack is free and the TCB is deleted. -/
def allocUserStack (k : Kernel) (t directory : Nat) : Option (Nat × Nat) × Kernel :=
  match takeSlot k directory with
  | (none, k) => (none, k.dropThread t)
  | (some slot, k) =>
    let k := k.modTcb t fun tcb => { tcb with stackSlotIdx := slot }
    let stackOffset := slot * userStackSize
    if userStackVirtTop - userStackSize < stackOffset then
      (none, (k.recycleSlot slot).dropThread t)
    else
      let base := userStackVirtTop - stackOffset - userStackSize
      if base < userStackVirtBottom then (none, (k.recycleSlot slot).dropThread t)
      else match mapStack k.machine directory base (userStackPages - 1) 1 0 with
        | (none, m) => (none, ((k.withMachine m).recycleSlot slot).dropThread t)
        | (some top, m) => (some (base, top), k.withMachine m)

/-- The loop of `FreeUserStackSlot`: pages `p..`, `n` of them left. -/
def freeStackPages (m : Machine) (directory base : Nat) : (n p : Nat) → Machine
  | 0, _ => m
  | n + 1, p =>
    let va := base + p * pageSize
    let pde := m.entry directory (pdIdx va)
    if !present pde then freeStackPages m directory base n (p + 1)
    else
      let pte := m.entry (frameAddr pde) (ptIdx va)
      if !present pte then freeStackPages m directory base n (p + 1)
      else
        let m := m.setEntry (frameAddr pde) (ptIdx va) 0
        freeStackPages (m.freeBlock (frameAddr pte)) directory base n (p + 1)

/-- `FreeUserStackSlot`. -/
def freeUserStackSlot (m : Machine) (directory slot : Nat) : Machine :=
  if slotBase slot < userStackVirtBottom then m
  else freeStackPages m directory (slotBase slot) (userStackPages - 1) 1

/-! ## Threads -/

/-- The end of `CreateThread` and of the clones: the thread becomes runnable. -/
def enqueue (k : Kernel) (p t : Nat) : Kernel :=
  let k := k.modPcb p fun pcb => { pcb with threads := pcb.threads ++ [t] }
  let k := k.modTcb t fun tcb => { tcb with state := .ready }
  { k with readyQueue := k.readyQueue ++ [t] }

/-- The registers of a new kernel thread; the address of `ThreadExit` is its return address. -/
def kernelContext (threadExit entrypoint arg : Nat) : CpuState :=
  { CpuState.zero with
    eip := entrypoint, eflags := 0x202, cs := 0x08, ds := 0x10, es := 0x10, fs := 0x10, gs := 0x10
    esp := threadExit, ss := arg }

/-- The registers of a new user thread on the stack at `base`. -/
def userContext (entrypoint base : Nat) : CpuState :=
  { CpuState.zero with
    eip := entrypoint, eflags := 0x202, cs := 0x1B, ds := 0x23, es := 0x23, fs := 0x23, gs := 0x23
    esp := base + userStackPages * pageSize - 8, ss := 0x23 }

/-- The two words at the top of a new user stack. -/
def writeStackTop (m : Machine) (topPagePhys arg : Nat) : Machine :=
  let top := topPagePhys + pageSize
  let m := { m with mem := write32 m.mem (top - 4) arg }
  { m with mem := write32 m.mem (top - 8) userExitTrampolineVirt }

/-- What every thread starts with: a TCB at `ptr` and a kernel stack. `none` when the heap or the
stack zone is exhausted. -/
def newThread (k : Kernel) (ptr : Nat) (parent : Option Nat) (pid slot : Nat) (context : CpuState) :
    Option Nat × Kernel :=
  if !k.canNewTcb ptr then (none, k)
  else
    let k' := { k with tidCounter := inc32 k.tidCounter }
    let (stack, k') := k'.kstackAlloc
    if stack = 0 then (none, k')
    else
      (some ptr, k'.setTcb ptr (some
        { tid := k.tidCounter, pid := pid, state := .new, stack := stack, context := context
          parent := parent, wakeTime := 0, stackSlotIdx := slot }))

/-- `CreateThread`; `threadExit` is the address of the C function of that name. -/
def createThread (threadExit : Nat) (k : Kernel) (ptr : Nat) (parent : Option Nat)
    (entrypoint arg : Nat) : Option Nat × Kernel :=
  match parent with
  | none => newThread k ptr none 0 noSlot (kernelContext threadExit entrypoint arg)
  | some p =>
    match k.pcbs p with
    | none => (none, k)
    | some pcb =>
      if pcb.isKernelProcess then
        match newThread k ptr parent pcb.pid noSlot (kernelContext threadExit entrypoint arg) with
        | (none, k) => (none, k)
        | (some t, k) => (some t, enqueue k p t)
      else
        match newThread k ptr parent pcb.pid noSlot CpuState.zero with
        | (none, k) => (none, k)
        | (some t, k) =>
          match allocUserStack k t pcb.pageDirectory with
          | (none, k) => (none, k)
          | (some (base, top), k) =>
            let k := k.withMachine (writeStackTop k.machine top arg)
            let k := k.modTcb t fun tcb => { tcb with context := userContext entrypoint base }
            (some t, enqueue k p t)

/-! ## Processes -/

/-- The inner loop of the page-table sweep: entries `j..` of the table, `n` of them left. -/
def sweepTable (m : Machine) (tramp table : Nat) : (n j : Nat) → Machine
  | 0, _ => m
  | n + 1, j =>
    let pte := m.entry table j
    if !present pte then sweepTable m tramp table n (j + 1)
    else
      let phys := frameAddr pte
      let m := if phys ≠ 0 ∧ phys ≠ tramp then m.freeBlock phys else m
      sweepTable (m.setEntry table j 0) tramp table n (j + 1)

/-- The outer loop of the page-table sweep: directory entries `i..`, `n` of them left. -/
def sweepTables (m : Machine) (tramp directory : Nat) : (n i : Nat) → Machine
  | 0, _ => m
  | n + 1, i =>
    if !present (m.entry directory i) then sweepTables m tramp directory n (i + 1)
    else
      let m := sweepTable m tramp (frameAddr (m.entry directory i)) 1024 0
      let m := m.freeBlock (frameAddr (m.entry directory i))
      sweepTables (m.setEntry directory i 0) tramp directory n (i + 1)

/-- The user pages, the page tables and the directory of a process are freed. -/
def freeAddressSpace (m : Machine) (tramp directory : Nat) : Machine :=
  (sweepTables m tramp directory 704 64).freeBlock directory

/-- A new `ProcessControlBlock`. -/
def newPcb (pid : Nat) (isKernel : Bool) (entrypoint pageDirectory : Nat) : Pcb :=
  { pid := pid, pageDirectory := pageDirectory, threads := [], parent := none
    isKernelProcess := isKernel, mainEntry := entrypoint, appType := 1, heap := ⟨0, 0, 0⟩
    deferredStackSlots := [] }

/-- `globalProcessList.Remove(pcb); delete pcb`. -/
def forgetProcess (k : Kernel) (p : Nat) : Kernel :=
  { k with globalProcessList := k.globalProcessList.erase p }.setPcb p none

/-- The page directory of a new process with the exit trampoline in it, and whether that worked. -/
def newUserSpace (m : Machine) (tramp : Nat) : Bool × Nat × Machine :=
  let (directory, m) := createProcessDirectory m
  let (ok, m) := mapPage m directory userExitTrampolineVirt tramp (pagePresent ||| pageUser)
  if ok then (true, directory, m)
  else (false, directory,
    if directory ≠ m.kernelPageDirectory then m.freeBlock directory else m)

/-- `CreateProcess`. `pcbPtr` and `tcbPtr` are what `new` answers; the source halts when it is
`NULL` for the PCB. -/
def createProcess (threadExit : Nat) (k : Kernel) (pcbPtr tcbPtr : Nat) (isKernel : Bool)
    (entrypoint arg : Nat) (createMainThread : Bool) : Option Nat × Kernel :=
  if !k.canNewPcb pcbPtr then (none, k)
  else
    let pid := k.pidCounter
    let k := { k with pidCounter := inc32 k.pidCounter }
    let (ok, directory, m) :=
      if isKernel then (true, k.machine.kernelPageDirectory, k.machine)
      else newUserSpace k.machine k.trampolinePhys
    let k := k.withMachine m
    if !ok then (none, k)
    else
      let k := k.setPcb pcbPtr (some (newPcb pid isKernel entrypoint directory))
      let k := { k with globalProcessList := k.globalProcessList ++ [pcbPtr] }
      if !createMainThread then (some pcbPtr, k)
      else match createThread threadExit k tcbPtr (some pcbPtr) entrypoint arg with
        | (some _, k) => (some pcbPtr, k)
        | (none, k) =>
          let k := if !isKernel ∧ directory ≠ k.machine.kernelPageDirectory then
              k.withMachine (freeAddressSpace k.machine k.trampolinePhys directory)
            else k
          (none, forgetProcess k pcbPtr)

/-! ## Clones -/

/-- `safeWriteTid`. The checks leave one page, so the loop over the pages runs once. -/
def safeWriteTid (m : Machine) (directory addr tid : Nat) : Machine :=
  let stop := (addr + 3) % 2 ^ 32
  if addr < 0x10000000 then m
  else if stop < addr ∨ 0xC0000000 ≤ stop then m
  else if pageSize - 4 < addr % pageSize then m
  else if getPhysicalAddress m directory (addr / pageSize * pageSize) = unmapped then m
  else
    let phys := getPhysicalAddress m directory addr
    if phys = unmapped then m
    else m.storeUser addr phys 4 (bytes32 tid)

/-- The writes of the TID that the clone flags ask for: to the parent's directory and to the
child's. -/
def writeTids (m : Machine) (flags parentTid childTid tid parentDir childDir : Nat) : Machine :=
  let m := if flags &&& 0x00100000 ≠ 0 ∧ parentTid ≠ 0 then
      safeWriteTid m parentDir parentTid tid else m
  if flags &&& 0x01000000 ≠ 0 ∧ childTid ≠ 0 then safeWriteTid m childDir childTid tid else m

/-- The arguments of the two clones. `parentContext` is `none` for `NULL`. -/
structure CloneArgs where
  parentContext : Option CpuState
  flags : Nat
  childStack : Nat
  parentTid : Nat
  childTid : Nat

/-- The user stack of a cloned thread: the caller's, or a new one from the slot pool. `false` when
there is none (the thread is gone then). -/
def cloneStack (k : Kernel) (t directory childStack : Nat) : Bool × Kernel :=
  if childStack ≠ 0 then
    (true, k.modTcb t fun tcb => { tcb with context := { tcb.context with esp := childStack } })
  else match allocUserStack k t directory with
    | (none, k) => (false, k)
    | (some (base, top), k) =>
      let k := k.withMachine (writeStackTop k.machine top 0)
      (true, k.modTcb t fun tcb =>
        { tcb with context := { tcb.context with esp := base + userStackPages * pageSize - 8 } })

/-- The thread that is running, with its process: the guard of both clones. -/
def cloneParent (k : Kernel) : Option (Nat × Pcb) := do
  let cur ← k.currentThread
  let tcb ← k.tcbs cur
  let p ← tcb.parent
  let pcb ← k.pcbs p
  pure (p, pcb)

/-- `CloneCurrentThread`. -/
def cloneCurrentThread (k : Kernel) (ptr : Nat) (a : CloneArgs) : Option Nat × Kernel :=
  match cloneParent k, a.parentContext with
  | some (p, pcb), some context =>
    -- Without a stack of the caller, `stackSlotIdx` is 0 until `AllocUserStack` sets it.
    let slot := if a.childStack ≠ 0 then noSlot else 0
    let tid := k.tidCounter
    match newThread k ptr (some p) pcb.pid slot { context with eax := 0 } with
    | (none, k) => (none, k)
    | (some t, k) =>
      match cloneStack k t pcb.pageDirectory a.childStack with
      | (false, k) => (none, k)
      | (true, k) =>
        let k := k.withMachine (writeTids k.machine a.flags a.parentTid a.childTid tid
          pcb.pageDirectory pcb.pageDirectory)
        (some t, enqueue k p t)
  | _, _ => (none, k)

/-- The copy of one page table of the parent: entries `pt..`, `n` of them left. -/
def copyTable (m : Machine) (childDir parentTable pd : Nat) : (n pt : Nat) → Bool × Machine
  | 0, _ => (true, m)
  | n + 1, pt =>
    let pte := m.entry parentTable pt
    if !present pte then copyTable m childDir parentTable pd n (pt + 1)
    else
      let srcPhys := frameAddr pte
      let (dstPhys, m) := m.allocBlockLow
      if dstPhys = 0 then (false, m)
      else
        let m := m.store dstPhys pageSize fun i => m.mem (srcPhys + i)
        let (ok, m) := mapPage m childDir (pd <<< 22 ||| pt <<< 12) dstPhys
          (m.entry parentTable pt % 4096)
        if ok then copyTable m childDir parentTable pd n (pt + 1)
        else (false, m.freeBlock dstPhys)

/-- The copy of the user space: directory entries `pd..`, `n` of them left. -/
def copySpace (m : Machine) (parentDir childDir : Nat) : (n pd : Nat) → Bool × Machine
  | 0, _ => (true, m)
  | n + 1, pd =>
    if !present (m.entry parentDir pd) then copySpace m parentDir childDir n (pd + 1)
    else match copyTable m childDir (frameAddr (m.entry parentDir pd)) pd 1024 0 with
      | (true, m) => copySpace m parentDir childDir n (pd + 1)
      | (false, m) => (false, m)

/-- `CloneCurrentProcess`; `pcbPtr` and `tcbPtr` are what `new` answers. -/
def cloneCurrentProcess (k : Kernel) (pcbPtr tcbPtr : Nat) (a : CloneArgs) : Option Nat × Kernel :=
  match cloneParent k, a.parentContext with
  | some (p, parent), some context =>
    if parent.isKernelProcess then (none, k)
    else if !k.canNewPcb pcbPtr then (none, k)
    else
      let pid := k.pidCounter
      let k := { k with pidCounter := inc32 k.pidCounter }
      let (directory, m) := createProcessDirectory k.machine
      let k := k.withMachine m
      if directory = 0 then (none, k)
      else match copySpace k.machine parent.pageDirectory directory 704 64 with
        | (false, m) => (none, k.withMachine (freeAddressSpace m k.trampolinePhys directory))
        | (true, m) =>
          let k := k.withMachine m
          let tid := k.tidCounter
          match newThread k tcbPtr (some pcbPtr) pid noSlot { context with eax := 0 } with
          | (none, k) =>
            (none, k.withMachine (freeAddressSpace k.machine k.trampolinePhys directory))
          | (some t, k) =>
            match cloneStack k t directory a.childStack with
            | (false, k) =>
              (none, k.withMachine (freeAddressSpace k.machine k.trampolinePhys directory))
            | (true, k) =>
              let k := k.withMachine (writeTids k.machine a.flags a.parentTid a.childTid tid
                parent.pageDirectory directory)
              let child :=
                { newPcb pid false 0 directory with
                  parent := some p, appType := parent.appType, heap := parent.heap }
              let k := enqueue (k.setPcb pcbPtr (some child)) pcbPtr t
              (some t, { k with globalProcessList := k.globalProcessList ++ [pcbPtr] })
  | _, _ => (none, k)

end Sched
end Hashx86
