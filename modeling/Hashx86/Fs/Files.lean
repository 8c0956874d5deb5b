import Hashx86.Fs.Handle

/-!
# Open files (`FatFsWrapper.cpp`, `File.cpp`, `Handle_sys_open` and `Handle_sys_close`)

`Files` has the slots of the `SlotManager`, the `File` objects on the heap and the descriptor tables
of the processes. A `File` pointer is a number; `ptr` of `OpenArgs` is what `new File()` answers,
where `0`, or the address of an object that still exists, stands for `NULL`. What FatFs answers is
an input too.
-/

namespace Hashx86
namespace Fs

/-- `MAX_OPEN_FILES`. -/
def maxOpenFiles : Nat := 32

def fdMin : Nat := 3
def fdMax : Nat := 128

def oCreat : Nat := 0x40
def oExcl : Nat := 0x80
def oTrunc : Nat := 0x200

/-- A `FatFsSlot` in use. -/
structure Slot where
  file : Option Nat
  isDir : Bool

structure Files where
  /-- The slots of the `SlotManager`; `none` is one that is not `used`. -/
  slots : Nat → Option Slot
  /-- The `File` objects: whether `filesystem` is set. -/
  heap : Nat → Option Bool
  /-- `fdTable` of the process at an address. -/
  fdTable : Nat → Nat → Option Nat

namespace Files

def empty : Files := { slots := fun _ => none, heap := fun _ => none, fdTable := fun _ _ => none }

def setSlot (f : Files) (i : Nat) (s : Option Slot) : Files :=
  { f with slots := Function.update f.slots i s }

def setFile (f : Files) (ptr : Nat) (file : Option Bool) : Files :=
  { f with heap := Function.update f.heap ptr file }

def setFd (f : Files) (p fd : Nat) (ptr : Option Nat) : Files :=
  { f with fdTable := Function.update f.fdTable p (Function.update (f.fdTable p) fd ptr) }

/-- The answer of `new File()` is usable. -/
def canNewFile (f : Files) (ptr : Nat) : Bool := decide (ptr ≠ 0) && (f.heap ptr).isNone

/-- The slot that `SlotManager::alloc` claims. -/
def alloc (f : Files) : Option Nat :=
  (List.range maxOpenFiles).find? fun i => (f.slots i).isNone

/-- `SlotManager::find`. -/
def find (f : Files) (ptr : Nat) : Option Nat :=
  (List.range maxOpenFiles).find? fun i => (f.slots i).map Slot.file = some (some ptr)

/-- `FatFsWrapper::CloseFile`. -/
def closeFile (f : Files) (ptr : Nat) : Files :=
  match f.find ptr with
  | none => f
  | some i => f.setSlot i none

/-- `File::Close`. -/
def close (f : Files) (ptr : Nat) : Files :=
  if f.heap ptr = some true then (f.closeFile ptr).setFile ptr (some false) else f

/-- `delete file`. -/
def delete (f : Files) (ptr : Nat) : Files := (f.close ptr).setFile ptr none

end Files

/-! ## `OpenWithFlags` -/

/-- A path to open, and what FatFs and the heap answer. -/
structure OpenArgs where
  /-- `PathToFatFs` fits. -/
  fits : Bool
  /-- Only the drive prefix is left of the path. -/
  isRoot : Bool
  /-- `f_stat`: `none` when it fails, else whether it is a directory. -/
  stat : Option Bool
  /-- `f_open` or `f_opendir` succeeds. -/
  opened : Bool
  ptr : Nat

/-- A directory handle: the slot comes first, then the object. -/
def openDir (f : Files) (a : OpenArgs) : Option Nat × Files :=
  if !a.opened then (none, f)
  else match f.alloc with
    | none => (none, f)
    | some i =>
      let f := f.setSlot i (some { file := none, isDir := true })
      if !f.canNewFile a.ptr then (none, f.setSlot i none)
      else (some a.ptr,
        (f.setFile a.ptr (some true)).setSlot i (some { file := some a.ptr, isDir := true }))

/-- A regular file: the object comes first, then the slot. -/
def openRegular (f : Files) (a : OpenArgs) : Option Nat × Files :=
  if !a.opened then (none, f)
  else if !f.canNewFile a.ptr then (none, f)
  else
    let f := f.setFile a.ptr (some false)
    match f.alloc with
    | none => (none, f.delete a.ptr)
    | some i =>
      (some a.ptr,
        (f.setSlot i (some { file := some a.ptr, isDir := false })).setFile a.ptr (some true))

/-- `FatFsWrapper::OpenWithFlags`. -/
def openWithFlags (f : Files) (flags : Nat) (a : OpenArgs) : Option Nat × Files :=
  let acc := if flags &&& oAccmode ≠ oRdonly ∧ flags &&& oAccmode ≠ oWronly ∧
    flags &&& oAccmode ≠ oRdwr then oRdonly else flags &&& oAccmode
  if flags &&& oTrunc ≠ 0 ∧ acc = oRdonly then (none, f)
  else if flags &&& oExcl ≠ 0 ∧ flags &&& oCreat = 0 then (none, f)
  else if !a.fits then (none, f)
  else if a.isRoot then openDir f a
  else match a.stat with
    | none => if flags &&& oCreat = 0 then (none, f) else openRegular f a
    | some true => openDir f a
    | some false => openRegular f a

/-! ## Descriptors -/

/-- `AllocateFd`. -/
def allocateFd (f : Files) (p : Option Nat) (ptr : Nat) : Int × Files :=
  match p with
  | none => (-1, f)
  | some p =>
    match (List.range' fdMin (fdMax - fdMin)).find? fun fd => (f.fdTable p fd).isNone with
    | none => (-1, f)
    | some fd => ((fd : Int), f.setFd p fd (some ptr))

/-- `GetFileByFd`. -/
def getFileByFd (f : Files) (p : Option Nat) (fd : Nat) : Option Nat :=
  match p with
  | none => none
  | some p => if fd < fdMin ∨ fdMax ≤ fd then none else f.fdTable p fd

/-- `ReleaseFd`. -/
def releaseFd (f : Files) (p : Option Nat) (fd : Nat) : Files :=
  match p with
  | none => f
  | some p => if fd < fdMin ∨ fdMax ≤ fd then f else f.setFd p fd none

/-- `Handle_sys_open`. `copied` says that the path is not null and `CopyUserString` reads it, `mounted`
that there is a volume. -/
def sysOpen (f : Files) (process : Option Nat) (flags : Int) (copied mounted : Bool) (a : OpenArgs) :
    Int × Files :=
  let openFlags := flags.toNat
  let acc := openFlags &&& oAccmode
  if flags < 0 then (-1, f)
  else if acc ≠ oRdonly ∧ acc ≠ oWronly ∧ acc ≠ oRdwr then (-1, f)
  else if !copied then (-1, f)
  else if !mounted then (-1, f)
  else match openWithFlags f openFlags a with
    | (none, f) => (-1, f)
    | (some file, f) =>
      let (fd, f) := allocateFd f process file
      if fd < 0 then (-1, (f.close file).delete file) else (fd, f)

/-- `Handle_sys_close`. -/
def sysClose (f : Files) (process : Option Nat) (fd : Nat) : Int × Files :=
  if fd ≤ 2 then (0, f)
  else match getFileByFd f process fd with
    | none => (-1, f)
    | some file => (0, releaseFd ((f.close file).delete file) process fd)

end Fs
end Hashx86
