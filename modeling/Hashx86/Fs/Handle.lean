import Hashx86.Lib.Splice
import Hashx86.Pmm.Defs

/-!
# Open files (`core/filesystem/File.cpp`, the streams of `FatFsWrapper.cpp`)

`Fil` is a FatFs file object of `ff.c`, seen as an array of bytes with a cursor. What the volume
does with a call is an input: `SeekAnswer`, `WriteAnswer`, and a `Bool` for `f_read`. Any call may
fail, and a call that fails may have stored or added a part of the bytes.

`File` is the handle of the kernel. Its methods are for regular files (`flags & 1` is zero); a
directory handle is refused by `Write` and read through `f_readdir`, which is not modelled.
-/

namespace Hashx86
namespace Fs

open Lib

/-! ## FatFs -/

structure Fil where
  data : List UInt8
  fptr : Nat
  faRead : Bool
  faWrite : Bool

/-- What `f_lseek` meets: whether it succeeds, and the bytes of the clusters that it could add. -/
structure SeekAnswer where
  ok : Bool
  fill : List UInt8

/-- What `f_write` meets: whether it succeeds, and how many bytes there is room for. -/
structure WriteAnswer where
  ok : Bool
  room : Nat

/-- `f_lseek`: past the end, a file that is open for writing grows up to `ofs`, or as far as there
is room; otherwise `ofs` is clipped. -/
def fLseek (f : Fil) (ofs : Nat) (a : SeekAnswer) : Bool × Fil :=
  if f.data.length < ofs ∧ f.faWrite then
    let data := f.data ++ a.fill.take (ofs - f.data.length)
    (a.ok, { f with data := data, fptr := data.length })
  else (a.ok, { f with fptr := min ofs f.data.length })

/-- `f_read`: whether it succeeds, and the bytes. -/
def fRead (f : Fil) (btr : Nat) (ok : Bool) : Bool × List UInt8 × Fil :=
  if !f.faRead then (false, [], f)
  else if !ok then (false, [], f)
  else
    let bytes := (f.data.drop f.fptr).take btr
    (true, bytes, { f with fptr := f.fptr + bytes.length })

/-- The bytes that `f_write` stores: as many as fit on the volume and below 4 GiB. -/
def stored (fptr btw : Nat) (a : WriteAnswer) : Nat :=
  min a.room (if 2 ^ 32 ≤ fptr + btw then 0xFFFFFFFF - fptr else btw)

/-- `f_write`: whether it succeeds, and the number of bytes stored. -/
def fWrite (f : Fil) (src : Nat → UInt8) (btw : Nat) (a : WriteAnswer) : Bool × Nat × Fil :=
  if !f.faWrite then (false, 0, f)
  else
    let bw := stored f.fptr btw a
    (a.ok, bw, { f with
      data := splice f.data f.fptr ((List.range bw).map src), fptr := f.fptr + bw })

/-! ## Handles -/

def oRdonly : Nat := 0
def oWronly : Nat := 1
def oRdwr : Nat := 2
def oAppend : Nat := 0x400
def oAccmode : Nat := 3

/-- A `File` with the stream of its slot. -/
structure File where
  size : Nat
  flags : Nat
  openFlags : Nat
  position : Nat
  filesystem : Nat
  fil : Fil

namespace File

/-- `IsWritable`. -/
def isWritable (f : File) : Bool :=
  f.openFlags &&& oAccmode = oWronly || f.openFlags &&& oAccmode = oRdwr

/-- `IsReadable`. -/
def isReadable (f : File) : Bool :=
  f.openFlags &&& oAccmode = oRdonly || f.openFlags &&& oAccmode = oRdwr

/-- `openFlags & O_APPEND`. -/
def isAppend (f : File) : Bool := f.openFlags &&& oAppend ≠ 0

end File

/-- The end of `OpenWithFlags` for a regular file with the bytes `data`. -/
def openFile (filesystem flags : Nat) (data : List UInt8) : File :=
  let acc := flags &&& oAccmode
  { size := data.length, flags := 0, openFlags := flags, position := 0, filesystem := filesystem
    fil := { data := data, fptr := 0, faRead := acc ≠ oWronly
             faWrite := acc = oWronly || acc = oRdwr } }

/-- `ReadStream` of a regular file: the bytes that it read. -/
def readStream (f : File) (length : Nat) (seek : SeekAnswer) (ok : Bool) : List UInt8 × Fil :=
  if length = 0 then ([], f.fil)
  else
    let (found, fil) := fLseek f.fil f.position seek
    if !found then ([], fil)
    else
      let (done, bytes, fil) := fRead fil length ok
      if !done then ([], fil) else (bytes, fil)

/-- `WriteStream` of a regular file: the number of bytes written. -/
def writeStream (f : File) (src : Nat → UInt8) (length : Nat) (seek : SeekAnswer)
    (ans : WriteAnswer) : Nat × Fil :=
  if length = 0 then (0, f.fil)
  else
    let target := if f.isAppend then f.fil.data.length else f.position
    let (found, fil) := fLseek f.fil target seek
    if !found then (0, fil)
    else
      let (done, bw, fil) := fWrite fil src length ans
      if !done then (0, fil) else (bw, fil)

namespace File

/-- `File::Read`: the result, the bytes in the buffer and the handle. -/
def read (f : File) (buffer length : Nat) (seek : SeekAnswer) (ok : Bool) :
    Int × List UInt8 × File :=
  if f.filesystem = 0 ∨ buffer = 0 ∨ length = 0 then (0, [], f)
  else if !f.isReadable then (0, [], f)
  else if f.size ≤ f.position then (0, [], f)
  else
    let length := if f.size < (f.position + length) % 2 ^ 32 then f.size - f.position else length
    let (bytes, fil) := readStream f length seek ok
    (toInt32 bytes.length, bytes,
      { f with fil := fil, position := (f.position + bytes.length) % 2 ^ 32 })

/-- `File::Seek`. -/
def seek (f : File) (pos : Nat) : File :=
  { f with position := if !f.isWritable ∧ f.size < pos then f.size else pos }

/-- `File::Write`. -/
def write (f : File) (buffer : Nat) (src : Nat → UInt8) (length : Nat) (seek : SeekAnswer)
    (ans : WriteAnswer) : Int × File :=
  if f.filesystem = 0 ∨ buffer = 0 then (-1, f)
  else if length = 0 then (0, f)
  else if !f.isWritable then (-1, f)
  else if f.flags % 2 = 1 then (-1, f)
  else
    let start := if f.isAppend then f.size else f.position
    let (written, fil) := writeStream f src length seek ans
    if written = 0 then (-1, { f with fil := fil })
    else
      let position := (start + written) % 2 ^ 32
      (toInt32 written, { f with
        fil := fil, position := position, size := if f.size < position then position else f.size })

/-- The new position that `sys_lseek` computes, `none` when it is refused. -/
def lseekTarget (f : File) (offset : Int) (whence : Int) : Option Nat :=
  let base : Option Int :=
    if whence = 0 then some 0 else if whence = 1 then some f.position
    else if whence = 2 then some f.size else none
  match base with
  | none => none
  | some base => if base + offset < 0 ∨ 0x7FFFFFFF < base + offset then none
    else some (base + offset).toNat

/-- `Handle_sys_lseek` on an open file. -/
def lseek (f : File) (offset : Int) (whence : Int) : Int × File :=
  match f.lseekTarget offset whence with
  | none => (-1, f)
  | some newPos => ((newPos : Int), f.seek newPos)

end File

end Fs
end Hashx86
