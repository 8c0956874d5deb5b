import Hashx86.Fs.Handle
import Hashx86.Lib.Run

/-!
# A handle is a cursor over the bytes of its file

`Right f op` is what a call should do: `Read` returns the bytes at the position, `Write` stores its
bytes there (at the end for `O_APPEND`), a call that fails leaves the position alone, the result of
`sys_lseek` is the new position, and the cached size is the size of the stream after every call.

The code does that exactly when `StepOk` holds (`right_iff`): a handle that is not writable is not
sent past the end by `sys_lseek`, and a `Write` that fails has not made the file longer.
`cursor_run` is the result for whole runs; `drift_on_seek_and_write` shows both ways to fail.
-/

namespace Hashx86
namespace Fs

open Lib

/-! ## What the calls should do -/

inductive Op where
  | read (buffer length : UInt32) (seek : SeekAnswer) (ok : Bool)
  | write (buffer : UInt32) (src : Nat → UInt8) (length : UInt32) (seek : SeekAnswer)
      (ans : WriteAnswer)
  | seek (pos : UInt32)
  | lseek (offset whence : Int)

/-- The handle after a call. -/
def fstep (f : File) : Op → File
  | .read buffer length seek ok => (f.read buffer.toNat length.toNat seek ok).2.2
  | .write buffer src length seek ans => (f.write buffer.toNat src length.toNat seek ans).2
  | .seek pos => f.seek pos.toNat
  | .lseek offset whence => (f.lseek offset whence).2

namespace File

/-- The cached size is the size of the stream. -/
def Synced (f : File) : Prop := f.size = f.fil.data.length

/-- The bytes that `Read` should return. -/
def expected (f : File) (buffer length : Nat) (seek : SeekAnswer) (ok : Bool) : List UInt8 :=
  if f.isReadable ∧ buffer ≠ 0 ∧ seek.ok ∧ ok then (f.fil.data.drop f.position).take length else []

/-- Where the next `Write` stores its bytes. -/
def start (f : File) : Nat := if f.isAppend then f.size else f.position

/-- The bytes that `f_lseek` adds on the way to the start. -/
def added (f : File) (seek : SeekAnswer) : Nat := min (f.start - f.size) seek.fill.length

/-- Where `f_lseek` leaves the cursor of the stream. -/
def cursor (f : File) (seek : SeekAnswer) : Nat := min f.start (f.size + f.added seek)

/-- The `Write` reaches FatFs. -/
def Accepts (f : File) (buffer length : Nat) : Prop := f.isWritable ∧ buffer ≠ 0 ∧ length ≠ 0

/-- FatFs carries the `Write` out. -/
def Stores (f : File) (length : Nat) (seek : SeekAnswer) (ans : WriteAnswer) : Prop :=
  seek.ok ∧ ans.ok ∧ 0 < stored (f.cursor seek) length ans

/-- `n` bytes of `src` are stored at the start of `f`, and the rest of the file is as it was. -/
structure Written (f f' : File) (src : Nat → UInt8) (n : Nat) : Prop where
  position : f'.position = f.start + n
  length : f'.fil.data.length = max f.fil.data.length (f.start + n)
  new : ∀ i, i < n → f'.fil.data[f.start + i]? = some (src i)
  old : ∀ j, j < f.fil.data.length → j < f.start ∨ f.start + n ≤ j →
    f'.fil.data[j]? = f.fil.data[j]?

end File

/-- `f'` has the bytes and the position of `f`. -/
def Unmoved (f f' : File) : Prop := f'.position = f.position ∧ f'.fil.data = f.fil.data

open Classical in
/-- A call does what it should. -/
def Right (f : File) : Op → Prop
  | .read buffer length seek ok =>
    let r := f.read buffer.toNat length.toNat seek ok
    r.2.2.Synced ∧ r.2.2.fil.data = f.fil.data ∧ r.1 = toInt32 r.2.1.length ∧
      r.2.2.position = f.position + r.2.1.length ∧
      r.2.1 = f.expected buffer.toNat length.toNat seek ok
  | .write buffer src length seek ans =>
    let r := f.write buffer.toNat src length.toNat seek ans
    r.2.Synced ∧
      if f.Accepts buffer.toNat length.toNat ∧ f.Stores length.toNat seek ans then
        ∃ n, 0 < n ∧ n ≤ length.toNat ∧ r.1 = toInt32 n ∧ f.Written r.2 src n
      else r.2.position = f.position ∧
        r.1 = if buffer.toNat ≠ 0 ∧ length.toNat = 0 then 0 else -1
  | .seek pos => (f.seek pos.toNat).Synced ∧ (f.seek pos.toNat).fil.data = f.fil.data
  | .lseek offset whence =>
    let r := f.lseek offset whence
    r.2.Synced ∧ r.2.fil.data = f.fil.data ∧ (0 ≤ r.1 → r.1 = r.2.position) ∧
      (r.1 < 0 → r.2.position = f.position)

/-- The condition on a call. -/
def StepOk (f : File) : Op → Prop
  | .read .. => True
  | .write buffer _ length seek ans => f.Accepts buffer.toNat length.toNat →
      (f.Stores length.toNat seek ans → f.cursor seek = f.start) ∧
      (¬ f.Stores length.toNat seek ans →
        f.added seek = 0 ∧ (seek.ok → f.cursor seek + stored (f.cursor seek) length.toNat ans ≤ f.size))
  | .seek _ => True
  | .lseek offset whence => f.isWritable ∨ ∀ t ∈ f.lseekTarget offset whence, t ≤ f.size

/-! ## The invariant -/

structure Inv (f : File) : Prop where
  synced : f.Synced
  size_lt : f.size < 2 ^ 32
  position_lt : f.position < 2 ^ 32
  regular : f.flags = 0
  bound : f.filesystem ≠ 0
  canRead : f.isReadable = true → f.fil.faRead = true
  canWrite : f.fil.faWrite = f.isWritable

theorem inv_openFile {filesystem flags : Nat} {data : List UInt8} (hf : filesystem ≠ 0)
    (hd : data.length < 2 ^ 32) : Inv (openFile filesystem flags data) where
  synced := rfl
  size_lt := hd
  position_lt := Nat.two_pow_pos 32
  regular := rfl
  bound := hf
  canRead h := by
    have hacc : ∀ acc : Nat, acc = oRdonly ∨ acc = oRdwr → decide (acc ≠ oWronly) = true := by
      rintro acc (rfl | rfl) <;> decide
    refine hacc (flags &&& oAccmode) ?_
    unfold File.isReadable at h
    rwa [Bool.or_eq_true, decide_eq_true_eq, decide_eq_true_eq] at h
  canWrite := rfl

/-! ## The streams -/

theorem fLseek_inside {f : Fil} {ofs : Nat} (a : SeekAnswer) (h : ofs ≤ f.data.length) :
    fLseek f ofs a = (a.ok, { f with fptr := ofs }) := by
  unfold fLseek
  rw [if_neg (by omega), Nat.min_eq_left h]

/-- `f_lseek` on a file that is open for writing. -/
theorem fLseek_writable {f : Fil} (ofs : Nat) (a : SeekAnswer) (h : f.faWrite = true) :
    fLseek f ofs a = (a.ok, { f with
      data := f.data ++ a.fill.take (ofs - f.data.length)
      fptr := min ofs (f.data.length + min (ofs - f.data.length) a.fill.length) }) := by
  by_cases hin : ofs ≤ f.data.length
  · rw [fLseek_inside a hin]
    have h0 : ofs - f.data.length = 0 := by omega
    have hmin : min ofs (f.data.length + min 0 a.fill.length) = ofs := by omega
    rw [h0, List.take_zero, List.append_nil, hmin]
  · unfold fLseek
    rw [if_pos ⟨by omega, h⟩]
    have hmin : min ofs (f.data.length + min (ofs - f.data.length) a.fill.length) =
        (f.data ++ a.fill.take (ofs - f.data.length)).length := by
      rw [List.length_append, List.length_take]
      omega
    rw [hmin]

theorem stored_le (fptr btw : Nat) (a : WriteAnswer) : stored fptr btw a ≤ btw := by
  unfold stored
  split <;> omega

theorem add_stored_lt {fptr : Nat} (btw : Nat) (a : WriteAnswer) (h : fptr < 2 ^ 32) :
    fptr + stored fptr btw a < 2 ^ 32 := by
  unfold stored
  split <;> omega

/-- The bytes of the stream after `f_lseek` on the way to a `Write`. -/
def grown (f : File) (seek : SeekAnswer) : List UInt8 :=
  f.fil.data ++ seek.fill.take (f.start - f.size)

section Write

variable {f : File} {buffer length : Nat} {src : Nat → UInt8} {seek : SeekAnswer}
  {ans : WriteAnswer}

theorem length_grown (h : Inv f) (seek : SeekAnswer) :
    (grown f seek).length = f.size + f.added seek := by
  unfold grown File.added
  rw [List.length_append, List.length_take, ← h.synced]

theorem cursor_le_grown (h : Inv f) (seek : SeekAnswer) :
    f.cursor seek ≤ (grown f seek).length := by
  rw [length_grown h]
  exact Nat.min_le_right _ _

/-- `WriteStream` of a write that reaches FatFs. -/
theorem writeStream_eq (h : Inv f) (ha : f.Accepts buffer length) :
    writeStream f src length seek ans =
      if !seek.ok then (0, { f.fil with data := grown f seek, fptr := f.cursor seek })
      else
        let bw := stored (f.cursor seek) length ans
        (if !ans.ok then 0 else bw, { f.fil with
          data := splice (grown f seek) (f.cursor seek) ((List.range bw).map src)
          fptr := f.cursor seek + bw }) := by
  have hw : f.fil.faWrite = true := h.canWrite.trans ha.1
  have htarget : (if f.isAppend then f.fil.data.length else f.position) = f.start := by
    unfold File.start
    rw [h.synced]
  unfold writeStream
  dsimp only
  rw [if_neg ha.2.2, htarget, fLseek_writable _ _ hw, ← h.synced]
  dsimp only
  split
  · rfl
  · unfold fWrite
    simp only [hw, Bool.not_true, Bool.false_eq_true, if_false]
    split <;> rfl

theorem write_of_accepts (h : Inv f) (ha : f.Accepts buffer length) :
    f.write buffer src length seek ans =
      let (written, fil) := writeStream f src length seek ans
      if written = 0 then (-1, { f with fil := fil })
      else
        let position := (f.start + written) % 2 ^ 32
        (toInt32 written, { f with
          fil := fil, position := position
          size := if f.size < position then position else f.size }) := by
  unfold File.write
  have hb : ¬ (f.filesystem = 0 ∨ buffer = 0) := not_or.mpr ⟨h.bound, ha.2.1⟩
  have hd : ¬ f.flags % 2 = 1 := by rw [h.regular]; decide
  simp only [if_neg hb, if_neg ha.2.2, if_neg hd, ha.1, Bool.not_true, Bool.false_eq_true, if_false]
  rfl

theorem write_of_stores (h : Inv f) (ha : f.Accepts buffer length)
    (hs : f.Stores length seek ans) :
    f.write buffer src length seek ans =
      let bw := stored (f.cursor seek) length ans
      (toInt32 bw, { f with
        fil := { f.fil with
          data := splice (grown f seek) (f.cursor seek) ((List.range bw).map src)
          fptr := f.cursor seek + bw }
        position := (f.start + bw) % 2 ^ 32
        size := if f.size < (f.start + bw) % 2 ^ 32 then (f.start + bw) % 2 ^ 32 else f.size }) := by
  obtain ⟨hseek, hans, hpos⟩ := hs
  rw [write_of_accepts h ha, writeStream_eq h ha]
  simp only [hseek, hans, Bool.not_true, Bool.false_eq_true, if_false]
  rw [if_neg (by omega)]

theorem write_of_not_stores (src : Nat → UInt8) (h : Inv f) (ha : f.Accepts buffer length)
    (hs : ¬ f.Stores length seek ans) :
    ∃ fil, f.write buffer src length seek ans = (-1, { f with fil := fil }) ∧
      fil.data.length = (if seek.ok then
        max (f.size + f.added seek) (f.cursor seek + stored (f.cursor seek) length ans)
        else f.size + f.added seek) ∧
      fil.faRead = f.fil.faRead ∧ fil.faWrite = f.fil.faWrite := by
  rw [write_of_accepts h ha, writeStream_eq h ha]
  by_cases hseek : seek.ok = true
  · have hfail : (if !ans.ok then 0 else stored (f.cursor seek) length ans) = 0 := by
      unfold File.Stores at hs
      split
      · rfl
      · rename_i hans
        by_contra hpos
        exact hs ⟨hseek, by simpa using hans, by omega⟩
    simp only [hseek, Bool.not_true, Bool.false_eq_true, if_false, if_true, hfail]
    refine ⟨_, rfl, ?_, rfl, rfl⟩
    rw [ length_splice _ (cursor_le_grown h seek), length_grown h, List.length_map,
      List.length_range]
  · have hseek : seek.ok = false := by simpa using hseek
    simp only [hseek, Bool.not_false, Bool.false_eq_true, if_false, if_true]
    refine ⟨_, rfl, ?_, rfl, rfl⟩
    exact length_grown h seek

/-- A write that does not reach FatFs. -/
theorem write_refused (h : Inv f) (ha : ¬ f.Accepts buffer length) :
    f.write buffer src length seek ans = (if buffer ≠ 0 ∧ length = 0 then 0 else -1, f) := by
  unfold File.write
  have hb := h.bound
  by_cases h0 : buffer = 0
  · rw [if_pos (.inr h0), if_neg (fun h => h.1 h0)]
  · rw [if_neg (by omega)]
    by_cases hl : length = 0
    · rw [if_pos hl, if_pos ⟨h0, hl⟩]
    · have hw : ¬ f.isWritable = true := fun hw => ha ⟨hw, h0, hl⟩
      rw [if_neg hl, if_pos (by simpa using hw), if_neg (fun h => hl h.2)]

theorem toInt32_inj {a b : Nat} (ha : a < 2 ^ 32) (hb : b < 2 ^ 32)
    (h : toInt32 a = toInt32 b) : a = b := by
  unfold toInt32 at h
  rw [Nat.mod_eq_of_lt ha, Nat.mod_eq_of_lt hb] at h
  split at h <;> split at h <;> omega

/-- The bytes are stored at the start only where the cursor of the stream reached it. -/
theorem cursor_of_written (h : Inv f) (ha : f.Accepts buffer length) (hl : length < 2 ^ 32)
    (hs : f.Stores length seek ans) {n : Nat} (hn : n ≤ length)
    (hret : (f.write buffer src length seek ans).1 = toInt32 n)
    (hw : f.Written (f.write buffer src length seek ans).2 src n) : f.cursor seek = f.start := by
  have hlen := hw.length
  have hle := stored_le (f.cursor seek) length ans
  have hsync := h.synced
  rw [write_of_stores h ha hs] at hret hlen
  dsimp only at hret hlen
  have hbw := toInt32_inj (by omega) (by omega) hret
  rw [length_splice _ (cursor_le_grown h seek), length_grown h, List.length_map, List.length_range,
    hbw, ← hsync] at hlen
  have := hs.2.2
  unfold File.cursor File.added at *
  omega

theorem start_lt (h : Inv f) : f.start < 2 ^ 32 := by
  have := h.size_lt
  have := h.position_lt
  unfold File.start
  split <;> omega

/-- The bytes that a `Write` stores, where the cursor of the stream reached its start. -/
theorem written_of_stores (src : Nat → UInt8) (h : Inv f) (ha : f.Accepts buffer length)
    (hs : f.Stores length seek ans) (hc : f.cursor seek = f.start) :
    f.Written (f.write buffer src length seek ans).2 src (stored f.start length ans) := by
  have hlt := add_stored_lt length ans (start_lt h)
  have hgrown := length_grown h seek
  have hle := cursor_le_grown h seek
  have hsync := h.synced
  rw [hc] at hle
  rw [write_of_stores h ha hs]
  dsimp only
  rw [hc]
  generalize stored f.start length ans = bw at hlt
  have hbytes : ((List.range bw).map src).length = bw := by
    rw [List.length_map, List.length_range]
  have hstart : f.size ≤ f.start → f.size + f.added seek = f.start := fun hs => by
    unfold File.cursor at hc
    unfold File.added at hc ⊢
    omega
  have hadded : f.start ≤ f.size → f.added seek = 0 := fun hs => by
    unfold File.added
    omega
  refine ⟨Nat.mod_eq_of_lt hlt, ?_, fun i hi => ?_, fun j hj hout => ?_⟩
  · dsimp only
    rw [length_splice _ hle, hgrown, hbytes, ← hsync]
    omega
  · dsimp only
    rw [getElem?_splice_in hle (by omega), List.getElem?_map, List.getElem?_range hi]
    rfl
  · dsimp only
    rw [getElem?_splice_out hle (by omega)]
    exact List.getElem?_append_left hj

/-- The handle after a `Write` that stores. -/
theorem inv_of_stores (h : Inv f) (ha : f.Accepts buffer length)
    (hs : f.Stores length seek ans) (hc : f.cursor seek = f.start) :
    Inv (f.write buffer src length seek ans).2 := by
  have hw := written_of_stores src h ha hs hc
  have hlt := add_stored_lt length ans (start_lt h)
  have hlen := hw.length
  have hsync := h.synced
  have hsize := h.size_lt
  rw [write_of_stores h ha hs] at hlen ⊢
  dsimp only at hlen ⊢
  rw [hc] at hlen
  rw [hc, Nat.mod_eq_of_lt hlt]
  refine ⟨?_, ?_, hlt, h.regular, h.bound, h.canRead, h.canWrite⟩
  · refine Eq.trans ?_ hlen.symm
    rw [← hsync]
    dsimp only
    split <;> omega
  · dsimp only
    split <;> omega

end Write

/-! ## Reads -/

theorem expected_length_le (f : File) (buffer length : Nat) (seek : SeekAnswer) (ok : Bool) :
    (f.expected buffer length seek ok).length ≤ f.fil.data.length - f.position := by
  unfold File.expected
  split
  · rw [List.length_take, List.length_drop]
    exact Nat.min_le_right _ _
  · exact Nat.zero_le _

theorem readStream_eq {f : File} (h : Inv f) (hr : f.isReadable = true) (hp : f.position ≤ f.size)
    {length : Nat} (hl : length ≠ 0) (seek : SeekAnswer) (ok : Bool) :
    ∃ p, readStream f length seek ok =
      (if seek.ok ∧ ok then (f.fil.data.drop f.position).take length else [],
        { f.fil with fptr := p }) := by
  have hin : f.position ≤ f.fil.data.length := h.synced ▸ hp
  unfold readStream
  rw [if_neg hl, fLseek_inside seek hin]
  dsimp only
  unfold fRead
  simp only [h.canRead hr, Bool.not_true, Bool.false_eq_true, if_false]
  rcases seek.ok with _ | _ <;> rcases ok with _ | _ <;> exact ⟨_, rfl⟩

theorem read_eq {f : File} (h : Inv f) (buffer length : Nat) (seek : SeekAnswer) (ok : Bool) :
    ∃ p, f.read buffer length seek ok =
      (toInt32 (f.expected buffer length seek ok).length, f.expected buffer length seek ok,
        { f with
          fil := { f.fil with fptr := p }
          position := f.position + (f.expected buffer length seek ok).length }) := by
  have hsync := h.synced
  unfold File.Synced at hsync
  have hnone : f.expected buffer length seek ok = [] → (0, [], f) =
      (toInt32 (f.expected buffer length seek ok).length, f.expected buffer length seek ok,
        { f with
          fil := { f.fil with fptr := f.fil.fptr }
          position := f.position + (f.expected buffer length seek ok).length }) := fun he => by
    rw [he]
    rfl
  unfold File.read
  by_cases h0 : f.filesystem = 0 ∨ buffer = 0 ∨ length = 0
  · rw [if_pos h0]
    refine ⟨f.fil.fptr, hnone ?_⟩
    unfold File.expected
    rcases h0 with h0 | h0 | h0
    · exact absurd h0 h.bound
    · exact if_neg fun hc => hc.2.1 h0
    · rw [h0, List.take_zero]
      split <;> rfl
  rw [if_neg h0]
  by_cases hr : f.isReadable = true
  · by_cases hp : f.size ≤ f.position
    · simp only [hr, Bool.not_true, Bool.false_eq_true, if_false, if_pos hp]
      refine ⟨f.fil.fptr, hnone ?_⟩
      unfold File.expected
      rw [List.drop_eq_nil_of_le (by omega), List.take_nil]
      split <;> rfl
    simp only [hr, Bool.not_true, Bool.false_eq_true, if_false, if_neg hp]
    have hlen : (if f.size < (f.position + length) % 2 ^ 32 then f.size - f.position
        else length) ≠ 0 := by
      split <;> omega
    have htake : (f.fil.data.drop f.position).take
        (if f.size < (f.position + length) % 2 ^ 32 then f.size - f.position else length) =
        (f.fil.data.drop f.position).take length := by
      split
      · have hmod := Nat.mod_le (f.position + length) (2 ^ 32)
        rw [List.take_of_length_le (by rw [List.length_drop]; omega),
          List.take_of_length_le (by rw [List.length_drop]; omega)]
      · rfl
    obtain ⟨p, hs⟩ := readStream_eq h hr (by omega) hlen seek ok
    rw [htake] at hs
    have he : f.expected buffer length seek ok =
        if seek.ok ∧ ok then (f.fil.data.drop f.position).take length else [] := by
      unfold File.expected
      have hb : buffer ≠ 0 := fun hb => h0 (.inr (.inl hb))
      simp only [hr, hb, ne_eq, not_false_eq_true, true_and]
    rw [hs, ← he]
    have hfit : f.position + (f.expected buffer length seek ok).length < 2 ^ 32 := by
      have := expected_length_le f buffer length seek ok
      have := h.size_lt
      omega
    dsimp only
    rw [Nat.mod_eq_of_lt hfit]
    exact ⟨p, rfl⟩
  · have hr : f.isReadable = false := by simpa using hr
    simp only [hr, Bool.not_false, if_true]
    refine ⟨f.fil.fptr, hnone ?_⟩
    exact if_neg fun hc => by rw [hr] at hc; exact absurd hc.1 Bool.false_ne_true

theorem inv_read {f : File} (h : Inv f) (buffer length : Nat) (seek : SeekAnswer) (ok : Bool) :
    Inv (f.read buffer length seek ok).2.2 := by
  obtain ⟨p, hread⟩ := read_eq h buffer length seek ok
  have hlen := expected_length_le f buffer length seek ok
  have hsync := h.synced
  have hsize := h.size_lt
  have hpos := h.position_lt
  unfold File.Synced at hsync
  rw [hread]
  refine ⟨h.synced, h.size_lt, ?_, h.regular, h.bound, h.canRead, h.canWrite⟩
  dsimp only
  omega

/-! ## Every call -/

theorem right_read {f : File} (h : Inv f) (buffer length : UInt32) (seek : SeekAnswer)
    (ok : Bool) : Right f (.read buffer length seek ok) := by
  obtain ⟨p, hread⟩ := read_eq h buffer.toNat length.toNat seek ok
  dsimp only [Right]
  rw [hread]
  exact ⟨h.synced, rfl, rfl, rfl, rfl⟩

theorem right_write_iff {f : File} (h : Inv f) (buffer : UInt32) (src : Nat → UInt8)
    (length : UInt32) (seek : SeekAnswer) (ans : WriteAnswer) :
    Right f (.write buffer src length seek ans) ↔ StepOk f (.write buffer src length seek ans) := by
  have hsync := h.synced
  unfold File.Synced at hsync
  dsimp only [Right, StepOk]
  by_cases ha : f.Accepts buffer.toNat length.toNat
  · by_cases hs : f.Stores length.toNat seek ans
    · rw [if_pos ⟨ha, hs⟩]
      refine ⟨fun hr _ => ⟨fun _ => ?_, fun hns => absurd hs hns⟩, fun hok => ?_⟩
      · obtain ⟨-, n, -, hn, hret, hw⟩ := hr
        exact cursor_of_written h ha length.toNat_lt hs hn hret hw
      · have hc := (hok ha).1 hs
        have hw := written_of_stores src h ha hs hc
        refine ⟨(inv_of_stores h ha hs hc).synced, _, ?_, stored_le _ _ _, ?_, hw⟩
        · exact hc ▸ hs.2.2
        · rw [write_of_stores h ha hs, hc]
    · obtain ⟨fil, hwrite, hlen, -, -⟩ := write_of_not_stores src h ha hs
      rw [if_neg fun hc => hs hc.2, hwrite]
      have hback : ¬ (buffer.toNat ≠ 0 ∧ length.toNat = 0) := fun hc => ha.2.2 hc.2
      rw [if_neg hback]
      unfold File.Synced
      dsimp only
      rw [hlen]
      constructor
      · rintro ⟨hr, -⟩ -
        refine ⟨fun hc => absurd hc hs, fun _ => ?_⟩
        split at hr
        · exact ⟨by omega, fun _ => by omega⟩
        · rename_i hseek
          exact ⟨by omega, fun hc => absurd hc hseek⟩
      · intro hok
        obtain ⟨hadd, hin⟩ := (hok ha).2 hs
        refine ⟨?_, rfl, rfl⟩
        split
        · rename_i hseek
          have := hin hseek
          omega
        · omega
  · rw [if_neg fun hc => ha hc.1, write_refused h ha]
    exact ⟨fun _ hc => absurd hc ha, fun _ => ⟨h.synced, rfl, rfl⟩⟩

theorem lseek_none {f : File} {offset whence : Int} (ht : f.lseekTarget offset whence = none) :
    f.lseek offset whence = (-1, f) := by
  unfold File.lseek
  rw [ht]

theorem lseek_some {f : File} {offset whence : Int} {t : Nat}
    (ht : f.lseekTarget offset whence = some t) : f.lseek offset whence = ((t : Int), f.seek t) := by
  unfold File.lseek
  rw [ht]

theorem lseekTarget_lt {f : File} {offset whence : Int} {t : Nat}
    (ht : f.lseekTarget offset whence = some t) : t < 2 ^ 31 := by
  unfold File.lseekTarget at ht
  dsimp only at ht
  generalize (if whence = 0 then some 0 else if whence = 1 then some (f.position : Int)
    else if whence = 2 then some (f.size : Int) else none) = base at ht
  cases base with
  | none => exact absurd ht (Option.some_ne_none t).symm
  | some base =>
    dsimp only at ht
    by_cases hout : base + offset < 0 ∨ 0x7FFFFFFF < base + offset
    · rw [if_pos hout] at ht
      exact absurd ht (Option.some_ne_none t).symm
    · rw [if_neg hout] at ht
      have := Option.some.inj ht
      omega

theorem inv_seek {f : File} (h : Inv f) {pos : Nat} (hp : pos < 2 ^ 32) : Inv (f.seek pos) := by
  refine ⟨h.synced, h.size_lt, ?_, h.regular, h.bound, h.canRead, h.canWrite⟩
  have := h.size_lt
  unfold File.seek
  dsimp only
  split <;> omega

theorem right_lseek_iff {f : File} (h : Inv f) (offset whence : Int) :
    Right f (.lseek offset whence) ↔ StepOk f (.lseek offset whence) := by
  dsimp only [Right, StepOk]
  cases ht : f.lseekTarget offset whence with
  | none =>
    rw [lseek_none ht]
    refine ⟨fun _ => .inr fun t hm => absurd hm (Option.not_mem_none t), fun _ => ?_⟩
    exact ⟨h.synced, rfl, fun hc => absurd hc (show ¬ (0 : Int) ≤ -1 by decide), fun _ => rfl⟩
  | some t =>
    rw [lseek_some ht]
    have hpos : (f.seek t).position = if !f.isWritable ∧ f.size < t then f.size else t := rfl
    dsimp only
    constructor
    · rintro ⟨-, -, hr, -⟩
      have hr := Int.ofNat.inj (hr (Int.natCast_nonneg t))
      by_cases hw : f.isWritable = true
      · exact .inl hw
      · refine .inr fun u hu => ?_
        obtain rfl := Option.some.inj hu
        rw [hpos] at hr
        by_contra hlt
        rw [if_pos ⟨by simpa using hw, by omega⟩] at hr
        omega
    · intro hok
      refine ⟨h.synced, rfl, fun _ => ?_, fun hc => absurd hc (by omega)⟩
      rw [hpos, if_neg]
      rintro ⟨hw, hlt⟩
      rcases hok with hok | hok
      · rw [hok] at hw
        exact absurd hw (by decide)
      · have := hok t rfl
        omega

/-- A call does what it should exactly under the condition on it. -/
theorem right_iff {f : File} (h : Inv f) (op : Op) : Right f op ↔ StepOk f op := by
  cases op with
  | read buffer length seek ok => exact iff_of_true (right_read h buffer length seek ok) trivial
  | write buffer src length seek ans => exact right_write_iff h buffer src length seek ans
  | seek pos => exact iff_of_true ⟨h.synced, rfl⟩ trivial
  | lseek offset whence => exact right_lseek_iff h offset whence

theorem inv_fstep {f : File} {op : Op} (h : Inv f) (hok : StepOk f op) : Inv (fstep f op) := by
  cases op with
  | read buffer length seek ok => exact inv_read h buffer.toNat length.toNat seek ok
  | write buffer src length seek ans =>
    dsimp only [fstep]
    by_cases ha : f.Accepts buffer.toNat length.toNat
    · by_cases hs : f.Stores length.toNat seek ans
      · exact inv_of_stores h ha hs ((hok ha).1 hs)
      · have hsync := ((right_write_iff h buffer src length seek ans).mpr hok).1
        obtain ⟨fil, hwrite, -, hread, hw⟩ := write_of_not_stores src h ha hs
        rw [hwrite] at hsync ⊢
        exact ⟨hsync, h.size_lt, h.position_lt, h.regular, h.bound,
          fun hr => hread.trans (h.canRead hr), hw.trans h.canWrite⟩
    · rw [write_refused h ha]
      exact h
  | seek pos => exact inv_seek h pos.toNat_lt
  | lseek offset whence =>
    dsimp only [fstep]
    cases ht : f.lseekTarget offset whence with
    | none => rw [lseek_none ht]; exact h
    | some t =>
      have := lseekTarget_lt ht
      rw [lseek_some ht]
      exact inv_seek h (by omega)

/-! ## Runs -/

/-- The calls on a handle do what they should exactly when every one of them meets the condition. -/
theorem cursor_run {filesystem flags : Nat} {data : List UInt8} (hf : filesystem ≠ 0)
    (hd : data.length < 2 ^ 32) (ops : List Op) :
    Along fstep Right (openFile filesystem flags data) ops ↔
      Along fstep StepOk (openFile filesystem flags data) ops :=
  Along.iff_of_inv (fun _ _ => inv_fstep) (fun _ op h => right_iff h op) (inv_openFile hf hd)

theorem cursor_run_empty_file :
    Along fstep Right (openFile 1 oRdwr []) [.lseek 2 0, .read 1 4 ⟨true, [0, 0]⟩ true] ↔
      Along fstep StepOk (openFile 1 oRdwr []) [.lseek 2 0, .read 1 4 ⟨true, [0, 0]⟩ true] :=
  cursor_run (by decide) (by decide) _

/-- A handle that is only readable is left at 3 by an `lseek` to 10 that returns 10, and a `Write`
that fails after FatFs grew the file from 3 to 5 bytes leaves the cached size at 3. -/
theorem drift_on_seek_and_write :
    (¬ Along fstep Right (openFile 1 oRdonly [1, 2, 3]) [.lseek 10 0]) ∧
      ¬ Along fstep Right (openFile 1 oRdwr [1, 2, 3])
        [.seek 5, .write 1 (fun _ => 7) 1 ⟨true, [0, 0]⟩ ⟨false, 0⟩] := by
  constructor
  · rintro ⟨⟨-, -, h, -⟩, -⟩
    exact absurd (h (by decide)) (by decide)
  · rintro ⟨-, ⟨h, -⟩, -⟩
    exact absurd h (by unfold File.Synced; decide)

end Fs
end Hashx86
