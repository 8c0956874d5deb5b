import Hashx86.Fs.Cursor
import Hashx86.Lib.Reader
import Hashx86.Lib.While
import Hashx86.Pak.Defs

/-!
# The chunks of a WAV file (`audio/wav.cpp`)

The handle is open for reading. Whether the volume serves a read is an input, `IoAnswers`; a read
that fails ends the walk of the chunks. The size of a chunk is added to a position as a `uint32_t`.

* `read_at`, `seek_at`: the handle as a position in the bytes of the file.
* `turn_at`: the walk reads the chunk at the position, and goes on at `skipTo`.
* `advances_iff`: when `skipTo` is ahead.
* `ends_iff`: the walk moves ahead and ends, exactly when no chunk that it skips ends at 2^32 or
  later.
-/

namespace Hashx86
namespace Audio

open Lib Fs Pak

structure WavFmt where
  audioFormat : Nat
  numChannels : Nat
  sampleRate : Nat
  byteRate : Nat
  blockAlign : Nat
  bitsPerSample : Nat
  deriving DecidableEq

def WavFmt.ofBytes (bs : List UInt8) : WavFmt where
  audioFormat := field bs 0 2
  numChannels := field bs 2 2
  sampleRate := field bs 4 4
  byteRate := field bs 8 4
  blockAlign := field bs 12 2
  bitsPerSample := field bs 14 2

def wavHeaderSize : Nat := 12
def chunkHeaderSize : Nat := 8
def wavFmtSize : Nat := 16

/-- A `Wav`, with the bytes of its sample buffer. -/
structure Wav where
  buffer : Option (List UInt8)
  length : Nat
  valid : Bool
  sampleRate : Nat
  channels : Nat
  bitsPerSample : Nat

/-- Whether the volume serves the reads: of the header, of each turn of the walk, and of the
samples. -/
structure IoAnswers where
  header : Bool
  turn : Nat → Bool × Bool
  data : Bool

/-- `file->Read`, which the volume serves or not. -/
def readFile (file : File) (length : Nat) (ok : Bool) : Int × List UInt8 × File :=
  file.read 1 length ⟨true, []⟩ ok

/-- The volume serves every read. -/
def allServed : IoAnswers := ⟨true, fun _ => (true, true), true⟩

/-! ## The walk of the chunks -/

/-- The variables of the walk: `fmt` once `fmtFound`. -/
structure Walk where
  file : File
  fmt : Option WavFmt

/-- How the walk is left: by `return`, or by `break` or at the end of the file, with the offset and
the size of the data once `dataFound`. -/
inductive Left where
  | returned
  | broke (w : Walk) (data : Option (Nat × Nat))

/-- The seek behind the padding byte of an odd size. -/
def skipPad (file : File) (size : Nat) : File :=
  if size % 2 ≠ 0 then file.seek ((file.position + 1) % 2 ^ 32) else file

/-- One turn of the walk. -/
def turn (io : Bool × Bool) (w : Walk) : Walk ⊕ Left :=
  if ¬ w.file.position < w.file.size then .inr (.broke w none)
  else
    let (read, chunk, file) := readFile w.file chunkHeaderSize io.1
    if read ≠ chunkHeaderSize then .inr (.broke { w with file := file } none)
    else
      let size := field chunk 4 4
      let chunkStart := file.position
      if chunk.take 4 = chars "fmt " then
        if size < wavFmtSize then .inr .returned
        else
          let (read, bytes, file) := readFile file wavFmtSize io.2
          if read ≠ wavFmtSize then .inr .returned
          else
            let file := if wavFmtSize < size then file.seek ((chunkStart + size) % 2 ^ 32) else file
            .inl ⟨skipPad file size, some (WavFmt.ofBytes bytes)⟩
      else if chunk.take 4 = chars "data" then
        let available := sub32 file.size file.position
        let dataSize := if size < available then size else available
        .inr (.broke { w with file := file }
          (if 0 < dataSize then some (file.position, dataSize) else none))
      else .inl ⟨skipPad (file.seek ((chunkStart + size) % 2 ^ 32)) size, w.fmt⟩

/-! ## Loading -/

/-- `Load` after the walk. -/
def loadData (wav : Wav) (file : File) (fmt : WavFmt) (dataOffset dataSize : Nat)
    (mem : Nat → Bool) (ok : Bool) : Wav :=
  if fmt.audioFormat ≠ 1 then wav
  else
    let wav := { wav with
      sampleRate := fmt.sampleRate, channels := fmt.numChannels
      bitsPerSample := fmt.bitsPerSample, length := dataSize }
    if wav.length = 0 ∨ 64 * 1024 * 1024 < wav.length then wav
    else if !mem wav.length then wav
    else
      let (read, bytes, _) := readFile (file.seek dataOffset) wav.length ok
      let read := (read % 2 ^ 32).toNat
      if read ≠ wav.length then
        if read = 0 then { wav with length := read }
        else { wav with length := read, buffer := some bytes, valid := true }
      else { wav with buffer := some bytes, valid := true }

/-- The walk after the header of the file, which must be one. -/
def start (file : File) (ok : Bool) : Option Walk :=
  let (read, header, file) := readFile file wavHeaderSize ok
  if read ≠ wavHeaderSize then none
  else if header.take 4 ≠ chars "RIFF" ∨ (header.drop 8).take 4 ≠ chars "WAVE" then none
  else some ⟨file, none⟩

/-- `Load` where the walk was left. -/
def finish (mem : Nat → Bool) (ok : Bool) (wav : Wav) : Left → Wav
  | .returned => wav
  | .broke _ none => wav
  | .broke ⟨_, none⟩ _ => wav
  | .broke ⟨file, some fmt⟩ (some (dataOffset, dataSize)) =>
    loadData wav file fmt dataOffset dataSize mem ok

/-- The fields of a `Wav` once `Load` cleared them. -/
def Wav.cleared : Wav := ⟨none, 0, false, 0, 0, 0⟩

/-- `Load`: `none` while the walk has not ended within `fuel` turns. -/
def load (file : File) (mem : Nat → Bool) (io : IoAnswers) (fuel : Nat) : Option Wav :=
  match start file io.header with
  | none => some .cleared
  | some w => (loop (fun k => turn (io.turn k)) fuel 0 w).map (finish mem io.data .cleared)

/-! ## The handle -/

/-- A read-only handle at position `p` of a file with the bytes `data`. -/
structure At (data : List UInt8) (p : Nat) (f : File) : Prop where
  inv : Fs.Inv f
  data : f.fil.data = data
  readable : f.isReadable = true
  readOnly : f.isWritable = false
  position : f.position = p

variable {data : List UInt8} {p : Nat} {f : File}

theorem At.size (h : At data p f) : f.size = data.length := h.data ▸ h.inv.synced

theorem At.length_lt (h : At data p f) : data.length < 2 ^ 32 := h.size ▸ h.inv.size_lt

theorem at_openFile {filesystem : Nat} (hf : filesystem ≠ 0) (hd : data.length < 2 ^ 32) :
    At data 0 (openFile filesystem oRdonly data) where
  inv := inv_openFile hf hd
  data := rfl
  readable := show (decide (oRdonly &&& oAccmode = oRdonly) ||
    decide (oRdonly &&& oAccmode = oRdwr)) = true by decide
  readOnly := show (decide (oRdonly &&& oAccmode = oWronly) ||
    decide (oRdonly &&& oAccmode = oRdwr)) = false by decide
  position := rfl

/-- The bytes that a read of `n` bytes gets. -/
def served (data : List UInt8) (p n : Nat) (ok : Bool) : List UInt8 :=
  if ok then (data.drop p).take n else []

theorem read_at (h : At data p f) {n : Nat} (hn : n < 2 ^ 31) (ok : Bool) :
    ∃ f', readFile f n ok = (((served data p n ok).length : Int), served data p n ok, f') ∧
      At data (p + (served data p n ok).length) f' := by
  obtain ⟨q, hread⟩ := read_eq h.inv 1 n ⟨true, []⟩ ok
  have hbytes : f.expected 1 n ⟨true, []⟩ ok = served data p n ok := by
    unfold File.expected served
    rw [h.readable, h.data, h.position]
    simp
  have hlen : (served data p n ok).length ≤ n := by
    unfold served
    split
    · exact List.length_take_le _ _
    · exact Nat.zero_le n
  have hinv := inv_read h.inv 1 n ⟨true, []⟩ ok
  rw [hread] at hinv
  rw [hbytes, toInt32_of_lt (by omega), h.position] at hread
  rw [hbytes, h.position] at hinv
  exact ⟨_, hread, hinv, h.data, h.readable, h.readOnly, rfl⟩

theorem seek_at (h : At data p f) {q : Nat} (hq : q < 2 ^ 32) :
    At data (min q data.length) (f.seek q) := by
  refine ⟨inv_seek h.inv hq, h.data, h.readable, h.readOnly, ?_⟩
  unfold File.seek
  rw [h.readOnly, h.size]
  by_cases hlt : data.length < q
  · rw [min_eq_right hlt.le]
    exact if_pos ⟨rfl, hlt⟩
  · rw [min_eq_left (Nat.le_of_not_lt hlt)]
    exact if_neg fun hc => hlt hc.2

/-! ## One chunk -/

def chunkId (data : List UInt8) (p : Nat) : List UInt8 := (data.drop p).take 4

def chunkSize (data : List UInt8) (p : Nat) : Nat := field data (p + 4) 4

/-- The chunk at `p` has a header, and the walk goes on behind it. -/
structure Skipped (data : List UInt8) (p : Nat) : Prop where
  header : p + 8 ≤ data.length
  notData : chunkId data p ≠ chars "data"
  fmt : chunkId data p = chars "fmt " → 16 ≤ chunkSize data p ∧ p + 24 ≤ data.length

/-- The position to which the walk goes on behind a chunk, in a file of `n` bytes. -/
def skipTo (n p size : Nat) : Nat :=
  let q := min ((p + 8 + size) % 2 ^ 32) n
  if size % 2 ≠ 0 then min ((q + 1) % 2 ^ 32) n else q

/-- `fmt` after the chunk at `p`. -/
def fmtAt (data : List UInt8) (p : Nat) (fmt : Option WavFmt) : Option WavFmt :=
  if chunkId data p = chars "fmt " then some (WavFmt.ofBytes ((data.drop (p + 8)).take 16)) else fmt

/-- The data chunk at `p` has the bytes from `off` on, `size` of them in the file. -/
structure DataAt (data : List UInt8) (p off size : Nat) : Prop where
  header : p + 8 ≤ data.length
  isData : chunkId data p = chars "data"
  off_eq : off = p + 8
  size_eq : size = min (chunkSize data p) (data.length - (p + 8))
  size_pos : 0 < size

/-- What a turn does at position `p`. -/
inductive TurnAt (data : List UInt8) (p : Nat) (io : Bool × Bool) (w : Walk) : Walk ⊕ Left → Prop
  | skip {w' : Walk} (h : Skipped data p)
      (at' : At data (skipTo data.length p (chunkSize data p)) w'.file)
      (fmt : w'.fmt = fmtAt data p w.fmt) : TurnAt data p io w (.inl w')
  | data {w' : Walk} {off size : Nat} (h : DataAt data p off size) (at' : At data (p + 8) w'.file)
      (fmt : w'.fmt = w.fmt) : TurnAt data p io w (.inr (.broke w' (some (off, size))))
  | none {r : Left}
      (h : io = (true, true) → ¬ Skipped data p ∧ ∀ off size, ¬ DataAt data p off size)
      (hr : ∀ w' d, r ≠ .broke w' (some d)) : TurnAt data p io w (.inr r)

theorem served_length (data : List UInt8) (p n : Nat) :
    (served data p n true).length = min n (data.length - p) := by
  rw [served, if_pos rfl, List.length_take, List.length_drop]

/-- A read is complete when the volume serves it and the bytes are there. -/
theorem served_full {n : Nat} (hn : 0 < n) {ok : Bool} :
    (served data p n ok).length = n ↔ ok = true ∧ p + n ≤ data.length := by
  cases ok with
  | false =>
    rw [served, if_neg Bool.false_ne_true]
    simp
    omega
  | true =>
    rw [served_length]
    simp
    omega

theorem skipPad_at (h : At data p f) (size : Nat) :
    At data (if size % 2 ≠ 0 then min ((p + 1) % 2 ^ 32) data.length else p) (skipPad f size) := by
  unfold skipPad
  split
  · rw [h.position]
    exact seek_at h (Nat.mod_lt _ (by decide))
  · exact h

theorem field_chunk (data : List UInt8) (p : Nat) :
    field ((data.drop p).take 8) 4 4 = chunkSize data p := by
  unfold field chunkSize field
  rw [List.drop_take, List.take_take, List.drop_drop]
  rfl

theorem turn_at {w : Walk} (h : At data p w.file) (io : Bool × Bool) :
    TurnAt data p io w (turn io w) := by
  have hsize := h.size
  have hpos := h.position
  unfold turn
  by_cases hend : ¬ w.file.position < w.file.size
  · rw [if_pos hend]
    have hno : ¬ p + 8 ≤ data.length := by omega
    exact .none (fun _ => ⟨fun hs => hno hs.header, fun _ _ hd => hno hd.header⟩) (by simp)
  rw [if_neg hend]
  obtain ⟨file, hread, hat⟩ := read_at h (show chunkHeaderSize < 2 ^ 31 by decide) io.1
  rw [hread]
  dsimp only
  by_cases hfull : ((served data p chunkHeaderSize io.1).length : Int) ≠ chunkHeaderSize
  · rw [if_pos hfull]
    have hno : io = (true, true) → ¬ p + 8 ≤ data.length := fun hio hle => hfull
      (congrArg Nat.cast ((served_full (n := chunkHeaderSize) (by decide)).mpr
        ⟨congrArg Prod.fst hio, hle⟩))
    exact .none (fun hio => ⟨fun hs => hno hio hs.header, fun _ _ hd => hno hio hd.header⟩)
      (by simp)
  rw [if_neg hfull]
  have hbytes : served data p chunkHeaderSize io.1 = (data.drop p).take 8 ∧
      p + 8 ≤ data.length := by
    obtain ⟨hok, hle⟩ := (served_full (by decide)).mp (Int.ofNat_inj.mp (not_not.mp hfull))
    exact ⟨by rw [served, hok, if_pos rfl]; rfl, hle⟩
  obtain ⟨hbytes, hheader⟩ := hbytes
  have hat : At data (p + 8) file := by
    rwa [Int.ofNat_inj.mp (not_not.mp hfull)] at hat
  have hid : ((data.drop p).take 8).take 4 = chunkId data p := by
    rw [List.take_take]
    rfl
  rw [hbytes, field_chunk, hid, hat.position]
  by_cases hfmt : chunkId data p = chars "fmt "
  · rw [if_pos hfmt]
    have hno : ∀ off size, ¬ DataAt data p off size := fun _ _ hd =>
      absurd (hfmt.symm.trans hd.isData) (by decide)
    by_cases hsmall : chunkSize data p < wavFmtSize
    · rw [if_pos hsmall]
      exact .none (fun _ => ⟨fun hs => absurd (hs.fmt hfmt).1 (Nat.not_le_of_lt hsmall), hno⟩)
        (by simp)
    rw [if_neg hsmall]
    obtain ⟨file', hread', hat'⟩ := read_at hat (show wavFmtSize < 2 ^ 31 by decide) io.2
    rw [hread']
    dsimp only
    by_cases hfull' : ((served data (p + 8) wavFmtSize io.2).length : Int) ≠ wavFmtSize
    · rw [if_pos hfull']
      refine .none (fun hio => ⟨fun hs => hfull' ?_, hno⟩) (by simp)
      have hok := (served_full (p := p + 8) (n := wavFmtSize) (by decide)).mpr
        ⟨congrArg Prod.snd hio, (hs.fmt hfmt).2⟩
      exact congrArg Nat.cast hok
    rw [if_neg hfull']
    obtain ⟨hok, hle⟩ := (served_full (by decide)).mp (Int.ofNat_inj.mp (not_not.mp hfull'))
    have hle : p + 24 ≤ data.length := hle
    have hsmall : 16 ≤ chunkSize data p := Nat.le_of_not_lt hsmall
    have hat' : At data (p + 24) file' := by
      rwa [Int.ofNat_inj.mp (not_not.mp hfull')] at hat'
    refine .skip ⟨hheader, by rw [hfmt]; decide, fun _ => ⟨hsmall, hle⟩⟩ (skipPad_at ?_ _) ?_
    · have hlt := h.length_lt
      split
      · exact seek_at hat' (Nat.mod_lt _ (by decide))
      · rename_i hne
        have hq : min ((p + 8 + chunkSize data p) % 2 ^ 32) data.length = p + 24 := by
          have hsize : chunkSize data p = 16 := Nat.le_antisymm (Nat.le_of_not_lt hne) hsmall
          rw [hsize, Nat.mod_eq_of_lt (by omega)]
          exact Nat.min_eq_left hle
        rwa [hq]
    · rw [fmtAt, if_pos hfmt, served, hok, if_pos rfl]
      rfl
  · rw [if_neg hfmt]
    by_cases hdata : chunkId data p = chars "data"
    · rw [if_pos hdata, hat.size, sub32_eq hheader]
      have hskip : ¬ Skipped data p := fun hs => hs.notData hdata
      by_cases hpos' : 0 < min (chunkSize data p) (data.length - (p + 8))
      · have hmin : (if chunkSize data p < data.length - (p + 8) then chunkSize data p
            else data.length - (p + 8)) = min (chunkSize data p) (data.length - (p + 8)) := by
          split <;> omega
        rw [hmin, if_pos hpos']
        exact .data ⟨hheader, hdata, rfl, rfl, hpos'⟩ hat rfl
      · refine .none (fun _ => ⟨hskip, fun _ _ hd => hpos' (hd.size_eq ▸ hd.size_pos)⟩)
          fun w' d hd => ?_
        rw [if_neg (by split <;> omega)] at hd
        exact nomatch hd
    · rw [if_neg hdata]
      refine .skip ⟨hheader, hdata, fun hf => absurd hf hfmt⟩ ?_ (if_neg hfmt).symm
      have hlt : (p + 8 + chunkSize data p) % 2 ^ 32 < 2 ^ 32 := Nat.mod_lt _ (by decide)
      exact skipPad_at (seek_at hat hlt) _

/-! ## The walk moves ahead -/

/-- The end of a chunk at `p` is a `uint32_t`, as is the position behind its padding byte; or the
sum wraps by so little that it is inside the header of the chunk. -/
structure Advances (n p size : Nat) : Prop where
  ends : p + 8 + size < 2 ^ 32 ∨ 2 ^ 32 - 7 ≤ size
  padded : size % 2 ≠ 0 → p + 8 + size = 2 ^ 32 - 1 → n < 2 ^ 32 - 1

theorem skipTo_le (n p size : Nat) : skipTo n p size ≤ n := by
  unfold skipTo
  dsimp only
  split <;> exact Nat.min_le_right _ _

theorem advances_iff {n p size : Nat} (hn : n < 2 ^ 32) (hp : p + 8 ≤ n) (hs : size < 2 ^ 32) :
    p < skipTo n p size ↔ Advances n p size := by
  have hiff : Advances n p size ↔ (p + 8 + size < 2 ^ 32 ∨ 2 ^ 32 - 7 ≤ size) ∧
      (size % 2 ≠ 0 → p + 8 + size = 2 ^ 32 - 1 → n < 2 ^ 32 - 1) :=
    ⟨fun h => ⟨h.1, h.2⟩, fun h => ⟨h.1, h.2⟩⟩
  rw [hiff]
  unfold skipTo
  dsimp only
  split <;> omega

/-- The file starts as a WAV file. -/
structure Header (data : List UInt8) : Prop where
  length : 12 ≤ data.length
  riff : data.take 4 = chars "RIFF"
  wave : (data.drop 8).take 4 = chars "WAVE"

/-- The position of the walk before turn `k`. -/
def walkOff (data : List UInt8) : Nat → Nat
  | 0 => 12
  | k + 1 => skipTo data.length (walkOff data k) (chunkSize data (walkOff data k))

/-- `fmt` before turn `k`. -/
def walkFmt (data : List UInt8) : Nat → Option WavFmt
  | 0 => none
  | k + 1 => fmtAt data (walkOff data k) (walkFmt data k)

/-- The walk skips a chunk in each of its first `k` turns. -/
structure Passes (data : List UInt8) (k : Nat) : Prop where
  header : Header data
  skipped : ∀ j < k, Skipped data (walkOff data j)

/-- No chunk that the walk skips has an end, or a padding byte, at 2^32 or later. -/
def NoWrap (data : List UInt8) : Prop :=
  ∀ k, Passes data (k + 1) →
    Advances data.length (walkOff data k) (chunkSize data (walkOff data k))

theorem chunkSize_lt (data : List UInt8) (p : Nat) : chunkSize data p < 2 ^ 32 :=
  field_lt data (p + 4) 4

/-- The walk starts behind the header, if the file has one. -/
theorem start_at {file : File} (h : At data 0 file) {ok : Bool} {w : Walk}
    (hw : start file ok = some w) : At data 12 w.file ∧ Header data ∧ w.fmt = none := by
  obtain ⟨file', hread, hat⟩ := read_at h (show wavHeaderSize < 2 ^ 31 by decide) ok
  unfold start at hw
  rw [hread] at hw
  dsimp only at hw
  split_ifs at hw with hfull hmagic
  have hlen := Int.ofNat_inj.mp (not_not.mp hfull)
  obtain ⟨hok, hle⟩ := (served_full (n := wavHeaderSize) (by decide)).mp hlen
  have hbytes : served data 0 wavHeaderSize ok = data.take 12 := by
    rw [served, hok, if_pos rfl, List.drop_zero]
    rfl
  rw [hlen] at hat
  rw [hbytes, not_or, not_not, not_not] at hmagic
  obtain ⟨riff, wave⟩ := hmagic
  rw [List.take_take] at riff
  rw [List.drop_take, List.take_take] at wave
  cases hw
  exact ⟨hat, ⟨by simpa [wavHeaderSize] using hle, riff, wave⟩, rfl⟩

theorem start_of_header {file : File} (h : At data 0 file) (hd : Header data) :
    ∃ w, start file allServed.header = some w := by
  obtain ⟨file', hread, hat⟩ := read_at h (show wavHeaderSize < 2 ^ 31 by decide) true
  have hfull : (served data 0 wavHeaderSize true).length = wavHeaderSize :=
    (served_full (by decide)).mpr ⟨rfl, by simpa [wavHeaderSize] using hd.length⟩
  have hmagic : (served data 0 wavHeaderSize true).take 4 = chars "RIFF" ∧
      ((served data 0 wavHeaderSize true).drop 8).take 4 = chars "WAVE" := by
    rw [served, if_pos rfl, List.drop_zero, List.take_take, List.drop_take, List.take_take]
    exact ⟨hd.riff, hd.wave⟩
  refine ⟨⟨file', none⟩, ?_⟩
  unfold start
  rw [show allServed.header = true from rfl, hread]
  dsimp only
  rw [if_neg (by rw [hfull]; simp), if_neg (by rw [hmagic.1, hmagic.2]; simp)]

/-- The state of the walk before a turn. -/
theorem reaches_at {file : File} (h : At data 0 file) {io : IoAnswers} {w₀ : Walk}
    (hw : start file io.header = some w₀) {k : Nat} {w : Walk}
    (hr : Reaches (fun k => turn (io.turn k)) w₀ k w) :
    Passes data k ∧ At data (walkOff data k) w.file ∧ w.fmt = walkFmt data k := by
  induction hr with
  | start =>
    obtain ⟨hat, hd, hfmt⟩ := start_at h hw
    exact ⟨⟨hd, nofun⟩, hat, hfmt⟩
  | @next k w w' _ ht ih =>
    obtain ⟨hpass, hat, hfmt⟩ := ih
    have hturn := turn_at hat (io.turn k)
    rw [ht] at hturn
    cases hturn with
    | skip hs hat' hfmt' =>
      refine ⟨⟨hpass.header, fun j hj => ?_⟩, hat', by rw [hfmt', hfmt, walkFmt]⟩
      rcases Nat.lt_succ_iff_lt_or_eq.mp hj with hj | rfl
      · exact hpass.skipped j hj
      · exact hs

/-- A skipped chunk is passed by a turn whose reads are served. -/
theorem turn_skipped {w : Walk} (h : At data p w.file) (hs : Skipped data p) (k : Nat) :
    ∃ w', turn (allServed.turn k) w = .inl w' ∧
      At data (skipTo data.length p (chunkSize data p)) w'.file ∧ w'.fmt = fmtAt data p w.fmt := by
  have hturn := turn_at h (allServed.turn k)
  cases ht : turn (allServed.turn k) w with
  | inl w' =>
    rw [ht] at hturn
    cases hturn with
    | skip _ hat hfmt => exact ⟨w', rfl, hat, hfmt⟩
  | inr r =>
    rw [ht] at hturn
    cases hturn with
    | data hd => exact absurd hd.isData hs.notData
    | none hno => exact absurd hs (hno rfl).1

/-- Where the volume serves every read, the walk gets as far as it passes chunks. -/
theorem passes_reached {file : File} (h : At data 0 file) {w₀ : Walk}
    (hw : start file allServed.header = some w₀) {k : Nat} (hp : Passes data k) :
    ∃ w, Reaches (fun k => turn (allServed.turn k)) w₀ k w := by
  induction k with
  | zero => exact ⟨w₀, .start⟩
  | succ k ih =>
    obtain ⟨w, hr⟩ := ih ⟨hp.header, fun j hj => hp.skipped j (Nat.lt_succ_of_lt hj)⟩
    obtain ⟨-, hat, -⟩ := reaches_at h hw hr
    obtain ⟨w', ht, -⟩ := turn_skipped hat (hp.skipped k (Nat.lt_succ_self k)) k
    exact ⟨w', .next hr ht⟩

/-- For every behaviour of the volume, `Load` ends and each turn of its walk that goes on moves the
position ahead. -/
def LoadEnds (file : File) : Prop :=
  ∀ mem io, (∃ fuel wav, load file mem io fuel = some wav) ∧
    ∀ w₀, start file io.header = some w₀ → ∀ k w w',
      Reaches (fun k => turn (io.turn k)) w₀ k w → turn (io.turn k) w = .inl w' →
        w.file.position < w'.file.position

/-- `Load` ends, each turn of its walk ahead of the one before, exactly when no skipped chunk
wraps. -/
theorem ends_iff {file : File} (h : At data 0 file) : LoadEnds file ↔ NoWrap data := by
  constructor
  · intro hends k hp
    obtain ⟨w₀, hw⟩ := start_of_header h hp.header
    obtain ⟨-, hahead⟩ := hends (fun _ => true) allServed
    have hs := hp.skipped k (Nat.lt_succ_self k)
    obtain ⟨w, hr⟩ := passes_reached h hw
      ⟨hp.header, fun j hj => hp.skipped j (Nat.lt_succ_of_lt hj)⟩
    obtain ⟨-, hat, -⟩ := reaches_at h hw hr
    obtain ⟨w', ht, hat', -⟩ := turn_skipped hat hs k
    have hlt := hahead w₀ hw k w w' hr ht
    rw [hat.position, hat'.position] at hlt
    exact (advances_iff h.length_lt hs.header (chunkSize_lt data _)).mp hlt
  · intro hno mem io
    have hahead : ∀ w₀, start file io.header = some w₀ → ∀ k w w',
        Reaches (fun k => turn (io.turn k)) w₀ k w → turn (io.turn k) w = .inl w' →
          w.file.position < w'.file.position ∧ w'.file.position ≤ data.length := by
      intro w₀ hw k w w' hr ht
      obtain ⟨-, hat, -⟩ := reaches_at h hw hr
      obtain ⟨hpass, hat', -⟩ := reaches_at h hw (.next hr ht)
      have hs := hpass.skipped k (Nat.lt_succ_self k)
      rw [hat.position, hat'.position]
      exact ⟨(advances_iff h.length_lt hs.header (chunkSize_lt data _)).mpr (hno k hpass),
        skipTo_le _ _ _⟩
    refine ⟨?_, fun w₀ hw k w w' hr ht => (hahead w₀ hw k w w' hr ht).1⟩
    unfold load
    cases hw : start file io.header with
    | none => exact ⟨0, _, rfl⟩
    | some w₀ =>
      obtain ⟨fuel, r, hloop⟩ := loop_ends (fun w : Walk => data.length - w.file.position)
        fun k w w' hr ht => by
          have := hahead w₀ hw k w w' hr ht
          omega
      refine ⟨fuel, finish mem io.data .cleared r, ?_⟩
      dsimp only
      rw [hloop]
      rfl

/-- A file whose only chunk ends at 2^32 + 12, where its header starts modulo 2^32. -/
def stuck : List UInt8 :=
  chars "RIFF" ++ toBytes 4 12 ++ chars "WAVE" ++ chars "JUNK" ++ toBytes 4 (2 ^ 32 - 8)

theorem ends_iff_stuck : LoadEnds (openFile 1 oRdonly stuck) ↔ NoWrap stuck :=
  ends_iff (at_openFile (by decide) (by decide))

theorem skipped_stuck : Skipped stuck 12 := ⟨by decide, by decide, fun h => absurd h (by decide)⟩

/-- The walk of the file stays at its chunk. -/
theorem loop_stuck {w : Walk} (h : At stuck 12 w.file) (fuel k : Nat) :
    loop (fun k => turn (allServed.turn k)) fuel k w = none := by
  induction fuel generalizing k w with
  | zero => rfl
  | succ fuel ih =>
    obtain ⟨w', ht, hat, -⟩ := turn_skipped h skipped_stuck k
    rw [loop, ht]
    exact ih hat (k + 1)

/-- `Load` of this file does not end. -/
theorem stuck_forever : ¬ LoadEnds (openFile 1 oRdonly stuck) := by
  intro h
  have hat : At stuck 0 (openFile 1 oRdonly stuck) := at_openFile (by decide) (by decide)
  obtain ⟨fuel, wav, hload⟩ := (h (fun _ => true) allServed).1
  obtain ⟨w, hw⟩ := start_of_header hat ⟨by decide, by decide, by decide⟩
  unfold load at hload
  rw [hw] at hload
  dsimp only at hload
  rw [loop_stuck (start_at hat hw).1] at hload
  exact nomatch hload

end Audio
end Hashx86
