import Hashx86.Audio.Wav

/-!
# The samples of a WAV file (`Wav::Load`)

`chunkOff data k` is where chunk `k` of the file starts, with sums that do not wrap. What the mixer
can play is 16-bit PCM of an even length.

* `loadData_cases`: what is loaded, if the file is accepted.
* `walkOff_exact`: without a wrap, the walk meets the chunks of the file.
* `takes_load`, `load_takes`: a file is accepted for the data chunk that the walk takes.
* `loadsRight_iff`: what is accepted can be played, exactly when no chunk before the data wraps, a fmt
  chunk is for 16-bit PCM and the bytes of the data in the file are even in number.
-/

namespace Hashx86
namespace Audio

open Lib Fs Pak

variable {data : List UInt8}

/-! ## What should be loaded -/

/-- The offset of chunk `k`. -/
def chunkOff (data : List UInt8) : Nat → Nat
  | 0 => 12
  | k + 1 => chunkOff data k + 8 + chunkSize data (chunkOff data k) +
      chunkSize data (chunkOff data k) % 2

/-- The chunk at `p` describes 16-bit PCM. -/
structure Pcm16At (data : List UInt8) (p : Nat) : Prop where
  isFmt : chunkId data p = chars "fmt "
  size : 16 ≤ chunkSize data p
  inside : p + 24 ≤ data.length
  pcm : (WavFmt.ofBytes ((data.drop (p + 8)).take 16)).audioFormat = 1
  bits : (WavFmt.ofBytes ((data.drop (p + 8)).take 16)).bitsPerSample = 16

/-- Chunk `k` is the first data chunk. -/
structure FirstData (data : List UInt8) (k : Nat) : Prop where
  header : chunkOff data k + 8 ≤ data.length
  isData : chunkId data (chunkOff data k) = chars "data"
  first : ∀ j < k, chunkId data (chunkOff data j) ≠ chars "data"

/-- The `Wav` has samples of the file that the mixer can play. -/
structure Playable (data : List UInt8) (wav : Wav) : Prop where
  fmt : ∃ j, Pcm16At data (chunkOff data j)
  samples : ∃ k, FirstData data k ∧
    wav.buffer = some ((data.drop (chunkOff data k + 8)).take wav.length) ∧
    wav.length ≤ chunkSize data (chunkOff data k) ∧
    chunkOff data k + 8 + wav.length ≤ data.length
  even : wav.length % 2 = 0
  pos : 0 < wav.length
  cap : wav.length ≤ 64 * 1024 * 1024

/-- A file that is accepted can be played, and one that is not leaves no buffer. -/
structure Right (data : List UInt8) (wav : Wav) : Prop where
  accepted : wav.valid = true → Playable data wav
  refused : wav.valid = false → wav.buffer = none

/-! ## The condition -/

/-- The bytes of the data chunk at `p` that are in the file. -/
def kept (data : List UInt8) (p : Nat) : Nat := min (chunkSize data p) (data.length - (p + 8))

/-- `Load` takes the data chunk that the walk meets in turn `k`. -/
structure Takes (data : List UInt8) (k : Nat) (fmt : WavFmt) : Prop where
  passes : Passes data k
  chunk : DataAt data (walkOff data k) (walkOff data k + 8) (kept data (walkOff data k))
  found : walkFmt data k = some fmt
  pcm : fmt.audioFormat = 1
  cap : kept data (walkOff data k) ≤ 64 * 1024 * 1024

/-- No chunk before the first data chunk ends at 2^32 or later. -/
def NoWrapBefore (data : List UInt8) : Prop :=
  ∀ k, chunkOff data k + 8 ≤ data.length →
    (∀ j ≤ k, chunkId data (chunkOff data j) ≠ chars "data") → chunkOff data (k + 1) < 2 ^ 32

/-- What `Load` does not check. -/
structure Unchecked (data : List UInt8) : Prop where
  noWrap : NoWrapBefore data
  fmt : ∃ j, Pcm16At data (chunkOff data j)
  even : ∀ k, FirstData data k → kept data (chunkOff data k) % 2 = 0

/-! ## Loading the samples -/

/-- The result of a file that is accepted, with `size` bytes from `off` on. -/
structure Loaded (data : List UInt8) (fmt : WavFmt) (off size : Nat) (wav : Wav) : Prop where
  valid : wav.valid = true
  length : wav.length = size
  buffer : wav.buffer = some ((data.drop off).take size)
  pcm : fmt.audioFormat = 1
  cap : size ≤ 64 * 1024 * 1024

theorem loadData_cases {p : Nat} {file : File} (h : At data p file) (fmt : WavFmt) {off size : Nat}
    (hin : off + size ≤ data.length) (hpos : 0 < size) (mem : Nat → Bool) (ok : Bool) :
    (Loaded data fmt off size (loadData .cleared file fmt off size mem ok)) ∨
      (loadData .cleared file fmt off size mem ok).valid = false ∧
        (loadData .cleared file fmt off size mem ok).buffer = none ∧
        (fmt.audioFormat = 1 → size ≤ 64 * 1024 * 1024 → mem size = true → ok = false) := by
  unfold loadData
  by_cases hpcm : fmt.audioFormat ≠ 1
  · rw [if_pos hpcm]
    exact .inr ⟨rfl, rfl, fun h => absurd h hpcm⟩
  rw [if_neg hpcm]
  dsimp only
  by_cases hcap : size = 0 ∨ 64 * 1024 * 1024 < size
  · rw [if_pos hcap]
    exact .inr ⟨rfl, rfl, fun _ h => by omega⟩
  rw [if_neg hcap]
  by_cases hmem : (!mem size) = true
  · rw [if_pos hmem]
    exact .inr ⟨rfl, rfl, fun _ _ h => by simp [h] at hmem⟩
  rw [if_neg hmem]
  have hlt := h.length_lt
  have hseek := seek_at h (show off < 2 ^ 32 by omega)
  rw [Nat.min_eq_left (show off ≤ data.length by omega)] at hseek
  obtain ⟨file', hread, -⟩ := read_at hseek (show size < 2 ^ 31 by omega) ok
  rw [hread]
  cases ok with
  | false =>
    have hlen : (((served data off size false).length : Int) % 2 ^ 32).toNat = 0 := rfl
    simp only [hlen]
    rw [if_pos hpos.ne, if_pos trivial]
    refine .inr ⟨rfl, rfl, fun _ _ _ => ?_⟩
    trivial
  | true =>
    have hlen : (((served data off size true).length : Int) % 2 ^ 32).toNat = size := by
      rw [served_length, Nat.min_eq_left (by omega)]
      omega
    simp only [hlen]
    rw [if_neg (not_not.mpr rfl)]
    exact .inl ⟨rfl, rfl, rfl, not_not.mp hpcm, by omega⟩

/-! ## The chunks of the file -/

theorem chunkOff_lt_succ (data : List UInt8) (k : Nat) :
    chunkOff data k < chunkOff data (k + 1) := by
  rw [chunkOff]
  omega

theorem chunkOff_mono (data : List UInt8) {j k : Nat} (h : j ≤ k) :
    chunkOff data j ≤ chunkOff data k :=
  monotone_nat_of_le_succ (fun k => (chunkOff_lt_succ data k).le) h

theorem FirstData.unique {j k : Nat} (hj : FirstData data j) (hk : FirstData data k) : j = k := by
  rcases Nat.lt_trichotomy j k with h | h | h
  · exact absurd hj.isData (hk.first j h)
  · exact h
  · exact absurd hk.isData (hj.first k h)

/-- A skip that does not wrap goes to the next chunk, or to the end of the file. -/
theorem skipTo_exact {n p size : Nat} (hn : n < 2 ^ 32) (h : p + 8 + size + size % 2 < 2 ^ 32) :
    skipTo n p size = min (p + 8 + size + size % 2) n := by
  unfold skipTo
  dsimp only
  split <;> omega

/-- Where no chunk before the data wraps, the walk skips the chunks of the file. -/
theorem walkOff_exact (hn : data.length < 2 ^ 32) (h : NoWrapBefore data) {k : Nat}
    (hp : Passes data k) :
    walkOff data k = min (chunkOff data k) data.length ∧
      ∀ j < k, walkOff data j = chunkOff data j := by
  induction k with
  | zero => exact ⟨(Nat.min_eq_left hp.header.length).symm, nofun⟩
  | succ k ih =>
    obtain ⟨hk, hlt⟩ := ih ⟨hp.header, fun j hj => hp.skipped j (Nat.lt_succ_of_lt hj)⟩
    have hs := hp.skipped k (Nat.lt_succ_self k)
    have hle := hs.header
    have hoff : walkOff data k = chunkOff data k := by omega
    have hall : ∀ j ≤ k, walkOff data j = chunkOff data j := fun j hj =>
      (Nat.lt_or_eq_of_le hj).elim (hlt j) fun he => he ▸ hoff
    have hwrap := h k (hoff ▸ hle) fun j hj =>
      hall j hj ▸ (hp.skipped j (Nat.lt_succ_of_le hj)).notData
    refine ⟨?_, fun j hj => hall j (Nat.le_of_lt_succ hj)⟩
    rw [walkOff, hoff]
    exact skipTo_exact hn hwrap

/-- The chunks before a data chunk end inside the file. -/
theorem FirstData.noWrapBefore (hn : data.length < 2 ^ 32) {k : Nat} (h : FirstData data k) :
    NoWrapBefore data := by
  intro j _ hno
  have hjk : j < k := Nat.lt_of_not_le fun hle => hno k hle h.isData
  have hle := chunkOff_mono data (show j + 1 ≤ k from hjk)
  have hk := h.header
  omega

/-- The data chunk that the walk takes is then the first one of the file. -/
theorem takes_first (hn : data.length < 2 ^ 32) (h : NoWrapBefore data) {k : Nat} {fmt : WavFmt}
    (ht : Takes data k fmt) : walkOff data k = chunkOff data k ∧ FirstData data k := by
  obtain ⟨hk, hlt⟩ := walkOff_exact hn h ht.passes
  have hle := ht.chunk.header
  have hoff : walkOff data k = chunkOff data k := by omega
  exact ⟨hoff, hoff ▸ hle, hoff ▸ ht.chunk.isData, fun j hj =>
    hlt j hj ▸ (ht.passes.skipped j hj).notData⟩

/-! ## What is accepted -/

theorem DataAt.inside {p off size : Nat} (h : DataAt data p off size) :
    off + size ≤ data.length := by
  have hle := h.header
  rw [h.off_eq, h.size_eq]
  omega

/-- A result of `Load` comes from a data chunk that it takes, or is refused. -/
theorem load_takes {file : File} (h : At data 0 file) {mem : Nat → Bool} {io : IoAnswers}
    {fuel : Nat} {wav : Wav} (hl : load file mem io fuel = some wav) :
    (∃ k fmt, Takes data k fmt ∧
        Loaded data fmt (walkOff data k + 8) (kept data (walkOff data k)) wav) ∨
      wav.valid = false ∧ wav.buffer = none := by
  have hcleared : Wav.cleared.valid = false ∧ Wav.cleared.buffer = none := ⟨rfl, rfl⟩
  unfold load at hl
  cases hw : start file io.header with
  | none =>
    rw [hw] at hl
    cases hl
    exact .inr hcleared
  | some w₀ =>
    rw [hw] at hl
    obtain ⟨r, hr, rfl⟩ := Option.map_eq_some_iff.mp hl
    obtain ⟨k, w, hreach, ht⟩ := loop_eq_some_iff.mp ⟨fuel, hr⟩
    obtain ⟨hpass, hat, hfmt⟩ := reaches_at h hw hreach
    have hturn := turn_at hat (io.turn k)
    rw [ht] at hturn
    match r, hturn with
    | .returned, _ => exact .inr hcleared
    | .broke _ none, _ => exact .inr hcleared
    | .broke ⟨_, none⟩ (some _), _ => exact .inr hcleared
    | .broke ⟨file', some fmt⟩ (some (off, size)), .none _ hno => exact absurd rfl (hno _ _)
    | .broke ⟨file', some fmt⟩ (some (off, size)), .data hd hat' hfmt' =>
      obtain rfl := hd.off_eq
      have hsize : size = kept data (walkOff data k) := hd.size_eq
      rcases loadData_cases hat' fmt hd.inside hd.size_pos mem io.data with hok | hno
      · refine .inl ⟨k, fmt, ⟨hpass, hsize ▸ hd, ?_, hok.pcm, hsize ▸ hok.cap⟩, hsize ▸ hok⟩
        exact hfmt.symm.trans hfmt'.symm
      · exact .inr ⟨hno.1, hno.2.1⟩

/-- A data chunk that the walk takes is loaded, where the volume and the heap serve. -/
theorem takes_load {file : File} (h : At data 0 file) {k : Nat} {fmt : WavFmt}
    (ht : Takes data k fmt) :
    ∃ fuel wav, load file (fun _ => true) allServed fuel = some wav ∧
      Loaded data fmt (walkOff data k + 8) (kept data (walkOff data k)) wav := by
  obtain ⟨w₀, hw⟩ := start_of_header h ht.passes.header
  obtain ⟨w, hr⟩ := passes_reached h hw ht.passes
  obtain ⟨-, hat, hfmt⟩ := reaches_at h hw hr
  have hturn := turn_at hat (allServed.turn k)
  cases hx : turn (allServed.turn k) w with
  | inl w' =>
    rw [hx] at hturn
    cases hturn with
    | skip hs => exact absurd ht.chunk.isData hs.notData
  | inr r =>
    rw [hx] at hturn
    cases hturn with
    | none hno => exact absurd ht.chunk ((hno rfl).2 _ _)
    | @data w' off size hd hat' hfmt' =>
      obtain ⟨fuel, hl⟩ := loop_eq_some_iff.mpr ⟨k, w, hr, hx⟩
      obtain rfl := hd.off_eq
      have hsize : size = kept data (walkOff data k) := hd.size_eq
      have hfound : w'.fmt = some fmt := hfmt'.trans (hfmt.trans ht.found)
      refine ⟨fuel, finish (fun _ => true) true .cleared
        (.broke w' (some (walkOff data k + 8, size))), ?_, ?_⟩
      · unfold load
        rw [hw]
        dsimp only
        rw [hl]
        rfl
      · obtain ⟨file', fmt'⟩ := w'
        obtain rfl : fmt' = some fmt := hfound
        rcases loadData_cases hat' fmt hd.inside hd.size_pos (fun _ => true) true with hok | hno
        · exact hsize ▸ hok
        · exact nomatch hno.2.2 ht.pcm (hsize ▸ ht.cap) rfl

/-- What `Load` does is right for a file, for every behaviour of the volume and of the heap. -/
def LoadsRight (data : List UInt8) (file : File) : Prop :=
  ∀ mem io fuel wav, load file mem io fuel = some wav → Right data wav

/-- `Load` is right for a file exactly when it does not take its data chunk, or the file is as
`Load` does not check. -/
theorem loadsRight_iff {file : File} (h : At data 0 file) :
    LoadsRight data file ↔ ((∃ k fmt, Takes data k fmt) → Unchecked data) := by
  have hn := h.length_lt
  constructor
  · rintro hright ⟨k, fmt, ht⟩
    obtain ⟨fuel, wav, hl, hok⟩ := takes_load h ht
    obtain ⟨hfmt, ⟨k', hfirst, hbuf, hle, hin⟩, heven, hpos, hcap⟩ :=
      (hright _ _ fuel wav hl).accepted hok.valid
    have hno := hfirst.noWrapBefore hn
    obtain ⟨hoff, hfirst'⟩ := takes_first hn hno ht
    refine ⟨hno, hfmt, fun j hj => ?_⟩
    rw [hj.unique hfirst', ← hoff, ← hok.length]
    exact heven
  · intro hcond mem io fuel wav hl
    rcases load_takes h hl with ⟨k, fmt, ht, hok⟩ | ⟨hv, hb⟩
    · have hun := hcond ⟨k, fmt, ht⟩
      obtain ⟨hoff, hfirst⟩ := takes_first hn hun.noWrap ht
      have hlen : wav.length = kept data (chunkOff data k) := hok.length.trans (by rw [hoff])
      have hdata := ht.chunk
      refine ⟨fun _ => ⟨hun.fmt, ⟨k, hfirst, ?_, ?_, ?_⟩, ?_, ?_, ?_⟩, fun hv => ?_⟩
      · rw [hok.buffer, hlen, hoff]
      · rw [hlen]
        exact Nat.min_le_left _ _
      · rw [hlen, ← hoff]
        exact hdata.inside
      · rw [hlen]
        exact hun.even k hfirst
      · rw [hok.length]
        exact hdata.size_pos
      · rw [hok.length]
        exact hok.cap
      · exact absurd hok.valid (by simp [hv])
    · exact ⟨fun hv' => absurd hv' (by simp [hv]), fun _ => hb⟩

/-- A file of 8-bit PCM. -/
def eightBit : List UInt8 :=
  chars "RIFF" ++ toBytes 4 38 ++ chars "WAVE" ++ chars "fmt " ++ toBytes 4 16 ++ toBytes 2 1 ++
    toBytes 2 1 ++ toBytes 4 8000 ++ toBytes 4 8000 ++ toBytes 2 1 ++ toBytes 2 8 ++
    chars "data" ++ toBytes 4 2 ++ toBytes 2 0x8080

theorem loadsRight_iff_eightBit : LoadsRight eightBit (openFile 1 oRdonly eightBit) ↔
    ((∃ k fmt, Takes eightBit k fmt) → Unchecked eightBit) :=
  loadsRight_iff (at_openFile (by decide) (by decide))

theorem takes_eightBit : Takes eightBit 1 ⟨1, 1, 8000, 8000, 1, 8⟩ where
  passes := ⟨⟨by decide, by decide, by decide⟩, fun j hj => by
    obtain rfl : j = 0 := by omega
    exact ⟨by decide, by decide, fun _ => by decide⟩⟩
  chunk := ⟨by decide, by decide, rfl, rfl, by decide⟩
  found := by decide
  pcm := rfl
  cap := by decide

/-- The file is accepted, and no fmt chunk of it is for 16-bit PCM. -/
theorem eightBit_accepted : ¬ LoadsRight eightBit (openFile 1 oRdonly eightBit) := by
  intro h
  have hat : At eightBit 0 (openFile 1 oRdonly eightBit) := at_openFile (by decide) (by decide)
  obtain ⟨fuel, wav, hl, hok⟩ := takes_load hat takes_eightBit
  obtain ⟨⟨j, hj⟩, -⟩ := (h _ _ fuel wav hl).accepted hok.valid
  match j with
  | 0 => exact absurd hj.bits (by decide)
  | 1 => exact absurd hj.isFmt (by decide)
  | j + 2 =>
    have hle := chunkOff_mono eightBit (show 2 ≤ j + 2 by omega)
    have hin := hj.inside
    have hoff : chunkOff eightBit 2 = 46 := by decide
    have hlen : eightBit.length = 46 := by decide
    omega

end Audio
end Hashx86
