import Hashx86.Lib.Ledger
import Hashx86.Lib.Run
import Mathlib.Data.Fintype.Sum
import Mathlib.Data.UInt

/-!
# The audio mixer (`core/drivers/AudioMixer.cpp`)

Eight channels have a stream and a slot for a buffer that waits to be freed. The sections of
`PlayBuffer` and `Update` that run under the interrupt lock, and `ProcessAudio`, are one step each;
a call of `PlayBuffer` or `Update` is its section and then any number of `ProcessAudio` steps, and
calls of several tasks interleave between the steps. A sample buffer is named by the number of the
`kmalloc` that made it, so an address that the heap hands out again names another buffer.

* `processStream_ended`, `processStream_going`: what one channel does in one `ProcessAudio`.
* `inv_step`: while no stream ends over an occupied slot, every copied buffer is at one place.
* `lost`: a stream that ends over an occupied slot loses the buffer in the slot.
* `accounted_iff`: along a run, the buffers are accounted for exactly while no stream does.
-/

namespace Hashx86
namespace Audio

open Lib

structure AudioStream where
  data : Option Nat
  length : Nat
  position : Nat
  active : Bool
  looping : Bool
  ownsData : Bool

/-- The mixer, and what became of the buffers: `copies` are those that `PlayBuffer` made, `freed`
those given to `kfree`, and `mixedFreed` those read by the mixing after they were freed. -/
structure AudioMixer where
  driver : Bool
  /-- Whether the constructor got the scratch buffer. -/
  mixBuffer : Bool
  bufferSize : Nat
  out : Nat → Int
  streams : Fin 8 → AudioStream
  pendingFreeBuffers : Fin 8 → Option Nat
  pendingFreeLengths : Fin 8 → Nat
  copies : List (List UInt8)
  freed : List Nat
  mixedFreed : List Nat

/-- The constructor, for a driver whose buffer has `bufferSize` bytes. -/
def AudioMixer.new (driver mixBuffer : Bool) (bufferSize : Nat) : AudioMixer where
  driver := driver
  mixBuffer := mixBuffer
  bufferSize := bufferSize
  out := fun _ => 0
  streams := fun _ => ⟨none, 0, 0, false, false, false⟩
  pendingFreeBuffers := fun _ => none
  pendingFreeLengths := fun _ => 0
  copies := []
  freed := []
  mixedFreed := []

/-! ## The entry points -/

/-- The locked section of `PlayBuffer`: `mem` is whether `kmalloc` succeeds. -/
def playBuffer (w : AudioMixer) (data : Option (Nat → UInt8)) (length : Nat) (loop mem : Bool) :
    AudioMixer :=
  match data with
  | none => w
  | some data =>
    if length = 0 ∨ length % 2 ≠ 0 ∨ !w.driver then w
    else
      match (List.finRange 8).find? fun i => !(w.streams i).active with
      | none => w
      | some i =>
        if !mem then w
        else
          { w with
            copies := w.copies ++ [(List.range length).map data]
            streams := Function.update w.streams i
              { data := some w.copies.length, length := length, position := 0, active := true
                looping := loop, ownsData := true } }

/-- One turn of the loop of `Update` that frees the waiting buffers. -/
def freePending (w : AudioMixer) (i : Fin 8) : AudioMixer :=
  match w.pendingFreeBuffers i with
  | none => w
  | some b =>
    { w with
      freed := b :: w.freed
      pendingFreeBuffers := Function.update w.pendingFreeBuffers i none
      pendingFreeLengths := Function.update w.pendingFreeLengths i 0 }

/-- The locked section of `Update`. -/
def drain (w : AudioMixer) : AudioMixer :=
  if !w.driver || !w.mixBuffer then w else (List.finRange 8).foldl freePending w

/-- The `int16_t` at an index of a buffer. -/
def sampleAt (bytes : List UInt8) (k : Nat) : Int :=
  (BitVec.ofNat 16 ((bytes.getD (2 * k) 0).toNat + 256 * (bytes.getD (2 * k + 1) 0).toNat)).toInt

/-- The sum of two samples, clamped to the `int16_t` range. -/
def clampAdd (a b : Int) : Int :=
  if 32767 < a + b then 32767 else if a + b < -32768 then -32768 else a + b

/-- The stream at the top of the sample loop: at its end it starts again or stops (`none`). -/
def rewind (st : AudioStream) : Option AudioStream :=
  if st.length ≤ st.position then if st.looping then some { st with position := 0 } else none
  else some st

/-- The sample loop for one stream, `n` samples from index `i` on: the stream and the scratch
buffer after it, and the number of samples read. -/
def mixSamples (bytes : List UInt8) : Nat → Nat → AudioStream → (Nat → Int) →
    AudioStream × (Nat → Int) × Nat
  | 0, _, st, out => (st, out, 0)
  | n + 1, i, st, out =>
    match rewind st with
    | none => ({ st with active := false }, out, 0)
    | some st =>
      let mixed := clampAdd (out i) (sampleAt bytes (st.position / 2))
      let r := mixSamples bytes n (i + 1) { st with position := (st.position + 2) % 2 ^ 32 }
        (Function.update out i mixed)
      (r.1, r.2.1, r.2.2 + 1)

/-- The bytes of a buffer. -/
def contents (w : AudioMixer) (data : Option Nat) : List UInt8 :=
  (data.bind fun b => w.copies[b]?).getD []

/-- The buffers read after they were freed, when `n` samples of `data` are read. -/
def readFreed (w : AudioMixer) (data : Option Nat) (n : Nat) : List Nat :=
  match data with
  | none => w.mixedFreed
  | some b => if 0 < n ∧ b ∈ w.freed then b :: w.mixedFreed else w.mixedFreed

/-- One turn of the channel loop of `ProcessAudio`. -/
def processStream (w : AudioMixer) (s : Fin 8) : AudioMixer :=
  let st := w.streams s
  if !st.active then w
  else
    let r := mixSamples (contents w st.data) (w.bufferSize / 2) 0 st w.out
    let w := { w with out := r.2.1, mixedFreed := readFreed w st.data r.2.2 }
    if !r.1.active && r.1.ownsData && r.1.data.isSome then
      { w with
        streams := Function.update w.streams s
          { r.1 with data := none, length := 0, position := 0, ownsData := false }
        pendingFreeBuffers := Function.update w.pendingFreeBuffers s r.1.data
        pendingFreeLengths := Function.update w.pendingFreeLengths s r.1.length }
    else { w with streams := Function.update w.streams s r.1 }

/-- `ProcessAudio` -/
def processAudio (w : AudioMixer) : AudioMixer :=
  if !w.driver || !w.mixBuffer then w
  else (List.finRange 8).foldl processStream { w with out := fun _ => 0 }

/-- The steps of the entry points. -/
inductive Op where
  | play (data : Option (Nat → UInt8)) (length : Nat) (loop mem : Bool)
  | drain
  | process

def step (w : AudioMixer) : Op → AudioMixer
  | .play data length loop mem => playBuffer w data (length % 2 ^ 32) loop mem
  | .drain => drain w
  | .process => processAudio w

/-! ## The places of a buffer -/

/-- What a stream (`inl`) or a pending slot (`inr`) refers to. -/
def owner (w : AudioMixer) : Fin 8 ⊕ Fin 8 → Option Nat
  | .inl s => (w.streams s).data
  | .inr s => w.pendingFreeBuffers s

/-- Every copied buffer is referred to from one place, or was freed once. -/
def Accounted (w : AudioMixer) : Prop :=
  ∀ b < w.copies.length,
    (w.freed.count b = 0 ∧ ∃! o, owner w o = some b) ∨
      (w.freed.count b = 1 ∧ ∀ o, owner w o ≠ some b)

/-- The stream of channel `s` ends in the next `ProcessAudio`. -/
def Ends (w : AudioMixer) (s : Fin 8) : Prop :=
  (w.streams s).active ∧ (w.streams s).looping = false ∧
    (w.streams s).length < (w.streams s).position + 2 * (w.bufferSize / 2)

/-- No stream ends in this step while its channel has a buffer that waits to be freed. -/
def SlotsDrained (w : AudioMixer) : Op → Prop
  | .process => w.driver → w.mixBuffer → ∀ s, Ends w s → w.pendingFreeBuffers s = none
  | _ => True

/-- A stream that plays has an owned buffer and a position in it; one that does not has none. -/
structure StreamOk (st : AudioStream) : Prop where
  data : st.data.isSome = st.active
  owns : st.active → st.ownsData
  even : st.active → st.length % 2 = 0 ∧ st.position % 2 = 0
  bound : st.active → 0 < st.length ∧ st.position ≤ st.length ∧ st.length < 2 ^ 32

structure Inv (w : AudioMixer) : Prop where
  ledger : Ledger (· < w.copies.length) w.freed (owner w)
  streams : ∀ s, StreamOk (w.streams s)
  mixed : w.mixedFreed = []

/-! ## One channel -/

/-- A stream at the top of the sample loop ends, or has a sample at an even position. -/
theorem rewind_cases {st : AudioStream} (h : StreamOk st) (ha : st.active = true) :
    (st.looping = false ∧ st.length ≤ st.position ∧ rewind st = none) ∨
      ∃ q, q % 2 = 0 ∧ q < st.length ∧
        (q = st.position ∨ st.looping = true ∧ st.position = st.length ∧ q = 0) ∧
        rewind st = some { st with position := q } := by
  obtain ⟨-, hp⟩ := h.even ha
  obtain ⟨h0, hle, -⟩ := h.bound ha
  by_cases hend : st.length ≤ st.position
  · by_cases hloop : st.looping = true
    · refine .inr ⟨0, rfl, h0, .inr ⟨hloop, by omega, rfl⟩, ?_⟩
      rw [rewind, if_pos hend, if_pos hloop]
    · refine .inl ⟨Bool.eq_false_iff.mpr hloop, hend, ?_⟩
      rw [rewind, if_pos hend, if_neg hloop]
  · refine .inr ⟨st.position, hp, by omega, .inl rfl, ?_⟩
    rw [rewind, if_neg hend]

/-- The position after a sample is still in the buffer, or at its end. -/
theorem StreamOk.advance {st : AudioStream} (h : StreamOk st) (ha : st.active = true) {q : Nat}
    (hq : q % 2 = 0) (hql : q < st.length) :
    (q + 2) % 2 ^ 32 = q + 2 ∧ StreamOk { st with position := (q + 2) % 2 ^ 32 } := by
  obtain ⟨hl, -⟩ := h.even ha
  obtain ⟨h0, -, hlt⟩ := h.bound ha
  have hmod : (q + 2) % 2 ^ 32 = q + 2 := Nat.mod_eq_of_lt (by omega)
  refine ⟨hmod, h.data, h.owns, fun _ => ⟨hl, ?_⟩, fun _ => ⟨h0, ?_, hlt⟩⟩ <;>
    simp only [hmod] <;> omega

/-- The sample loop moves the position inside the buffer, and stops the stream exactly when the
samples that are left do not fill the loop. -/
theorem mixSamples_spec (bytes : List UInt8) (n i : Nat) {st : AudioStream} (out : Nat → Int)
    (h : StreamOk st) (ha : st.active = true) :
    ∃ p, p % 2 = 0 ∧ p ≤ st.length ∧ (mixSamples bytes n i st out).1 =
      { st with
        position := p
        active := decide (st.looping = true ∨ st.position + 2 * n ≤ st.length) } := by
  induction n generalizing i st out with
  | zero =>
    obtain ⟨-, hp⟩ := h.even ha
    obtain ⟨-, hle, -⟩ := h.bound ha
    refine ⟨st.position, hp, hle, ?_⟩
    obtain ⟨d, l, p, a, lo, o⟩ := st
    simp_all [mixSamples]
  | succ n ih =>
    obtain ⟨-, hp⟩ := h.even ha
    obtain ⟨-, hle, -⟩ := h.bound ha
    rcases rewind_cases h ha with ⟨hloop, hend, hw⟩ | ⟨q, hq, hql, hcase, hw⟩
    · have hno : ¬ (st.looping = true ∨ st.position + 2 * (n + 1) ≤ st.length) := by
        rw [hloop]
        rintro (h | h)
        · exact nomatch h
        · omega
      refine ⟨st.position, hp, hle, ?_⟩
      rw [mixSamples, hw, decide_eq_false hno]
    · obtain ⟨hmod, hok⟩ := h.advance ha hq hql
      obtain ⟨p, hp2, hpl, he⟩ := ih (i + 1)
        (Function.update out i (clampAdd (out i) (sampleAt bytes (q / 2)))) hok ha
      have hiff : st.looping = true ∨ (q + 2) % 2 ^ 32 + 2 * n ≤ st.length ↔
          st.looping = true ∨ st.position + 2 * (n + 1) ≤ st.length := by
        rcases hcase with rfl | ⟨hloop, -, -⟩
        · rw [hmod, show st.position + 2 + 2 * n = st.position + 2 * (n + 1) by omega]
        · exact iff_of_true (.inl hloop) (.inl hloop)
      refine ⟨p, hp2, hpl, ?_⟩
      rw [mixSamples, hw]
      refine he.trans ?_
      simp only [hiff]

theorem not_ends_iff {w : AudioMixer} {s : Fin 8} (ha : (w.streams s).active = true) :
    ¬ Ends w s ↔ (w.streams s).looping = true ∨
      (w.streams s).position + 2 * (w.bufferSize / 2) ≤ (w.streams s).length := by
  unfold Ends
  cases (w.streams s).looping <;> simp [ha]

theorem readFreed_eq {w : AudioMixer} {b : Nat} (hb : b ∉ w.freed) (n : Nat) :
    readFreed w (some b) n = w.mixedFreed := if_neg fun h => hb h.2

theorem processStream_idle {w : AudioMixer} {s : Fin 8} (ha : (w.streams s).active = false) :
    processStream w s = w := by
  unfold processStream
  simp [ha]

/-- A stream that does not end keeps its buffer. -/
theorem processStream_going {w : AudioMixer} {s : Fin 8} (h : StreamOk (w.streams s))
    (ha : (w.streams s).active = true) (he : ¬ Ends w s) :
    ∃ p out n, StreamOk { w.streams s with position := p } ∧ processStream w s =
      { w with
        out := out
        mixedFreed := readFreed w (w.streams s).data n
        streams := Function.update w.streams s { w.streams s with position := p } } := by
  obtain ⟨p, hp2, hpl, hr⟩ := mixSamples_spec (contents w (w.streams s).data)
    (w.bufferSize / 2) 0 w.out h ha
  rw [decide_eq_true ((not_ends_iff ha).mp he), ← ha] at hr
  have hok : StreamOk { w.streams s with position := p } :=
    ⟨h.data, h.owns, fun a => ⟨(h.even a).1, hp2⟩,
      fun a => ⟨(h.bound a).1, hpl, (h.bound a).2.2⟩⟩
  refine ⟨p, (mixSamples (contents w (w.streams s).data) (w.bufferSize / 2) 0 (w.streams s)
    w.out).2.1, (mixSamples (contents w (w.streams s).data) (w.bufferSize / 2) 0 (w.streams s)
    w.out).2.2, hok, ?_⟩
  unfold processStream
  simp only [hr, ha, Bool.not_true, Bool.false_and, if_false, Bool.false_eq_true]

/-- A stream that ends leaves its buffer in the slot of its channel. -/
theorem processStream_ended {w : AudioMixer} {s : Fin 8} (h : StreamOk (w.streams s))
    (he : Ends w s) :
    ∃ out n loop, processStream w s =
      { w with
        out := out
        mixedFreed := readFreed w (w.streams s).data n
        streams := Function.update w.streams s ⟨none, 0, 0, false, loop, false⟩
        pendingFreeBuffers := Function.update w.pendingFreeBuffers s (w.streams s).data
        pendingFreeLengths :=
          Function.update w.pendingFreeLengths s (w.streams s).length } := by
  have ha := he.1
  obtain ⟨p, hp2, hpl, hr⟩ := mixSamples_spec (contents w (w.streams s).data)
    (w.bufferSize / 2) 0 w.out h ha
  rw [decide_eq_false fun hn => (not_ends_iff ha).mpr hn he] at hr
  have hdata := h.data
  rw [ha] at hdata
  refine ⟨(mixSamples (contents w (w.streams s).data) (w.bufferSize / 2) 0 (w.streams s)
    w.out).2.1, (mixSamples (contents w (w.streams s).data) (w.bufferSize / 2) 0 (w.streams s)
    w.out).2.2, (w.streams s).looping, ?_⟩
  unfold processStream
  simp only [ha, hr, h.owns ha, hdata, Bool.not_true, Bool.not_false, Bool.and_self, if_true,
    Bool.false_eq_true, if_false]

/-! ## The invariant -/

/-- What a step at one channel does to the places. -/
theorem owner_update {w w' : AudioMixer} {s : Fin 8} (st : AudioStream) {b : Option Nat}
    (hst : w'.streams = Function.update w.streams s st)
    (hb : w'.pendingFreeBuffers = Function.update w.pendingFreeBuffers s b) :
    owner w' = Function.update (Function.update (owner w) (.inl s) st.data) (.inr s) b := by
  funext o
  rcases o with x | x <;> by_cases hx : x = s
  · subst hx
    simp [owner, hst]
  · simp [owner, hst, hx]
  · subst hx
    simp [owner, hb]
  · simp [owner, hb, hx]

/-- A step that changes one stream changes that place. -/
theorem owner_update_stream {w w' : AudioMixer} {s : Fin 8} (st : AudioStream)
    (hst : w'.streams = Function.update w.streams s st)
    (hb : w'.pendingFreeBuffers = w.pendingFreeBuffers) :
    owner w' = Function.update (owner w) (.inl s) st.data := by
  have h := owner_update st hst
    (show w'.pendingFreeBuffers = Function.update _ s (w.pendingFreeBuffers s) by
      rw [hb, Function.update_eq_self])
  rw [h, Function.update_eq_iff]
  exact ⟨rfl, fun _ _ => rfl⟩

theorem streamOk_set {w : AudioMixer} (h : ∀ s, StreamOk (w.streams s)) (i : Fin 8)
    {st : AudioStream} (hst : StreamOk st) (s : Fin 8) :
    StreamOk (Function.update w.streams i st s) := by
  by_cases hs : s = i
  · rw [hs, Function.update_self]
    exact hst
  · rw [Function.update_of_ne hs]
    exact h s

theorem streamOk_stopped (loop : Bool) : StreamOk ⟨none, 0, 0, false, loop, false⟩ :=
  ⟨rfl, nofun, nofun, nofun⟩

/-- The buffer of a stream that plays is not freed. -/
theorem Inv.data_live {w : AudioMixer} (h : Inv w) {s : Fin 8}
    (ha : (w.streams s).active = true) :
    ∃ b, (w.streams s).data = some b ∧ b ∉ w.freed := by
  obtain ⟨b, hb⟩ := Option.isSome_iff_exists.mp ((h.streams s).data.trans ha)
  exact ⟨b, hb, h.ledger.not_pool (.inl s) b hb⟩

theorem Inv.readFreed {w : AudioMixer} (h : Inv w) {s : Fin 8}
    (ha : (w.streams s).active = true) (n : Nat) :
    Audio.readFreed w (w.streams s).data n = [] := by
  obtain ⟨b, hb, hf⟩ := h.data_live ha
  rw [hb, readFreed_eq hf, h.mixed]

/-- One channel of `ProcessAudio` keeps the invariant, unless its stream ends over an occupied
slot. -/
theorem Inv.processStream {w : AudioMixer} (h : Inv w) {s : Fin 8}
    (hs : Ends w s → w.pendingFreeBuffers s = none) : Inv (Audio.processStream w s) := by
  by_cases ha : (w.streams s).active = true
  · by_cases he : Ends w s
    · obtain ⟨b, hb, -⟩ := h.data_live ha
      obtain ⟨out, n, loop, hw⟩ := processStream_ended (h.streams s) he
      have ho := owner_update ⟨none, 0, 0, false, loop, false⟩ (congrArg (·.streams) hw)
        (congrArg (·.pendingFreeBuffers) hw)
      rw [hw] at ho ⊢
      refine ⟨?_, streamOk_set h.streams s (streamOk_stopped loop), h.readFreed ha n⟩
      rw [ho, hb]
      exact h.ledger.move hb (by simp) (hs he)
    · obtain ⟨p, out, n, hok, hw⟩ := processStream_going (h.streams s) ha he
      have ho := owner_update_stream { w.streams s with position := p }
        (congrArg (·.streams) hw) (congrArg (·.pendingFreeBuffers) hw)
      rw [hw] at ho ⊢
      refine ⟨?_, streamOk_set h.streams s hok, h.readFreed ha n⟩
      rw [ho, show (w.streams s).data = owner w (.inl s) from rfl, Function.update_eq_self]
      exact h.ledger
  · rw [processStream_idle (Bool.eq_false_iff.mpr ha)]
    exact h

/-- What a channel's turn in `ProcessAudio` does to its two places. -/
def Turned (w w' : AudioMixer) (s : Fin 8) : Prop :=
  (Ends w s → (w'.streams s).data = none ∧ w'.pendingFreeBuffers s = (w.streams s).data) ∧
    (¬ Ends w s → (w'.streams s).data = (w.streams s).data ∧
      w'.pendingFreeBuffers s = w.pendingFreeBuffers s)

/-- What one channel of `ProcessAudio` changes. -/
theorem processStream_cases {w : AudioMixer} (h : ∀ s, StreamOk (w.streams s)) (s : Fin 8) :
    Turned w (processStream w s) s ∧ (∀ x, StreamOk ((processStream w s).streams x)) ∧
      (∀ x ≠ s, (processStream w s).streams x = w.streams x ∧
        (processStream w s).pendingFreeBuffers x = w.pendingFreeBuffers x) ∧
      (processStream w s).bufferSize = w.bufferSize ∧
      (processStream w s).copies = w.copies ∧ (processStream w s).freed = w.freed := by
  by_cases ha : (w.streams s).active = true
  · by_cases he : Ends w s
    · obtain ⟨out, n, loop, hw⟩ := processStream_ended (h s) he
      rw [hw]
      refine ⟨⟨fun _ => ?_, fun hn => absurd he hn⟩, streamOk_set h s (streamOk_stopped loop),
        fun x hx => ⟨Function.update_of_ne hx _ _, Function.update_of_ne hx _ _⟩, rfl, rfl, rfl⟩
      simp
    · obtain ⟨p, out, n, hok, hw⟩ := processStream_going (h s) ha he
      rw [hw]
      refine ⟨⟨fun hn => absurd hn he, fun _ => ?_⟩, streamOk_set h s hok,
        fun x hx => ⟨Function.update_of_ne hx _ _, rfl⟩, rfl, rfl, rfl⟩
      simp
  · rw [processStream_idle (Bool.eq_false_iff.mpr ha)]
    exact ⟨⟨fun he => absurd he.1 ha, fun _ => ⟨rfl, rfl⟩⟩, h, fun _ _ => ⟨rfl, rfl⟩, rfl, rfl, rfl⟩

theorem ends_congr {w w' : AudioMixer} {s : Fin 8} (hs : w'.streams s = w.streams s)
    (hb : w'.bufferSize = w.bufferSize) : Ends w' s ↔ Ends w s := by
  unfold Ends
  rw [hs, hb]

/-- The channel loop keeps the invariant where no stream ends over an occupied slot. -/
theorem Inv.processStreams {w : AudioMixer} (h : Inv w) {ss : List (Fin 8)} (hn : ss.Nodup)
    (hs : ∀ s ∈ ss, Ends w s → w.pendingFreeBuffers s = none) :
    Inv (ss.foldl Audio.processStream w) := by
  induction ss generalizing w with
  | nil => exact h
  | cons s ss ih =>
    obtain ⟨hs', hn⟩ := List.nodup_cons.mp hn
    obtain ⟨-, -, ho, hb, -⟩ := processStream_cases h.streams s
    refine ih (h.processStream (hs s List.mem_cons_self)) hn fun x hx he => ?_
    obtain ⟨h1, h2⟩ := ho x fun e => hs' (e ▸ hx)
    rw [h2]
    exact hs x (List.mem_cons_of_mem s hx) ((ends_congr h1 hb).mp he)

/-- The channel loop gives every channel its turn. -/
theorem processStreams_turned {w : AudioMixer} (h : ∀ s, StreamOk (w.streams s))
    {ss : List (Fin 8)} (hn : ss.Nodup) :
    (∀ s ∈ ss, Turned w (ss.foldl processStream w) s) ∧
      (∀ s ∉ ss, (ss.foldl processStream w).streams s = w.streams s ∧
        (ss.foldl processStream w).pendingFreeBuffers s = w.pendingFreeBuffers s) ∧
      (ss.foldl processStream w).copies = w.copies ∧
      (ss.foldl processStream w).freed = w.freed := by
  induction ss generalizing w with
  | nil => exact ⟨nofun, fun _ _ => ⟨rfl, rfl⟩, rfl, rfl⟩
  | cons s ss ih =>
    obtain ⟨hs', hn⟩ := List.nodup_cons.mp hn
    obtain ⟨ht, hok, ho, hb, hc, hf⟩ := processStream_cases h s
    obtain ⟨it, io, ic, jf⟩ := ih hok hn
    refine ⟨fun x hx => ?_, fun x hx => ?_, ic.trans hc, jf.trans hf⟩
    · by_cases hxs : x = s
      · subst hxs
        obtain ⟨h1, h2⟩ := io x hs'
        unfold Turned at ht ⊢
        rw [List.foldl_cons, h1, h2]
        exact ht
      · obtain ⟨h1, h2⟩ := ho x hxs
        have hx := it x ((List.mem_cons.mp hx).resolve_left hxs)
        unfold Turned at hx ⊢
        rw [ends_congr h1 hb, h1, h2] at hx
        exact hx
    · rw [List.mem_cons, not_or] at hx
      obtain ⟨hxs, hx⟩ := hx
      obtain ⟨h1, h2⟩ := ho x hxs
      obtain ⟨h3, h4⟩ := io x hx
      exact ⟨h3.trans h1, h4.trans h2⟩

/-- A stream that ends over an occupied slot loses the buffer in the slot. -/
theorem lost {w : AudioMixer} (h : Inv w) {s : Fin 8} (he : Ends w s) {b : Nat}
    (hb : w.pendingFreeBuffers s = some b) (o : Fin 8 ⊕ Fin 8) :
    owner ((List.finRange 8).foldl processStream w) o ≠ some b := by
  obtain ⟨ht, -⟩ := processStreams_turned h.streams (List.nodup_finRange 8)
  have hne : ∀ x, (w.streams x).data ≠ some b := fun x hx =>
    absurd (h.ledger.inj (.inl x) (.inr s) b hx hb) (by simp)
  intro hx
  rcases o with x | x <;> obtain ⟨hend, hgo⟩ := ht x (List.mem_finRange x) <;>
    by_cases hxe : Ends w x
  · exact absurd ((hend hxe).1.symm.trans hx) (by simp)
  · exact hne x ((hgo hxe).1.symm.trans hx)
  · exact hne x ((hend hxe).2.symm.trans hx)
  · have hxs := h.ledger.inj (.inr x) (.inr s) b ((hgo hxe).2.symm.trans hx) hb
    exact hxe (Sum.inr.inj hxs ▸ he)

/-! ## The steps -/

/-- `PlayBuffer` does nothing, or starts a copy of an even, positive length on an idle channel. -/
theorem playBuffer_cases (w : AudioMixer) (data : Option (Nat → UInt8)) (length : Nat)
    (loop mem : Bool) :
    playBuffer w data length loop mem = w ∨
      ∃ bytes i, length % 2 = 0 ∧ 0 < length ∧ (w.streams i).active = false ∧
        playBuffer w data length loop mem =
          { w with
            copies := w.copies ++ [bytes]
            streams := Function.update w.streams i
              ⟨some w.copies.length, length, 0, true, loop, true⟩ } := by
  unfold playBuffer
  cases data with
  | none => exact .inl rfl
  | some data =>
    by_cases hg : length = 0 ∨ length % 2 ≠ 0 ∨ (!w.driver) = true
    · exact .inl (if_pos hg)
    · simp only [if_neg hg]
      cases hi : (List.finRange 8).find? fun i => !(w.streams i).active with
      | none => exact .inl rfl
      | some i =>
        cases mem with
        | false => exact .inl rfl
        | true =>
          have hidle : (w.streams i).active = false := by simpa using List.find?_some hi
          exact .inr ⟨(List.range length).map data, i, by omega, by omega, hidle, rfl⟩

theorem Inv.playBuffer {w : AudioMixer} (h : Inv w) (data : Option (Nat → UInt8)) {length : Nat}
    (hlen : length < 2 ^ 32) (loop mem : Bool) :
    Inv (Audio.playBuffer w data length loop mem) := by
  rcases playBuffer_cases w data length loop mem with hw | ⟨bytes, i, he, h0, hidle, hw⟩
  · rw [hw]
    exact h
  · have hnone : owner w (.inl i) = none := by
      have hd := (h.streams i).data
      rw [hidle] at hd
      exact Option.not_isSome_iff_eq_none.mp (by simp [owner, hd])
    have hok : StreamOk ⟨some w.copies.length, length, 0, true, loop, true⟩ :=
      ⟨rfl, fun _ => rfl, fun _ => ⟨he, rfl⟩, fun _ => ⟨h0, Nat.zero_le _, hlen⟩⟩
    have ho := owner_update_stream _ (congrArg (·.streams) hw)
      (congrArg (·.pendingFreeBuffers) hw)
    rw [hw] at ho ⊢
    refine ⟨?_, streamOk_set h.streams i hok, h.mixed⟩
    rw [ho]
    refine (h.ledger.assign (Nat.lt_irrefl w.copies.length) hnone).congr_issued fun x => ?_
    simp only [List.length_append, List.length_singleton]
    omega

theorem freePending_some {w : AudioMixer} {i : Fin 8} {b : Nat}
    (hb : w.pendingFreeBuffers i = some b) :
    freePending w i =
      { w with
        freed := b :: w.freed
        pendingFreeBuffers := Function.update w.pendingFreeBuffers i none
        pendingFreeLengths := Function.update w.pendingFreeLengths i 0 } := by
  rw [freePending, hb]

theorem Inv.freePending {w : AudioMixer} (h : Inv w) (i : Fin 8) : Inv (Audio.freePending w i) := by
  cases hb : w.pendingFreeBuffers i with
  | none =>
    rw [Audio.freePending, hb]
    exact h
  | some b =>
    have hw := freePending_some hb
    have hst : (Audio.freePending w i).streams = Function.update w.streams i (w.streams i) := by
      rw [hw, Function.update_eq_self]
    have ho := owner_update _ hst (congrArg (·.pendingFreeBuffers) hw)
    rw [show (w.streams i).data = owner w (.inl i) from rfl, Function.update_eq_self] at ho
    rw [hw] at ho ⊢
    refine ⟨?_, h.streams, h.mixed⟩
    rw [ho]
    exact h.ledger.give (show owner w (.inr i) = some b from hb)

theorem Inv.drain {w : AudioMixer} (h : Inv w) : Inv (Audio.drain w) := by
  unfold Audio.drain
  split_ifs with hg
  · exact h
  · exact List.foldlRecOn _ _ h fun w h i _ => h.freePending i

theorem Inv.processAudio {w : AudioMixer} (h : Inv w) (hs : SlotsDrained w .process) :
    Inv (Audio.processAudio w) := by
  unfold Audio.processAudio
  split_ifs with hg
  · exact h
  · have hg : w.driver = true ∧ w.mixBuffer = true := by simpa using hg
    have h0 : Inv { w with out := fun _ => 0 } := ⟨h.ledger, h.streams, h.mixed⟩
    exact h0.processStreams (List.nodup_finRange 8) fun s _ he => hs hg.1 hg.2 s he

theorem inv_step {w : AudioMixer} (h : Inv w) {op : Op} (hs : SlotsDrained w op) :
    Inv (step w op) := by
  cases op with
  | play data length loop mem => exact h.playBuffer data (Nat.mod_lt _ (by decide)) loop mem
  | drain => exact h.drain
  | process => exact h.processAudio hs

theorem Inv.accounted {w : AudioMixer} (h : Inv w) : Accounted w := by
  intro b hb
  rcases h.ledger.exactly_one hb with ⟨h1, h2⟩ | ⟨h1, h2⟩
  · exact .inr ⟨h1, h2⟩
  · exact .inl ⟨h1, h2⟩

theorem inv_new (driver mixBuffer : Bool) (bufferSize : Nat) :
    Inv (AudioMixer.new driver mixBuffer bufferSize) where
  ledger := by
    have ho : owner (AudioMixer.new driver mixBuffer bufferSize) = fun _ => none := by
      funext o
      rcases o with s | s <;> rfl
    rw [ho]
    exact Ledger.empty.congr_issued fun b => by simp [AudioMixer.new]
  streams := fun _ => streamOk_stopped false
  mixed := rfl

/-- A step over an occupied slot does not leave every buffer accounted for. -/
theorem not_accounted {w : AudioMixer} (h : Inv w) {op : Op} (hs : ¬ SlotsDrained w op) :
    ¬ Accounted (step w op) := by
  cases op with
  | play data length loop mem => exact absurd trivial hs
  | drain => exact absurd trivial hs
  | process =>
    simp only [SlotsDrained, Classical.not_forall] at hs
    obtain ⟨hd, hm, s, he, hp⟩ := hs
    obtain ⟨b, hb⟩ := Option.ne_none_iff_exists'.mp hp
    have h0 : Inv { w with out := fun _ => 0 } := ⟨h.ledger, h.streams, h.mixed⟩
    obtain ⟨-, -, hc, hf⟩ := processStreams_turned h0.streams (List.nodup_finRange 8)
    have hl := lost h0 he hb
    have hstep : step w .process =
        (List.finRange 8).foldl processStream { w with out := fun _ => 0 } := by
      simp only [step, processAudio, hd, hm, Bool.not_true, Bool.or_self, if_false,
        Bool.false_eq_true]
    intro ha
    rw [hstep] at ha
    have hlt := h.ledger.owner_issued (.inr s) b hb
    rcases ha b (hlt.trans_eq (congrArg List.length hc.symm)) with ⟨-, o, ho, -⟩ | ⟨hone, -⟩
    · exact hl o ho
    · rw [hf] at hone
      exact h.ledger.not_pool (.inr s) b hb (List.count_pos_iff.mp (hone ▸ Nat.one_pos))

/-- Along a run, every buffer is accounted for and no freed buffer is mixed, exactly while no
stream ends over an occupied slot. -/
theorem accounted_iff (driver mixBuffer : Bool) (bufferSize : Nat) (ops : List Op) :
    Along step (fun w op => Accounted (step w op) ∧ (step w op).mixedFreed = [])
        (AudioMixer.new driver mixBuffer bufferSize) ops ↔
      Along step SlotsDrained (AudioMixer.new driver mixBuffer bufferSize) ops :=
  Along.iff_of_inv (fun _ _ h hs => inv_step h hs)
    (fun _ _ h => ⟨fun ha => Classical.not_not.mp fun hs => not_accounted h hs ha.1,
      fun hs => ⟨(inv_step h hs).accounted, (inv_step h hs).mixed⟩⟩)
    (inv_new driver mixBuffer bufferSize)

/-- Two short sounds on one channel, both at their end before the waiting buffers are freed. -/
def twoSounds : List Op :=
  [.play (some fun _ => 0) 2 false true, .process, .play (some fun _ => 0) 2 false true, .process]

/-- The buffer of the first sound is lost. -/
theorem first_sound_lost : ¬ Accounted (run step (AudioMixer.new true true 4) twoSounds) := by
  intro h
  have ho : ∀ o, owner (run step (AudioMixer.new true true 4) twoSounds) o ≠ some 0 := by decide
  rcases h 0 (by decide) with ⟨-, o, h0, -⟩ | ⟨h0, -⟩
  · exact ho o h0
  · exact absurd h0 (by decide)

end Audio
end Hashx86
