import Hashx86.Audio.Mixer
import Hashx86.Lib.Saturate
import Mathlib.Logic.Equiv.Basic

/-!
# What the mixer plays (`AudioMixer::ProcessAudio`)

The sum is saturated after each stream, so with three streams or more it can depend on the order of
the channels.

* `upcoming`: the samples that a stream plays from now on.
* `mixSamples_out`, `mixSamples_upcoming`: the sample loop adds them and moves past them.
* `mixes`: each output sample is the saturating sum of the samples of the streams that play, in the
  order of the channels, and each stream continues after the samples it gave.
-/

namespace Hashx86
namespace Audio

open Lib

/-- The index of the sample that a stream plays `j` samples from now, if it plays one. -/
def upcoming (st : AudioStream) (j : Nat) : Option Nat :=
  if !st.active then none
  else if st.looping then some ((st.position / 2 + j) % (st.length / 2))
  else if st.position / 2 + j < st.length / 2 then some (st.position / 2 + j)
  else none

/-- The sample that channel `s` gives to the output sample `i`, if it gives one. -/
def sample (w : AudioMixer) (i : Nat) (s : Fin 8) : Option Int :=
  (upcoming (w.streams s) i).map (sampleAt (contents w (w.streams s).data))

/-- The samples given to the output sample `i`, in the order of the channels. -/
def heard (w : AudioMixer) (i : Nat) : List Int := (List.finRange 8).filterMap (sample w i)

/-- A value of an `int16_t`. -/
def InRange (a : Int) : Prop := -32768 ≤ a ∧ a ≤ 32767

/-- An output sample after a stream gave it a sample, or none. -/
def mixed (a : Int) : Option Int → Int
  | none => a
  | some b => clampAdd a b

theorem clampAdd_eq (a b : Int) : clampAdd a b = satAdd (-32768) 32767 a b := by
  unfold clampAdd satAdd saturate
  split_ifs <;> omega

theorem inRange_sampleAt (bytes : List UInt8) (k : Nat) : InRange (sampleAt bytes k) := by
  unfold InRange sampleAt
  generalize BitVec.ofNat 16 _ = v
  have hlo := BitVec.le_toInt v
  have hhi := BitVec.toInt_lt (x := v)
  constructor <;> omega

theorem inRange_heard {w : AudioMixer} {i : Nat} {a : Int} (ha : a ∈ heard w i) : InRange a := by
  obtain ⟨s, -, hs⟩ := List.mem_filterMap.mp ha
  obtain ⟨k, -, rfl⟩ := Option.map_eq_some_iff.mp hs
  exact inRange_sampleAt _ k

def StreamsOk (w : AudioMixer) : Prop := ∀ s, StreamOk (w.streams s)

/-! ## One stream -/

theorem upcoming_idle {st : AudioStream} (ha : st.active = false) (j : Nat) :
    upcoming st j = none := by
  rw [upcoming, ha, Bool.not_false, if_pos rfl]

theorem upcoming_over {st : AudioStream} (hloop : st.looping = false)
    (hend : st.length ≤ st.position) (j : Nat) : upcoming st j = none := by
  have hno : ¬ st.position / 2 + j < st.length / 2 := by omega
  unfold upcoming
  simp only [hloop, hno, if_false, Bool.false_eq_true, ite_self]

/-- Starting again at the end of the buffer plays the same samples. -/
theorem upcoming_rewound {st : AudioStream} {q : Nat}
    (hq : q = st.position ∨ st.looping = true ∧ st.position = st.length ∧ q = 0) (j : Nat) :
    upcoming { st with position := q } j = upcoming st j := by
  rcases hq with rfl | ⟨hloop, hp, rfl⟩
  · rfl
  · have hmod : (0 / 2 + j) % (st.length / 2) = (st.position / 2 + j) % (st.length / 2) := by
      rw [hp, Nat.add_mod_left, Nat.zero_div, Nat.zero_add]
    unfold upcoming
    simp only [hloop, hmod, if_true]

theorem upcoming_advance (st : AudioStream) (q j : Nat) :
    upcoming { st with position := q + 2 } j = upcoming { st with position := q } (j + 1) := by
  have hs : (q + 2) / 2 + j = q / 2 + (j + 1) := by omega
  unfold upcoming
  simp only [hs]

/-- A stream at its first sample of the loop plays it. -/
theorem upcoming_zero {st : AudioStream} (h : StreamOk st) (ha : st.active = true) {q : Nat}
    (hq : q % 2 = 0) (hql : q < st.length) :
    upcoming { st with position := q } 0 = some (q / 2) := by
  obtain ⟨hl, -⟩ := h.even ha
  have hlt : q / 2 < st.length / 2 := by omega
  unfold upcoming
  simp only [ha, Nat.add_zero, Nat.mod_eq_of_lt hlt, hlt, if_true, ite_self, Bool.not_true,
    Bool.false_eq_true, if_false]

/-- The sample loop adds to each output sample what the stream plays there. -/
theorem mixSamples_out (bytes : List UInt8) (n i : Nat) {st : AudioStream} (out : Nat → Int)
    (h : StreamOk st) (ha : st.active = true) (k : Nat) :
    (mixSamples bytes n i st out).2.1 k =
      if i ≤ k ∧ k < i + n then mixed (out k) ((upcoming st (k - i)).map (sampleAt bytes))
      else out k := by
  induction n generalizing i st out with
  | zero => rw [if_neg (by omega), mixSamples]
  | succ n ih =>
    rcases rewind_cases h ha with ⟨hloop, hend, hw⟩ | ⟨q, hq, hql, hcase, hw⟩
    · rw [mixSamples, hw, upcoming_over hloop hend, Option.map_none, mixed, ite_self]
    · obtain ⟨hmod, hok⟩ := h.advance ha hq hql
      rw [mixSamples, hw]
      simp only
      rw [ih (i + 1) _ hok ha, ← upcoming_rewound hcase]
      by_cases hk : k = i
      · subst hk
        rw [if_neg (by omega), if_pos (by omega), Function.update_self, Nat.sub_self,
          upcoming_zero h ha hq hql]
        rfl
      · rw [Function.update_of_ne hk, hmod]
        by_cases hin : i + 1 ≤ k ∧ k < i + 1 + n
        · have hs : k - (i + 1) + 1 = k - i := by omega
          rw [if_pos hin, if_pos (by omega), upcoming_advance st, hs]
        · rw [if_neg hin, if_neg (by omega)]

/-- The sample loop leaves the stream after the samples that it played. -/
theorem mixSamples_upcoming (bytes : List UInt8) (n i : Nat) {st : AudioStream} (out : Nat → Int)
    (h : StreamOk st) (ha : st.active = true) (j : Nat) :
    upcoming (mixSamples bytes n i st out).1 j = upcoming st (n + j) := by
  induction n generalizing i st out with
  | zero => rw [mixSamples, Nat.zero_add]
  | succ n ih =>
    rcases rewind_cases h ha with ⟨hloop, hend, hw⟩ | ⟨q, hq, hql, hcase, hw⟩
    · rw [mixSamples, hw, upcoming_over hloop hend, upcoming_idle rfl]
    · obtain ⟨hmod, hok⟩ := h.advance ha hq hql
      rw [mixSamples, hw]
      refine (ih (i + 1) _ hok ha).trans ?_
      rw [hmod, upcoming_advance st, upcoming_rewound hcase]
      congr 1
      omega

/-- A stream that still plays after the loop is `n` samples further, around a looping buffer. -/
theorem mixSamples_position (bytes : List UInt8) (n i : Nat) {st : AudioStream} (out : Nat → Int)
    (h : StreamOk st) (ha : st.active = true)
    (hg : (mixSamples bytes n i st out).1.active = true) :
    if st.looping then
      (mixSamples bytes n i st out).1.position ≡ st.position + 2 * n [MOD st.length]
    else (mixSamples bytes n i st out).1.position = st.position + 2 * n := by
  induction n generalizing i st out with
  | zero =>
    split_ifs
    · rfl
    · rfl
  | succ n ih =>
    rcases rewind_cases h ha with ⟨-, -, hw⟩ | ⟨q, hq, hql, hcase, hw⟩
    · rw [mixSamples, hw] at hg
      cases hg
    · obtain ⟨hmod, hok⟩ := h.advance ha hq hql
      rw [mixSamples, hw] at hg ⊢
      have hnext := ih (i + 1) _ hok ha hg
      simp only [hmod] at hnext ⊢
      have hsum : st.position + 2 * (n + 1) = st.position + 2 + 2 * n := by omega
      rcases hcase with rfl | ⟨hloop, hp, rfl⟩
      · rwa [hsum]
      · rw [if_pos hloop] at hnext
        rw [if_pos hloop, hsum]
        refine hnext.trans (Nat.ModEq.add_right _ (Nat.ModEq.add_right 2 ?_))
        rw [hp]
        exact (Nat.modEq_zero_iff_dvd.mpr dvd_rfl).symm

/-! ## All channels -/

/-- The sample loop of a channel. -/
def mixStream (w : AudioMixer) (s : Fin 8) : AudioStream × (Nat → Int) × Nat :=
  mixSamples (contents w (w.streams s).data) (w.bufferSize / 2) 0 (w.streams s) w.out

theorem processStream_out {w : AudioMixer} {s : Fin 8} (ha : (w.streams s).active = true) :
    (processStream w s).out = (mixStream w s).2.1 := by
  unfold processStream
  simp only [ha, Bool.not_true, Bool.false_eq_true, if_false]
  split_ifs <;> rfl

/-- A stream is left as the sample loop left it, or has stopped. -/
theorem processStream_stream {w : AudioMixer} {s : Fin 8} (ha : (w.streams s).active = true) :
    (processStream w s).streams s = (mixStream w s).1 ∨
      ((processStream w s).streams s).active = false ∧ (mixStream w s).1.active = false := by
  unfold processStream
  simp only [ha, Bool.not_true, Bool.false_eq_true, if_false]
  split_ifs with hend
  · have hstop : (mixStream w s).1.active = false := by
      unfold mixStream
      simp_all
    refine .inr ⟨?_, hstop⟩
    simp only [Function.update_self]
    exact hstop
  · exact .inl (Function.update_self _ _ _)

/-- The stream `st'` is the stream `st` after `n` samples: it plays on from there, and it has
stopped if they were not all in the buffer. -/
structure Advanced (n : Nat) (st st' : AudioStream) : Prop where
  next : ∀ j, upcoming st' j = upcoming st (n + j)
  active : st'.active = true ↔
    st.active = true ∧ (st.looping = true ∨ st.position + 2 * n ≤ st.length)
  position : st'.active = true →
    if st.looping then st'.position ≡ st.position + 2 * n [MOD st.length]
    else st'.position = st.position + 2 * n

theorem advanced_idle {st : AudioStream} (ha : st.active = false) (n : Nat) : Advanced n st st where
  next := fun j => by rw [upcoming_idle ha, upcoming_idle ha]
  active := by simp [ha]
  position := fun hg => by simp [ha] at hg

theorem processStream_advanced {w : AudioMixer} {s : Fin 8} (h : StreamOk (w.streams s)) :
    Advanced (w.bufferSize / 2) (w.streams s) ((processStream w s).streams s) := by
  by_cases ha : (w.streams s).active = true
  · refine ⟨fun j => ?_, ?_, fun hg => ?_⟩
    · rw [← mixSamples_upcoming _ _ 0 w.out h ha]
      rcases processStream_stream ha with he | ⟨h1, h2⟩
      · rw [he, mixStream]
      · rw [upcoming_idle h1]
        exact (upcoming_idle h2 j).symm
    · rw [← not_ends_iff ha]
      by_cases he : Ends w s
      · obtain ⟨out, n, loop, hw⟩ := processStream_ended h he
        simp [hw, he]
      · obtain ⟨p, out, n, -, hw⟩ := processStream_going h ha he
        simp [hw, he, ha]
    · rcases processStream_stream ha with he | ⟨h1, -⟩
      · rw [he] at hg ⊢
        exact mixSamples_position _ _ 0 w.out h ha hg
      · exact absurd hg (by simp [h1])
  · have ha := Bool.eq_false_iff.mpr ha
    rw [processStream_idle ha]
    exact advanced_idle ha _

theorem processStream_mixed {w : AudioMixer} {s : Fin 8} (h : StreamOk (w.streams s)) {i : Nat}
    (hi : i < w.bufferSize / 2) : (processStream w s).out i = mixed (w.out i) (sample w i s) := by
  by_cases ha : (w.streams s).active = true
  · rw [processStream_out ha, mixStream, mixSamples_out _ _ _ _ h ha, if_pos (by omega),
      Nat.sub_zero]
    rfl
  · have ha := Bool.eq_false_iff.mpr ha
    rw [processStream_idle ha, sample, upcoming_idle ha, Option.map_none, mixed]

theorem sample_congr {w w' : AudioMixer} {s : Fin 8} (hs : w'.streams s = w.streams s)
    (hc : w'.copies = w.copies) (i : Nat) : sample w' i s = sample w i s := by
  unfold sample contents
  rw [hs, hc]

/-- The channel loop adds the samples of the channels in their order. -/
theorem processStreams_out {w : AudioMixer} (h : StreamsOk w) {ss : List (Fin 8)}
    (hn : ss.Nodup) {i : Nat} (hi : i < w.bufferSize / 2) :
    (ss.foldl processStream w).out i = (ss.filterMap (sample w i)).foldl clampAdd (w.out i) := by
  induction ss generalizing w with
  | nil => rfl
  | cons s ss ih =>
    obtain ⟨hs, hn⟩ := List.nodup_cons.mp hn
    obtain ⟨-, hok, ho, hb, hc, -⟩ := processStream_cases h s
    have hrest : ss.filterMap (sample (processStream w s) i) = ss.filterMap (sample w i) :=
      List.filterMap_congr fun x hx => sample_congr (ho x fun e => hs (e ▸ hx)).1 hc i
    rw [List.foldl_cons, ih hok hn (hi.trans_eq (by rw [hb])), hrest, processStream_mixed (h s) hi]
    cases hx : sample w i s with
    | none => rw [List.filterMap_cons_none hx, mixed]
    | some a => rw [List.filterMap_cons_some hx, mixed, List.foldl_cons]

/-- The channel loop advances every stream once. -/
theorem processStreams_advanced {w : AudioMixer} (h : StreamsOk w)
    {ss : List (Fin 8)} (hn : ss.Nodup) {s : Fin 8} (hs : s ∈ ss) :
    Advanced (w.bufferSize / 2) (w.streams s) ((ss.foldl processStream w).streams s) := by
  induction ss generalizing w with
  | nil => exact absurd hs List.not_mem_nil
  | cons x ss ih =>
    obtain ⟨hx, hn'⟩ := List.nodup_cons.mp hn
    obtain ⟨-, hok, ho, hb, -⟩ := processStream_cases h x
    rw [List.foldl_cons]
    by_cases hsx : s = x
    · subst hsx
      rw [((processStreams_turned hok hn').2.1 s hx).1]
      exact processStream_advanced (h s)
    · have hrest := ih hok hn' ((List.mem_cons.mp hs).resolve_left hsx)
      rwa [hb, (ho s hsx).1] at hrest

theorem processAudio_on {w : AudioMixer} (hd : w.driver = true) (hm : w.mixBuffer = true) :
    processAudio w = (List.finRange 8).foldl processStream { w with out := fun _ => 0 } := by
  rw [processAudio, hd, hm]
  rfl

theorem processAudio_out {w : AudioMixer} (h : StreamsOk w) (hd : w.driver = true)
    (hm : w.mixBuffer = true) {i : Nat} (hi : i < w.bufferSize / 2) :
    (processAudio w).out i = (heard w i).foldl clampAdd 0 := by
  rw [processAudio_on hd hm]
  exact processStreams_out (w := { w with out := fun _ => 0 }) h (List.nodup_finRange 8) hi

/-- The sum of the samples saturated once, if no partial sum leaves the range. -/
theorem processAudio_sum {w : AudioMixer} (h : StreamsOk w) (hd : w.driver = true)
    (hm : w.mixBuffer = true) {i : Nat} (hi : i < w.bufferSize / 2)
    (hp : (heard w i).length ≤ 2 ∨ ∀ n < (heard w i).length, InRange ((heard w i).take n).sum) :
    (processAudio w).out i = saturate (-32768) 32767 (heard w i).sum := by
  rw [processAudio_out h hd hm hi, show clampAdd = satAdd (-32768) 32767 from
    funext fun a => funext (clampAdd_eq a)]
  rcases hp with hlen | hp
  · exact foldl_satAdd_pair (by decide) hlen fun a ha => inRange_heard ha
  · exact foldl_satAdd (by decide) hp

/-- The streams of the channels, moved to other channels. -/
def permute (w : AudioMixer) (σ : Equiv.Perm (Fin 8)) : AudioMixer :=
  { w with streams := w.streams ∘ σ }

theorem heard_permute (w : AudioMixer) (σ : Equiv.Perm (Fin 8)) (i : Nat) :
    (heard (permute w σ) i).Perm (heard w i) := by
  have hmap : heard (permute w σ) i = ((List.finRange 8).map σ).filterMap (sample w i) := by
    rw [List.filterMap_map]
    rfl
  rw [hmap]
  exact (Equiv.Perm.map_finRange_perm σ).filterMap _

theorem streamsOk_step {w : AudioMixer} (h : StreamsOk w) (op : Op) : StreamsOk (step w op) := by
  cases op with
  | play data length loop mem =>
    rcases playBuffer_cases w data (length % 2 ^ 32) loop mem with hw | ⟨bytes, i, he, h0, -, hw⟩
    · rw [step, hw]
      exact h
    · rw [step, hw]
      exact streamOk_set h i ⟨rfl, fun _ => rfl, fun _ => ⟨he, rfl⟩,
        fun _ => ⟨h0, Nat.zero_le _, Nat.mod_lt _ (by decide)⟩⟩
  | drain =>
    unfold step drain
    split_ifs with hg
    · exact h
    · refine List.foldlRecOn (motive := StreamsOk) _ _ h fun w h i _ => ?_
      unfold freePending
      split
      · exact h
      · exact h
  | process =>
    unfold step processAudio
    split_ifs with hg
    · exact h
    · exact List.foldlRecOn (motive := StreamsOk) _ _ h fun w h i _ => (processStream_cases h i).2.1

/-- The streams of every state that the mixer reaches are as `mixes` needs them. -/
theorem streamsOk_run (driver mixBuffer : Bool) (bufferSize : Nat) (ops : List Op) :
    StreamsOk (run step (AudioMixer.new driver mixBuffer bufferSize) ops) := by
  have hnew : StreamsOk (AudioMixer.new driver mixBuffer bufferSize) := fun _ =>
    streamOk_stopped false
  refine run_inv (I := StreamsOk) (Q := fun _ _ => True) ?_ hnew (along_true step _ ops)
  exact fun _ op h _ => streamsOk_step h op

/-- Each output sample is the saturating sum of the samples of the streams that play, in the order
of the channels. It is their sum saturated once when no partial sum leaves the range, and does not
depend on the channels of at most two streams. Each stream continues after the samples it gave. -/
theorem mixes {w : AudioMixer} (h : StreamsOk w) (hd : w.driver = true)
    (hm : w.mixBuffer = true) :
    (∀ i < w.bufferSize / 2,
      (processAudio w).out i = (heard w i).foldl clampAdd 0 ∧
        ((heard w i).length ≤ 2 ∨ (∀ n < (heard w i).length, InRange ((heard w i).take n).sum) →
          (processAudio w).out i = saturate (-32768) 32767 (heard w i).sum) ∧
        ((heard w i).length ≤ 2 →
          ∀ σ, (processAudio (permute w σ)).out i = (processAudio w).out i)) ∧
      ∀ s, Advanced (w.bufferSize / 2) (w.streams s) ((processAudio w).streams s) := by
  refine ⟨fun i hi => ⟨processAudio_out h hd hm hi, processAudio_sum h hd hm hi,
    fun hlen σ => ?_⟩, fun s => ?_⟩
  · have hperm := heard_permute w σ i
    rw [processAudio_sum (w := permute w σ) (fun s => h (σ s)) hd hm hi
      (.inl (hperm.length_eq.trans_le hlen)), processAudio_sum h hd hm hi (.inl hlen),
      hperm.sum_eq]
  · rw [processAudio_on hd hm]
    exact processStreams_advanced (w := { w with out := fun _ => 0 }) h (List.nodup_finRange 8)
      (List.mem_finRange s)

/-- Two streams at the top of the range, and a third one at the bottom. -/
def loud : AudioMixer :=
  run step (AudioMixer.new true true 4)
    [.play (some fun i => if i = 0 then 0xFF else 0x7F) 2 false true,
      .play (some fun i => if i = 0 then 0xFF else 0x7F) 2 true true,
      .play (some fun i => if i = 0 then 0x00 else 0x80) 2 true true]

theorem mixes_loud :
    Advanced 2 (loud.streams 0) ((processAudio loud).streams 0) ∧
      (processAudio loud).out 1 = saturate (-32768) 32767 (heard loud 1).sum := by
  obtain ⟨hout, hst⟩ := mixes (w := loud) (streamsOk_run true true 4 _) (by decide) (by decide)
  exact ⟨hst 0, (hout 1 (by decide)).2.1 (.inl (by decide))⟩

/-- The three samples are added up to -1, where their exact sum 32766 is in the range. -/
theorem loud_not_exact :
    ¬ ∀ i < loud.bufferSize / 2,
      (processAudio loud).out i = saturate (-32768) 32767 (heard loud i).sum := by
  intro h
  exact absurd (h 0 (by decide)) (by decide)

end Audio
end Hashx86
