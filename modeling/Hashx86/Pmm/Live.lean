import Hashx86.Pmm.Counter

/-!
# The allocations that are live

A client of the PMM keeps the extents it got and gives them back one by one. `World` is the PMM
with the list of live extents, `lstep` one call of the client. The start is any state that
`pmm_init` and further calls reach with an exact counter and with frame 0 reserved (`Boot`).

* `Inv`: live extents are apart, managed, used, and none has frame 0.
* `Answers`: what the answer of an allocation means in the state before it.
* `live_run`: over every run the live extents are apart and in range, and each answer is right.
-/

namespace Hashx86
namespace Pmm

open Lib

/-- `len` frames from `start` on. -/
structure Extent where
  start : Nat
  len : Nat
  deriving DecidableEq

def Extent.Has (e : Extent) (f : Nat) : Prop := e.start ≤ f ∧ f < e.start + e.len

/-- No frame is in both. -/
def Extent.Apart (e e' : Extent) : Prop := ∀ f, e.Has f → ¬ e'.Has f

structure World where
  pmm : Info
  live : List Extent

/-- A call of the client. A release names its extent by the position in the list of live ones. -/
inductive Call where
  | allocBlock
  | allocBlockLow (limitAddr : UInt32)
  | allocBlocks (size : UInt32)
  | freeBlock (kd : Option KernelDir) (i : Nat)
  | freeBlocks (i : Nat)

/-- The number of frames that an allocation asks for. -/
def Call.size : Call → Nat
  | .allocBlocks size => size.toNat
  | _ => 1

/-- The answer of an allocation and the state of the PMM after it. -/
def request (p : Info) : Call → Option (Nat × Info)
  | .allocBlock => some (allocBlock p)
  | .allocBlockLow limit => some (allocBlockLow p limit.toNat)
  | .allocBlocks size => some (allocBlocks p size.toNat)
  | _ => none

/-- The extent that an answer stands for; `NULL` is none. -/
def extentOf (addr size : Nat) : List Extent := if addr = 0 then [] else [⟨addr / 4096, size⟩]

/-- One call. -/
def lstep (w : World) (c : Call) : World :=
  match request w.pmm c with
  | some (addr, p) => ⟨p, extentOf addr c.size ++ w.live⟩
  | none =>
    match c with
    | .freeBlock kd i =>
      match w.live[i]? with
      | some e => ⟨freeBlock w.pmm kd (e.start * 4096), w.live.eraseIdx i⟩
      | none => w
    | .freeBlocks i =>
      match w.live[i]? with
      | some e => ⟨freeBlocks w.pmm (e.start * 4096) e.len, w.live.eraseIdx i⟩
      | none => w
    | _ => w

/-- Extent `e` would serve the allocation: its frames are free, and a low one ends at its limit. -/
def Serves (p : Info) : Call → Extent → Prop
  | .allocBlockLow limit, e => IsRun (Free p) 1 e.start ∧ (e.start + 1) * 4096 ≤ limit.toNat
  | .allocBlocks size, e => IsRun (Free p) size.toNat e.start
  | _, e => IsRun (Free p) 1 e.start

/-- The answer of an allocation is `NULL`, with nothing changed, exactly when no extent serves it.
Another answer is the address of an extent that serves it and lies in the managed frames. -/
def Answers (w : World) (c : Call) : Prop :=
  ∀ addr p, request w.pmm c = some (addr, p) →
    (addr = 0 ↔ ∀ e, ¬ Serves w.pmm c e) ∧
    (addr = 0 → p = w.pmm) ∧
    (addr ≠ 0 → addr % 4096 = 0 ∧ addr + c.size * 4096 ≤ w.pmm.maxBlocks * 4096 ∧
      Serves w.pmm c ⟨addr / 4096, c.size⟩)

/-- A PMM as the boot code leaves it: frame 0 is reserved. -/
def Boot (p : Info) : Prop :=
  (∃ old bitmap total ops, p = run step (init old bitmap total) ops ∧ total < 2 ^ 32 ∧
    Along step StepOk (init old bitmap total) ops) ∧ ¬ Free p 0

theorem Boot.wf {p : Info} (h : Boot p) : Wf p := by
  obtain ⟨⟨old, bitmap, total, ops, rfl, ht, hok⟩, -⟩ := h
  exact run_inv (I := Wf) (fun _ _ h hok => wf_step h hok) (wf_init old bitmap ht) hok

/-! ## The invariant -/

structure Inv (w : World) : Prop where
  wf : Wf w.pmm
  reserved : ¬ Free w.pmm 0
  apart : w.live.Pairwise Extent.Apart
  used : ∀ e ∈ w.live, ∀ f, e.Has f → ¬ Free w.pmm f
  range : ∀ e ∈ w.live, 0 < e.len ∧ 0 < e.start ∧ e.start + e.len ≤ w.pmm.maxBlocks

theorem inv_boot {p : Info} (h : Boot p) : Inv ⟨p, []⟩ where
  wf := h.wf
  reserved := h.2
  apart := .nil
  used := by simp
  range := by simp

/-- A run of free frames does not start at the reserved frame. -/
theorem Inv.start_ne_zero {w : World} (h : Inv w) {a s : Nat} (hr : IsRun (Free w.pmm) s a) :
    a ≠ 0 := by
  rintro rfl
  exact h.reserved (hr.2 0 (Nat.le_refl 0) (by have := hr.1; omega))

/-- A free extent is taken: its frames were free, so no live extent has one. -/
theorem Inv.take {w : World} (h : Inv w) {p : Info} {a s : Nat} (hr : IsRun (Free w.pmm) s a)
    (hwf : Wf p) (hm : p.maxBlocks = w.pmm.maxBlocks)
    (hf : ∀ g, Free p g ↔ Free w.pmm g ∧ ¬ (a ≤ g ∧ g < a + s)) : Inv ⟨p, ⟨a, s⟩ :: w.live⟩ := by
  have h0 := h.start_ne_zero hr
  refine ⟨hwf, fun hz => h.reserved ((hf 0).mp hz).1, ?_, ?_, ?_⟩
  · refine .cons (fun e he f hn ho => h.used e he f ho (hr.2 f hn.1 hn.2)) h.apart
  · intro e he f hef hfree
    obtain ⟨h1, h2⟩ := (hf f).mp hfree
    rcases List.mem_cons.mp he with rfl | he
    · exact h2 hef
    · exact h.used e he f hef h1
  · intro e he
    rcases List.mem_cons.mp he with rfl | he
    · exact ⟨hr.1, Nat.pos_of_ne_zero h0, by rw [hm]; exact run_le hr⟩
    · rw [hm]; exact h.range e he

/-- An extent is given back: only its own frames become free. -/
theorem Inv.release {w : World} (h : Inv w) {p : Info} {i : Nat} {e : Extent}
    (hi : w.live[i]? = some e) (hwf : Wf p) (hm : p.maxBlocks = w.pmm.maxBlocks)
    (hf : ∀ g, Free p g → Free w.pmm g ∨ e.Has g) : Inv ⟨p, w.live.eraseIdx i⟩ := by
  obtain ⟨hlt, rfl⟩ := List.getElem?_eq_some_iff.mp hi
  have hmem : ∀ e' ∈ w.live.eraseIdx i, e' ∈ w.live := fun e' => List.mem_of_mem_eraseIdx
  have hpos := (h.range _ (List.getElem_mem hlt)).2.1
  -- The other extents are apart from the one given back.
  have hap : ∀ e' ∈ w.live.eraseIdx i, ∀ f, e'.Has f → ¬ (w.live[i]).Has f := by
    intro e' he' f h1 h2
    obtain ⟨j, hne, hj⟩ := List.mem_eraseIdx_iff_getElem?.mp he'
    obtain ⟨hjlt, rfl⟩ := List.getElem?_eq_some_iff.mp hj
    rcases Nat.lt_or_gt_of_ne hne with hlt' | hgt
    · exact List.pairwise_iff_getElem.mp h.apart j i hjlt hlt hlt' f h1 h2
    · exact List.pairwise_iff_getElem.mp h.apart i j hlt hjlt hgt f h2 h1
  refine ⟨hwf, ?_, h.apart.sublist (List.eraseIdx_sublist _ _), ?_, ?_⟩
  · intro hz
    rcases hf 0 hz with hz | hz
    · exact h.reserved hz
    · exact absurd hz.1 (by omega)
  · intro e' he' f hef hfree
    rcases hf f hfree with h1 | h1
    · exact h.used e' (hmem e' he') f hef h1
    · exact hap e' he' f hef h1
  · exact fun e' he' => hm ▸ h.range e' (hmem e' he')

/-! ## Allocation -/

/-- The two outcomes of a request: `NULL` with nothing changed, or an extent that serves it. -/
theorem request_cases {p : Info} (h : Wf p) {c : Call} {r : Nat × Info} (hc : request p c = some r) :
    (r = (0, p) ∧ ∀ e, ¬ Serves p c e) ∨
    ∃ a, IsRun (Free p) c.size a ∧ Serves p c ⟨a, c.size⟩ ∧ r.1 = a * 4096 ∧ Wf r.2 ∧
      r.2.maxBlocks = p.maxBlocks ∧
      ∀ g, Free r.2 g ↔ Free p g ∧ ¬ (a ≤ g ∧ g < a + c.size) := by
  have single : ∀ {f}, Free p f → IsRun (Free p) 1 f := fun {f} hf =>
    ⟨Nat.one_pos, fun k h1 h2 => (show k = f by omega) ▸ hf⟩
  have taken : ∀ {f}, Free p f → ∀ g,
      Free (takeFrame p f).2 g ↔ Free p g ∧ ¬ (f ≤ g ∧ g < f + 1) := fun hf g => by
    rw [free_takeFrame hf]
    exact and_congr_right fun _ => by omega
  cases c with
  | allocBlock =>
    obtain rfl : allocBlock p = r := by simpa [request] using hc
    rcases allocBlock_cases h with ⟨e, hn⟩ | ⟨f, hf, -, e⟩
    · exact .inl ⟨e, fun x hx => hn x.start (hx.2 _ (Nat.le_refl _) (by omega))⟩
    · rw [e]
      exact .inr ⟨f, single hf, single hf, takeFrame_addr h hf, wf_takeFrame h hf,
        takeFrame_maxBlocks p f, taken hf⟩
  | allocBlockLow limit =>
    obtain rfl : allocBlockLow p limit.toNat = r := by simpa [request] using hc
    rcases allocBlockLow_cases h limit.toNat with ⟨e, hn⟩ | ⟨f, hf, -, e⟩
    · exact .inl ⟨e, fun x hx =>
        hn x.start ⟨hx.1.2 _ (Nat.le_refl _) (by omega), by have := hx.2; omega⟩⟩
    · rw [e]
      exact .inr ⟨f, single hf.1, ⟨single hf.1, by have := hf.2; simp only; omega⟩,
        takeFrame_addr h hf.1, wf_takeFrame h hf.1, takeFrame_maxBlocks p f, taken hf.1⟩
  | allocBlocks size =>
    obtain rfl : allocBlocks p size.toNat = r := by simpa [request] using hc
    rcases allocBlocks_cases h size.toNat with ⟨e, hn⟩ | ⟨a, hr, -, e⟩
    · exact .inl ⟨e, fun x hx => hn x.start hx⟩
    · rw [e]
      exact .inr ⟨a, hr, hr, takeRun_addr h hr, wf_takeRun h hr, takeRun_maxBlocks p a _,
        fun g => free_takeRun hr⟩
  | freeBlock kd i => cases hc
  | freeBlocks i => cases hc

theorem answers_of_inv {w : World} (h : Inv w) (c : Call) : Answers w c := by
  intro addr p hc
  rcases request_cases h.wf hc with ⟨e, hn⟩ | ⟨a, hr, hs, ha, -, -, -⟩
  · obtain ⟨rfl, rfl⟩ := Prod.mk.inj e
    exact ⟨iff_of_true rfl hn, fun _ => rfl, fun h => absurd rfl h⟩
  · have h0 := h.start_ne_zero hr
    have hle := run_le hr
    simp only at ha
    subst ha
    refine ⟨iff_of_false (by omega) fun hn => hn _ hs, fun h => absurd h (by omega), fun _ => ?_⟩
    rw [Nat.mul_div_cancel _ (by decide)]
    exact ⟨by omega, by omega, hs⟩

/-! ## Runs -/

theorem inv_lstep {w : World} (h : Inv w) (c : Call) : Inv (lstep w c) := by
  unfold lstep
  cases hc : request w.pmm c with
  | some r =>
    obtain ⟨addr, p⟩ := r
    rcases request_cases h.wf hc with ⟨e, -⟩ | ⟨a, hr, -, ha, hwf, hm, hf⟩
    · obtain ⟨rfl, rfl⟩ := Prod.mk.inj e
      exact h
    · have h0 := h.start_ne_zero hr
      simp only at ha
      subst ha
      simp only [extentOf, if_neg (show ¬ a * 4096 = 0 by omega), Nat.mul_div_cancel _ (show 0 < 4096 by decide)]
      exact h.take hr hwf hm hf
  | none =>
    cases c with
    | freeBlock kd i =>
      dsimp only
      cases hi : w.live[i]? with
      | none => exact h
      | some e =>
        refine h.release hi (wf_freeBlock h.wf kd _) (freeBlock_maxBlocks _ _ _) fun g hg => ?_
        rcases freeBlock_cases w.pmm kd (e.start * 4096) with he | ⟨-, h1, -, he⟩
        · rw [he] at hg
          exact .inl hg
        · rw [he, free_dropFrame h1] at hg
          have hpos := (h.range e (List.mem_of_getElem? hi)).1
          refine hg.imp_right fun hg => ⟨by omega, by omega⟩
    | freeBlocks i =>
      dsimp only
      cases hi : w.live[i]? with
      | none => exact h
      | some e =>
        obtain ⟨h1, h2, h3⟩ := h.range e (List.mem_of_getElem? hi)
        refine h.release hi (wf_freeBlocks h.wf _ _) (freeBlocks_maxBlocks h.wf _ _) fun g hg => ?_
        exact (free_freeBlocks h.wf (by omega) h1 h3).mp hg
    | _ => exact h

/-- In every run that starts with frame 0 reserved, live extents share no frame and lie inside the
managed frames, and every allocation is answered right. -/
theorem live_run {p : Info} (hp : Boot p) (calls : List Call) :
    (run lstep ⟨p, []⟩ calls).live.Pairwise Extent.Apart ∧
    (∀ e ∈ (run lstep ⟨p, []⟩ calls).live,
      0 < e.len ∧ e.start + e.len ≤ (run lstep ⟨p, []⟩ calls).pmm.maxBlocks) ∧
    Along lstep Answers ⟨p, []⟩ calls := by
  have hstep : ∀ w c, Inv w → True → Inv (lstep w c) := fun w c h _ => inv_lstep h c
  have hall := along_true lstep ⟨p, []⟩ calls
  have hi := run_inv hstep (inv_boot hp) hall
  exact ⟨hi.apart, fun e he => ⟨(hi.range e he).1, (hi.range e he).2.2⟩,
    Along.of_inv (fun w c h _ => ⟨inv_lstep h c, answers_of_inv h c⟩) (inv_boot hp) hall⟩

/-- Eight frames of which the PMM manages all but frame 0: a frame and a run of two are handed
out, and the frame is given back before the next request. -/
theorem live_run_eight_frames :
    (run lstep ⟨run step (init (fun _ => 0) 0x9000 0x8000) [.initRegion 0x1000 0x7000], []⟩
      [.allocBlock, .allocBlocks 2, .freeBlock none 1, .allocBlockLow 0x4000]).live.Pairwise
        Extent.Apart :=
  (live_run ⟨⟨fun _ => 0, 0x9000, 0x8000, [.initRegion 0x1000 0x7000], rfl, by decide, trivial, trivial⟩,
    by decide⟩ _).1

end Pmm
end Hashx86
