import Hashx86.Lib.Run
import Hashx86.Paging.Map

/-!
# Directories that share the kernel's tables

`World` is the machine with the directories that `CreateProcessDirectory` built and the frames that
other clients took from the same allocator. In a run the clients of a frame may fill it and give it
back, so that any call can meet a PMM with nothing left.

`directories_run`: after every `MapPage` the page that was mapped is at the frame in its entry, every
other translation of every directory is what it was, and the shared entries are those of the kernel.
The entry is the frame with the flags, and `MapPage` does not mask the flags: bits above the page
offset become part of the frame.
-/

namespace Hashx86
namespace Paging

open Lib Pmm

structure World where
  machine : Machine
  dirs : List Nat
  taken : List Nat

/-- A directory and a taken frame are named by their position in the list. -/
inductive Op where
  | create
  | map (directory : Nat) (va pa flags : UInt32)
  | take
  | fill (frame : Nat) (src : Nat → UInt8)
  | give (frame : Nat)

def step (w : World) : Op → World
  | .create =>
    let (d, m) := createProcessDirectory w.machine
    { w with machine := m, dirs := if d = 0 then w.dirs else d :: w.dirs }
  | .map i va pa flags =>
    match w.dirs[i]? with
    | some d => { w with machine := (mapPage w.machine d va.toNat pa.toNat flags.toNat).2 }
    | none => w
  | .take =>
    let (a, m) := w.machine.allocBlockLow
    { w with machine := m, taken := if a = 0 then w.taken else a :: w.taken }
  | .fill i src =>
    match w.taken[i]? with
    | some a => { w with machine := w.machine.store a pageSize src }
    | none => w
  | .give i =>
    match w.taken[i]? with
    | some a => { w with machine := w.machine.freeBlock a, taken := w.taken.eraseIdx i }
    | none => w

/-- The address is in the page that the call maps, in the directory that it maps it in. -/
def Mapping (w : World) (d : Nat) (va : UInt32) : Op → Prop
  | .map i v pa flags => w.dirs[i]? = some d ∧ va.toNat / 4096 = v.toNat / 4096 ∧
      (mapPage w.machine d v.toNat pa.toNat flags.toNat).1
  | _ => False

/-- What a call does to the translations. -/
structure Right (w : World) (op : Op) : Prop where
  mapped : ∀ {i va pa flags d}, op = .map i va pa flags → w.dirs[i]? = some d →
    present flags.toNat → (mapPage w.machine d va.toNat pa.toNat flags.toNat).1 →
    ∀ x : UInt32, x.toNat / 4096 = va.toNat / 4096 →
      getPhysicalAddress (step w op).machine d x.toNat =
          frameAddr (frameAddr pa.toNat ||| flags.toNat) + x.toNat % 4096 ∧
        (flags.toNat < 4096 → getPhysicalAddress (step w op).machine d x.toNat =
          frameAddr pa.toNat + x.toNat % 4096)
  others : ∀ d ∈ w.dirs, ∀ x : UInt32, ¬ Mapping w d x op →
    getPhysicalAddress (step w op).machine d x.toNat = getPhysicalAddress w.machine d x.toNat
  shared : ∀ d ∈ (step w op).dirs, Linked (step w op).machine d

/-- The machine after `Activate`: the kernel directory and its tables are allocated. -/
structure Active (m : Machine) : Prop where
  wf : Wf m.pmm
  reserved : ¬ Free m.pmm 0
  kernelDir : m.kernelPageDirectory % 4096 = 0 ∧ ¬ Free m.pmm (m.kernelPageDirectory / 4096)
  kernelTables : ∀ i < 1024, kernelIdx i → present (m.entry m.kernelPageDirectory i) ∧
    ¬ Free m.pmm (m.entry m.kernelPageDirectory i / 4096)

/-- The frames in use are the kernel's. -/
def inUse (p : Info) (a : Nat) : Prop := a % 4096 = 0 ∧ ¬ Free p (a / 4096)

theorem space_of_active {m : Machine} (h : Active m) : Space (inUse m.pmm) m fun _ => none := by
  refine ⟨⟨h.wf, fun ho => absurd ho (by simp), fun ho => absurd ho (by simp), fun a ha => ha,
    rfl, h.reserved⟩, ⟨h.kernelDir, h.kernelDir.1⟩, fun i hi hk => ?_, ?_⟩
  · obtain ⟨hp, hused⟩ := h.kernelTables i hi hk
    refine ⟨hp, frameAddr_mod _, ?_⟩
    unfold frameAddr
    rwa [Nat.mul_div_cancel _ (by decide)]
  · intro a d i
    exact iff_of_false (by simp) fun hs => absurd hs.1 (by simp)

/-! ## The invariant -/

structure Inv (w : World) : Prop where
  space : ∃ base own, Space base w.machine own ∧ (∀ d ∈ w.dirs, own d = some .dir) ∧
    ∀ a ∈ w.taken, own a = some .held
  linked : ∀ d ∈ w.dirs, Linked w.machine d
  nodup : w.taken.Nodup

theorem inv_active {m : Machine} (h : Active m) : Inv ⟨m, [], []⟩ :=
  ⟨⟨_, _, space_of_active h, by simp, by simp⟩, by simp, .nil⟩

theorem Linked.congr {m m' : Machine} {d : Nat} (h : Linked m d)
    (hk : m'.kernelPageDirectory = m.kernelPageDirectory)
    (he : ∀ i < 1024, kernelIdx i → m'.entry d i = m.entry d i)
    (hke : ∀ i < 1024, m'.entry m.kernelPageDirectory i = m.entry m.kernelPageDirectory i) :
    Linked m' d := fun i hi hki => by rw [hk, hke i hi, he i hi hki, h i hi hki]

/-- The walks from a directory are the same, and so are the translations. -/
theorem translation_congr {m m' : Machine} {d : Nat} (x : UInt32)
    (h : ∀ i j, i < 1024 → j < 1024 → pte m' d i j = pte m d i j) :
    getPhysicalAddress m' d x.toNat = getPhysicalAddress m d x.toNat := by
  rw [getPhysicalAddress_eq, getPhysicalAddress_eq, h _ _ (pdIdx_lt x.toNat_lt) (ptIdx_lt _)]

section Same

variable {base : Nat → Prop} {own : Owners} {m m' : Machine}

theorem Space.linked_same (h : Space base m own) (hs : SameTables base own m m') {d : Nat}
    (hd : own d = some .dir) (hl : Linked m d) : Linked m' d :=
  hl.congr hs.kernelDir (fun _ hi _ => hs.entry (.inr (.inl hd)) (h.frames.aligned hd).1 hi)
    fun _ hi => hs.entry (.inl h.tables.kernelDir.1) h.tables.kernelDir.2 hi

theorem Space.translation_same (h : Space base m own) (hs : SameTables base own m m') {d : Nat}
    (hd : own d = some .dir) (x : UInt32) :
    getPhysicalAddress m' d x.toNat = getPhysicalAddress m d x.toNat :=
  translation_congr x fun _ _ hi hj => h.tables.pte_same h.frames hs hd hi hj

end Same

/-! ## One call -/

/-- A call that maps nothing leaves the tables alone. -/
theorem right_of_same {w : World} (w' : World) {op : Op} (hw : step w op = w')
    (hmap : ∀ i va pa flags, op ≠ .map i va pa flags) {base : Nat → Prop} {own own' : Owners}
    (hs : Space base w.machine own) (hdirs : ∀ d ∈ w.dirs, own d = some .dir)
    (hlinked : ∀ d ∈ w.dirs, Linked w.machine d) (hsame : SameTables base own w.machine w'.machine)
    (hs' : Space base w'.machine own') (hdirs' : ∀ d ∈ w'.dirs, own' d = some .dir)
    (hnew : ∀ d ∈ w'.dirs, d ∈ w.dirs ∨ Linked w'.machine d)
    (htaken : ∀ a ∈ w'.taken, own' a = some .held) (hnodup : w'.taken.Nodup) :
    Right w op ∧ Inv (step w op) := by
  have hlinked' : ∀ d ∈ w'.dirs, Linked w'.machine d := fun d hd =>
    (hnew d hd).elim (fun hd => hs.linked_same hsame (hdirs d hd) (hlinked d hd)) id
  rw [hw]
  exact ⟨⟨fun he => absurd he (hmap _ _ _ _),
    fun d hd x _ => hw ▸ hs.translation_same hsame (hdirs d hd) x, hw ▸ hlinked'⟩,
    ⟨base, own', hs', hdirs', htaken⟩, hlinked', hnodup⟩

/-- A call that does nothing. -/
theorem right_of_eq {w : World} {op : Op} (h : Inv w) (hw : step w op = w)
    (hmap : ∀ i va pa flags, op ≠ .map i va pa flags) : Right w op ∧ Inv (step w op) := by
  obtain ⟨⟨base, own, hs, hdirs, htaken⟩, hlinked, hnodup⟩ := h
  exact right_of_same w hw hmap hs hdirs hlinked (.refl base own _) hs hdirs (fun d hd => .inl hd)
    htaken hnodup

theorem step_create {w : World} (h : Inv w) : Right w .create ∧ Inv (step w .create) := by
  have hmap : ∀ i va pa flags, Op.create ≠ .map i va pa flags := fun _ _ _ _ => by simp
  obtain ⟨⟨base, own, hs, hdirs, htaken⟩, hlinked, hnodup⟩ := h
  rcases createProcessDirectory_cases hs with he | ⟨a, m', he, hn⟩
  · exact right_of_eq ⟨⟨base, own, hs, hdirs, htaken⟩, hlinked, hnodup⟩ (by simp [step, he]) hmap
  · obtain ⟨hnone, -, h0⟩ := hn.fresh
    refine right_of_same { w with machine := m', dirs := a :: w.dirs } ?_ hmap hs hdirs hlinked
      hn.same hn.space (fun d hd => ?_) (fun d hd => ?_)
      (fun b hb => update_of_some hnone (htaken b hb)) hnodup
    · simp [step, he, h0]
    · rcases List.mem_cons.mp hd with rfl | hd
      · exact Function.update_self ..
      · exact update_of_some hnone (hdirs d hd)
    · rcases List.mem_cons.mp hd with rfl | hd
      · exact .inr hn.linked
      · exact .inl hd

theorem step_take {w : World} (h : Inv w) : Right w .take ∧ Inv (step w .take) := by
  have hmap : ∀ i va pa flags, Op.take ≠ .map i va pa flags := fun _ _ _ _ => by simp
  obtain ⟨⟨base, own, hs, hdirs, htaken⟩, hlinked, hnodup⟩ := h
  rcases hs.alloc with he | ⟨a, m', he, h0, -, hnone, -, hs', hmem, hkd, -⟩
  · exact right_of_eq ⟨⟨base, own, hs, hdirs, htaken⟩, hlinked, hnodup⟩ (by simp [step, he]) hmap
  · refine right_of_same { w with machine := m', taken := a :: w.taken } ?_ hmap hs hdirs
      hlinked ⟨hkd, fun x _ => congrFun hmem x⟩ hs' (fun d hd => update_of_some hnone (hdirs d hd))
      (fun d hd => .inl hd) (fun b hb => ?_) (List.nodup_cons.mpr ⟨fun hmem => ?_, hnodup⟩)
    · simp [step, he, h0]
    · rcases List.mem_cons.mp hb with rfl | hb
      · exact Function.update_self ..
      · exact update_of_some hnone (htaken b hb)
    · rw [htaken a hmem] at hnone
      exact absurd hnone (by simp)

theorem step_fill {w : World} (h : Inv w) (i : Nat) (src : Nat → UInt8) :
    Right w (.fill i src) ∧ Inv (step w (.fill i src)) := by
  have hmap : ∀ j va pa flags, Op.fill i src ≠ .map j va pa flags := fun _ _ _ _ => by simp
  obtain ⟨⟨base, own, hs, hdirs, htaken⟩, hlinked, hnodup⟩ := h
  cases hi : w.taken[i]? with
  | none =>
    exact right_of_eq ⟨⟨base, own, hs, hdirs, htaken⟩, hlinked, hnodup⟩ (by simp [step, hi]) hmap
  | some a =>
    have ha := htaken a (List.mem_of_getElem? hi)
    have hsame : SameTables base own w.machine (w.machine.store a pageSize src) :=
      sameTables_store src (hs.frames.aligned ha).1 (hs.held_not_structural ha)
    exact right_of_same { w with machine := w.machine.store a pageSize src }
      (by simp [step, hi]) hmap hs hdirs hlinked hsame (hs.same hsame rfl) hdirs
      (fun d hd => .inl hd) htaken hnodup

theorem step_give {w : World} (h : Inv w) (i : Nat) :
    Right w (.give i) ∧ Inv (step w (.give i)) := by
  have hmap : ∀ j va pa flags, Op.give i ≠ .map j va pa flags := fun _ _ _ _ => by simp
  obtain ⟨⟨base, own, hs, hdirs, htaken⟩, hlinked, hnodup⟩ := h
  cases hi : w.taken[i]? with
  | none =>
    exact right_of_eq ⟨⟨base, own, hs, hdirs, htaken⟩, hlinked, hnodup⟩ (by simp [step, hi]) hmap
  | some a =>
    have ha := htaken a (List.mem_of_getElem? hi)
    obtain ⟨hlt, hget⟩ := List.getElem?_eq_some_iff.mp hi
    refine right_of_same
      { w with machine := w.machine.freeBlock a, taken := w.taken.eraseIdx i }
      (by simp [step, hi]) hmap hs hdirs hlinked ⟨rfl, fun _ _ => rfl⟩ (hs.free ha).1 (fun d hd => ?_)
      (fun d hd => .inl hd) (fun b hb => ?_) (hnodup.eraseIdx i)
    · rw [Function.update_of_ne fun heq => by
        rw [← heq, hdirs d hd] at ha
        exact absurd (Option.some.inj ha) (by simp)]
      exact hdirs d hd
    · obtain ⟨j, hne, hj⟩ := List.mem_eraseIdx_iff_getElem?.mp hb
      rw [Function.update_of_ne fun heq => hne
        ((List.getElem?_inj hlt hnodup).mp (hi.trans (heq ▸ hj).symm)).symm]
      exact htaken b (List.mem_of_getElem? hj)

/-- One page changes when the call succeeds, and nothing when it fails. -/
theorem step_map {w : World} (h : Inv w) (i : Nat) (va pa flags : UInt32) :
    Right w (.map i va pa flags) ∧ Inv (step w (.map i va pa flags)) := by
  obtain ⟨⟨base, own, hs, hdirs, htaken⟩, hlinked, hnodup⟩ := h
  have hnop : step w (.map i va pa flags) = w → (∀ d, w.dirs[i]? = some d →
      (mapPage w.machine d va.toNat pa.toNat flags.toNat).1 = false) →
      Right w (.map i va pa flags) ∧ Inv (step w (.map i va pa flags)) := fun hw hfail => by
    refine ⟨⟨fun {i' va' pa' flags' d} he hd _ hok => ?_, fun _ _ _ _ => by rw [hw],
      hw.symm ▸ hlinked⟩, hw.symm ▸ ⟨⟨base, own, hs, hdirs, htaken⟩, hlinked, hnodup⟩⟩
    obtain ⟨rfl, rfl, rfl, rfl⟩ := Op.map.inj he
    rw [hfail d hd] at hok
    exact absurd hok Bool.false_ne_true
  cases hi : w.dirs[i]? with
  | none => exact hnop (by simp [step, hi]) fun d hd => absurd (hi.symm.trans hd) (by simp)
  | some d =>
    have hd := hdirs d (List.mem_of_getElem? hi)
    have hor : frameAddr pa.toNat ||| flags.toNat < 2 ^ 32 :=
      Nat.or_lt_two_pow (Nat.lt_of_le_of_lt (frameAddr_le _) pa.toNat_lt) flags.toNat_lt
    rcases mapPage_cases hs hd va.toNat_lt hor with he | ⟨m', own', t, he, hk, hm⟩
    · refine hnop (by simp [step, hi, he]) fun d' hd' => ?_
      obtain rfl := Option.some.inj (hi.symm.trans hd')
      rw [he]
    · have hw : step w (.map i va pa flags) = { w with machine := m' } := by simp [step, hi, he]
      have hpte : ∀ x : UInt32, ∀ e, own e = some .dir →
          pte m' e (pdIdx x.toNat) (ptIdx x.toNat) = if e = d ∧ x.toNat / 4096 = va.toNat / 4096 then
            frameAddr pa.toNat ||| flags.toNat else pte w.machine e (pdIdx x.toNat) (ptIdx x.toNat) :=
        fun x e he => by
          rw [hm.pte e _ _ he (pdIdx_lt x.toNat_lt) (ptIdx_lt _)]
          simp only [idx_eq_iff]
      have hold : ∀ {b u}, own b = some u → own' b = some u := fun {b u} hb => by
        rcases hm.grown with hg | ⟨hnone, -, hg⟩
        · rw [hg]
          exact hb
        · rw [hg]
          exact update_of_some hnone hb
      have hkd : ∀ j < 1024, m'.entry w.machine.kernelPageDirectory j =
          w.machine.entry w.machine.kernelPageDirectory j := fun j hj =>
        Machine.entry_congr hs.tables.kernelDir.2 hj fun x hx => hm.mem x fun hxt => by
          rw [hx, ← hm.kernelDir] at hxt
          rcases hxt with hxt | hxt
          · exact hm.space.kernelDir_ne hm.table hxt.symm
          · exact hm.space.kernelDir_ne (hold hd) hxt.symm
      have hlinked' : ∀ e ∈ w.dirs, Linked m' e := fun e he =>
        (hlinked e he).congr hm.kernelDir (fun j hj hkj => hm.shared hk (hdirs e he) hj hkj) hkd
      refine ⟨⟨fun {i' va' pa' flags' d'} heq hd' hp _ x hx => ?_, fun e he x hno => ?_,
        hw.symm ▸ hlinked'⟩, hw.symm ▸ ⟨⟨base, own', hm.space, fun e he => hold (hdirs e he),
          fun a ha => hold (htaken a ha)⟩, hlinked', hnodup⟩⟩
      · obtain ⟨rfl, rfl, rfl, rfl⟩ := Op.map.inj heq
        obtain rfl := Option.some.inj (hi.symm.trans hd')
        rw [hw, getPhysicalAddress_eq, hpte x d hd, if_pos ⟨rfl, hx⟩]
        unfold resolved
        rw [present_or (frameAddr_mod _), if_pos hp]
        exact ⟨rfl, fun hlt => by rw [frameAddr_or (frameAddr_mod _) hlt]⟩
      · rw [hw, getPhysicalAddress_eq, getPhysicalAddress_eq, hpte x e (hdirs e he), if_neg]
        rintro ⟨rfl, hx⟩
        exact hno ⟨hi, hx, by rw [he]⟩

theorem right_step {w : World} (h : Inv w) (op : Op) : Right w op ∧ Inv (step w op) := by
  cases op with
  | create => exact step_create h
  | map i va pa flags => exact step_map h i va pa flags
  | take => exact step_take h
  | fill i src => exact step_fill h i src
  | give i => exact step_give h i

/-! ## Runs -/

/-- Every call of a run does to the translations what it should. -/
theorem directories_run {m : Machine} (h : Active m) (ops : List Op) :
    Along step Right ⟨m, [], []⟩ ops := by
  have hstep : ∀ w op, Inv w → True → Inv (step w op) ∧ Right w op :=
    fun _ op hi _ => (right_step hi op).symm
  exact Along.of_inv hstep (inv_active h) (along_true _ _ _)

/-- Eight frames: frame 0, the kernel directory and one table, which all its entries lead to. -/
def eightFrames : Machine where
  pmm := ⟨0x8000, 8, fun i => if i = 0 then 7#32 else 0#32, 0, 3⟩
  mem a := if 0x1000 ≤ a ∧ a < 0x2000 then
    if a % 4 = 0 then 0x03 else if a % 4 = 1 then 0x20 else 0 else 0
  kernelPageDirectory := 0x1000
  log := []

theorem eightFrames_entry {i : Nat} (hi : i < 1024) : eightFrames.entry 0x1000 i = 0x2003 := by
  have hmem : ∀ k < 4, eightFrames.mem (0x1000 + 4 * i + k) =
      if k = 0 then 0x03 else if k = 1 then 0x20 else 0 := fun k hk => by
    unfold eightFrames
    dsimp only
    rw [if_pos (by omega), show (0x1000 + 4 * i + k) % 4 = k by omega]
  have h0 := hmem 0 (by decide)
  unfold Machine.entry read32
  rw [hmem 1 (by decide), hmem 2 (by decide), hmem 3 (by decide)]
  rw [Nat.add_zero] at h0
  rw [h0]
  rfl

theorem eightFrames_active : Active eightFrames := by
  have hwf : Wf eightFrames.pmm := ⟨by decide, by decide⟩
  have hbit : ∀ f < 3, eightFrames.pmm.bit f = true := by decide
  have hused : ∀ f < 3, ¬ Free eightFrames.pmm f := fun f hf hfree =>
    Bool.false_ne_true (hfree.2.symm.trans (hbit f hf))
  refine ⟨hwf, hused 0 (by decide), ⟨by decide, hused 1 (by decide)⟩, fun i hi _ => ?_⟩
  rw [show eightFrames.kernelPageDirectory = 0x1000 from rfl, eightFrames_entry hi]
  exact ⟨by decide, hused 2 (by decide)⟩

/-- The flags `0x1001` move the page to the next frame. -/
theorem flags_above_page :
    (step ⟨eightFrames, [], []⟩ .create).dirs = [0x3000] ∧ present 0x1001 = true ∧
    (mapPage (step ⟨eightFrames, [], []⟩ .create).machine 0x3000 0x10000000 0 0x1001).1 = true ∧
    getPhysicalAddress (step (step ⟨eightFrames, [], []⟩ .create)
        (.map 0 0x10000000 0 0x1001)).machine 0x3000 0x10000000 ≠
      frameAddr 0 + 0x10000000 % 4096 := by
  decide +kernel

/-- Two directories, a page in each and a third page when no frame is left for its table. -/
theorem directories_run_eight_frames : Along step Right ⟨eightFrames, [], []⟩
    [.create, .create, .map 0 0x10000000 0x7000 7, .take, .map 1 0x10000000 0x7000 5,
      .map 1 0x10400000 0x7000 7] :=
  directories_run eightFrames_active _

end Paging
end Hashx86
