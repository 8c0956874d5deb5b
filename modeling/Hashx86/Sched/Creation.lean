import Hashx86.Sched.Calls

/-!
# The creation of an address space

`Born` is an address space that was made since: its directory is a frame that had no use, it has no
private table in the shared ranges, and nothing outside it changed. Each failure path of the creations
frees it again (`Born.undo`).

* `newUserSpace_cases`: the directory of a new process has the exit trampoline, and no other page.
* `createProcess_acts`, `cloneCurrentProcess_acts`: the calls that make a process.
-/

namespace Hashx86
namespace Sched

open Lib Paging

structure Born (base : Nat → Prop) (tramp d : Nat) (clean : Prop) (m m' : Machine)
    (own own' : Owners) : Prop where
  fresh : own d = none
  lives : Lives base tramp d m' own'
  within : Within base tramp (· = d) m m' own own'
  unshared : ∀ {a i}, kernelIdx i → own' a ≠ some (.table d i)
  held : clean → ∀ b, own' b = some .held → own b = some .held

variable {base : Nat → Prop} {tramp d e : Nat} {m m₁ m' : Machine} {own own₁ own' : Owners}
variable {D : Nat → Prop} {clean clean' : Prop}

theorem NewDir.born (hn : NewDir base own m m' d) (h : Owned base tramp m own)
    (ha : TrampApart tramp m) :
    Born base tramp d clean m m' own (Function.update own d (some .dir)) where
  fresh := hn.fresh.1
  lives := by
    refine ⟨hn.owned h, hn.within.apart h ha, Function.update_self .., fun i j hi _ hp => ?_⟩
    rw [pte_of_not_present (by rw [hn.empty i hi.1 hi.2]; rfl)] at hp
    exact absurd hp (by decide)
  within := hn.within
  unshared {a i} _ ht := by
    by_cases had : a = d
    · rw [had, Function.update_self] at ht
      exact absurd (Option.some.inj ht) (by simp)
    · rw [Function.update_of_ne had] at ht
      have := (h.tables.table.mp ht).1
      rw [hn.fresh.1] at this
      exact nomatch this
  held _ b hb := by
    by_cases hbd : b = d
    · rw [hbd, Function.update_self] at hb
      exact absurd (Option.some.inj hb) (by simp)
    · rwa [Function.update_of_ne hbd] at hb

theorem Born.stays (h : Born base tramp d clean m m₁ own own₁)
    (hs : Stays base tramp d clean m₁ m' own₁ own') : Born base tramp d clean m m' own own' where
  fresh := h.fresh
  lives := hs.lives h.lives
  within := h.within.trans hs.within
  unshared hk ht := h.unshared hk (hs.shared hk ht)
  held hc b hb := h.held hc b (hs.held hc b hb)

theorem Born.mono (h : Born base tramp d clean m m' own own') (hc : clean' → clean) :
    Born base tramp d clean' m m' own own' :=
  ⟨h.fresh, h.lives, h.within, h.unshared, fun hc' => h.held (hc hc')⟩

theorem Lives.within (h : Lives base tramp e m own) (hw : Within base tramp D m m' own own')
    (ho : Owned base tramp m' own') (he : ¬ D e) : Lives base tramp e m' own' :=
  ⟨ho, hw.apart h.owned h.apart, (hw.uses (u := .dir) rfl he).mpr h.dir,
    hw.priv h.owned h.apart h.dir he h.priv⟩

/-- No address space was made or changed. -/
structure Undone (base : Nat → Prop) (tramp : Nat) (clean : Prop) (m m' : Machine)
    (own own' : Owners) : Prop where
  owned : Owned base tramp m' own'
  dirs : ∀ e, own' e = some .dir ↔ own e = some .dir
  within : Within base tramp (fun e => own e ≠ some .dir) m m' own own'
  held : clean → ∀ b, own' b = some .held → own b = some .held

theorem Undone.refl (h : Owned base tramp m own) : Undone base tramp clean m m own own :=
  ⟨h, fun _ => Iff.rfl, .refl .., fun _ _ hb => hb⟩

/-- The frames of the address space are freed. -/
theorem Born.undo (h : Born base tramp d clean m m₁ own own₁) {gone : List Nat}
    (hf : Freed base tramp d gone m₁ m' own₁) (hmem : d ∈ gone) :
    Undone base tramp clean m m' own (without own₁ gone) := by
  have hw := h.within.trans (hf.within h.lives.owned h.lives.dir)
  refine ⟨hf.owned, fun e => ?_, hw.mono fun e he => ?_, fun hc b hb =>
    h.held hc b (without_some.mp hb).2⟩
  · by_cases he : e = d
    · rw [he, h.fresh, without_of_mem hmem]
    · exact hw.uses (u := .dir) rfl he
  · rw [he, h.fresh]
    nofun

theorem Born.free (h : Born base tramp d clean m m₁ own own₁) : ∃ own',
    Undone base tramp clean m (freeAddressSpace m₁ tramp d) own own' := by
  obtain ⟨gone, hf, hgone⟩ := freeAddressSpace_spec h.lives.owned h.lives.dir fun a i ht => by
    by_contra hk
    exact h.unshared (Bool.of_not_eq_false hk) ht
  exact ⟨_, h.undo hf ((hgone d).mpr ⟨.dir, h.lives.dir, rfl⟩)⟩

/-! ## A new directory -/

/-- `pmm_free_block(NULL)`. -/
theorem freeBlock_null (h : Owned base tramp m own) :
    Undone base tramp clean m (m.freeBlock 0) own own := by
  have hpmm : (m.freeBlock 0).pmm = m.pmm := rfl
  have hmem : (m.freeBlock 0).mem = m.mem := rfl
  have hlog : FreesOk base m.log → FreesOk base (m.freeBlock 0).log := fun hl a inUse ha h0 => by
    rcases List.mem_cons.mp ha with he | ha
    · exact absurd (Event.free.inj he).1 h0
    · exact hl a inUse ha h0
  refine ⟨?_, fun _ => Iff.rfl, ⟨rfl, fun _ _ => Iff.rfl, fun _ _ _ => rfl, fun _ _ => rfl, hlog,
    id⟩, fun _ _ hb => hb⟩
  exact ⟨h.toSpace.same ⟨rfl, fun _ _ => rfl⟩ hpmm, h.pages.same (fun _ => Iff.rfl)
    (fun _ _ _ _ => Iff.rfl) fun _ _ _ _ _ _ => pte_of_mem hmem _ _ _, h.tramp⟩

/-- `MapPage` with `NULL` for the directory, when no frame is left. -/
theorem mapPage_null (hnull : present (m.entry 0 256) = false) (he : m.allocBlockLow = (0, m))
    (pa flags : Nat) : mapPage m 0 userExitTrampolineVirt pa flags = (false, m) := by
  have hi : pdIdx userExitTrampolineVirt = 256 := rfl
  unfold mapPage ensureTable
  rw [hi, he, if_neg (by decide), if_neg (by rw [hnull]; decide)]
  rfl

theorem allocBlockLow_of_null (h : createProcessDirectory m = (0, m)) (ho : Owned base tramp m own) :
    m.allocBlockLow = (0, m) := by
  rcases ho.alloc with he | ⟨a, m₁, he, ht⟩
  · exact he
  · unfold createProcessDirectory at h
    rw [he] at h
    dsimp only at h
    rw [if_neg ht.fresh.2.2] at h
    exact absurd (Prod.mk.inj h).1 ht.fresh.2.2

/-- The exit trampoline is the only page of the directory. -/
def OnlyTrampoline (m : Machine) (d : Nat) : Prop :=
  ∀ i j, i < 1024 ∧ kernelIdx i = false → j < 1024 → present (pte m d i j) → AtTrampoline i j

theorem newUserSpace_cases (h : Owned base tramp m own) (ht : tramp < 2 ^ 32 ∧ tramp ≠ 0)
    (ha : TrampApart tramp m) (hnull : present (m.entry 0 256) = false) :
    (∃ d m' own', newUserSpace m tramp = (false, d, m') ∧ Undone base tramp True m m' own own') ∨
    ∃ d m' own', newUserSpace m tramp = (true, d, m') ∧ Born base tramp d True m m' own own' ∧
      OnlyTrampoline m' d := by
  have hva : userExitTrampolineVirt < 2 ^ 32 := by decide
  have hidx : pdIdx userExitTrampolineVirt = 256 ∧ ptIdx userExitTrampolineVirt = 0 := by decide
  have hi : (256 < 1024 ∧ kernelIdx 256 = false) := by decide
  unfold newUserSpace
  rcases createProcessDirectory_cases h.toSpace with he | ⟨d, m₁, he, hn⟩
  · rw [he]
    dsimp only
    rw [mapPage_null hnull (allocBlockLow_of_null he h)]
    dsimp only
    rw [if_neg Bool.false_ne_true]
    refine .inl ⟨0, _, own, rfl, ?_⟩
    split
    · exact freeBlock_null h
    · exact .refl h
  · rw [he]
    dsimp only
    have hb : Born base tramp d True m m₁ own _ := NewDir.born hn h ha
    have hno : ∀ i j, i < 1024 ∧ kernelIdx i = false → present (pte m₁ d i j) = false :=
      fun i j hi => by
        rw [pte_of_not_present (by rw [hn.empty i hi.1 hi.2]; rfl)]
        rfl
    have hm := hb.lives.owned.mapTramp hb.lives.dir ht.1 ht.2 hva hidx
      (show pagePresent ||| pageUser < 4096 by decide)
    rcases hm with hm | ⟨m₂, own₂, hm, -, hput⟩
    · rw [hm]
      dsimp only
      have hkd : d ≠ m₁.kernelPageDirectory := fun hd =>
        (hb.lives.owned.frames.owned hb.lives.dir).2.2 (hd ▸ hb.lives.owned.tables.kernelDir.1)
      rw [if_neg Bool.false_ne_true, if_pos hkd]
      have hf := hb.lives.owned.freeDir hb.lives.dir fun b i ht => by
        obtain ⟨-, hlt, hp, -, hne⟩ := hb.lives.owned.tables.table.mp ht
        by_cases hk : kernelIdx i = true
        · exact hb.unshared hk ht
        · rw [hn.empty i hlt (Bool.eq_false_iff.mpr hk)] at hp
          exact absurd hp (by decide)
      exact .inl ⟨d, _, _, rfl, hb.undo hf (List.mem_singleton_self d)⟩
    · rw [hm, hidx.1, hidx.2] at *
      dsimp only
      rw [if_pos rfl]
      have hs : Stays base tramp d True m₁ m₂ _ own₂ :=
        .of_changes hput.changes hb.lives.owned hput.owned hb.lives.dir fun _ b hb' => by
          rcases hput.held b hb' with hb' | hb'
          · exact hb'.1
          · have := (hb.lives.owned.pte_of_page hb').1
            rw [hno 256 0 hi] at this
            exact absurd this Bool.false_ne_true
      refine .inr ⟨d, m₂, own₂, rfl, hb.stays hs, fun i j hi hj hp => ?_⟩
      by_contra hat
      rw [hput.changes.pte hb.lives.dir hi.1 hj fun _ => hat, hno i j hi] at hp
      exact Bool.false_ne_true hp

theorem slotMapped_of_pages {slot : Nat} (hs : InUserRange (slotBase slot))
    (h : ∀ p < 128, AtPage (fun i j => present (pte m d i j) = false) (slotBase slot) p) :
    slotMapped m d slot = false := by
  unfold slotMapped
  refine List.any_eq_false.mpr fun q hq => ?_
  have hq := List.mem_range.mp hq
  obtain ⟨hva, -⟩ := hs.va hq
  rw [Nat.mod_eq_of_lt hva]
  intro hmap
  have hpr : present _ = true := (pageMapped_iff hs).mpr (by simpa using hmap)
  exact Bool.false_ne_true ((h q hq).symm.trans hpr)

/-- Only slot 4095 has the page of the exit trampoline. -/
theorem slotMapped_trampoline (h : OnlyTrampoline m d) {slot : Nat} (hlt : slot < 5631)
    (hne : slot ≠ 4095) : slotMapped m d slot = false := by
  have hs := inUserRange_of_lt hlt
  refine slotMapped_of_pages hs fun q hq => Bool.eq_false_iff.mpr fun hp => ?_
  obtain ⟨-, -, hi, hj⟩ := hs.va hq
  have hat := h _ _ hi hj hp
  have hmod := slotBase_mod slot
  have hbase := slotBase_of_lt hlt
  unfold AtTrampoline pdIdx ptIdx pageSize at hat
  unfold userStackSize at hmod
  unfold userStackSize userStackVirtTop at hbase
  omega

/-! ## `CreateProcess` -/

/-- A process with directory `d` is in the list. -/
def Kernel.withProcess (k : Kernel) (ptr : Nat) (isKernel : Bool) (entrypoint d : Nat) (m : Machine) :
    Kernel :=
  { k with
    machine := m, pidCounter := inc32 k.pidCounter
    pcbs := Function.update k.pcbs ptr (some (newPcb k.pidCounter isKernel entrypoint d))
    globalProcessList := k.globalProcessList ++ [ptr] }

/-- The end of `CreateProcess`, from the result of `CreateThread`. -/
def afterThread (isKernel : Bool) (d ptr : Nat) : Option Nat × Kernel → Kernel
  | (some _, k) => k
  | (none, k) =>
    forgetProcess (if !isKernel ∧ d ≠ k.machine.kernelPageDirectory then
      k.withMachine (freeAddressSpace k.machine k.trampolinePhys d) else k) ptr

theorem createProcess_eq (threadExit : Nat) {k : Kernel} {ptr : Nat} (tcbPtr : Nat) {isKernel ok : Bool}
    (entrypoint arg : Nat) (main : Bool) (hnew : k.canNewPcb ptr = true)
    (hspace : (if isKernel then (true, k.machine.kernelPageDirectory, k.machine)
      else newUserSpace k.machine k.trampolinePhys) = (ok, d, m)) :
    (createProcess threadExit k ptr tcbPtr isKernel entrypoint arg main).2 =
      if ok = false then { k with machine := m, pidCounter := inc32 k.pidCounter }
      else if main = false then k.withProcess ptr isKernel entrypoint d m
      else afterThread isKernel d ptr (createThread threadExit
        (k.withProcess ptr isKernel entrypoint d m) tcbPtr (some ptr) entrypoint arg) := by
  unfold createProcess
  rw [if_neg (by simp [hnew])]
  dsimp only
  rw [hspace]
  cases ok with
  | false => rfl
  | true =>
    cases main with
    | false => rfl
    | true =>
      change (match createThread threadExit (k.withProcess ptr isKernel entrypoint d m) tcbPtr
        (some ptr) entrypoint arg with | (some _, k) => _ | (none, k) => _ : Option Nat × Kernel).2 = _
      rw [if_neg (by simp), if_neg (by simp)]
      generalize createThread threadExit (k.withProcess ptr isKernel entrypoint d m) tcbPtr
        (some ptr) entrypoint arg = r
      obtain ⟨t, k₂⟩ := r
      cases t <;> rfl

variable {k k₁ k' : Kernel} {p : Nat}

/-- A process with a new address space. -/
theorem Acts.born (h : Spaces base k own)
    (hb : Born base k.trampolinePhys d clean k.machine k'.machine own own')
    (ht : k'.trampolinePhys = k.trampolinePhys) (hp : k.space p = none)
    (hspace : k'.space = Function.update k.space p (some d)) :
    Acts base (fun e => ∀ q, k.space q ≠ some e) clean k k' own own' where
  spaces := h.added hb.fresh hp hb.within hb.lives.owned ht hspace hb.lives.dir
    (fun _ hne he => absurd he hne) fun {e} _ (he : e = d) => he ▸ hb.lives.priv
  tramp := ht
  within := hb.within.mono fun e (he : e = d) q hq => by
    have hd := hb.fresh
    rw [← he, h.dir hq] at hd
    exact nomatch hd
  held := hb.held

/-- No address space is left of the call. -/
theorem Acts.undone (h : Spaces base k own)
    (hu : Undone base k.trampolinePhys clean k.machine k'.machine own own')
    (ht : k'.trampolinePhys = k.trampolinePhys) (hspace : k'.space = k.space) :
    Acts base (fun e => ∀ q, k.space q ≠ some e) clean k k' own own' where
  spaces := h.within hu.within hu.owned ht (fun e => by rw [hu.dirs, h.dirs, hspace])
    (hspace.symm ▸ h.inj) fun {q e} hq he => absurd (h.dir (hspace ▸ hq)) he
  tramp := ht
  within := hu.within.mono fun _ he q hq => he (h.dir hq)
  held := hu.held

theorem space_withProcess (k : Kernel) (ptr : Nat) (isKernel : Bool) (entrypoint d : Nat) (m : Machine) :
    (k.withProcess ptr isKernel entrypoint d m).space =
      Function.update k.space ptr (if isKernel then none else some d) := by
  unfold Kernel.withProcess Kernel.space
  dsimp only
  rw [bind_update]
  rfl

theorem space_fresh {ptr : Nat} (h : k.canNewPcb ptr = true) : k.space ptr = none := by
  unfold Kernel.space
  rw [canNewPcb_fresh h]
  rfl

theorem afterThread_kernel (d ptr : Nat) (r : Option Nat × Kernel) :
    afterThread true d ptr r = if r.1.isSome then r.2 else forgetProcess r.2 ptr := by
  obtain ⟨t, k⟩ := r
  cases t <;> rfl

/-- A kernel process has no address space of its own. -/
theorem createProcess_kernel_acts (h : Spaces base k own) (threadExit : Nat) {ptr : Nat} (tcbPtr : Nat)
    (entrypoint arg : Nat) (main : Bool) (hnew : k.canNewPcb ptr = true) :
    Acts base D True k (createProcess threadExit k ptr tcbPtr true entrypoint arg main).2 own own := by
  rw [createProcess_eq threadExit tcbPtr entrypoint arg main hnew (if_pos rfl), if_neg (by simp)]
  have hspace : (k.withProcess ptr true entrypoint k.machine.kernelPageDirectory k.machine).space =
      k.space := by
    rw [space_withProcess, if_pos rfl]
    exact Function.update_eq_self_iff.mpr (space_fresh hnew).symm
  split
  · exact .same h rfl rfl hspace
  · generalize hk₁ : k.withProcess ptr true entrypoint k.machine.kernelPageDirectory k.machine = k₁ at *
    have hself : k₁.pcbs ptr =
        some (newPcb k.pidCounter true entrypoint k.machine.kernelPageDirectory) :=
      hk₁ ▸ Function.update_self ..
    have hm := createThread_kernel (k := k₁) (p := ptr) (fun pcb hp => by
      obtain rfl := Option.some.inj (hself.symm.trans hp)
      rfl) threadExit tcbPtr entrypoint arg
    have ht := tramp_createThread threadExit k₁ tcbPtr ptr entrypoint arg
    have hs := (space_createThread threadExit k₁ tcbPtr ptr entrypoint arg).trans hspace
    have hm₁ : k₁.machine = k.machine := hk₁ ▸ rfl
    have ht₁ : k₁.trampolinePhys = k.trampolinePhys := hk₁ ▸ rfl
    rw [afterThread_kernel]
    split
    · exact .same h (hm.trans hm₁) (ht.trans ht₁) hs
    · refine .same h (hm.trans hm₁) (ht.trans ht₁) ?_
      rw [space_forgetProcess, hs]
      exact Function.update_eq_self_iff.mpr (space_fresh hnew).symm

theorem createProcess_acts (h : Spaces base k own) (threadExit ptr tcbPtr : Nat) (isKernel : Bool)
    (entrypoint arg : Nat) (main : Bool)
    (hnext : isKernel = false → main = true → k.nextStackSlotIdx ≠ 4095) : ∃ own',
    Acts base (fun e => ∀ q, k.space q ≠ some e) True k
      (createProcess threadExit k ptr tcbPtr isKernel entrypoint arg main).2 own own' := by
  by_cases hnew : k.canNewPcb ptr = true
  swap
  · unfold createProcess
    rw [if_pos (by simpa using hnew)]
    exact ⟨own, .same h rfl rfl rfl⟩
  cases isKernel with
  | true => exact ⟨own, createProcess_kernel_acts h threadExit tcbPtr entrypoint arg main hnew⟩
  | false =>
    have hptr := space_fresh hnew
    rcases newUserSpace_cases h.owned h.tramp h.apart h.null with
      ⟨d, m, own', he, hu⟩ | ⟨d, m, own₁, he, hb, honly⟩
    · rw [createProcess_eq threadExit tcbPtr entrypoint arg main hnew
        ((if_neg Bool.false_ne_true).trans he), if_pos rfl]
      exact ⟨own', .undone h hu rfl rfl⟩
    · rw [createProcess_eq threadExit tcbPtr entrypoint arg main hnew
        ((if_neg Bool.false_ne_true).trans he), if_neg (by simp)]
      have hspace := space_withProcess k ptr false entrypoint d m
      rw [if_neg Bool.false_ne_true] at hspace
      cases main with
      | false => exact ⟨own₁, .born h hb rfl hptr hspace⟩
      | true =>
        rw [if_neg (by simp)]
        obtain ⟨k₁, hk₁⟩ : ∃ k₁, k.withProcess ptr false entrypoint d m = k₁ := ⟨_, rfl⟩
        have hm₁ : k₁.machine = m := hk₁ ▸ rfl
        have ht₁ : k₁.trampolinePhys = k.trampolinePhys := hk₁ ▸ rfl
        have hn₁ : k₁.nextStackSlotIdx = k.nextStackSlotIdx := hk₁ ▸ rfl
        have hpcb : k₁.pcbs ptr = some (newPcb k.pidCounter false entrypoint d) :=
          hk₁ ▸ Function.update_self ..
        rw [hk₁] at hspace ⊢
        obtain ⟨own₂, hs⟩ := createThread_stays hpcb rfl (hm₁ ▸ hb.lives)
          (hn₁ ▸ hnext rfl rfl) threadExit tcbPtr entrypoint arg
        have ht := (tramp_createThread threadExit k₁ tcbPtr ptr entrypoint arg).trans ht₁
        have hsp := (space_createThread threadExit k₁ tcbPtr ptr entrypoint arg).trans hspace
        have hclean : NextUnmapped k₁ d := fun hlt => by
          rw [hm₁]
          exact slotMapped_trampoline honly hlt (hn₁ ▸ hnext rfl rfl)
        have hb₂ := hb.stays ((hm₁ ▸ hs).mono fun _ => hclean)
        generalize createThread threadExit k₁ tcbPtr (some ptr) entrypoint arg = r at ht hsp hb₂ ⊢
        obtain ⟨t, k₂⟩ := r
        cases t with
        | some t => exact ⟨own₂, .born h hb₂ ht hptr hsp⟩
        | none =>
          obtain ⟨own', hu⟩ := hb₂.free
          have hkd : d ≠ k₂.machine.kernelPageDirectory := fun hd =>
            (hb₂.lives.owned.frames.owned hb₂.lives.dir).2.2
              (hd ▸ hb₂.lives.owned.tables.kernelDir.1)
          unfold afterThread
          dsimp only at ht hsp hu ⊢
          rw [if_pos ⟨rfl, hkd⟩, ht]
          generalize freeAddressSpace k₂.machine k.trampolinePhys d = m' at hu
          refine ⟨own', .undone h hu ht ?_⟩
          rw [space_forgetProcess]
          change Function.update k₂.space ptr none = k.space
          rw [hsp, Function.update_idem]
          exact Function.update_eq_self_iff.mpr hptr.symm

/-! ## `CloneCurrentProcess` -/

/-- The pages of the child are those of the parent. -/
theorem copySpace_born {child parent : Nat} (hn : NewDir base own m m₁ child)
    (h : Owned base tramp m own) (ha : TrampApart tramp m) (hp : own parent = some .dir) : ∃ own',
    Born base tramp child True m (copySpace m₁ parent child 704 64).2 own own' ∧
    ((copySpace m₁ parent child 704 64).1 = true → ∀ slot, InUserRange (slotBase slot) →
      slotMapped m parent slot = false →
      slotMapped (copySpace m₁ parent child 704 64).2 child slot = false) := by
  have hb : Born base tramp child True m m₁ own _ := NewDir.born hn h ha
  obtain ⟨own', ho, hc, hheld, hcopy⟩ :=
    copySpace_spec h hp hn.fresh.1 704 64 (copying_start h hn.fresh.1 hn) (Nat.le_refl 64) rfl
  refine ⟨own', hb.stays (.of_changes hc hb.lives.owned ho hb.lives.dir fun _ => hheld),
    fun hok slot hs hno => slotMapped_of_pages hs fun p hp => ?_⟩
  obtain ⟨-, -, hi, hj⟩ := hs.va hp
  have hpage := not_slotMapped hs hno hp
  have hof := (hcopy hok).copied _ _ hi hj (.inl ?_)
  · unfold CopyOf at hof
    rwa [if_neg (by rw [hpage]; exact Bool.false_ne_true)] at hof
  · have hk := hi.2
    unfold kernelIdx at hk
    simp at hk
    omega

/-- A failed clone leaves the address spaces as they were. -/
theorem Acts.freed (k₁ : Kernel) (h : Spaces base k own)
    (hb : Born base k.trampolinePhys d clean k.machine k₁.machine own own₁)
    (ht : k₁.trampolinePhys = k.trampolinePhys) (hspace : k₁.space = k.space) : ∃ own',
    Acts base (fun e => ∀ q, k.space q ≠ some e) clean k
      (k₁.withMachine (freeAddressSpace k₁.machine k₁.trampolinePhys d)) own own' := by
  obtain ⟨own', hu⟩ := hb.free
  rw [ht]
  generalize freeAddressSpace k₁.machine k.trampolinePhys d = m' at hu
  exact ⟨own', .undone h hu ht hspace⟩

/-- The TID words are stored in the parent and in the child. -/
theorem writeTids_born {child parent : Nat} (h : Lives base tramp parent m own)
    (hb : Born base tramp child clean m m₁ own own₁) (flags parentTid childTid tid : Nat) :
    ∃ m₂, Stays base tramp parent clean m₁ m₂ own₁ own₁ ∧ Stays base tramp child clean m₂
      (writeTids m₁ flags parentTid childTid tid parent child) own₁ own₁ := by
  have hne : ¬ parent = child := fun he => by
    have := hb.fresh
    rw [← he, h.dir] at this
    exact nomatch this
  have hs : Stays base tramp parent clean m₁ _ own₁ own₁ :=
    tidWord_stays (h.within hb.within hb.lives.owned hne)
      (flags &&& 0x00100000 ≠ 0 ∧ parentTid ≠ 0) parentTid tid
  exact ⟨_, hs, tidWord_stays (hb.lives.within hs.within hs.owned (Ne.symm hne))
    (flags &&& 0x01000000 ≠ 0 ∧ childTid ≠ 0) childTid tid⟩

/-- A successful clone. -/
theorem Acts.cloned {child parent : Nat} (h : Spaces base k own) (hp : k.space p = none)
    (hpar : ∃ q, k.space q = some parent) {m₂ : Machine}
    (hb : Born base k.trampolinePhys child clean k.machine m own own₁)
    (hs : Stays base k.trampolinePhys parent clean m m₂ own₁ own₁)
    (hs' : Stays base k.trampolinePhys child clean m₂ k'.machine own₁ own₁)
    (ht : k'.trampolinePhys = k.trampolinePhys)
    (hspace : k'.space = Function.update k.space p (some child)) :
    Acts base (fun e => parent = e ∨ ∀ q, k.space q ≠ some e) clean k k' own own₁ := by
  obtain ⟨q, hq⟩ := hpar
  have hne : ¬ parent = child := fun he => by
    have := hb.fresh
    rw [← he, h.dir hq] at this
    exact nomatch this
  have hparent := (h.lives hq).within hb.within hb.lives.owned hne
  have hchild := hb.lives.within hs.within hs.owned (Ne.symm hne)
  have hfresh : ∀ q, k.space q ≠ some child := fun q hq => by
    have := hb.fresh
    rw [h.dir hq] at this
    exact nomatch this
  have hw : Within base k.trampolinePhys (fun e => e = child ∨ e = parent) k.machine k'.machine own own₁ :=
    (hb.within.mono fun _ he => .inl he).trans
      ((hs.within.mono fun _ he => .inr he).trans (hs'.within.mono fun _ he => .inl he))
  have hpriv' : Private k'.machine own₁ parent :=
    hs'.within.priv hs.owned (hs.lives hparent).apart hs.dir hne (hs.priv hparent.priv)
  refine ⟨h.added hb.fresh hp hw hs'.owned ht hspace hs'.dir (fun e he hD => ?_) fun {e} _ hD => ?_,
    ht, hw.mono fun e he => ?_, fun hc b hb' => hb.held hc b (hs.held hc b (hs'.held hc b hb'))⟩
  · obtain rfl := hD.resolve_left he
    exact iff_of_true hparent.dir (h.dir hq)
  · rcases hD with rfl | rfl
    · exact hs'.priv hchild.priv
    · exact hpriv'
  · rcases he with rfl | rfl
    · exact .inr hfresh
    · exact .inl rfl

/-- The clone in the list of processes. -/
theorem space_adopt (k : Kernel) (m : Machine) (p t : Nat) (pcb : Pcb) (list : List Nat) :
    ({ enqueue ((k.withMachine m).setPcb p (some pcb)) p t with globalProcessList := list } :
      Kernel).space = Function.update k.space p pcb.space := by
  unfold enqueue
  change (((k.withMachine m).setPcb p (some pcb)).modPcb p
    fun pcb => { pcb with threads := pcb.threads ++ [t] }).space = _
  rw [space_modPcb]
  swap
  · exact fun _ => rfl
  unfold Kernel.setPcb Kernel.withMachine Kernel.space
  dsimp only
  rw [bind_update]
  rfl

theorem cloneCurrentProcess_acts (h : Spaces base k own) (pcbPtr tcbPtr : Nat) {a : CloneArgs}
    (hnext : a.childStack = 0 → k.nextStackSlotIdx ≠ 4095) : ∃ own',
    Acts base (fun e => (currentProcess k).bind k.space = some e ∨ ∀ q, k.space q ≠ some e)
      (a.childStack = 0 → ∀ d, (currentProcess k).bind k.space = some d → NextUnmapped k d) k
      (cloneCurrentProcess k pcbPtr tcbPtr a).2 own own' ∧
    ((cloneCurrentProcess k pcbPtr tcbPtr a).1 ≠ none →
      (cloneCurrentProcess k pcbPtr tcbPtr a).2.space pcbPtr ≠ none) := by
  unfold cloneCurrentProcess
  cases hp : cloneParent k with
  | none => exact ⟨own, .same h rfl rfl rfl, fun hf => absurd rfl hf⟩
  | some pp =>
    obtain ⟨p, parent⟩ := pp
    obtain ⟨hcur, hpcb⟩ := cloneParent_some hp
    cases a.parentContext with
    | none => exact ⟨own, .same h rfl rfl rfl, fun hf => absurd rfl hf⟩
    | some context =>
      dsimp only
      rw [hcur, Option.bind_some]
      split
      · exact ⟨own, .same h rfl rfl rfl, fun hf => absurd rfl hf⟩
      rename_i hu
      have hpar : k.space p = some parent.pageDirectory :=
        space_of_pcb hpcb (Bool.eq_false_iff.mpr hu)
      by_cases hnew : k.canNewPcb pcbPtr = true
      swap
      · rw [if_pos (by simpa using hnew)]
        exact ⟨own, .same h rfl rfl rfl, fun hf => absurd rfl hf⟩
      rw [if_neg (by simp [hnew])]
      have hptr := space_fresh hnew
      rcases createProcessDirectory_cases h.owned.toSpace with he | ⟨child, m₁, he, hn⟩
      · rw [he, if_pos rfl]
        exact ⟨own, .same h rfl rfl rfl, fun hf => absurd rfl hf⟩
      rw [he]
      dsimp only
      rw [if_neg hn.fresh.2.2]
      obtain ⟨own₁, hb, hmap⟩ := copySpace_born hn h.owned h.apart (h.dir hpar)
      obtain ⟨k₁, hk₁⟩ : ∃ k₁ : Kernel, k₁ = { k with pidCounter := inc32 k.pidCounter }.withMachine m₁ :=
        ⟨_, rfl⟩
      have hm : k₁.machine = m₁ := hk₁ ▸ rfl
      have ht : k₁.trampolinePhys = k.trampolinePhys := hk₁ ▸ rfl
      have hs : k₁.space = k.space := hk₁ ▸ rfl
      have hn₁ : k₁.nextStackSlotIdx = k.nextStackSlotIdx := hk₁ ▸ rfl
      rw [← hk₁, hm]
      generalize copySpace m₁ parent.pageDirectory child 704 64 = r at hb hmap ⊢
      obtain ⟨ok, m₂⟩ := r
      cases ok with
      | false =>
        obtain ⟨own', ha⟩ := Acts.freed (k₁.withMachine m₂) h hb ht hs
        exact ⟨own', ha.mono (fun _ he => .inr he) fun _ => trivial, fun hf => absurd rfl hf⟩
      | true =>
        have hb₂ : Born base k.trampolinePhys child True k.machine (k₁.withMachine m₂).machine own own₁ := hb
        have hclean : ∀ {k₃ : Kernel}, k₃.machine = m₂ → k₃.nextStackSlotIdx = k.nextStackSlotIdx →
            (a.childStack = 0 → ∀ d, k.space p = some d → NextUnmapped k d) →
            a.childStack = 0 → NextUnmapped k₃ child := fun hm₃ hn₃ hc h0 => by
          unfold NextUnmapped
          rw [hm₃, hn₃]
          exact fun hlt => hmap rfl _ (inUserRange_of_lt hlt) (hc h0 _ hpar hlt)
        dsimp only
        obtain ⟨k₂, hk₂⟩ : ∃ k₂, k₁.withMachine m₂ = k₂ := ⟨_, rfl⟩
        have ht₂ : k₂.trampolinePhys = k.trampolinePhys := hk₂ ▸ ht
        have hs₂ : k₂.space = k.space := hk₂ ▸ hs
        have hn₂ : k₂.nextStackSlotIdx = k.nextStackSlotIdx := hk₂ ▸ hn₁
        have hm₂ : k₂.machine = m₂ := hk₂ ▸ rfl
        rw [hk₂] at hb₂ ⊢
        obtain ⟨hm₃, hn₃, hsame⟩ := newThread_same k₂ tcbPtr (some pcbPtr) k.pidCounter noSlot
          { context with eax := 0 }
        generalize newThread k₂ tcbPtr (some pcbPtr) k.pidCounter noSlot { context with eax := 0 } = r
          at hm₃ hn₃ hsame ⊢
        obtain ⟨t, k₃⟩ := r
        dsimp only at hm₃ hn₃ hsame
        have ht₃ := hsame.tramp.trans ht₂
        have hs₃ := (space_congr hsame.pcbs).trans hs₂
        rw [← hm₃] at hb₂
        cases t with
        | none =>
          obtain ⟨own', ha⟩ := Acts.freed k₃ h hb₂ ht₃ hs₃
          exact ⟨own', ha.mono (fun _ he => .inr he) fun _ => trivial, fun hf => absurd rfl hf⟩
        | some t =>
          dsimp only
          obtain ⟨own', hst⟩ := cloneStack_stays (k := k₃) hb₂.lives t fun h0 => by
            rw [hn₃, hn₂]
            exact hnext h0
          have hb₄ := (hb₂.mono fun _ => trivial).stays
            (hst.mono (hclean (hm₃.trans hm₂) (hn₃.trans hn₂)))
          have hsame₄ := sameSpaces_cloneStack k₃ t child a.childStack
          generalize cloneStack k₃ t child a.childStack = r at hb₄ hsame₄ ⊢
          obtain ⟨ok, k₄⟩ := r
          dsimp only at hsame₄
          have ht₄ := hsame₄.tramp.trans ht₃
          have hs₄ := (space_congr hsame₄.pcbs).trans hs₃
          cases ok with
          | false =>
            obtain ⟨own', ha⟩ := Acts.freed k₄ h hb₄ ht₄ hs₄
            exact ⟨own', ha.mono (fun _ he => .inr he) id, fun hf => absurd rfl hf⟩
          | true =>
            obtain ⟨m₅, hpst, hcst⟩ := writeTids_born (h.lives hpar) hb₄ a.flags a.parentTid a.childTid
              k₂.tidCounter
            dsimp only
            generalize writeTids k₄.machine a.flags a.parentTid a.childTid k₂.tidCounter
              parent.pageDirectory child = m₆ at hcst ⊢
            refine ⟨own', Acts.mono (Acts.cloned h hptr ⟨p, hpar⟩ hb₄ hpst hcst ht₄ ?_)
              (fun e he => ?_) id, fun _ => ?_⟩
            · rw [space_adopt, hs₄]
              rfl
            · exact he.imp (fun he => hpar.trans (congrArg some he)) id
            · rw [space_adopt, Function.update_self]
              simp [Pcb.space, newPcb]

end Sched
end Hashx86
