import Hashx86.Paging.Within
import Hashx86.Sched.Clone

/-!
# Calls inside one address space

`Stays` is what a call of the scheduler on the address space of `d` guarantees: the directory stays, its
pages are still in frames of their own, and nothing outside it changed. When the call is `clean` it left
no frame without an owner.

* `freeUserStackSlot_stays`: the stack of a thread is freed.
* `allocUserStack_stays`: a stack is mapped. It is clean when a fresh slot is not mapped yet; the code
  looks for that in recycled slots only.
* `Poke.stays`: bytes are stored through the mapping of an address.
* `createThread_stays`, `cloneCurrentThread_stays`: the calls that make a thread.
-/

namespace Hashx86
namespace Sched

open Lib Paging Kstack

/-- The address space of `d`, among the others. -/
structure Lives (base : Nat → Prop) (tramp d : Nat) (m : Machine) (own : Owners) : Prop where
  owned : Owned base tramp m own
  apart : TrampApart tramp m
  dir : own d = some .dir
  priv : Private m own d

structure Stays (base : Nat → Prop) (tramp d : Nat) (clean : Prop) (m m' : Machine)
    (own own' : Owners) : Prop where
  owned : Owned base tramp m' own'
  within : Within base tramp (· = d) m m' own own'
  dir : own' d = some .dir
  priv : Private m own d → Private m' own' d
  shared : ∀ {a i}, kernelIdx i → own' a = some (.table d i) → own a = some (.table d i)
  held : clean → ∀ b, own' b = some .held → own b = some .held

variable {base : Nat → Prop} {tramp d : Nat} {m m₁ m' : Machine} {own own₁ own' : Owners}
variable {clean clean' : Prop} {R : Nat → Nat → Prop}

theorem Stays.refl (h : Lives base tramp d m own) : Stays base tramp d clean m m own own :=
  ⟨h.owned, .refl .., h.dir, id, fun _ ha => ha, fun _ _ hb => hb⟩

theorem Stays.lives (hs : Stays base tramp d clean m m' own own') (h : Lives base tramp d m own) :
    Lives base tramp d m' own' :=
  ⟨hs.owned, hs.within.apart h.owned h.apart, hs.dir, hs.priv h.priv⟩

theorem Stays.trans (h : Stays base tramp d clean m m₁ own own₁)
    (h₁ : Stays base tramp d clean m₁ m' own₁ own') : Stays base tramp d clean m m' own own' where
  owned := h₁.owned
  within := h.within.trans h₁.within
  dir := h₁.dir
  priv hp := h₁.priv (h.priv hp)
  shared hk ha := h.shared hk (h₁.shared hk ha)
  held hc b hb := h.held hc b (h₁.held hc b hb)

theorem Stays.mono (h : Stays base tramp d clean m m' own own') (hc : clean' → clean) :
    Stays base tramp d clean' m m' own own' :=
  ⟨h.owned, h.within, h.dir, h.priv, h.shared, fun hc' => h.held (hc hc')⟩

theorem Stays.of_changes (hc : Changes base d R m m' own own') (h : Owned base tramp m own)
    (h' : Owned base tramp m' own') (hd : own d = some .dir)
    (hheld : clean → ∀ b, own' b = some .held → own b = some .held) :
    Stays base tramp d clean m m' own own' where
  owned := h'
  within := hc.within h h'
  dir := (hc.dirs d).mpr hd
  priv := hc.priv hd
  shared {a i} hk ha := by
    obtain ⟨-, hi, hp, haddr, hne⟩ := h'.tables.table.mp ha
    have hke : m'.entry m.kernelPageDirectory i = m.entry m.kernelPageDirectory i :=
      Machine.entry_congr h.tables.kernelDir.2 hi fun x hx => hc.kernel (hx ▸ h.tables.kernelDir.1)
    rw [hc.shared hd hi hk] at hp haddr
    rw [hc.shared hd hi hk, hc.kernelDir, hke] at hne
    exact h.tables.table.mpr ⟨hd, hi, hp, haddr, hne⟩
  held := hheld

/-! ## User stacks -/

/-- The base of a slot is a multiple of the size of a stack. -/
theorem slotBase_mod (slot : Nat) : slotBase slot % userStackSize = 0 := by
  unfold slotBase sub32 userStackVirtTop userStackSize
  split <;> omega

/-- Only the first page of a stack can be that of the exit trampoline. -/
theorem not_atTrampoline {stack p : Nat} (hs : stack % userStackSize = 0) (h1 : 1 ≤ p) (h2 : p < 128) :
    ¬ AtTrampoline (pdIdx (stack + p * pageSize)) (ptIdx (stack + p * pageSize)) := by
  unfold AtTrampoline pdIdx ptIdx pageSize
  unfold userStackSize at hs
  omega

theorem freeStackPages_stays {stack : Nat} (hs : InUserRange stack) (hmod : stack % userStackSize = 0)
    (n : Nat) : ∀ {m : Machine} {own : Owners} (p : Nat), Lives base tramp d m own → 1 ≤ p → p + n ≤ 128 →
    ∃ own', Stays base tramp d True m (freeStackPages m d stack n p) own own' := by
  induction n with
  | zero => exact fun {m own} p h _ _ => ⟨own, .refl h⟩
  | succ n ih =>
    intro m own p h h1 h2
    obtain ⟨-, -, hi, hj⟩ := hs.va (show p < 128 by omega)
    unfold freeStackPages
    dsimp only
    cases hpd : present (m.entry d (pdIdx (stack + p * pageSize))) with
    | false =>
      rw [if_pos (by rfl)]
      exact ih (p + 1) h (by omega) (by omega)
    | true =>
      have hpte := pte_of_present hpd (ptIdx (stack + p * pageSize))
      rw [if_neg (by simp), ← hpte]
      cases hpr : present (pte m d (pdIdx (stack + p * pageSize)) (ptIdx (stack + p * pageSize))) with
      | false =>
        rw [if_pos (by rfl)]
        exact ih (p + 1) h (by omega) (by omega)
      | true =>
        rw [if_neg (by simp)]
        have hplain := (h.priv _ _ hi hj).plain (not_atTrampoline hmod h1 (by omega))
        obtain ⟨own₁, ho₁, hc₁, hheld⟩ := h.owned.drop h.dir hi hj hpr hplain
        have hst : Stays base tramp d True m _ own own₁ :=
          .of_changes hc₁ h.owned ho₁ h.dir fun _ => hheld
        obtain ⟨own', hst'⟩ := ih (p + 1) (hst.lives h) (by omega) (by omega)
        exact ⟨own', hst.trans hst'⟩

theorem freeUserStackSlot_stays (h : Lives base tramp d m own) {slot : Nat}
    (hs : InUserRange (slotBase slot)) :
    ∃ own', Stays base tramp d True m (freeUserStackSlot m d slot) own own' := by
  unfold freeUserStackSlot
  split
  · exact ⟨own, .refl h⟩
  · exact freeStackPages_stays hs (slotBase_mod slot) 127 1 h (by decide) (by decide)

/-- No page of the slot is mapped. -/
theorem not_slotMapped {slot : Nat} (hs : InUserRange (slotBase slot))
    (h : slotMapped m d slot = false) {p : Nat} (hp : p < 128) :
    AtPage (fun i j => present (pte m d i j) = false) (slotBase slot) p := by
  obtain ⟨hva, hmod, -, -⟩ := hs.va hp
  unfold slotMapped at h
  rw [List.any_eq_false] at h
  have hpage := h p (List.mem_range.mpr hp)
  rw [Nat.mod_eq_of_lt hva] at hpage
  cases hpr : present (pte m d (pdIdx (slotBase slot + p * pageSize))
      (ptIdx (slotBase slot + p * pageSize))) with
  | false => exact hpr
  | true =>
    rw [getPhysicalAddress_of_present hpr hmod] at hpage
    refine absurd ?_ hpage
    simp only [bne_iff_ne, ne_eq]
    intro he
    have := frameAddr_mod (pte m d (pdIdx (slotBase slot + p * pageSize))
      (ptIdx (slotBase slot + p * pageSize)))
    rw [he] at this
    exact absurd this (by decide)

/-- A recycled slot is not mapped. -/
theorem scanPool_unmapped (m : Machine) (directory n : Nat) : ∀ {pool : List Nat} {slot : Nat},
    (scanPool m directory n pool).1 = some slot → slotMapped m directory slot = false := by
  induction n with
  | zero => exact fun h => nomatch h
  | succ n ih =>
    intro pool slot h
    cases pool with
    | nil => exact nomatch h
    | cons candidate rest =>
      unfold scanPool at h
      split at h
      · exact ih h
      · rename_i hm
        split at h
        · exact ih h
        · obtain rfl := Option.some.inj h
          exact Bool.eq_false_iff.mpr hm

/-- A slot is recycled and not mapped, or fresh. -/
theorem takeSlot_some {k : Kernel} {directory slot : Nat} (h : (takeSlot k directory).1 = some slot) :
    slotMapped k.machine directory slot = false ∨
      (slot = k.nextStackSlotIdx ∧ k.nextStackSlotIdx < 5631) := by
  have hscan := @scanPool_unmapped k.machine directory k.freeStackOffsets.length k.freeStackOffsets
  unfold takeSlot at h
  generalize scanPool k.machine directory k.freeStackOffsets.length k.freeStackOffsets = r at hscan h
  obtain ⟨found, pool⟩ := r
  cases found with
  | some s =>
    obtain rfl := Option.some.inj h
    exact .inl (hscan rfl)
  | none =>
    cases hf : freshSlot k.nextStackSlotIdx with
    | none =>
      rw [hf] at h
      exact nomatch h
    | some s =>
      rw [hf] at h
      obtain rfl := Option.some.inj h
      exact .inr (freshSlot_spec hf)

/-- No page of the next fresh slot, if there is one, is mapped. -/
def NextUnmapped (k : Kernel) (d : Nat) : Prop :=
  k.nextStackSlotIdx < 5631 → slotMapped k.machine d k.nextStackSlotIdx = false

/-- The first page of a slot that `AllocUserStack` takes is not that of the exit trampoline. -/
theorem first_plain {k : Kernel} {slot : Nat} (hpriv : Private k.machine own d)
    (hnext : k.nextStackSlotIdx ≠ 4095) (ht : (takeSlot k d).1 = some slot)
    (hs : InUserRange (slotBase slot)) :
    AtPage (Plain k.machine own d) (slotBase slot) 0 := by
  obtain ⟨-, -, hi, hj⟩ := hs.va (show 0 < 128 by decide)
  rcases takeSlot_some ht with hm | ⟨rfl, hlt⟩
  · have hno := not_slotMapped hs hm (show 0 < 128 by decide)
    exact fun hp => absurd (hno.symm.trans hp) Bool.false_ne_true
  · refine (hpriv _ _ hi hj).plain fun hat => hnext ?_
    have hbase : slotBase k.nextStackSlotIdx / 4096 = 0x40000 := by
      unfold AtTrampoline pdIdx ptIdx pageSize at hat
      omega
    unfold slotBase sub32 userStackVirtTop userStackSize at hbase
    rw [Nat.mod_eq_of_lt (by omega)] at hbase
    split at hbase <;> omega

theorem takeSlot_unmapped {k : Kernel} {slot : Nat} (hf : NextUnmapped k d)
    (h : (takeSlot k d).1 = some slot) : slotMapped k.machine d slot = false := by
  rcases takeSlot_some h with hm | ⟨rfl, hlt⟩
  · exact hm
  · exact hf hlt

/-- The pages of the stack were not mapped, so no frame lost its page. -/
theorem HeldFrom.held {slot : Nat} (hf : HeldFrom own own' d (slotBase slot) 1 128)
    (h : Owned base tramp m own) (hs : InUserRange (slotBase slot)) (hno : slotMapped m d slot = false) :
    ∀ b, own' b = some .held → own b = some .held := fun b hb => by
  rcases hf b hb with hb | ⟨p, -, hp, hb⟩
  · exact hb
  · exact absurd ((not_slotMapped hs hno hp).symm.trans (h.pte_of_page hb).1) Bool.false_ne_true

theorem allocUserStack_stays {k : Kernel} (h : Lives base tramp d k.machine own)
    (hnext : k.nextStackSlotIdx ≠ 4095) (t : Nat) : ∃ own',
    Stays base tramp d (NextUnmapped k d) k.machine (allocUserStack k t d).2.machine own own' ∧
    ∀ stack top, (allocUserStack k t d).1 = some (stack, top) → ∃ i j, own' top = some (.page d i j) := by
  rcases allocUserStack_machine k t d with ⟨k', he, hm⟩ | ⟨slot, top, k', he, ht, hs, hm, -⟩
  · rw [he]
    rcases hm with hm | ⟨slot, ht, hs, hm⟩
    · exact ⟨own, hm.symm ▸ .refl h, nofun⟩
    · rcases mapStack_cases hs 127 1 0 h.owned h.dir (by decide) with
        ⟨top', m₁, own₁, hm₁, -⟩ | ⟨m₁, hm₁, hback⟩
      · exact absurd (Prod.mk.inj (hm₁.symm.trans hm)).1 (by simp)
      · obtain ⟨-, rfl⟩ := Prod.mk.inj (hm₁.symm.trans hm)
        obtain ⟨own', ho, hc, hf⟩ := hback fun q hq => by
          obtain rfl : q = 0 := by omega
          exact first_plain h.priv hnext ht hs
        exact ⟨own', .of_changes hc h.owned ho h.dir fun hfresh =>
          hf.held h.owned hs (takeSlot_unmapped hfresh ht), nofun⟩
  · rw [he]
    rcases mapStack_cases hs 127 1 0 h.owned h.dir (by decide) with
      ⟨top', m₁, own₁, hm₁, ho, hc, hf, -, -, htop⟩ | ⟨m₁, hm₁, -⟩
    · obtain ⟨ht', rfl⟩ := Prod.mk.inj (hm₁.symm.trans hm)
      obtain rfl := Option.some.inj ht'
      refine ⟨own₁, .of_changes hc h.owned ho h.dir fun hfresh =>
        hf.held h.owned hs (takeSlot_unmapped hfresh ht), ?_⟩
      rintro stack top' he'
      obtain ⟨-, rfl⟩ := Prod.mk.inj (Option.some.inj he')
      exact ⟨_, _, htop (by decide)⟩
    · exact absurd (Prod.mk.inj (hm₁.symm.trans hm)).1 (by simp)

/-! ## Stores -/

/-- What is mapped in the user range is a page of the directory, or the frame that all share. -/
theorem Lives.userFrame (h : Lives base tramp d m own) {i j : Nat}
    (hi : i < 1024 ∧ kernelIdx i = false) (hj : j < 1024) (hpr : present (pte m d i j)) :
    UserFrame tramp own d (frameAddr (pte m d i j)) := by
  rcases h.owned.page_cases h.dir hi hj hpr with ho | ht | h0
  · exact .inr ⟨i, j, ho⟩
  · exact .inl ht
  · exact absurd h0 (h.priv i j hi hj hpr).1

/-- The frames in use are the same, and none was freed that should not. -/
structure SameFrames (base : Nat → Prop) (m m' : Machine) : Prop where
  pmm : m'.pmm = m.pmm
  kernelDir : m'.kernelPageDirectory = m.kernelPageDirectory
  frees : FreesOk base m.log → FreesOk base m'.log

theorem Stays.write {a : Nat} (h : Lives base tramp d m own) (hu : UserFrame tramp own d a)
    (hmem : WritesOnly m m' (· = a)) (hs : SameFrames base m m') :
    Stays base tramp d clean m m' own own := by
  obtain ⟨ho, hw, hpte⟩ := h.owned.poke h.apart hu hmem hs.pmm hs.kernelDir hs.frees
  refine ⟨ho, hw, h.dir, fun hp i j hi hj => ?_, fun _ ht => ht, fun _ _ hb => hb⟩
  unfold Proper
  rw [hpte d i j h.dir hi.1 hj]
  exact hp i j hi hj

theorem Poke.stays {va n : Nat} (hk : Poke d va n m m') (h : Lives base tramp d m own)
    (hs : SameFrames base m m') : Stays base tramp d clean m m' own own :=
  .write h (h.userFrame hk.user.idx.1 hk.user.idx.2 hk.present) (fun _ hx => hk.other hx) hs

theorem SameFrames.refl (base : Nat → Prop) (m : Machine) : SameFrames base m m := ⟨rfl, rfl, id⟩

theorem sameFrames_storeUser (base : Nat → Prop) (m : Machine) (va phys n : Nat) (src : Nat → UInt8) :
    SameFrames base m (m.storeUser va phys n src) :=
  ⟨rfl, rfl, fun hl a inUse ha => hl a inUse ((List.mem_cons.mp ha).resolve_left (by simp))⟩

theorem sameFrames_safeWriteTid (base : Nat → Prop) (m : Machine) (d addr tid : Nat) :
    SameFrames base m (safeWriteTid m d addr tid) := by
  unfold safeWriteTid
  dsimp only
  repeat' split
  all_goals first | exact .refl base m | exact sameFrames_storeUser ..

theorem safeWriteTid_stays (h : Lives base tramp d m own) (addr tid : Nat) :
    Stays base tramp d clean m (safeWriteTid m d addr tid) own own := by
  have hs := sameFrames_safeWriteTid base m d addr tid
  rcases safeWriteTid_cases m d addr tid with he | hk
  · rw [he]
    exact .refl h
  · exact hk.stays h hs

/-- A process stores a byte. -/
theorem store_stays (h : Lives base tramp d m own) {va : Nat} (hva : UserAddr va) (byte : UInt8) :
    Stays base tramp d clean m (store m ⟨d, va, byte⟩) own own := by
  have hs : SameFrames base m (store m ⟨d, va, byte⟩) := by
    unfold store
    split
    · exact sameFrames_storeUser ..
    · exact .refl base m
  rcases store_cases m (s := ⟨d, va, byte⟩) hva with he | hk
  · rw [he]
    exact .refl h
  · exact hk.stays h hs

theorem writeStackTop_stays {top i j : Nat} (h : Lives base tramp d m own)
    (ht : own top = some (.page d i j)) (arg : Nat) :
    Stays base tramp d clean m (writeStackTop m top arg) own own :=
  .write h (.inr ⟨i, j, ht⟩) (writeStackTop_writes (h.owned.frames.aligned ht).1 m arg) ⟨rfl, rfl, id⟩

/-! ## Threads -/

/-- The processes and the frame of the exit trampoline are the same. -/
structure SameSpaces (k k' : Kernel) : Prop where
  tramp : k'.trampolinePhys = k.trampolinePhys
  pcbs : k'.pcbs = k.pcbs

theorem SameSpaces.trans {k k₁ k' : Kernel} (h : SameSpaces k k₁) (h₁ : SameSpaces k₁ k') :
    SameSpaces k k' := ⟨h₁.tramp.trans h.tramp, h₁.pcbs.trans h.pcbs⟩

theorem newThread_same (k : Kernel) (ptr : Nat) (parent : Option Nat) (pid slot : Nat)
    (context : CpuState) : (newThread k ptr parent pid slot context).2.machine = k.machine ∧
      (newThread k ptr parent pid slot context).2.nextStackSlotIdx = k.nextStackSlotIdx ∧
      SameSpaces k (newThread k ptr parent pid slot context).2 := by
  rcases newThread_cases k ptr parent pid slot context with ⟨tid, he⟩ | ⟨-, -, he⟩
  · rw [he]
    exact ⟨rfl, rfl, rfl, rfl⟩
  · rw [he]
    exact ⟨rfl, rfl, rfl, rfl⟩

theorem sameSpaces_dropThread (k : Kernel) (t : Nat) : SameSpaces k (k.dropThread t) := by
  unfold Kernel.dropThread
  split <;> exact ⟨rfl, rfl⟩

theorem sameSpaces_allocUserStack (k : Kernel) (t directory : Nat) :
    SameSpaces k (allocUserStack k t directory).2 := by
  have ht : SameSpaces k (takeSlot k directory).2 := by
    unfold takeSlot
    split <;> exact ⟨rfl, rfl⟩
  unfold allocUserStack
  generalize takeSlot k directory = r at ht ⊢
  obtain ⟨slot, k₁⟩ := r
  cases slot with
  | none => exact ht.trans (sameSpaces_dropThread k₁ t)
  | some slot =>
    have hdrop : ∀ k₂ : Kernel, SameSpaces k₁ k₂ → SameSpaces k (k₂.dropThread t) := fun k₂ h₂ =>
      ht.trans (h₂.trans (sameSpaces_dropThread k₂ t))
    dsimp only
    split
    · exact hdrop _ ⟨rfl, rfl⟩
    split
    · exact hdrop _ ⟨rfl, rfl⟩
    split
    · exact hdrop _ ⟨rfl, rfl⟩
    · exact ht.trans ⟨rfl, rfl⟩

theorem sameSpaces_cloneStack (k : Kernel) (t directory childStack : Nat) :
    SameSpaces k (cloneStack k t directory childStack).2 := by
  have ha := sameSpaces_allocUserStack k t directory
  unfold cloneStack
  split
  · exact ⟨rfl, rfl⟩
  split <;> rename_i he <;> rw [he] at ha <;> exact ha.trans ⟨rfl, rfl⟩

theorem NextUnmapped.congr {k k' : Kernel} (h : NextUnmapped k d) (hm : k'.machine = k.machine)
    (hn : k'.nextStackSlotIdx = k.nextStackSlotIdx) : NextUnmapped k' d := by
  unfold NextUnmapped
  rw [hm, hn]
  exact h

/-- The stack of a new thread, with the two words at its top. -/
theorem stackTop_stays {k : Kernel} (h : Lives base tramp d k.machine own)
    (hnext : k.nextStackSlotIdx ≠ 4095) (t arg : Nat) :
    ∃ own', Stays base tramp d (NextUnmapped k d) k.machine (allocUserStack k t d).2.machine own own' ∧
    ∀ stack top, (allocUserStack k t d).1 = some (stack, top) → Stays base tramp d (NextUnmapped k d)
      k.machine (writeStackTop (allocUserStack k t d).2.machine top arg) own own' := by
  obtain ⟨own', hs, htop⟩ := allocUserStack_stays h hnext t
  refine ⟨own', hs, fun stack top he => ?_⟩
  obtain ⟨i, j, hp⟩ := htop stack top he
  exact hs.trans (writeStackTop_stays (hs.lives h) hp arg)

theorem createThread_stays {k : Kernel} {p : Nat} {pcb : Pcb} (hp : k.pcbs p = some pcb)
    (hu : pcb.isKernelProcess = false) (h : Lives base tramp pcb.pageDirectory k.machine own)
    (hnext : k.nextStackSlotIdx ≠ 4095) (threadExit ptr entrypoint arg : Nat) :
    ∃ own', Stays base tramp pcb.pageDirectory (NextUnmapped k pcb.pageDirectory) k.machine
      (createThread threadExit k ptr (some p) entrypoint arg).2.machine own own' := by
  unfold createThread
  dsimp only
  rw [hp]
  dsimp only
  rw [if_neg (by simp [hu])]
  obtain ⟨hm, hn, -⟩ := newThread_same k ptr (some p) pcb.pid noSlot CpuState.zero
  generalize newThread k ptr (some p) pcb.pid noSlot CpuState.zero = r at hm hn ⊢
  obtain ⟨t, k₁⟩ := r
  cases t with
  | none => exact ⟨own, hm.symm ▸ .refl h⟩
  | some t =>
    dsimp only at hm hn ⊢
    obtain ⟨own', hs, htop⟩ := stackTop_stays (k := k₁) (hm.symm ▸ h) (hn.symm ▸ hnext) t arg
    rw [hm] at hs htop
    generalize allocUserStack k₁ t pcb.pageDirectory = r at hs htop ⊢
    obtain ⟨stack, k₂⟩ := r
    cases stack with
    | none => exact ⟨own', hs.mono fun hf => hf.congr hm hn⟩
    | some s => exact ⟨own', (htop s.1 s.2 rfl).mono fun hf => hf.congr hm hn⟩

/-- A thread of a kernel process has no user stack. -/
theorem createThread_kernel {k : Kernel} {p : Nat} (hp : ∀ pcb, k.pcbs p = some pcb → pcb.isKernelProcess)
    (threadExit ptr entrypoint arg : Nat) :
    (createThread threadExit k ptr (some p) entrypoint arg).2.machine = k.machine := by
  unfold createThread
  dsimp only
  cases hpcb : k.pcbs p with
  | none => rfl
  | some pcb =>
    dsimp only
    rw [if_pos (hp pcb hpcb)]
    have hm := (newThread_same k ptr (some p) pcb.pid noSlot (kernelContext threadExit entrypoint arg)).1
    split
    · rename_i he
      rwa [he] at hm
    · rename_i he
      rw [he] at hm
      exact hm

theorem cloneStack_stays {k : Kernel} (h : Lives base tramp d k.machine own) (t : Nat) {childStack : Nat}
    (hnext : childStack = 0 → k.nextStackSlotIdx ≠ 4095) : ∃ own',
    Stays base tramp d (childStack = 0 → NextUnmapped k d) k.machine
      (cloneStack k t d childStack).2.machine own own' := by
  unfold cloneStack
  by_cases hc : childStack = 0
  · rw [if_neg (not_not.mpr hc)]
    obtain ⟨own', hs, htop⟩ := stackTop_stays h (hnext hc) t 0
    generalize allocUserStack k t d = r at hs htop ⊢
    obtain ⟨stack, k₂⟩ := r
    cases stack with
    | none => exact ⟨own', hs.mono fun hf => hf hc⟩
    | some s => exact ⟨own', (htop s.1 s.2 rfl).mono fun hf => hf hc⟩
  · rw [if_pos hc]
    exact ⟨own, .refl h⟩

/-- The word for the TID, if the clone asks for it. -/
theorem tidWord_stays (h : Lives base tramp d m own) (c : Prop) [Decidable c] (addr tid : Nat) :
    Stays base tramp d clean m (if c then safeWriteTid m d addr tid else m) own own := by
  split
  · exact safeWriteTid_stays h addr tid
  · exact .refl h

theorem writeTids_stays (h : Lives base tramp d m own) (flags parentTid childTid tid : Nat) :
    Stays base tramp d clean m (writeTids m flags parentTid childTid tid d d) own own :=
  have hparent := tidWord_stays h (flags &&& 0x00100000 ≠ 0 ∧ parentTid ≠ 0) parentTid tid
  hparent.trans (tidWord_stays (hparent.lives h) (flags &&& 0x01000000 ≠ 0 ∧ childTid ≠ 0) childTid tid)

theorem cloneCurrentThread_stays {k : Kernel} {p : Nat} {pcb : Pcb} (hp : cloneParent k = some (p, pcb))
    (h : Lives base tramp pcb.pageDirectory k.machine own) (ptr : Nat) {a : CloneArgs}
    (hnext : a.childStack = 0 → k.nextStackSlotIdx ≠ 4095) : ∃ own',
    Stays base tramp pcb.pageDirectory (a.childStack = 0 → NextUnmapped k pcb.pageDirectory) k.machine
      (cloneCurrentThread k ptr a).2.machine own own' := by
  unfold cloneCurrentThread
  rw [hp]
  cases a.parentContext with
  | none => exact ⟨own, .refl h⟩
  | some context =>
    dsimp only
    obtain ⟨hm, hn, -⟩ := newThread_same k ptr (some p) pcb.pid (if a.childStack ≠ 0 then noSlot else 0)
      { context with eax := 0 }
    generalize newThread k ptr (some p) pcb.pid (if a.childStack ≠ 0 then noSlot else 0)
      { context with eax := 0 } = r at hm hn ⊢
    obtain ⟨t, k₁⟩ := r
    cases t with
    | none => exact ⟨own, hm.symm ▸ .refl h⟩
    | some t =>
      dsimp only at hm hn ⊢
      obtain ⟨own', hs⟩ := cloneStack_stays (k := k₁) (hm.symm ▸ h) t (hn.symm ▸ hnext)
      rw [hm] at hs
      generalize cloneStack k₁ t pcb.pageDirectory a.childStack = r at hs ⊢
      obtain ⟨ok, k₂⟩ := r
      have hs := hs.mono fun (hf : a.childStack = 0 → NextUnmapped k pcb.pageDirectory) hc =>
        (hf hc).congr hm hn
      cases ok with
      | false => exact ⟨own', hs⟩
      | true => exact ⟨own', hs.trans (writeTids_stays (hs.lives h) ..)⟩

end Sched
end Hashx86
