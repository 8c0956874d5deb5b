import Hashx86.Processes.Boot

/-!
# Every run of the processes

* `framesOk_run`: in every run each frame is one part of one address space.
* `conserved_run`: when every step is `Clean`, no frame is lost.
* `isolation_run`: what a process sees does not change while no event touches it.
* `load_run`: a program that is loaded has its segments in memory, and the other processes are as they were.
-/

namespace Hashx86
namespace Processes

open Lib Paging Sched

variable {base : Nat → Prop} {k k' : Kernel} {own own' : Owners} {p q d : Nat} {threadExit : Nat}

/-! ## One event -/

/-- The address spaces that an event may change. -/
def TouchesSpace (threadExit : Nat) (k : Kernel) (e : Event) (d : Nat) : Prop :=
  (∃ q, Touches threadExit k e q ∧ k.space q = some d) ∨ ∀ q, k.space q ≠ some d

theorem pcb_of_space (h : k.space p = some d) :
    ∃ pcb, k.pcbs p = some pcb ∧ pcb.pageDirectory = d ∧ pcb.isKernelProcess = false := by
  obtain ⟨pcb, hp, hd⟩ := Option.bind_eq_some_iff.mp h
  unfold Pcb.space at hd
  split at hd
  · exact nomatch hd
  · rename_i hk
    exact ⟨pcb, hp, Option.some.inj hd, Bool.eq_false_iff.mpr hk⟩

theorem call_acts (h : SchedOk base k own) (threadExit : Nat) {op : Sched.Op} (ha : Sched.Admits k op) : ∃ own',
    SchedOk base (Sched.step threadExit k op) own' ∧ Acts base (TouchesSpace threadExit k (.call op))
      (Sched.Clean k op) k (Sched.step threadExit k op) own own' := by
  obtain ⟨own', hacts⟩ := step_acts h threadExit ha
  refine ⟨own', schedOk_step h threadExit ha hacts, hacts.mono (fun d hd => ?_) id⟩
  rcases hd with hd | hd | hd
  · obtain ⟨q, hq, hqd⟩ := Option.bind_eq_some_iff.mp hd
    exact .inl ⟨q, .inl hq, hqd⟩
  · obtain ⟨q, hq, hqd⟩ := Option.bind_eq_some_iff.mp hd
    exact .inl ⟨q, .inr hq, hqd⟩
  · exact .inr hd

theorem store_acts (h : SchedOk base k own) (hp : k.space p ≠ none) {va : Nat} (hva : UserAddr va)
    (byte : UInt8) : SchedOk base (storeOf k p va byte) own ∧
    Acts base (fun e => k.space p = some e) True k (storeOf k p va byte) own own := by
  obtain ⟨d, hd⟩ := Option.ne_none_iff_exists'.mp hp
  obtain ⟨pcb, hpcb, rfl, -⟩ := pcb_of_space hd
  unfold storeOf
  rw [hpcb]
  dsimp only
  have hs : Stays base k.trampolinePhys pcb.pageDirectory True k.machine _ own own :=
    store_stays (h.spaces.lives hd) hva byte
  generalize Sched.store k.machine ⟨pcb.pageDirectory, va, byte⟩ = m at hs ⊢
  have hacts : Acts base (fun e => k.space p = some e) True k (k.withMachine m) own own :=
    .stays h.spaces hd hs rfl rfl
  exact ⟨h.withMachine hacts.spaces, hacts⟩

theorem brk_acts (h : SchedOk base k own) (hp : k.space p ≠ none) (kmallocOk : Bool) (brk : Nat) :
    ∃ own', SchedOk base (brkOf k p kmallocOk brk) own' ∧
      Acts base (fun e => k.space p = some e) True k (brkOf k p kmallocOk brk) own own' := by
  obtain ⟨d, hd⟩ := Option.ne_none_iff_exists'.mp hp
  obtain ⟨pcb, hpcb, rfl, -⟩ := pcb_of_space hd
  unfold brkOf
  rw [hpcb]
  dsimp only
  obtain ⟨own', hs⟩ := Syscalls.sysBrk_stays (h.spaces.lives hd) kmallocOk pcb.heap brk
  generalize Syscalls.sysBrk kmallocOk k.machine pcb.pageDirectory pcb.heap brk = r at hs ⊢
  obtain ⟨n, heap, m⟩ := r
  have hacts : Acts base (fun e => k.space p = some e) True k (k.withMachine m) own own' :=
    .stays h.spaces hd hs rfl rfl
  have hside : Aside fun pcb => { pcb with heap := heap } :=
    ⟨fun _ => rfl, fun _ => rfl, fun _ => rfl, fun _ => rfl, fun _ => rfl⟩
  refine ⟨own', (h.withMachine hacts.spaces).aside hside p, hacts.trans ?_⟩
  exact .same hacts.spaces rfl rfl (space_modPcb _ p hside.space)

/-- What an event does to the address spaces. -/
theorem event_acts (h : SchedOk base k own) (threadExit : Nat) {e : Event} (ha : Admits k e) : ∃ own',
    SchedOk base (step threadExit k e) own' ∧ Acts base (TouchesSpace threadExit k e)
      (Clean threadExit k e) k (step threadExit k e) own own' := by
  cases e with
  | call op => exact call_acts h threadExit ha
  | store p va byte =>
    obtain ⟨hok, hacts⟩ := store_acts h ha.1 ha.2 byte
    exact ⟨own, hok, hacts.mono (fun e he => .inl ⟨p, rfl, he⟩) id⟩
  | brk p kmallocOk brk =>
    obtain ⟨own', hok, hacts⟩ := brk_acts h ha kmallocOk brk
    exact ⟨own', hok, hacts.mono (fun e he => .inl ⟨p, rfl, he⟩) id⟩
  | load pcbPtr env file =>
    obtain ⟨own', hspec⟩ := Elf.loadELF_spec h threadExit pcbPtr env ha.1 ha.2
    refine ⟨own', hspec.sched, hspec.acts.mono (fun e he => ?_) id⟩
    rcases he with he | he
    · exact .inr he
    · obtain ⟨q, hq, hqe⟩ := Option.bind_eq_some_iff.mp he
      exact .inl ⟨q, hq, hqe⟩

/-- A process that no event of the step touches goes on with its directory. -/
theorem space_event (h : SchedOk base k own) (threadExit : Nat) {e : Event} (ha : Admits k e)
    (hq : k.space q = some d) (ht : ¬ Touches threadExit k e q) : (step threadExit k e).space q = some d := by
  cases e with
  | call op => exact space_step threadExit hq fun hv => ht (.inr hv)
  | store p va byte =>
    dsimp only [step]
    unfold storeOf
    split <;> exact hq
  | brk p kmallocOk brk =>
    dsimp only [step]
    unfold brkOf
    split
    · exact hq
    · rename_i pcb _
      generalize Syscalls.sysBrk kmallocOk k.machine pcb.pageDirectory pcb.heap brk = r
      obtain ⟨n, heap, m⟩ := r
      dsimp only
      rw [space_modPcb (k.withMachine m) p (f := fun pcb => { pcb with heap := heap }) fun _ => rfl]
      exact hq
  | load pcbPtr env file =>
    obtain ⟨own', hspec⟩ := Elf.loadELF_spec h threadExit pcbPtr env ha.1 ha.2
    exact hspec.lives hq ht

/-! ## The frames of a process -/

/-- The use that the ghost state records for the part. -/
def Part.use (d : Nat) : Part → Use
  | .directory => .dir
  | .table i => .table d i
  | .page i j => .page d i j

theorem Uses.owned (h : Spaces base k own) {part : Part} {a : Nat} (hu : Uses k p part a) :
    ∃ d, k.space p = some d ∧ own a = some (part.use d) ∧ (part.use d).dirOf a = some d := by
  cases part with
  | directory => exact ⟨a, hu, h.dir hu, rfl⟩
  | table i =>
    obtain ⟨d, hd, hi, ht⟩ := hu
    exact ⟨d, hd, h.owned.tables.table.mpr ⟨h.dir hd, hi, ht⟩, rfl⟩
  | page i j =>
    obtain ⟨d, hd, hi, hj, hp⟩ := hu
    exact ⟨d, hd, h.owned.pages.page.mpr ⟨h.dir hd, hi, hj, hp⟩, rfl⟩

theorem uses_of_own (h : Spaces base k own) {a : Nat} {u : Use} (hu : own a = some u) (hne : u ≠ .held) :
    ∃ p part, Uses k p part a := by
  cases u with
  | held => exact absurd rfl hne
  | dir =>
    obtain ⟨p, hp⟩ := (h.dirs a).mp hu
    exact ⟨p, .directory, hp⟩
  | table d i =>
    obtain ⟨hd, hi, ht⟩ := h.owned.tables.table.mp hu
    obtain ⟨p, hp⟩ := (h.dirs d).mp hd
    exact ⟨p, .table i, d, hp, hi, ht⟩
  | page d i j =>
    obtain ⟨hd, hi, hj, hpage⟩ := h.owned.pages.page.mp hu
    obtain ⟨p, hp⟩ := (h.dirs d).mp hd
    exact ⟨p, .page i j, d, hp, hi, hj, hpage⟩

/-- A frame is one part of one address space. -/
theorem Uses.unique (h : Spaces base k own) {part part' : Part} {a : Nat} (hu : Uses k p part a)
    (hu' : Uses k q part' a) : p = q ∧ part = part' := by
  obtain ⟨d, hp, ho, hd⟩ := hu.owned h
  obtain ⟨d', hq, ho', hd'⟩ := hu'.owned h
  have huse : part.use d = part'.use d' := Option.some.inj (ho.symm.trans ho')
  obtain rfl : d = d' := Option.some.inj (hd.symm.trans ((congrArg (Use.dirOf a) huse).trans hd'))
  refine ⟨h.inj hp hq, ?_⟩
  cases part <;> cases part' <;> simp_all [Part.use]

/-! ## Every run -/

structure Kept (boot : Pmm.Info) (tramp : Nat) (k : Kernel) (own : Owners) : Prop where
  sched : SchedOk (KernelFrame boot tramp) k own
  trampoline : k.trampolinePhys = tramp
  frees : FreesOk (KernelFrame boot tramp) k.machine.log
  accounted : Accounted (KernelFrame boot tramp) k.machine.pmm own

/-- No frame is without an owner. -/
def NoneHeld (own : Owners) : Prop := ∀ b, own b ≠ some .held

variable {boot : Pmm.Info} {tramp : Nat}

theorem kept_step (h : Kept boot tramp k own) (threadExit : Nat) {e : Event} (ha : Admits k e) : ∃ own',
    Kept boot tramp (step threadExit k e) own' ∧
    (Clean threadExit k e → NoneHeld own → NoneHeld own') ∧
    Within (KernelFrame boot tramp) tramp (TouchesSpace threadExit k e) k.machine
      (step threadExit k e).machine own own' := by
  obtain ⟨own', hok, hacts⟩ := event_acts h.sched threadExit ha
  have hw := h.trampoline ▸ hacts.within
  exact ⟨own', ⟨hok, hacts.tramp.trans h.trampoline, hw.frees h.frees, hw.accounted h.accounted⟩,
    fun hc hn b hb => hn b (hacts.held hc b hb), hw⟩

theorem kept_run {events : List Event} : ∀ {k : Kernel} {own : Owners}, Kept boot tramp k own →
    Along (step threadExit) Admits k events → ∃ own', Kept boot tramp (run (step threadExit) k events) own' ∧
      (Along (step threadExit) (Clean threadExit) k events → NoneHeld own → NoneHeld own') := by
  induction events with
  | nil => exact fun {k own} h _ => ⟨own, h, fun _ hn => hn⟩
  | cons e events ih =>
    intro k own h ha
    obtain ⟨own₁, h₁, hclean, -⟩ := kept_step h threadExit ha.1
    obtain ⟨own', h', hclean'⟩ := ih h₁ ha.2
    exact ⟨own', h', fun hc hn => hclean' hc.2 (hclean hc.1 hn)⟩

theorem Kept.framesOk (h : Kept boot tramp k own) : FramesOk boot k where
  once hu hu' := hu.unique h.sched.spaces hu'
  allocated {p part a} hu := by
    obtain ⟨d, -, ho, -⟩ := hu.owned h.sched.spaces
    obtain ⟨hmod, -, -⟩ := h.sched.spaces.owned.frames.aligned ho
    obtain ⟨-, hused, hbase⟩ := h.sched.spaces.owned.frames.owned ho
    refine ⟨hmod, hused, by_contra fun hf => hbase (.inl ⟨hmod, hf⟩), fun ht => hbase (.inr ?_)⟩
    exact ht.trans h.trampoline
  frees a inUse hm h0 := by
    obtain ⟨hin, hmod, hbase⟩ := h.frees a inUse hm h0
    exact ⟨hin, by_contra fun hf => hbase (.inl ⟨hmod, hf⟩), fun ht => hbase (.inr (ht.trans h.trampoline))⟩

theorem Kept.conserved (h : Kept boot tramp k own) (hn : NoneHeld own) : Conserved boot k := fun g => by
  have hdiv : g * 4096 / 4096 = g := Nat.mul_div_cancel g (by decide)
  have hframes := h.sched.spaces.owned.frames
  constructor
  · refine fun hf => ⟨by_contra fun hboot => ?_, fun ht => ?_, fun p part hu => ?_⟩
    · exact (hframes.used _ (.inl ⟨Nat.mul_mod_left g 4096, hdiv.symm ▸ hboot⟩)).2 (hdiv.symm ▸ hf)
    · exact (hframes.used _ (.inr (ht.trans h.trampoline))).2 (hdiv.symm ▸ hf)
    · exact (h.framesOk.allocated hu).2.1 (hdiv.symm ▸ hf)
  · rintro ⟨hboot, ht, hno⟩
    by_contra hf
    rcases h.accounted g hf with (hb | hb) | ⟨u, hu⟩
    · exact hb.2 (hdiv.symm ▸ hboot)
    · exact ht (hb.trans h.trampoline.symm)
    · obtain ⟨p, part, hp⟩ := uses_of_own h.sched.spaces hu fun he => hn _ (he ▸ hu)
      exact hno p part hp

theorem kept_newScheduler {m : Machine} {zone : Kstack.Zone} {idleTask tcbPtr : Nat} (hb : Boots m)
    (hz : Kstack.ZoneOk zone) (h : newScheduler m zone threadExit idleTask tcbPtr = some k) :
    Kept m.pmm k.trampolinePhys k fun _ => none := by
  obtain ⟨hs, hfrees, hacc⟩ := spaces_newScheduler hb h
  obtain ⟨-, -, -, -, -, -, -, hparent⟩ := newScheduler_parts h
  refine ⟨⟨rota_newScheduler h, slotsOk_newScheduler hz h, fun t p ⟨tcb, ht, hp, _⟩ => ?_, hs⟩, rfl,
    hfrees, hacc⟩
  rw [hparent t tcb ht] at hp
  exact nomatch hp

/-! ## A small program -/

/-- One segment of eight bytes at `0x20000000`, of which four are in the file. -/
def tinyProgram : List UInt8 :=
  [0x7F, 0x45, 0x4C, 0x46] ++ List.replicate 20 0 ++ [0, 0, 0, 0x20, 52, 0, 0, 0] ++
    List.replicate 12 0 ++ [1, 0, 0, 0, 0, 0, 0, 0] ++
    [1, 0, 0, 0, 84, 0, 0, 0, 0, 0, 0, 0x20, 0, 0, 0, 0, 4, 0, 0, 0, 8, 0, 0, 0] ++
    List.replicate 8 0 ++ [0xB8, 0x01, 0xEB, 0xFE]

def tinyFile : Fs.File := Fs.openFile 1 Fs.oRdonly tinyProgram

/-- Every read succeeds, and there is memory for every table. -/
def allOk : Elf.Env :=
  let read : Module.ReadAnswer := ⟨⟨true, []⟩, true⟩
  { header := read, shTable := ⟨true, read⟩, shNames := ⟨true, read⟩, appMeta := fun _ => read
    phTable := ⟨true, read⟩, chunk := fun _ _ => read }

theorem inv_tinyFile : Fs.Inv tinyFile := Fs.inv_openFile (by decide) (by decide)

theorem segment_tinyProgram {j : Nat} {ph : Elf.ProgramHeader} (h : Elf.Segment tinyProgram j ph) :
    j = 0 ∧ ph = ⟨1, 84, 0x20000000, 4, 8⟩ := by
  obtain ⟨⟨-, hj⟩, hp, -⟩ := h
  have hcount : (Elf.header tinyProgram).phEntryCount = 1 := by decide
  obtain rfl : j = 0 := by omega
  exact ⟨rfl, hp.symm⟩

theorem straight_tinyProgram : Elf.AllStraight tinyProgram := fun j ph h => by
  obtain ⟨-, rfl⟩ := segment_tinyProgram h
  unfold Elf.ProgramHeader.Straight
  decide

theorem pagesOwn_tinyProgram : Elf.PagesOwn tinyProgram := by
  refine ⟨fun j i ph ph' va hj hi hne => ?_, fun j ph h hin => ?_⟩
  · exact absurd ((segment_tinyProgram hj).1.trans (segment_tinyProgram hi).1.symm) hne
  · obtain ⟨-, rfl⟩ := segment_tinyProgram h
    exact absurd hin.2 (by decide)

theorem boots_eightFrames : Boots Paging.eightFrames := ⟨eightFrames_active, by decide, rfl⟩

/-- The scheduler of the small machine. -/
def small : Kernel := (newScheduler Paging.eightFrames tenStacks 0x5000 0x6000 1).get (by decide)

theorem newScheduler_small :
    newScheduler Paging.eightFrames tenStacks 0x5000 0x6000 1 = some small := (Option.some_get _).symm

/-! ## Frames in every run -/

section Runs

variable {m : Machine} {zone : Kstack.Zone} {idleTask tcbPtr : Nat} {events : List Event}

/-- In every run each frame is one part of one address space. -/
theorem framesOk_run (hb : Boots m) (hz : Kstack.ZoneOk zone)
    (h : newScheduler m zone threadExit idleTask tcbPtr = some k)
    (ha : Along (step threadExit) Admits k events) :
    FramesOk m.pmm (run (step threadExit) k events) := by
  obtain ⟨own, hk, -⟩ := kept_run (kept_newScheduler hb hz h) ha
  exact hk.framesOk

/-- A program is loaded, it stores a byte and it is killed. -/
theorem framesOk_run_tiny : FramesOk Paging.eightFrames.pmm (run (step 0x5000) small
    [.load 2 allOk tinyFile, .store 2 0x20000000 7, .call (.killProcess 0)]) :=
  framesOk_run boots_eightFrames (show Kstack.ZoneOk tenStacks from Nat.le_refl _) newScheduler_small
    ⟨⟨inv_tinyFile, straight_tinyProgram⟩, ⟨by decide +kernel, by decide, by decide⟩, trivial, trivial⟩

/-- In every run of clean steps no frame is lost. -/
theorem conserved_run (hb : Boots m) (hz : Kstack.ZoneOk zone)
    (h : newScheduler m zone threadExit idleTask tcbPtr = some k)
    (ha : Along (step threadExit) Admits k events)
    (hc : Along (step threadExit) (Clean threadExit) k events) :
    Conserved m.pmm (run (step threadExit) k events) := by
  obtain ⟨own, hk, hheld⟩ := kept_run (kept_newScheduler hb hz h) ha
  exact hk.conserved (hheld hc nofun)

/-- A program is loaded and killed, and its frames are free again. -/
theorem conserved_run_tiny : Conserved Paging.eightFrames.pmm (run (step 0x5000) small
    [.load 2 allOk tinyFile, .call (.killProcess 0)]) :=
  conserved_run boots_eightFrames (show Kstack.ZoneOk tenStacks from Nat.le_refl _) newScheduler_small
    ⟨⟨inv_tinyFile, straight_tinyProgram⟩, trivial, trivial⟩
    ⟨⟨by decide +kernel, pagesOwn_tinyProgram⟩, (fun _ hd => nomatch hd), trivial⟩

end Runs

/-! ## Isolation -/

/-- The address space of `d` is the same, and so are its bytes, but for those of the frame that all
processes share. -/
structure SeesSame (tramp d : Nat) (m m' : Machine) : Prop where
  pages : ∀ va, UserAddr va → pteAt m' d va = pteAt m d va
  bytes : ∀ va, UserAddr va → frameAddr (pteAt m d va) ≠ tramp → userByte m' d va = userByte m d va

theorem SeesSame.trans {m m₁ m' : Machine} (h : SeesSame tramp d m m₁) (h₁ : SeesSame tramp d m₁ m') :
    SeesSame tramp d m m' where
  pages va hva := (h₁.pages va hva).trans (h.pages va hva)
  bytes va hva ht := (h₁.bytes va hva ((h.pages va hva).symm ▸ ht)).trans (h.bytes va hva ht)

/-- An address space that a change does not touch. -/
theorem seesSame_of_within {D : Nat → Prop} {m' : Machine} (h : Spaces base k own)
    (hw : Within base k.trampolinePhys D k.machine m' own own') (hp : k.space p = some d) (hd : ¬ D d) :
    SeesSame k.trampolinePhys d k.machine m' := by
  have hpages : ∀ va, UserAddr va → pteAt m' d va = pteAt k.machine d va := fun va hva =>
    hw.pte h.owned h.apart (h.dir hp) hd hva.idx.1.1 hva.idx.2
  refine ⟨hpages, fun va hva ht => ?_⟩
  unfold userByte
  rw [hpages va hva]
  split
  · rename_i hpr
    obtain ⟨hi, hj⟩ := hva.idx
    have hpage := h.owned.pages.page.mpr ⟨h.dir hp, hi, hj, hpr, rfl, ht, (h.priv hp _ _ hi hj hpr).1⟩
    refine congrArg some (hw.mem (u := .page d (pdIdx va) (ptIdx va)) ?_ rfl hd)
    rw [frameAddr_add (frameAddr_mod _) (Nat.mod_lt _ (by decide))]
    exact hpage
  · rfl

theorem seesSame_run {events : List Event} : ∀ {k : Kernel} {own : Owners}, Kept boot tramp k own →
    Along (step threadExit) Admits k events → k.space q = some d →
    Along (step threadExit) (fun k e => ¬ Touches threadExit k e q) k events →
    (run (step threadExit) k events).space q = some d ∧
      SeesSame tramp d k.machine (run (step threadExit) k events).machine := by
  induction events with
  | nil => exact fun {k own} _ _ hq _ => ⟨hq, fun _ _ => rfl, fun _ _ _ => rfl⟩
  | cons e events ih =>
    intro k own h ha hq ht
    obtain ⟨own₁, h₁, -, hw⟩ := kept_step h threadExit ha.1
    have hd : ¬ TouchesSpace threadExit k e d := fun hd => by
      rcases hd with ⟨q', hq', hd'⟩ | hnew
      · exact ht.1 (h.sched.spaces.inj hd' hq ▸ hq')
      · exact hnew q hq
    have hsame : SeesSame tramp d k.machine (step threadExit k e).machine := by
      have hw' : Within (KernelFrame boot tramp) k.trampolinePhys (TouchesSpace threadExit k e) k.machine
          (step threadExit k e).machine own own₁ := by
        rw [h.trampoline]
        exact hw
      have hsame := seesSame_of_within h.sched.spaces hw' hq hd
      rwa [h.trampoline] at hsame
    obtain ⟨hq', hrest⟩ := ih h₁ ha.2 (space_event h.sched threadExit ha.1 hq ht.1) ht.2
    exact ⟨hq', hsame.trans hrest⟩

section Runs

variable {m : Machine} {zone : Kstack.Zone} {idleTask tcbPtr : Nat} {before after : List Event}

/-- What a process sees does not change while no event touches it. -/
theorem isolation_run (hb : Boots m) (hz : Kstack.ZoneOk zone)
    (h : newScheduler m zone threadExit idleTask tcbPtr = some k)
    (hk : run (step threadExit) k before = k') (ha : Along (step threadExit) Admits k (before ++ after))
    (hq : k'.space q = some d)
    (ht : Along (step threadExit) (fun k e => ¬ Touches threadExit k e q) k' after) :
    (run (step threadExit) k' after).space q = some d ∧
      SeesSame k.trampolinePhys d k'.machine (run (step threadExit) k' after).machine := by
  rw [along_append, hk] at ha
  obtain ⟨own, hkept, -⟩ := kept_run (kept_newScheduler hb hz h) ha.1
  exact seesSame_run (hk ▸ hkept) ha.2 hq ht

/-- Two processes without threads. -/
def createTwo : List Event :=
  [.call (.createProcess 2 0 false 0 0 false), .call (.createProcess 7 0 false 0 0 false)]

/-- The second one stores a byte and is killed. -/
def killSecond : List Event := [.store 7 0x20000000 5, .call (.killProcess 1)]

theorem isolation_run_two : ((run (step 0x5000) (run (step 0x5000) small createTwo) killSecond).space 2 =
      some 0x4000) ∧ SeesSame small.trampolinePhys 0x4000 (run (step 0x5000) small createTwo).machine
    (run (step 0x5000) (run (step 0x5000) small createTwo) killSecond).machine := by
  refine isolation_run boots_eightFrames (show Kstack.ZoneOk tenStacks from Nat.le_refl _)
    newScheduler_small rfl ?_ (by decide +kernel) ?_
  · exact ⟨fun _ hf => (nomatch hf), fun _ hf => (nomatch hf), ⟨by decide +kernel, by decide, by decide⟩,
      trivial, trivial⟩
  · exact ⟨(by decide : ¬ 7 = 2), fun ht => ht.elim nofun (by decide +kernel), trivial⟩

/-- A program that is loaded is all of its segments, at an address where there was no process. -/
theorem load_run (hb : Boots m) (hz : Kstack.ZoneOk zone)
    (h : newScheduler m zone threadExit idleTask tcbPtr = some k)
    (hk : run (step threadExit) k before = k') (ha : Along (step threadExit) Admits k before)
    {ptr : Nat} {env : Elf.Env} {file : Fs.File} (hf : Fs.Inv file) (hs : Elf.AllStraight file.fil.data)
    (hap : Elf.PagesApart (Elf.headers file.fil.data) 0 (Elf.header file.fil.data).phEntryCount)
    (hp : (Elf.loadELF threadExit k' ptr env file).1 = some p) :
    k'.pcbs p = none ∧ ∃ pcb,
      Elf.Program file.fil.data (Elf.loadELF threadExit k' ptr env file).2.1 p pcb := by
  obtain ⟨own, hkept, -⟩ := kept_run (kept_newScheduler hb hz h) ha
  obtain ⟨own', hspec⟩ := Elf.loadELF_spec (hk ▸ hkept).sched threadExit ptr env hf hs
  obtain ⟨rfl, hnone, hprogram⟩ := hspec.result p hp
  exact ⟨hnone, hprogram hap⟩

/-- The small program is loaded into an empty system. -/
theorem load_run_tiny : small.pcbs 2 = none ∧ ∃ pcb,
    Elf.Program tinyProgram (Elf.loadELF 0x5000 small 2 allOk tinyFile).2.1 2 pcb :=
  load_run boots_eightFrames (show Kstack.ZoneOk tenStacks from Nat.le_refl _) newScheduler_small
    (show run (step 0x5000) small [] = small from rfl) trivial inv_tinyFile straight_tinyProgram
    pagesOwn_tinyProgram.1 (by decide +kernel)

end Runs

end Processes
end Hashx86