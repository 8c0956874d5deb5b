import Hashx86.Elf.Segment
import Hashx86.Sched.Kept
import Hashx86.Syscalls.BrkFrames

/-!
# The process of a program

`loadELF` makes a process, loads the segments into its address space and lays out its heap. When a
segment cannot be loaded it ends the first process that has the new PID, which is the new one unless the
counter of the PIDs has gone round.

* `loadImage_spec`: the segments of the file, for a directory.
* `loadELF_spec`: what happens to the processes and the address spaces.
-/

namespace Hashx86
namespace Elf

open Lib Paging Sched Fs
open Module (ReadAnswer SameFile slice readAt)

variable {base : Nat → Prop} {tramp d : Nat} {m m₁ m' : Machine} {own own₁ own' : Owners}
variable {file : File} {k : Kernel}

/-! ## The file -/

/-- The header of the file. -/
def header (data : List UInt8) : Header := parseHeader (slice data 0 52)

/-- The table of its program headers. -/
def headers (data : List UInt8) : List UInt8 :=
  slice data (header data).phOffset (32 * (header data).phEntryCount)

/-- Program header `j` of the file is a segment. -/
def Segment (data : List UInt8) (j : Nat) (ph : ProgramHeader) : Prop :=
  IsSegment (headers data) 0 (header data).phEntryCount j ph

/-- Every segment ends before the last page of the address space. -/
def AllStraight (data : List UInt8) : Prop := ∀ j ph, Segment data j ph → ph.Straight

/-- No two segments have a page in common, and none has the page of the exit trampoline. -/
def PagesOwn (data : List UInt8) : Prop :=
  PagesApart (headers data) 0 (header data).phEntryCount ∧
    ∀ j ph, Segment data j ph → ¬ ph.InPages userExitTrampolineVirt

theorem u32_lt (b : List UInt8) (i : Nat) : Module.u32 b i < 2 ^ 32 := read32_lt _ i

theorem u16_lt (b : List UInt8) (i : Nat) : Module.u16 b i < 2 ^ 16 := by
  unfold Module.u16
  have := (b.getD i 0).toNat_lt
  have := (b.getD (i + 1) 0).toNat_lt
  omega

theorem parseSection_lt (b : List UInt8) (i : Nat) :
    (parseSection b i).offset < 2 ^ 32 ∧ (parseSection b i).size < 2 ^ 32 := ⟨u32_lt _ _, u32_lt _ _⟩

theorem readAt_same {f : File} (hf : Fs.Inv f) {offset size : Nat} (ho : offset < 2 ^ 32)
    (hpos : 0 < size) (hlt : size < 2 ^ 32) (a : ReadAnswer) :
    SameFile f (readAt f 1 offset size a).2.2 ∧
      ∀ b ∈ (readAt f 1 offset size a).1, b = slice f.fil.data offset size := by
  obtain ⟨bytes, f', hs, -, ⟨-, hb, he⟩ | ⟨-, he⟩⟩ :=
    Module.readAt_cases hf (show (1 : Nat) ≠ 0 by decide) ho hpos hlt a <;> rw [he]
  · exact ⟨hs, fun b hm => (Option.some.inj hm).symm.trans hb⟩
  · exact ⟨hs, fun b hm => nomatch hm⟩

theorem findMeta_same (env : Env) (shTable shNames : List UInt8) (n : Nat) :
    ∀ (i : Nat) {file : File}, Fs.Inv file →
    SameFile file (findMeta env shTable shNames n i file).2 := by
  induction n with
  | zero => exact fun i file hf => .refl hf
  | succ n ih =>
    intro i file hf
    have hread := (readAt_same hf (parseSection_lt shTable i).1
      (show 0 < 8 by decide) (by decide) (env.appMeta i)).1
    unfold findMeta
    dsimp only
    generalize readAt file 1 (parseSection shTable i).offset 8 (env.appMeta i) = r at hread ⊢
    split
    · exact ih (i + 1) hf
    split
    · exact ih (i + 1) hf
    split
    · exact ih (i + 1) hf
    split
    · exact hread.trans (ih (i + 1) hread.inv)
    split
    · exact hread.trans (ih (i + 1) hread.inv)
    · exact hread

/-- The offsets and counts of a header have 32 and 16 bits. -/
structure Sized (h : Header) : Prop where
  phOffset : h.phOffset < 2 ^ 32
  shOffset : h.shOffset < 2 ^ 32
  shEntryCount : h.shEntryCount < 2 ^ 16

theorem sized_header (data : List UInt8) : Sized (header data) :=
  ⟨u32_lt _ _, u32_lt _ _, u16_lt _ _⟩

theorem detectELFAppType_same (env : Env) (hf : Fs.Inv file) {h : Header} (hs : Sized h) :
    SameFile file (detectELFAppType env file h).2 := by
  unfold detectELFAppType
  dsimp only
  split
  · exact .refl hf
  split
  · exact .refl hf
  split
  · exact .refl hf
  split
  · exact .refl hf
  rename_i hcount _ _ _
  have hread := (readAt_same hf hs.shOffset (show 0 < 40 * h.shEntryCount by omega)
    (by have := hs.shEntryCount; omega) env.shTable.read).1
  generalize readAt file 1 h.shOffset (40 * h.shEntryCount) env.shTable.read = r at hread ⊢
  split
  · exact hread
  split
  · exact hread
  split
  · exact hread
  split
  · exact hread
  split
  · exact hread
  rename_i shTable _ _ hsize _ _
  have hnames := (readAt_same hread.inv
    (parseSection_lt shTable h.shStrIndex).1 (Nat.pos_of_ne_zero hsize)
    (parseSection_lt shTable h.shStrIndex).2 env.shNames.read).1
  generalize readAt r.2.2 1 (parseSection shTable h.shStrIndex).offset
    (parseSection shTable h.shStrIndex).size env.shNames.read = r' at hnames ⊢
  split
  · exact hread.trans hnames
  · exact (hread.trans hnames).trans (findMeta_same env _ _ _ _ hnames.inv)

/-! ## The segments -/

/-- A load that gives up before the first segment. -/
theorem Loaded.failed {phTable : List UInt8} {lo hi maxVirtEnd : Nat} (h : Lives base tramp d m own)
    (file' : File) : Loaded base tramp d phTable lo hi maxVirtEnd m file own own (none, m, file') :=
  ⟨.refl h, fun _ _ _ => ⟨rfl, rfl⟩, fun _ hf => absurd rfl hf, fun _ hv => nomatch hv⟩

theorem loadSegments_le (env : Env) {phTable : List UInt8} (n : Nat) : ∀ (i maxVirtEnd : Nat)
    {m : Machine} (file : File), maxVirtEnd ≤ 0xFFFFF000 →
    (∀ j ph, IsSegment phTable i (i + n) j ph → ph.Straight) →
    ∀ v ∈ (loadSegments env phTable d n i maxVirtEnd m file).1, v ≤ 0xFFFFF000 := by
  induction n with
  | zero =>
    intro i maxVirtEnd m file hle _ v hv
    obtain rfl := Option.some.inj hv
    exact hle
  | succ n ih =>
    intro i maxVirtEnd m file hle hs
    have hrest : ∀ j ph, IsSegment phTable (i + 1) (i + 1 + n) j ph → ph.Straight := fun j ph hj =>
      hs j ph ⟨by have := hj.1; omega, hj.2⟩
    unfold loadSegments
    dsimp only
    by_cases ht : (parseProgramHeader phTable i).type = 1
    swap
    · rw [if_pos ht]
      exact ih (i + 1) maxVirtEnd file hle hrest
    rw [if_neg (not_not.mpr ht)]
    have hstop : (parseProgramHeader phTable i).stop ≤ 0xFFFFF000 := by
      have hst := hs i _ ⟨by omega, rfl, ht⟩
      unfold ProgramHeader.Straight at hst
      exact (Nat.mod_le _ _).trans hst
    generalize loadSegment (env.chunk i) d (parseProgramHeader phTable i) m file = r
    obtain ⟨ok, m₁, file₁⟩ := r
    cases ok with
    | false => exact fun v hv => absurd hv (Option.not_mem_none v)
    | true => exact ih (i + 1) _ file₁ (Nat.max_le.mpr ⟨hle, hstop⟩) hrest

theorem loadImage_spec (env : Env) (hl : Lives base tramp d m own) (hf : Fs.Inv file)
    (hs : AllStraight file.fil.data) : ∃ own',
    Loaded base tramp d (headers file.fil.data) 0 (header file.fil.data).phEntryCount 0 m file own own'
      (loadImage env d (header file.fil.data) m file) ∧
    ∀ v ∈ (loadImage env d (header file.fil.data) m file).1, v ≤ 0xFFFFF000 := by
  have hfail : ∀ file' : File, ∃ own', Loaded base tramp d (headers file.fil.data) 0
      (header file.fil.data).phEntryCount 0 m file own own' (none, m, file') ∧
      ∀ v ∈ (none : Option Nat), v ≤ 0xFFFFF000 := fun file' =>
    ⟨own, .failed hl file', fun v hv => nomatch hv⟩
  unfold loadImage
  by_cases hcount : (header file.fil.data).phEntryCount = 0 ∨
    65536 < (header file.fil.data).phEntryCount
  · rw [if_pos hcount]
    exact hfail file
  rw [if_neg hcount]
  by_cases hnew : env.phTable.new = true
  swap
  · rw [if_pos (by simpa using hnew)]
    exact hfail file
  rw [if_neg (by simp [hnew])]
  dsimp only
  obtain ⟨hsame, hbytes⟩ := readAt_same hf (sized_header file.fil.data).phOffset
    (show 0 < 32 * (header file.fil.data).phEntryCount by omega) (by omega) env.phTable.read
  generalize readAt file 1 (header file.fil.data).phOffset
    (32 * (header file.fil.data).phEntryCount) env.phTable.read = r at hsame hbytes ⊢
  obtain ⟨phTable, n, file'⟩ := r
  cases phTable with
  | none => exact hfail file'
  | some phTable =>
    obtain rfl : phTable = headers file.fil.data := hbytes phTable rfl
    dsimp only at hsame ⊢
    unfold AllStraight Segment at hs
    generalize headers file.fil.data = phTable at hs ⊢
    generalize (header file.fil.data).phEntryCount = count at hs ⊢
    have hrange : 0 + count = count := Nat.zero_add _
    obtain ⟨own', hl'⟩ : ∃ own', Loaded base tramp d phTable 0 (0 + count) 0 m file' own own'
        (loadSegments env phTable d count 0 0 m file') :=
      loadSegments_spec env count 0 0 file' hl (by rwa [hrange])
    have hle : ∀ v ∈ (loadSegments env phTable d count 0 0 m file').1, v ≤ 0xFFFFF000 :=
      loadSegments_le env count 0 0 file' (by decide) (by rwa [hrange])
    rw [hrange] at hl'
    refine ⟨own', ⟨hl'.stays, hl'.others, fun hf' hok => ?_, hl'.stop⟩, hle⟩
    obtain ⟨hfile, hmem⟩ := hl'.loaded hsame.inv hok
    exact ⟨hsame.trans hfile, fun hap j ph hj => hsame.data ▸ hmem hap j ph hj⟩

/-! ## The process -/

/-- The address spaces that a load may change: new ones, and that of the process that it ends. -/
def LoadTouches (k : Kernel) (e : Nat) : Prop :=
  (∀ q, k.space q ≠ some e) ∨ (firstWithPid k k.pidCounter).bind k.space = some e

/-- The process at `p` is the program of the file, and nothing else is in its address space. -/
structure Program (data : List UInt8) (k : Kernel) (p : Nat) (pcb : Pcb) : Prop where
  found : k.pcbs p = some pcb
  user : pcb.isKernelProcess = false
  entry : pcb.mainEntry = (header data).entry
  threads : pcb.threads = []
  segments : ∀ j ph, Segment data j ph → ph.InMemory k.machine pcb.pageDirectory data ∧
    ph.virtAddr + ph.memSize ≤ pcb.heap.startAddress
  rest : ∀ va, UserAddr va → (∀ j ph, Segment data j ph → ¬ ph.InPages va) →
    present (pteAt k.machine pcb.pageDirectory va) → AtTrampoline (pdIdx va) (ptIdx va)
  heap : pcb.heap.startAddress % pageSize = 0 ∧ pcb.heap.endAddress = pcb.heap.startAddress ∧
    pcb.heap.startAddress ≤ pcb.heap.maxAddress

/-- What a load does. -/
structure LoadSpec (base : Nat → Prop) (k : Kernel) (own own' : Owners) (ptr : Nat)
    (data : List UInt8) (r : Option Nat × Kernel × File) : Prop where
  sched : SchedOk base r.2.1 own'
  acts : Acts base (LoadTouches k) (r.1 ≠ none ∧ PagesOwn data) k r.2.1 own own'
  /-- The other processes go on. -/
  lives : ∀ {q d}, k.space q = some d → firstWithPid k k.pidCounter ≠ some q → r.2.1.space q = some d
  result : ∀ p ∈ r.1, p = ptr ∧ k.pcbs p = none ∧
    (PagesApart (headers data) 0 (header data).phEntryCount → ∃ pcb, Program data r.2.1 p pcb)

theorem LoadSpec.failed {data : List UInt8} {ptr : Nat} {k' : Kernel} (h : SchedOk base k' own')
    (ha : Acts base (LoadTouches k) True k k' own own')
    (hlives : ∀ {q d}, k.space q = some d → k'.space q = some d) (file : File) :
    LoadSpec base k own own' ptr data (none, k', file) :=
  ⟨h, ha.mono (fun _ he => he) fun _ => trivial, fun hq _ => hlives hq, fun _ hp => nomatch hp⟩

/-- `CreateProcess` without a thread. -/
theorem createProcess_bare (h : SchedOk base k own) (threadExit ptr : Nat) :
    (∃ k' own', createProcess threadExit k ptr 0 false 0 0 false = (none, k') ∧ SchedOk base k' own' ∧
      Acts base (fun e => ∀ q, k.space q ≠ some e) True k k' own own' ∧
      ∀ {q d}, k.space q = some d → k'.space q = some d) ∨
    ∃ d m own', createProcess threadExit k ptr 0 false 0 0 false =
        (some ptr, k.withProcess ptr false 0 d m) ∧ k.canNewPcb ptr = true ∧
      SchedOk base (k.withProcess ptr false 0 d m) own' ∧
      Acts base (fun e => ∀ q, k.space q ≠ some e) True k (k.withProcess ptr false 0 d m) own own' ∧
      OnlyTrampoline m d := by
  have hadmits : Admits k (.createProcess ptr 0 false 0 0 false) := fun _ hf => nomatch hf
  have hfail : (createProcess threadExit k ptr 0 false 0 0 false).1 = none →
      ∃ k' own', createProcess threadExit k ptr 0 false 0 0 false = (none, k') ∧ SchedOk base k' own' ∧
      Acts base (fun e => ∀ q, k.space q ≠ some e) True k k' own own' ∧
      ∀ {q d}, k.space q = some d → k'.space q = some d := fun hn => by
    obtain ⟨own', ha⟩ := createProcess_acts h.spaces threadExit ptr 0 false 0 0 false hadmits
    exact ⟨_, own', Prod.ext hn rfl, schedOk_step h threadExit hadmits
      (ha.mono (fun _ he => .inr (.inr he)) fun _ => trivial), ha, fun {q d} hq =>
        show (Sched.step threadExit k (.createProcess ptr 0 false 0 0 false)).space q = some d from
          space_step threadExit hq (by simp [victim])⟩
  by_cases hnew : k.canNewPcb ptr = true
  swap
  · refine .inl (hfail ?_)
    unfold createProcess
    rw [if_pos (by simpa using hnew)]
  rcases newUserSpace_cases h.spaces.owned h.spaces.tramp h.spaces.apart h.spaces.null with
    ⟨d, m, own', he, -⟩ | ⟨d, m, own', he, hb, honly⟩
  · refine .inl (hfail ?_)
    unfold createProcess
    rw [if_neg (by simp [hnew])]
    dsimp only
    rw [if_neg Bool.false_ne_true, he]
    rfl
  · have hr : (createProcess threadExit k ptr 0 false 0 0 false).1 = some ptr := by
      unfold createProcess
      rw [if_neg (by simp [hnew])]
      dsimp only
      rw [if_neg Bool.false_ne_true, he]
      rfl
    have hk : (createProcess threadExit k ptr 0 false 0 0 false).2 = k.withProcess ptr false 0 d m := by
      rw [createProcess_eq threadExit 0 0 0 false hnew ((if_neg Bool.false_ne_true).trans he),
        if_neg (by simp), if_pos rfl]
    have ha : Acts base (fun e => ∀ q, k.space q ≠ some e) True k (k.withProcess ptr false 0 d m) own
        own' := .born h.spaces hb rfl (space_fresh hnew) (by
          rw [space_withProcess, if_neg Bool.false_ne_true])
    refine .inr ⟨d, m, own', Prod.ext hr hk, hnew, ?_, ha, honly⟩
    have hk' : Sched.step threadExit k (.createProcess ptr 0 false 0 0 false) =
      k.withProcess ptr false 0 d m := hk
    rw [← hk']
    exact schedOk_step h threadExit hadmits (by
      rw [hk']
      exact ha.mono (fun _ he => .inr (.inr he)) fun _ => trivial)

/-- The first process with the new PID, when the new process is in the list. -/
theorem firstWithPid_added {k' : Kernel} {ptr q : Nat} (hl : k'.globalProcessList = k.globalProcessList ++ [ptr])
    (hids : k'.ids = Function.update k.ids ptr (some k.pidCounter)) (hnone : k.ids ptr = none)
    (hq : firstWithPid k' k.pidCounter = some q) :
    q = ptr ∨ firstWithPid k k.pidCounter = some q := by
  by_cases hqp : q = ptr
  · exact .inl hqp
  refine .inr ?_
  unfold firstWithPid at hq ⊢
  rw [hl, hids, List.find?_append] at hq
  have hold : k.globalProcessList.find? (fun p => Function.update k.ids ptr (some k.pidCounter) p =
      some k.pidCounter) = some q := by
    rcases Option.or_eq_some_iff.mp hq with hq | ⟨-, hq⟩
    · exact hq
    · exact absurd (List.mem_singleton.mp (List.mem_of_find?_eq_some hq)) hqp
  obtain ⟨hpid, as, bs, hlist, has⟩ := List.find?_eq_some_iff_append.mp hold
  refine List.find?_eq_some_iff_append.mpr ⟨?_, as, bs, hlist, fun a ha => ?_⟩
  · rwa [Function.update_of_ne hqp] at hpid
  · have hna := has a ha
    by_cases hap : a = ptr
    · simp [hap, hnone]
    · rwa [Function.update_of_ne hap] at hna

/-- Addresses of one page are in the same segments. -/
theorem ProgramHeader.InPages.page {ph : ProgramHeader} {va va' : Nat} (h : ph.InPages va)
    (hs : ph.Straight) (hp : va' / 4096 = va / 4096) : ph.InPages va' := by
  have hmod := hs.pages.2.1
  unfold ProgramHeader.InPages pageSize at h ⊢
  omega

/-- The process is made, and not loaded yet. -/
structure Made (data : List UInt8) (k k' : Kernel) (ptr d : Nat) (pcb : Pcb) : Prop where
  fresh : k.pcbs ptr = none
  pcbs : k'.pcbs = Function.update k.pcbs ptr (some pcb)
  list : k'.globalProcessList = k.globalProcessList ++ [ptr]
  pid : pcb.pid = k.pidCounter
  directory : pcb.pageDirectory = d
  user : pcb.isKernelProcess = false
  entry : pcb.mainEntry = (header data).entry
  threads : pcb.threads = []

section Made

variable {data : List UInt8} {k₁ : Kernel} {ptr : Nat} {pcb : Pcb}

theorem Made.found (hm : Made data k k₁ ptr d pcb) : k₁.pcbs ptr = some pcb := by
  rw [hm.pcbs, Function.update_self]

theorem Made.space (hm : Made data k k₁ ptr d pcb) : k₁.space ptr = some d := by
  rw [space_of_pcb hm.found hm.user, hm.directory]

theorem Made.lives (hm : Made data k k₁ ptr d pcb) {q e : Nat} (hq : k.space q = some e) :
    k₁.space q = some e ∧ q ≠ ptr := by
  have hqp : q ≠ ptr := fun hqp => by
    unfold Kernel.space at hq
    rw [hqp, hm.fresh] at hq
    exact nomatch hq
  unfold Kernel.space at hq ⊢
  rw [hm.pcbs, Function.update_of_ne hqp]
  exact ⟨hq, hqp⟩

theorem Made.new (hm : Made data k k₁ ptr d pcb) (h₁ : Spaces base k₁ own₁) (q : Nat) :
    k.space q ≠ some d := fun hq =>
  (hm.lives hq).2 (h₁.inj (hm.lives hq).1 hm.space)

theorem Made.ids (hm : Made data k k₁ ptr d pcb) :
    k₁.ids = Function.update k.ids ptr (some k.pidCounter) := by
  unfold Kernel.ids
  rw [hm.pcbs, map_update, Option.map_some, hm.pid]

theorem Made.first (hm : Made data k k₁ ptr d pcb) {q : Nat}
    (hq : firstWithPid k₁ k.pidCounter = some q) : q = ptr ∨ firstWithPid k k.pidCounter = some q :=
  firstWithPid_added hm.list hm.ids (by unfold Kernel.ids; rw [hm.fresh]; rfl) hq

/-- The process that `KillProcess` ends when the load fails. -/
theorem Made.victim (hm : Made data k k₁ ptr d pcb) (h₁ : Spaces base k₁ own₁) {e : Nat}
    (he : (firstWithPid k₁ k.pidCounter).bind k₁.space = some e) : LoadTouches k e := by
  obtain ⟨q, hq, hqe⟩ := Option.bind_eq_some_iff.mp he
  by_cases hqp : q = ptr
  · rw [hqp, hm.space] at hqe
    exact .inl (Option.some.inj hqe ▸ hm.new h₁)
  · refine .inr ?_
    have hold := (hm.first hq).resolve_left hqp
    rw [hold, Option.bind_some]
    unfold Kernel.space at hqe ⊢
    rwa [hm.pcbs, Function.update_of_ne hqp] at hqe

/-- Some page of the segment is the one at `va`, and no page of it is that of the exit trampoline. -/
theorem noneMapped_of_only (honly : OnlyTrampoline m d) (hs : AllStraight data)
    (ho : ∀ j ph, Segment data j ph → ¬ ph.InPages userExitTrampolineVirt) :
    NoneMapped (headers data) 0 (header data).phEntryCount m d := fun j ph va hj hva hin => by
  obtain ⟨hi, hjt⟩ := hva.idx
  refine Bool.eq_false_iff.mpr fun hp => ho j ph hj ?_
  obtain ⟨h1, h2⟩ := honly _ _ hi hjt hp
  refine hin.page (hs j ph hj) ?_
  unfold pdIdx at h1
  unfold ptIdx at h2
  unfold userExitTrampolineVirt
  omega

/-- `loadELF` from the load of the segments on. -/
def finish (env : Env) (data : List UInt8) (ptr d : Nat) (k : Kernel) (file : File) :
    Option Nat × Kernel × File :=
  match loadImage env d (header data) k.machine file with
  | (none, m, file) =>
    let k := k.withMachine m
    (none, (killProcess k (((k.pcbs ptr).map Pcb.pid).getD 0)).2, file)
  | (some maxVirtEnd, m, file) =>
    (some ptr, (k.withMachine m).modPcb ptr fun pcb => { pcb with heap := layoutHeap maxVirtEnd }, file)

theorem finish_spec (env : Env) (hm : Made data k k₁ ptr d pcb) (h₁ : SchedOk base k₁ own₁)
    (ha : Acts base (LoadTouches k) True k k₁ own own₁) (honly : OnlyTrampoline k₁.machine d)
    (hf : Fs.Inv file) (hdata : file.fil.data = data) (hs : AllStraight data) : ∃ own',
    LoadSpec base k own own' ptr data (finish env data ptr d k₁ file) := by
  subst hdata
  unfold finish
  obtain ⟨own₂, hl, hle⟩ := loadImage_spec env (h₁.spaces.lives hm.space) hf hs
  generalize loadImage env d (header file.fil.data) k₁.machine file = r at hl hle ⊢
  obtain ⟨maxVirtEnd, m, file'⟩ := r
  have hstays : Acts base (fun e => k₁.space ptr = some e) _ k₁ (k₁.withMachine m) own₁ own₂ :=
    .stays h₁.spaces hm.space hl.stays rfl rfl
  have h₂ : SchedOk base (k₁.withMachine m) own₂ := h₁.withMachine hstays.spaces
  have hacts : Acts base (LoadTouches k) (maxVirtEnd ≠ none ∧ PagesOwn file.fil.data) k
      (k₁.withMachine m) own own₂ := (ha.mono (fun _ he => he) fun _ => trivial).trans
    (hstays.mono (fun e he => .inl (Option.some.inj (hm.space.symm.trans he) ▸ hm.new h₁.spaces))
      fun ⟨hn, hp⟩ => ⟨hn, hp.1, noneMapped_of_only honly hs hp.2⟩)
  cases maxVirtEnd with
  | none =>
    dsimp only
    rw [show ((((k₁.withMachine m).pcbs ptr).map Pcb.pid).getD 0) = k.pidCounter by
      rw [show (k₁.withMachine m).pcbs ptr = some pcb from hm.found]
      exact hm.pid]
    obtain ⟨own', hk⟩ := killProcess_acts h₂.spaces h₂.rota h₂.slots h₂.stacked k.pidCounter
    have hmade : Made file.fil.data k (k₁.withMachine m) ptr d pcb :=
      ⟨hm.fresh, hm.pcbs, hm.list, hm.pid, hm.directory, hm.user, hm.entry, hm.threads⟩
    have hok : SchedOk base (Sched.step 0 (k₁.withMachine m) (.killProcess k.pidCounter)) own' :=
      schedOk_step h₂ 0 trivial (hk.mono (fun _ he => .inr (.inl he)) fun _ => trivial)
    have hlives : ∀ {q e}, k.space q = some e → firstWithPid k k.pidCounter ≠ some q →
        (Sched.step 0 (k₁.withMachine m) (.killProcess k.pidCounter)).space q = some e :=
      fun {q e} hq hne => by
        refine space_step 0 (hmade.lives hq).1 fun hv => ?_
        rcases hmade.first hv with he | he
        · exact (hmade.lives hq).2 he
        · exact hne he
    refine ⟨own', hok, ?_, hlives, fun _ hp => nomatch hp⟩
    exact (hacts.mono (fun _ he => he) fun hf => absurd rfl hf.1).trans
      (hk.mono (fun e he => hmade.victim h₂.spaces he) fun _ => trivial)
  | some v =>
    dsimp only
    have hside : Aside fun pcb => { pcb with heap := layoutHeap v } :=
      ⟨fun _ => rfl, fun _ => rfl, fun _ => rfl, fun _ => rfl, fun _ => rfl⟩
    have hspace := space_modPcb (k₁.withMachine m) ptr hside.space
    refine ⟨own₂, h₂.aside hside ptr, ?_, fun {q e} hq _ => ?_, fun p hp => ?_⟩
    · exact (hacts.mono (fun _ he => he) fun hc => ⟨by simp, hc.2⟩).trans
        (.same h₂.spaces rfl rfl hspace)
    · dsimp only
      rw [hspace]
      exact (hm.lives hq).1
    · obtain rfl := Option.some.inj hp
      refine ⟨rfl, hm.fresh, fun hap => ⟨{ pcb with heap := layoutHeap v }, ?_⟩⟩
      obtain ⟨-, hmem⟩ := hl.loaded hf (by simp)
      obtain ⟨-, hstop⟩ := hl.stop v rfl
      have hv : v ≤ 0xFFFFF000 := hle v rfl
      have hup : v ≤ Syscalls.pageUp v := by
        unfold Syscalls.pageUp pageSize
        omega
      have hfound : ((k₁.withMachine m).modPcb ptr fun pcb =>
          { pcb with heap := layoutHeap v }).pcbs ptr = some { pcb with heap := layoutHeap v } := by
        unfold Kernel.modPcb Kernel.setPcb Kernel.withMachine
        dsimp only
        rw [Function.update_self, hm.found]
        rfl
      refine ⟨hfound, hm.user, hm.entry, hm.threads, fun j ph hj => ⟨?_, ?_⟩, fun va hva hno hp => ?_,
        ?_, rfl, ?_⟩
      · exact hm.directory.symm ▸ hmem hap j ph hj
      · have hst := hs j ph hj
        have hjv := hstop j ph hj
        unfold ProgramHeader.Straight at hst
        unfold ProgramHeader.stop at hjv
        rw [Nat.mod_eq_of_lt (by omega)] at hjv
        exact hjv.trans hup
      · have hpte := (hl.others va hva hno).1
        rw [hm.directory] at hp
        obtain ⟨hi, hj⟩ := hva.idx
        exact honly _ _ hi hj (by
          unfold pteAt at hpte
          rw [← hpte]
          exact hp)
      · exact Nat.mul_mod_left _ _
      · have := Syscalls.pageUp_lt v
        show Syscalls.pageUp v ≤ min (Syscalls.pageUp v + 0x10000000) 0xFFFFFFFF
        omega

end Made

theorem loadELF_spec (h : SchedOk base k own) (threadExit ptr : Nat) (env : Env) (hf : Fs.Inv file)
    (hs : AllStraight file.fil.data) : ∃ own',
    LoadSpec base k own own' ptr file.fil.data (loadELF threadExit k ptr env file) := by
  unfold loadELF
  obtain ⟨hsame, hbytes⟩ := readAt_same hf (show 0 < 2 ^ 32 by decide) (show 0 < 52 by decide)
    (by decide) env.header
  generalize readAt file 1 0 52 env.header = r at hsame hbytes ⊢
  obtain ⟨bytes, n, file₁⟩ := r
  have hself : Acts base (LoadTouches k) True k k own own := .same h.spaces rfl rfl rfl
  cases bytes with
  | none => exact ⟨own, .failed h hself (fun hq => hq) file₁⟩
  | some bytes =>
    dsimp only
    rw [show parseHeader bytes = header file.fil.data from congrArg parseHeader (hbytes bytes rfl)]
    split
    · exact ⟨own, .failed h hself (fun hq => hq) file₁⟩
    have hsame₂ := hsame.trans (detectELFAppType_same env hsame.inv (sized_header file.fil.data))
    generalize detectELFAppType env file₁ (header file.fil.data) = r at hsame₂ ⊢
    obtain ⟨appType, file₂⟩ := r
    have hnew : ∀ {e}, (∀ q, k.space q ≠ some e) → LoadTouches k e := fun he => .inl he
    rcases createProcess_bare h threadExit ptr with
      ⟨k', own', he, hok, ha, hlives⟩ | ⟨d, m, own₁, he, hfresh, hok, ha, honly⟩
    · rw [he]
      exact ⟨own', .failed hok (ha.mono (fun e => hnew) id) hlives file₂⟩
    rw [he]
    dsimp only
    have hptr : k.pcbs ptr = none := canNewPcb_fresh hfresh
    obtain ⟨k₂, hk₂⟩ : ∃ k₂, k₂ = (k.withProcess ptr false 0 d m).modPcb ptr fun pcb =>
      { pcb with appType := appType, mainEntry := (header file.fil.data).entry } := ⟨_, rfl⟩
    rw [← hk₂]
    have hmade : Made file.fil.data k k₂ ptr d { newPcb k.pidCounter false 0 d with
        appType := appType, mainEntry := (header file.fil.data).entry } := by
      refine ⟨hptr, ?_, hk₂ ▸ rfl, rfl, rfl, rfl, rfl, rfl⟩
      rw [hk₂]
      unfold Kernel.modPcb Kernel.setPcb Kernel.withProcess
      dsimp only
      rw [Function.update_self, Function.update_idem]
      rfl
    have hside : Aside fun pcb => { pcb with appType := appType, mainEntry := (header file.fil.data).entry } :=
      ⟨fun _ => rfl, fun _ => rfl, fun _ => rfl, fun _ => rfl, fun _ => rfl⟩
    have h₂ : SchedOk base k₂ own₁ := hk₂ ▸ hok.aside hside ptr
    have hacts : Acts base (LoadTouches k) True k k₂ own own₁ :=
      (ha.mono (fun e => hnew) id).trans (.same hok.spaces (hk₂ ▸ rfl) (hk₂ ▸ rfl)
        (hk₂ ▸ space_modPcb _ ptr hside.space))
    have honly₂ : OnlyTrampoline k₂.machine d := hk₂ ▸ honly
    rw [show ((k₂.pcbs ptr).map Pcb.pageDirectory).getD 0 = d by rw [hmade.found]; rfl]
    obtain ⟨own', hspec⟩ := finish_spec env hmade h₂ hacts honly₂ hsame₂.inv hsame₂.data hs
    refine ⟨own', ?_⟩
    unfold finish at hspec
    exact hspec

end Elf
end Hashx86
