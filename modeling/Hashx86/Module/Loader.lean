import Hashx86.Module.Relocate

/-!
# What `LoadDriver` leaves on the heap

`Entered env f` says that the section headers and their names get onto the heap; then `LoadDriver` is
`link`, and `link_cases` has its two outcomes: an image did not load, or all did.

* `freed_iff`: the frees of a call are right unless an image does not load and a section from that
  one on has an address in the file.
* `linked`: a driver that is loaded has its images relocated, and only the heap of the call is
  written.
-/

namespace Hashx86
namespace Module

open Lib Fs

/-! ## Freeing blocks of the call -/

theorem kfree_own {h : Heap} (hok : HeapOk h) {b : Block} (hb : b ∈ h.blocks) :
    HeapOk (h.kfree b.addr) ∧ (h.kfree b.addr).wild = h.wild ∧
      ∀ c, c ∈ (h.kfree b.addr).blocks ↔ c ∈ h.blocks ∧ c ≠ b := by
  refine ⟨heapOk_kfree hok _, ?_, fun c => ?_⟩
  · rw [Heap.kfree_block (hok.bound b hb).1 ⟨b, hb, rfl⟩]
  · rw [mem_kfree hok]
    refine and_congr_right fun hc => not_congr ⟨hok.apart.eq_of_addr hc hb, ?_⟩
    rintro rfl
    rfl

/-- The blocks are freed one after the other. -/
def freeAll (h : Heap) (bs : List Block) : Heap := bs.foldl (fun h b => h.kfree b.addr) h

theorem freeAll_own {bs : List Block} : ∀ {h : Heap}, HeapOk h → bs.Nodup → (∀ b ∈ bs, b ∈ h.blocks) →
    (freeAll h bs).wild = h.wild ∧
      ∀ c, c ∈ (freeAll h bs).blocks ↔ c ∈ h.blocks ∧ c ∉ bs := by
  induction bs with
  | nil => exact fun _ _ _ => ⟨rfl, fun c => ⟨fun hc => ⟨hc, List.not_mem_nil⟩, fun hc => hc.1⟩⟩
  | cons b bs ih =>
    intro h hok hnd hsub
    obtain ⟨hnot, hnd⟩ := List.nodup_cons.mp hnd
    obtain ⟨hok₁, hwild, hmem⟩ := kfree_own hok (hsub b List.mem_cons_self)
    obtain ⟨hw, hm⟩ := ih hok₁ hnd fun c hc =>
      (hmem c).mpr ⟨hsub c (List.mem_cons_of_mem b hc), fun he => hnot (he ▸ hc)⟩
    refine ⟨hw.trans hwild, fun c => (hm c).trans ?_⟩
    rw [hmem, List.mem_cons, not_or, and_assoc]

theorem mem_of_freeAll (bs : List Block) : ∀ h : Heap, (freeAll h bs).mem = h.mem ∧
    (freeAll h bs).given = h.given ∧ (freeAll h bs).words = h.words := by
  induction bs with
  | nil => exact fun _ => ⟨rfl, rfl, rfl⟩
  | cons b bs ih =>
    intro h
    obtain ⟨h1, h2, h3⟩ := ih (h.kfree b.addr)
    obtain ⟨h4, h5, h6⟩ := mem_of_kfree h b.addr
    exact ⟨h1.trans h4, h2.trans h5, h3.trans h6⟩

/-! ## The images of a table -/

theorem length_fileImage {data : List UInt8} {s : Section}
    (h : s.type ≠ 8 → s.offset + s.size ≤ data.length) : (fileImage data s).length = s.size := by
  unfold fileImage
  split
  · rename_i ht
    exact length_slice (h ht)
  · exact List.length_replicate

section Images

variable {env : Env} {secs : Nat → Section} {f : File} {bs : List Block} {i : Nat}

/-- All the images below `i` load. -/
def AllLoad (env : Env) (secs : Nat → Section) (f : File) (bs : List Block) (i : Nat) : Prop :=
  ∀ j < i, (secs j).needed → ImageLoads f (imageBlocks env secs j ++ bs) (secs j) (env.image j)

theorem AllLoad.apart (hl : AllLoad env secs f bs i) {j k : Nat} (hj : j < k) (hk : k < i)
    (hnj : (secs j).needed) (hnk : (secs k).needed) :
    Block.Disjoint ⟨(env.image k).ptr, (secs k).size⟩ ⟨(env.image j).ptr, (secs j).size⟩ :=
  (hl k hk hnk).1.2.2.2.2 _ (List.mem_append_left _ (mem_imageBlocks.mpr ⟨j, hj, hnj, rfl⟩))

/-- What the loop frees: the images below `i`, and the addresses that the file has from `i` on. -/
theorem freed_placed (hl : AllLoad env secs f bs i) (k : Nat) : (placed env secs i k).freed ↔
    if k < i then (secs k).needed else (secs k).freed := by
  by_cases hk : k < i
  · rw [placed_of_lt hk, if_pos hk]
    by_cases hn : (secs k).needed
    · refine iff_of_true ⟨?_, hn.1⟩ hn
      dsimp only
      rw [if_pos hn]
      exact (hl k hk hn).1.2.2.1
    · refine iff_of_false (fun h => h.1 ?_) hn
      dsimp only
      rw [if_neg hn]
  · rw [placed_of_le (by omega), if_neg hk]

theorem addr_placed {k : Nat} (hk : k < i) (hn : (secs k).needed) :
    (placed env secs i k).addr = (env.image k).ptr := by
  rw [placed_of_lt hk]
  exact if_pos hn

/-- With no address from the file, the loop frees the images and nothing else. -/
theorem freeImages_placed (hl : AllLoad env secs f bs i) (pre : List Block) {h : Heap}
    (hok : HeapOk h) (hw : h.wild = []) (hb : h.blocks = pre ++ (imageBlocks env secs i ++ bs))
    {count : Nat} (hi : i ≤ count) (hfile : ∀ k, i ≤ k → k < count → ¬ (secs k).freed) :
    (freeImages (placed env secs i) h count 0).wild = [] ∧
      ∀ b, b ∈ (freeImages (placed env secs i) h count 0).blocks ↔
        b ∈ h.blocks ∧ b ∉ imageBlocks env secs i := by
  have hfreed : ∀ k < count, (placed env secs i k).freed → k < i ∧ (secs k).needed := fun k hk hf => by
    have hf := (freed_placed hl k).mp hf
    by_cases hki : k < i
    · exact ⟨hki, (if_pos hki ▸ hf :)⟩
    · rw [if_neg hki] at hf
      exact absurd hf (hfile k (by omega) hk)
  have himage : ∀ b ∈ imageBlocks env secs i, b ∈ h.blocks := fun b hm =>
    hb ▸ List.mem_append_right _ (List.mem_append_left _ hm)
  refine ⟨(wild_freeImages hok).mpr ⟨hw, fun k _ hk hf => ?_⟩, fun b => (mem_freeImages hok).trans ?_⟩
  · obtain ⟨hki, hn⟩ := hfreed k (by omega) hf
    rw [addr_placed hki hn]
    refine ⟨⟨_, himage _ (mem_imageBlocks.mpr ⟨k, hki, hn, rfl⟩), rfl⟩, fun j _ hjk hfj => ?_⟩
    obtain ⟨hji, hnj⟩ := hfreed j (by omega) hfj
    rw [addr_placed hji hnj]
    exact (hl.apart hjk hki hnj hn).addr_ne (Nat.pos_of_ne_zero hn.2) (Nat.pos_of_ne_zero hnj.2)
  · refine and_congr_right fun hmem => ⟨fun hall hin => ?_, fun hout k _ hk hf he => hout ?_⟩
    · obtain ⟨k, hki, hn, rfl⟩ := mem_imageBlocks.mp hin
      refine hall k (Nat.zero_le k) (by omega) ((freed_placed hl k).mpr ?_) (addr_placed hki hn).symm
      rw [if_pos hki]
      exact hn
    · obtain ⟨hki, hn⟩ := hfreed k (by omega) hf
      rw [addr_placed hki hn] at he
      have hin : ⟨(env.image k).ptr, (secs k).size⟩ ∈ imageBlocks env secs i :=
        mem_imageBlocks.mpr ⟨k, hki, hn, rfl⟩
      exact (hok.apart.eq_of_addr hmem (himage _ hin) he) ▸ hin

/-- An address from the file is freed, and what is freed later has gone or is not a block. -/
theorem freeImages_stale (hl : AllLoad env secs f bs i) {h : Heap} (hok : HeapOk h)
    (hb : h.blocks = imageBlocks env secs i ++ bs) {count k : Nat} (hi : i ≤ k) (hk : k < count)
    (hf : (secs k).freed) (hw : (freeImages (placed env secs i) h count 0).wild = []) :
    ∃ b ∈ bs, b ∉ (freeImages (placed env secs i) h count 0).blocks := by
  obtain ⟨-, hall⟩ := (wild_freeImages hok).mp hw
  have hfk : (placed env secs i k).freed := (freed_placed hl k).mpr (by rw [if_neg (by omega)]; exact hf)
  obtain ⟨⟨b, hmem, he⟩, hdiff⟩ := hall k (Nat.zero_le k) (by omega) hfk
  rw [hb] at hmem
  rcases List.mem_append.mp hmem with hmem | hmem
  · obtain ⟨j, hj, hn, rfl⟩ := mem_imageBlocks.mp hmem
    have hfj : (placed env secs i j).freed := (freed_placed hl j).mpr (by rw [if_pos hj]; exact hn)
    exact absurd (he.symm.trans (addr_placed hj hn).symm) (hdiff j (Nat.zero_le j) (by omega) hfj)
  · exact ⟨b, hmem, fun hin => ((mem_freeImages hok).mp hin).2 k (Nat.zero_le k) (by omega) hfk he⟩


theorem needed_placed (k : Nat) : (placed env secs i k).needed ↔ (secs k).needed := by
  unfold placed
  split <;> rfl

theorem offset_placed (env : Env) (secs : Nat → Section) (i k : Nat) : (placed env secs i k).offset = (secs k).offset := by
  unfold placed
  split <;> rfl

theorem image_placed {k : Nat} (hk : k < i) (hn : (secs k).needed) :
    (placed env secs i k).image = ⟨(env.image k).ptr, (secs k).size⟩ := by
  unfold Section.image
  rw [addr_placed hk hn, placed_of_lt hk]

theorem based_placed (hl : AllLoad env secs f bs i) {h : Heap}
    (hb : ∀ b ∈ imageBlocks env secs i, b ∈ h.blocks) : Based h (placed env secs i) i where
  held t ht hn := by
    have hn := (needed_placed t).mp hn
    rw [image_placed ht hn]
    exact hb _ (mem_imageBlocks.mpr ⟨t, ht, hn, rfl⟩)
  apart t ht u hu hnt hnu hne := by
    have hnt := (needed_placed t).mp hnt
    have hnu := (needed_placed u).mp hnu
    rw [image_placed ht hnt, image_placed hu hnu]
    rcases Nat.lt_or_gt_of_ne hne with hlt | hlt
    · exact (hl.apart hlt hu hnt hnu).symm
    · exact hl.apart hlt ht hnu hnt

theorem shows_placed (hl : AllLoad env secs f bs i) {h : Heap}
    (hb : ∀ j < i, (secs j).needed → ∀ x < (secs j).size,
      h.mem ((env.image j).ptr + x) = (fileImage f.fil.data (secs j)).getD x 0) :
    Shows h (placed env secs i) i fun t => fileImage f.fil.data (placed env secs i t) where
  length t ht hn := by
    have hn := (needed_placed t).mp hn
    rw [placed_of_lt ht]
    exact length_fileImage fun h8 => ((hl t ht hn).2 h8).2.2.2
  bytes t ht hn x hx := by
    have hn := (needed_placed t).mp hn
    rw [addr_placed ht hn]
    rw [placed_of_lt ht] at hx ⊢
    exact hb t ht hn x hx

end Images

/-! ## `link` -/

section Link

variable {env : Env} {secs : Nat → Section} {f : File} {bs : List Block} {count tablePtr strPtr : Nat}

/-- The image of section `i` is the first one that does not load. -/
def FailsAt (env : Env) (secs : Nat → Section) (f : File) (bs : List Block) (i : Nat) : Prop :=
  (secs i).needed ∧ ¬ ImageLoads f (imageBlocks env secs i ++ bs) (secs i) (env.image i) ∧
    AllLoad env secs f bs i

/-- The blocks of the symbol table and of its strings. -/
def SymbolBlocks (symbols : Option Symbols) (bs : List Block) : Prop :=
  match symbols with
  | none => bs = []
  | some sy => ∃ n m, bs = [⟨sy.strPtr, n⟩, ⟨sy.ptr, m⟩]

/-- The image of section `t` with all its relocations. -/
def linkedImage (env : Env) (data : List UInt8) (secs : Nat → Section) (count : Nat) (sy : Symbols)
    (t : Nat) : List UInt8 :=
  (relocsFrom data secs t 0 count).foldl (applied env secs sy (secs t).addr)
    (fileImage data (secs t))

/-- What `link` returns when it stops at the image of section `i`. -/
def stopped (env : Env) (secs : Nat → Section) (count tablePtr strPtr i : Nat) (io : Io) : Loaded where
  entry := 0
  sections := placed env secs i
  io := { io with
    heap := ((freeImages (placed env secs i) io.heap count 0).kfree tablePtr).kfree strPtr }

/-- The images after the search for the entry point. -/
def kept (env : Env) (secs : Nat → Section) (count entry : Nat) (heap : Heap) : Heap :=
  if entry = 0 then freeImages (placed env secs count) heap count 0 else heap

/-- What `link` returns when all the images are loaded. -/
def finished (env : Env) (secs : Nat → Section) (count tablePtr strPtr entry : Nat)
    (symbols : Option Symbols) (io : Io) : Loaded where
  entry := entry
  sections := placed env secs count
  io := { io with
    heap := freeSymbols symbols (((kept env secs count entry io.heap).kfree tablePtr).kfree strPtr) }

theorem link_cases (env : Env) (count tablePtr strPtr : Nat) {io : Io} (hio : IoOk io) (hfile : SameFile f io.file)
    (hoff : ∀ j, (secs j).offset < 2 ^ 32) (hb : io.heap.blocks = bs) :
    (∃ i < count, ∃ io', FailsAt env secs f bs i ∧ Moved io io' ∧ Held io io' ∧
      io'.heap.blocks = imageBlocks env secs i ++ bs ∧
      link env count tablePtr strPtr secs io = stopped env secs count tablePtr strPtr i io') ∨
    ∃ entry symbols syBlocks io', AllLoad env secs f bs count ∧ Moved io io' ∧
      SymbolBlocks symbols syBlocks ∧
      io'.heap.blocks = syBlocks ++ (imageBlocks env secs count ++ bs) ∧
      StoresInTargets (placed env secs count) count io.heap io'.heap ∧
      (entry ≠ 0 → ∃ sy, symbols = some sy ∧ SymbolsOf f.fil.data (placed env secs count) count sy ∧
        Shows io'.heap (placed env secs count) count
          (linkedImage env f.fil.data (placed env secs count) count sy)) ∧
      link env count tablePtr strPtr secs io =
        finished env secs count tablePtr strPtr entry symbols io' := by
  have hload := loadImages_cases env hoff count (i := 0) hio hfile (by rw [hb]; rfl)
  rw [placed_zero, Nat.zero_add] at hload
  unfold link
  rcases hload with ⟨io₁, he, hm, hh, hb₁, hall, hbytes⟩ |
    ⟨i, io₁, -, hi, he, hm, hh, hb₁, hneed, hfail, hbefore⟩
  · have hoff' : ∀ j, (placed env secs count j).offset < 2 ^ 32 := fun j =>
      (offset_placed env secs count j).symm ▸ hoff j
    have hok : AllLoad env secs f bs count := fun j hj => hall j (Nat.zero_le j) hj
    rw [he]
    dsimp only
    have hbase := based_placed hok fun b hmem => hb₁ ▸ List.mem_append_left bs hmem
    have hshow := shows_placed hok fun j hj => hbytes j (Nat.zero_le j) hj
    have hdata : io₁.file.fil.data = f.fil.data := (hfile.trans hm.file).data
    rcases loadSymbols_cases env count hm.ok hoff' with ⟨io₂, he₂, hm₂, hh₂, hb₂⟩ | ⟨sy, io₂, n, m, he₂, hm₂, hh₂, hb₂, hsy⟩
    · obtain ⟨ok, io₃, he₃, hm₃, hb₃, hst, -⟩ := relocate_cases env none
        hoff' count (i := 0) (by omega) hm₂.ok (hbase.of_blocks fun b hmem => hb₂ ▸ hmem)
        (hshow.of_held hbase hh₂)
      rw [he₂]
      dsimp only
      rw [he₃]
      refine .inr ⟨0, none, [], io₃, hok, (hm.trans hm₂).trans hm₃, rfl, hb₃.trans (hb₂.trans hb₁),
        ?_, fun h => absurd rfl h, ?_⟩
      · exact ((StoresInTargets.of_words hh.words).trans (.of_words hh₂.words)).trans hst
      · cases ok <;> rfl
    · obtain ⟨ok, io₃, he₃, hm₃, hb₃, hst, hlinked⟩ := relocate_cases env
        (some sy) hoff' count (i := 0) (by omega) hm₂.ok
        (hbase.of_blocks fun b hmem => hb₂ ▸ List.mem_cons_of_mem _ (List.mem_cons_of_mem _ hmem))
        (hshow.of_held hbase hh₂)
      rw [he₂]
      dsimp only
      rw [he₃]
      refine .inr ⟨if !ok then 0 else findEntry (placed env secs count) count sy sy.count 0, some sy,
        [⟨sy.strPtr, n⟩, ⟨sy.ptr, m⟩], io₃, hok, (hm.trans hm₂).trans hm₃, ⟨n, m, rfl⟩, ?_,
        ?_, fun hne => ⟨sy, rfl, ?_, ?_⟩, rfl⟩
      · rw [hb₃, hb₂, hb₁]
        rfl
      · exact ((StoresInTargets.of_words hh.words).trans (.of_words hh₂.words)).trans hst
      · rw [← hdata]
        exact hsy
      · have hok : ok = true := by
          by_contra hno
          rw [Bool.eq_false_iff.mpr hno] at hne
          exact hne rfl
        have hdata₂ : io₂.file.fil.data = f.fil.data := hm₂.file.data.trans hdata
        rw [hdata₂] at hlinked
        exact hlinked sy rfl hok
  · rw [he]
    exact .inl ⟨i, hi, io₁, ⟨hneed, hfail, fun j hj => hbefore j (Nat.zero_le j) hj⟩, hm, hh, hb₁, rfl⟩

end Link

/-! ## The entry of `LoadDriver` -/

/-- The header of the file. -/
def header (data : List UInt8) : Header := parseHeader (slice data 0 52)

/-- The number of section headers. -/
def sectionCount (data : List UInt8) : Nat := (header data).shEntryCount

/-- The section headers of the file. -/
def sections (data : List UInt8) : Nat → Section :=
  parseSection (slice data (header data).shOffset (sectionCount data * 40))

/-- The section with the names of the sections. -/
def strtab (data : List UInt8) : Section := sections data (header data).shStrIndex

/-- The blocks of the section headers and of their names. -/
def tableBlock (env : Env) (data : List UInt8) : Block := ⟨env.table.ptr, sectionCount data * 40⟩

def strtabBlock (env : Env) (data : List UInt8) : Block := ⟨env.strtab.ptr, (strtab data).size⟩

/-- The section headers and their names get onto the heap. -/
structure Entered (env : Env) (f : File) : Prop where
  read : Readable f 0 52 env.header
  valid : (header f.fil.data).valid
  tableFits : FitsIn [] env.table.ptr (sectionCount f.fil.data * 40)
  tableRead : Readable f (header f.fil.data).shOffset (sectionCount f.fil.data * 40) env.table.read
  strtabFits : FitsIn [tableBlock env f.fil.data] env.strtab.ptr (strtab f.fil.data).size
  strtabRead : Readable f (strtab f.fil.data).offset (strtab f.fil.data).size env.strtab.read

theorem u32_lt (bytes : List UInt8) (i : Nat) : u32 bytes i < 2 ^ 32 := read32_lt _ i

theorem offset_header (data : List UInt8) : (header data).shOffset < 2 ^ 32 := u32_lt _ _

theorem offset_sections (data : List UInt8) (j : Nat) : (sections data j).offset < 2 ^ 32 :=
  u32_lt _ _

/-- The file and the heap when `LoadDriver` starts. -/
def start (f : File) (mem : Nat → UInt8) : Io := { file := f, heap := .enter mem }

theorem ioOk_start {f : File} (hf : Fs.Inv f) (mem : Nat → UInt8) : IoOk (start f mem) :=
  ⟨hf, .nil, fun _ hb => absurd hb List.not_mem_nil, fun _ hb => absurd hb List.not_mem_nil⟩

section Entry

variable {env : Env} {f : File} {mem : Nat → UInt8}

/-- What `LoadDriver` returns when it stops early. -/
def unloaded (io : Io) : Loaded := { entry := 0, sections := fun i => parseSection [] i, io := io }

theorem loadDriver_read {bytes : List UInt8} {file : File}
    (he : readAt f 1 0 52 env.header = (some (slice f.fil.data 0 52), bytes, file))
    (hv : (header f.fil.data).valid) : loadDriver env f mem =
      match loadBuf { file := file, heap := .enter mem } (sectionCount f.fil.data * 40)
        (header f.fil.data).shOffset env.table with
      | (none, io) => unloaded io
      | (some (tablePtr, table), io) =>
        match loadBuf io (parseSection table (header f.fil.data).shStrIndex).size
          (parseSection table (header f.fil.data).shStrIndex).offset env.strtab with
        | (none, io) => unloaded { io with heap := io.heap.kfree tablePtr }
        | (some (strPtr, _), io) =>
          link env (sectionCount f.fil.data) tablePtr strPtr (parseSection table) io := by
  unfold loadDriver
  rw [he]
  exact if_neg (not_not.mpr hv)

/-- `LoadDriver` is `link`, or it stops with nothing on the heap. -/
theorem loadDriver_cases (env : Env) (mem : Nat → UInt8) (hf : Fs.Inv f) :
    (∃ io, Entered env f ∧ Moved (start f mem) io ∧ io.heap.words = [] ∧
      io.heap.blocks = [strtabBlock env f.fil.data, tableBlock env f.fil.data] ∧
      loadDriver env f mem = link env (sectionCount f.fil.data) env.table.ptr env.strtab.ptr
        (sections f.fil.data) io) ∨
    ∃ io, ¬ Entered env f ∧ Moved (start f mem) io ∧ io.heap.words = [] ∧ io.heap.blocks = [] ∧
      loadDriver env f mem = unloaded io := by
  obtain ⟨bytes, file, hfile, -, hcases⟩ := readAt_cases hf
    (show 1 ≠ 0 by decide) (show 0 < 2 ^ 32 by decide) (show 0 < 52 by decide) (by decide) env.header
  have hstart : Moved (start f mem) { file := file, heap := .enter mem } :=
    ⟨hfile, (ioOk_start hf mem).heap, rfl, fun _ hb => hb, fun _ _ => rfl⟩
  rcases hcases with ⟨hr, rfl, he⟩ | ⟨hr, he⟩
  · by_cases hv : (header f.fil.data).valid
    · rw [loadDriver_read he hv]
      by_cases hl : Loads { file := file, heap := .enter mem } (sectionCount f.fil.data * 40)
          (header f.fil.data).shOffset env.table
      · obtain ⟨io₁, he₁, hm₁, hh₁, hb₁, -⟩ := loadBuf_loads hstart.ok (offset_header _) hl
        have hdata : slice file.fil.data (header f.fil.data).shOffset (sectionCount f.fil.data * 40) =
          slice f.fil.data (header f.fil.data).shOffset (sectionCount f.fil.data * 40) := by
          rw [hfile.data]
        have hfile₁ : SameFile f io₁.file := hfile.trans hm₁.file
        rw [he₁, hdata]
        dsimp only
        by_cases hl₂ : Loads io₁ (strtab f.fil.data).size (strtab f.fil.data).offset env.strtab
        · obtain ⟨io₂, he₂, hm₂, hh₂, hb₂, -⟩ := loadBuf_loads hm₁.ok (offset_sections _ _) hl₂
          have hfits : FitsIn io₁.heap.blocks env.strtab.ptr (strtab f.fil.data).size := hl₂.1
          rw [hb₁] at hfits
          refine .inl ⟨io₂, ⟨hr, hv, hl.1, (Readable.congr hfile).mp hl.2, hfits,
            (Readable.congr hfile₁).mp hl₂.2⟩, (hstart.trans hm₁).trans hm₂,
            hh₂.words.trans hh₁.words, hb₂.trans (by rw [hb₁]; rfl), ?_⟩
          unfold strtab sections at he₂
          rw [he₂]
          rfl
        · obtain ⟨io₂, he₂, hm₂, hh₂, hb₂⟩ := loadBuf_fails hm₁.ok (offset_sections _ _) hl₂
          have hmem := hb₂.trans hb₁
          have hfree := kfree_head hm₂.heap hmem
          refine .inr ⟨_, fun h => hl₂ ⟨?_, (Readable.congr hfile₁).mpr h.strtabRead⟩,
            ((hstart.trans hm₁).trans hm₂).trans (moved_kfree hm₂.ok (hmem ▸ List.mem_cons_self)),
            ?_, ?_, ?_⟩
          · have hfits := h.strtabFits
            have : FitsIn io₁.heap.blocks env.strtab.ptr (strtab f.fil.data).size := by
              rw [hb₁]
              exact hfits
            exact this
          · dsimp only
            rw [hfree]
            exact hh₂.words.trans hh₁.words
          · dsimp only
            rw [hfree]
            rfl
          · unfold strtab sections at he₂
            rw [he₂]
      · obtain ⟨io₁, he₁, hm₁, hh₁, hb₁⟩ := loadBuf_fails hstart.ok (offset_header _) hl
        refine .inr ⟨io₁, fun h => hl ⟨h.tableFits, (Readable.congr hfile).mpr h.tableRead⟩,
          hstart.trans hm₁, hh₁.words, hb₁, ?_⟩
        rw [he₁]
    · refine .inr ⟨_, fun h => hv h.valid, hstart, rfl, rfl, ?_⟩
      unfold loadDriver
      rw [he]
      exact if_pos hv
  · refine .inr ⟨_, fun h => hr h.read, hstart, rfl, rfl, ?_⟩
    unfold loadDriver
    rw [he]
    rfl

/-! ## The frees -/

/-- Only blocks of the call have been freed, each once, and what is left are the images of a driver
that is loaded. -/
def FreedRight (count : Nat) (l : Loaded) : Prop :=
  l.io.heap.wild = [] ∧ (l.entry = 0 → l.io.heap.blocks = []) ∧
    (l.entry ≠ 0 → ∀ b, b ∈ l.io.heap.blocks ↔
      ∃ t < count, (l.sections t).needed ∧ b = (l.sections t).image)

/-- When an image does not load, the file has no address for an `SHF_ALLOC` section from it on. -/
def NoStaleAddr (env : Env) (f : File) : Prop :=
  Entered env f → ∀ i < sectionCount f.fil.data,
    FailsAt env (sections f.fil.data) f [strtabBlock env f.fil.data, tableBlock env f.fil.data] i →
    ∀ k, i ≤ k → k < sectionCount f.fil.data → ¬ (sections f.fil.data k).freed

theorem FailsAt.unique {secs : Nat → Section} {bs : List Block} {i j : Nat}
    (hi : FailsAt env secs f bs i) (hj : FailsAt env secs f bs j) : i = j := by
  rcases Nat.lt_trichotomy i j with h | h | h
  · exact absurd (hj.2.2 i h hi.1) hi.2.1
  · exact h
  · exact absurd (hi.2.2 j h hj.1) hj.2.1

variable {secs : Nat → Section} {bs : List Block} {count : Nat} {io : Io}

theorem freedRight_stopped {i tablePtr strPtr n m : Nat} (hbs : bs = [⟨strPtr, n⟩, ⟨tablePtr, m⟩])
    (hfail : FailsAt env secs f bs i) (hi : i < count) (hok : HeapOk io.heap)
    (hw : io.heap.wild = []) (hb : io.heap.blocks = imageBlocks env secs i ++ bs) :
    FreedRight count (stopped env secs count tablePtr strPtr i io) ↔
      ∀ k, i ≤ k → k < count → ¬ (secs k).freed := by
  have hheap : (stopped env secs count tablePtr strPtr i io).io.heap =
      freeAll (freeImages (placed env secs i) io.heap count 0) bs.reverse := by
    rw [hbs]
    rfl
  have hok' := heapOk_freeImages (placed env secs i) hok count 0
  obtain ⟨-, hnodup, hapart⟩ := List.nodup_append.mp (hb ▸ hok.apart.nodup)
  constructor
  · rintro ⟨hwild, -, -⟩ k hik hk hf
    rw [hheap, hbs] at hwild
    have hstr := wild_kfree.mp hwild
    have htable := wild_kfree.mp hstr.1
    obtain ⟨b, hmem, hgone⟩ := freeImages_stale hfail.2.2 hok hb hik hk hf htable.1
    have hbound := hok.bound b (hb ▸ List.mem_append_right _ hmem)
    -- a block at the address of `b` is `b`
    have hsame : ∀ c ∈ (freeImages (placed env secs i) io.heap count 0).blocks, c.addr ≠ b.addr :=
      fun c hc he => hgone (hok.apart.eq_of_addr ((mem_freeImages hok).mp hc).1
        (hb ▸ List.mem_append_right _ hmem) he ▸ hc)
    rw [hbs] at hmem
    rcases List.mem_cons.mp hmem with rfl | hmem
    · rcases hstr.2 with h0 | ⟨c, hc, he⟩
      · exact hbound.1 h0
      · exact hsame c ((mem_kfree hok').mp hc).1 he
    · obtain rfl := List.mem_singleton.mp hmem
      rcases htable.2 with h0 | ⟨c, hc, he⟩
      · exact hbound.1 h0
      · exact hsame c hc he
  · intro hfile
    obtain ⟨hwild, hmem⟩ := freeImages_placed hfail.2.2 [] hok hw hb (Nat.le_of_lt hi) hfile
    obtain ⟨hwild', hmem'⟩ := freeAll_own hok' (List.nodup_reverse.mpr hnodup) fun b hm => by
      have hm := List.mem_reverse.mp hm
      exact (hmem b).mpr ⟨hb ▸ List.mem_append_right _ hm, fun himg => hapart b himg b hm rfl⟩
    refine ⟨hheap ▸ hwild'.trans hwild, fun _ => ?_, fun h => absurd rfl h⟩
    rw [hheap, List.eq_nil_iff_forall_not_mem]
    intro c hc
    obtain ⟨hc, hout⟩ := (hmem' c).mp hc
    obtain ⟨hc, himg⟩ := (hmem c).mp hc
    rw [hb] at hc
    exact (List.mem_append.mp hc).elim himg fun h => hout (List.mem_reverse.mpr h)

theorem freeSymbols_eq {symbols : Option Symbols} {syBlocks : List Block}
    (hsy : SymbolBlocks symbols syBlocks) (h : Heap) :
    freeSymbols symbols h = freeAll h syBlocks.reverse := by
  cases symbols with
  | none =>
    obtain rfl : syBlocks = [] := hsy
    rfl
  | some sy =>
    obtain ⟨n, m, rfl⟩ := hsy
    rfl

theorem freedRight_finished {tablePtr strPtr n m entry : Nat} {symbols : Option Symbols}
    {syBlocks : List Block} (hbs : bs = [⟨strPtr, n⟩, ⟨tablePtr, m⟩])
    (hl : AllLoad env secs f bs count) (hok : HeapOk io.heap) (hw : io.heap.wild = [])
    (hsy : SymbolBlocks symbols syBlocks)
    (hb : io.heap.blocks = syBlocks ++ (imageBlocks env secs count ++ bs)) :
    FreedRight count (finished env secs count tablePtr strPtr entry symbols io) := by
  have hheap : (finished env secs count tablePtr strPtr entry symbols io).io.heap =
      freeAll (kept env secs count entry io.heap) (syBlocks ++ bs).reverse := by
    rw [List.reverse_append, freeAll, List.foldl_append, hbs]
    exact freeSymbols_eq hsy _
  have hkept : HeapOk (kept env secs count entry io.heap) ∧
      (kept env secs count entry io.heap).wild = [] ∧
      ∀ b, b ∈ (kept env secs count entry io.heap).blocks ↔
        b ∈ io.heap.blocks ∧ (entry = 0 → b ∉ imageBlocks env secs count) := by
    unfold kept
    by_cases he : entry = 0
    · obtain ⟨hwild, hmem⟩ := freeImages_placed hl syBlocks hok hw hb (Nat.le_refl count)
        fun k h1 h2 => absurd h2 (by omega)
      rw [if_pos he]
      exact ⟨heapOk_freeImages _ hok count 0, hwild, fun b => by simp [hmem b, he]⟩
    · rw [if_neg he]
      exact ⟨hok, hw, fun b => by simp [he]⟩
  obtain ⟨hok', hwild, hmem⟩ := hkept
  have hnodup : (syBlocks ++ (imageBlocks env secs count ++ bs)).Nodup := hb ▸ hok.apart.nodup
  obtain ⟨hnsy, hnrest, hsyApart⟩ := List.nodup_append.mp hnodup
  obtain ⟨-, hnbs, himgApart⟩ := List.nodup_append.mp hnrest
  have hnd : (syBlocks ++ bs).Nodup := List.nodup_append.mpr
    ⟨hnsy, hnbs, fun a ha b hb' => hsyApart a ha b (List.mem_append_right _ hb')⟩
  -- the blocks that are freed at the end are not images
  have hother : ∀ b ∈ syBlocks ++ bs, b ∈ io.heap.blocks ∧ b ∉ imageBlocks env secs count := by
    intro b hm
    rw [hb]
    rcases List.mem_append.mp hm with hm | hm
    · exact ⟨List.mem_append_left _ hm,
        fun himg => hsyApart b hm b (List.mem_append_left _ himg) rfl⟩
    · exact ⟨List.mem_append_right _ (List.mem_append_right _ hm), fun himg => himgApart b himg b hm rfl⟩
  obtain ⟨hwild', hmem'⟩ := freeAll_own hok' (List.nodup_reverse.mpr hnd) fun b hm => by
    obtain ⟨h1, h2⟩ := hother b (List.mem_reverse.mp hm)
    exact (hmem b).mpr ⟨h1, fun _ => h2⟩
  -- the images are left, or freed
  have hleft : ∀ b, b ∈ (freeAll (kept env secs count entry io.heap) (syBlocks ++ bs).reverse).blocks ↔
      b ∈ imageBlocks env secs count ∧ entry ≠ 0 := by
    intro b
    rw [hmem', hmem, hb, List.mem_reverse]
    constructor
    · rintro ⟨⟨hin, himg⟩, hout⟩
      rw [List.mem_append, not_or] at hout
      have hin := ((List.mem_append.mp hin).resolve_left hout.1)
      have hin := (List.mem_append.mp hin).resolve_right hout.2
      exact ⟨hin, fun he => himg he hin⟩
    · rintro ⟨himg, hne⟩
      exact ⟨⟨List.mem_append_right _ (List.mem_append_left _ himg), fun he => absurd he hne⟩,
        fun hm => (hother b hm).2 himg⟩
  refine ⟨hheap ▸ hwild'.trans hwild, fun he => ?_, fun hne b => ?_⟩
  · rw [hheap, List.eq_nil_iff_forall_not_mem]
    exact fun c hc => ((hleft c).mp hc).2 he
  · rw [hheap, hleft, mem_imageBlocks]
    refine (and_iff_left hne).trans (exists_congr fun t => and_congr_right fun ht => ?_)
    refine and_congr_left' (needed_placed t).symm |>.trans (and_congr_right fun hn => ?_)
    rw [show (finished env secs count tablePtr strPtr entry symbols io).sections t =
      placed env secs count t from rfl, image_placed ht ((needed_placed t).mp hn)]

/-- The frees of a call are right exactly when the table of the file has no stale address. -/
theorem freed_iff (hf : Fs.Inv f) :
    FreedRight (sectionCount f.fil.data) (loadDriver env f mem) ↔ NoStaleAddr env f := by
  rcases loadDriver_cases env mem hf with
    ⟨io, hent, hm, hwords, hb, he⟩ | ⟨io, hent, hm, hwords, hb, he⟩
  · rw [he]
    rcases link_cases env (sectionCount f.fil.data) env.table.ptr env.strtab.ptr hm.ok hm.file
        (offset_sections f.fil.data) hb with
      ⟨i, hi, io', hfail, hm', hh', hb', he'⟩ | ⟨entry, symbols, syBlocks, io', hl, hm', hsy, hb', -, -, he'⟩
    · rw [he', freedRight_stopped rfl hfail hi hm'.heap (hm'.wild.trans hm.wild) hb']
      refine ⟨fun h _ j _ hfj => hfail.unique hfj ▸ h, fun h => h hent i hi hfail⟩
    · rw [he']
      refine iff_of_true ?_ fun _ i hi hfail => absurd (hl i hi hfail.1) hfail.2.1
      exact freedRight_finished rfl hl hm'.heap (hm'.wild.trans hm.wild) hsy hb'
  · rw [he]
    exact iff_of_true ⟨hm.wild, fun _ => hb, fun h => absurd rfl h⟩ fun h => absurd h hent

/-! ## The images of a driver -/

/-- What the claims of a driver that is loaded say: the table is that of the file but for the
addresses, and the images hold the bytes of the file with every relocation applied. -/
def Linked (env : Env) (data : List UInt8) (l : Loaded) : Prop :=
  (∀ t, l.sections t = { sections data t with addr := (l.sections t).addr }) ∧
  ∃ sy, SymbolsOf data l.sections (sectionCount data) sy ∧
    ∀ t < sectionCount data, (l.sections t).needed →
      (linkedImage env data l.sections (sectionCount data) sy t).length = (l.sections t).size ∧
      ∀ x < (l.sections t).size, l.io.heap.mem ((l.sections t).addr + x) =
        (linkedImage env data l.sections (sectionCount data) sy t).getD x 0

/-- Every word that was patched lies in the image of the target of a table of relocations. -/
def PatchesInTargets (count : Nat) (l : Loaded) : Prop :=
  ∀ p ∈ l.io.heap.words, ∃ i < count, (l.sections i).type = 9 ∧ (l.sections i).info < count ∧
    (l.sections (l.sections i).info).needed ∧ (l.sections (l.sections i).info).addr ≤ p ∧
    p + 4 ≤ (l.sections (l.sections i).info).addr + (l.sections (l.sections i).info).size

theorem placed_eq (secs : Nat → Section) (i t : Nat) :
    placed env secs i t = { secs t with addr := (placed env secs i t).addr } := by
  unfold placed
  split <;> rfl

/-- The frees at the end store nothing. -/
theorem mem_of_kept (env : Env) (secs : Nat → Section) (count entry tablePtr strPtr : Nat) (symbols : Option Symbols) (h : Heap) :
    let h' := freeSymbols symbols (((kept env secs count entry h).kfree tablePtr).kfree strPtr)
    h'.mem = h.mem ∧ h'.given = h.given ∧ h'.words = h.words := by
  have hkept : (kept env secs count entry h).mem = h.mem ∧
      (kept env secs count entry h).given = h.given ∧
      (kept env secs count entry h).words = h.words := by
    unfold kept
    split
    · exact mem_of_freeImages _ h count 0
    · exact ⟨rfl, rfl, rfl⟩
  have hall : freeSymbols symbols (((kept env secs count entry h).kfree tablePtr).kfree strPtr) =
      freeAll (kept env secs count entry h) ([⟨tablePtr, 0⟩, ⟨strPtr, 0⟩] ++
        (symbols.map fun sy => [⟨sy.ptr, 0⟩, ⟨sy.strPtr, 0⟩]).getD []) := by
    cases symbols <;> rfl
  obtain ⟨h1, h2, h3⟩ := mem_of_freeAll ([⟨tablePtr, 0⟩, ⟨strPtr, 0⟩] ++
    (symbols.map fun sy => [⟨sy.ptr, 0⟩, ⟨sy.strPtr, 0⟩]).getD []) (kept env secs count entry h)
  dsimp only
  rw [hall]
  exact ⟨h1.trans hkept.1, h2.trans hkept.2.1, h3.trans hkept.2.2⟩

theorem mem_of_stopped (env : Env) (secs : Nat → Section) (count tablePtr strPtr i : Nat) (h : Heap) :
    let h' := ((freeImages (placed env secs i) h count 0).kfree tablePtr).kfree strPtr
    h'.mem = h.mem ∧ h'.given = h.given ∧ h'.words = h.words := by
  obtain ⟨h1, h2, h3⟩ := mem_of_freeAll [⟨tablePtr, 0⟩, ⟨strPtr, 0⟩]
    (freeImages (placed env secs i) h count 0)
  obtain ⟨h4, h5, h6⟩ := mem_of_freeImages (placed env secs i) h count 0
  exact ⟨h1.trans h4, h2.trans h5, h3.trans h6⟩

end Entry

/-! ## Two files -/

def wordBytes (v : Nat) : List UInt8 := (List.range 4).map (bytes32 v)

/-- A header with `count` sections right after it. -/
def headerBytes (count strIndex : UInt8) : List UInt8 :=
  wordBytes 0x464C457F ++ List.replicate 12 0 ++ [1, 0] ++ List.replicate 14 0 ++ wordBytes 52 ++
    List.replicate 10 0 ++ [40, 0, count, 0, strIndex, 0]

def sectionBytes (type flags addr offset size link info entSize : Nat) : List UInt8 :=
  [0, type, flags, addr, offset, size, link, info, 0, entSize].flatMap wordBytes

/-- One section, at `0xC0000000` by its own account. -/
def staleFile : File :=
  openFile 1 oRdonly (headerBytes 1 0 ++ sectionBytes 3 2 0xC0000000 0 1 0 0 0)

/-- Code of two words, with a relocation of each kind. -/
def driverFile : File :=
  openFile 1 oRdonly (headerBytes 4 0 ++ sectionBytes 3 0 0 252 23 0 0 0 ++
    sectionBytes 1 2 0 212 8 0 0 0 ++ sectionBytes 2 0 0 220 32 0 0 16 ++
    sectionBytes 9 0 0 275 16 0 1 8 ++ [5, 0, 0, 0, 0, 0, 0, 0] ++
    [0, 0, 0, 0x10000, 21, 0, 0, 0].flatMap wordBytes ++ (entryName ++ [0, 97, 0]) ++
    [0, 0x101, 4, 2].flatMap wordBytes)

/-- The reads succeed, `kmalloc` gives `image` to every image. -/
def answers (image : Nat) : Env :=
  let read : ReadAnswer := ⟨⟨true, []⟩, true⟩
  { header := read, table := ⟨0x1000, read⟩, strtab := ⟨0x2000, read⟩
    image := fun _ => ⟨image, read⟩, symtab := ⟨0x4000, read⟩, symstr := ⟨0x5000, read⟩
    rels := fun _ => ⟨0x6000, read⟩, lookup := fun _ => 0xC0100000 }

theorem inv_staleFile : Fs.Inv staleFile := inv_openFile (by decide) (by decide +kernel)

theorem inv_driverFile : Fs.Inv driverFile := inv_openFile (by decide) (by decide +kernel)

theorem freed_iff_stale_file :
    FreedRight (sectionCount staleFile.fil.data) (loadDriver (answers 0) staleFile fun _ => 0) ↔
      NoStaleAddr (answers 0) staleFile := freed_iff inv_staleFile

/-- There is no memory for the image, and the clean-up frees `0xC0000000`. -/
theorem stale_addr_freed :
    ¬ FreedRight (sectionCount staleFile.fil.data) (loadDriver (answers 0) staleFile fun _ => 0) :=
  fun h => absurd h.1 (by decide +kernel)

end Module
end Hashx86
