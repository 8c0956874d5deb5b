import Hashx86.Elf.Pages
import Hashx86.Module.Spec

/-!
# Loading the segments

`Straight` is a segment that ends before the last page of the address space. The loader computes with
32-bit addresses: for any other segment it maps no page, and stores the bytes wherever the directory
leads, also in the memory of the kernel.

* `loadSegment_spec`: a straight segment changes its own pages only, and when it is loaded they hold
  the bytes of the file, and zeros up to the size in memory.
* `loadSegments_spec`: the same for all segments. Two segments on one page are the exception: the
  second one gets a new frame there, and the frame of the first has no page any more.
-/

namespace Hashx86
namespace Elf

open Lib Paging Sched Fs
open Module (ReadAnswer SameFile)

variable {base : Nat → Prop} {tramp d : Nat} {m m₁ m' : Machine} {own own₁ own' : Owners}
variable {file : File} {ph : ProgramHeader}

/-- The process reads these bytes at the `n` addresses from `va` on. -/
def Holds (m : Machine) (d va n : Nat) (bytes : Nat → UInt8) : Prop :=
  ∀ x < n, userByte m d (va + x) = some (bytes x)

/-! ## The loops -/

theorem chunkSize_spec (va : Nat) {left : Nat} (h : left ≠ 0) :
    0 < chunkSize left va ∧ chunkSize left va ≤ left ∧ va % 4096 + chunkSize left va ≤ 4096 := by
  unfold chunkSize pageSize
  omega

/-- The addresses of user memory do not wrap. -/
theorem Ready.lt {va n : Nat} (h : Ready m d va n) (hn : n ≠ 0) : va + n < 2 ^ 32 := by
  have := (h (n - 1) (by omega)).1.2
  unfold userStackVirtTop at this
  omega

theorem read_length_le (f : File) (buffer length : Nat) (seek : SeekAnswer) (ok : Bool) :
    (f.read buffer length seek ok).2.1.length ≤ length := by
  have hread : ∀ fil n, (fRead fil n ok).2.1.length ≤ n := fun fil n => by
    unfold fRead
    split
    · exact Nat.zero_le _
    split
    · exact Nat.zero_le _
    · exact List.length_take_le _ _
  have hstream : ∀ n, (readStream f n seek ok).1.length ≤ n := fun n => by
    unfold readStream
    generalize fLseek f.fil f.position seek = r
    have hlen := hread r.2 n
    dsimp only
    generalize fRead r.2 n ok = q at hlen ⊢
    split
    · exact Nat.zero_le _
    split
    · exact Nat.zero_le _
    split
    · exact Nat.zero_le _
    · exact hlen
  unfold File.read
  dsimp only
  split
  · exact Nat.zero_le _
  split
  · exact Nat.zero_le _
  split
  · exact Nat.zero_le _
  · refine (hstream _).trans ?_
    split
    · have := Nat.mod_le (f.position + length) (2 ^ 32)
      omega
    · exact Nat.le_refl _

/-- A read that gets all it asked for. -/
theorem read_all {buffer n : Nat} {seek : SeekAnswer} {ok : Bool} (h : Fs.Inv file) (h0 : n ≠ 0)
    (hlt : n < 2 ^ 32) (hr : (file.read buffer n seek ok).1 = toInt32 n) :
    (file.read buffer n seek ok).2.1 = (file.fil.data.drop file.position).take n ∧
    (file.read buffer n seek ok).2.1.length = n ∧
    SameFile file (file.read buffer n seek ok).2.2 ∧
    (file.read buffer n seek ok).2.2.position = file.position + n := by
  have hinv := Fs.inv_read h buffer n seek ok
  obtain ⟨p, he⟩ := Fs.read_eq h buffer n seek ok
  have hle := Fs.expected_length_le file buffer n seek ok
  have hsync : file.size = file.fil.data.length := h.synced
  have hsize := h.size_lt
  rw [he] at hr hinv ⊢
  have hlen := Fs.toInt32_inj (by omega) hlt hr
  have hbytes : file.expected buffer n seek ok = (file.fil.data.drop file.position).take n := by
    unfold File.expected at hlen ⊢
    split at hlen
    · rename_i hc
      exact if_pos hc
    · exact absurd hlen.symm h0
  exact ⟨hbytes, hlen, ⟨hinv, rfl, rfl⟩, by rw [hlen]⟩

theorem copySegment_spec (answers : Nat → ReadAnswer) (n : Nat) : ∀ (c : Nat) (file : File) {left va : Nat} {m : Machine},
    Lives base tramp d m own → Ready m d va left → left ≤ n →
    Written base tramp d va (va + left) m (copySegment answers d n c left va m file).2.1 own ∧
    (Fs.Inv file → (copySegment answers d n c left va m file).1 = true →
      SameFile file (copySegment answers d n c left va m file).2.2 ∧
      Holds (copySegment answers d n c left va m file).2.1 d va left
        fun x => file.fil.data.getD (file.position + x) 0) := by
  induction n with
  | zero =>
    intro c file left va m h _ hle
    obtain rfl : left = 0 := by omega
    exact ⟨.refl h .., fun hf _ => ⟨.refl hf, fun x hx => absurd hx (by omega)⟩⟩
  | succ n ih =>
    intro c file left va m h hr hle
    unfold copySegment
    by_cases h0 : left = 0
    · rw [if_pos h0, h0]
      exact ⟨.refl h .., fun hf _ => ⟨.refl hf, fun x hx => absurd hx (by omega)⟩⟩
    rw [if_neg h0]
    dsimp only
    split
    · exact ⟨.refl h .., fun _ hf => absurd hf Bool.false_ne_true⟩
    obtain ⟨hpos, hchunk, hin⟩ := chunkSize_spec va h0
    obtain ⟨hva, hp⟩ := hr 0 (by omega)
    rw [Nat.add_zero] at hva hp
    have hlt := hr.lt h0
    have hlen := read_length_le file (getPhysicalAddress m d va) (chunkSize left va) (answers c).seek
      (answers c).ok
    have hall := @read_all file (getPhysicalAddress m d va) (chunkSize left va) (answers c).seek
      (answers c).ok
    generalize file.read (getPhysicalAddress m d va) (chunkSize left va) (answers c).seek
      (answers c).ok = r at hlen hall ⊢
    obtain ⟨result, bytes, file₁⟩ := r
    dsimp only at hlen hall ⊢
    obtain ⟨hw, hbytes⟩ := store_written h hva hp (show va % 4096 + bytes.length ≤ 4096 by omega)
      fun i => bytes.getD i 0
    generalize m.store (getPhysicalAddress m d va) bytes.length (fun i => bytes.getD i 0) = m₁ at hw hbytes ⊢
    have h₁ := hw.stays.lives h
    split
    · exact ⟨hw.trans (.refl h₁ _ (va + left)) (by omega) (by omega), fun _ hf =>
        absurd hf Bool.false_ne_true⟩
    rename_i hres
    rw [Nat.mod_eq_of_lt (by omega)]
    have hr₁ : Ready m₁ d (va + chunkSize left va) (left - chunkSize left va) :=
      (hr.drop (chunkSize left va)).written hw
    obtain ⟨hw', hcopy⟩ := ih (c + 1) file₁ h₁ hr₁ (by omega)
    rw [show va + chunkSize left va + (left - chunkSize left va) = va + left by omega] at hw'
    refine ⟨(hw.trans (.refl h₁ _ (va + chunkSize left va)) (by omega) (by omega)).trans hw' (by omega)
      (by omega), fun hf hok => ?_⟩
    obtain ⟨hslice, hlen', hsame, hposition⟩ := hall hf (by omega) (by omega) (not_not.mp hres)
    obtain ⟨hsame', hholds⟩ := hcopy hsame.inv hok
    refine ⟨hsame.trans hsame', fun x hx => ?_⟩
    by_cases hxc : x < chunkSize left va
    · rw [hw'.others _ (hr x hx).1 (by omega), hbytes x (by omega) (hr x hx).1, hslice]
      simp only [List.getD_eq_getElem?_getD, List.getElem?_take, hxc, if_true, List.getElem?_drop]
    · have hx' := hholds (x - chunkSize left va) (by omega)
      rw [show va + chunkSize left va + (x - chunkSize left va) = va + x by omega] at hx'
      rw [hx', hposition, hsame.data]
      exact congrArg (fun i => some (file.fil.data.getD i 0)) (by omega)

theorem zeroSegment_spec (n : Nat) : ∀ {left va : Nat} {m : Machine},
    Lives base tramp d m own → Ready m d va left → left ≤ n →
    Written base tramp d va (va + left) m (zeroSegment d n left va m).2 own ∧
    ((zeroSegment d n left va m).1 = true →
      Holds (zeroSegment d n left va m).2 d va left fun _ => 0) := by
  induction n with
  | zero =>
    intro left va m h _ hle
    obtain rfl : left = 0 := by omega
    exact ⟨.refl h .., fun _ x hx => absurd hx (by omega)⟩
  | succ n ih =>
    intro left va m h hr hle
    unfold zeroSegment
    by_cases h0 : left = 0
    · rw [if_pos h0, h0]
      exact ⟨.refl h .., fun _ x hx => absurd hx (by omega)⟩
    rw [if_neg h0]
    dsimp only
    split
    · exact ⟨.refl h .., fun hf => absurd hf Bool.false_ne_true⟩
    obtain ⟨hpos, hchunk, hin⟩ := chunkSize_spec va h0
    obtain ⟨hva, hp⟩ := hr 0 (by omega)
    rw [Nat.add_zero] at hva hp
    have hlt := hr.lt h0
    obtain ⟨hw, hbytes⟩ := store_written h hva hp hin fun _ => 0
    rw [show m.zero (getPhysicalAddress m d va) (chunkSize left va) =
      m.store (getPhysicalAddress m d va) (chunkSize left va) fun _ => 0 from rfl]
    generalize m.store (getPhysicalAddress m d va) (chunkSize left va) (fun _ => 0) = m₁ at hw hbytes ⊢
    rw [Nat.mod_eq_of_lt (by omega)]
    obtain ⟨hw', hzero⟩ := ih (hw.stays.lives h) ((hr.drop (chunkSize left va)).written hw) (by omega)
    rw [show va + chunkSize left va + (left - chunkSize left va) = va + left by omega] at hw'
    refine ⟨hw.trans hw' (by omega) (by omega), fun hok x hx => ?_⟩
    by_cases hxc : x < chunkSize left va
    · rw [hw'.others _ (hr x hx).1 (by omega), hbytes x hxc (hr x hx).1]
    · have hx' := hzero hok (x - chunkSize left va) (by omega)
      rwa [show va + chunkSize left va + (x - chunkSize left va) = va + x by omega] at hx'

/-! ## One segment -/

/-- The segment ends before the last page of the address space. -/
def ProgramHeader.Straight (ph : ProgramHeader) : Prop := ph.virtAddr + ph.memSize ≤ 0xFFFFF000

/-- The address is in a page of the segment. -/
def ProgramHeader.InPages (ph : ProgramHeader) (va : Nat) : Prop :=
  ph.pageStart ≤ va ∧ va < ph.pageStart + ph.pages * pageSize

/-- Byte `x` of the segment in memory. -/
def ProgramHeader.image (ph : ProgramHeader) (data : List UInt8) (x : Nat) : UInt8 :=
  if x < ph.fileSize then data.getD (ph.offset + x) 0 else 0

/-- The segment is in memory. -/
def ProgramHeader.InMemory (ph : ProgramHeader) (m : Machine) (d : Nat) (data : List UInt8) : Prop :=
  Holds m d ph.virtAddr ph.memSize (ph.image data) ∧
    ∀ va, ph.InPages va → UserAddr va ∧ accessFlags m d va = some userFlags

/-- The pages of the segment are those that its bytes need. -/
theorem ProgramHeader.Straight.pages (hs : ph.Straight) :
    ph.pageStart + ph.pages * pageSize ≤ 2 ^ 32 ∧ ph.pageStart % 4096 = 0 ∧
      ∀ x < ph.memSize, ph.InPages (ph.virtAddr + x) := by
  have hstop : ph.stop = ph.virtAddr + ph.memSize := by
    unfold ProgramHeader.Straight at hs
    exact Nat.mod_eq_of_lt (by omega)
  unfold ProgramHeader.Straight at hs
  unfold ProgramHeader.InPages ProgramHeader.pages ProgramHeader.pageStart
  rw [hstop]
  unfold frameAddr Syscalls.pageUp pageSize
  exact ⟨by omega, by omega, fun x hx => by omega⟩

theorem pagesFrom_iff {addr n va : Nat} (ha : addr % 4096 = 0) :
    PagesFrom addr n (pdIdx va) (ptIdx va) ↔ addr ≤ va ∧ va < addr + n * pageSize := by
  unfold PagesFrom
  simp only [idx_eq_iff]
  unfold pageSize
  constructor
  · rintro ⟨q, hq, he⟩
    omega
  · exact fun h => ⟨va / 4096 - addr / 4096, by omega, by omega⟩

theorem userAddr_of_idx {va : Nat} (hlt : va < 2 ^ 32) (h : kernelIdx (pdIdx va) = false) :
    UserAddr va := by
  unfold kernelIdx pdIdx at h
  simp at h
  unfold UserAddr userStackVirtBottom userStackVirtTop
  omega

/-- A page that is mapped now is one that the program reads and writes. -/
theorem Backed.mapped {addr n va : Nat} (h : Owned base tramp m own) (hb : Backed m own d addr n)
    (ha : addr % 4096 = 0) (hva : addr ≤ va ∧ va < addr + n * pageSize) (hlt : va < 2 ^ 32) :
    UserAddr va ∧ present (pteAt m d va) ∧ accessFlags m d va = some userFlags := by
  obtain ⟨q, hq, hidx⟩ := (pagesFrom_iff ha).mpr hva
  obtain ⟨hk, a, ho, hf⟩ := hb q hq
  unfold pteAt at hf
  rw [hidx.1] at hk
  rw [hidx.1, hidx.2] at ho hf
  have hp := (h.pte_of_page ho).1
  refine ⟨userAddr_of_idx hlt hk, hp, ?_⟩
  unfold accessFlags pteAt
  rw [if_pos hp, hf]

/-- The pages that a call does not change read the same. -/
theorem read_of_changes {R : Nat → Nat → Prop} (hc : Changes base d R m m' own own')
    (h : Lives base tramp d m own) {va : Nat} (hva : UserAddr va) (hno : ¬ R (pdIdx va) (ptIdx va)) :
    pteAt m' d va = pteAt m d va ∧ userByte m' d va = userByte m d va := by
  obtain ⟨hi, hj⟩ := hva.idx
  have hpte : pteAt m' d va = pteAt m d va := hc.pte h.dir hi.1 hj fun _ => hno
  refine ⟨hpte, ?_⟩
  unfold userByte
  rw [hpte]
  split
  · rename_i hp
    have hframe := frameAddr_add (frameAddr_mod (pteAt m d va))
      (show va % 4096 < 4096 from Nat.mod_lt _ (by decide))
    refine congrArg some ?_
    rcases h.userFrame hi hj hp with ht | ⟨i, j, ho⟩
    · exact hc.kernel (hframe.symm ▸ ht ▸ h.owned.tramp)
    · have hpage : own (frameAddr (pteAt m d va)) = some (.page d (pdIdx va) (ptIdx va)) := by
        rcases h.owned.page_cases h.dir hi hj hp with ho' | ht | h0
        · exact ho'
        · exact absurd h.owned.tramp (ht ▸ (h.owned.frames.owned ho).2.2)
        · exact absurd h.owned.frames.zero (h0 ▸ (h.owned.frames.owned ho).2.2)
      exact hc.mem (u := .page d (pdIdx va) (ptIdx va)) (hframe.symm ▸ hpage) fun _ => hno
  · rfl

theorem loadSegment_spec (answers : Nat → ReadAnswer) (file : File) (h : Lives base tramp d m own)
    (hs : ph.Straight) : ∃ own',
    Stays base tramp d ((loadSegment answers d ph m file).1 = true ∧
        ∀ va, UserAddr va → ph.InPages va → present (pteAt m d va) = false)
      m (loadSegment answers d ph m file).2.1 own own' ∧
    (∀ va, UserAddr va → ¬ ph.InPages va →
      pteAt (loadSegment answers d ph m file).2.1 d va = pteAt m d va ∧
      userByte (loadSegment answers d ph m file).2.1 d va = userByte m d va) ∧
    (Fs.Inv file → (loadSegment answers d ph m file).1 = true →
      SameFile file (loadSegment answers d ph m file).2.2 ∧
      ph.InMemory (loadSegment answers d ph m file).2.1 d file.fil.data) := by
  obtain ⟨hend, hmod, hin⟩ := hs.pages
  unfold loadSegment
  by_cases h1 : ph.memSize < ph.fileSize
  · rw [if_pos h1]
    exact ⟨own, .refl h, fun _ _ _ => ⟨rfl, rfl⟩, fun _ hf => absurd hf Bool.false_ne_true⟩
  rw [if_neg h1]
  by_cases h2 : file.size < ph.offset + ph.fileSize
  · rw [if_pos h2]
    exact ⟨own, .refl h, fun _ _ _ => ⟨rfl, rfl⟩, fun _ hf => absurd hf Bool.false_ne_true⟩
  rw [if_neg h2]
  obtain ⟨own₁, ho₁, hc₁, hok₁⟩ := mapSegment_spec ph.pages ph.pageStart h.owned h.dir hend
  generalize mapSegment d ph.pages ph.pageStart m = r at ho₁ hc₁ hok₁ ⊢
  obtain ⟨ok₁, m₁⟩ := r
  dsimp only at ho₁ hc₁ hok₁ ⊢
  have hothers₁ : ∀ va, UserAddr va → ¬ ph.InPages va →
      pteAt m₁ d va = pteAt m d va ∧ userByte m₁ d va = userByte m d va := fun va hva hno =>
    read_of_changes hc₁ h hva fun hr => hno ((pagesFrom_iff hmod).mp hr)
  have hs₁ : Stays base tramp d (ok₁ = true ∧ ∀ va, UserAddr va → ph.InPages va → present (pteAt m d va) = false)
      m m₁ own own₁ := .of_changes hc₁ h.owned ho₁ h.dir fun ⟨hok, hun⟩ b hb => by
    rcases (hok₁ hok).2 b hb with hb | ⟨i, j, ⟨q, hq, rfl, rfl⟩, hb⟩
    · exact hb
    · have hp := (h.owned.pte_of_page hb).1
      have hin' := (pagesFrom_iff hmod).mp ⟨q, hq, rfl, rfl⟩
      have hno := hun (ph.pageStart + q * pageSize) (userAddr_of_idx (by omega)
        (h.owned.pages.page.mp hb).2.1.2) hin'
      exact absurd (hno.symm.trans hp) Bool.false_ne_true
  have h₁ := hs₁.lives h
  cases ok₁ with
  | false =>
    exact ⟨own₁, hs₁.mono fun hf => absurd hf.1 Bool.false_ne_true, hothers₁,
      fun _ hf => absurd hf Bool.false_ne_true⟩
  | true =>
    rw [if_neg (by simp)]
    have hmapped : ∀ va, ph.InPages va → UserAddr va ∧ present (pteAt m₁ d va) ∧
        accessFlags m₁ d va = some userFlags := fun va hva =>
      (hok₁ rfl).1.mapped ho₁ hmod hva (by have := hva.2; omega)
    have hready : Ready m₁ d ph.virtAddr ph.memSize := fun x hx =>
      ⟨(hmapped _ (hin x hx)).1, (hmapped _ (hin x hx)).2.1⟩
    obtain ⟨hw, hcopy⟩ := copySegment_spec answers ph.fileSize 0 (file.seek ph.offset) h₁
      (fun x hx => hready x (by omega)) (Nat.le_refl ph.fileSize)
    generalize copySegment answers d ph.fileSize 0 ph.fileSize ph.virtAddr m₁ (file.seek ph.offset) = r
      at hw hcopy ⊢
    obtain ⟨ok₂, m₂, file₂⟩ := r
    dsimp only at hw hcopy ⊢
    have hs₂ : Stays base tramp d (∀ va, UserAddr va → ph.InPages va → present (pteAt m d va) = false)
        m m₂ own own₁ := (hs₁.mono fun hc => ⟨rfl, hc⟩).trans (hw.stays.mono fun _ => trivial)
    have hpte₂ : ∀ va, UserAddr va → ¬ ph.InPages va → pteAt m₂ d va = pteAt m d va ∧
        userByte m₂ d va = userByte m d va := fun va hva hno => by
      obtain ⟨hp, hb⟩ := hothers₁ va hva hno
      refine ⟨(hw.pte va hva).trans hp, (hw.others va hva fun hr => hno ?_).trans hb⟩
      have := hin (va - ph.virtAddr) (by omega)
      rwa [show ph.virtAddr + (va - ph.virtAddr) = va by omega] at this
    cases ok₂ with
    | false =>
      exact ⟨own₁, hs₂.mono fun hf => absurd hf.1 Bool.false_ne_true, hpte₂,
        fun _ hf => absurd hf Bool.false_ne_true⟩
    | true =>
      rw [if_neg (by simp)]
      have h₂ := hw.stays.lives h₁
      have hbss : (ph.virtAddr + ph.fileSize) % 2 ^ 32 = ph.virtAddr + ph.fileSize := by
        unfold ProgramHeader.Straight at hs
        exact Nat.mod_eq_of_lt (by omega)
      rw [hbss]
      obtain ⟨hw', hzero⟩ := zeroSegment_spec (ph.memSize - ph.fileSize) h₂
        ((hready.drop ph.fileSize).written hw) (Nat.le_refl _)
      rw [show ph.virtAddr + ph.fileSize + (ph.memSize - ph.fileSize) = ph.virtAddr + ph.memSize by
        omega] at hw'
      generalize zeroSegment d (ph.memSize - ph.fileSize) (ph.memSize - ph.fileSize)
        (ph.virtAddr + ph.fileSize) m₂ = r at hw' hzero ⊢
      obtain ⟨ok₃, m₃⟩ := r
      dsimp only at hw' hzero ⊢
      refine ⟨own₁, (hs₂.trans (hw'.stays.mono fun _ => trivial)).mono And.right, fun va hva hno => ?_,
        fun hf hok => ?_⟩
      · obtain ⟨hp, hb⟩ := hpte₂ va hva hno
        refine ⟨(hw'.pte va hva).trans hp, (hw'.others va hva fun hr => hno ?_).trans hb⟩
        have := hin (va - ph.virtAddr) (by omega)
        rwa [show ph.virtAddr + (va - ph.virtAddr) = va by omega] at this
      · have hoff : ph.offset < 2 ^ 32 := by
          have := hf.size_lt
          omega
        obtain ⟨hsame, hholds⟩ := hcopy (Fs.inv_seek hf hoff) rfl
        have hseek : (file.seek ph.offset).position = ph.offset := if_neg fun hc => by omega
        refine ⟨⟨hsame.inv, hsame.data, hsame.readable⟩, fun x hx => ?_, fun va hva => ?_⟩
        · have hready' := (hready x hx).1
          unfold ProgramHeader.image
          split
          · rename_i hxf
            rw [hw'.others _ hready' (by omega), hholds x hxf, hseek]
            rfl
          · have := hzero hok (x - ph.fileSize) (by omega)
            rwa [show ph.virtAddr + ph.fileSize + (x - ph.fileSize) = ph.virtAddr + x by omega] at this
        · obtain ⟨hua, -, hflags⟩ := hmapped va hva
          refine ⟨hua, ?_⟩
          unfold accessFlags at hflags ⊢
          rwa [hw'.pte va hua, hw.pte va hua]

/-! ## All segments -/

/-- Segment `ph` is program header `j` of the table, between `lo` and `hi`. -/
def IsSegment (phTable : List UInt8) (lo hi j : Nat) (ph : ProgramHeader) : Prop :=
  (lo ≤ j ∧ j < hi) ∧ parseProgramHeader phTable j = ph ∧ ph.type = 1

/-- No two segments have a page in common. -/
def PagesApart (phTable : List UInt8) (lo hi : Nat) : Prop :=
  ∀ j k ph ph' va, IsSegment phTable lo hi j ph → IsSegment phTable lo hi k ph' → j ≠ k →
    ph.InPages va → ¬ ph'.InPages va

/-- No page of a segment is mapped. -/
def NoneMapped (phTable : List UInt8) (lo hi : Nat) (m : Machine) (d : Nat) : Prop :=
  ∀ j ph va, IsSegment phTable lo hi j ph → UserAddr va → ph.InPages va →
    present (pteAt m d va) = false

theorem ProgramHeader.InMemory.kept {data : List UInt8} (h : ph.InMemory m d data) (hs : ph.Straight)
    (hsame : ∀ va, UserAddr va → ph.InPages va →
      pteAt m' d va = pteAt m d va ∧ userByte m' d va = userByte m d va) : ph.InMemory m' d data := by
  obtain ⟨hholds, hpages⟩ := h
  refine ⟨fun x hx => ?_, fun va hva => ?_⟩
  · have hin := hs.pages.2.2 x hx
    rw [(hsame _ (hpages _ hin).1 hin).2]
    exact hholds x hx
  · obtain ⟨hua, hf⟩ := hpages va hva
    refine ⟨hua, ?_⟩
    unfold accessFlags at hf ⊢
    rwa [(hsame va hua hva).1]

/-- What the loop does from header `i` on, when all segments from there on are straight. -/
structure Loaded (base : Nat → Prop) (tramp d : Nat) (phTable : List UInt8) (lo hi maxVirtEnd : Nat)
    (m : Machine) (file : File) (own own' : Owners) (r : Option Nat × Machine × File) : Prop where
  stays : Stays base tramp d (r.1 ≠ none ∧ PagesApart phTable lo hi ∧ NoneMapped phTable lo hi m d)
    m r.2.1 own own'
  others : ∀ va, UserAddr va → (∀ j ph, IsSegment phTable lo hi j ph → ¬ ph.InPages va) →
    pteAt r.2.1 d va = pteAt m d va ∧ userByte r.2.1 d va = userByte m d va
  loaded : Fs.Inv file → r.1 ≠ none → SameFile file r.2.2 ∧ (PagesApart phTable lo hi →
    ∀ j ph, IsSegment phTable lo hi j ph → ph.InMemory r.2.1 d file.fil.data)
  stop : ∀ v ∈ r.1, maxVirtEnd ≤ v ∧ ∀ j ph, IsSegment phTable lo hi j ph → ph.stop ≤ v

variable {phTable : List UInt8}

theorem IsSegment.mono {lo hi lo' j : Nat} (h : IsSegment phTable lo' hi j ph) (hle : lo ≤ lo') :
    IsSegment phTable lo hi j ph := ⟨⟨hle.trans h.1.1, h.1.2⟩, h.2⟩

theorem PagesApart.mono {lo hi lo' : Nat} (h : PagesApart phTable lo hi) (hle : lo ≤ lo') :
    PagesApart phTable lo' hi := fun j k ph ph' va hj hk => h j k ph ph' va (hj.mono hle) (hk.mono hle)

/-- The first segment of the range, or one of the others. -/
theorem IsSegment.cases {lo hi j : Nat} (h : IsSegment phTable lo hi j ph) :
    (j = lo ∧ parseProgramHeader phTable lo = ph) ∨ IsSegment phTable (lo + 1) hi j ph := by
  obtain ⟨⟨h1, h2⟩, h3, h4⟩ := h
  by_cases he : j = lo
  · exact .inl ⟨he, he ▸ h3⟩
  · exact .inr ⟨⟨by omega, h2⟩, h3, h4⟩

theorem loadSegments_spec (env : Env) (n : Nat) : ∀ (i maxVirtEnd : Nat) {m : Machine} {own : Owners}
    (file : File), Lives base tramp d m own →
    (∀ j ph, IsSegment phTable i (i + n) j ph → ph.Straight) → ∃ own',
      Loaded base tramp d phTable i (i + n) maxVirtEnd m file own own'
        (loadSegments env phTable d n i maxVirtEnd m file) := by
  induction n with
  | zero =>
    intro i maxVirtEnd m own file h _
    have hno : ∀ j ph, ¬ IsSegment phTable i (i + 0) j ph := fun j ph hj => by
      have := hj.1
      omega
    exact ⟨own, .refl h, fun _ _ _ => ⟨rfl, rfl⟩,
      fun hf _ => ⟨.refl hf, fun _ j ph hj => absurd hj (hno j ph)⟩, fun v hv => by
        obtain rfl := Option.some.inj hv
        exact ⟨Nat.le_refl _, fun j ph hj => absurd hj (hno j ph)⟩⟩
  | succ n ih =>
    intro i maxVirtEnd m own file h hs
    have hrest : ∀ j ph, IsSegment phTable (i + 1) (i + 1 + n) j ph →
        IsSegment phTable i (i + (n + 1)) j ph := fun j ph hj =>
      ⟨by have := hj.1; omega, hj.2⟩
    have hrange : i + 1 + n = i + (n + 1) := by omega
    unfold loadSegments
    dsimp only
    by_cases ht : (parseProgramHeader phTable i).type = 1
    swap
    · rw [if_pos ht]
      obtain ⟨own', hl⟩ := ih (i + 1) maxVirtEnd file h fun j ph hj => hs j ph (hrest j ph hj)
      rw [hrange] at hl hrest
      have hsame : ∀ {j ph}, IsSegment phTable i (i + (n + 1)) j ph →
          IsSegment phTable (i + 1) (i + (n + 1)) j ph := fun {j ph} hj => by
        rcases hj.cases with ⟨rfl, he⟩ | hj'
        · exact absurd (he ▸ hj.2.2) ht
        · exact hj'
      refine ⟨own', hl.stays.mono fun ⟨h1, h2, h3⟩ => ⟨h1, h2.mono (by omega), fun j ph va hj =>
        h3 j ph va (hrest j ph hj)⟩, fun va hva hno => hl.others va hva fun j ph hj =>
          hno j ph (hrest j ph hj), fun hf hok => ?_, fun v hv => ?_⟩
      · obtain ⟨hfile, hmem⟩ := hl.loaded hf hok
        exact ⟨hfile, fun hap j ph hj => hmem (hap.mono (by omega)) j ph (hsame hj)⟩
      · obtain ⟨h1, h2⟩ := hl.stop v hv
        exact ⟨h1, fun j ph hj => h2 j ph (hsame hj)⟩
    rw [if_neg (not_not.mpr ht)]
    have hself : IsSegment phTable i (i + (n + 1)) i (parseProgramHeader phTable i) :=
      ⟨by omega, rfl, ht⟩
    have hstraight := hs _ _ hself
    obtain ⟨own₁, hs₁, hothers₁, hload₁⟩ := loadSegment_spec (env.chunk i) file h hstraight
    generalize loadSegment (env.chunk i) d (parseProgramHeader phTable i) m file = r
      at hs₁ hothers₁ hload₁ ⊢
    obtain ⟨ok, m₁, file₁⟩ := r
    dsimp only at hs₁ hothers₁ hload₁
    cases ok with
    | false =>
      exact ⟨own₁, hs₁.mono fun hf => absurd rfl hf.1, fun va hva hno => hothers₁ va hva (hno _ _ hself),
        fun _ hf => absurd rfl hf, fun v hv => nomatch hv⟩
    | true =>
      dsimp only
      obtain ⟨own', hl⟩ := ih (i + 1) (max maxVirtEnd (parseProgramHeader phTable i).stop) file₁
        (hs₁.lives h) fun j ph hj => hs j ph (hrest j ph hj)
      rw [hrange] at hl hrest
      generalize loadSegments env phTable d n (i + 1)
        (max maxVirtEnd (parseProgramHeader phTable i).stop) m₁ file₁ = r at hl ⊢
      refine ⟨own', (hs₁.mono fun hc => ⟨rfl, fun va => hc.2.2 i _ va hself⟩).trans
        (hl.stays.mono fun ⟨h1, h2, h3⟩ => ⟨h1, h2.mono (by omega), fun j ph va hj hva hin => ?_⟩),
        fun va hva hno => ?_, fun hf hok => ?_, fun v hv => ?_⟩
      · have hj' := hrest j ph hj
        rw [(hothers₁ va hva (h2 j i ph _ va hj' hself (by have := hj.1; omega) hin)).1]
        exact h3 j ph va hj' hva hin
      · obtain ⟨hp, hb⟩ := hothers₁ va hva (hno _ _ hself)
        obtain ⟨hp', hb'⟩ := hl.others va hva fun j ph hj => hno j ph (hrest j ph hj)
        exact ⟨hp'.trans hp, hb'.trans hb⟩
      · obtain ⟨hfile, hmem⟩ := hload₁ hf rfl
        obtain ⟨hfile', hmem'⟩ := hl.loaded hfile.inv hok
        refine ⟨hfile.trans hfile', fun hap j ph hj => ?_⟩
        rcases hj.cases with ⟨rfl, rfl⟩ | hj'
        · refine hmem.kept hstraight fun va hva hin => hl.others va hva fun k ph' hk => ?_
          exact hap j k _ ph' va hself (hrest k ph' hk) (by have := hk.1; omega) hin
        · exact hfile.data ▸ hmem' (hap.mono (by omega)) j ph hj'
      · obtain ⟨h1, h2⟩ := hl.stop v hv
        refine ⟨by omega, fun j ph hj => ?_⟩
        rcases hj.cases with ⟨rfl, rfl⟩ | hj'
        · omega
        · exact h2 j ph hj'

end Elf
end Hashx86
