import Hashx86.Fs.Cursor
import Hashx86.Module.Defs

/-!
# What the steps of the loader do to the file and the heap

`Step io io'` is what every step has in common: the bytes of the file stay, no pointer is freed that
was not a block, the blocks that were held keep their bytes, and nothing is stored outside the blocks
that the call ever got. `loadBuf_loads` and `loadBuf_fails` are the two results of a `kmalloc` with a
read; `Loads` is the condition.
-/

namespace Hashx86
namespace Module

open Lib Fs

/-! ## Heaps -/

/-- The blocks are apart and inside the address space. -/
structure HeapOk (h : Heap) : Prop where
  apart : Apart h.blocks
  bound : ∀ b ∈ h.blocks, b.addr ≠ 0 ∧ b.addr + b.size ≤ 2 ^ 32
  given : ∀ b ∈ h.blocks, b ∈ h.given

variable {h : Heap} {ptr size : Nat}

theorem heapOk_kmalloc (hok : HeapOk h) (hf : h.Fits ptr size) : HeapOk (h.kmalloc size ptr).2 := by
  rw [Heap.kmalloc_fits hf]
  obtain ⟨hpos, -, h0, hend, hd⟩ := hf
  refine ⟨hok.apart.cons hpos hd, fun b hb => ?_, fun b hb => ?_⟩
  · rcases List.mem_cons.mp hb with rfl | hb
    · exact ⟨h0, hend⟩
    · exact hok.bound b hb
  · exact (List.mem_cons.mp hb).elim (fun e => e ▸ List.mem_cons_self)
      fun hb => List.mem_cons_of_mem _ (hok.given b hb)

theorem heapOk_kfree (hok : HeapOk h) (addr : Nat) : HeapOk (h.kfree addr) := by
  unfold Heap.kfree
  split
  · exact hok
  split
  · exact ⟨hok.apart.release addr, fun b hb => hok.bound b (List.mem_of_mem_eraseP hb),
      fun b hb => hok.given b (List.mem_of_mem_eraseP hb)⟩
  · exact ⟨hok.apart, hok.bound, hok.given⟩

theorem HeapOk.of_blocks {h' : Heap} (hok : HeapOk h) (hb : h'.blocks = h.blocks)
    (hg : h'.given = h.given) : HeapOk h' :=
  ⟨hb ▸ hok.apart, hb ▸ hok.bound, fun b hm => hg ▸ hok.given b (hb ▸ hm)⟩

/-- The last block that was allocated is freed. -/
theorem kfree_head {b : Block} {bs : List Block} (hok : HeapOk h) (hb : h.blocks = b :: bs) :
    h.kfree b.addr = { h with blocks := bs } := by
  have hmem : b ∈ h.blocks := hb ▸ List.mem_cons_self
  rw [Heap.kfree_block (hok.bound b hmem).1 ⟨b, hmem, rfl⟩, hb]
  unfold release
  rw [List.eraseP_cons_of_pos (by simp)]

/-! ## Files -/

/-- The bytes of the file, and whether it can be read, stay. -/
structure SameFile (f f' : File) : Prop where
  inv : Fs.Inv f'
  data : f'.fil.data = f.fil.data
  readable : f'.isReadable = f.isReadable

theorem SameFile.refl {f : File} (h : Fs.Inv f) : SameFile f f := ⟨h, rfl, rfl⟩

theorem SameFile.trans {f g k : File} (h₁ : SameFile f g) (h₂ : SameFile g k) : SameFile f k :=
  ⟨h₂.inv, h₂.data.trans h₁.data, h₂.readable.trans h₁.readable⟩

/-- `size` bytes from `offset` on. -/
def slice (data : List UInt8) (offset size : Nat) : List UInt8 := (data.drop offset).take size

/-- The read of `size` bytes from `offset` on gets them all. -/
def Readable (f : File) (offset size : Nat) (a : ReadAnswer) : Prop :=
  f.isReadable ∧ a.seek.ok ∧ a.ok ∧ offset + size ≤ f.fil.data.length

theorem length_slice {data : List UInt8} {offset size : Nat} (h : offset + size ≤ data.length) :
    (slice data offset size).length = size := by
  unfold slice
  rw [List.length_take, List.length_drop]
  omega

theorem readAt_cases {f : File} (hf : Fs.Inv f) {buffer offset : Nat} (hb : buffer ≠ 0)
    (ho : offset < 2 ^ 32) (hpos : 0 < size) (hlt : size < 2 ^ 32) (a : ReadAnswer) :
    ∃ bytes f', SameFile f f' ∧ bytes.length ≤ size ∧
      (Readable f offset size a ∧ bytes = slice f.fil.data offset size ∧
          readAt f buffer offset size a = (some bytes, bytes, f') ∨
        ¬ Readable f offset size a ∧ readAt f buffer offset size a = (none, bytes, f')) := by
  have hseek := Fs.inv_seek hf ho
  have hinv := Fs.inv_read hseek buffer size a.seek a.ok
  have hsync : f.size = f.fil.data.length := hf.synced
  have hfsize := hf.size_lt
  obtain ⟨p, hread⟩ := Fs.read_eq hseek buffer size a.seek a.ok
  generalize hbytes : (f.seek offset).expected buffer size a.seek a.ok = bytes at hread
  have hposition : (f.seek offset).position =
      if !f.isWritable ∧ f.size < offset then f.size else offset := rfl
  have hle : bytes.length ≤ size := by
    rw [← hbytes]
    unfold File.expected
    split
    · rw [List.length_take]
      exact Nat.min_le_left _ _
    · exact Nat.zero_le _
  refine ⟨bytes, _, ⟨hinv, by rw [hread]; rfl, by rw [hread]; rfl⟩, hle, ?_⟩
  by_cases hr : Readable f offset size a
  · obtain ⟨hreadable, hs, hok, hend⟩ := hr
    have hslice : bytes = slice f.fil.data offset size := by
      rw [← hbytes]
      unfold File.expected
      rw [if_pos ⟨hreadable, hb, hs, hok⟩, hposition, if_neg (by omega)]
      rfl
    refine .inl ⟨⟨hreadable, hs, hok, hend⟩, hslice, ?_⟩
    unfold readAt
    rw [hread]
    dsimp only
    rw [hslice, length_slice hend, if_neg (by simp)]
  · refine .inr ⟨hr, ?_⟩
    unfold readAt
    rw [hread]
    dsimp only
    rw [if_pos]
    intro he
    have hlen := Fs.toInt32_inj (by omega) hlt he
    refine hr ?_
    rw [← hbytes] at hlen
    unfold File.expected at hlen
    by_cases hc : (f.seek offset).isReadable ∧ buffer ≠ 0 ∧ a.seek.ok ∧ a.ok
    · rw [if_pos hc, List.length_take, List.length_drop, hposition] at hlen
      have hdata : (f.seek offset).fil.data.length = f.fil.data.length := rfl
      refine ⟨hc.1, hc.2.2.1, hc.2.2.2, ?_⟩
      split at hlen <;> omega
    · rw [if_neg hc] at hlen
      exact absurd hlen (by simp; omega)

/-! ## Steps -/

structure IoOk (io : Io) : Prop where
  file : Fs.Inv io.file
  heap : HeapOk io.heap

/-- What every step does. -/
structure Moved (io io' : Io) : Prop where
  file : SameFile io.file io'.file
  heap : HeapOk io'.heap
  wild : io'.heap.wild = io.heap.wild
  given : ∀ b ∈ io.heap.given, b ∈ io'.heap.given
  frame : ∀ a, (∀ b ∈ io'.heap.given, ¬ b.Has a) → io'.heap.mem a = io.heap.mem a

theorem Moved.ok {io io' : Io} (h : Moved io io') : IoOk io' := ⟨h.file.inv, h.heap⟩

theorem Moved.refl {io : Io} (h : IoOk io) : Moved io io :=
  ⟨.refl h.file, h.heap, rfl, fun _ hb => hb, fun _ _ => rfl⟩

theorem Moved.trans {io io₁ io₂ : Io} (h₁ : Moved io io₁) (h₂ : Moved io₁ io₂) : Moved io io₂ where
  file := h₁.file.trans h₂.file
  heap := h₂.heap
  wild := h₂.wild.trans h₁.wild
  given b hb := h₂.given b (h₁.given b hb)
  frame a ha := (h₂.frame a ha).trans (h₁.frame a fun b hb => ha b (h₂.given b hb))

/-- The blocks keep their bytes, and no word is stored. -/
structure Held (io io' : Io) : Prop where
  bytes : ∀ b ∈ io.heap.blocks, ∀ a, b.Has a → io'.heap.mem a = io.heap.mem a
  words : io'.heap.words = io.heap.words

theorem Held.refl (io : Io) : Held io io := ⟨fun _ _ _ _ => rfl, rfl⟩

theorem Held.trans {io io₁ io₂ : Io} (h₁ : Held io io₁)
    (hsub : ∀ b ∈ io.heap.blocks, b ∈ io₁.heap.blocks) (h₂ : Held io₁ io₂) : Held io io₂ :=
  ⟨fun b hb a ha => (h₂.bytes b (hsub b hb) a ha).trans (h₁.bytes b hb a ha),
    h₂.words.trans h₁.words⟩

/-- A block is freed. -/
theorem moved_kfree {io : Io} (hio : IoOk io) {b : Block} (hb : b ∈ io.heap.blocks) :
    Moved io { io with heap := io.heap.kfree b.addr } := by
  have hfree := Heap.kfree_block (hio.heap.bound b hb).1 ⟨b, hb, rfl⟩
  refine ⟨.refl hio.file, heapOk_kfree hio.heap b.addr, ?_, ?_, ?_⟩ <;> dsimp only <;> rw [hfree]
  · exact fun _ hc => hc
  · exact fun _ _ => rfl

/-- Bytes are stored in a new block. -/
theorem moved_fill {io : Io} (hio : IoOk io) {file : File} (hfile : SameFile io.file file)
    {ptr size : Nat} (hf : io.heap.Fits ptr size) {bytes : List UInt8} (hlen : bytes.length ≤ size) :
    Moved io { file := file, heap := (io.heap.kmalloc size ptr).2.fill ptr bytes } ∧
      Held io { file := file, heap := (io.heap.kmalloc size ptr).2.fill ptr bytes } := by
  have hok := heapOk_kmalloc hio.heap hf
  rw [Heap.kmalloc_fits hf] at hok ⊢
  have hout : ∀ a, ¬ Block.Has ⟨ptr, size⟩ a →
      overwrite io.heap.mem ptr bytes.length (fun i => bytes.getD i 0) a = io.heap.mem a :=
    fun a ha => overwrite_of_out _ _ (by unfold Block.Has at ha; dsimp only at ha; omega)
  refine ⟨⟨hfile, hok.of_blocks rfl rfl, rfl, fun b hb => List.mem_cons_of_mem _ hb, fun a ha => ?_⟩,
    ⟨fun b hb a ha => ?_, rfl⟩⟩
  · exact hout a (ha _ List.mem_cons_self)
  · exact hout a ((hf.2.2.2.2 b hb).symm.not_has ha)

/-- `loadBuf` gets its buffer and its bytes. -/
def Loads (io : Io) (size offset : Nat) (a : BufAnswer) : Prop :=
  io.heap.Fits a.ptr size ∧ Readable io.file offset size a.read

section LoadBuf

variable {io : Io} {size offset : Nat} {a : BufAnswer}

theorem loadBuf_of_fits (hf : io.heap.Fits a.ptr size) : loadBuf io size offset a =
    let (result, bytes, file) := readAt io.file a.ptr offset size a.read
    let heap := (io.heap.kmalloc size a.ptr).2.fill a.ptr bytes
    match result with
    | none => (none, { file := file, heap := heap.kfree a.ptr })
    | some bytes => (some (a.ptr, bytes), { file := file, heap := heap }) := by
  unfold loadBuf
  rw [Heap.kmalloc_fits hf]
  exact if_neg hf.2.2.1

theorem loadBuf_loads (hio : IoOk io) (ho : offset < 2 ^ 32) (hl : Loads io size offset a) :
    ∃ io', loadBuf io size offset a = (some (a.ptr, slice io.file.fil.data offset size), io') ∧
      Moved io io' ∧ Held io io' ∧ io'.heap.blocks = ⟨a.ptr, size⟩ :: io.heap.blocks ∧
      ∀ i < size, io'.heap.mem (a.ptr + i) = (slice io.file.fil.data offset size).getD i 0 := by
  obtain ⟨hf, hread⟩ := hl
  have hfits := hf
  obtain ⟨hpos, hmax, h0, -⟩ := hfits
  obtain ⟨bytes, file, hfile, hlen, ⟨-, hbytes, hr⟩ | ⟨hr, -⟩⟩ :=
    readAt_cases hio.file h0 ho hpos (by omega) a.read
  · have hsize := length_slice hread.2.2.2
    obtain ⟨hm, hh⟩ := moved_fill hio hfile hf hlen
    refine ⟨_, ?_, hm, hh, ?_, fun i hi => ?_⟩
    · rw [loadBuf_of_fits hf, hr, ← hbytes]
    · rw [Heap.kmalloc_fits hf]
      rfl
    · rw [Heap.kmalloc_fits hf, hbytes]
      have hlt : a.ptr + i < a.ptr + (slice io.file.fil.data offset size).length := by omega
      unfold Heap.fill
      dsimp only
      rw [overwrite_of_in _ _ (Nat.le_add_right _ _) hlt, Nat.add_sub_cancel_left]
  · exact absurd hread hr

theorem loadBuf_fails (hio : IoOk io) (ho : offset < 2 ^ 32) (hl : ¬ Loads io size offset a) :
    ∃ io', loadBuf io size offset a = (none, io') ∧ Moved io io' ∧ Held io io' ∧
      io'.heap.blocks = io.heap.blocks := by
  by_cases hf : io.heap.Fits a.ptr size
  · have hfits := hf
    obtain ⟨hpos, hmax, h0, -⟩ := hfits
    obtain ⟨bytes, file, hfile, hlen, ⟨hread, -⟩ | ⟨-, hr⟩⟩ :=
      readAt_cases hio.file h0 ho hpos (by omega) a.read
    · exact absurd ⟨hf, hread⟩ hl
    · obtain ⟨hm, hh⟩ := moved_fill hio hfile hf hlen
      generalize hio₁ : ({ file := file, heap := (io.heap.kmalloc size a.ptr).2.fill a.ptr bytes } :
        Io) = io₁ at hm hh
      have hblocks : io₁.heap.blocks = ⟨a.ptr, size⟩ :: io.heap.blocks := by
        rw [← hio₁, Heap.kmalloc_fits hf]
        rfl
      have hfree := kfree_head hm.heap hblocks
      have hmoved := moved_kfree hm.ok (hblocks ▸ List.mem_cons_self)
      refine ⟨{ io₁ with heap := io₁.heap.kfree a.ptr }, ?_, hm.trans hmoved, ⟨fun b hb x hx => ?_, ?_⟩, ?_⟩
      · rw [loadBuf_of_fits hf, hr, ← hio₁]
      · dsimp only
        rw [hfree]
        exact hh.bytes b hb x hx
      · dsimp only
        rw [hfree]
        exact hh.words
      · dsimp only
        rw [hfree]
  · refine ⟨io, ?_, .refl hio, .refl io, rfl⟩
    unfold loadBuf
    rw [Heap.kmalloc_not_fits hf]
    exact if_pos rfl

end LoadBuf

end Module
end Hashx86
