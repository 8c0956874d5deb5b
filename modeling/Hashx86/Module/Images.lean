import Hashx86.Module.Spec

/-!
# The images of the sections

`placed env secs i` is the table when the loop that loads the images reaches section `i`, and
`imageBlocks env secs i` the images that it has allocated by then. `loadImages_cases` says that the
loop loads every image, or stops at the first one that does not load.

The loop that frees the images calls `kfree` with the `addr` of every section with `SHF_ALLOC`.
`mem_freeImages` says what is left after it, `wild_freeImages` when all the addresses were blocks.
-/

namespace Hashx86
namespace Module

open Lib Fs

/-- The section gets an image. -/
def Section.needed (s : Section) : Prop := s.alloc ∧ s.size ≠ 0

instance (s : Section) : Decidable s.needed := inferInstanceAs (Decidable (_ ∧ _))

/-- The bytes that the image starts with. -/
def fileImage (data : List UInt8) (s : Section) : List UInt8 :=
  if s.type ≠ 8 then slice data s.offset s.size else List.replicate s.size 0

/-- The answer can be a block next to these. -/
def FitsIn (blocks : List Block) (ptr size : Nat) : Prop :=
  0 < size ∧ size ≤ 0x7FFFFFFF ∧ ptr ≠ 0 ∧ ptr + size ≤ 2 ^ 32 ∧
    ∀ b ∈ blocks, Block.Disjoint ⟨ptr, size⟩ b

/-- There is memory for the image, and its bytes can be read. -/
def ImageLoads (f : File) (blocks : List Block) (s : Section) (a : BufAnswer) : Prop :=
  FitsIn blocks a.ptr s.size ∧ (s.type ≠ 8 → Readable f s.offset s.size a.read)

/-- The images of the sections below `i`. -/
def imageBlocks (env : Env) (secs : Nat → Section) : Nat → List Block
  | 0 => []
  | i + 1 =>
    if (secs i).needed then ⟨(env.image i).ptr, (secs i).size⟩ :: imageBlocks env secs i
    else imageBlocks env secs i

/-- The table after the sections below `i`. -/
def placed (env : Env) (secs : Nat → Section) (i : Nat) : Nat → Section := fun j =>
  if j < i then { secs j with addr := if (secs j).needed then (env.image j).ptr else 0 } else secs j

theorem Readable.congr {f f' : File} {offset size : Nat} {a : ReadAnswer} (h : SameFile f f') :
    Readable f' offset size a ↔ Readable f offset size a := by
  unfold Readable
  rw [h.data, h.readable]

/-! ## One image -/

section Image

variable {io : Io} {s : Section} {a : BufAnswer}

theorem loadImage_loads (hio : IoOk io) (ho : s.offset < 2 ^ 32)
    (hl : ImageLoads io.file io.heap.blocks s a) :
    ∃ io', loadImage io s a = (some a.ptr, io') ∧ Moved io io' ∧ Held io io' ∧
      io'.heap.blocks = ⟨a.ptr, s.size⟩ :: io.heap.blocks ∧
      ∀ i < s.size, io'.heap.mem (a.ptr + i) = (fileImage io.file.fil.data s).getD i 0 := by
  obtain ⟨hf, hread⟩ := hl
  have hfits : io.heap.Fits a.ptr s.size := hf
  unfold loadImage fileImage
  by_cases ht : s.type ≠ 8
  · obtain ⟨io', he, hm, hh, hb, hbytes⟩ := loadBuf_loads hio ho ⟨hfits, hread ht⟩
    rw [if_pos ht, if_pos ht, he]
    exact ⟨io', rfl, hm, hh, hb, hbytes⟩
  · rw [if_neg ht, if_neg ht]
    have hlen : (List.replicate s.size (0 : UInt8)).length = s.size := List.length_replicate
    obtain ⟨hm, hh⟩ := moved_fill hio (.refl hio.file) hfits (Nat.le_of_eq hlen)
    refine ⟨_, ?_, hm, hh, ?_, fun i hi => ?_⟩
    · rw [Heap.kmalloc_fits hfits]
      exact if_neg hf.2.2.1
    · rw [Heap.kmalloc_fits hfits]
      rfl
    · rw [Heap.kmalloc_fits hfits]
      unfold Heap.fill
      dsimp only
      rw [overwrite_of_in _ _ (Nat.le_add_right _ _) (by rw [hlen]; omega), Nat.add_sub_cancel_left]

theorem loadImage_fails (hio : IoOk io) (ho : s.offset < 2 ^ 32)
    (hl : ¬ ImageLoads io.file io.heap.blocks s a) :
    ∃ io', loadImage io s a = (none, io') ∧ Moved io io' ∧ Held io io' ∧
      io'.heap.blocks = io.heap.blocks := by
  unfold loadImage
  by_cases ht : s.type ≠ 8
  · obtain ⟨io', he, hm, hh, hb⟩ := loadBuf_fails (a := a) hio ho
      fun h : Loads io s.size s.offset a => hl ⟨h.1, fun _ => h.2⟩
    rw [if_pos ht, he]
    exact ⟨io', rfl, hm, hh, hb⟩
  · have hf : ¬ io.heap.Fits a.ptr s.size := fun h => hl ⟨h, fun h => absurd h ht⟩
    rw [if_neg ht, Heap.kmalloc_not_fits hf]
    exact ⟨io, if_pos rfl, .refl hio, .refl io, rfl⟩

end Image

/-! ## The loop that loads them -/

section Loop

variable {env : Env} {secs : Nat → Section}

theorem placed_zero (env : Env) (secs : Nat → Section) : placed env secs 0 = secs :=
  funext fun _ => if_neg (Nat.not_lt_zero _)

theorem placed_of_le {i j : Nat} (h : i ≤ j) : placed env secs i j = secs j := if_neg (by omega)

theorem placed_of_lt {i j : Nat} (h : j < i) : placed env secs i j =
    { secs j with addr := if (secs j).needed then (env.image j).ptr else 0 } := if_pos h

theorem setAddr_placed (env : Env) (secs : Nat → Section) (i : Nat) : setAddr (placed env secs i) i
    (if (secs i).needed then (env.image i).ptr else 0) = placed env secs (i + 1) := by
  funext j
  unfold setAddr
  rw [placed_of_le (Nat.le_refl i)]
  by_cases hj : j = i
  · subst hj
    rw [Function.update_self, placed_of_lt (Nat.lt_succ_self j)]
  · rw [Function.update_of_ne hj]
    unfold placed
    by_cases hlt : j < i
    · rw [if_pos hlt, if_pos (show j < i + 1 by omega)]
    · rw [if_neg hlt, if_neg (show ¬ j < i + 1 by omega)]

/-- One round of the loop that loads the images. -/
theorem loadImages_succ {f : File} {bs : List Block} {i : Nat} {io : Io} (n : Nat)
    (hoff : (secs i).offset < 2 ^ 32) (hio : IoOk io) (hfile : SameFile f io.file)
    (hbs : io.heap.blocks = imageBlocks env secs i ++ bs) :
    (∃ io₁, loadImages env (n + 1) i (placed env secs i) io =
        loadImages env n (i + 1) (placed env secs (i + 1)) io₁ ∧
      Moved io io₁ ∧ Held io io₁ ∧ io₁.heap.blocks = imageBlocks env secs (i + 1) ++ bs ∧
      ((secs i).needed → ImageLoads f (imageBlocks env secs i ++ bs) (secs i) (env.image i)) ∧
      ((secs i).needed → ∀ x < (secs i).size,
        io₁.heap.mem ((env.image i).ptr + x) = (fileImage f.fil.data (secs i)).getD x 0)) ∨
    ∃ io₁, loadImages env (n + 1) i (placed env secs i) io = (false, placed env secs i, io₁) ∧
      Moved io io₁ ∧ Held io io₁ ∧ io₁.heap.blocks = imageBlocks env secs i ++ bs ∧
      (secs i).needed ∧ ¬ ImageLoads f (imageBlocks env secs i ++ bs) (secs i) (env.image i) := by
  have hset := setAddr_placed env secs i
  have hsame : ImageLoads io.file io.heap.blocks (secs i) (env.image i) ↔
      ImageLoads f (imageBlocks env secs i ++ bs) (secs i) (env.image i) := by
    unfold ImageLoads
    rw [hbs, Readable.congr hfile]
  rw [loadImages, placed_of_le (Nat.le_refl i)]
  by_cases hneed : (secs i).needed
  · rw [if_neg (by simpa [Section.needed] using hneed)]
    by_cases hl : ImageLoads f (imageBlocks env secs i ++ bs) (secs i) (env.image i)
    · obtain ⟨io₁, he, hm, hh, hb, hbytes⟩ := loadImage_loads hio hoff (hsame.mpr hl)
      rw [if_pos hneed] at hset
      rw [he]
      refine .inl ⟨io₁, by rw [← hset], hm, hh, ?_, fun _ => hl, fun _ x hx => ?_⟩
      · rw [hb, hbs, imageBlocks, if_pos hneed]
        rfl
      · rw [hbytes x hx, hfile.data]
    · obtain ⟨io₁, he, hm, hh, hb⟩ := loadImage_fails hio hoff (mt hsame.mp hl)
      rw [he]
      exact .inr ⟨io₁, rfl, hm, hh, hb.trans hbs, hneed, hl⟩
  · rw [if_neg hneed] at hset
    rw [if_pos (by
      unfold Section.needed at hneed
      by_cases ha : (secs i).alloc = true
      · exact .inr (by_contra fun hs => hneed ⟨ha, hs⟩)
      · exact .inl (by simpa using ha))]
    refine .inl ⟨io, by rw [← hset], .refl hio, .refl io, ?_, fun h => absurd h hneed,
      fun h => absurd h hneed⟩
    rw [hbs, imageBlocks, if_neg hneed]

theorem mem_imageBlocks {b : Block} {i : Nat} : b ∈ imageBlocks env secs i ↔
    ∃ j < i, (secs j).needed ∧ b = ⟨(env.image j).ptr, (secs j).size⟩ := by
  induction i with
  | zero =>
    refine iff_of_false List.not_mem_nil ?_
    rintro ⟨j, hj, -⟩
    exact Nat.not_lt_zero j hj
  | succ i ih =>
    unfold imageBlocks
    by_cases hneed : (secs i).needed
    · rw [if_pos hneed, List.mem_cons, ih]
      constructor
      · rintro (rfl | ⟨j, hj, h⟩)
        · exact ⟨i, Nat.lt_succ_self i, hneed, rfl⟩
        · exact ⟨j, by omega, h⟩
      · rintro ⟨j, hj, hn, rfl⟩
        rcases Nat.lt_succ_iff_lt_or_eq.mp hj with hj | rfl
        · exact .inr ⟨j, hj, hn, rfl⟩
        · exact .inl rfl
    · rw [if_neg hneed, ih]
      constructor
      · rintro ⟨j, hj, h⟩
        exact ⟨j, by omega, h⟩
      · rintro ⟨j, hj, hn, rfl⟩
        rcases Nat.lt_succ_iff_lt_or_eq.mp hj with hj | rfl
        · exact ⟨j, hj, hn, rfl⟩
        · exact absurd hn hneed

/-- Every image is loaded, or the loop stops at the first one that does not load. -/
theorem loadImages_cases (env : Env) {f : File} {bs : List Block} (hoff : ∀ j, (secs j).offset < 2 ^ 32)
    (n : Nat) : ∀ {i : Nat} {io : Io}, IoOk io → SameFile f io.file →
      io.heap.blocks = imageBlocks env secs i ++ bs →
    (∃ io', loadImages env n i (placed env secs i) io = (true, placed env secs (i + n), io') ∧
      Moved io io' ∧ Held io io' ∧ io'.heap.blocks = imageBlocks env secs (i + n) ++ bs ∧
      (∀ j, i ≤ j → j < i + n → (secs j).needed →
        ImageLoads f (imageBlocks env secs j ++ bs) (secs j) (env.image j)) ∧
      ∀ j, i ≤ j → j < i + n → (secs j).needed → ∀ x < (secs j).size,
        io'.heap.mem ((env.image j).ptr + x) = (fileImage f.fil.data (secs j)).getD x 0) ∨
    ∃ j io', i ≤ j ∧ j < i + n ∧
      loadImages env n i (placed env secs i) io = (false, placed env secs j, io') ∧
      Moved io io' ∧ Held io io' ∧ io'.heap.blocks = imageBlocks env secs j ++ bs ∧
      (secs j).needed ∧ ¬ ImageLoads f (imageBlocks env secs j ++ bs) (secs j) (env.image j) ∧
      ∀ k, i ≤ k → k < j → (secs k).needed →
        ImageLoads f (imageBlocks env secs k ++ bs) (secs k) (env.image k) := by
  induction n with
  | zero =>
    intro i io hio hfile hbs
    exact .inl ⟨io, rfl, .refl hio, .refl io, hbs, fun j h1 h2 => absurd h2 (by omega),
      fun j h1 h2 => absurd h2 (by omega)⟩
  | succ n ih =>
    intro i io hio hfile hbs
    rcases loadImages_succ n (hoff i) hio hfile hbs with
      ⟨io₁, he, hm, hh, hb, hload, hbytes⟩ | ⟨io₁, he, hm, hh, hb, hneed, hfail⟩
    · have hsub : ∀ b ∈ io.heap.blocks, b ∈ io₁.heap.blocks := fun b hm => by
        rw [hbs] at hm
        rw [hb]
        refine List.mem_append.mpr ((List.mem_append.mp hm).imp_left fun hm => ?_)
        obtain ⟨j, hj, h⟩ := mem_imageBlocks.mp hm
        exact mem_imageBlocks.mpr ⟨j, by omega, h⟩
      have hlast : i + (n + 1) = i + 1 + n := by omega
      rw [he, hlast]
      rcases ih hm.ok (hfile.trans hm.file) hb with
        ⟨io', he', hm', hh', hb', hload', hbytes'⟩ | ⟨j, io', h1, h2, he', hm', hh', hb', hrest⟩
      · refine .inl ⟨io', he', hm.trans hm', hh.trans hsub hh', hb', fun j h1 h2 hn => ?_,
          fun j h1 h2 hn x hx => ?_⟩
        · rcases Nat.eq_or_lt_of_le h1 with rfl | h1
          · exact hload hn
          · exact hload' j h1 h2 hn
        · rcases Nat.eq_or_lt_of_le h1 with rfl | h1
          · have hmem : (⟨(env.image i).ptr, (secs i).size⟩ : Block) ∈ io₁.heap.blocks := by
              rw [hb]
              exact List.mem_append_left _ (mem_imageBlocks.mpr ⟨i, by omega, hn, rfl⟩)
            rw [hh'.bytes _ hmem _ ⟨Nat.le_add_right _ _, Nat.add_lt_add_left hx _⟩, hbytes hn x hx]
          · exact hbytes' j h1 h2 hn x hx
      · obtain ⟨hneed, hfail, hbefore⟩ := hrest
        refine .inr ⟨j, io', by omega, h2, he', hm.trans hm', hh.trans hsub hh', hb', hneed, hfail,
          fun k h1 h2 hn => ?_⟩
        rcases Nat.eq_or_lt_of_le h1 with rfl | h1
        · exact hload hn
        · exact hbefore k h1 h2 hn
    · exact .inr ⟨i, io₁, Nat.le_refl i, by omega, he, hm, hh, hb, hneed, hfail,
        fun k h1 h2 => absurd h2 (by omega)⟩

end Loop

/-! ## The loop that frees them -/

theorem mem_kfree {h : Heap} (hok : HeapOk h) {a : Nat} {b : Block} :
    b ∈ (h.kfree a).blocks ↔ b ∈ h.blocks ∧ b.addr ≠ a := by
  by_cases h0 : a = 0
  · subst h0
    rw [Heap.kfree_zero]
    exact ⟨fun hb => ⟨hb, (hok.bound b hb).1⟩, fun hb => hb.1⟩
  by_cases hex : ∃ c ∈ h.blocks, c.addr = a
  · rw [Heap.kfree_block h0 hex]
    exact mem_release hok.apart
  · have hne : ∀ c ∈ h.blocks, c.addr ≠ a := fun c hc he => hex ⟨c, hc, he⟩
    rw [Heap.kfree_wild h0 hne]
    exact ⟨fun hb => ⟨hb, hne b hb⟩, fun hb => hb.1⟩

/-- No pointer but those of blocks, and `NULL`, has been freed. -/
theorem wild_kfree {h : Heap} {a : Nat} :
    (h.kfree a).wild = [] ↔ h.wild = [] ∧ (a = 0 ∨ ∃ b ∈ h.blocks, b.addr = a) := by
  by_cases h0 : a = 0
  · subst h0
    rw [Heap.kfree_zero]
    exact ⟨fun h => ⟨h, .inl rfl⟩, fun h => h.1⟩
  by_cases hex : ∃ b ∈ h.blocks, b.addr = a
  · rw [Heap.kfree_block h0 hex]
    exact ⟨fun h => ⟨h, .inr hex⟩, fun h => h.1⟩
  · rw [Heap.kfree_wild h0 fun b hb he => hex ⟨b, hb, he⟩]
    refine iff_of_false (List.cons_ne_nil _ _) ?_
    rintro ⟨-, h | h⟩
    · exact h0 h
    · exact hex h

theorem mem_of_kfree (h : Heap) (a : Nat) :
    (h.kfree a).mem = h.mem ∧ (h.kfree a).given = h.given ∧ (h.kfree a).words = h.words := by
  unfold Heap.kfree
  split
  · exact ⟨rfl, rfl, rfl⟩
  · split <;> exact ⟨rfl, rfl, rfl⟩

/-- The loop frees the `addr` of the section. -/
def Section.freed (s : Section) : Prop := s.addr ≠ 0 ∧ s.alloc

instance (s : Section) : Decidable s.freed := inferInstanceAs (Decidable (_ ∧ _))

section FreeImages

variable {secs : Nat → Section}

theorem freeImages_succ (h : Heap) (n i : Nat) : freeImages secs h (n + 1) i =
    freeImages secs (if (secs i).freed then h.kfree (secs i).addr else h) n (i + 1) := rfl

theorem heapOk_freeImages (secs : Nat → Section) {h : Heap} (hok : HeapOk h) (n i : Nat) :
    HeapOk (freeImages secs h n i) := by
  induction n generalizing h i with
  | zero => exact hok
  | succ n ih =>
    rw [freeImages_succ]
    refine ih ?_ (i + 1)
    split
    · exact heapOk_kfree hok _
    · exact hok

theorem mem_of_freeImages (secs : Nat → Section) (h : Heap) (n i : Nat) : (freeImages secs h n i).mem = h.mem ∧
    (freeImages secs h n i).given = h.given ∧ (freeImages secs h n i).words = h.words := by
  induction n generalizing h i with
  | zero => exact ⟨rfl, rfl, rfl⟩
  | succ n ih =>
    rw [freeImages_succ]
    obtain ⟨h1, h2, h3⟩ := ih (if (secs i).freed then h.kfree (secs i).addr else h) (i + 1)
    rw [h1, h2, h3]
    split
    · exact mem_of_kfree h _
    · exact ⟨rfl, rfl, rfl⟩

/-- The blocks that are left. -/
theorem mem_freeImages {h : Heap} (hok : HeapOk h) {n i : Nat} {b : Block} :
    b ∈ (freeImages secs h n i).blocks ↔
      b ∈ h.blocks ∧ ∀ k, i ≤ k → k < i + n → (secs k).freed → b.addr ≠ (secs k).addr := by
  induction n generalizing h i with
  | zero => exact ⟨fun hb => ⟨hb, fun k h1 h2 => absurd h2 (by omega)⟩, fun hb => hb.1⟩
  | succ n ih =>
    rw [freeImages_succ]
    by_cases hi : (secs i).freed
    · rw [if_pos hi, ih (heapOk_kfree hok _), mem_kfree hok, and_assoc]
      refine and_congr_right fun _ => ⟨fun ⟨hne, hrest⟩ k h1 h2 hk => ?_, fun hall => ?_⟩
      · rcases Nat.eq_or_lt_of_le h1 with rfl | h1
        · exact hne
        · exact hrest k h1 (by omega) hk
      · exact ⟨hall i (Nat.le_refl i) (by omega) hi,
          fun k h1 h2 hk => hall k (by omega) (by omega) hk⟩
    · rw [if_neg hi, ih hok]
      refine and_congr_right fun _ => ⟨fun hrest k h1 h2 hk => ?_, fun hall k h1 h2 hk => ?_⟩
      · rcases Nat.eq_or_lt_of_le h1 with rfl | h1
        · exact absurd hk hi
        · exact hrest k h1 (by omega) hk
      · exact hall k (by omega) (by omega) hk

/-- Every address that the loop frees is one of a block, and no two are the same. -/
theorem wild_freeImages {h : Heap} (hok : HeapOk h) {n i : Nat} :
    (freeImages secs h n i).wild = [] ↔
      h.wild = [] ∧ ∀ k, i ≤ k → k < i + n → (secs k).freed →
        (∃ b ∈ h.blocks, b.addr = (secs k).addr) ∧
          ∀ j, i ≤ j → j < k → (secs j).freed → (secs k).addr ≠ (secs j).addr := by
  induction n generalizing h i with
  | zero => exact ⟨fun hw => ⟨hw, fun k h1 h2 => absurd h2 (by omega)⟩, fun hw => hw.1⟩
  | succ n ih =>
    rw [freeImages_succ]
    by_cases hi : (secs i).freed
    · rw [if_pos hi, ih (heapOk_kfree hok _), wild_kfree, and_assoc]
      refine and_congr_right fun _ => ⟨fun ⟨hfirst, hrest⟩ k h1 h2 hk => ?_, fun hall => ?_⟩
      · rcases Nat.eq_or_lt_of_le h1 with rfl | h1
        · exact ⟨hfirst.resolve_left hi.1, fun j h3 h4 => absurd h4 (by omega)⟩
        · obtain ⟨⟨b, hb, he⟩, hdiff⟩ := hrest k h1 (by omega) hk
          obtain ⟨hb, hne⟩ := (mem_kfree hok).mp hb
          refine ⟨⟨b, hb, he⟩, fun j h3 h4 hj => ?_⟩
          rcases Nat.eq_or_lt_of_le h3 with rfl | h3
          · exact he ▸ hne
          · exact hdiff j h3 h4 hj
      · refine ⟨.inr (hall i (Nat.le_refl i) (by omega) hi).1, fun k h1 h2 hk => ?_⟩
        obtain ⟨⟨b, hb, he⟩, hdiff⟩ := hall k (by omega) (by omega) hk
        refine ⟨⟨b, (mem_kfree hok).mpr ⟨hb, ?_⟩, he⟩, fun j h3 h4 hj => hdiff j (by omega) h4 hj⟩
        exact he ▸ hdiff i (Nat.le_refl i) h1 hi
    · rw [if_neg hi, ih hok]
      refine and_congr_right fun _ => ⟨fun hrest k h1 h2 hk => ?_, fun hall k h1 h2 hk => ?_⟩
      · rcases Nat.eq_or_lt_of_le h1 with rfl | h1
        · exact absurd hk hi
        · obtain ⟨hb, hdiff⟩ := hrest k h1 (by omega) hk
          refine ⟨hb, fun j h3 h4 hj => ?_⟩
          rcases Nat.eq_or_lt_of_le h3 with rfl | h3
          · exact absurd hj hi
          · exact hdiff j h3 h4 hj
      · obtain ⟨hb, hdiff⟩ := hall k (by omega) (by omega) hk
        exact ⟨hb, fun j h3 h4 hj => hdiff j (by omega) h4 hj⟩

end FreeImages

end Module
end Hashx86
