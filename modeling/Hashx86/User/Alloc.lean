import Hashx86.User.Sound

/-!
# What `kmalloc` does to a sound heap

* `carve_cases`: the two calls of `kbrk` for a new block.
* `sound_append`, `sound_lost`: a block behind all others, or a header without data, keeps the
  heap sound.
* `kmalloc_spec`: `kmalloc` keeps the heap sound and every block but the one that it takes, writes
  only headers, and returns `NULL` or the data of a block that is large enough (`Allocates`).
-/

namespace Hashx86

open Lib

namespace UserHeap

/-! ## Headers -/

section headers

variable {m : Nat → UInt8} {a n d t x next : Nat} {b : HeapBlock}

theorem storeFree_of_out (m : Nat → UInt8) (isFree : Bool) (h : x < a ∨ a + headerSize ≤ x) :
    storeFree m a isFree x = m x := overwrite_of_out _ _ (by unfold headerSize at h; omega)

theorem storeSize_of_out (m : Nat → UInt8) (n : Nat) (h : x < a ∨ a + headerSize ≤ x) :
    storeSize m a n x = m x := overwrite_of_out _ _ (by unfold headerSize at h; omega)

theorem storeNext_of_out (m : Nat → UInt8) (n : Nat) (h : x < a ∨ a + headerSize ≤ x) :
    storeNext m a n x = m x := overwrite_of_out _ _ (by unfold headerSize at h; omega)

theorem storeData_of_out (m : Nat → UInt8) (n : Nat) (h : x < a ∨ a + headerSize ≤ x) :
    storeData m a n x = m x := overwrite_of_out _ _ (by unfold headerSize at h; omega)

theorem not_has_header (h : ¬ (header a).Has x) : x < a ∨ a + headerSize ≤ x := by
  unfold Block.Has header at h
  dsimp only at h
  omega

/-- The size and the mark of a new header. -/
theorem storeSize_storeFree (m : Nat → UInt8) (isFree : Bool) (hn : n < 2 ^ 32) :
    read32 (storeSize (storeFree m a isFree) a n) a = n ∧
      storeSize (storeFree m a isFree) a n (a + 4) = flag isFree :=
  ⟨read32_write32 _ a hn, (overwrite_of_out _ _ (.inr (Nat.le_refl _))).trans
    (overwrite_of_in _ _ (Nat.le_refl _) (Nat.lt_succ_self _))⟩

/-- `next` is stored into a header. -/
theorem Encodes.storeNext (h : Encodes m b next) (ht : t < 2 ^ 32) :
    Encodes (storeNext m b.addr t) b t where
  size := (read32_write32_of_ne _ _ (.inl (by omega))).trans h.size
  isFree := (overwrite_of_out _ _ (.inl (Nat.lt_succ_self _))).trans h.isFree
  next := read32_write32 _ _ ht
  data := (read32_write32_of_ne _ _ (.inr (Nat.le_refl _))).trans h.data

/-- The header that `kmalloc` writes for the first block. -/
theorem encodes_first (m : Nat → UInt8) (hn : n < 2 ^ 32) (hd : d < 2 ^ 32) :
    Encodes (storeData (storeNext (storeSize (storeFree m a false) a n) a 0) a d)
      ⟨a, n, false, d⟩ 0 := by
  obtain ⟨hsize, hfree⟩ := @storeSize_storeFree a n m false hn
  unfold storeData storeNext
  refine ⟨?_, ?_, ?_, ?_⟩ <;> dsimp only
  · rw [read32_write32_of_ne _ _ (by omega), read32_write32_of_ne _ _ (by omega), hsize]
  · exact (overwrite_of_out _ _ (by omega)).trans ((overwrite_of_out _ _ (by omega)).trans hfree)
  · rw [read32_write32_of_ne _ _ (by omega), read32_write32 _ _ (by decide)]
  · rw [read32_write32 _ _ hd]

/-- The header that `allocate_new_block` writes. -/
theorem encodes_new (m : Nat → UInt8) (hn : n < 2 ^ 32) (hd : d < 2 ^ 32) :
    Encodes (storeNext (storeData (storeSize (storeFree m a false) a n) a d) a 0)
      ⟨a, n, false, d⟩ 0 := by
  obtain ⟨hsize, hfree⟩ := @storeSize_storeFree a n m false hn
  unfold storeData storeNext
  refine ⟨?_, ?_, ?_, ?_⟩ <;> dsimp only
  · rw [read32_write32_of_ne _ _ (by omega), read32_write32_of_ne _ _ (by omega), hsize]
  · exact (overwrite_of_out _ _ (by omega)).trans ((overwrite_of_out _ _ (by omega)).trans hfree)
  · rw [read32_write32 _ _ (by decide)]
  · rw [read32_write32_of_ne _ _ (by omega), read32_write32 _ _ hd]

end headers

/-! ## New blocks -/

variable {ok : Nat → Bool} {s : State} {b : HeapBlock} {n : Nat}

/-- The two calls of `kbrk` for a block of `n` bytes. -/
theorem carve_cases (ok : Nat → Bool) (hc : Consistent s.brk) (h0 : 0 < n)
    (hn : n < 0x80000000) (hr : n ≤ 0x7FFFF000 + headerRoom s.brk) :
    (∃ brk, kbrk ok s.brk headerSize = (0, brk) ∧ Reserves s.brk brk) ∨
    ∃ brk d brk', kbrk ok s.brk headerSize = (top s, brk) ∧ top s ≠ 0 ∧
      kbrk ok brk n = (d, brk') ∧ Reserves s.brk brk' ∧
      top s + headerSize ≤ s.brk.heapStart + brk'.totalUsedSize ∧
      (d ≠ 0 → d = top s + headerSize ∧ d + n = s.brk.heapStart + brk'.totalUsedSize) := by
  obtain ⟨brk, hres, h1⟩ := kbrk_spec ok (n := headerSize) hc (by decide) (by decide)
    (by unfold headerSize; omega)
  rcases h1 with h1 | ⟨h1, hne, hused, hroom, hgrow⟩
  · exact .inl ⟨brk, h1, hres⟩
  · have hle := headerRoom_le hc hroom hgrow
    obtain ⟨brk', hres', h2⟩ := kbrk_spec ok hres.consistent h0 hn (by omega)
    have hused' := hres'.used
    have hstart := hres.start
    unfold top
    rcases h2 with h2 | ⟨h2, hne', hused2, -, -⟩
    · exact .inr ⟨brk, 0, brk', h1, hne, h2, hres.trans hres', by omega,
        fun h => absurd rfl h⟩
    · exact .inr ⟨brk, _, brk', h1, hne, h2, hres.trans hres', by omega,
        fun _ => ⟨by omega, by omega⟩⟩

/-- A header that could not be used. -/
theorem sound_lost (h : Sound s) {brk : Break} {mem : Nat → UInt8} {a : Nat}
    (hr : Reserves s.brk brk) (ha : top s ≤ a)
    (hhigh : a + headerSize ≤ s.brk.heapStart + brk.totalUsedSize)
    (hm : ∀ x, x < a ∨ a + headerSize ≤ x → mem x = s.mem x) :
    Sound { s with brk := brk, mem := mem, lost := a :: s.lost } := by
  have htop : top s ≤ s.brk.heapStart + brk.totalUsedSize := Nat.add_le_add_left hr.used _
  have hstart := hr.start
  refine ⟨hr.consistent, h.order, fun b hb => ?_, fun x hx => ?_, h.chain.congr fun b hb x hx => ?_⟩
  · change Placed brk.heapStart (brk.heapStart + brk.totalUsedSize) b
    rw [hstart]
    exact (h.placed b hb).mono htop
  · change brk.heapStart ≤ x ∧ x + headerSize ≤ brk.heapStart + brk.totalUsedSize ∧ _
    rw [hstart]
    rcases List.mem_cons.mp hx with rfl | hx
    · refine ⟨?_, hhigh, fun b hb => .inr (Nat.le_trans (h.placed b hb).high ha)⟩
      unfold top at ha
      omega
    · obtain ⟨h1, h2, h3⟩ := h.lost x hx
      exact ⟨h1, Nat.le_trans h2 htop, h3⟩
  · have h1 := (h.placed b hb).header_le
    have h2 := (h.placed b hb).high
    unfold Block.Has header at hx
    dsimp only at hx
    exact hm x (.inl (by omega))

/-- A block behind all others. -/
theorem sound_append (h : Sound s) {brk : Break} {mem : Nat → UInt8} {head : Nat}
    (hr : Reserves s.brk brk) (ha : top s ≤ b.addr)
    (hhigh : stop b ≤ s.brk.heapStart + brk.totalUsedSize) (hpos : 0 < b.size)
    (hint : b.size < 0x80000000) (hdata : b.data ≠ 0 → b.addr + headerSize ≤ b.data)
    (hfree : b.isFree = false) (hc : Chain mem head (s.blocks ++ [b])) :
    Sound { s with brk := brk, mem := mem, head := head, blocks := s.blocks ++ [b] } := by
  have htop : top s ≤ s.brk.heapStart + brk.totalUsedSize := Nat.add_le_add_left hr.used _
  have hstart := hr.start
  refine ⟨hr.consistent, ?_, fun c hc' => ?_, fun x hx => ?_, hc⟩
  · refine List.pairwise_append.mpr ⟨h.order, List.pairwise_singleton _ _, fun c hc' d hd => ?_⟩
    rw [List.mem_singleton.mp hd]
    exact Nat.le_trans (h.placed c hc').high ha
  · change Placed brk.heapStart (brk.heapStart + brk.totalUsedSize) c
    rw [hstart]
    rcases List.mem_append.mp hc' with hc' | hc'
    · exact (h.placed c hc').mono htop
    · rw [List.mem_singleton.mp hc']
      refine ⟨?_, hhigh, hpos, hint, hdata, fun _ => hfree⟩
      unfold top at ha
      omega
  · obtain ⟨h1, h2, h3⟩ := h.lost x hx
    change brk.heapStart ≤ x ∧ x + headerSize ≤ brk.heapStart + brk.totalUsedSize ∧ _
    rw [hstart]
    refine ⟨h1, Nat.le_trans h2 htop, fun c hc' => ?_⟩
    rcases List.mem_append.mp hc' with hc' | hc'
    · exact h3 c hc'
    · rw [List.mem_singleton.mp hc']
      exact .inl (Nat.le_trans h2 ha)

/-! ## `kmalloc` -/

/-- What `kmalloc` does: `r` is the address that it returns, and the heap after it. -/
structure Allocates (s : State) (size : Int) (r : Nat × State) : Prop where
  sound : Sound r.2
  start : r.2.brk.heapStart = s.brk.heapStart
  kept : ∀ c ∈ s.blocks, c.isFree = false → c ∈ r.2.blocks
  taken : ∀ c ∈ r.2.blocks, c.isFree = false → c ∈ s.blocks ∨ c.data = r.1
  mem : ∀ x, (∀ a, IsHeader r.2 a → ¬ (header a).Has x) → r.2.mem x = s.mem x
  block : r.1 ≠ 0 → ∃ b ∈ r.2.blocks, b.data = r.1 ∧ b.isFree = false ∧ size ≤ b.size ∧
    ∀ c ∈ s.blocks, c.isFree = false → c.data ≠ r.1

/-- The heap after a call of `kbrk` that is not used. -/
theorem sound_reserves (h : Sound s) {brk : Break} (hr : Reserves s.brk brk) :
    Sound { s with brk := brk } := by
  have htop : top s ≤ s.brk.heapStart + brk.totalUsedSize := Nat.add_le_add_left hr.used _
  have hstart := hr.start
  refine ⟨hr.consistent, h.order, fun b hb => ?_, fun x hx => ?_, h.chain⟩
  · change Placed brk.heapStart (brk.heapStart + brk.totalUsedSize) b
    rw [hstart]
    exact (h.placed b hb).mono htop
  · obtain ⟨h1, h2, h3⟩ := h.lost x hx
    change brk.heapStart ≤ x ∧ x + headerSize ≤ brk.heapStart + brk.totalUsedSize ∧ _
    rw [hstart]
    exact ⟨h1, Nat.le_trans h2 htop, h3⟩

/-- A call that returns `NULL` and adds no block. -/
theorem allocates_null {s' : State} {size : Int} (hs : Sound s')
    (hstart : s'.brk.heapStart = s.brk.heapStart) (hblocks : s'.blocks = s.blocks)
    (hm : ∀ x, (∀ a, IsHeader s' a → ¬ (header a).Has x) → s'.mem x = s.mem x) :
    Allocates s size (0, s') :=
  ⟨hs, hstart, fun _ hc _ => by rw [hblocks]; exact hc,
    fun _ hc _ => .inl (by rw [hblocks] at hc; exact hc), hm, fun h => absurd rfl h⟩

/-- A call that adds a block behind all others. -/
theorem allocates_append {s' : State} {size d : Nat} (hs : Sound s')
    (hstart : s'.brk.heapStart = s.brk.heapStart)
    (hblocks : s'.blocks = s.blocks ++ [⟨top s, size, false, d⟩])
    (hm : ∀ x, (∀ a, IsHeader s' a → ¬ (header a).Has x) → s'.mem x = s.mem x)
    (hsound : Sound s) : Allocates s size (d, s') := by
  have hlast : (⟨top s, size, false, d⟩ : HeapBlock) ∈ s'.blocks := by
    rw [hblocks]
    exact List.mem_append_right _ (List.mem_singleton_self _)
  refine ⟨hs, hstart, fun c hc _ => ?_, fun c hc _ => ?_, hm,
    fun h0 => ⟨_, hlast, rfl, rfl, Int.le_refl _, fun c hc _ he => ?_⟩⟩
  · rw [hblocks]
    exact List.mem_append_left _ hc
  · rw [hblocks] at hc
    rcases List.mem_append.mp hc with hc | hc
    · exact .inl hc
    · rw [List.mem_singleton.mp hc]
      exact .inr rfl
  · have hc' : c ∈ s'.blocks := by
      rw [hblocks]
      exact List.mem_append_left _ hc
    have heq := hs.eq_of_data hc' hlast (by rw [he]; exact h0) he
    have hhigh := (hsound.placed c hc).high
    have hheader := (hsound.placed c hc).header_le
    rw [heq] at hhigh hheader
    unfold headerSize at hheader
    dsimp only at hheader
    omega

/-- `worst_fit` finds a free block that is large enough. -/
theorem worstFit_some {size : Int} (hs : Sound s) (h : worstFit s size = some b) :
    b ∈ s.blocks ∧ b.isFree = true ∧ b.data ≠ 0 ∧ size ≤ b.size := by
  have hb := List.mem_of_find?_eq_some h
  have hp := hs.placed b hb
  have hprop : b.isFree = true ∧ size ≤ int32 b.size := by simpa using List.find?_some h
  rw [int32, if_pos hp.int] at hprop
  refine ⟨hb, hprop.1, fun h0 => ?_, hprop.2⟩
  rw [hp.null h0] at hprop
  exact Bool.noConfusion hprop.1

/-- A block of the list after the mark of `b` changed. -/
theorem mem_setFree {isFree : Bool} {c : HeapBlock} (hs : Sound s) (hb : b ∈ s.blocks) :
    c ∈ (setFree s b.addr isFree).blocks ↔
      c = { b with isFree := isFree } ∨ c ∈ s.blocks ∧ c ≠ b := by
  unfold setFree
  rw [List.mem_map]
  constructor
  · rintro ⟨e, he, rfl⟩
    by_cases heq : e.addr = b.addr
    · rw [if_pos heq, hs.eq_of_addr he hb heq]
      exact .inl rfl
    · rw [if_neg heq]
      exact .inr ⟨he, fun h => heq (by rw [h])⟩
  · rintro (rfl | ⟨hc, hne⟩)
    · exact ⟨b, hb, if_pos rfl⟩
    · exact ⟨c, hc, if_neg fun he => hne (hs.eq_of_addr hc hb he)⟩

/-- `kmalloc` takes a free block. -/
theorem allocates_worst {size : Int} (hs : Sound s) (h : worstFit s size = some b) :
    Allocates s size (b.data, setFree s b.addr false) := by
  obtain ⟨hb, hfree, h0, hsize⟩ := worstFit_some hs h
  have hne : ∀ c ∈ s.blocks, c.isFree = false → c ≠ b := by
    rintro c - hc rfl
    exact Bool.noConfusion (hc.symm.trans hfree)
  have hmem : { b with isFree := false } ∈ (setFree s b.addr false).blocks :=
    (mem_setFree hs hb).mpr (.inl rfl)
  refine ⟨sound_setFree hs hb fun h => Bool.noConfusion h, rfl, fun c hc hcf => ?_,
    fun c hc _ => ?_, fun x hx => ?_, fun _ => ⟨_, hmem, rfl, rfl, hsize, fun c hc hcf he => ?_⟩⟩
  · exact (mem_setFree hs hb).mpr (.inr ⟨hc, hne c hc hcf⟩)
  · rcases (mem_setFree hs hb).mp hc with rfl | ⟨hc, -⟩
    · exact .inr rfl
    · exact .inl hc
  · exact storeFree_of_out _ _ (not_has_header (hx b.addr (.inr ⟨_, hmem, rfl⟩)))
  · exact hne c hc hcf (hs.eq_of_data hc hb (by rw [he]; exact h0) he)

theorem data_lt {brk : Break} {a d : Nat} (hr : Reserves s.brk brk)
    (hd : d ≠ 0 → d = a ∧ d + n = s.brk.heapStart + brk.totalUsedSize) : d < 2 ^ 32 := by
  have h1 := hr.consistent.used
  have h2 := hr.consistent.heapEnd
  have h3 := hr.consistent.brk
  have h4 := hr.consistent.word
  have h5 := hr.start
  by_cases hd0 : d = 0
  · omega
  · have := (hd hd0).2
    omega

theorem stop_new {brk : Break} {d : Nat}
    (hhigh : top s + headerSize ≤ s.brk.heapStart + brk.totalUsedSize)
    (hdata : d ≠ 0 → d = top s + headerSize ∧ d + n = s.brk.heapStart + brk.totalUsedSize) :
    stop ⟨top s, n, false, d⟩ ≤ s.brk.heapStart + brk.totalUsedSize := by
  unfold stop
  split
  · exact hhigh
  · rename_i h
    exact Nat.le_of_eq (hdata h).2

/-- The branch for the first block. -/
theorem firstBlock_spec (hs : Sound s) (hempty : s.blocks = []) (h0 : 0 < n) (hn : n < 0x80000000)
    (hr : n ≤ 0x7FFFF000 + headerRoom s.brk) : Allocates s n (firstBlock ok s n) := by
  unfold firstBlock
  dsimp only
  rcases carve_cases ok hs.consistent h0 hn hr with
    ⟨brk, he, hres⟩ | ⟨brk, d, brk', he, hne, hd, hres, hhigh, hdata⟩
  · rw [he, if_pos rfl]
    have hsound := sound_reserves hs hres
    have hchain : Chain s.mem 0 s.blocks := by rw [hempty]; rfl
    exact allocates_null
      ⟨hsound.consistent, hsound.order, hsound.placed, hsound.lost, hchain⟩ hres.start rfl
      fun _ _ => rfl
  · rw [he]
    dsimp only
    rw [if_neg hne, hd, Int.toNat_natCast]
    dsimp only
    have hchain : Chain (storeData (storeNext (storeSize (storeFree s.mem (top s) false) (top s) n)
        (top s) 0) (top s) d) (top s) (s.blocks ++ [⟨top s, n, false, d⟩]) := by
      rw [hempty]
      exact ⟨rfl, hne, 0, encodes_first s.mem (by omega) (data_lt hres hdata), rfl⟩
    have hsound := sound_append hs hres (Nat.le_refl _) (stop_new hhigh hdata) h0 hn
      (fun h => Nat.le_of_eq (hdata h).1.symm) rfl hchain
    rw [hempty] at hsound
    refine allocates_append hsound hres.start (by rw [hempty]; rfl) (fun x hx => ?_) hs
    have hout := not_has_header (hx (top s) (.inr ⟨_, List.mem_singleton_self _, rfl⟩))
    exact (storeData_of_out _ _ hout).trans ((storeNext_of_out _ _ hout).trans
      ((storeSize_of_out _ _ hout).trans (storeFree_of_out _ _ hout)))

/-- The list in memory after `allocate_new_block`. -/
theorem chain_new {bs : List HeapBlock} {l : HeapBlock} {d : Nat} (hs : Sound s)
    (hblocks : s.blocks = bs ++ [l]) (hne : top s ≠ 0) (hn : n < 2 ^ 32) (hd : d < 2 ^ 32) :
    Chain (storeNext (storeNext (storeData (storeSize (storeFree s.mem (top s) false) (top s) n)
      (top s) d) (top s) 0) l.addr (top s)) s.head (s.blocks ++ [⟨top s, n, false, d⟩]) := by
  have hl : l ∈ s.blocks := by
    rw [hblocks]
    exact List.mem_append_right _ (List.mem_singleton_self _)
  have hle := (hs.placed l hl).header_le
  have hhigh := (hs.placed l hl).high
  have htop := hs.top_lt
  have hbelow : ∀ x, x < top s →
      storeNext (storeData (storeSize (storeFree s.mem (top s) false) (top s) n) (top s) d) (top s) 0
        x = s.mem x := fun x hx =>
    (storeNext_of_out _ _ (.inl hx)).trans ((storeData_of_out _ _ (.inl hx)).trans
      ((storeSize_of_out _ _ (.inl hx)).trans (storeFree_of_out _ _ (.inl hx))))
  have hchain := hs.chain
  rw [hblocks] at hchain ⊢
  refine hchain.append (fun b hb x hx => ?_) (fun next he => ?_) hne ?_
  · have hb' : b ∈ s.blocks := by
      rw [hblocks]
      exact List.mem_append_left _ hb
    have hbl : stop b ≤ l.addr := by
      have hord := hs.order
      rw [hblocks] at hord
      exact (List.pairwise_append.mp hord).2.2 b hb l (List.mem_singleton_self _)
    have hb1 := (hs.placed b hb').header_le
    unfold Block.Has header at hx
    dsimp only at hx
    exact (storeNext_of_out _ _ (.inl (by omega))).trans (hbelow x (by omega))
  · have hlx : Encodes _ l next := he.congr fun x hx => by
      unfold Block.Has header at hx
      dsimp only at hx
      exact hbelow x (by omega)
    exact hlx.storeNext (by omega)
  · refine (encodes_new s.mem hn hd).congr fun x hx => storeNext_of_out _ _ (.inr ?_)
    unfold Block.Has header at hx
    dsimp only at hx
    omega

/-- `allocate_new_block`, called with the last block of the list. -/
theorem allocateNewBlock_spec {bs : List HeapBlock} {l : HeapBlock} (hs : Sound s)
    (hblocks : s.blocks = bs ++ [l]) (h0 : 0 < n) (hn : n < 0x80000000)
    (hr : n ≤ 0x7FFFF000 + headerRoom s.brk) :
    Allocates s n (allocateNewBlock ok s l.addr n) := by
  unfold allocateNewBlock
  dsimp only
  rcases carve_cases ok hs.consistent h0 hn hr with
    ⟨brk, he, hres⟩ | ⟨brk, d, brk', he, hne, hd, hres, hhigh, hdata⟩
  · rw [he, if_pos rfl]
    exact allocates_null (sound_reserves hs hres) hres.start rfl fun _ _ => rfl
  · rw [he]
    dsimp only
    rw [if_neg hne, hd, Int.toNat_natCast]
    dsimp only
    by_cases hd0 : d = 0
    · rw [if_pos hd0]
      have hout : ∀ x, x < top s ∨ top s + headerSize ≤ x →
          storeData (storeSize (storeFree s.mem (top s) false) (top s) n) (top s) d x = s.mem x :=
        fun x hx => (storeData_of_out _ _ hx).trans
          ((storeSize_of_out _ _ hx).trans (storeFree_of_out _ _ hx))
      refine allocates_null (sound_lost hs hres (Nat.le_refl _) hhigh hout) hres.start rfl
        fun x hx => hout x (not_has_header (hx (top s) (.inl List.mem_cons_self)))
    · rw [if_neg hd0]
      have hsound := sound_append hs hres (Nat.le_refl _) (stop_new hhigh hdata) h0 hn
        (fun h => Nat.le_of_eq (hdata h).1.symm) rfl
        (chain_new (d := d) hs hblocks hne (by omega) (data_lt hres hdata))
      refine allocates_append hsound hres.start rfl (fun x hx => ?_) hs
      have hl : l ∈ s.blocks := by
        rw [hblocks]
        exact List.mem_append_right _ (List.mem_singleton_self _)
      have hout := not_has_header (hx (top s)
        (.inr ⟨_, List.mem_append_right _ (List.mem_singleton_self _), rfl⟩))
      have houtl := not_has_header (hx l.addr (.inr ⟨l, List.mem_append_left _ hl, rfl⟩))
      exact (storeNext_of_out _ _ houtl).trans ((storeNext_of_out _ _ hout).trans
        ((storeData_of_out _ _ hout).trans
          ((storeSize_of_out _ _ hout).trans (storeFree_of_out _ _ hout))))

/-- The request does not make the page rounding of `kbrk` overflow an `int`. -/
def Fits (s : State) (size : Int) : Prop := size < 0x80000000 ∧ size ≤ 0x7FFFF000 + headerRoom s.brk

instance (s : State) (size : Int) : Decidable (Fits s size) := inferInstanceAs (Decidable (_ ∧ _))

theorem kmalloc_spec {size : Int} (hs : Sound s) (hf : Fits s size) :
    Allocates s size (kmalloc ok s size) := by
  unfold kmalloc
  by_cases hpos : size ≤ 0
  · rw [if_pos hpos]
    exact allocates_null hs rfl rfl fun _ _ => rfl
  rw [if_neg hpos]
  obtain ⟨n, rfl⟩ : ∃ n : Nat, size = n := ⟨size.toNat, by omega⟩
  obtain ⟨hn, hr⟩ := hf
  cases hlast : s.blocks.getLast? with
  | none =>
    exact firstBlock_spec hs (List.getLast?_eq_none_iff.mp hlast) (by omega) (by omega) (by omega)
  | some l =>
    obtain ⟨bs, hblocks⟩ := List.getLast?_eq_some_iff.mp hlast
    dsimp only
    cases hw : worstFit s n with
    | none => exact allocateNewBlock_spec hs hblocks (by omega) (by omega) (by omega)
    | some b => exact allocates_worst hs hw

theorem kmalloc_nonpos {size : Int} (h : size ≤ 0) : kmalloc ok s size = (0, s) := if_pos h

end UserHeap
end Hashx86
