import Hashx86.Tlsf.Alloc

/-!
# The kernel heap (`core/memory.cpp`)

* `tlsfAddPool_sound`: a pool starts as one free block.
* `kheapInit_spec`: when `kheap_init` succeeds, and the heap then.
* `walkPool_spec`, `totals_spec`: the walk over the pool reports each block once.
-/

namespace Hashx86

open Lib

namespace Tlsf

/-- `kheap_init` at boot, while `g_tlsf` is `NULL`; `none` is `-1`. -/
def kheapInit (mem : Nat → UInt8) (startAddr endAddr : Nat) : Option State :=
  if endAddr < startAddr then none
  else
    let poolSize := endAddr - startAddr
    if poolSize < tlsfSize + tlsfPoolOverhead then none
    else
      let poolBytes := (poolSize - tlsfSize - tlsfPoolOverhead) / alignSize * alignSize
      if poolBytes < blockSizeMin then none
      else if startAddr % alignSize ≠ 0 then none
      else
        let s := tlsfCreateWithPool mem startAddr poolSize
        let probe := tlsfMalloc s blockSizeMin
        if probe.1 = 0 then none else some (tlsfFree probe.2 probe.1)

def kmalloc (s : State) (size : Nat) : Nat × State :=
  if size = 0 ∨ 0x7FFFFFFF < size then (0, s) else tlsfMalloc s size

/-- `tlsf_request_valid`. -/
def tlsfRequestValid (size extra : Nat) : Bool :=
  if size = 0 then true
  else if blockSizeMax < size then false
  else if extra = 0 then true
  else if blockSizeMax < extra then false
  else
    let padded := (size + extra + (blockSizeMin + blockHeaderOverhead)) % 2 ^ 32
    if padded < size then false else alignUp padded extra < blockSizeMax

/-- `aligned_kmalloc`. -/
def alignedKmalloc (s : State) (size alignment : Nat) : Nat × State :=
  if alignment = 0 ∨ alignment &&& (alignment - 1) ≠ 0 then (0, s)
  else if tlsfRequestValid size alignment then tlsfMemalign s alignment size
  else (0, s)

def kcalloc (s : State) (n size : Int) : Nat × State :=
  if n ≤ 0 ∨ size ≤ 0 then (0, s)
  else
    let total := n.toNat * size.toNat % 2 ^ 32
    if total / size.toNat ≠ n.toNat then (0, s)
    else if 0x7FFFFFFF < total then (0, s)
    else
      let r := tlsfMalloc s total
      if r.1 = 0 then r else (r.1, { r.2 with mem := overwrite r.2.mem r.1 total fun _ => 0 })

def krealloc (s : State) (ptr size : Nat) : Nat × State :=
  if tlsfRequestValid size 0 then tlsfRealloc s ptr size else (0, s)

def kfree (s : State) (addr : Nat) : State := if addr = 0 then s else tlsfFree s addr

/-- `tlsf_walk_pool` from a block on: the pointer and the size of each block, and whether it is in use. -/
def walkPool (mem : Nat → UInt8) : Nat → Nat → Option (List (Nat × Nat × Bool))
  | 0, _ => none
  | fuel + 1, block =>
    if block = 0 ∨ blockIsLast mem block then some []
    else (walkPool mem fuel (blockNext mem block)).map
      ((blockToPtr block, blockSize mem block, !blockIsFree mem block) :: ·)

structure HeapTotals where
  used : Nat
  free : Nat
  largestFree : Nat

def tallyBlock (t : HeapTotals) (b : Nat × Nat × Bool) : HeapTotals :=
  if b.2.2 then { t with used := t.used + b.2.1 }
  else { t with
    free := t.free + b.2.1
    largestFree := if t.largestFree < b.2.1 then b.2.1 else t.largestFree }

/-- `heapTotalsLocked`, where `g_tlsf` is `tlsf`. -/
def heapTotals (mem : Nat → UInt8) (tlsf fuel : Nat) : Option HeapTotals :=
  (walkPool mem fuel (tlsf + tlsfSize - blockHeaderOverhead)).map (·.foldl tallyBlock ⟨0, 0, 0⟩)

variable {mem : Nat → UInt8} {startAddr endAddr bytes size : Nat} {s : State}

/-! ## Boot -/

theorem controlConstruct_index {control : Nat} (h : control < 2 ^ 32) :
    Index (controlConstruct mem control) (fun _ _ => []) fun _ => False where
  linked _ _ := rfl
  nodup _ _ := .nil
  mem_iff _ _ _ := ⟨fun ha => absurd ha List.not_mem_nil, fun ⟨_, hc, _⟩ => hc.elim⟩
  slBit _ sl _ := by simp [controlConstruct]
  flBit fl _ := by simp [controlConstruct]
  apart _ _ hc := hc.elim
  above _ hc := hc.elim
  addr _ hc := hc.elim
  control := h
  sized _ hc := hc.elim

/-- A size field that says nothing yet. -/
theorem exists_low (mem : Nat → UInt8) (b : Nat) :
    ∃ f q : Bool, sizeField mem b % 4 = f.toNat + 2 * q.toNat := exists_flags (Nat.mod_lt _ (by decide))

/-- The first header of a pool. -/
theorem firstHeader (mem : Nat → UInt8) (b : Nat) (h4 : size % 4 = 0) (h30 : size < 2 ^ 30) :
    sizeField (blockSetPrevUsed (blockSetFree (blockSetSize mem b size) b) b) b = word size true false := by
  obtain ⟨f, q, hlow⟩ := exists_low mem b
  exact setPrevUsed_word (setFree_word (setSize_word hlow h4 h30) h4 h30) h4 h30

/-- The mark at the end of a pool. -/
theorem lastHeader (mem : Nat → UInt8) (b : Nat) :
    sizeField (blockSetPrevFree (blockSetUsed (blockSetSize mem b 0) b) b) b = word 0 false true := by
  obtain ⟨f, q, hlow⟩ := exists_low mem b
  have h30 : 0 < 2 ^ 30 := Nat.two_pow_pos 30
  exact setPrevFree_word (setUsed_word (setSize_word hlow rfl h30) rfl h30) rfl h30

/-- The pool that `tlsf_add_pool` makes. -/
def poolBytes (bytes : Nat) : Nat := (bytes - tlsfPoolOverhead) / alignSize * alignSize

/-- The end of `tlsf_add_pool`: the mark behind the block `b`. -/
def markEnd (mem : Nat → UInt8) (b next : Nat) : Nat → UInt8 :=
  blockSetPrevFree (blockSetUsed (blockSetSize (setPrevPhysBlock mem next b) next 0) next) next

theorem markEnd_of_out {b next x : Nat} (h : x < next ∨ next + 8 ≤ x) : markEnd mem b next x = mem x := by
  unfold markEnd blockSetPrevFree blockSetUsed blockSetSize
  rw [setSizeField_of_out (by omega), setSizeField_of_out (by omega), setSizeField_of_out (by omega),
    setPrevPhysBlock_of_out (by omega)]

theorem prevPhysBlock_markEnd {b next : Nat} (h : b < 2 ^ 32) :
    prevPhysBlock (markEnd mem b next) next = b := by
  unfold markEnd blockSetPrevFree blockSetUsed blockSetSize
  rw [prevPhysBlock_setSizeField (.inl (Nat.le_refl _)), prevPhysBlock_setSizeField (.inl (Nat.le_refl _)),
    prevPhysBlock_setSizeField (.inl (Nat.le_refl _)), prevPhysBlock_setPrevPhysBlock h]

theorem tlsfAddPool_eq {start : Nat} (h4 : start % 4 = 0) (hmin : 12 ≤ poolBytes bytes)
    (hmax : poolBytes bytes < 2 ^ 30) : tlsfAddPool s start bytes =
      let t := blockInsert { s with mem := blockSetPrevUsed (blockSetFree (blockSetSize s.mem (start - 4)
        (poolBytes bytes)) (start - 4)) (start - 4) } (start - 4)
      (start, { t with mem := markEnd t.mem (start - 4) (blockNext t.mem (start - 4)) }) := by
  have hfits : ¬ (poolBytes bytes < blockSizeMin ∨ blockSizeMax < poolBytes bytes) := by
    unfold blockSizeMin blockSizeMax
    omega
  unfold poolBytes at hfits
  unfold tlsfAddPool
  dsimp only
  have haligned : ¬ start % alignSize ≠ 0 := not_not.mpr h4
  rw [if_neg haligned, if_neg hfits]
  rfl

/-- A pool starts as one free block. -/
theorem tlsfAddPool_sound {control start : Nat} (h4 : start % 4 = 0) (habove : control + 20 ≤ start)
    (hmin : 12 ≤ poolBytes bytes) (hmax : poolBytes bytes + 4 < 2 ^ 30)
    (hword : start + poolBytes bytes + 8 ≤ 2 ^ 32) :
    Sound (tlsfAddPool (controlConstruct mem control) start bytes).2 (start - 4)
      [⟨start - 4, poolBytes bytes, true⟩] (start + poolBytes bytes) := by
  have hb4 : poolBytes bytes % 4 = 0 := Nat.mul_mod_left _ _
  rw [tlsfAddPool_eq h4 hmin (by omega)]
  generalize poolBytes bytes = size at *
  obtain ⟨b, rfl⟩ : ∃ b, start = b + 4 := ⟨start - 4, by omega⟩
  rw [Nat.add_sub_cancel]
  have h30 : size < 2 ^ 30 := by omega
  have hsized : (⟨b, size, true⟩ : Cell).Sized := ⟨hmin, h30, hb4⟩
  have hfirst := firstHeader (controlConstruct mem control).mem b hb4 h30
  have hsize : blockSize (blockSetPrevUsed (blockSetFree (blockSetSize (controlConstruct mem control).mem b
      size) b) b) b = size := blockSize_of_word hfirst hb4 h30
  have hindex : Index { controlConstruct mem control with mem := blockSetPrevUsed (blockSetFree
      (blockSetSize (controlConstruct mem control).mem b size) b) b } (fun _ _ => []) fun _ => False := by
    refine (controlConstruct_index (by omega)).congr_mem fun y hy x h1 h2 => ?_
    have hy : y = control := hy.resolve_right fun ⟨_, hc, _⟩ => hc
    unfold blockSetPrevUsed blockSetFree blockSetSize
    rw [setSizeField_of_out (by omega), setSizeField_of_out (by omega), setSizeField_of_out (by omega)]
  generalize blockSetPrevUsed (blockSetFree (blockSetSize (controlConstruct mem control).mem b size) b) b =
    m at *
  obtain ⟨⟨lists, hins⟩, hlinks, hcontrol⟩ := hindex.insert hsized
    (Prod.mk.eta (p := mappingInsert size)).symm (fun _ hd => hd.elim)
    (by change control + 16 ≤ b; omega) (by dsimp only; omega)
  unfold blockInsert
  dsimp only at hlinks hcontrol hins ⊢
  rw [hsize]
  generalize insertFreeBlock { controlConstruct mem control with mem := m } b (mappingInsert size).1
    (mappingInsert size).2 = t at *
  have hc : (controlConstruct mem control).control = control := rfl
  rw [hc] at hlinks hcontrol
  have hnode : ∀ y, Node control (fun d => False ∨ d = (⟨b, size, true⟩ : Cell)) y → y = control ∨ y = b := by
    rintro y (rfl | ⟨d, hd | rfl, rfl⟩)
    · exact .inl rfl
    · exact hd.elim
    · exact .inr rfl
  have hword' : sizeField t.mem b = word size true false := by
    rw [← hfirst]
    refine read32_congr fun x h1 h2 => hlinks x fun y hy => ?_
    rcases hnode y hy with rfl | rfl <;> omega
  have hnext : blockNext t.mem b = b + size + 4 := by
    unfold blockNext
    rw [blockSize_of_word hword' hb4 h30]
    unfold blockToPtr blockStartOffset blockHeaderOverhead
    omega
  rw [hnext]
  have hstop : b + 4 + size = b + size + 4 := by omega
  rw [hstop]
  have hout : ∀ x, x < b + size + 4 → markEnd t.mem b (b + size + 4) x = t.mem x := fun x hx =>
    markEnd_of_out (.inl hx)
  refine ⟨⟨⟨⟨rfl, rfl⟩, fun c hc => ?_, ⟨⟨?_, fun _ => ?_⟩, ⟨⟨?_, fun hf => ?_⟩, trivial⟩⟩, ?_, ?_⟩,
    ⟨lists, (hins.congr_mem fun y hy x h1 h2 => hout x ?_).congr fun d => ?_⟩, fun d hd => hd, ?_⟩,
    fun hm => Bool.noConfusion hm.1, trivial⟩
  · rw [List.mem_singleton.mp hc]
    exact hsized
  · rw [← hword']
    exact read32_congr fun x h1 h2 => hout x (by dsimp only at h2; omega)
  · exact prevPhysBlock_markEnd (by omega)
  · exact lastHeader _ _
  · exact Bool.noConfusion hf
  · omega
  · omega
  · rw [hcontrol] at hy
    rcases hnode y hy with rfl | rfl <;> omega
  · constructor
    · rintro (hd | rfl)
      · exact hd.elim
      · exact ⟨List.mem_cons_self, rfl⟩
    · exact fun hd => .inr (List.mem_singleton.mp hd.1)
  · dsimp only
    rw [hcontrol]
    omega

/-- The block that `kheap_init` takes and gives back. -/
theorem probe_spec {b stop : Nat} (h : Sound s b [⟨b, size, true⟩] stop) :
    (tlsfMalloc s blockSizeMin).1 ≠ 0 ∧
      Sound (tlsfFree (tlsfMalloc s blockSizeMin).2 (tlsfMalloc s blockSizeMin).1) b [⟨b, size, true⟩]
        stop := by
  have hmin : 12 ≤ size := (h.work.pool.sized _ List.mem_cons_self).min
  have hend : b + size + 4 = stop := h.work.pool.tiled.2
  have hsize : blockSizeMin < 2 ^ 31 := by decide
  rcases tlsfMalloc_spec h hsize with ⟨-, hroom⟩ | ⟨us, vs, d, body, hused, -, -, hg⟩
  · have hlt := hroom.resolve_left (by decide) _ List.mem_cons_self rfl
    have hlower : lower (mappingSearch (adjustRequestSize blockSizeMin alignSize)) = 12 := by decide
    rw [hlower] at hlt
    dsimp only at hlt
    omega
  · obtain ⟨rfl, rfl⟩ := List.append_eq_nil_iff.mp hused.symm
    have hd : d ∈ used body := by
      rw [hg.used]
      exact List.mem_cons_self
    obtain ⟨body', hsound, hmem, -⟩ := hg.sound.release hd
    have hnil : used body' = [] := List.eq_nil_iff_forall_not_mem.mpr fun e he => by
      obtain ⟨he, hne⟩ := (hmem e).mp he
      rw [hg.used] at he
      exact hne (List.mem_singleton.mp he)
    rw [hg.answer]
    refine ⟨Nat.succ_ne_zero _, ?_⟩
    have hone := hsound.all_free hnil (by omega)
    have hback : stop - b - 4 = size := by omega
    rw [hone, hback] at hsound
    exact hsound

/-- When `kheap_init` succeeds. -/
def Boots (startAddr endAddr : Nat) : Prop := startAddr % 4 = 0 ∧ startAddr + tlsfSize + 20 ≤ endAddr

instance (startAddr endAddr : Nat) : Decidable (Boots startAddr endAddr) := inferInstanceAs (Decidable (_ ∧ _))

/-- The heap after `kheap_init` is one free block. -/
theorem kheapInit_spec (mem : Nat → UInt8) (h30 : endAddr ≤ startAddr + 2 ^ 30) (h32 : endAddr ≤ 2 ^ 32) :
    ((kheapInit mem startAddr endAddr).isSome = true ↔ Boots startAddr endAddr) ∧
    ∀ s, kheapInit mem startAddr endAddr = some s → ∃ size, Sound s (startAddr + tlsfSize - 4)
      [⟨startAddr + tlsfSize - 4, size, true⟩] (startAddr + tlsfSize + size) ∧
      startAddr + tlsfSize + size + 8 ≤ endAddr ∧ endAddr < startAddr + tlsfSize + size + 12 := by
  have hcontrol : tlsfSize = 3188 := rfl
  have hover : tlsfPoolOverhead = 8 := rfl
  unfold kheapInit Boots
  dsimp only
  by_cases h1 : endAddr < startAddr
  · rw [if_pos h1]
    exact ⟨⟨fun h => Bool.noConfusion h, fun h => by omega⟩, fun s hs => absurd hs.symm (Option.some_ne_none s)⟩
  rw [if_neg h1]
  by_cases h2 : endAddr - startAddr < tlsfSize + tlsfPoolOverhead
  · rw [if_pos h2]
    exact ⟨⟨fun h => Bool.noConfusion h, fun h => by omega⟩, fun s hs => absurd hs.symm (Option.some_ne_none s)⟩
  rw [if_neg h2]
  change (Option.isSome (ite (poolBytes (endAddr - startAddr - tlsfSize) < blockSizeMin) _ _) = true ↔ _) ∧
    ∀ s, ite (poolBytes (endAddr - startAddr - tlsfSize) < blockSizeMin) _ _ = some s → _
  have hbytes : poolBytes (endAddr - startAddr - tlsfSize) =
      (endAddr - startAddr - tlsfSize - 8) / 4 * 4 := rfl
  by_cases h3 : poolBytes (endAddr - startAddr - tlsfSize) < blockSizeMin
  · rw [if_pos h3]
    unfold blockSizeMin at h3
    exact ⟨⟨fun h => Bool.noConfusion h, fun h => by omega⟩, fun s hs => absurd hs.symm (Option.some_ne_none s)⟩
  rw [if_neg h3]
  unfold blockSizeMin at h3
  by_cases h4 : startAddr % alignSize ≠ 0
  · rw [if_pos h4]
    exact ⟨⟨fun h => Bool.noConfusion h, fun h => absurd h.1 h4⟩, fun s hs => absurd hs.symm (Option.some_ne_none s)⟩
  rw [if_neg h4]
  have hmod : startAddr % 4 = 0 := not_not.mp h4
  have hpool : Sound (tlsfCreateWithPool mem startAddr (endAddr - startAddr)) (startAddr + tlsfSize - 4)
      [⟨startAddr + tlsfSize - 4, poolBytes (endAddr - startAddr - tlsfSize), true⟩]
      (startAddr + tlsfSize + poolBytes (endAddr - startAddr - tlsfSize)) :=
    tlsfAddPool_sound (by omega) (by omega) (by omega) (by omega) (by omega)
  obtain ⟨hprobe, hsound⟩ := probe_spec hpool
  rw [if_neg hprobe]
  refine ⟨⟨fun _ => ⟨hmod, by omega⟩, fun _ => rfl⟩, fun s hs => ⟨_, Option.some.inj hs ▸ hsound, ?_, ?_⟩⟩
  · omega
  · omega

/-! ## Totals -/

/-- What the walk reports of a block. -/
def Cell.report (c : Cell) : Nat × Nat × Bool := (c.payload, c.size, !c.free)

theorem walkPool_spec {b stop fuel : Nat} {prev : Bool} {cs : List Cell} (hb : b ≠ 0) (ht : Tiled b cs stop)
    (hs : ∀ c ∈ cs, c.Sized) (hc : Cells mem prev (cs ++ [last stop])) (hfuel : cs.length < fuel) :
    walkPool mem fuel b = some (cs.map Cell.report) := by
  induction cs generalizing b prev fuel with
  | nil =>
    obtain ⟨fuel, rfl⟩ := Nat.exists_eq_succ_of_ne_zero (Nat.ne_of_gt hfuel)
    obtain rfl : b = stop := ht
    have hsize : blockSize mem b = 0 := blockSize_of_word hc.1.size rfl (Nat.two_pow_pos 30)
    have hlast : blockIsLast mem b = true := by
      unfold blockIsLast
      rw [hsize]
      rfl
    exact if_pos (.inr hlast)
  | cons c cs ih =>
    obtain ⟨fuel, rfl⟩ := Nat.exists_eq_succ_of_ne_zero (Nat.ne_of_gt (Nat.lt_of_le_of_lt (Nat.zero_le _) hfuel))
    obtain ⟨rfl, ht⟩ := ht
    have hsized := hs c List.mem_cons_self
    have hmin := hsized.min
    have hsize : blockSize mem c.addr = c.size := blockSize_of_word hc.1.size hsized.words hsized.max
    have hfree : blockIsFree mem c.addr = c.free := blockIsFree_of_word hc.1.size hsized.words
    have hnext : blockNext mem c.addr = c.next := by
      unfold blockNext
      rw [hsize]
      unfold blockToPtr blockStartOffset blockHeaderOverhead Cell.next
      omega
    have hlast : ¬ (c.addr = 0 ∨ blockIsLast mem c.addr = true) := by
      rintro (h0 | hlast)
      · exact hb h0
      · unfold blockIsLast at hlast
        rw [hsize, beq_iff_eq] at hlast
        omega
    have hrest := ih (b := c.next) (by unfold Cell.next; omega) ht (fun d hd => hs d (List.mem_cons_of_mem _ hd))
      hc.2 (Nat.lt_of_succ_lt_succ hfuel)
    unfold walkPool
    rw [if_neg hlast, hnext, hrest, hsize, hfree]
    rfl

theorem tallyBlock_le {t : HeapTotals} (b : Nat × Nat × Bool) :
    t.largestFree ≤ (tallyBlock t b).largestFree ∧ (b.2.2 = false → b.2.1 ≤ (tallyBlock t b).largestFree) ∧
      (tallyBlock t b).used + (tallyBlock t b).free = t.used + t.free + b.2.1 ∧
      ((tallyBlock t b).largestFree = t.largestFree ∨
        b.2.2 = false ∧ (tallyBlock t b).largestFree = b.2.1) := by
  unfold tallyBlock
  cases hb : b.2.2 with
  | true =>
    rw [if_pos rfl]
    exact ⟨Nat.le_refl _, fun hf => Bool.noConfusion hf, Nat.add_right_comm _ _ _, .inl rfl⟩
  | false =>
    rw [if_neg Bool.false_ne_true]
    dsimp only
    split
    · exact ⟨by omega, fun _ => Nat.le_refl _, (Nat.add_assoc _ _ _).symm, .inr ⟨rfl, rfl⟩⟩
    · exact ⟨Nat.le_refl _, fun _ => by omega, (Nat.add_assoc _ _ _).symm, .inl rfl⟩

/-- The totals of a tiled pool: nothing is counted twice or left out. -/
theorem totals_spec {b stop : Nat} {cs : List Cell} (ht : Tiled b cs stop) (t : HeapTotals) :
    ((cs.map Cell.report).foldl tallyBlock t).used + ((cs.map Cell.report).foldl tallyBlock t).free +
        4 * cs.length + b = t.used + t.free + stop ∧
      t.largestFree ≤ ((cs.map Cell.report).foldl tallyBlock t).largestFree ∧
      (∀ c ∈ cs, c.free = true → c.size ≤ ((cs.map Cell.report).foldl tallyBlock t).largestFree) ∧
      (((cs.map Cell.report).foldl tallyBlock t).largestFree = t.largestFree ∨
        ∃ c ∈ cs, c.free = true ∧ c.size = ((cs.map Cell.report).foldl tallyBlock t).largestFree) := by
  induction cs generalizing b t with
  | nil =>
    have heq : b = stop := ht
    refine ⟨by rw [heq]; rfl, Nat.le_refl _, fun c hc => absurd hc List.not_mem_nil, .inl rfl⟩
  | cons c cs ih =>
    obtain ⟨rfl, ht⟩ := ht
    obtain ⟨h1, h2, h3, h4⟩ := tallyBlock_le (t := t) c.report
    obtain ⟨hsum, hle, hall, hex⟩ := ih ht (tallyBlock t c.report)
    rw [List.map_cons, List.foldl_cons]
    have hsize : c.report.2.1 = c.size := rfl
    unfold Cell.next at hsum
    refine ⟨?_, Nat.le_trans h1 hle, fun d hd hf => ?_, ?_⟩
    · rw [List.length_cons]
      omega
    · rcases List.mem_cons.mp hd with rfl | hd
      · refine Nat.le_trans (h2 ?_) hle
        change (!d.free) = false
        rw [hf]
        rfl
      · exact hall d hd hf
    · rcases hex with heq | ⟨d, hd, hf, heq⟩
      · rcases h4 with h4 | ⟨hf, h4⟩
        · exact .inl (heq.trans h4)
        · refine .inr ⟨c, List.mem_cons_self, ?_, (heq.trans h4).symm⟩
          unfold Cell.report at hf
          simpa using hf
      · exact .inr ⟨d, List.mem_cons_of_mem _ hd, hf, heq⟩

end Tlsf
end Hashx86
