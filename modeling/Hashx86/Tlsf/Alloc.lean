import Hashx86.Tlsf.Steps

/-!
# The calls of the allocator

* `tlsfMalloc_spec`, `tlsfMemalign_spec`: an answer that is not `0` is a block that was free and is
  large enough; the blocks in use stay as they are. An answer `0` changes nothing.
* `tlsfFree_spec`: the block is given back and merged with its free neighbours.
* `tlsfRealloc_spec`: the block gets another size, in place or by a move, and keeps its bytes.
-/

namespace Hashx86

open Lib

namespace Tlsf

/-- The call gives the block `d`; the blocks in use before it were `us ++ vs`. -/
structure Gives (s : State) (start : Nat) (us vs : List Cell) (stop : Nat) (d : Cell) (body : List Cell)
    (r : Nat × State) : Prop where
  answer : r.1 = d.payload
  inUse : d.free = false
  sound : Sound r.2 start body stop
  used : used body = us ++ d :: vs
  kept : Kept (us ++ vs) s.mem r.2.mem

variable {s : State} {mem : Nat → UInt8} {start stop size align : Nat} {c d w : Cell}
  {body pre post us vs : List Cell}

theorem Open.prepareUsed (h : Open s start pre w post stop) (h12 : 12 ≤ size) (h4 : size % 4 = 0)
    (hle : size ≤ w.size) (hpost : Merged true post) : ∃ d body, d.addr = w.addr ∧ size ≤ d.size ∧
      Gives s start (used pre) (used post) stop d body (blockPrepareUsed s (some w.addr) size) := by
  obtain ⟨w', post', hopen, haddr, hsize, hused, hk⟩ := h.trimFree h12 h4 hle hpost
  obtain ⟨hsound, hk'⟩ := hopen.markUsed
  rw [hused, haddr] at hk'
  rw [haddr] at hsound
  refine ⟨{ w' with free := false }, _, haddr, hsize, ?_, rfl, hsound, ?_, hk.trans hk'⟩
  · exact congrArg (· + 8) haddr.symm
  · rw [used_append, used_cons_used rfl, hused, haddr]

/-- The free blocks are too small for the class that is searched. -/
def NoRoom (body : List Cell) (size : Nat) : Prop :=
  size = 0 ∨ ∀ c ∈ body, c.free = true → c.size < lower (mappingSearch size)

theorem adjust_aligned (hsize : size < 2 ^ 31) (h0 : adjustRequestSize size alignSize ≠ 0) :
    0 < size ∧ size ≤ adjustRequestSize size alignSize ∧ adjustRequestSize size alignSize % 4 = 0 ∧
      12 ≤ adjustRequestSize size alignSize ∧ adjustRequestSize size alignSize < blockSizeMax :=
  adjustRequestSize_spec (k := 2) (by decide) (by decide) (by omega) h0

theorem tlsfMalloc_spec (h : Sound s start body stop) (hsize : size < 2 ^ 31) :
    (tlsfMalloc s size = (0, s) ∧ NoRoom body (adjustRequestSize size alignSize)) ∨
    ∃ us vs d body', used body = us ++ vs ∧ 0 < size ∧ size ≤ d.size ∧
      Gives s start us vs stop d body' (tlsfMalloc s size) := by
  unfold tlsfMalloc
  dsimp only
  by_cases h0 : adjustRequestSize size alignSize = 0
  · rw [h0]
    exact .inl ⟨rfl, .inl rfl⟩
  · obtain ⟨hpos, hle, h4, h12, -⟩ := adjust_aligned hsize h0
    generalize adjustRequestSize size alignSize = adjust at *
    rcases h.locate h0 h4 with ⟨hnone, hroom⟩ | ⟨pre, w, post, rfl, hsome, hw, hopen, -, hpost, hk⟩
    · rw [hnone]
      exact .inl ⟨rfl, .inr hroom⟩
    · rw [hsome]
      obtain ⟨d, body', haddr, hd, hg⟩ := hopen.prepareUsed h12 h4 hw hpost
      refine .inr ⟨used pre, used post, d, body', ?_, hpos, by omega, ?_⟩
      · have hf : w.free = true := hopen.free
        rw [used_append, used_cons_free hf]
      · exact ⟨hg.answer, hg.inUse, hg.sound, hg.used, hk.trans hg.kept⟩

theorem tlsfFree_spec (h : Sound s start (pre ++ c :: post) stop) (hc : c.free = false) : ∃ body',
    Sound (tlsfFree s c.payload) start body' stop ∧ used body' = used pre ++ used post ∧
      Kept (used pre ++ used post) s.mem (tlsfFree s c.payload).mem := by
  obtain ⟨hopen, hk⟩ := h.markFree hc
  have h0 : c.payload ≠ 0 := Nat.succ_ne_zero _
  have hptr : blockFromPtr c.payload = c.addr := Nat.add_sub_cancel _ _
  unfold tlsfFree
  rw [if_neg h0]
  dsimp only
  rw [hptr]
  obtain ⟨pre₁, w₁, hopen₁, haddr₁, hused₁, hlast, hk₁⟩ := hopen.mergePrev
  obtain ⟨w₂, post₂, hopen₂, haddr₂, -, hused₂, hpost, hk₂⟩ := hopen₁.mergeNext
  obtain ⟨hsound, hk₃⟩ := hopen₂.insert hlast hpost
  dsimp only at haddr₁ hopen₂ hk₁ hk₂ hk₃ hsound
  rw [haddr₁]
  rw [haddr₂] at hsound hk₃
  rw [hused₁] at hk₂ hk₃
  rw [hused₂] at hk₃
  refine ⟨pre₁ ++ w₂ :: post₂, hsound, ?_, ((hk.trans hk₁).trans hk₂).trans hk₃⟩
  rw [used_append, used_cons_free hopen₂.free, hused₁, hused₂]

theorem Sound.used_nodup (h : Sound s start body stop) : (used body).Nodup :=
  List.filter_sublist.nodup h.work.pool.tiled.nodup

/-- The blocks in use around one of them. -/
theorem Sound.mem_rest (h : Sound s start body stop) (hused : used body = us ++ c :: vs) (e : Cell) :
    e ∈ us ++ vs ↔ e ∈ used body ∧ e ≠ c := by
  have hnodup := h.used_nodup
  rw [hused, List.nodup_middle] at hnodup
  have hnot := (List.nodup_cons.mp hnodup).1
  rw [hused, List.mem_append, List.mem_append, List.mem_cons]
  constructor
  · exact fun he => ⟨he.imp_right .inr, fun heq => hnot (List.mem_append.mpr (heq ▸ he))⟩
  · rintro ⟨he | he | he, hne⟩
    · exact .inl he
    · exact absurd he hne
    · exact .inr he

/-- The release of a block in use. -/
theorem Sound.release (h : Sound s start body stop) (hc : c ∈ used body) : ∃ body',
    Sound (tlsfFree s c.payload) start body' stop ∧ (∀ e, e ∈ used body' ↔ e ∈ used body ∧ e ≠ c) ∧
      Kept (used body') s.mem (tlsfFree s c.payload).mem := by
  obtain ⟨hmem, hf⟩ := mem_used.mp hc
  obtain ⟨pre, post, rfl⟩ := List.append_of_mem hmem
  obtain ⟨body', hsound, hused, hk⟩ := tlsfFree_spec h hf
  have hold : used (pre ++ c :: post) = used pre ++ c :: used post := by
    rw [used_append, used_cons_used hf]
  rw [← hused] at hk
  exact ⟨body', hsound, fun e => hused ▸ h.mem_rest hold e, hk⟩

/-- The blocks in use after a call that gave one. -/
theorem Gives.mem_used {r : Nat × State} (hg : Gives s start us vs stop d body r) (e : Cell) :
    e ∈ Tlsf.used body ↔ e = d ∨ e ∈ us ++ vs := by
  rw [hg.used, List.mem_append, List.mem_cons, List.mem_append]
  exact or_left_comm

theorem Gives.fresh {r : Nat × State} (hg : Gives s start us vs stop d body r) : d ∉ us ++ vs :=
  fun hd => ((hg.sound.mem_rest hg.used d).mp hd).2 rfl

theorem Gives.ne_zero {r : Nat × State} (hg : Gives s start us vs stop d body r) : r.1 ≠ 0 := by
  rw [hg.answer]
  exact Nat.succ_ne_zero _

/-- A heap with no block in use is one free block. -/
theorem Sound.all_free (h : Sound s start body stop) (hused : used body = []) (hlt : start < stop) :
    body = [⟨start, stop - start - 4, true⟩] := by
  have hfree : ∀ d ∈ body, d.free = true := fun d hd => by
    by_contra hn
    have hmem := mem_used.mpr ⟨hd, Bool.eq_false_iff.mpr hn⟩
    rw [hused] at hmem
    exact List.not_mem_nil hmem
  have htiled := h.work.pool.tiled
  have hmerged := h.merged
  cases body with
  | nil =>
    have heq : start = stop := htiled
    omega
  | cons d rest =>
    have hd := hfree d List.mem_cons_self
    cases rest with
    | nil =>
      obtain ⟨haddr, hnext⟩ := htiled
      have heq : d.addr + d.size + 4 = stop := hnext
      obtain ⟨addr, size, free⟩ := d
      dsimp only at haddr heq hd
      subst haddr hd
      have hsize : size = stop - addr - 4 := by omega
      rw [hsize]
    | cons e rest =>
      exact absurd ⟨hd, hfree e (List.mem_cons_of_mem _ List.mem_cons_self)⟩ hmerged.2.1

/-! ## Aligned blocks -/

/-- The gap before an aligned pointer is empty, or a block has room in it. -/
theorem alignGap_spec {ptr k : Nat} (hptr : ptr % 4 = 0) (hk : k ≤ 30) (hfit : ptr + 2 * 2 ^ k + 32 ≤ 2 ^ 32) :
    2 ^ k ∣ ptr + alignGap ptr (2 ^ k) ∧ alignGap ptr (2 ^ k) % 4 = 0 ∧
      (alignGap ptr (2 ^ k) = 0 ∨ 16 ≤ alignGap ptr (2 ^ k)) ∧ (k ≤ 2 → alignGap ptr (2 ^ k) = 0) ∧
      alignGap ptr (2 ^ k) ≤ 2 ^ k + 12 := by
  have hpos : 0 < 2 ^ k := Nat.two_pow_pos k
  obtain ⟨hdvd, hle, hlt⟩ := alignUp_spec (x := ptr) (k := k) (by omega) (by omega)
  unfold alignGap
  dsimp only
  by_cases hk2 : k ≤ 2
  · -- an alignment of at most a word
    have hdvd' : 2 ^ k ∣ ptr := Nat.dvd_trans (Nat.pow_dvd_pow 2 hk2) (Nat.dvd_of_mod_eq_zero hptr)
    have hzero : alignUp ptr (2 ^ k) - ptr = 0 := by
      have hd := Nat.dvd_sub hdvd hdvd'
      exact Nat.eq_zero_of_dvd_of_lt hd (by omega)
    rw [hzero, if_neg fun hn => hn.1 rfl]
    exact ⟨hdvd', rfl, .inl rfl, fun _ => rfl, Nat.zero_le _⟩
  · have h4 : 4 ∣ 2 ^ k := Nat.pow_dvd_pow 2 (by omega : 2 ≤ k)
    have h8 : 8 ≤ 2 ^ k := Nat.pow_le_pow_right (by decide : 0 < 2) (by omega : 3 ≤ k)
    have ha4 : 4 ∣ alignUp ptr (2 ^ k) := Nat.dvd_trans h4 hdvd
    generalize alignUp ptr (2 ^ k) = a at *
    by_cases hsmall : a - ptr ≠ 0 ∧ a - ptr < headerSize
    · rw [if_pos hsmall]
      unfold headerSize at hsmall ⊢
      obtain ⟨hdvd', hle', hlt'⟩ := alignUp_spec (x := a + max (16 - (a - ptr)) (2 ^ k)) (k := k)
        (by omega) (by omega)
      have hr4 := Nat.dvd_trans h4 hdvd'
      generalize alignUp (a + max (16 - (a - ptr)) (2 ^ k)) (2 ^ k) = r at *
      have hback : ptr + (r - ptr) = r := by omega
      rw [hback]
      refine ⟨hdvd', by omega, .inr (by omega), fun h => absurd h hk2, ?_⟩
      by_cases hoff : 16 - (a - ptr) ≤ 2 ^ k
      · rw [Nat.max_eq_right hoff] at hle' hlt'
        have hzero : r - a - 2 ^ k = 0 := Nat.eq_zero_of_dvd_of_lt
          (Nat.dvd_sub (Nat.dvd_sub hdvd' hdvd) (Nat.dvd_refl _)) (by omega)
        omega
      · rw [Nat.max_eq_left (by omega)] at hle' hlt'
        have hk3 : k = 3 := by
          by_contra hne
          have : 2 ^ 4 ≤ 2 ^ k := Nat.pow_le_pow_right (by decide) (by omega)
          omega
        subst hk3
        omega
    · rw [if_neg hsmall]
      unfold headerSize at hsmall
      have hback : ptr + (a - ptr) = a := by omega
      rw [hback]
      exact ⟨hdvd, by omega, by omega, fun h => absurd h hk2, by omega⟩

/-- The gap before an aligned pointer becomes a free block of its own. -/
theorem Open.trimFreeLeading {gap : Nat} (h : Open s start pre w post stop) (h16 : 16 ≤ gap)
    (h4 : gap % 4 = 0) (hfit : headerSize + gap ≤ w.size) (hpre : lastFree false pre = false) :
    ∃ pre' w',
    Open (blockTrimFreeLeading s w.addr gap).2 start pre' w' post stop ∧
      (blockTrimFreeLeading s w.addr gap).1 = w'.addr ∧ w'.addr = w.addr + gap ∧
      w'.size = w.size - gap ∧ used pre' = used pre ∧
      Kept (used pre ++ used post) s.mem (blockTrimFreeLeading s w.addr gap).2.mem := by
  have hp := h.work.pool
  have ha := hp.at
  have hword := ha.word
  unfold blockTrimFreeLeading blockCanSplit
  rw [ha.blockSize, if_pos (decide_eq_true hfit)]
  unfold headerSize at hfit
  have hg : gap - blockHeaderOverhead + 4 = gap := by
    unfold blockHeaderOverhead
    omega
  have hg12 : 12 ≤ gap - blockHeaderOverhead := by omega
  obtain ⟨h1, h2, -, hsplit⟩ := hp.split hg12 (by omega) (by unfold headerSize; omega)
  rw [h.free] at hsplit
  have haddr : w.addr + (gap - blockHeaderOverhead) + 4 = w.addr + gap := by omega
  have haddr' : w.addr + (gap - blockHeaderOverhead) + 12 = w.addr + gap + 8 := by omega
  rw [haddr, haddr', hg] at hsplit
  rw [haddr] at h1 h2
  dsimp only
  unfold blockLinkNext
  rw [h1]
  have hbn : blockNext (blockSetPrevFree (blockSplit s.mem w.addr (gap - blockHeaderOverhead)).2
      (w.addr + gap)) w.addr = w.addr + gap := by
    have hsame : sizeField (blockSetPrevFree (blockSplit s.mem w.addr (gap - blockHeaderOverhead)).2
        (w.addr + gap)) w.addr =
        sizeField (blockSplit s.mem w.addr (gap - blockHeaderOverhead)).2 w.addr :=
      sizeField_setSizeField_of_ne (by omega)
    unfold blockNext blockSize at h2 ⊢
    rw [hsame]
    exact h2
  rw [hbn]
  generalize (blockSplit s.mem w.addr (gap - blockHeaderOverhead)).2 = m at *
  unfold Cell.next at hword
  have hr4 : (w.size - gap) % 4 = 0 := by
    have := ha.sized.words
    omega
  have hr30 : w.size - gap < 2 ^ 30 := by
    have := ha.sized.max
    omega
  obtain ⟨hpool, hout⟩ := hsplit
    (setPrevPhysBlock (blockSetPrevFree m (w.addr + gap)) (w.addr + gap) w.addr)
    (fun x hx => by
      unfold blockSetPrevFree
      rw [setPrevPhysBlock_of_out (by omega), setSizeField_of_out (by omega)])
    (fun _ => prevPhysBlock_setPrevPhysBlock (by omega))
    (fun f q hs => by rw [sizeField_setPrevPhysBlock_self, setPrevFree_word hs hr4 hr30])
  generalize setPrevPhysBlock (blockSetPrevFree m (w.addr + gap)) (w.addr + gap) w.addr = m' at *
  have hw := h.work.change hpool hout ha.low fun d hd =>
    ⟨hd.1.elim (fun hd => List.mem_append_left _ hd) fun hd => List.mem_append_right _
      (List.mem_cons_of_mem _ (List.mem_cons_of_mem _ hd)), ha.others hp hd.1⟩
  have hnot := not_mem_around hpool.tiled
  obtain ⟨hins, hk⟩ := hw.insert (c := ⟨w.addr, gap - blockHeaderOverhead, true⟩)
    (List.mem_append_right _ List.mem_cons_self) rfl fun hP =>
      hP.1.elim hnot.1 fun hd => hnot.2 (List.mem_cons_of_mem _ hd)
  have hbody : used (pre ++ ⟨w.addr, gap - blockHeaderOverhead, true⟩ ::
      ⟨w.addr + gap, w.size - gap, true⟩ :: post) = used pre ++ used post := by
    rw [used_append, used_cons_free rfl, used_cons_free rfl]
  have happ : pre ++ ⟨w.addr, gap - blockHeaderOverhead, true⟩ ::
      ⟨w.addr + gap, w.size - gap, true⟩ :: post =
      (pre ++ [⟨w.addr, gap - blockHeaderOverhead, true⟩]) ++ ⟨w.addr + gap, w.size - gap, true⟩ :: post := by
    simp
  rw [hbody] at hk
  rw [happ] at hins
  refine ⟨pre ++ [⟨w.addr, gap - blockHeaderOverhead, true⟩], ⟨w.addr + gap, w.size - gap, true⟩,
    ⟨hins.congr fun d => ?_, rfl, merged_append.mpr ⟨h.before, fun hm => ?_, trivial⟩, h.behind⟩, rfl, rfl,
    rfl, ?_, ((hout.kept ha.before ha.behind).mono used_around).trans hk⟩
  · constructor
    · rintro (⟨hd | hd, hf⟩ | rfl)
      · exact ⟨.inl (List.mem_append_left _ hd), hf⟩
      · exact ⟨.inr hd, hf⟩
      · exact ⟨.inl (List.mem_append_right _ List.mem_cons_self), rfl⟩
    · rintro ⟨hd | hd, hf⟩
      · rcases List.mem_append.mp hd with hd | hd
        · exact .inl ⟨.inl hd, hf⟩
        · exact .inr (List.mem_singleton.mp hd)
      · exact .inl ⟨.inr hd, hf⟩
  · rw [hpre] at hm
    exact Bool.noConfusion hm.1
  · rw [used_append, used_cons_free rfl]
    exact List.append_nil _

/-- The pointers of a pool at a multiple of 4. -/
theorem Pool.addr_mod {mem : Nat → UInt8} (h : Pool mem start (pre ++ c :: post) stop)
    (hstart : start % 4 = 0) : c.addr % 4 = 0 := by
  have hb := h.at.before
  have hsized : ∀ d ∈ pre, d.size % 4 = 0 := fun d hd => (h.sized d (List.mem_append_left _ hd)).words
  clear h
  induction pre generalizing start with
  | nil =>
    have heq : start = c.addr := hb
    omega
  | cons d pre ih =>
    have hd := hsized d List.mem_cons_self
    have haddr := hb.1
    refine ih ?_ hb.2 fun d hd => hsized d (List.mem_cons_of_mem _ hd)
    unfold Cell.next
    omega

/-- What `tlsf_memalign` searches for. -/
def alignedRequest (align size : Nat) : Nat :=
  if adjustRequestSize size alignSize ≠ 0 ∧ alignSize < align then
    adjustRequestSize ((adjustRequestSize size alignSize + align + headerSize) % 2 ^ 32) align
  else adjustRequestSize size alignSize

theorem alignedRequest_spec {k : Nat} (hk : k ≤ 30) (hsize : size < 2 ^ 31)
    (h0 : alignedRequest (2 ^ k) size ≠ 0) : adjustRequestSize size alignSize ≠ 0 ∧
      alignedRequest (2 ^ k) size % 4 = 0 ∧
      adjustRequestSize size alignSize + (if k ≤ 2 then 0 else 2 ^ k + headerSize) ≤
        alignedRequest (2 ^ k) size := by
  unfold alignedRequest at h0 ⊢
  by_cases hbig : adjustRequestSize size alignSize ≠ 0 ∧ alignSize < 2 ^ k
  · rw [if_pos hbig] at h0 ⊢
    obtain ⟨-, -, -, -, hmax⟩ := adjust_aligned hsize hbig.1
    have hk3 : ¬ k ≤ 2 := fun hk2 => by
      have : 2 ^ k ≤ 2 ^ 2 := Nat.pow_le_pow_right (by decide) hk2
      unfold alignSize at hbig
      omega
    have hpow : 2 ^ k ≤ 2 ^ 30 := Nat.pow_le_pow_right (by decide) hk
    unfold blockSizeMax at hmax
    unfold headerSize at *
    have hlt : adjustRequestSize size alignSize + 2 ^ k + 16 < 2 ^ 32 := by omega
    rw [Nat.mod_eq_of_lt hlt] at h0 ⊢
    obtain ⟨-, hle, h4, -, -⟩ := adjustRequestSize_spec (by omega) hk (by omega) h0
    rw [if_neg hk3]
    exact ⟨hbig.1, h4, by omega⟩
  · rw [if_neg hbig] at h0 ⊢
    have hk2 : k ≤ 2 := by
      by_contra hn
      have : 2 ^ 3 ≤ 2 ^ k := Nat.pow_le_pow_right (by decide) (by omega)
      refine hbig ⟨h0, ?_⟩
      unfold alignSize
      omega
    obtain ⟨-, -, h4, -, -⟩ := adjust_aligned hsize h0
    rw [if_pos hk2]
    exact ⟨h0, h4, Nat.le_refl _⟩

theorem tlsfMemalign_eq (s : State) (align size : Nat) : tlsfMemalign s align size =
    match (blockLocateFree s (alignedRequest align size)).1 with
    | none => blockPrepareUsed (blockLocateFree s (alignedRequest align size)).2 none
        (adjustRequestSize size alignSize)
    | some block =>
      if alignGap (blockToPtr block) align ≠ 0 then
        blockPrepareUsed
          (blockTrimFreeLeading (blockLocateFree s (alignedRequest align size)).2 block
            (alignGap (blockToPtr block) align)).2
          (some (blockTrimFreeLeading (blockLocateFree s (alignedRequest align size)).2 block
            (alignGap (blockToPtr block) align)).1)
          (adjustRequestSize size alignSize)
      else blockPrepareUsed (blockLocateFree s (alignedRequest align size)).2 (some block)
        (adjustRequestSize size alignSize) := rfl

theorem tlsfMemalign_spec {k : Nat} (h : Sound s start body stop) (hstart : start % 4 = 0) (hk : k ≤ 29)
    (hsize : size < 2 ^ 31) (hstop : stop < 2 ^ 31) :
    (tlsfMemalign s (2 ^ k) size = (0, s) ∧ NoRoom body (alignedRequest (2 ^ k) size)) ∨
    ∃ us vs d body', used body = us ++ vs ∧ 0 < size ∧ size ≤ d.size ∧ 2 ^ k ∣ d.payload ∧
      Gives s start us vs stop d body' (tlsfMemalign s (2 ^ k) size) := by
  rw [tlsfMemalign_eq]
  by_cases h0 : alignedRequest (2 ^ k) size = 0
  · rw [h0]
    exact .inl ⟨rfl, .inl rfl⟩
  · obtain ⟨hadj, hreq4, hreq⟩ := alignedRequest_spec (by omega) hsize h0
    obtain ⟨hpos, hle, h4, h12, -⟩ := adjust_aligned hsize hadj
    generalize adjustRequestSize size alignSize = adjust at *
    generalize alignedRequest (2 ^ k) size = request at *
    rcases h.locate h0 hreq4 with ⟨hnone, hroom⟩ | ⟨pre, w, post, rfl, hsome, hw, hopen, hpre, hpost, hkept⟩
    · rw [hnone]
      exact .inl ⟨rfl, .inr hroom⟩
    · rw [hsome]
      dsimp only
      have ha := hopen.work.pool.at
      have hused : used (pre ++ w :: post) = used pre ++ used post := by
        rw [used_append, used_cons_free hopen.free]
      have haddr4 := hopen.work.pool.addr_mod hstart
      have hword := ha.high
      have hpow : 2 ^ k ≤ 2 ^ 29 := Nat.pow_le_pow_right (by decide) hk
      have hptr : blockToPtr w.addr = w.addr + 8 := rfl
      unfold Cell.next at hword
      have hfit : blockToPtr w.addr + 2 * 2 ^ k + 32 ≤ 2 ^ 32 := by omega
      have hmod : blockToPtr w.addr % 4 = 0 := by omega
      obtain ⟨hdvd, hg4, hg, hg0, hgle⟩ := alignGap_spec hmod (by omega : k ≤ 30) hfit
      generalize alignGap (blockToPtr w.addr) (2 ^ k) = gap at *
      by_cases hgap : gap ≠ 0
      · rw [if_pos hgap]
        have hk2 : ¬ k ≤ 2 := fun hk2 => hgap (hg0 hk2)
        rw [if_neg hk2] at hreq
        unfold headerSize at hreq
        have hg16 : 16 ≤ gap := hg.resolve_left hgap
        obtain ⟨pre', w', hopen', hres, haddr, hsize', hused', hkept'⟩ :=
          hopen.trimFreeLeading hg16 hg4 (by unfold headerSize; omega) hpre
        rw [hres]
        obtain ⟨d, body', hd, hdsize, hgives⟩ := hopen'.prepareUsed h12 h4 (by omega) hpost
        rw [hused'] at hgives
        refine .inr ⟨used pre, used post, d, body', hused, hpos, by omega, ?_, hgives.answer, hgives.inUse,
          hgives.sound, hgives.used, (hkept.trans hkept').trans hgives.kept⟩
        have hp : d.payload = blockToPtr w.addr + gap := by
          unfold Cell.payload
          omega
        rw [hp]
        exact hdvd
      · rw [if_neg hgap]
        obtain ⟨d, body', hd, hdsize, hgives⟩ := hopen.prepareUsed h12 h4 (by split at hreq <;> omega) hpost
        refine .inr ⟨used pre, used post, d, body', hused, hpos, by omega, ?_, hgives.answer, hgives.inUse,
          hgives.sound, hgives.used, hkept.trans hgives.kept⟩
        have hp : d.payload = blockToPtr w.addr + gap := by
          unfold Cell.payload
          omega
        rw [hp]
        exact hdvd

/-! ## Resized blocks -/

/-- The block `c` of the heap gets `size` bytes; it is then the block `d`. -/
structure Resizes (s : State) (start : Nat) (body : List Cell) (stop : Nat) (c : Cell) (size : Nat)
    (d : Cell) (body' : List Cell) (r : Nat × State) : Prop where
  answer : r.1 = d.payload
  sound : Sound r.2 start body' stop
  used : ∀ e, e ∈ used body' ↔ e = d ∨ e ∈ used body ∧ e ≠ c
  other : ∀ e ∈ Tlsf.used body, e ≠ c → e ≠ d
  room : size ≤ d.size
  kept : ∀ e ∈ Tlsf.used body, e ≠ c → Kept [e] s.mem r.2.mem
  data : ∀ i, i < c.size → i < size → r.2.mem (d.payload + i) = s.mem (c.payload + i)

/-- A write into a block in use leaves the heap as it is. -/
theorem Sound.write (h : Sound s start body stop) (hc : c ∈ used body)
    (hout : Outside s.mem mem (c.addr + 8) (c.next + 4)) : Sound { s with mem := mem } start body stop := by
  obtain ⟨hmem, hf⟩ := mem_used.mp hc
  have hp := h.work.pool
  have hbound := hp.tiled.mem_bounds hmem
  obtain ⟨lists, hi⟩ := h.work.index
  have hall : ∀ d ∈ body ++ [last stop], d = c ∨ d.addr + 12 ≤ c.addr ∨ c.next ≤ d.addr := fun d hd => by
    rcases List.mem_append.mp hd with hd | hd
    · have hmin := (hp.sized d hd).min
      rcases hp.tiled.apart hd hmem with heq | hlt | hlt
      · exact .inl heq
      · unfold Cell.next at hlt
        exact .inr (.inl (by omega))
      · exact .inr (.inr hlt)
    · obtain rfl := List.mem_singleton.mp hd
      exact .inr (.inr hbound.2)
  have hcells : Cells mem false (body ++ [last stop]) := by
    refine hp.cells.congr_fields (fun d hd => ?_) fun d hd hfree => ?_
    · refine read32_congr fun x h1 h2 => hout x ?_
      rcases hall d hd with rfl | hlt | hlt <;> omega
    · refine read32_congr fun x h1 h2 => hout x ?_
      rcases List.mem_append.mp hd with hd | hd
      · rcases hp.tiled.apart hd hmem with rfl | hlt | hlt
        · rw [hf] at hfree
          exact Bool.noConfusion hfree
        · exact .inl (by omega)
        · unfold Cell.next at h1
          have hmin := (hp.sized d hd).min
          exact .inr (by omega)
      · obtain rfl := List.mem_singleton.mp hd
        exact Bool.noConfusion hfree
  refine ⟨⟨⟨hp.tiled, hp.sized, hcells, hp.small, hp.word⟩, ⟨lists, hi.congr_mem ?_⟩, h.work.listed,
    h.work.above⟩, h.merged⟩
  have habove := h.work.above
  rintro y (rfl | ⟨d, ⟨hd, hfree⟩, rfl⟩) x h1 h2
  · exact hout x (.inl (by omega))
  · have hmin := (hp.sized d hd).min
    rcases hp.tiled.apart hd hmem with rfl | hlt | hlt
    · rw [hf] at hfree
      exact Bool.noConfusion hfree
    · unfold Cell.next at hlt
      exact hout x (.inl (by omega))
    · exact hout x (.inr (by omega))

/-- A block in use at the address of another one is that one. -/
theorem Sound.used_eq (h : Sound s start body stop) {d : Cell} (hc : c ∈ used body) (hd : d ∈ used body)
    (heq : d.addr = c.addr) : d = c :=
  h.work.pool.tiled.eq_of_addr (mem_used.mp hd).1 (mem_used.mp hc).1 heq

/-- A block that was made larger, where it had to be, is cut to the new size. -/
theorem resizes_inPlace {s₁ : State} {c₁ : Cell} {adjust : Nat} (h : Sound s start body stop)
    (hc : c ∈ used body) (hused : used body = used pre ++ c :: used post)
    (h₁ : Sound s₁ start (pre ++ c₁ :: post) stop) (hf : c₁.free = false) (haddr : c₁.addr = c.addr)
    (hk : Kept (used pre ++ c :: used post) s.mem s₁.mem) (h12 : 12 ≤ adjust) (h4 : adjust % 4 = 0)
    (hle : size ≤ adjust) (hfit : adjust ≤ c₁.size) : ∃ d body',
    Resizes s start body stop c size d body' (c.payload, blockTrimUsed s₁ c.addr adjust) := by
  obtain ⟨d, body', hsound, hd, hsize, hused', hk', hdata⟩ := h₁.trimUsed hf h12 h4 hfit
  rw [haddr] at hsound hk' hdata hd
  refine ⟨d, body', congrArg (· + 8) hd.symm, hsound, fun e => ?_, fun e he hne heq => ?_, by omega,
    fun e he hne => ?_, fun i hi hi' => ?_⟩
  · rw [hused', List.mem_append, List.mem_cons, or_left_comm, ← List.mem_append, h.mem_rest hused]
  · exact hne (h.used_eq hc he (heq ▸ hd))
  · refine Kept.trans (hk.mono ?_) (hk'.mono ?_)
    · intro e' he'
      rw [List.mem_singleton.mp he', ← hused]
      exact he
    · intro e' he'
      rw [List.mem_singleton.mp he']
      exact (h.mem_rest hused e).mpr ⟨he, hne⟩
  · have hp : d.payload = c.payload := congrArg (· + 8) hd
    have hpay : c.payload = c.addr + 8 := rfl
    rw [hp]
    dsimp only
    rw [hdata (c.payload + i) (by omega) (by omega)]
    refine hk c (List.mem_append_right _ List.mem_cons_self) _ (by omega) ?_
    unfold Cell.next
    omega

/-- A block that `tlsf_malloc` gave has the bytes of the old one, which is then given back. -/
theorem resizes_moved {body₁ : List Cell} {r : Nat × State} (hc : c ∈ used body)
    (hused : used body = us ++ vs) (hg : Gives s start us vs stop d body₁ r) (hroom : size ≤ d.size) :
    ∃ body', Resizes s start body stop c size d body' (r.1, tlsfFree { r.2 with
      mem := overwrite r.2.mem r.1 (min c.size size) fun i => r.2.mem (c.payload + i) } c.payload) := by
  have hd : d ∈ used body₁ := (hg.mem_used d).mpr (.inl rfl)
  have hold : ∀ e ∈ used body, e ∈ used body₁ ∧ e ≠ d := fun e he => by
    rw [hused] at he
    exact ⟨(hg.mem_used e).mpr (.inr he), fun heq => hg.fresh (heq ▸ he)⟩
  have hcd := (hold c hc).2
  have hmin : min c.size size ≤ d.size := Nat.le_trans (Nat.min_le_right _ _) hroom
  have hpay : d.payload = d.addr + 8 := rfl
  have hout : Outside r.2.mem (overwrite r.2.mem r.1 (min c.size size) fun i => r.2.mem (c.payload + i))
      (d.addr + 8) (d.next + 4) := fun x hx => by
    refine overwrite_of_out _ _ ?_
    rw [hg.answer, hpay]
    unfold Cell.next at hx
    omega
  obtain ⟨body', hsound, hmem, hk⟩ := (hg.sound.write hd hout).release (hold c hc).1
  have hkept : ∀ e ∈ used body, Kept [e] s.mem r.2.mem := fun e he => hg.kept.mono fun e' he' => by
    rw [List.mem_singleton.mp he', ← hused]
    exact he
  refine ⟨body', hg.answer, hsound, fun e => ?_, fun e he _ => (hold e he).2, hroom, fun e he hne => ?_,
    fun i hi hi' => ?_⟩
  · rw [hmem, hg.mem_used, ← hused]
    constructor
    · rintro ⟨rfl | he, hne⟩
      · exact .inl rfl
      · exact .inr ⟨he, hne⟩
    · rintro (rfl | ⟨he, hne⟩)
      · exact ⟨.inl rfl, hcd.symm⟩
      · exact ⟨.inr he, hne⟩
  · obtain ⟨he', hed⟩ := hold e he
    have hapart := (hg.sound.work.pool.tiled.apart (mem_used.mp he').1 (mem_used.mp hd).1).resolve_left hed
    refine (hkept e he).trans (Kept.trans ?_ (hk.mono ?_))
    · intro e₁ he₁ x h1 h2
      rw [List.mem_singleton.mp he₁] at h1 h2
      exact hout x (by omega)
    · intro e₁ he₁
      rw [List.mem_singleton.mp he₁]
      exact (hmem e).mpr ⟨he', hne⟩
  · have hi₁ : i < min c.size size := Nat.lt_min.mpr ⟨hi, hi'⟩
    have hcpay : c.payload = c.addr + 8 := rfl
    have h1 := hk d ((hmem d).mpr ⟨hd, hcd.symm⟩) (d.payload + i) (by omega) (by unfold Cell.next; omega)
    have h2 := hkept c hc c List.mem_cons_self (c.payload + i) (by omega) (by unfold Cell.next; omega)
    refine h1.trans (Eq.trans ?_ h2)
    dsimp only
    rw [hg.answer, overwrite_of_in _ _ (by omega) (by omega), Nat.add_sub_cancel_left]

theorem tlsfRealloc_spec (h : Sound s start body stop) (hc : c ∈ used body) (hlt : size < 2 ^ 31)
    (h0 : adjustRequestSize size alignSize ≠ 0) : tlsfRealloc s c.payload size = (0, s) ∨
      ∃ d body', Resizes s start body stop c size d body' (tlsfRealloc s c.payload size) := by
  obtain ⟨hmem, hf⟩ := mem_used.mp hc
  obtain ⟨pre, post, rfl⟩ := List.append_of_mem hmem
  obtain ⟨hpos, hle, h4, h12, -⟩ := adjust_aligned hlt h0
  have ha := h.work.pool.at
  have hused : used (pre ++ c :: post) = used pre ++ c :: used post := by
    rw [used_append, used_cons_used hf]
  have hn := ha.next.size
  rw [ha.nextAddr] at hn
  have hne : c.payload ≠ 0 := Nat.succ_ne_zero _
  have hptr : blockFromPtr c.payload = c.addr := Nat.add_sub_cancel _ _
  unfold tlsfRealloc
  rw [if_neg (by omega), if_neg hne]
  dsimp only
  rw [hptr, ha.blockNext, ha.blockSize, blockSize_of_word hn ha.nextWords ha.nextSmall,
    blockIsFree_of_word hn ha.nextWords]
  generalize adjustRequestSize size alignSize = adjust at *
  by_cases hmove : c.size < adjust ∧ ((following post stop).free = false ∨
      c.size + (following post stop).size + blockHeaderOverhead < adjust)
  · rw [if_pos hmove]
    rcases tlsfMalloc_spec h hlt with ⟨hnone, -⟩ | ⟨us, vs, d, body₁, hus, -, hd, hg⟩
    · rw [hnone]
      exact .inl rfl
    · rw [if_neg hg.ne_zero]
      obtain ⟨body', hres⟩ := resizes_moved hc hus hg hd
      exact .inr ⟨d, body', hres⟩
  · rw [if_neg hmove]
    by_cases hgrow : c.size < adjust
    · rw [if_pos hgrow]
      obtain ⟨hfree, hfit⟩ := not_or.mp fun hor => hmove ⟨hgrow, hor⟩
      cases post with
      | nil => exact absurd rfl hfree
      | cons n post =>
        have hnf : n.free = true := Bool.of_not_eq_false hfree
        obtain ⟨hsound, hk⟩ := h.grow hf hnf
        rw [used_cons_free hnf] at hused
        refine .inr (resizes_inPlace h hc hused hsound rfl rfl hk h12 h4 hle ?_)
        have hfol : (following (n :: post) stop).size = n.size := rfl
        rw [hfol] at hfit
        unfold blockHeaderOverhead at hfit
        dsimp only
        omega
    · rw [if_neg hgrow]
      exact .inr (resizes_inPlace h hc hused h hf rfl (.refl _ _) h12 h4 hle (by omega))

end Tlsf
end Hashx86
