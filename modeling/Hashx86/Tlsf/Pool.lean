import Hashx86.Tlsf.Cells

/-!
# The pool in memory

`Pool mem start body stop`: the memory holds the blocks `body` one behind the other from `start` on,
and the mark at the end at `stop`.

* `Pool.at`: what the headers of a block and of the next one say.
* `Pool.replace`: the rule for a change of the pool.
* `Pool.markFree`, `Pool.markUsed`, `Pool.absorb`, `Pool.grow`, `Pool.split`: what the operations on headers do.
-/

namespace Hashx86

open Lib

namespace Tlsf

structure Pool (mem : Nat → UInt8) (start : Nat) (body : List Cell) (stop : Nat) : Prop where
  tiled : Tiled start body stop
  sized : ∀ c ∈ body, c.Sized
  cells : Cells mem false (body ++ [last stop])
  small : stop < start + 2 ^ 30
  word : stop + 8 ≤ 2 ^ 32

/-- The block behind `cs`, or the mark at the end. -/
def following (post : List Cell) (stop : Nat) : Cell := post.headD (last stop)

/-- The memory differs at most between `lo` and `hi`. -/
def Outside (mem mem' : Nat → UInt8) (lo hi : Nat) : Prop := ∀ x, x < lo ∨ hi ≤ x → mem' x = mem x

variable {mem mem' : Nat → UInt8} {start stop b e : Nat} {c p n : Cell} {pre mid mid' post : List Cell}

theorem Outside.mono {lo hi lo' hi' : Nat} (h : Outside mem mem' lo hi) (hlo : lo' ≤ lo) (hhi : hi ≤ hi') :
    Outside mem mem' lo' hi' := fun x hx => h x (by omega)

theorem Outside.trans {mem₂ : Nat → UInt8} {lo hi : Nat} (h : Outside mem mem' lo hi)
    (h' : Outside mem' mem₂ lo hi) : Outside mem mem₂ lo hi := fun x hx => (h' x hx).trans (h x hx)

/-- A header and its neighbours. -/
structure At (mem : Nat → UInt8) (start : Nat) (pre : List Cell) (c : Cell) (post : List Cell)
    (stop : Nat) : Prop where
  holds : Holds mem c (lastFree false pre)
  sized : c.Sized
  before : Tiled start pre c.addr
  behind : Tiled c.next post stop
  next : Holds mem (following post stop) c.free
  nextAddr : (following post stop).addr = c.next
  nextWords : (following post stop).size % 4 = 0
  nextSmall : (following post stop).size < 2 ^ 30
  low : start ≤ c.addr
  high : c.next ≤ stop
  word : c.next + 8 ≤ 2 ^ 32

theorem Pool.at (h : Pool mem start (pre ++ c :: post) stop) : At mem start pre c post stop := by
  obtain ⟨b, hpre, hb, hpost⟩ := tiled_append.mp h.tiled
  subst hb
  have hc : c.Sized := h.sized c (List.mem_append_right pre List.mem_cons_self)
  have hcells := h.cells
  rw [List.append_assoc, cells_append, List.cons_append] at hcells
  obtain ⟨-, hholds, hrest⟩ := hcells
  have hword := h.word
  have hle := hpost.le
  refine ⟨hholds, hc, hpre, hpost, ?_, ?_, ?_, ?_, hpre.le, hle, by omega⟩
  all_goals cases post with
    | nil =>
      first
      | exact hrest.1
      | exact hpost.symm
      | exact Nat.zero_mod 4
      | exact Nat.two_pow_pos 30
    | cons d post =>
      have hd : d.Sized := h.sized d (List.mem_append_right pre (List.mem_cons_of_mem c List.mem_cons_self))
      first
      | exact hrest.1
      | exact hpost.1
      | exact hd.words
      | exact hd.max

theorem At.blockSize (h : At mem start pre c post stop) : blockSize mem c.addr = c.size :=
  blockSize_of_word h.holds.size h.sized.words h.sized.max

theorem At.blockNext (h : At mem start pre c post stop) : blockNext mem c.addr = c.next := by
  unfold Tlsf.blockNext
  rw [h.blockSize]
  unfold blockToPtr blockStartOffset blockHeaderOverhead Cell.next
  omega

theorem Pool.replace (h : Pool mem start (pre ++ mid ++ post) stop) (hpre : Tiled start pre b)
    (hpost : Tiled e post stop) (hmid' : Tiled b mid' e) (hsized : ∀ c ∈ mid', c.Sized)
    (hout : Outside mem mem' (b + 4) (e + 8)) (hnew : Cells mem' (lastFree false pre) mid')
    (htag : sizeField mem' e =
      Tlsf.word (following post stop).size (following post stop).free (lastFree (lastFree false pre) mid')) :
    Pool mem' start (pre ++ mid' ++ post) stop := by
  refine ⟨?_, fun c hc => ?_, ?_, h.small, h.word⟩
  · exact tiled_append.mpr ⟨e, tiled_append.mpr ⟨b, hpre, hmid'⟩, hpost⟩
  · rcases List.mem_append.mp hc with hc | hc
    · rcases List.mem_append.mp hc with hc | hc
      · exact h.sized c (List.mem_append_left _ (List.mem_append_left _ hc))
      · exact hsized c hc
    · exact h.sized c (List.mem_append_right _ hc)
  · have hcells := h.cells
    rw [List.append_assoc] at hcells ⊢
    cases post with
    | nil =>
      obtain rfl : e = stop := hpost
      refine hcells.replace hpre (n := last e) (e := e + 4) ⟨rfl, rfl⟩ (fun x hx => hout x (.inl hx))
        (fun x hx => hout x (.inr hx)) hnew htag fun hf => Bool.noConfusion hf
    | cons n post =>
      obtain ⟨hn, hrest⟩ := hpost
      subst hn
      have hns : n.Sized := h.sized n (List.mem_append_right _ List.mem_cons_self)
      refine hcells.replace hpre (n := n) (e := stop + 4) ⟨rfl, tiled_append.mpr ⟨stop, hrest, rfl, rfl⟩⟩
        (fun x hx => hout x (.inl hx)) (fun x hx => hout x (.inr hx)) hnew htag fun _ => ?_
      have := hns.min
      omega

/-! ## Operations on headers -/

theorem Pool.markFree (h : Pool mem start (pre ++ c :: post) stop) :
    Pool (blockMarkAsFree mem c.addr) start (pre ++ { c with free := true } :: post) stop ∧
      Outside mem (blockMarkAsFree mem c.addr) (c.addr + 4) (c.next + 8) := by
  have ha := h.at
  have hs := ha.sized
  have hmin := hs.min
  have hword := ha.word
  have hnext : c.addr + 16 ≤ c.next := by
    unfold Cell.next
    omega
  have hn := ha.next.size
  rw [ha.nextAddr] at hn
  unfold blockMarkAsFree blockLinkNext
  rw [ha.blockNext]
  have h1 : sizeField (blockSetPrevFree (setPrevPhysBlock mem c.next c.addr) c.next) c.next =
      Tlsf.word (following post stop).size (following post stop).free true :=
    setPrevFree_word (by rw [sizeField_setPrevPhysBlock_self, hn]) ha.nextWords ha.nextSmall
  have h2 : sizeField (blockSetPrevFree (setPrevPhysBlock mem c.next c.addr) c.next) c.addr =
      Tlsf.word c.size c.free (lastFree false pre) := by
    unfold blockSetPrevFree
    rw [sizeField_setSizeField_of_ne (by omega), sizeField_setPrevPhysBlock (by omega), ha.holds.size]
  have h3 : prevPhysBlock (blockSetPrevFree (setPrevPhysBlock mem c.next c.addr) c.next) c.next = c.addr := by
    unfold blockSetPrevFree
    rw [prevPhysBlock_setSizeField (by omega), prevPhysBlock_setPrevPhysBlock (by omega)]
  have hout : Outside mem (blockSetFree (blockSetPrevFree (setPrevPhysBlock mem c.next c.addr) c.next)
      c.addr) (c.addr + 4) (c.next + 8) := fun x hx => by
    unfold blockSetFree blockSetPrevFree
    rw [setSizeField_of_out (by omega), setSizeField_of_out (by omega), setPrevPhysBlock_of_out (by omega)]
  refine ⟨?_, hout⟩
  rw [List.append_cons] at h ⊢
  refine h.replace ha.before ha.behind ⟨rfl, rfl⟩ ?_ hout ⟨⟨setFree_word h2 hs.words hs.max, ?_⟩, trivial⟩ ?_
  · intro d hd
    obtain rfl := List.mem_singleton.mp hd
    exact ⟨hs.min, hs.max, hs.words⟩
  · intro _
    unfold blockSetFree
    exact (prevPhysBlock_setSizeField (.inr (by unfold Cell.next; dsimp only; omega))).trans h3
  · unfold blockSetFree
    rw [sizeField_setSizeField_of_ne (by omega), h1]
    rfl

theorem Pool.markUsed (h : Pool mem start (pre ++ c :: post) stop) :
    Pool (blockMarkAsUsed mem c.addr) start (pre ++ { c with free := false } :: post) stop ∧
      Outside mem (blockMarkAsUsed mem c.addr) (c.addr + 4) (c.next + 8) := by
  have ha := h.at
  have hs := ha.sized
  have hmin := hs.min
  have hnext : c.addr + 16 ≤ c.next := by
    unfold Cell.next
    omega
  have hn := ha.next.size
  rw [ha.nextAddr] at hn
  unfold blockMarkAsUsed
  rw [ha.blockNext]
  have h1 : sizeField (blockSetPrevUsed mem c.next) c.next =
      Tlsf.word (following post stop).size (following post stop).free false :=
    setPrevUsed_word hn ha.nextWords ha.nextSmall
  have h2 : sizeField (blockSetPrevUsed mem c.next) c.addr = Tlsf.word c.size c.free (lastFree false pre) := by
    unfold blockSetPrevUsed
    rw [sizeField_setSizeField_of_ne (by omega), ha.holds.size]
  have hout : Outside mem (blockSetUsed (blockSetPrevUsed mem c.next) c.addr) (c.addr + 4) (c.next + 8) :=
    fun x hx => by
      unfold blockSetUsed blockSetPrevUsed
      rw [setSizeField_of_out (by omega), setSizeField_of_out (by omega)]
  refine ⟨?_, hout⟩
  rw [List.append_cons] at h ⊢
  refine h.replace ha.before ha.behind ⟨rfl, rfl⟩ ?_ hout
    ⟨⟨setUsed_word h2 hs.words hs.max, fun hf => Bool.noConfusion hf⟩, trivial⟩ ?_
  · intro d hd
    obtain rfl := List.mem_singleton.mp hd
    exact ⟨hs.min, hs.max, hs.words⟩
  · unfold blockSetUsed
    rw [sizeField_setSizeField_of_ne (by omega), h1]
    rfl

/-- The sizes of two neighbours that become one block. -/
structure Joined (mem : Nat → UInt8) (p c : Cell) (prev : Bool) : Prop where
  max : p.size + (c.size + 4) < 2 ^ 30
  words : (p.size + (c.size + 4)) % 4 = 0
  far : p.addr + 32 ≤ c.next
  field : sizeField mem p.addr + (blockSize mem c.addr + blockHeaderOverhead) =
    Tlsf.word (p.size + (c.size + 4)) p.free prev
  next : ∀ f, (⟨p.addr, p.size + (c.size + 4), f⟩ : Cell).next = c.next
  behind : ∀ m f q, sizeField m p.addr = Tlsf.word (p.size + (c.size + 4)) f q → blockNext m p.addr = c.next

theorem Pool.joined (h : Pool mem start (pre ++ p :: c :: post) stop) :
    At mem start (pre ++ [p]) c post stop ∧ Joined mem p c (lastFree false pre) := by
  have ha := h.at
  have hac : At mem start (pre ++ [p]) c post stop := by
    rw [List.append_cons] at h
    exact h.at
  have hs := ha.sized
  have hsc := hac.sized
  have hadj : c.addr = p.next := ha.behind.1
  have hmin := hs.min
  have hminc := hsc.min
  have hhigh := hac.high
  have hlow := ha.low
  have hsmall := h.small
  have hpw := hs.words
  have hcw := hsc.words
  unfold Cell.next at hadj hhigh
  have hsum : p.size + (c.size + 4) < 2 ^ 30 := by omega
  have hsum4 : (p.size + (c.size + 4)) % 4 = 0 := by omega
  refine ⟨hac, hsum, hsum4, ?_, ?_, fun f => ?_, fun m f q hm => ?_⟩
  · unfold Cell.next
    omega
  · rw [ha.holds.size, hac.blockSize]
    unfold Tlsf.word blockHeaderOverhead
    omega
  · unfold Cell.next
    dsimp only
    omega
  · unfold Tlsf.blockNext
    rw [blockSize_of_word hm hsum4 hsum]
    unfold blockToPtr blockStartOffset blockHeaderOverhead Cell.next
    omega

/-- Two free blocks become one. -/
theorem Pool.absorb (h : Pool mem start (pre ++ p :: c :: post) stop) (hp : p.free = true)
    (hc : c.free = true) :
    Pool (blockAbsorb mem p.addr c.addr) start
        (pre ++ ⟨p.addr, p.size + (c.size + 4), true⟩ :: post) stop ∧
      Outside mem (blockAbsorb mem p.addr c.addr) (p.addr + 4) (c.next + 8) := by
  have ha := h.at
  obtain ⟨hac, hj⟩ := h.joined
  have hmin := ha.sized.min
  have hfar := hj.far
  have hword := hac.word
  have hn := hac.next.size
  rw [hac.nextAddr, hc] at hn
  have hnew := hj.field
  rw [hp] at hnew
  unfold blockAbsorb blockLinkNext
  rw [hnew]
  have h1 : sizeField (setSizeField mem p.addr
      (Tlsf.word (p.size + (c.size + 4)) true (lastFree false pre))) p.addr =
      Tlsf.word (p.size + (c.size + 4)) true (lastFree false pre) :=
    sizeField_setSizeField (word_lt hj.max _ _)
  rw [hj.behind _ _ _ h1]
  have hout : Outside mem (setPrevPhysBlock (setSizeField mem p.addr
      (Tlsf.word (p.size + (c.size + 4)) true (lastFree false pre))) c.next p.addr)
      (p.addr + 4) (c.next + 8) := fun x hx => by
    rw [setPrevPhysBlock_of_out (by omega), setSizeField_of_out (by omega)]
  refine ⟨?_, hout⟩
  have happ : pre ++ p :: c :: post = pre ++ [p, c] ++ post := by simp
  rw [happ] at h
  rw [List.append_cons]
  refine h.replace ha.before hac.behind ⟨rfl, hj.next true⟩ ?_ hout ⟨⟨?_, ?_⟩, trivial⟩ ?_
  · intro d hd
    obtain rfl := List.mem_singleton.mp hd
    exact ⟨by dsimp only; omega, hj.max, hj.words⟩
  · dsimp only
    rw [sizeField_setPrevPhysBlock (by omega), h1]
  · intro _
    rw [hj.next true]
    exact prevPhysBlock_setPrevPhysBlock (by omega)
  · rw [sizeField_setPrevPhysBlock_self, sizeField_setSizeField_of_ne (by omega), hn]
    rfl

/-- A block in use takes in the free block behind it. -/
theorem Pool.grow (h : Pool mem start (pre ++ p :: c :: post) stop) (hp : p.free = false)
    (hc : c.free = true) :
    Pool (blockMarkAsUsed (blockAbsorb mem p.addr c.addr) p.addr) start
        (pre ++ ⟨p.addr, p.size + (c.size + 4), false⟩ :: post) stop ∧
      ∀ x, x < p.addr + 4 ∨ p.addr + 8 ≤ x ∧ x < c.next ∨ c.next + 8 ≤ x →
        blockMarkAsUsed (blockAbsorb mem p.addr c.addr) p.addr x = mem x := by
  have ha := h.at
  obtain ⟨hac, hj⟩ := h.joined
  have hmin := ha.sized.min
  have hfar := hj.far
  have hn := hac.next.size
  rw [hac.nextAddr, hc] at hn
  have hnew := hj.field
  rw [hp] at hnew
  unfold blockAbsorb blockLinkNext
  rw [hnew]
  generalize hm1 : setSizeField mem p.addr (Tlsf.word (p.size + (c.size + 4)) false (lastFree false pre)) =
    m1 at *
  have hp1 : sizeField m1 p.addr = Tlsf.word (p.size + (c.size + 4)) false (lastFree false pre) := by
    rw [← hm1]
    exact sizeField_setSizeField (word_lt hj.max _ _)
  rw [hj.behind m1 _ _ hp1]
  generalize hm2 : setPrevPhysBlock m1 c.next p.addr = m2 at *
  have hp2 : sizeField m2 p.addr = Tlsf.word (p.size + (c.size + 4)) false (lastFree false pre) := by
    rw [← hm2, sizeField_setPrevPhysBlock (by omega), hp1]
  have hn2 : sizeField m2 c.next = Tlsf.word (following post stop).size (following post stop).free true := by
    rw [← hm2, sizeField_setPrevPhysBlock_self, ← hm1, sizeField_setSizeField_of_ne (by omega), hn]
  unfold blockMarkAsUsed
  rw [hj.behind m2 _ _ hp2]
  have hn3 : sizeField (blockSetPrevUsed m2 c.next) c.next =
      Tlsf.word (following post stop).size (following post stop).free false :=
    setPrevUsed_word hn2 hac.nextWords hac.nextSmall
  have hp3 : sizeField (blockSetPrevUsed m2 c.next) p.addr =
      Tlsf.word (p.size + (c.size + 4)) false (lastFree false pre) := by
    unfold blockSetPrevUsed
    rw [sizeField_setSizeField_of_ne (by omega), hp2]
  have hsame : ∀ x, x < p.addr + 4 ∨ p.addr + 8 ≤ x ∧ x < c.next ∨ c.next + 8 ≤ x →
      blockSetUsed (blockSetPrevUsed m2 c.next) p.addr x = mem x := fun x hx => by
    unfold blockSetUsed blockSetPrevUsed
    rw [setSizeField_of_out (by omega), setSizeField_of_out (by omega), ← hm2,
      setPrevPhysBlock_of_out (by omega), ← hm1, setSizeField_of_out (by omega)]
  refine ⟨?_, hsame⟩
  have happ : pre ++ p :: c :: post = pre ++ [p, c] ++ post := by simp
  rw [happ] at h
  rw [List.append_cons]
  refine h.replace ha.before hac.behind ⟨rfl, hj.next false⟩ ?_ (fun x hx => hsame x (by omega))
    ⟨⟨setUsed_word hp3 hj.words hj.max, fun hf => Bool.noConfusion hf⟩, trivial⟩ ?_
  · intro d hd
    obtain rfl := List.mem_singleton.mp hd
    exact ⟨by dsimp only; omega, hj.max, hj.words⟩
  · unfold blockSetUsed
    rw [sizeField_setSizeField_of_ne (by omega), hn3]
    rfl

/-- A block is cut in two, and the second one is free: the links and marks that `block_split` and its
callers write. -/
theorem Pool.split {size : Nat} (h : Pool mem start (pre ++ c :: post) stop) (h12 : 12 ≤ size)
    (h4 : size % 4 = 0) (hfit : headerSize + size ≤ c.size) :
    (blockSplit mem c.addr size).1 = c.addr + size + 4 ∧
    blockNext (blockSplit mem c.addr size).2 c.addr = c.addr + size + 4 ∧
    (∀ x, c.addr + 8 ≤ x → x < c.addr + size + 8 → (blockSplit mem c.addr size).2 x = mem x) ∧
    ∀ mem', (∀ x, x < c.addr + size + 4 ∨ c.addr + size + 12 ≤ x →
        mem' x = (blockSplit mem c.addr size).2 x) →
      (c.free = true → prevPhysBlock mem' (c.addr + size + 4) = c.addr) →
      (∀ f q, sizeField (blockSplit mem c.addr size).2 (c.addr + size + 4) =
          Tlsf.word (c.size - (size + 4)) f q →
        sizeField mem' (c.addr + size + 4) = Tlsf.word (c.size - (size + 4)) f c.free) →
      Pool mem' start
          (pre ++ ⟨c.addr, size, c.free⟩ :: ⟨c.addr + size + 4, c.size - (size + 4), true⟩ :: post) stop ∧
        Outside mem mem' (c.addr + 4) (c.next + 8) := by
  have ha := h.at
  have hs := ha.sized
  have hmax := hs.max
  have hcw := hs.words
  have hword := ha.word
  have hn := ha.next.size
  rw [ha.nextAddr] at hn
  unfold headerSize at hfit
  have hrem : blockToPtr c.addr + size - blockHeaderOverhead = c.addr + size + 4 := by
    unfold blockToPtr blockStartOffset blockHeaderOverhead
    omega
  have hrs : blockSize mem c.addr - (size + blockHeaderOverhead) = c.size - (size + 4) := by
    rw [ha.blockSize]
    rfl
  have hsplit : blockSplit mem c.addr size = (c.addr + size + 4, blockMarkAsFree (blockSetSize
      (blockSetSize mem (c.addr + size + 4) (c.size - (size + 4))) c.addr size) (c.addr + size + 4)) := by
    unfold blockSplit
    dsimp only
    rw [hrem, hrs]
  rw [hsplit]
  dsimp only
  -- the size of the second block, whose flags were bytes of the payload
  have hr4 : (c.size - (size + 4)) % 4 = 0 := by omega
  have hr30 : c.size - (size + 4) < 2 ^ 30 := by omega
  obtain ⟨f, q, hfq⟩ := exists_flags (Nat.mod_lt (sizeField mem (c.addr + size + 4)) (by decide : 4 > 0))
  generalize hm1 : blockSetSize mem (c.addr + size + 4) (c.size - (size + 4)) = m1 at *
  have hsz1 : sizeField m1 (c.addr + size + 4) = Tlsf.word (c.size - (size + 4)) f q := by
    rw [← hm1]
    exact setSize_word hfq hr4 hr30
  have hc1 : sizeField m1 c.addr = Tlsf.word c.size c.free (lastFree false pre) := by
    rw [← hm1]
    unfold blockSetSize
    rw [sizeField_setSizeField_of_ne (by omega), ha.holds.size]
  have hn1 : sizeField m1 c.next =
      Tlsf.word (following post stop).size (following post stop).free c.free := by
    rw [← hm1]
    unfold blockSetSize
    rw [sizeField_setSizeField_of_ne (by unfold Cell.next; omega), hn]
  have hout1 : ∀ x, x < c.addr + 4 ∨ c.addr + 8 ≤ x ∧ x < c.addr + size + 8 ∨ c.next + 8 ≤ x →
      m1 x = mem x := fun x hx => by
    rw [← hm1]
    exact setSizeField_of_out (by unfold Cell.next at hx; omega)
  generalize hm2 : blockSetSize m1 c.addr size = m2 at *
  have hmod : sizeField m1 c.addr % 4 = c.free.toNat + 2 * (lastFree false pre).toNat := by
    have hlt := flags_lt c.free (lastFree false pre)
    rw [hc1]
    unfold Tlsf.word
    omega
  have hc2 : sizeField m2 c.addr = Tlsf.word size c.free (lastFree false pre) := by
    rw [← hm2]
    exact setSize_word hmod h4 (by omega)
  have hsz2 : sizeField m2 (c.addr + size + 4) = Tlsf.word (c.size - (size + 4)) f q := by
    rw [← hm2]
    unfold blockSetSize
    rw [sizeField_setSizeField_of_ne (by omega), hsz1]
  have hn2 : sizeField m2 c.next =
      Tlsf.word (following post stop).size (following post stop).free c.free := by
    rw [← hm2]
    unfold blockSetSize
    rw [sizeField_setSizeField_of_ne (by unfold Cell.next; omega), hn1]
  have hout2 : ∀ x, x < c.addr + 4 ∨ c.addr + 8 ≤ x ∧ x < c.addr + size + 8 ∨ c.next + 8 ≤ x →
      m2 x = mem x := fun x hx => by
    rw [← hout1 x hx, ← hm2]
    exact setSizeField_of_out (by unfold Cell.next at hx; omega)
  -- the second block is marked free
  have hbn : blockNext m2 (c.addr + size + 4) = c.next := by
    unfold Tlsf.blockNext
    rw [blockSize_of_word hsz2 hr4 hr30]
    unfold blockToPtr blockStartOffset blockHeaderOverhead Cell.next
    omega
  have hlo : c.addr + size + 20 ≤ c.next := by
    unfold Cell.next
    omega
  have hm3 : blockMarkAsFree m2 (c.addr + size + 4) = blockSetFree (blockSetPrevFree
      (setPrevPhysBlock m2 c.next (c.addr + size + 4)) c.next) (c.addr + size + 4) := by
    unfold blockMarkAsFree blockLinkNext
    rw [hbn]
  rw [hm3]
  generalize hr : blockSetPrevFree (setPrevPhysBlock m2 c.next (c.addr + size + 4)) c.next = m3 at *
  have hn3 : sizeField m3 c.next = Tlsf.word (following post stop).size (following post stop).free true := by
    rw [← hr]
    exact setPrevFree_word (by rw [sizeField_setPrevPhysBlock_self, hn2]) ha.nextWords ha.nextSmall
  have hsz3 : sizeField m3 (c.addr + size + 4) = Tlsf.word (c.size - (size + 4)) f q := by
    rw [← hr]
    unfold blockSetPrevFree
    rw [sizeField_setSizeField_of_ne (by omega), sizeField_setPrevPhysBlock (by omega), hsz2]
  have hc3 : sizeField m3 c.addr = Tlsf.word size c.free (lastFree false pre) := by
    rw [← hr]
    unfold blockSetPrevFree
    rw [sizeField_setSizeField_of_ne (by omega), sizeField_setPrevPhysBlock (by omega), hc2]
  have hl3 : prevPhysBlock m3 c.next = c.addr + size + 4 := by
    rw [← hr]
    unfold blockSetPrevFree
    rw [prevPhysBlock_setSizeField (by omega), prevPhysBlock_setPrevPhysBlock (by omega)]
  have hout3 : ∀ x, x < c.addr + 4 ∨ c.addr + 8 ≤ x ∧ x < c.addr + size + 8 ∨ c.next + 8 ≤ x →
      m3 x = mem x := fun x hx => by
    rw [← hout2 x hx, ← hr]
    unfold blockSetPrevFree
    rw [setSizeField_of_out (by omega), setPrevPhysBlock_of_out (by omega)]
  refine ⟨rfl, ?_, fun x h1 h2 => ?_, fun mem' hmem hlink htag => ?_⟩
  · have hc4 : sizeField (blockSetFree m3 (c.addr + size + 4)) c.addr =
        Tlsf.word size c.free (lastFree false pre) := by
      unfold blockSetFree
      rw [sizeField_setSizeField_of_ne (by omega), hc3]
    unfold Tlsf.blockNext
    rw [blockSize_of_word hc4 h4 (by omega)]
    unfold blockToPtr blockStartOffset blockHeaderOverhead
    omega
  · rw [← hout3 x (.inr (.inl ⟨h1, h2⟩))]
    exact setSizeField_of_out (by omega)
  have h4' : ∀ x, x < c.addr + size + 4 ∨ c.addr + size + 12 ≤ x → mem' x = m3 x := fun x hx => by
    rw [hmem x hx]
    exact setSizeField_of_out (by omega)
  have htag' := htag true q (setFree_word hsz3 hr4 hr30)
  have hout : Outside mem mem' (c.addr + 4) (c.next + 8) := fun x hx => by
    rw [h4' x (by omega), hout3 x (by omega)]
  refine ⟨?_, hout⟩
  have hend : (⟨c.addr + size + 4, c.size - (size + 4), true⟩ : Cell).next = c.next := by
    unfold Cell.next
    dsimp only
    omega
  have happ : pre ++ ⟨c.addr, size, c.free⟩ :: ⟨c.addr + size + 4, c.size - (size + 4), true⟩ :: post =
      pre ++ [⟨c.addr, size, c.free⟩, ⟨c.addr + size + 4, c.size - (size + 4), true⟩] ++ post := by simp
  rw [List.append_cons] at h
  rw [happ]
  refine h.replace ha.before ha.behind ⟨rfl, rfl, hend⟩ ?_ hout
    ⟨⟨?_, hlink⟩, ⟨htag', fun _ => ?_⟩, trivial⟩ ?_
  · intro d hd
    rcases List.mem_cons.mp hd with rfl | hd
    · exact ⟨h12, by dsimp only; omega, h4⟩
    · obtain rfl := List.mem_singleton.mp hd
      exact ⟨by dsimp only; omega, hr30, hr4⟩
  · have hread : sizeField mem' c.addr = sizeField m3 c.addr :=
      read32_congr fun x h1 h2 => h4' x (by omega)
    exact hread.trans hc3
  · rw [hend]
    exact (read32_congr fun x h1 h2 => h4' x (by omega)).trans hl3
  · exact (read32_congr fun x h1 h2 => h4' x (by omega)).trans hn3

end Tlsf
end Hashx86
