import Hashx86.Lib.Buffers
import Hashx86.Lib.Run
import Hashx86.User.Alloc

/-!
# A program on the user heap

`Program` is the heap with two ghosts: `live` are the blocks that the program has, with the sizes
that it asked for, `leaked` those that it gave back at an address that no block of the list has (an
address of `aligned_kmalloc`).

* `Holds`: each of these lies in a used block of the list of its own, and there are no other used
  blocks with data.
* `step_good`: each call serves the program, and keeps the invariant.
-/

namespace Hashx86

open Lib

namespace UserHeap

structure Program where
  heap : State
  live : List Block
  leaked : List Block

inductive Call where
  | kmalloc (size : Int)
  | alignedKmalloc (size alignment : Nat)
  | kcalloc (n size : Int)
  | krealloc (ptr : Nat) (size : Int)
  | kfree (ptr : Nat)
  | store (addr : Nat) (byte : UInt8)

namespace Program

/-- The block that a call returned belongs to the program. -/
def take (p : Program) (r : Nat × State) (size : Nat) : Nat × Program :=
  (r.1, { p with heap := r.2, live := if r.1 = 0 then p.live else ⟨r.1, size⟩ :: p.live })

/-- The block that `krealloc` returned is in the place of the one at `ptr`. -/
def swap (p : Program) (r : Nat × State) (ptr size : Nat) : Nat × Program :=
  (r.1, { p with
    heap := r.2
    live := if r.1 = 0 then p.live else ⟨r.1, size⟩ :: release p.live ptr })

/-- The program gave the block at `ptr` back. -/
def giveBack (p : Program) (heap : State) (ptr : Nat) : Program :=
  { heap := heap
    live := release p.live ptr
    leaked := match findData p.heap ptr with
      | none => (p.live.find? (·.addr = ptr)).toList ++ p.leaked
      | some _ => p.leaked }

/-- The program after a store into its memory. -/
def withMem (p : Program) (mem : Nat → UInt8) : Program :=
  { p with heap := { p.heap with mem := mem } }

/-- A call of the program: the address that it returns, and the program then. -/
def step (ok : Nat → Bool) (p : Program) : Call → Nat × Program
  | .kmalloc size => p.take (kmalloc ok p.heap size) size.toNat
  | .alignedKmalloc size alignment => p.take (alignedKmalloc ok p.heap size alignment) size
  | .kcalloc n size => p.take (kcalloc ok p.heap n size) (n * size).toNat
  | .krealloc ptr size =>
    let r := krealloc ok p.heap ptr size
    if ptr = 0 then p.take r size.toNat
    else if size ≤ 0 then (r.1, p.giveBack r.2 ptr)
    else p.swap r ptr size.toNat
  | .kfree ptr => (0, p.giveBack (kfree p.heap ptr) ptr)
  | .store addr byte => (0, p.withMem (overwrite p.heap.mem addr 1 fun _ => byte))

def next (ok : Nat → Bool) (p : Program) (c : Call) : Program := (p.step ok c).2

/-- The program after `heap_init`. -/
def start (ok : Nat → Bool) (mem : Nat → UInt8) (start maxAddress : Nat) : Program :=
  { heap := { brk := initBreak ok start maxAddress, mem := mem, head := 0, blocks := [], lost := [] }
    live := []
    leaked := [] }

/-- `NULL`, or the address of a block of the program. -/
def Owns (p : Program) (ptr : Nat) : Prop := ptr = 0 ∨ ∃ l ∈ p.live, l.addr = ptr

/-- What a program may do: it gives back and writes only blocks that it has, and no size overflows an
`int`, also after the page rounding of `kbrk`. -/
def Allowed (p : Program) : Call → Prop
  | .kmalloc size => Fits p.heap size
  | .alignedKmalloc size alignment =>
    0 < size ∧ (∃ k ≤ 31, alignment = 2 ^ k) ∧ Fits p.heap (size + alignment)
  | .kcalloc n size => n < 0 ∨ size < 0 ∨ Fits p.heap (n * size)
  | .krealloc ptr size => p.Owns ptr ∧ Fits p.heap size
  | .kfree ptr => p.Owns ptr
  | .store addr _ => ∃ l ∈ p.live, l.Has addr

/-- What the program asks for by a call. -/
def request : Call → HeapRequest
  | .kmalloc size => .alloc size.toNat
  | .alignedKmalloc size _ => .alloc size
  | .kcalloc n size => .zeroed (n * size).toNat
  | .krealloc ptr size =>
    if ptr = 0 then .alloc size.toNat
    else if size ≤ 0 then .free ptr
    else .resize ptr size.toNat
  | .kfree ptr => .free ptr
  | .store addr byte => .store addr byte

/-- What the program has in its blocks. -/
def buffers (p : Program) : List Buffer := images p.heap.mem p.live

def held (p : Program) : List Block := p.live ++ p.leaked

end Program

/-- A used block of the list in which `l` lies. -/
structure Backs (b : HeapBlock) (l : Block) : Prop where
  isFree : b.isFree = false
  data : b.data ≠ 0
  low : b.data ≤ l.addr
  high : l.addr + l.size ≤ b.data + b.size

structure Holds (p : Program) : Prop where
  sound : Sound p.heap
  pos : ∀ l ∈ p.held, 0 < l.size
  nodup : p.held.Nodup
  backed : ∀ l ∈ p.held, ∃ b ∈ p.heap.blocks, Backs b l
  alone : ∀ l ∈ p.held, ∀ l' ∈ p.held, ∀ b ∈ p.heap.blocks, Backs b l → Backs b l' → l = l'
  used : ∀ b ∈ p.heap.blocks, b.data ≠ 0 → b.isFree = false → ∃ l ∈ p.held, Backs b l

variable {ok : Nat → Bool} {p : Program} {b b' : HeapBlock} {l l' : Block} {size : Int}
  {r : Nat × State}

/-! ## The blocks of the program -/

/-- Blocks that meet lie in one block of the list. -/
theorem Sound.backs_unique {s : State} (h : Sound s) (hb : b ∈ s.blocks) (hb' : b' ∈ s.blocks)
    (hl : Backs b l) (hl' : Backs b' l') (h1 : l'.addr < l.addr + l.size)
    (h2 : l.addr < l'.addr + l'.size) : b = b' := by
  by_contra hne
  have h3 := (h.placed b hb).data hl.data
  have h4 := (h.placed b' hb').data hl'.data
  have h5 := h.apart hb hb' hne
  have h6 := hl.low
  have h7 := hl.high
  have h8 := hl'.low
  have h9 := hl'.high
  unfold stop at h5
  rw [if_neg hl.data, if_neg hl'.data] at h5
  omega

theorem Holds.apart_held (h : Holds p) : Apart p.held where
  pos := h.pos
  disjoint := h.nodup.imp_of_mem fun {l l'} hl hl' hne => by
    obtain ⟨b, hb, hbl⟩ := h.backed l hl
    obtain ⟨b', hb', hbl'⟩ := h.backed l' hl'
    by_contra hd
    unfold Block.Disjoint at hd
    have heq := h.sound.backs_unique hb hb' hbl hbl' (by omega) (by omega)
    exact hne (h.alone l hl l' hl' b hb hbl (heq ▸ hbl'))

theorem Holds.apart (h : Holds p) : Apart p.live where
  pos l hl := h.pos l (List.mem_append_left _ hl)
  disjoint := (List.pairwise_append.mp h.apart_held.disjoint).1

/-- No header overlaps a block of the program. -/
theorem Holds.header_apart {a x : Nat} (h : Holds p) (ha : IsHeader p.heap a) (hl : l ∈ p.held)
    (hx : l.Has x) : ¬ (header a).Has x := by
  obtain ⟨b, hb, hbl⟩ := h.backed l hl
  have h1 := h.sound.header_data ha hb hbl.data
  have h2 := hbl.low
  have h3 := hbl.high
  unfold Block.Has header at *
  dsimp only at *
  omega

/-- The blocks of the program lie in the heap. -/
theorem Holds.inside (h : Holds p) (hl : l ∈ p.held) :
    p.heap.brk.heapStart ≤ l.addr ∧ l.addr + l.size ≤ p.heap.brk.heapEnd := by
  obtain ⟨b, hb, hbl⟩ := h.backed l hl
  have hp := h.sound.placed b hb
  have h1 := hp.data hbl.data
  have h2 := hp.high
  have h3 := hp.low
  have h4 := h.sound.top_le
  have h5 := hbl.low
  have h6 := hbl.high
  unfold stop at h2
  rw [if_neg hbl.data] at h2
  omega

/-- A write outside the headers. -/
theorem Holds.write {mem : Nat → UInt8} (h : Holds p)
    (hm : ∀ x, (∀ a, IsHeader p.heap a → ¬ (header a).Has x) ∨ mem x = p.heap.mem x) :
    Holds (p.withMem mem) where
  sound := h.sound.congr_mem fun x b hb hx => (hm x).elim
    (fun hout => absurd hx (hout b.addr (.inr ⟨b, hb, rfl⟩))) id
  pos := h.pos
  nodup := h.nodup
  backed := h.backed
  alone := h.alone
  used := h.used

/-! ## Calls that allocate -/

/-- A used block with data was there before the call, or is the one that it returns. -/
theorem Allocates.backs (ha : Allocates p.heap size r) (hb : b ∈ r.2.blocks) (hl : Backs b l) :
    b ∈ p.heap.blocks ∨ b.data = r.1 := ha.taken b hb hl.isFree

theorem Allocates.backed (h : Holds p) (ha : Allocates p.heap size r) (hl : l ∈ p.held) :
    ∃ b ∈ r.2.blocks, Backs b l := by
  obtain ⟨b, hb, hbl⟩ := h.backed l hl
  exact ⟨b, ha.kept b hb hbl.isFree, hbl⟩

/-- The call leaves the bytes of the program alone. -/
theorem Allocates.mem_held {x : Nat} (h : Holds p) (ha : Allocates p.heap size r) (hl : l ∈ p.held)
    (hx : l.Has x) : r.2.mem x = p.heap.mem x := by
  refine ha.mem x fun a hheader hax => ?_
  obtain ⟨b, hb, hbl⟩ := ha.backed h hl
  have h1 := ha.sound.header_data hheader hb hbl.data
  have h2 := hbl.low
  have h3 := hbl.high
  unfold Block.Has header at *
  dsimp only at *
  omega

theorem Allocates.images (h : Holds p) (ha : Allocates p.heap size r) :
    images r.2.mem p.live = p.buffers :=
  images_congr fun _ hl _ hx => ha.mem_held h (List.mem_append_left _ hl) hx

/-- The block of the list in which a block of the program lies was there before the call. -/
theorem Allocates.backs_old (h : Holds p) (ha : Allocates p.heap size r) (hl : l ∈ p.held)
    (hb : b ∈ r.2.blocks) (hbl : Backs b l) : b ∈ p.heap.blocks := by
  obtain ⟨c, hc, hcl⟩ := h.backed l hl
  have hpos := h.pos l hl
  have heq := ha.sound.backs_unique hb (ha.kept c hc hcl.isFree) hbl hcl (by omega) (by omega)
  exact heq ▸ hc

/-- The call returned `NULL`. -/
theorem Holds.refused (h : Holds p) (ha : Allocates p.heap size r) (h0 : r.1 = 0) :
    Holds { p with heap := r.2 } where
  sound := ha.sound
  pos := h.pos
  nodup := h.nodup
  backed _ hl := ha.backed h hl
  alone l hl l' hl' b hb hbl hbl' := h.alone l hl l' hl' b (ha.backs_old h hl hb hbl) hbl hbl'
  used b hb hdata hfree := by
    rcases ha.taken b hb hfree with hold | hnew
    · exact h.used b hold hdata hfree
    · exact absurd (hnew.trans h0) hdata

/-- The call returned a block, and the program uses `l` of it. -/
theorem Holds.taken (h : Holds p) (ha : Allocates p.heap size r) (h0 : r.1 ≠ 0) (hpos : 0 < l.size)
    (hlow : r.1 ≤ l.addr) (hhigh : (l.addr + l.size : Int) ≤ r.1 + size) :
    Holds { p with heap := r.2, live := l :: p.live } := by
  obtain ⟨b₀, hb₀, hdata₀, hfree₀, hsize₀, hnew₀⟩ := ha.block h0
  have hbl₀ : Backs b₀ l := ⟨hfree₀, by rw [hdata₀]; exact h0, by omega, by omega⟩
  have hnew : ∀ b ∈ r.2.blocks, Backs b l → b = b₀ := fun b hb hbl =>
    ha.sound.backs_unique hb hb₀ hbl hbl₀ (by omega) (by omega)
  have hfresh : ∀ l' ∈ p.held, ∀ b ∈ r.2.blocks, Backs b l → ¬ Backs b l' := by
    intro l' hl' b hb hbl hbl'
    have hold := ha.backs_old h hl' hb hbl'
    exact hnew₀ b hold hbl.isFree (by rw [hnew b hb hbl, hdata₀])
  refine ⟨ha.sound, fun l' hl' => ?_, ?_, fun l' hl' => ?_, fun l₁ h₁ l₂ h₂ b hb hb₁ hb₂ => ?_,
    fun b hb hdata hfree => ?_⟩
  · rcases List.mem_cons.mp hl' with rfl | hl'
    · exact hpos
    · exact h.pos l' hl'
  · exact List.nodup_cons.mpr ⟨fun hl => hfresh l hl b₀ hb₀ hbl₀ hbl₀, h.nodup⟩
  · rcases List.mem_cons.mp hl' with rfl | hl'
    · exact ⟨b₀, hb₀, hbl₀⟩
    · exact ha.backed h hl'
  · rcases List.mem_cons.mp h₁ with rfl | h₁ <;> rcases List.mem_cons.mp h₂ with rfl | h₂
    · rfl
    · exact absurd hb₂ (hfresh l₂ h₂ b hb hb₁)
    · exact absurd hb₁ (hfresh l₁ h₁ b hb hb₂)
    · exact h.alone l₁ h₁ l₂ h₂ b (ha.backs_old h h₁ hb hb₁) hb₁ hb₂
  · rcases ha.taken b hb hfree with hold | hnew
    · obtain ⟨l', hl', hbl'⟩ := h.used b hold hdata hfree
      exact ⟨l', List.mem_cons_of_mem _ hl', hbl'⟩
    · have heq := ha.sound.eq_of_data hb hb₀ hdata (hnew.trans hdata₀.symm)
      exact ⟨l, List.mem_cons_self, heq ▸ hbl₀⟩

/-! ## Blocks given back -/

/-- A block of the program that starts where the data of a block of the list does lies in it. -/
theorem Holds.backs_start (h : Holds p) (hl : l ∈ p.held) (hb : b ∈ p.heap.blocks)
    (hdata : b.data = l.addr) (h0 : b.data ≠ 0) : Backs b l := by
  obtain ⟨c, hc, hcl⟩ := h.backed l hl
  have heq : b = c := by
    by_contra hne
    have h1 := (h.sound.placed b hb).data h0
    have h2 := (h.sound.placed c hc).data hcl.data
    have h3 := h.sound.apart hb hc hne
    have h4 := hcl.low
    have h5 := hcl.high
    have h6 := (h.sound.placed b hb).pos
    have h7 := h.pos l hl
    unfold stop at h3
    rw [if_neg h0, if_neg hcl.data] at h3
    omega
  exact heq ▸ hcl

/-- The block that starts where `l` does is marked free. -/
theorem Holds.freed (h : Holds p) (hl : l ∈ p.live) (hb : b ∈ p.heap.blocks)
    (hdata : b.data = l.addr) (h0 : b.data ≠ 0) :
    Holds { p with heap := setFree p.heap b.addr true, live := release p.live l.addr } := by
  have hheld : l ∈ p.held := List.mem_append_left _ hl
  have hbl := h.backs_start hheld hb hdata h0
  have hmem : ∀ c : HeapBlock, c.isFree = false →
      (c ∈ (setFree p.heap b.addr true).blocks ↔ c ∈ p.heap.blocks ∧ c ≠ b) := fun c hc => by
    rw [mem_setFree h.sound hb]
    exact or_iff_right fun he => by rw [he] at hc; exact Bool.noConfusion hc
  have hsub : (release p.live l.addr ++ p.leaked).Sublist p.held :=
    List.eraseP_sublist.append_right _
  have hrest : ∀ l', l' ∈ release p.live l.addr ++ p.leaked ↔ l' ∈ p.held ∧ l' ≠ l := by
    intro l'
    unfold Program.held
    rw [List.mem_append, List.mem_append, mem_release h.apart]
    constructor
    · rintro (⟨h1, h2⟩ | h1)
      · exact ⟨.inl h1, fun he => h2 (by rw [he])⟩
      · refine ⟨.inr h1, fun he => ?_⟩
        exact (List.disjoint_of_nodup_append h.nodup) hl (he ▸ h1)
    · rintro ⟨h1 | h1, h2⟩
      · exact .inl ⟨h1, fun he => h2 (h.apart.eq_of_addr h1 hl he)⟩
      · exact .inr h1
  have hold : ∀ c ∈ (setFree p.heap b.addr true).blocks, ∀ l', Backs c l' → c ∈ p.heap.blocks :=
    fun c hc l' hcl => ((hmem c hcl.isFree).mp hc).1
  refine ⟨sound_setFree h.sound hb fun _ => h0, fun l' hl' => h.pos l' (hsub.subset hl'),
    hsub.nodup h.nodup, fun l' hl' => ?_, fun l₁ h₁ l₂ h₂ c hc hc₁ hc₂ =>
      h.alone l₁ (hsub.subset h₁) l₂ (hsub.subset h₂) c (hold c hc l₁ hc₁) hc₁ hc₂,
    fun c hc hdata hcf => ?_⟩
  · obtain ⟨hl', hne⟩ := (hrest l').mp hl'
    obtain ⟨c, hc, hcl⟩ := h.backed l' hl'
    refine ⟨c, (hmem c hcl.isFree).mpr ⟨hc, fun he => hne ?_⟩, hcl⟩
    exact h.alone l' hl' l hheld b hb (he ▸ hcl) hbl
  · obtain ⟨hc, hne⟩ := (hmem c hcf).mp hc
    obtain ⟨l', hl', hcl⟩ := h.used c hc hdata hcf
    refine ⟨l', (hrest l').mpr ⟨hl', fun he => hne ?_⟩, hcl⟩
    have hpos := h.pos l' hl'
    exact h.sound.backs_unique hc hb hcl (he ▸ hbl) (by omega) (by omega)

/-- The same blocks, in another order or with another ghost. -/
theorem Holds.perm {live leaked : List Block} (h : Holds p) (hp : (live ++ leaked).Perm p.held) :
    Holds { p with live := live, leaked := leaked } where
  sound := h.sound
  pos l hl := h.pos l (hp.mem_iff.mp hl)
  nodup := hp.nodup_iff.mpr h.nodup
  backed l hl := h.backed l (hp.mem_iff.mp hl)
  alone l hl l' hl' := h.alone l (hp.mem_iff.mp hl) l' (hp.mem_iff.mp hl')
  used b hb hdata hfree := by
    obtain ⟨l, hl, hbl⟩ := h.used b hb hdata hfree
    exact ⟨l, hp.mem_iff.mpr hl, hbl⟩

theorem eraseP_append_find {α : Type} (q : α → Bool) (bs : List α) :
    (bs.eraseP q ++ (bs.find? q).toList).Perm bs := by
  induction bs with
  | nil => exact .refl _
  | cons b bs ih =>
    cases hb : q b with
    | true =>
      rw [List.eraseP_cons_of_pos hb, List.find?_cons_of_pos hb]
      exact List.perm_append_singleton b bs
    | false =>
      have hneg : ¬ q b = true := by rw [hb]; exact Bool.false_ne_true
      rw [List.eraseP_cons_of_neg hneg, List.find?_cons_of_neg hneg]
      exact .cons b ih

theorem findData_some {s : State} {ptr : Nat} (h : findData s ptr = some b) :
    b ∈ s.blocks ∧ b.data = ptr := by
  refine ⟨List.mem_of_find?_eq_some h, ?_⟩
  have hfound := List.find?_some h
  exact of_decide_eq_true hfound

theorem Holds.addr_ne (h : Holds p) (hl : l ∈ p.held) : l.addr ≠ 0 := by
  obtain ⟨b, -, hbl⟩ := h.backed l hl
  have h1 := hbl.data
  have h2 := hbl.low
  omega

/-- `kfree` of a block of the program. -/
theorem Holds.kfree (h : Holds p) (hl : l ∈ p.live) :
    Holds (p.giveBack (kfree p.heap l.addr) l.addr) := by
  have h0 := h.addr_ne (List.mem_append_left _ hl)
  unfold Program.giveBack UserHeap.kfree
  rw [if_neg h0]
  cases hf : findData p.heap l.addr with
  | none =>
    refine h.perm ?_
    rw [← List.append_assoc]
    exact (eraseP_append_find _ _).append_right _
  | some b =>
    obtain ⟨hb, hdata⟩ := findData_some hf
    exact h.freed hl hb hdata (by rw [hdata]; exact h0)

/-- `kfree` of `NULL`. -/
theorem Holds.giveBack_zero (h : Holds p) : p.giveBack p.heap 0 = p := by
  have hne : ∀ l ∈ p.live, ¬ decide (l.addr = 0) = true := fun l hl he =>
    h.addr_ne (List.mem_append_left _ hl) (of_decide_eq_true he)
  have hlive : release p.live 0 = p.live := List.eraseP_of_forall_not hne
  have hfind : p.live.find? (fun l => decide (l.addr = 0)) = none := List.find?_eq_none.mpr hne
  unfold Program.giveBack
  rw [hlive]
  cases findData p.heap 0 with
  | none => rw [hfind]; rfl
  | some b => rfl

/-- `kfree` writes headers only. -/
theorem mem_kfree {s : State} {ptr x : Nat} (hx : ∀ a, IsHeader s a → ¬ (header a).Has x) :
    (kfree s ptr).mem x = s.mem x := by
  unfold kfree
  split
  · rfl
  · split
    · rfl
    · rename_i b hf
      have hb := (findData_some hf).1
      exact storeFree_of_out _ _ (not_has_header (hx b.addr (.inr ⟨b, hb, rfl⟩)))

/-! ## The calls -/

theorem take_null (p : Program) (h0 : r.1 = 0) (n : Nat) : p.take r n = (0, { p with heap := r.2 }) := by
  unfold Program.take
  rw [if_pos h0, h0]

theorem take_block (p : Program) (h0 : r.1 ≠ 0) (n : Nat) :
    p.take r n = (r.1, { p with heap := r.2, live := ⟨r.1, n⟩ :: p.live }) := by
  unfold Program.take
  rw [if_neg h0]

theorem swap_null (p : Program) (h0 : r.1 = 0) (ptr n : Nat) :
    p.swap r ptr n = (0, { p with heap := r.2 }) := by
  unfold Program.swap
  rw [if_pos h0, h0]

theorem swap_block (p : Program) (h0 : r.1 ≠ 0) (ptr n : Nat) :
    p.swap r ptr n = (r.1, { p with heap := r.2, live := ⟨r.1, n⟩ :: release p.live ptr }) := by
  unfold Program.swap
  rw [if_neg h0]

/-- A block that `kmalloc` returned lies below `2 ^ 32`. -/
theorem Allocates.end_lt {s : State} (ha : Allocates s size r) (h0 : r.1 ≠ 0) :
    (r.1 + size : Int) < 0x100000000 := by
  obtain ⟨b, hb, hdata, -, hsize, -⟩ := ha.block h0
  have h1 := (ha.sound.placed b hb).high
  have h2 := ha.sound.top_lt
  unfold stop at h1
  rw [if_neg (by rw [hdata]; exact h0)] at h1
  omega

theorem pos_of_kmalloc {s : State} (h : (kmalloc ok s size).1 ≠ 0) : 0 < size := by
  by_contra hle
  exact h (by rw [kmalloc_nonpos (by omega)])

/-- A call keeps the invariant, and serves the request. -/
def Good (p : Program) (req : HeapRequest) (r : Nat × Program) : Prop :=
  Holds r.2 ∧ Serves p.buffers req r.1 r.2.buffers

/-- A request that may be refused was. -/
theorem good_refused {req : HeapRequest} (h : Holds p) (ha : Allocates p.heap size r) (h0 : r.1 = 0)
    (hreq : Serves p.buffers req 0 p.buffers) : Good p req (0, { p with heap := r.2 }) := by
  refine ⟨h.refused ha h0, ?_⟩
  have himages : Program.buffers { p with heap := r.2 } = p.buffers := ha.images h
  dsimp only
  rw [himages]
  exact hreq

theorem serves_alloc {bs : List Buffer} {a n : Nat} {bytes : List UInt8} (ha : a ≠ 0)
    (hn : bytes.length = n) : Serves bs (.alloc n) a (⟨a, bytes⟩ :: bs) := hn ▸ .alloc ha

/-- The program gets the block `⟨a, n⟩` inside the block that `kmalloc` returned. -/
theorem good_alloc {a n : Nat} (h : Holds p) (ha : Allocates p.heap size r) (h0 : r.1 ≠ 0)
    (hn : 0 < n) (hlow : r.1 ≤ a) (hhigh : (a + n : Int) ≤ r.1 + size) :
    Good p (.alloc n) (a, { p with heap := r.2, live := ⟨a, n⟩ :: p.live }) := by
  refine ⟨h.taken ha h0 hn hlow hhigh, ?_⟩
  unfold Program.buffers
  dsimp only
  rw [images_cons, ha.images h]
  exact serves_alloc (by omega) (length_bytesOf _ _)

theorem good_kmalloc (h : Holds p) (hf : Fits p.heap size) :
    Good p (.alloc size.toNat) (p.take (kmalloc ok p.heap size) size.toNat) := by
  have ha : Allocates p.heap size (kmalloc ok p.heap size) := kmalloc_spec h.sound hf
  by_cases h0 : (kmalloc ok p.heap size).1 = 0
  · rw [take_null p h0]
    exact good_refused h ha h0 (.noAlloc _)
  · rw [take_block p h0]
    have hpos := pos_of_kmalloc h0
    exact good_alloc h ha h0 (by omega) (Nat.le_refl _) (by omega)

theorem int32_of_lt {n : Nat} (h : n < 0x80000000) : int32 n = n := if_pos h

theorem good_alignedKmalloc {n k : Nat} (h : Holds p) (hn : 0 < n) (hk : k ≤ 31)
    (hf : Fits p.heap (n + (2 ^ k : Nat))) :
    Good p (.alloc n) (p.take (alignedKmalloc ok p.heap n (2 ^ k)) n) := by
  have hpow : 0 < 2 ^ k := Nat.two_pow_pos k
  have hlt := hf.1
  have hsize : int32 ((n + 2 ^ k) % 0x100000000) = n + (2 ^ k : Nat) := by
    rw [Nat.mod_eq_of_lt (by omega), int32_of_lt (by omega), Int.natCast_add]
  have ha : Allocates p.heap (n + (2 ^ k : Nat)) (kmalloc ok p.heap (n + (2 ^ k : Nat))) :=
    kmalloc_spec h.sound hf
  unfold alignedKmalloc
  dsimp only
  rw [hsize]
  generalize kmalloc ok p.heap (n + (2 ^ k : Nat)) = r at ha ⊢
  by_cases h0 : r.1 = 0
  · rw [if_pos h0, take_null p rfl]
    exact good_refused (r := r) h ha h0 (.noAlloc _)
  · rw [if_neg h0]
    have hend := ha.end_lt h0
    obtain ⟨-, hle, hlt⟩ := alignUp_spec (x := r.1) (k := k) (by omega) (by omega)
    rw [take_block p (by dsimp only; omega)]
    exact good_alloc (r := r) h ha h0 hn hle (by omega)

/-- A store into a block of the program changes no other block of it. -/
theorem images_overwrite {a n : Nat} {live : List Block} (hd : ∀ l' ∈ live, l.Disjoint l')
    (mem : Nat → UInt8) (hlow : l.addr ≤ a) (hhigh : a + n ≤ l.addr + l.size) (src : Nat → UInt8) :
    images (overwrite mem a n src) live = images mem live := by
  refine images_congr fun l' hl' x hx => overwrite_of_out _ _ ?_
  have h1 := hd l' hl'
  unfold Block.Disjoint at h1
  unfold Block.Has at hx
  omega

/-- A store into a block of the program. -/
theorem Holds.overwrite {a n : Nat} (h : Holds p) (hl : l ∈ p.live) (hlow : l.addr ≤ a)
    (hhigh : a + n ≤ l.addr + l.size) (src : Nat → UInt8) :
    Holds (p.withMem (overwrite p.heap.mem a n src)) := by
  refine h.write fun x => ?_
  by_cases hx : a ≤ x ∧ x < a + n
  · refine .inl fun b hb hbx => ?_
    have hlx : l.Has x := ⟨by omega, by omega⟩
    exact h.header_apart hb (List.mem_append_left _ hl) hlx hbx
  · exact .inr (overwrite_of_out _ _ (by omega))

theorem mul32_eq {n m : Int} (hn : 0 ≤ n) (hm : 0 ≤ m) (hlt : n * m < 0x80000000) :
    mul32 n m = n * m := by
  have hpos : 0 ≤ n * m := Int.mul_nonneg hn hm
  unfold mul32
  rw [Int.emod_eq_of_lt hpos (by omega), int32_of_lt (by omega), Int.toNat_of_nonneg hpos]

theorem good_kcalloc {n : Int} (h : Holds p) (hf : n < 0 ∨ size < 0 ∨ Fits p.heap (n * size)) :
    Good p (.zeroed (n * size).toNat) (p.take (kcalloc ok p.heap n size) (n * size).toNat) := by
  unfold kcalloc
  by_cases hneg : (n < 0 || size < 0) = true
  · rw [if_pos hneg, take_null p rfl]
    exact ⟨h, .noZeroed _⟩
  rw [if_neg hneg]
  have hnonneg : 0 ≤ n ∧ 0 ≤ size := by simpa using hneg
  have hf' : Fits p.heap (n * size) := by
    rcases hf with h1 | h1 | h1
    · omega
    · omega
    · exact h1
  rw [mul32_eq hnonneg.1 hnonneg.2 hf'.1]
  dsimp only
  have ha : Allocates p.heap (n * size) (kmalloc ok p.heap (n * size)) := kmalloc_spec h.sound hf'
  by_cases h0 : (kmalloc ok p.heap (n * size)).1 = 0
  · rw [if_pos h0, take_null p rfl]
    exact good_refused (r := kmalloc ok p.heap (n * size)) h ha h0 (.noZeroed _)
  · have hpos := pos_of_kmalloc h0
    generalize kmalloc ok p.heap (n * size) = r at ha h0 ⊢
    obtain ⟨m, hm⟩ : ∃ m : Nat, (n * size).toNat = m := ⟨_, rfl⟩
    have htake := take_block (r := (r.1, { r.2 with mem := overwrite r.2.mem r.1 m fun _ => 0 })) p h0 m
    rw [if_neg h0, hm, htake]
    have hgood := (good_alloc (r := r) h ha h0 (n := m) (by omega) (Nat.le_refl _) (by omega)).1
    refine ⟨hgood.overwrite (l := ⟨r.1, m⟩) List.mem_cons_self (Nat.le_refl _) (Nat.le_refl _) _, ?_⟩
    have hdisjoint := (List.pairwise_cons.mp hgood.apart.disjoint).1
    have himages := ha.images h
    unfold Program.buffers
    dsimp only
    rw [images_cons, images_overwrite hdisjoint _ (Nat.le_refl _) (Nat.le_refl _), himages, image,
      bytesOf_const fun x hx => overwrite_of_in _ _ hx.1 hx.2]
    exact .zeroed h0

/-- `kfree` of a block of the program, or of `NULL`. -/
theorem good_kfree {ptr : Nat} (h : Holds p) (ho : p.Owns ptr) :
    Good p (.free ptr) (0, p.giveBack (kfree p.heap ptr) ptr) := by
  have himages : images (kfree p.heap ptr).mem (release p.live ptr) = dropAt p.buffers ptr := by
    rw [Program.buffers, ← images_release]
    refine images_congr fun l hl x hx => mem_kfree fun a ha => ?_
    exact h.header_apart ha (List.mem_append_left _ (List.mem_of_mem_eraseP hl)) hx
  have hserves : Serves p.buffers (.free ptr) 0 (p.giveBack (kfree p.heap ptr) ptr).buffers := by
    unfold Program.buffers Program.giveBack
    dsimp only
    rw [himages]
    exact .free ptr
  refine ⟨?_, hserves⟩
  rcases ho with rfl | ⟨l, hl, rfl⟩
  · have hnull : kfree p.heap 0 = p.heap := if_pos rfl
    dsimp only
    rw [hnull, h.giveBack_zero]
    exact h
  · exact h.kfree hl

/-- `krealloc` has copied `n` bytes into the new block and marked the old one free. -/
theorem good_resize {m n : Nat} {mem : Nat → UInt8} (h : Holds p) (ha : Allocates p.heap m r)
    (h0 : r.1 ≠ 0) (hm : 0 < m) (hl : l ∈ p.live) (hb : b ∈ p.heap.blocks) (hdata : b.data = l.addr)
    (hn : n = if b.size < m then b.size else m)
    (hmem : mem = overwrite r.2.mem r.1 n fun i => r.2.mem (l.addr + i)) :
    Good p (.resize l.addr m) (r.1, { p with
      heap := setFree { r.2 with mem := mem } b.addr true
      live := ⟨r.1, m⟩ :: release p.live l.addr }) := by
  have hheld : l ∈ p.held := List.mem_append_left _ hl
  have hdata0 : b.data ≠ 0 := by rw [hdata]; exact h.addr_ne hheld
  have hbl := h.backs_start hheld hb hdata hdata0
  have hle : n ≤ m := by rw [hn]; split <;> omega
  have htaken := h.taken (l := ⟨r.1, m⟩) ha h0 hm (Nat.le_refl _) (Int.le_refl _)
  have hcopied := htaken.overwrite (a := r.1) (n := n) List.mem_cons_self (Nat.le_refl _)
    (Nat.add_le_add_left hle _) fun i => r.2.mem (l.addr + i)
  have hkept : b ∈ r.2.blocks := ha.kept b hb hbl.isFree
  have hdisjoint := (List.pairwise_cons.mp htaken.apart.disjoint).1
  have hrelease : release (⟨r.1, m⟩ :: p.live) l.addr = ⟨r.1, m⟩ :: release p.live l.addr := by
    refine List.eraseP_cons_of_neg fun he => ?_
    have hsame : r.1 = l.addr := of_decide_eq_true he
    have hd := hdisjoint l hl
    have hpos := h.pos l hheld
    unfold Block.Disjoint at hd
    dsimp only at hd
    omega
  have hfreed := hcopied.freed (l := l) (List.mem_cons_of_mem _ hl) hkept hdata hdata0
  rw [show (Program.withMem _ _).live = ⟨r.1, m⟩ :: p.live from rfl, hrelease] at hfreed
  refine ⟨hmem ▸ hfreed, ?_⟩
  -- the mark is written into a header, the copy into the new block
  have hmark : ∀ l' : Block, l' ∈ (⟨r.1, m⟩ :: release p.live l.addr : List Block) →
      ∀ x, l'.Has x → storeFree mem b.addr true x = mem x := fun l' hl' x hx =>
    storeFree_of_out _ _ (not_has_header (hfreed.header_apart
      (.inr ⟨_, (mem_setFree hcopied.sound hkept).mpr (.inl rfl), rfl⟩)
      (List.mem_append_left _ hl') hx))
  have hapart : ∀ l' ∈ release p.live l.addr, Block.Disjoint ⟨r.1, m⟩ l' := fun l' hl' =>
    hdisjoint l' (List.mem_of_mem_eraseP hl')
  have hrest : images mem (release p.live l.addr) = dropAt p.buffers l.addr := by
    rw [hmem, images_overwrite hapart _ (Nat.le_refl r.1) (Nat.add_le_add_left hle _),
      images_release, ha.images h]
  have hbuffers : images (storeFree mem b.addr true) (⟨r.1, m⟩ :: release p.live l.addr) =
      ⟨r.1, bytesOf mem ⟨r.1, m⟩⟩ :: dropAt p.buffers l.addr := by
    rw [images_congr hmark, images_cons, hrest, image]
  have hold : (⟨l.addr, bytesOf p.heap.mem l⟩ : Buffer) ∈ p.buffers := List.mem_map_of_mem hl
  have hserves : Serves p.buffers (.resize l.addr (bytesOf mem ⟨r.1, m⟩).length) r.1
      (⟨r.1, bytesOf mem ⟨r.1, m⟩⟩ :: dropAt p.buffers l.addr) := .resize h0 hold fun i hi hi' => by
      rw [length_bytesOf] at hi hi'
      have hsize := hbl.high
      have hin : i < n := by
        rw [hn]
        split <;> omega
      rw [getElem?_bytesOf hi', getElem?_bytesOf hi, hmem]
      dsimp only
      rw [overwrite_of_in _ _ (Nat.le_add_right _ _) (by omega), Nat.add_sub_cancel_left,
        ha.mem_held h hheld ⟨Nat.le_add_right _ _, by omega⟩]
  rw [length_bytesOf, ← hbuffers] at hserves
  exact hserves

theorem good_krealloc (h : Holds p) (hl : l ∈ p.live) (hpos : ¬ size ≤ 0) (hf : Fits p.heap size) :
    Good p (.resize l.addr size.toNat) (p.step ok (.krealloc l.addr size)) := by
  have h0 := h.addr_ne (List.mem_append_left _ hl)
  unfold Program.step krealloc
  dsimp only
  rw [if_neg h0, if_neg hpos, if_neg h0, if_neg hpos]
  cases hfound : findData p.heap l.addr with
  | none =>
    dsimp only
    rw [swap_null p rfl]
    exact ⟨h, .noResize _ _⟩
  | some b =>
    obtain ⟨hb, hdata⟩ := findData_some hfound
    have ha : Allocates p.heap size (kmalloc ok p.heap size) := kmalloc_spec h.sound hf
    generalize kmalloc ok p.heap size = r at ha ⊢
    dsimp only
    by_cases hr : r.1 = 0
    · rw [if_pos hr, swap_null p rfl]
      exact good_refused (r := r) h ha hr (.noResize _ _)
    · have hswap := fun s' => swap_block (r := (r.1, s')) p hr l.addr size.toNat
      rw [if_neg hr, hswap]
      obtain ⟨m, rfl⟩ : ∃ m : Nat, size = m := ⟨size.toNat, by omega⟩
      exact good_resize h ha hr (by omega) hl hb hdata rfl rfl

/-- `krealloc` of `NULL` is `kmalloc`. -/
theorem good_krealloc_null (h : Holds p) (hf : Fits p.heap size) :
    Good p (Program.request (.krealloc 0 size)) (p.step ok (.krealloc 0 size)) :=
  good_kmalloc h hf

/-- `krealloc` to no bytes is `kfree`. -/
theorem good_krealloc_free {ptr : Nat} (h : Holds p) (ho : p.Owns ptr) (h0 : ptr ≠ 0)
    (hneg : size ≤ 0) :
    Good p (Program.request (.krealloc ptr size)) (p.step ok (.krealloc ptr size)) := by
  have hreq : Program.request (.krealloc ptr size) = .free ptr := (if_neg h0).trans (if_pos hneg)
  have hstep : p.step ok (.krealloc ptr size) = (0, p.giveBack (kfree p.heap ptr) ptr) := by
    have hcall : krealloc ok p.heap ptr size = (0, kfree p.heap ptr) :=
      (if_neg h0).trans (if_pos hneg)
    unfold Program.step
    dsimp only
    rw [hcall, if_neg h0, if_pos hneg]
  rw [hreq, hstep]
  exact good_kfree h ho

/-- Each call of a program serves it. -/
theorem step_good {c : Call} (h : Holds p) (ha : p.Allowed c) :
    Good p (Program.request c) (p.step ok c) := by
  cases c with
  | kmalloc size => exact good_kmalloc h ha
  | alignedKmalloc size alignment =>
    obtain ⟨hpos, ⟨k, hk, rfl⟩, hf⟩ := ha
    exact good_alignedKmalloc h hpos hk hf
  | kcalloc n size => exact good_kcalloc h ha
  | krealloc ptr size =>
    obtain ⟨ho, hf⟩ := ha
    rcases ho with rfl | ⟨l, hl, rfl⟩
    · exact good_krealloc_null h hf
    · have h0 := h.addr_ne (List.mem_append_left _ hl)
      by_cases hpos : size ≤ 0
      · exact good_krealloc_free h (.inr ⟨l, hl, rfl⟩) h0 hpos
      · have hreq : Program.request (.krealloc l.addr size) = .resize l.addr size.toNat :=
          (if_neg h0).trans (if_neg hpos)
        rw [hreq]
        exact good_krealloc h hl hpos hf
  | kfree ptr => exact good_kfree h ha
  | store addr byte =>
    obtain ⟨l, hl, hx⟩ := ha
    unfold Block.Has at hx
    refine ⟨h.overwrite hl hx.1 hx.2 _, ?_⟩
    have himages : Program.buffers (p.step ok (.store addr byte)).2 =
        p.buffers.map (·.store addr byte) := images_store _ _ _ _
    rw [himages]
    exact .store addr byte

end UserHeap
end Hashx86
