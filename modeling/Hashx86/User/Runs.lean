import Hashx86.User.Program

/-!
# Runs of a program on the user heap

* `run_serves`: every call of a run serves the program, and leaves its blocks apart, inside the heap
  and clear of every header (`Laid`).
* `run_used`: which blocks of the list are marked used after a run.
-/

namespace Hashx86

open Lib

namespace UserHeap

structure Laid (p : Program) : Prop where
  apart : Apart p.live
  inside : ∀ l ∈ p.live, p.heap.brk.heapStart ≤ l.addr ∧ l.addr + l.size ≤ p.heap.brk.heapEnd
  headers : ∀ a, IsHeader p.heap a → ∀ l ∈ p.live, (header a).Disjoint l
  chain : Chain p.heap.mem p.heap.head p.heap.blocks

/-- The call is one of `aligned_kmalloc`. -/
def Call.Aligns : Call → Prop
  | .alignedKmalloc _ _ => True
  | _ => False

/-- Each block of the program starts where the data of a block of the list does. -/
def Exact (p : Program) : Prop := ∀ l ∈ p.live, ∃ b ∈ p.heap.blocks, b.data = l.addr

variable {ok : Nat → Bool} {p : Program} {b : HeapBlock} {l : Block} {size : Int} {r : Nat × State}
  {start maxAddress : Nat}

theorem Holds.laid (h : Holds p) : Laid p where
  apart := h.apart
  inside l hl := h.inside (List.mem_append_left _ hl)
  headers a ha l hl := by
    by_contra hd
    have hl' := List.mem_append_left p.leaked hl
    have hpos := h.pos l hl'
    have hout := fun x => h.header_apart (x := x) ha hl'
    unfold Block.Disjoint at hd
    unfold Block.Has header headerSize at hout
    unfold header headerSize at hd
    dsimp only at hd hout
    have hlow := hout l.addr
    have hhigh := hout a
    omega
  chain := h.sound.chain

theorem start_holds (ok : Nat → Bool) (mem : Nat → UInt8) (hs : start < 0x100000000) :
    Holds (Program.start ok mem start maxAddress) where
  sound := ⟨initBreak_consistent ok hs, .nil, fun _ h => absurd h List.not_mem_nil,
    fun _ h => absurd h List.not_mem_nil, rfl⟩
  pos _ h := absurd h List.not_mem_nil
  nodup := .nil
  backed _ h := absurd h List.not_mem_nil
  alone _ h := absurd h List.not_mem_nil
  used _ h := absurd h List.not_mem_nil

/-- Each step of a run serves the program, and keeps the invariant. -/
theorem next_good {c : Call} (h : Holds p) (ha : p.Allowed c) : Holds (p.next ok c) ∧
    Serves p.buffers (Program.request c) (p.step ok c).1 (p.next ok c).buffers :=
  step_good h ha

theorem run_holds {mem : Nat → UInt8} {calls : List Call} (hs : start < 0x100000000)
    (hr : Along (Program.next ok) Program.Allowed (Program.start ok mem start maxAddress) calls) :
    Holds (run (Program.next ok) (Program.start ok mem start maxAddress) calls) :=
  run_inv (I := Holds) (fun _ _ h ha => (next_good h ha).1) (start_holds ok mem hs) hr

/-- Every call of every run serves the program. -/
theorem run_serves (ok : Nat → Bool) (mem : Nat → UInt8) (hs : start < 0x100000000)
    (calls : List Call)
    (hr : Along (Program.next ok) Program.Allowed (Program.start ok mem start maxAddress) calls) :
    Along (Program.next ok) (fun p c =>
      Serves p.buffers (Program.request c) (p.step ok c).1 (p.next ok c).buffers ∧
        Laid (p.next ok c)) (Program.start ok mem start maxAddress) calls :=
  Along.of_inv (I := Holds) (fun _ _ h ha => ⟨(next_good h ha).1, (next_good h ha).2, (next_good h ha).1.laid⟩)
    (start_holds ok mem hs) hr

/-- A program that gets a block, has it moved and gives it back. -/
def movedOnce : List Call := [.kmalloc 100, .krealloc 0x40000D 200, .kfree 0x40007E]

theorem movedOnce_allowed : Along (Program.next fun _ => true) Program.Allowed
    (Program.start (fun _ => true) (fun _ => 0) 0x400000 0x10000000) movedOnce := by
  refine ⟨⟨by decide, by omega⟩, ⟨.inr ⟨⟨0x40000D, 100⟩, ?_, rfl⟩, by decide, by omega⟩,
    .inr ⟨⟨0x40007E, 200⟩, ?_, rfl⟩, trivial⟩ <;> decide +kernel

theorem run_serves_movedOnce : Along (Program.next fun _ => true) (fun p c =>
    Serves p.buffers (Program.request c) (p.step (fun _ => true) c).1
      (p.next (fun _ => true) c).buffers ∧ Laid (p.next (fun _ => true) c))
    (Program.start (fun _ => true) (fun _ => 0) 0x400000 0x10000000) movedOnce :=
  run_serves (fun _ => true) (fun _ => 0) (by decide) movedOnce movedOnce_allowed

/-! ## The blocks that are marked used -/

theorem Holds.isFree_iff (h : Holds p) (hb : b ∈ p.heap.blocks) (h0 : b.data ≠ 0) :
    b.isFree = false ↔ ∃ l ∈ p.held, b.data ≤ l.addr ∧ l.addr + l.size ≤ b.data + b.size := by
  constructor
  · intro hfree
    obtain ⟨l, hl, hbl⟩ := h.used b hb h0 hfree
    exact ⟨l, hl, hbl.low, hbl.high⟩
  · rintro ⟨l, hl, hlow, hhigh⟩
    obtain ⟨c, hc, hcl⟩ := h.backed l hl
    have hpos := h.pos l hl
    have heq : b = c := by
      by_contra hne
      have h1 := (h.sound.placed b hb).data h0
      have h2 := (h.sound.placed c hc).data hcl.data
      have h3 := h.sound.apart hb hc hne
      have h4 := hcl.low
      have h5 := hcl.high
      unfold stop at h3
      rw [if_neg h0, if_neg hcl.data] at h3
      omega
    exact heq ▸ hcl.isFree

/-- After a call that returned `r.1`, the blocks of the program and this one start where the data of
blocks of the list does. -/
structure Keeps (p : Program) (r : Nat × State) : Prop where
  old : ∀ l ∈ p.live, ∃ b ∈ r.2.blocks, b.data = l.addr
  new : r.1 ≠ 0 → ∃ b ∈ r.2.blocks, b.data = r.1

theorem Keeps.null (he : Exact p) : Keeps p (0, p.heap) := ⟨he, fun h => absurd rfl h⟩

theorem Keeps.congr {r' : Nat × State} (hk : Keeps p r) (hblocks : r'.2.blocks = r.2.blocks)
    (h0 : r'.1 ≠ 0 → r'.1 = r.1) : Keeps p r' where
  old l hl := by rw [hblocks]; exact hk.old l hl
  new h := by rw [hblocks, h0 h]; exact hk.new (h0 h ▸ h)

theorem data_setFree {s : State} {t ptr : Nat} {isFree : Bool} (h : ∃ b ∈ s.blocks, b.data = ptr) :
    ∃ b ∈ (setFree s t isFree).blocks, b.data = ptr := by
  obtain ⟨b, hb, hdata⟩ := h
  refine ⟨_, List.mem_map_of_mem hb, ?_⟩
  split <;> exact hdata

theorem kmalloc_keeps (h : Holds p) (he : Exact p) (hf : Fits p.heap size) :
    Keeps p (kmalloc ok p.heap size) := by
  have ha : Allocates p.heap size (kmalloc ok p.heap size) := kmalloc_spec h.sound hf
  refine ⟨fun l hl => ?_, fun h0 => ?_⟩
  · obtain ⟨b, hb, hdata⟩ := he l hl
    have hheld := List.mem_append_left p.leaked hl
    have h0 : b.data ≠ 0 := by rw [hdata]; exact h.addr_ne hheld
    exact ⟨b, ha.kept b hb (h.backs_start hheld hb hdata h0).isFree, hdata⟩
  · obtain ⟨b, hb, hdata, -⟩ := ha.block h0
    exact ⟨b, hb, hdata⟩

theorem kcalloc_keeps {n : Int} (h : Holds p) (he : Exact p)
    (hf : n < 0 ∨ size < 0 ∨ Fits p.heap (n * size)) : Keeps p (kcalloc ok p.heap n size) := by
  unfold kcalloc
  by_cases hneg : (n < 0 || size < 0) = true
  · rw [if_pos hneg]
    exact .null he
  rw [if_neg hneg]
  have hnonneg : 0 ≤ n ∧ 0 ≤ size := by simpa using hneg
  have hf' : Fits p.heap (n * size) :=
    (hf.resolve_left (by omega)).resolve_left (by omega)
  rw [mul32_eq hnonneg.1 hnonneg.2 hf'.1]
  have hk : Keeps p (kmalloc ok p.heap (n * size)) := kmalloc_keeps h he hf'
  dsimp only
  split
  · exact hk.congr rfl fun h0 => absurd rfl h0
  · exact hk.congr rfl fun _ => rfl

theorem krealloc_keeps {ptr : Nat} (h : Holds p) (he : Exact p) (hf : Fits p.heap size)
    (hpos : ¬ size ≤ 0) : Keeps p (krealloc ok p.heap ptr size) := by
  have hk : Keeps p (kmalloc ok p.heap size) := kmalloc_keeps h he hf
  unfold krealloc
  by_cases h0 : ptr = 0
  · rw [if_pos h0]
    exact hk
  · rw [if_neg h0, if_neg hpos]
    split
    · exact .null he
    · dsimp only
      split
      · exact hk.congr rfl fun h0 => absurd rfl h0
      · exact ⟨fun l hl => data_setFree (hk.old l hl), fun h0 => data_setFree (hk.new h0)⟩

theorem exact_take {n : Nat} (hk : Keeps p r) : Exact (p.take r n).2 := by
  intro l hl
  by_cases h0 : r.1 = 0
  · rw [take_null p h0] at hl ⊢
    exact hk.old l hl
  · rw [take_block p h0] at hl ⊢
    rcases List.mem_cons.mp hl with rfl | hl
    · exact hk.new h0
    · exact hk.old l hl

theorem exact_swap {ptr n : Nat} (hk : Keeps p r) : Exact (p.swap r ptr n).2 := by
  intro l hl
  by_cases h0 : r.1 = 0
  · rw [swap_null p h0] at hl ⊢
    exact hk.old l hl
  · rw [swap_block p h0] at hl ⊢
    rcases List.mem_cons.mp hl with rfl | hl
    · exact hk.new h0
    · exact hk.old l (List.mem_of_mem_eraseP hl)

theorem exact_giveBack {ptr : Nat} (h : Holds p) (he : Exact p) (ho : p.Owns ptr) :
    Exact (p.giveBack (kfree p.heap ptr) ptr) ∧
      (p.giveBack (kfree p.heap ptr) ptr).leaked = p.leaked := by
  refine ⟨fun l hl => ?_, ?_⟩
  · have hold := he l (List.mem_of_mem_eraseP hl)
    change ∃ b ∈ (kfree p.heap ptr).blocks, b.data = l.addr
    unfold kfree
    split
    · exact hold
    · split
      · exact hold
      · exact data_setFree hold
  · rcases ho with rfl | ⟨l, hl, rfl⟩
    · have hnull : kfree p.heap 0 = p.heap := if_pos rfl
      rw [hnull, h.giveBack_zero]
    · obtain ⟨b, hb, hdata⟩ := he l hl
      unfold Program.giveBack
      cases hf : findData p.heap l.addr with
      | none =>
        have hnone := List.find?_eq_none.mp hf b hb
        exact absurd (decide_eq_true hdata) hnone
      | some t => rfl

/-- A call other than `aligned_kmalloc` leaks nothing. -/
theorem next_exact (ok : Nat → Bool) {c : Call} (h : Holds p) (he : Exact p) (ha : p.Allowed c) (hc : ¬ c.Aligns) :
    Exact (p.next ok c) ∧ (p.next ok c).leaked = p.leaked := by
  cases c with
  | kmalloc size => exact ⟨exact_take (kmalloc_keeps h he ha), rfl⟩
  | alignedKmalloc size alignment => exact absurd trivial hc
  | kcalloc n size => exact ⟨exact_take (kcalloc_keeps h he ha), rfl⟩
  | krealloc ptr size =>
    obtain ⟨ho, hf⟩ := ha
    unfold Program.next Program.step
    dsimp only
    by_cases h0 : ptr = 0
    · rw [if_pos h0]
      subst h0
      exact ⟨exact_take (kmalloc_keeps h he hf), rfl⟩
    · rw [if_neg h0]
      by_cases hpos : size ≤ 0
      · have hcall : krealloc ok p.heap ptr size = (0, kfree p.heap ptr) :=
          (if_neg h0).trans (if_pos hpos)
        rw [if_pos hpos, hcall]
        exact exact_giveBack h he ho
      · rw [if_neg hpos]
        exact ⟨exact_swap (krealloc_keeps h he hf hpos), rfl⟩
  | kfree ptr => exact exact_giveBack h he ha
  | store addr byte => exact ⟨he, rfl⟩

theorem run_leaked {calls : List Call} (h : Holds p) (he : Exact p)
    (hr : Along (Program.next ok) Program.Allowed p calls) (hc : ∀ c ∈ calls, ¬ c.Aligns) :
    (run (Program.next ok) p calls).leaked = p.leaked := by
  induction calls generalizing p with
  | nil => rfl
  | cons c calls ih =>
    obtain ⟨he', hl⟩ := next_exact ok h he hr.1 (hc c List.mem_cons_self)
    have hrest := ih (next_good h hr.1).1 he' hr.2 fun d hd => hc d (List.mem_cons_of_mem c hd)
    exact hrest.trans hl

/-- Which blocks of the list are marked used after a run: those in which a block lies that the program
has, or that it gave back at an address inside it. Only `aligned_kmalloc` returns such addresses. -/
theorem run_used (ok : Nat → Bool) (mem : Nat → UInt8) (hs : start < 0x100000000)
    (calls : List Call)
    (hr : Along (Program.next ok) Program.Allowed (Program.start ok mem start maxAddress) calls) :
    let p := run (Program.next ok) (Program.start ok mem start maxAddress) calls
    (∀ b ∈ p.heap.blocks, b.data ≠ 0 → (b.isFree = false ↔
      ∃ l ∈ p.live ++ p.leaked, b.data ≤ l.addr ∧ l.addr + l.size ≤ b.data + b.size)) ∧
    ((∀ c ∈ calls, ¬ c.Aligns) → p.leaked = []) :=
  ⟨fun _ hb h0 => (run_holds hs hr).isFree_iff hb h0,
    run_leaked (start_holds ok mem hs) (fun _ hl => absurd hl List.not_mem_nil) hr⟩

theorem run_used_movedOnce :
    let p := run (Program.next fun _ => true)
      (Program.start (fun _ => true) (fun _ => 0) 0x400000 0x10000000) movedOnce
    (∀ b ∈ p.heap.blocks, b.data ≠ 0 → (b.isFree = false ↔
      ∃ l ∈ p.live ++ p.leaked, b.data ≤ l.addr ∧ l.addr + l.size ≤ b.data + b.size)) ∧
    ((∀ c ∈ movedOnce, ¬ c.Aligns) → p.leaked = []) :=
  run_used (fun _ => true) (fun _ => 0) (by decide) movedOnce movedOnce_allowed

end UserHeap
end Hashx86
