import Mathlib.Data.List.Pairwise

/-!
# Blocks of an allocator

A `Block` is a range of addresses that is not empty. `Apart bs` says that the blocks of a list
do not overlap; `release bs a` is the list without the block at `a`.

* `Apart.cons`, `Apart.release`: an allocation of free space and a release keep it.
* `mem_release`: a release takes one block away and leaves the others.
-/

namespace Lib

structure Block where
  addr : Nat
  size : Nat
  deriving DecidableEq

namespace Block

/-- The address lies in the block. -/
def Has (b : Block) (a : Nat) : Prop := b.addr ≤ a ∧ a < b.addr + b.size

/-- One block ends before the other starts. -/
def Disjoint (b c : Block) : Prop := b.addr + b.size ≤ c.addr ∨ c.addr + c.size ≤ b.addr

instance (b c : Block) : Decidable (b.Disjoint c) := inferInstanceAs (Decidable (_ ∨ _))

theorem Disjoint.symm {b c : Block} (h : b.Disjoint c) : c.Disjoint b := Or.symm h

instance : Std.Symm Disjoint := ⟨fun _ _ => Disjoint.symm⟩

theorem Disjoint.not_has {b c : Block} (h : b.Disjoint c) {a : Nat} (hb : b.Has a) : ¬ c.Has a := by
  unfold Disjoint at h
  unfold Has at hb ⊢
  omega

theorem Disjoint.addr_ne {b c : Block} (h : b.Disjoint c) (hb : 0 < b.size) (hc : 0 < c.size) :
    b.addr ≠ c.addr := by
  unfold Disjoint at h
  omega

end Block

/-- The blocks are not empty and do not overlap. -/
structure Apart (bs : List Block) : Prop where
  pos : ∀ b ∈ bs, 0 < b.size
  disjoint : bs.Pairwise Block.Disjoint

/-- The blocks without the one at `a`. -/
def release (bs : List Block) (a : Nat) : List Block := bs.eraseP (·.addr = a)

variable {bs : List Block} {a : Nat} {b c : Block}

theorem Apart.nil : Apart [] := ⟨fun _ h => absurd h List.not_mem_nil, .nil⟩

theorem Apart.cons (h : Apart bs) (hb : 0 < b.size) (hd : ∀ c ∈ bs, b.Disjoint c) :
    Apart (b :: bs) where
  pos c hc := (List.mem_cons.mp hc).elim (fun e => e ▸ hb) (h.pos c)
  disjoint := .cons hd h.disjoint

theorem Apart.tail (h : Apart (b :: bs)) : Apart bs where
  pos c hc := h.pos c (List.mem_cons_of_mem b hc)
  disjoint := (List.pairwise_cons.mp h.disjoint).2

theorem Apart.release (h : Apart bs) (a : Nat) : Apart (release bs a) where
  pos c hc := h.pos c (List.mem_of_mem_eraseP hc)
  disjoint := h.disjoint.sublist (List.eraseP_sublist)

theorem Apart.disjoint_of_ne (h : Apart bs) (hb : b ∈ bs) (hc : c ∈ bs) (hne : b ≠ c) :
    b.Disjoint c := h.disjoint.forall hb hc hne

/-- Two blocks that start at one address are one. -/
theorem Apart.eq_of_addr (h : Apart bs) (hb : b ∈ bs) (hc : c ∈ bs) (he : b.addr = c.addr) :
    b = c := by
  by_contra hne
  exact (h.disjoint_of_ne hb hc hne).addr_ne (h.pos b hb) (h.pos c hc) he

theorem Apart.nodup (h : Apart bs) : bs.Nodup := by
  refine h.disjoint.imp_of_mem fun {b c} hb _ hd he => ?_
  subst he
  exact hd.addr_ne (h.pos b hb) (h.pos b hb) rfl

theorem mem_release (h : Apart bs) : b ∈ release bs a ↔ b ∈ bs ∧ b.addr ≠ a := by
  induction bs with
  | nil => simp [Lib.release]
  | cons c bs ih =>
    have htail := ih h.tail
    unfold Lib.release at htail ⊢
    by_cases hc : c.addr = a
    · rw [List.eraseP_cons_of_pos (by simpa using hc), List.mem_cons]
      constructor
      · intro hb
        refine ⟨.inr hb, fun he => ?_⟩
        have heq := h.eq_of_addr (List.mem_cons_of_mem c hb) List.mem_cons_self (he.trans hc.symm)
        exact (List.nodup_cons.mp h.nodup).1 (heq ▸ hb)
      · rintro ⟨rfl | hb, hne⟩
        · exact absurd hc hne
        · exact hb
    · rw [List.eraseP_cons_of_neg (by simpa using hc), List.mem_cons, htail, List.mem_cons]
      constructor
      · rintro (rfl | ⟨hb, hne⟩)
        · exact ⟨.inl rfl, hc⟩
        · exact ⟨.inr hb, hne⟩
      · rintro ⟨rfl | hb, hne⟩
        · exact .inl rfl
        · exact .inr ⟨hb, hne⟩

end Lib
