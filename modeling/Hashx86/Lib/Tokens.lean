import Mathlib.Data.List.Perm.Basic
import Mathlib.Data.List.Count
import Mathlib.Data.List.Range
import Mathlib.Data.List.Nodup

/-!
# Tokens that are given out and come back

A `Counter` gives out fresh tokens and records those that came back. `Balanced c held`: every token
given out is once in the record or once in `held`.

* `balanced_take`, `Balanced.give`, `Balanced.giveAll`: tokens go out and come back.
* `Balanced.count_new`, `Balanced.count_held`: what a balance says about one token.
-/

namespace Lib

structure Counter where
  next : Nat
  returned : List Nat

namespace Counter

def empty : Counter := ⟨0, []⟩

def take (c : Counter) : Nat × Counter := (c.next, { c with next := c.next + 1 })

def give (c : Counter) (t : Nat) : Counter := { c with returned := t :: c.returned }

def giveAll (c : Counter) : List Nat → Counter
  | [] => c
  | t :: ts => giveAll (c.give t) ts

@[simp] theorem give_next (c : Counter) (t : Nat) : (c.give t).next = c.next := rfl

@[simp] theorem giveAll_next (c : Counter) (ts : List Nat) : (c.giveAll ts).next = c.next := by
  induction ts generalizing c with
  | nil => rfl
  | cons t ts ih => exact ih (c.give t)

end Counter

/-- Every token given out came back once, or is held once. -/
def Balanced (c : Counter) (held : List Nat) : Prop :=
  (c.returned ++ held).Perm (List.range c.next)

variable {c c' : Counter} {held held' ts : List Nat} {t : Nat}

theorem balanced_empty : Balanced .empty [] := List.Perm.refl _

theorem Balanced.perm (h : Balanced c held) (hp : held.Perm held') : Balanced c held' :=
  (hp.append_left c.returned).symm.trans h

theorem Balanced.take (h : Balanced c held) : Balanced c.take.2 (c.next :: held) := by
  unfold Balanced Counter.take
  rw [List.range_succ]
  exact List.perm_middle.trans ((h.cons c.next).trans (List.perm_append_singleton _ _).symm)

theorem Balanced.give (h : Balanced c (t :: held)) : Balanced (c.give t) held :=
  (List.perm_middle (a := t)).symm.trans h

theorem Balanced.giveAll (h : Balanced c (ts ++ held)) : Balanced (c.giveAll ts) held := by
  induction ts generalizing c with
  | nil => exact h
  | cons t ts ih => exact ih (Balanced.give h)

/-- The places of one token. -/
theorem Balanced.count (h : Balanced c held) (t : Nat) :
    c.returned.count t + held.count t = if t < c.next then 1 else 0 := by
  rw [← List.count_append, h.count_eq]
  by_cases ht : t < c.next
  · rw [if_pos ht]
    exact List.count_eq_one_of_mem List.nodup_range (List.mem_range.mpr ht)
  · rw [if_neg ht]
    exact List.count_eq_zero.mpr fun hm => ht (List.mem_range.mp hm)

theorem Balanced.count_le (h : Balanced c held) (t : Nat) : c.returned.count t ≤ 1 := by
  have := h.count t
  split at this <;> omega

/-- A held token has not come back. -/
theorem Balanced.count_held (h : Balanced c held) (ht : t ∈ held) :
    c.returned.count t = 0 ∧ held.count t = 1 := by
  have h1 := h.count t
  have h2 := List.count_pos_iff.mpr ht
  split at h1 <;> omega

theorem Balanced.lt_next (h : Balanced c held) (ht : t ∈ held) : t < c.next :=
  List.mem_range.mp (h.subset (List.mem_append_right _ ht))

/-- A token given out since a balance is not among those held then. -/
theorem Balanced.count_new (h : Balanced c held) (ht : c.next ≤ t) :
    c.returned.count t = 0 ∧ held.count t = 0 := by
  have := h.count t
  rw [if_neg (by omega)] at this
  omega

/-- The tokens given out since a balance, when those held are the same again, have come back. -/
theorem Balanced.returned_new (h : Balanced c held) (h' : Balanced c' held) (h1 : c.next ≤ t)
    (h2 : t < c'.next) : c'.returned.count t = 1 := by
  have hc := h'.count t
  rw [if_pos h2, (h.count_new h1).2] at hc
  exact hc

end Lib
