import Hashx86.Lib.Checked
import Mathlib.Logic.Function.Basic

/-!
# Copies inside a block of cells

A block has the cells 0 to `n`; what is read or written must be one of them.

* `copyUp`, `copyDown`: the loops that copy a range cell by cell, from its first or its last cell on.
* `moved`: the block after a copy in one go; `copyUp_eq`, `copyDown_eq`: a range that overlaps its
  copy is copied as in one go when the loop goes the right way.
-/

namespace Lib

/-- The error of an access outside the block. -/
inductive Escape
  | outside

variable {α : Type} {n dst src count i : Nat} {f : Nat → α}

def loadCell (n : Nat) (f : Nat → α) (i : Nat) : Except Escape α :=
  if i < n then .ok (f i) else .error .outside

def storeCell (n : Nat) (f : Nat → α) (i : Nat) (a : α) : Except Escape (Nat → α) :=
  if i < n then .ok (Function.update f i a) else .error .outside

theorem loadCell_inside (h : i < n) : loadCell n f i = .ok (f i) := if_pos h

theorem storeCell_inside (h : i < n) (a : α) : storeCell n f i a = .ok (Function.update f i a) := if_pos h

/-- `dst[i] = src[i]`, `count` times from `i` on. -/
def copyUp (n dst src : Nat) : (count i : Nat) → (f : Nat → α) → Except Escape (Nat → α)
  | 0, _, f => .ok f
  | count + 1, i, f => do
    let a ← loadCell n f (src + i)
    let f ← storeCell n f (dst + i) a
    copyUp n dst src count (i + 1) f

/-- `dst[i - 1] = src[i - 1]`, from `i = count` down to 1. -/
def copyDown (n dst src : Nat) : (count : Nat) → (f : Nat → α) → Except Escape (Nat → α)
  | 0, f => .ok f
  | count + 1, f => do
    let a ← loadCell n f (src + count)
    let f ← storeCell n f (dst + count) a
    copyDown n dst src count f

/-- The cells from `src` on are, as they were, also the ones from `dst` on. -/
def moved (dst src count : Nat) (f : Nat → α) : Nat → α :=
  fun j => if dst ≤ j ∧ j < dst + count then f (src + (j - dst)) else f j

@[simp] theorem moved_zero (dst src : Nat) (f : Nat → α) : moved dst src 0 f = f := by
  funext j
  exact if_neg fun h => absurd h.2 (Nat.not_lt.mpr h.1)

theorem moved_in (hi : i < count) : moved dst src count f (dst + i) = f (src + i) := by
  rw [moved, if_pos ⟨by omega, by omega⟩, Nat.add_sub_cancel_left]

theorem moved_out (hi : i < dst ∨ dst + count ≤ i) : moved dst src count f i = f i :=
  if_neg fun h => by omega

/-- The first cell first, when the range is above its copy. -/
theorem moved_succ_up (h : dst ≤ src) :
    moved (dst + 1) (src + 1) count (Function.update f dst (f src)) = moved dst src (count + 1) f := by
  funext j
  by_cases hj : dst + 1 ≤ j ∧ j < dst + 1 + count
  · obtain ⟨k, rfl⟩ : ∃ k, j = dst + 1 + k := ⟨j - (dst + 1), by omega⟩
    rw [moved_in (by omega), Function.update_of_ne (by omega), Nat.add_assoc dst, Nat.add_assoc src,
      moved_in (by omega)]
  · rw [moved_out (by omega)]
    by_cases hd : j = dst
    · subst hd
      rw [Function.update_self]
      exact (moved_in (i := 0) (Nat.succ_pos count)).symm
    · rw [Function.update_of_ne hd, moved_out (by omega)]

/-- The last cell first, when the range is below its copy. -/
theorem moved_succ_down (h : src ≤ dst) :
    moved dst src count (Function.update f (dst + count) (f (src + count))) =
      moved dst src (count + 1) f := by
  funext j
  by_cases hj : dst ≤ j ∧ j < dst + count
  · obtain ⟨k, rfl⟩ : ∃ k, j = dst + k := ⟨j - dst, by omega⟩
    rw [moved_in (by omega), Function.update_of_ne (by omega), moved_in (by omega)]
  · rw [moved_out (by omega)]
    by_cases hd : j = dst + count
    · subst hd
      rw [Function.update_self, moved_in (Nat.lt_succ_self count)]
    · rw [Function.update_of_ne hd, moved_out (by omega)]

theorem copyUp_eq (h : dst ≤ src) (hn : src + i + count ≤ n) :
    copyUp n dst src count i f = .ok (moved (dst + i) (src + i) count f) := by
  induction count generalizing i f with
  | zero => rw [copyUp, moved_zero]
  | succ count ih =>
    rw [copyUp, loadCell_inside (by omega), ok_bind, storeCell_inside (by omega), ok_bind, ih (by omega),
      ← Nat.add_assoc, ← Nat.add_assoc, moved_succ_up (by omega)]

theorem copyDown_eq (h : src ≤ dst) (hn : dst + count ≤ n) :
    copyDown n dst src count f = .ok (moved dst src count f) := by
  induction count generalizing f with
  | zero => rw [copyDown, moved_zero]
  | succ count ih =>
    rw [copyDown, loadCell_inside (by omega), ok_bind, storeCell_inside (by omega), ok_bind, ih (by omega),
      moved_succ_down h]

end Lib
