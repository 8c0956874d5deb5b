import Mathlib.Data.List.Basic

/-!
# Overwriting a part of a list

`splice l p xs` is `l` with `xs` stored from index `p` on; it is longer than `l` when `xs` reaches
past the end. For `p` inside `l` or at its end:

* `length_splice`: its length.
* `getElem?_splice_in`, `getElem?_splice_out`: what is stored, and what is left alone.
-/

namespace Lib

variable {α : Type}

def splice (l : List α) (p : Nat) (xs : List α) : List α :=
  l.take p ++ xs ++ l.drop (p + xs.length)

theorem length_splice {l : List α} {p : Nat} (xs : List α) (h : p ≤ l.length) :
    (splice l p xs).length = max l.length (p + xs.length) := by
  unfold splice
  rw [List.length_append, List.length_append, List.length_take, List.length_drop]
  omega

@[simp] theorem splice_nil (l : List α) (p : Nat) : splice l p [] = l := by
  simp [splice]

theorem getElem?_splice_in {l : List α} {p i : Nat} {xs : List α} (h : p ≤ l.length)
    (hi : i < xs.length) : (splice l p xs)[p + i]? = xs[i]? := by
  have hp : (l.take p).length = p := by rw [List.length_take]; omega
  unfold splice
  rw [List.getElem?_append_left (by rw [List.length_append, hp]; omega),
    List.getElem?_append_right (by omega), hp, Nat.add_sub_cancel_left]

theorem getElem?_splice_out {l : List α} {p j : Nat} {xs : List α} (h : p ≤ l.length)
    (hj : j < p ∨ p + xs.length ≤ j) : (splice l p xs)[j]? = l[j]? := by
  have hp : (l.take p).length = p := by rw [List.length_take]; omega
  unfold splice
  rcases hj with hj | hj
  · rw [List.append_assoc, List.getElem?_append_left (by omega), List.getElem?_take_of_lt hj]
  · rw [List.getElem?_append_right (by rw [List.length_append, hp]; omega), List.length_append, hp,
      List.getElem?_drop]
    congr 1
    omega

end Lib
