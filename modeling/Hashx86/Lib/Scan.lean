import Mathlib.Data.List.TakeDrop

/-!
# Scans that stop at a sentinel

A loop looks at `value i`, `value (i + 1)`, …, at most `n` of them, and stops at the first that
does not satisfy `go`.

* `scan`: the values before the stop. `EachReached`: a property of every place that the loop looks
  at, the last one included.
* `scan_succ`, `eachReached_succ`: one round of the loop.
* `scan_congr`: values that agree at every place reached give the same scan.
-/

namespace Lib

variable {α : Type}

def scan (go : α → Bool) (value : Nat → α) (i n : Nat) : List α :=
  ((List.range' i n).map value).takeWhile go

def EachReached (go : α → Bool) (value : Nat → α) (P : Nat → Prop) (i n : Nat) : Prop :=
  ∀ k, i ≤ k → k < i + n → (∀ j, i ≤ j → j < k → go (value j) = true) → P k

variable {go : α → Bool} {value value' : Nat → α} {P Q : Nat → Prop} {i n : Nat}

@[simp] theorem scan_zero (go : α → Bool) (value : Nat → α) (i : Nat) :
    scan go value i 0 = [] := rfl

theorem scan_succ (go : α → Bool) (value : Nat → α) (i n : Nat) :
    scan go value i (n + 1) =
      if go (value i) = true then value i :: scan go value (i + 1) n else [] := by
  rw [scan, List.range'_succ, List.map_cons, List.takeWhile_cons]
  rfl

theorem scan_succ_go (h : go (value i) = true) (n : Nat) :
    scan go value i (n + 1) = value i :: scan go value (i + 1) n := by
  rw [scan_succ, if_pos h]

theorem scan_succ_stop (h : ¬ go (value i) = true) (n : Nat) : scan go value i (n + 1) = [] := by
  rw [scan_succ, if_neg h]

theorem eachReached_zero : EachReached go value P i 0 := fun _ h1 h2 _ => by omega

theorem eachReached_succ :
    EachReached go value P i (n + 1) ↔
      P i ∧ (go (value i) = true → EachReached go value P (i + 1) n) := by
  refine ⟨fun h => ⟨h i (Nat.le_refl i) (by omega) fun j h1 h2 => by omega,
    fun hi k h1 h2 hr => ?_⟩, fun ⟨h0, h⟩ k h1 h2 hr => ?_⟩
  · refine h k (by omega) (by omega) fun j h3 h4 => ?_
    rcases Nat.eq_or_lt_of_le h3 with rfl | h3
    · exact hi
    · exact hr j h3 h4
  · rcases Nat.eq_or_lt_of_le h1 with rfl | h1
    · exact h0
    · exact h (hr i (Nat.le_refl i) h1) k h1 (by omega) fun j h3 h4 => hr j (by omega) h4

/-- Values that agree at every place reached give the same scan. -/
theorem scan_congr (h : EachReached go value (fun k => value' k = value k) i n) :
    scan go value' i n = scan go value i n := by
  induction n generalizing i with
  | zero => rfl
  | succ n ih =>
    obtain ⟨h0, h1⟩ := eachReached_succ.mp h
    rw [scan_succ, scan_succ, h0]
    by_cases hg : go (value i) = true
    · rw [if_pos hg, if_pos hg, ih (h1 hg)]
    · rw [if_neg hg, if_neg hg]

/-- A last value that stops the loop adds nothing. -/
theorem scan_succ_of_last (h : ¬ go (value (i + n)) = true) :
    scan go value i (n + 1) = scan go value i n := by
  induction n generalizing i with
  | zero => exact scan_succ_stop h 0
  | succ n ih =>
    rw [scan_succ, scan_succ go value i n, ih (by rwa [Nat.add_right_comm])]

end Lib
