import Mathlib.Data.List.Basic

/-!
# Loops that write cells

* `foldl_keeps`, `foldl_sets`: a property that the turns of a loop keep, and one that a turn sets up
  and the other turns keep.
* `grid`: the loop over the rows and columns of a grid, with the same two rules.
-/

namespace Lib

variable {σ ι : Type} {P : σ → Prop}

theorem foldl_keeps {step : σ → ι → σ} {l : List ι} (h : ∀ s, ∀ i ∈ l, P s → P (step s i)) {s : σ}
    (hs : P s) : P (l.foldl step s) := by
  induction l generalizing s with
  | nil => exact hs
  | cons i l ih =>
    exact ih (fun s j hj => h s j (List.mem_cons_of_mem i hj)) (h s i List.mem_cons_self hs)

/-- After the turn for `i` only turns follow that keep the property. -/
theorem foldl_sets {step : σ → ι → σ} {l : List ι} {i : ι} (hi : i ∈ l)
    (hset : ∀ s, P (step s i)) (hkeep : ∀ s, ∀ j ∈ l, j ≠ i → P s → P (step s j)) (s : σ) :
    P (l.foldl step s) := by
  induction l generalizing s with
  | nil => exact nomatch hi
  | cons j l ih =>
    have hkeep' : ∀ s, ∀ k ∈ l, k ≠ i → P s → P (step s k) := fun s k hk =>
      hkeep s k (List.mem_cons_of_mem j hk)
    by_cases hl : i ∈ l
    · exact ih hl hkeep' (step s j)
    · obtain rfl := (List.mem_cons.mp hi).resolve_right hl
      exact foldl_keeps (fun s k hk => hkeep' s k hk fun h => hl (h ▸ hk)) (hset s)

def grid (rows cols : Nat) (step : σ → Nat → Nat → σ) (s : σ) : σ :=
  (List.range rows).foldl (fun s y => (List.range cols).foldl (fun s x => step s y x) s) s

variable {rows cols : Nat} {step : σ → Nat → Nat → σ}

theorem grid_keeps (h : ∀ s y x, y < rows → x < cols → P s → P (step s y x)) {s : σ} (hs : P s) :
    P (grid rows cols step s) :=
  foldl_keeps (fun _ y hy => foldl_keeps fun s x hx =>
    h s y x (List.mem_range.mp hy) (List.mem_range.mp hx)) hs

theorem grid_sets {y x : Nat} (hy : y < rows) (hx : x < cols) (hset : ∀ s, P (step s y x))
    (hkeep : ∀ s y' x', y' < rows → x' < cols → ¬ (y' = y ∧ x' = x) → P s → P (step s y' x'))
    (s : σ) : P (grid rows cols step s) := by
  refine foldl_sets (List.mem_range.mpr hy) (fun s => ?_) (fun s y' hy' hne hs => ?_) s
  · exact foldl_sets (List.mem_range.mpr hx) hset
      (fun s x' hx' hne => hkeep s y x' hy (List.mem_range.mp hx') fun h => hne h.2) s
  · exact foldl_keeps (fun s x' hx' =>
      hkeep s y' x' (List.mem_range.mp hy') (List.mem_range.mp hx') fun h => hne h.1) hs

end Lib
