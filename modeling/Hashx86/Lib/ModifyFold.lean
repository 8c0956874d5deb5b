import Mathlib.Data.List.Nodup

/-!
# Changes of different entries

A run that changes one entry of a table in each step, never the same entry twice. What a step does may
depend on the state of the run.

* `foldl_modify_ne`: an entry that no step is about stays as it is.
* `foldl_modify_getElem?`: the entry of a step is changed once, by what the run does in this step.
-/

namespace Lib

variable {σ ι α : Type} (table : σ → List α) {step : σ → ι → σ} (key : ι → Nat)
  {change : σ → ι → α → α}

theorem foldl_modify_ne (hstep : ∀ s i, table (step s i) = (table s).modify (key i) (change s i))
    (is : List ι) (s : σ) {n : Nat} (hn : n ∉ is.map key) :
    (table (is.foldl step s))[n]? = (table s)[n]? := by
  induction is generalizing s with
  | nil => rfl
  | cons i is ih =>
    rw [List.map_cons, List.mem_cons, not_or] at hn
    rw [List.foldl_cons, ih (step s i) hn.2, hstep, List.getElem?_modify_ne _ _ (Ne.symm hn.1)]

theorem foldl_modify_getElem?
    (hstep : ∀ s i, table (step s i) = (table s).modify (key i) (change s i)) {is : List ι}
    (hdistinct : (is.map key).Nodup) (s : σ) {k : Nat} (hk : k < is.length) :
    (table (is.foldl step s))[key is[k]]? =
      ((table s)[key is[k]]?).map (change ((is.take k).foldl step s) is[k]) := by
  induction is generalizing s k with
  | nil => exact absurd hk (Nat.not_lt_zero k)
  | cons i is ih =>
    rw [List.map_cons, List.nodup_cons] at hdistinct
    cases k with
    | zero =>
      rw [List.getElem_cons_zero, List.foldl_cons, foldl_modify_ne table key hstep is _ hdistinct.1, hstep,
        List.getElem?_modify_eq]
      rfl
    | succ k =>
      have hk' : k < is.length := Nat.lt_of_succ_lt_succ hk
      have hne : key i ≠ key is[k] := by
        intro heq
        exact hdistinct.1 (heq ▸ List.mem_map_of_mem (List.getElem_mem hk'))
      rw [List.getElem_cons_succ, List.foldl_cons, ih hdistinct.2 (step s i) hk', hstep,
        List.getElem?_modify_ne _ _ hne, List.take_succ_cons, List.foldl_cons]

end Lib
