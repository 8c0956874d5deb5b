import Hashx86.Paging.Defs

/-!
# Reading the page tables

* `entry_setEntry`, `entry_store_of_ne`: what a store changes of an entry.
* `pte`: the page-table entry that a walk from a directory ends at; it is `0` where there is no table.
* `getPhysicalAddress_eq`: `GetPhysicalAddress` is a walk.
-/

namespace Hashx86

open Lib

namespace Paging

theorem frameAddr_le (a : Nat) : frameAddr a ≤ a := Nat.div_mul_le_self a 4096

theorem frameAddr_mod (a : Nat) : frameAddr a % 4096 = 0 := Nat.mul_mod_left _ _

theorem frameAddr_of_mod {a : Nat} (h : a % 4096 = 0) : frameAddr a = a := by
  unfold frameAddr
  omega

theorem frameAddr_add_mod (a : Nat) : frameAddr a + a % 4096 = a := by
  unfold frameAddr
  omega

/-- An address inside the frame at `t`. -/
theorem frameAddr_add {t x : Nat} (ht : t % 4096 = 0) (hx : x < 4096) : frameAddr (t + x) = t := by
  unfold frameAddr
  omega

/-- A frame with flags in the low bits. -/
theorem frameAddr_or {a f : Nat} (ha : a % 4096 = 0) (hf : f < 4096) : frameAddr (a ||| f) = a := by
  have h : a ||| f = a + f := by
    obtain ⟨k, rfl⟩ := Nat.dvd_of_mod_eq_zero ha
    exact (Nat.two_pow_add_eq_or_of_lt (i := 12) hf k).symm
  rw [h, frameAddr_add ha hf]

theorem present_or {a f : Nat} (ha : a % 4096 = 0) : present (a ||| f) = present f := by
  have h : (a ||| f) % 2 = f % 2 := by
    have := Nat.or_mod_two_pow (a := a) (b := f) (n := 1)
    rw [pow_one] at this
    rw [this, show a % 2 = 0 by omega, Nat.zero_or]
  unfold present
  rw [h]

theorem or_mod {a f : Nat} (ha : a % 4096 = 0) : (a ||| f) % 4096 = f % 4096 := by
  have := Nat.or_mod_two_pow (a := a) (b := f) (n := 12)
  rw [this, show a % 2 ^ 12 = 0 from ha, Nat.zero_or]

theorem present_zero : present 0 = false := rfl

theorem ptIdx_lt (va : Nat) : ptIdx va < 1024 := Nat.mod_lt _ (by decide)

theorem pdIdx_lt {va : Nat} (h : va < 2 ^ 32) : pdIdx va < 1024 := by
  unfold pdIdx
  omega

/-- Two addresses are in one page exactly when their indices are the same. -/
theorem idx_eq_iff (v w : Nat) :
    pdIdx w = pdIdx v ∧ ptIdx w = ptIdx v ↔ w / 4096 = v / 4096 := by
  unfold pdIdx ptIdx
  omega

end Paging

namespace Machine

open Paging

/-! ## Entries -/

variable {m m' : Machine} {t i : Nat}

theorem entry_lt (m : Machine) (t i : Nat) : m.entry t i < 2 ^ 32 := read32_lt _ _

theorem entry_of_mem (h : m'.mem = m.mem) (t i : Nat) : m'.entry t i = m.entry t i := by
  unfold entry
  rw [h]

theorem entry_congr (ht : t % 4096 = 0) (hi : i < 1024)
    (h : ∀ a, frameAddr a = t → m'.mem a = m.mem a) : m'.entry t i = m.entry t i := by
  refine read32_congr fun a h1 h2 => h a ?_
  obtain ⟨x, rfl⟩ := Nat.exists_eq_add_of_le (show t ≤ a by omega)
  exact frameAddr_add ht (by omega)

theorem entry_setEntry_self (m : Machine) (t i : Nat) {v : Nat} (hv : v < 2 ^ 32) :
    (m.setEntry t i v).entry t i = v := read32_write32 _ _ hv

theorem entry_setEntry_of_ne {u j : Nat} (v : Nat) (ht : t % 4096 = 0) (hu : u % 4096 = 0)
    (hi : i < 1024) (hj : j < 1024) (hne : u ≠ t ∨ j ≠ i) :
    (m.setEntry t i v).entry u j = m.entry u j :=
  read32_write32_of_ne _ _ (by omega)

theorem entry_setEntry {u j v : Nat} (hv : v < 2 ^ 32) (ht : t % 4096 = 0) (hu : u % 4096 = 0)
    (hi : i < 1024) (hj : j < 1024) :
    (m.setEntry t i v).entry u j = if u = t ∧ j = i then v else m.entry u j := by
  split
  · rename_i h
    rw [h.1, h.2, entry_setEntry_self m t i hv]
  · rename_i h
    exact entry_setEntry_of_ne v ht hu hi hj (by omega)

theorem mem_setEntry_of_ne {a v : Nat} (ht : t % 4096 = 0) (hi : i < 1024) (ha : frameAddr a ≠ t) :
    (m.setEntry t i v).mem a = m.mem a := by
  refine overwrite_of_out _ _ ?_
  unfold frameAddr at ha
  omega

theorem mem_store_of_ne {a : Nat} (src : Nat → UInt8) (ht : t % 4096 = 0) (ha : frameAddr a ≠ t) :
    (m.store t 4096 src).mem a = m.mem a := by
  refine overwrite_of_out _ _ ?_
  unfold frameAddr at ha
  omega

theorem entry_store_of_ne {u j : Nat} (src : Nat → UInt8) (ht : t % 4096 = 0) (hu : u % 4096 = 0)
    (hj : j < 1024) (hne : u ≠ t) : (m.store t 4096 src).entry u j = m.entry u j :=
  entry_congr hu hj fun _ ha => mem_store_of_ne src ht (ha ▸ hne)

theorem entry_zero (m : Machine) (t : Nat) {j : Nat} (hj : j < 1024) :
    (m.zero t 4096).entry t j = 0 :=
  read32_overwrite_zero _ (by omega) (by omega)

end Machine

namespace Paging

/-! ## Walks -/

/-- The page-table entry of page `j` of table `i`. -/
def pte (m : Machine) (directory i j : Nat) : Nat :=
  if present (m.entry directory i) then m.entry (frameAddr (m.entry directory i)) j else 0

theorem pte_of_present {m : Machine} {d i : Nat} (h : present (m.entry d i) = true) (j : Nat) :
    pte m d i j = m.entry (frameAddr (m.entry d i)) j := if_pos h

theorem pte_of_not_present {m : Machine} {d i : Nat} (h : present (m.entry d i) = false) (j : Nat) :
    pte m d i j = 0 := if_neg (by rw [h]; exact Bool.false_ne_true)

theorem pte_of_mem {m m' : Machine} (h : m'.mem = m.mem) (d i j : Nat) :
    pte m' d i j = pte m d i j := by
  unfold pte
  rw [Machine.entry_of_mem h, Machine.entry_of_mem h]

/-- What a walk says about an address. -/
def resolved (pte va : Nat) : Nat :=
  if present pte then frameAddr pte + va % 4096 else unmapped

theorem getPhysicalAddress_eq (m : Machine) (d va : Nat) :
    getPhysicalAddress m d va = resolved (pte m d (pdIdx va) (ptIdx va)) va := by
  unfold getPhysicalAddress resolved
  cases h : present (m.entry d (pdIdx va)) with
  | false => rw [pte_of_not_present h]; rfl
  | true =>
    rw [pte_of_present h]
    dsimp only
    rw [if_neg (by simp)]
    cases present (m.entry (frameAddr (m.entry d (pdIdx va))) (ptIdx va)) <;> rfl

end Paging
end Hashx86
