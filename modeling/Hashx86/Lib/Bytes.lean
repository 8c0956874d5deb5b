import Mathlib.Data.UInt

/-!
# Byte memories

A memory is a function from addresses to bytes. `overwrite mem a n src` puts `n` bytes at `a`
(`memcpy`, `memset`, a store of a word); `read32` is the little-endian load of a word.

* `read32_overwrite_of_out`: a store does not change the words outside it.
* `read32_write32`: a load gives back the word that was stored.
* `scatter`: bytes put one by one at places of their own, as by a copy into scattered frames.
-/

namespace Lib

/-- `n` bytes of `src` put at `a`. -/
def overwrite (mem : Nat → UInt8) (a n : Nat) (src : Nat → UInt8) : Nat → UInt8 :=
  fun b => if a ≤ b ∧ b < a + n then src (b - a) else mem b

/-- The little-endian word at `a`. -/
def read32 (mem : Nat → UInt8) (a : Nat) : Nat :=
  (mem a).toNat + 256 * (mem (a + 1)).toNat + 65536 * (mem (a + 2)).toNat +
    16777216 * (mem (a + 3)).toNat

/-- The bytes of a word. -/
def bytes32 (v i : Nat) : UInt8 := UInt8.ofNat (v / 256 ^ i)

/-- The store of a word. -/
def write32 (mem : Nat → UInt8) (a v : Nat) : Nat → UInt8 := overwrite mem a 4 (bytes32 v)

theorem overwrite_of_in (mem : Nat → UInt8) {a n b : Nat} (src : Nat → UInt8) (h1 : a ≤ b)
    (h2 : b < a + n) : overwrite mem a n src b = src (b - a) := if_pos ⟨h1, h2⟩

theorem overwrite_of_out (mem : Nat → UInt8) {a n b : Nat} (src : Nat → UInt8)
    (h : b < a ∨ a + n ≤ b) : overwrite mem a n src b = mem b := if_neg (by omega)

@[simp] theorem overwrite_zero (mem : Nat → UInt8) (a : Nat) (src : Nat → UInt8) :
    overwrite mem a 0 src = mem := by
  funext b
  exact overwrite_of_out _ _ (by omega)

theorem overwrite_congr (mem : Nat → UInt8) {a n : Nat} {src src' : Nat → UInt8}
    (h : ∀ i < n, src i = src' i) : overwrite mem a n src = overwrite mem a n src' := by
  funext b
  by_cases hb : a ≤ b ∧ b < a + n
  · rw [overwrite_of_in _ _ hb.1 hb.2, overwrite_of_in _ _ hb.1 hb.2, h (b - a) (by omega)]
  · rw [overwrite_of_out _ _ (by omega), overwrite_of_out _ _ (by omega)]

/-- Two stores, one right behind the other. -/
theorem overwrite_next (mem : Nat → UInt8) (a n l : Nat) (src : Nat → UInt8) :
    overwrite (overwrite mem a n src) (a + n) l (fun i => src (n + i)) =
      overwrite mem a (n + l) src := by
  funext b
  by_cases hin : a + n ≤ b ∧ b < a + n + l
  · rw [overwrite_of_in _ _ hin.1 hin.2, overwrite_of_in _ _ (by omega) (by omega)]
    congr 1
    omega
  · rw [overwrite_of_out _ _ (by omega)]
    exact if_congr (by omega) rfl rfl

theorem read32_lt (mem : Nat → UInt8) (a : Nat) : read32 mem a < 2 ^ 32 := by
  have h0 := (mem a).toNat_lt
  have h1 := (mem (a + 1)).toNat_lt
  have h2 := (mem (a + 2)).toNat_lt
  have h3 := (mem (a + 3)).toNat_lt
  unfold read32
  omega

theorem read32_eq {mem mem' : Nat → UInt8} {a b : Nat} (h : ∀ i < 4, mem (a + i) = mem' (b + i)) :
    read32 mem a = read32 mem' b := by
  have h0 := h 0 (by decide)
  rw [Nat.add_zero, Nat.add_zero] at h0
  unfold read32
  rw [h0, h 1 (by decide), h 2 (by decide), h 3 (by decide)]

theorem read32_congr {mem mem' : Nat → UInt8} {a : Nat}
    (h : ∀ b, a ≤ b → b < a + 4 → mem b = mem' b) : read32 mem a = read32 mem' a :=
  read32_eq fun i hi => h (a + i) (Nat.le_add_right a i) (Nat.add_lt_add_left hi a)

theorem read32_overwrite_of_out (mem : Nat → UInt8) {a n b : Nat} (src : Nat → UInt8)
    (h : b + 4 ≤ a ∨ a + n ≤ b) : read32 (overwrite mem a n src) b = read32 mem b :=
  read32_congr fun _ _ _ => overwrite_of_out _ _ (by omega)

theorem read32_write32_of_ne (mem : Nat → UInt8) {a b : Nat} (v : Nat) (h : b + 4 ≤ a ∨ a + 4 ≤ b) :
    read32 (write32 mem a v) b = read32 mem b := read32_overwrite_of_out _ _ h

theorem read32_write32 (mem : Nat → UInt8) (a : Nat) {v : Nat} (hv : v < 2 ^ 32) :
    read32 (write32 mem a v) a = v := by
  have h : ∀ i, i < 4 → write32 mem a v (a + i) = bytes32 v i := fun i hi => by
    rw [write32, overwrite_of_in _ _ (by omega) (by omega), Nat.add_sub_cancel_left]
  have h0 := h 0 (by decide)
  rw [Nat.add_zero] at h0
  unfold read32
  rw [h0, h 1 (by decide), h 2 (by decide), h 3 (by decide)]
  simp only [bytes32, UInt8.toNat_ofNat']
  omega

/-- The memory whose word `k` is `f k`. -/
def words (f : Nat → Nat) : Nat → UInt8 := fun a => bytes32 (f (a / 4)) (a % 4)

theorem read32_words {f : Nat → Nat} {k : Nat} (h : f k < 2 ^ 32) : read32 (words f) (4 * k) = f k := by
  have hbytes : read32 (words f) (4 * k) = read32 (write32 (fun _ => 0) 0 (f k)) 0 := by
    refine read32_eq fun i hi => ?_
    rw [write32, overwrite_of_in _ _ (by omega) (by omega), words]
    congr 2
    all_goals omega
  rw [hbytes, read32_write32 _ _ h]

/-- The bytes `src 0`, `src 1`, … put at `place 0`, `place 1`, …, one after the other. -/
def scatter (mem : Nat → UInt8) (place : Nat → Nat) (src : Nat → UInt8) : Nat → Nat → UInt8
  | 0 => mem
  | n + 1 => overwrite (scatter mem place src n) (place n) 1 fun _ => src n

theorem scatter_succ_of_ne (mem : Nat → UInt8) (place : Nat → Nat) (src : Nat → UInt8) {n x : Nat}
    (h : place n ≠ x) : scatter mem place src (n + 1) x = scatter mem place src n x :=
  overwrite_of_out _ _ (by omega)

theorem scatter_of_out (mem : Nat → UInt8) (place : Nat → Nat) (src : Nat → UInt8) {n x : Nat}
    (h : ∀ i < n, place i ≠ x) : scatter mem place src n x = mem x := by
  induction n with
  | zero => rfl
  | succ n ih =>
    rw [scatter_succ_of_ne _ _ _ (h n (Nat.lt_succ_self n))]
    exact ih fun i hi => h i (Nat.lt_succ_of_lt hi)

/-- A byte that no later byte is put over. -/
theorem scatter_last (mem : Nat → UInt8) (place : Nat → Nat) (src : Nat → UInt8) {n i : Nat}
    (hi : i < n) (h : ∀ j < n, i < j → place j ≠ place i) :
    scatter mem place src n (place i) = src i := by
  induction n with
  | zero => exact absurd hi (Nat.not_lt_zero i)
  | succ n ih =>
    by_cases hn : i = n
    · subst hn
      exact overwrite_of_in _ _ (Nat.le_refl _) (Nat.lt_succ_self _)
    · have hlt : i < n := by omega
      rw [scatter_succ_of_ne _ _ _ (h n (Nat.lt_succ_self n) hlt)]
      exact ih hlt fun j hj => h j (Nat.lt_succ_of_lt hj)

/-- A chunk of bytes whose places follow one another is one store. -/
theorem scatter_add (mem : Nat → UInt8) (place : Nat → Nat) (src : Nat → UInt8) {k c : Nat}
    (h : ∀ i < c, place (k + i) = place k + i) :
    scatter mem place src (k + c) =
      overwrite (scatter mem place src k) (place k) c fun i => src (k + i) := by
  induction c with
  | zero => exact (overwrite_zero _ _ _).symm
  | succ c ih =>
    funext x
    rw [← Nat.add_assoc, scatter, ih fun i hi => h i (Nat.lt_succ_of_lt hi),
      h c (Nat.lt_succ_self c)]
    unfold overwrite
    by_cases hx : x = place k + c
    · rw [if_pos (by omega), if_pos (by omega), hx, Nat.add_sub_cancel_left]
    · rw [if_neg (by omega)]
      exact if_congr (by omega) rfl rfl

/-- A word inside a range that was set to zero. -/
theorem read32_overwrite_zero (mem : Nat → UInt8) {a n b : Nat} (h1 : a ≤ b) (h2 : b + 4 ≤ a + n) :
    read32 (overwrite mem a n fun _ => 0) b = 0 := by
  have h : ∀ i, i < 4 → overwrite mem a n (fun _ => 0) (b + i) = 0 := fun i hi =>
    overwrite_of_in _ _ (by omega) (by omega)
  have h0 := h 0 (by decide)
  rw [Nat.add_zero] at h0
  unfold read32
  rw [h0, h 1 (by decide), h 2 (by decide), h 3 (by decide)]
  rfl

end Lib
