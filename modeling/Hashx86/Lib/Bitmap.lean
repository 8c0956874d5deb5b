import Mathlib.Data.Nat.Count
import Mathlib.Logic.Function.Basic

/-!
# Bitmaps: counting set bits, first-fit searches

A bitmap is a function `Nat → Bool`.

* `countBits b n`: the set bits among the first `n`, and how the count changes with one bit
  (`countBits_set`, `countBits_clear`).
* `Found P lo hi r`: `r` is the least index of `[lo, hi)` with `P`, or `none` if there is none.
  A search that goes on from `mid` after finding nothing below it is `Found.append`.
* `IsRun P s a`: the `s` indices from `a` on all have `P`. `FoundRun` is the first-fit search for
  a run, and `Streak` the invariant of a scan that carries the length of the current run.
* `bitAt a f`: bit `f` of a bitmap stored in an array of `w`-bit words, with what setting and
  clearing a bit of a word does to it.
-/

namespace Lib

/-! ## Counting -/

/-- The number of set bits among the first `n`. -/
def countBits (b : Nat → Bool) (n : Nat) : Nat := Nat.count (fun k => b k = true) n

theorem countBits_succ (b : Nat → Bool) (n : Nat) :
    countBits b (n + 1) = countBits b n + if b n = true then 1 else 0 := by
  simp [countBits, Nat.count_succ]

theorem countBits_le (b : Nat → Bool) (n : Nat) : countBits b n ≤ n := Nat.count_le _

theorem countBits_congr {b b' : Nat → Bool} {n : Nat} (h : ∀ k, k < n → b k = b' k) :
    countBits b n = countBits b' n := by
  induction n with
  | zero => rfl
  | succ n ih => rw [countBits_succ, countBits_succ, ih fun k hk => h k (by omega), h n (by omega)]

/-- All bits are set. -/
theorem countBits_full {b : Nat → Bool} {n : Nat} (h : ∀ k, k < n → b k = true) :
    countBits b n = n := Nat.count_iff_forall.mpr h

/-- Setting a clear bit adds one. -/
theorem countBits_set {b b' : Nat → Bool} {n f : Nat} (hf : f < n) (h0 : b f = false)
    (h1 : b' f = true) (hne : ∀ k, k ≠ f → b' k = b k) :
    countBits b' n = countBits b n + 1 := by
  induction n with
  | zero => omega
  | succ n ih =>
    rw [countBits_succ, countBits_succ]
    by_cases hfn : f = n
    · subst hfn
      rw [countBits_congr fun k hk => hne k (by omega), h0, h1]
      simp
    · rw [ih (by omega), hne n (Ne.symm hfn)]
      omega

/-- Clearing a set bit takes one away. -/
theorem countBits_clear {b b' : Nat → Bool} {n f : Nat} (hf : f < n) (h1 : b f = true)
    (h0 : b' f = false) (hne : ∀ k, k ≠ f → b' k = b k) :
    countBits b n = countBits b' n + 1 :=
  countBits_set hf h0 h1 fun k hk => (hne k hk).symm

/-- The count is below `n` exactly when some bit is clear. -/
theorem countBits_lt_iff {b : Nat → Bool} {n : Nat} :
    countBits b n < n ↔ ∃ k, k < n ∧ b k = false := by
  constructor
  · intro h
    by_contra hn
    have := countBits_full (b := b) (n := n) fun k hk => by
      cases hb : b k with
      | true => rfl
      | false => exact absurd ⟨k, hk, hb⟩ hn
    omega
  · rintro ⟨k, hk, hb⟩
    have hset : countBits (fun j => if j = k then true else b j) n = countBits b n + 1 :=
      countBits_set hk hb (by simp) fun j hj => by simp [hj]
    have := countBits_le (fun j => if j = k then true else b j) n
    omega

/-- Bits from `n` on that are clear do not count. -/
theorem countBits_tail {b : Nat → Bool} {n m : Nat} (hm : n ≤ m)
    (h : ∀ k, n ≤ k → b k = false) : countBits b m = countBits b n := by
  induction m with
  | zero => rw [Nat.le_zero.mp hm]
  | succ m ih =>
    by_cases hn : n = m + 1
    · rw [hn]
    · rw [countBits_succ, ih (by omega), h m (by omega)]
      simp

/-- A run of `s` clear bits leaves at most `n - s` set ones. -/
theorem countBits_add_le {b : Nat → Bool} {n a s : Nat} (hn : a + s ≤ n)
    (h : ∀ k, a ≤ k → k < a + s → b k = false) : countBits b n + s ≤ n := by
  induction n generalizing s with
  | zero => simp [countBits]; omega
  | succ n ih =>
    rw [countBits_succ]
    by_cases hs : a + s = n + 1
    · cases s with
      | zero =>
        have := countBits_le b n
        split <;> omega
      | succ s =>
        rw [h n (by omega) (by omega)]
        have := ih (s := s) (by omega) fun k h1 h2 => h k h1 (by omega)
        simp
        omega
    · have := ih (s := s) (by omega) h
      split <;> omega

/-! ## First-fit search for one index -/

/-- `r` is the least index of `[lo, hi)` with `P`, or `none` when there is none. -/
def Found (P : Nat → Prop) (lo hi : Nat) : Option Nat → Prop
  | some f => lo ≤ f ∧ f < hi ∧ P f ∧ ∀ g, lo ≤ g → g < f → ¬ P g
  | none => ∀ g, lo ≤ g → g < hi → ¬ P g

/-- Nothing below `mid`, then the result of the search from `mid` on. -/
theorem Found.append {P : Nat → Prop} {lo mid hi : Nat} {r : Option Nat}
    (h0 : Found P lo mid none) (h : Found P mid hi r) (hm : lo ≤ mid) : Found P lo hi r := by
  cases r with
  | none =>
    intro g h1 h2
    by_cases hg : g < mid
    · exact h0 g h1 hg
    · exact h g (by omega) h2
  | some f =>
    obtain ⟨h1, h2, h3, h4⟩ := h
    refine ⟨by omega, h2, h3, fun g h5 h6 => ?_⟩
    by_cases hg : g < mid
    · exact h0 g h5 hg
    · exact h4 g (by omega) h6

/-- A hit below `mid` is a hit below `hi`. -/
theorem Found.widen {P : Nat → Prop} {lo mid hi f : Nat} (h : Found P lo mid (some f))
    (hm : mid ≤ hi) : Found P lo hi (some f) :=
  ⟨h.1, by have := h.2.1; omega, h.2.2.1, h.2.2.2⟩

theorem Found.empty {P : Nat → Prop} {lo hi : Nat} (h : hi ≤ lo) : Found P lo hi none :=
  fun g h1 h2 => by omega

theorem Found.hit {P : Nat → Prop} {lo hi : Nat} (h : lo < hi) (hp : P lo) :
    Found P lo hi (some lo) :=
  ⟨Nat.le_refl _, h, hp, fun g h1 h2 => by omega⟩

theorem Found.skip {P : Nat → Prop} {lo : Nat} (hp : ¬ P lo) : Found P lo (lo + 1) none := by
  intro g h1 h2
  rwa [show g = lo by omega]

/-! ## First-fit search for a run -/

/-- The `s` indices from `a` on all have `P`; a run is not empty. -/
def IsRun (P : Nat → Prop) (s a : Nat) : Prop := 0 < s ∧ ∀ k, a ≤ k → k < a + s → P k

/-- `r` is the first run of `s` indices below `hi`, or `none` when there is none. -/
def FoundRun (P : Nat → Prop) (s hi : Nat) : Option Nat → Prop
  | some a => a + s ≤ hi ∧ IsRun P s a ∧ ∀ c, IsRun P s c → a ≤ c
  | none => ∀ c, c + s ≤ hi → ¬ IsRun P s c

/-- The scan for a run of `s` has read the indices below `pos`: the last `free` of them are the
current run (starting at `start`), the one before it is not in `P`, and no run of `s` ends here or
earlier. -/
structure Streak (P : Nat → Prop) (s pos free start : Nat) : Prop where
  le : free ≤ pos
  lt : free < s
  start_eq : free ≠ 0 → start + free = pos
  run : ∀ k, pos - free ≤ k → k < pos → P k
  edge : pos = free ∨ ¬ P (pos - free - 1)

theorem Streak.zero {P : Nat → Prop} {s start : Nat} (hs : 0 < s) : Streak P s 0 0 start :=
  ⟨Nat.le_refl _, hs, fun h => absurd rfl h, fun k _ h => by omega, .inl rfl⟩

/-- A run that ends at `pos` or earlier, or starts before the current streak, does not exist. -/
theorem Streak.start_le {P : Nat → Prop} {s pos free start c : Nat} (h : Streak P s pos free start)
    (hold : ∀ c, c + s ≤ pos → ¬ IsRun P s c) (hc : IsRun P s c) : pos - free ≤ c := by
  by_contra hlt
  rcases h.edge with he | he
  · omega
  · by_cases hx : c + s ≤ pos - free - 1
    · exact hold c (by omega) hc
    · exact he (hc.2 _ (by omega) (by omega))

/-- The scan reads an index in `P` and the run is complete. -/
theorem Streak.found {P : Nat → Prop} {s pos free start hi : Nat} (h : Streak P s pos free start)
    (hold : ∀ c, c + s ≤ pos → ¬ IsRun P s c) (hp : P pos) (hhi : pos < hi) (hs : free + 1 = s) :
    FoundRun P s hi (some (if free = 0 then pos else start)) := by
  have hst : (if free = 0 then pos else start) = pos - free := by
    have := h.start_eq
    split <;> omega
  have hle := h.le
  rw [hst]
  refine ⟨by omega, ⟨by omega, fun k h1 h2 => ?_⟩, fun c hc => h.start_le hold hc⟩
  by_cases hk : k = pos
  · rwa [hk]
  · exact h.run k h1 (by omega)

/-- The scan reads an index in `P` and goes on. -/
theorem Streak.grow {P : Nat → Prop} {s pos free start : Nat} (h : Streak P s pos free start)
    (hp : P pos) (hs : free + 1 ≠ s) :
    Streak P s (pos + 1) (free + 1) (if free = 0 then pos else start) := by
  have hle := h.le
  have hlt := h.lt
  refine ⟨by omega, by omega, fun _ => ?_, fun k h1 h2 => ?_, ?_⟩
  · have := h.start_eq
    split <;> omega
  · by_cases hk : k = pos
    · rwa [hk]
    · exact h.run k (by omega) (by omega)
  · rcases h.edge with he | he
    · left; omega
    · right; rwa [show pos + 1 - (free + 1) - 1 = pos - free - 1 by omega]

/-- The scan reads an index not in `P`. -/
theorem Streak.reset {P : Nat → Prop} {s pos start : Nat} (hs : 0 < s) (hp : ¬ P pos) :
    Streak P s (pos + 1) 0 start :=
  ⟨Nat.zero_le _, hs, fun h => absurd rfl h, fun k _ h => by omega, .inr (by simpa using hp)⟩

/-- After a step of the scan there is still no run that ends at the new position or earlier. -/
theorem Streak.no_run {P : Nat → Prop} {s pos free start : Nat} (h : Streak P s pos free start)
    (hold : ∀ c, c + s ≤ pos → ¬ IsRun P s c) (hnew : ¬ P pos ∨ free + 1 ≠ s) :
    ∀ c, c + s ≤ pos + 1 → ¬ IsRun P s c := by
  intro c hc hr
  have hst := h.start_le hold hr
  have hlt := h.lt
  have hpos := hr.1
  by_cases hx : c + s ≤ pos
  · exact hold c hx hr
  · rcases hnew with hn | hn
    · exact hn (hr.2 pos (by omega) (by omega))
    · omega

/-! ## Bitmaps stored in words -/

section Words

variable {w : Nat}

/-- Bit `f` of an array of `w`-bit words. -/
def bitAt (a : Nat → BitVec w) (f : Nat) : Bool := (a (f / w)).getLsbD (f % w)

theorem bitAt_word (a : Nat → BitVec w) {i j : Nat} (hj : j < w) :
    bitAt a (i * w + j) = (a i).getLsbD j := by
  rw [bitAt, Nat.mul_comm, Nat.mul_add_div (by omega), Nat.div_eq_of_lt hj, Nat.mul_add_mod,
    Nat.mod_eq_of_lt hj, Nat.add_zero]

/-- Two indices in the same word at the same place are the same. -/
theorem index_eq {f g : Nat} (h1 : f / w = g / w) (h2 : f % w = g % w) : f = g := by
  rw [← Nat.div_add_mod f w, ← Nat.div_add_mod g w, h1, h2]

theorem and_bit_ne_zero {x : BitVec w} {j : Nat} (hj : j < w) :
    ((x &&& (1#w <<< j)) != 0#w) = x.getLsbD j := by
  rw [← BitVec.twoPow_eq, BitVec.and_twoPow]
  cases x.getLsbD j with
  | false => simp
  | true =>
    have : BitVec.twoPow w j ≠ 0#w := fun h => by
      have := congrArg (·.getLsbD j) h
      simp [hj] at this
    simpa using this

theorem and_bit_eq_zero {x : BitVec w} {j : Nat} (hj : j < w) :
    ((x &&& (1#w <<< j)) == 0#w) = !x.getLsbD j := by
  rw [← and_bit_ne_zero hj, bne, Bool.not_not]

theorem getLsbD_bit {j k : Nat} (hj : j < w) : (1#w <<< j).getLsbD k = decide (k = j) := by
  rw [← BitVec.twoPow_eq, BitVec.getLsbD_twoPow]
  simp [hj, eq_comm]

theorem bitAt_setBit (a : Nat → BitVec w) (hw : 0 < w) (f g : Nat) :
    bitAt (Function.update a (f / w) (a (f / w) ||| (1#w <<< (f % w)))) g =
      (decide (g = f) || bitAt a g) := by
  unfold bitAt
  by_cases hd : g / w = f / w
  · rw [hd, Function.update_self, BitVec.getLsbD_or, getLsbD_bit (Nat.mod_lt _ hw)]
    by_cases hm : g % w = f % w
    · simp [index_eq hd hm]
    · have : g ≠ f := fun h => hm (by rw [h])
      simp [hm, this]
  · have : g ≠ f := fun h => hd (by rw [h])
    rw [Function.update_of_ne hd]
    simp [this]

theorem bitAt_clearBit (a : Nat → BitVec w) (hw : 0 < w) (f g : Nat) :
    bitAt (Function.update a (f / w) (a (f / w) &&& ~~~(1#w <<< (f % w)))) g =
      (!decide (g = f) && bitAt a g) := by
  unfold bitAt
  by_cases hd : g / w = f / w
  · rw [hd, Function.update_self, BitVec.getLsbD_and, BitVec.getLsbD_not,
      getLsbD_bit (Nat.mod_lt _ hw)]
    by_cases hm : g % w = f % w
    · simp [index_eq hd hm]
    · have : g ≠ f := fun h => hm (by rw [h])
      simp [hm, this, Nat.mod_lt _ hw]
  · have : g ≠ f := fun h => hd (by rw [h])
    rw [Function.update_of_ne hd]
    simp [this]

end Words

end Lib
