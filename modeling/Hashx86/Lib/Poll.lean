/-!
# Bounded polling

`poll done fail s left k` reads the answers `s k`, `s (k + 1)`, … of a device until one of them is
`done`. It gives up on an answer that has failed, and after `left` further reads.

* `poll_eq_some_iff`: it returns `m` exactly when `m` is the first answer that is done, none before
  it has failed, and the reads suffice.
-/

namespace Lib

variable {α : Type} {done fail : α → Bool} {s : Nat → α}

def poll (done fail : α → Bool) (s : Nat → α) (left k : Nat) : Option Nat :=
  if done (s k) then some k
  else if fail (s k) then none
  else match left with
    | 0 => none
    | left + 1 => poll done fail s left (k + 1)

/-- `m` is the first answer from `k` on that is done, and none before it has failed. -/
structure FirstDone (done fail : α → Bool) (s : Nat → α) (k m : Nat) : Prop where
  le : k ≤ m
  at_end : done (s m) = true
  before : ∀ j, k ≤ j → j < m → done (s j) = false ∧ fail (s j) = false

theorem FirstDone.of_done {k : Nat} (h : done (s k) = true) : FirstDone done fail s k k :=
  ⟨Nat.le_refl k, h, fun j hk hj => absurd hj (by omega)⟩

/-- An answer that is not done and has not failed is passed over. -/
theorem firstDone_succ_iff {k m : Nat} (hd : done (s k) = false) (hf : fail (s k) = false) :
    FirstDone done fail s k m ↔ FirstDone done fail s (k + 1) m := by
  constructor
  · intro h
    have hne : m ≠ k := fun hm => by
      have := hm ▸ h.at_end
      rw [hd] at this
      exact absurd this Bool.false_ne_true
    have := h.le
    exact ⟨by omega, h.at_end, fun j hk hj => h.before j (by omega) hj⟩
  · intro h
    have := h.le
    refine ⟨by omega, h.at_end, fun j hk hj => ?_⟩
    rcases Nat.eq_or_lt_of_le hk with rfl | hk
    · exact ⟨hd, hf⟩
    · exact h.before j hk hj

theorem FirstDone.eq_of_done {k m : Nat} (h : FirstDone done fail s k m) (hd : done (s k) = true) :
    m = k := by
  rcases Nat.eq_or_lt_of_le h.le with heq | hlt
  · exact heq.symm
  · have hlate := (h.before k (Nat.le_refl k) hlt).1
    rw [hd] at hlate
    exact absurd hlate.symm Bool.false_ne_true

theorem not_firstDone_of_fail {k m : Nat} (hd : done (s k) = false) (hf : fail (s k) = true) :
    ¬ FirstDone done fail s k m := by
  intro h
  rcases Nat.eq_or_lt_of_le h.le with rfl | hlt
  · exact Bool.false_ne_true (hd.symm.trans h.at_end)
  · exact Bool.false_ne_true ((h.before k (Nat.le_refl k) hlt).2.symm.trans hf)

/-- The answers that end the polling at once. -/
theorem poll_eq_some_of_stop {left k m : Nat} (h : done (s k) = true ∨ fail (s k) = true) :
    poll done fail s left k = some m ↔ FirstDone done fail s k m ∧ m ≤ k + left := by
  unfold poll
  by_cases hd : done (s k) = true
  · rw [if_pos hd]
    constructor
    · intro hm
      obtain rfl := Option.some.inj hm
      exact ⟨.of_done hd, Nat.le_add_right k left⟩
    · rintro ⟨hm, -⟩
      rw [hm.eq_of_done hd]
  · have hf := h.resolve_left hd
    rw [if_neg hd, if_pos hf]
    have hd : done (s k) = false := by simpa using hd
    exact ⟨fun hm => absurd hm (Option.some_ne_none m).symm,
      fun hm => absurd hm.1 (not_firstDone_of_fail hd hf)⟩

theorem poll_eq_some_iff {left k m : Nat} :
    poll done fail s left k = some m ↔ FirstDone done fail s k m ∧ m ≤ k + left := by
  induction left generalizing k with
  | zero =>
    by_cases hstop : done (s k) = true ∨ fail (s k) = true
    · exact poll_eq_some_of_stop hstop
    · obtain ⟨hd, hf⟩ := not_or.mp hstop
      unfold poll
      rw [if_neg hd, if_neg hf]
      refine ⟨fun hm => absurd hm (Option.some_ne_none m).symm, fun ⟨hm, hle⟩ => ?_⟩
      have heq : m = k := by have := hm.le; omega
      exact absurd (heq ▸ hm.at_end) hd
  | succ left ih =>
    by_cases hstop : done (s k) = true ∨ fail (s k) = true
    · exact poll_eq_some_of_stop hstop
    · obtain ⟨hd, hf⟩ := not_or.mp hstop
      unfold poll
      rw [if_neg hd, if_neg hf]
      have hd : done (s k) = false := by simpa using hd
      have hf : fail (s k) = false := by simpa using hf
      rw [ih, firstDone_succ_iff hd hf]
      exact and_congr_right fun _ => by omega

end Lib
