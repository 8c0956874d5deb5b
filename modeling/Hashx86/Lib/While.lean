/-!
# Loops that may run forever

A turn of the loop goes on with a new state (`inl`) or leaves with a result (`inr`). It may read the
number of the turn, for what it meets outside the state.

* `loop turn fuel k s`: the result, if the loop leaves within `fuel` turns from turn `k` on.
* `Reaches turn s k t`: the loop from `s` is in `t` before turn `k`.
* `loop_stuck`: a turn that changes nothing is the last.
* `loop_eq_some_iff`: the loop gives the result of the turn that leaves.
* `loop_ends`: a loop whose turns decrease a measure leaves.
* `whileLoop`, `whileLoop_spec`: a loop whose turns may fail, and its rule: an invariant, a measure
  that each turn decreases, and what holds where the loop leaves.
* `visitLoop`, `visitLoop_eq`: a loop that visits its states and stops at one; it is the visits to the
  states of its path.
-/

namespace Lib

variable {σ ρ : Type}

def loop (turn : Nat → σ → σ ⊕ ρ) : (fuel k : Nat) → σ → Option ρ
  | 0, _, _ => none
  | fuel + 1, k, s =>
    match turn k s with
    | .inl s => loop turn fuel (k + 1) s
    | .inr r => some r

inductive Reaches (turn : Nat → σ → σ ⊕ ρ) (s : σ) : Nat → σ → Prop where
  | start : Reaches turn s 0 s
  | next {k t t'} : Reaches turn s k t → turn k t = .inl t' → Reaches turn s (k + 1) t'

variable {turn : Nat → σ → σ ⊕ ρ} {s : σ}

/-- A state that is reached is the start, or reached from the state after the first turn. -/
theorem Reaches.head {s' : σ} (h : turn 0 s = .inl s') {k : Nat} {t : σ}
    (hr : Reaches turn s (k + 1) t) : Reaches (fun k => turn (k + 1)) s' k t := by
  generalize hk : k + 1 = n at hr
  induction hr generalizing k with
  | start => exact absurd hk (Nat.succ_ne_zero k)
  | @next n t t' hr ht ih =>
    obtain rfl : k = n := Nat.succ.inj hk
    cases k with
    | zero =>
      cases hr
      cases h.symm.trans ht
      exact .start
    | succ k => exact .next (ih rfl) ht

theorem Reaches.tail {s' : σ} (h : turn 0 s = .inl s') {k : Nat} {t : σ}
    (hr : Reaches (fun k => turn (k + 1)) s' k t) : Reaches turn s (k + 1) t := by
  induction hr with
  | start => exact .next .start h
  | next _ ht ih => exact .next ih ht

theorem loop_shift (turn : Nat → σ → σ ⊕ ρ) (fuel k : Nat) (s : σ) :
    loop (fun k => turn (k + 1)) fuel k s = loop turn fuel (k + 1) s := by
  induction fuel generalizing k s with
  | zero => rfl
  | succ fuel ih =>
    unfold loop
    split
    · exact ih (k + 1) _
    · rfl

/-- More turns do not change the result. -/
theorem loop_mono {fuel fuel' k : Nat} {r : ρ} (h : loop turn fuel k s = some r)
    (hle : fuel ≤ fuel') : loop turn fuel' k s = some r := by
  induction fuel generalizing fuel' k s with
  | zero => exact nomatch h
  | succ fuel ih =>
    cases fuel' with
    | zero => exact absurd hle (Nat.not_succ_le_zero fuel)
    | succ fuel' =>
      unfold loop at h ⊢
      split at h
      · exact ih h (Nat.le_of_succ_le_succ hle)
      · exact h

/-- A turn that changes nothing is made forever. -/
theorem loop_stuck {t : σ → σ ⊕ ρ} (h : t s = .inl s) (fuel k : Nat) :
    loop (fun _ => t) fuel k s = none := by
  induction fuel generalizing k with
  | zero => rfl
  | succ fuel ih =>
    rw [loop, h]
    exact ih (k + 1)

/-- The loop gives the result of the turn that leaves. -/
theorem loop_eq_some_iff {r : ρ} :
    (∃ fuel, loop turn fuel 0 s = some r) ↔ ∃ k t, Reaches turn s k t ∧ turn k t = .inr r := by
  constructor
  · rintro ⟨fuel, hf⟩
    induction fuel generalizing turn s with
    | zero => exact nomatch hf
    | succ fuel ih =>
      unfold loop at hf
      cases ht : turn 0 s with
      | inl s' =>
        rw [ht] at hf
        obtain ⟨k, t, hr, hk⟩ := ih ((loop_shift turn fuel 0 s').trans hf)
        exact ⟨k + 1, t, hr.tail ht, hk⟩
      | inr r' =>
        rw [ht] at hf
        cases hf
        exact ⟨0, s, .start, ht⟩
  · rintro ⟨k, t, hr, hk⟩
    induction k generalizing turn s with
    | zero =>
      cases hr
      refine ⟨1, ?_⟩
      rw [loop, hk]
    | succ k ih =>
      have hfirst : ∃ s', turn 0 s = .inl s' := by
        clear hk ih
        generalize hn : k + 1 = n at hr
        induction hr generalizing k with
        | start => exact absurd hn (Nat.succ_ne_zero k)
        | @next n t t' hr ht ih =>
          cases n with
          | zero =>
            cases hr
            exact ⟨t', ht⟩
          | succ n => exact ih n rfl
      obtain ⟨s', hs'⟩ := hfirst
      obtain ⟨fuel, hf⟩ := ih (hr.head hs') hk
      refine ⟨fuel + 1, ?_⟩
      rw [loop, hs']
      exact (loop_shift turn fuel 0 s').symm.trans hf

/-- A loop whose turns decrease a measure leaves. -/
theorem loop_ends (m : σ → Nat)
    (h : ∀ k t t', Reaches turn s k t → turn k t = .inl t' → m t' < m t) :
    ∃ fuel r, loop turn fuel 0 s = some r := by
  generalize hn : m s = n
  induction n using Nat.strongRecOn generalizing turn s with
  | ind n ih =>
    cases ht : turn 0 s with
    | inl s' =>
      have hlt := h 0 s s' .start ht
      obtain ⟨fuel, r, hf⟩ := ih (m s') (hn ▸ hlt)
        (fun k t t' hr hk => h (k + 1) t t' (hr.tail ht) hk) rfl
      refine ⟨fuel + 1, r, ?_⟩
      rw [loop, ht]
      exact (loop_shift turn fuel 0 s').symm.trans hf
    | inr r =>
      refine ⟨1, r, ?_⟩
      rw [loop, ht]

/-- The loop over a turn that fails, leaves (`none`) or goes on; `endless` if it does not leave in
`fuel` turns. -/
def whileLoop {ε : Type} (turn : σ → Except ε (Option σ)) (endless : ε) :
    (fuel : Nat) → σ → Except ε σ
  | 0, _ => .error endless
  | fuel + 1, s =>
    match turn s with
    | .error e => .error e
    | .ok none => .ok s
    | .ok (some s') => whileLoop turn endless fuel s'

theorem whileLoop_spec {ε : Type} {turn : σ → Except ε (Option σ)} (endless : ε) (inv : σ → Prop)
    (m : σ → Nat) (post : σ → Prop)
    (hturn : ∀ s, inv s → (turn s = .ok none ∧ post s) ∨
      ∃ s', turn s = .ok (some s') ∧ inv s' ∧ m s' < m s)
    {fuel : Nat} {s : σ} (hs : inv s) (hf : m s < fuel) :
    ∃ t, whileLoop turn endless fuel s = .ok t ∧ post t := by
  induction fuel generalizing s with
  | zero => exact absurd hf (Nat.not_lt_zero _)
  | succ fuel ih =>
    obtain ⟨hleave, hpost⟩ | ⟨s', hgo, hinv, hlt⟩ := hturn s hs
    · refine ⟨s, ?_, hpost⟩
      rw [whileLoop, hleave]
    · obtain ⟨t, ht, hpost⟩ := ih hinv (by omega)
      refine ⟨t, ?_, hpost⟩
      rw [whileLoop, hgo]
      exact ht

/-- The loop `while (true) { visit; if (stop) break; step }`; `endless` if it does not leave in `fuel`
turns. -/
def visitLoop {ε τ : Type} (visit : σ → τ → Except ε τ) (stop : σ → Bool) (step : σ → Except ε σ)
    (endless : ε) : (fuel : Nat) → σ → τ → Except ε τ
  | 0, _, _ => .error endless
  | fuel + 1, s, t => do
    let t ← visit s t
    if stop s then return t
    else visitLoop visit stop step endless fuel (← step s) t

/-- A loop that steps along a path up to its point `n`, where it stops, visits the points of the path. -/
theorem visitLoop_eq {ε τ : Type} {visit : σ → τ → Except ε τ} {stop : σ → Bool}
    {step : σ → Except ε σ} (endless : ε) (path : Nat → σ) {n fuel : Nat}
    (hgo : ∀ k < n, stop (path k) = false ∧ step (path k) = .ok (path (k + 1)))
    (hstop : stop (path n) = true) (hf : n < fuel) (t : τ) :
    visitLoop visit stop step endless fuel (path 0) t =
      (List.range (n + 1)).foldlM (fun t k => visit (path k) t) t := by
  induction n generalizing path fuel t with
  | zero =>
    obtain ⟨fuel, rfl⟩ := Nat.exists_eq_succ_of_ne_zero (Nat.ne_of_gt hf)
    rw [visitLoop, hstop]
    rfl
  | succ n ih =>
    obtain ⟨fuel, rfl⟩ := Nat.exists_eq_succ_of_ne_zero (Nat.ne_of_gt (Nat.zero_lt_of_lt hf))
    obtain ⟨hgoes, hstep⟩ := hgo 0 (Nat.succ_pos n)
    rw [visitLoop, hgoes, hstep, List.range_succ_eq_map, List.foldlM_cons]
    congr 1
    funext t
    rw [List.foldlM_map]
    exact ih (fun k => path (k + 1)) (fun k hk => hgo (k + 1) (Nat.succ_lt_succ hk)) hstop
      (Nat.lt_of_succ_lt_succ hf) t

end Lib
