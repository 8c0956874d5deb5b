import Mathlib.Logic.Basic

/-!
# Programs that must not end with a given error

`Avoids bad x P`: the program `x` does not end with the error `bad`, and when it gives a result,
`P` holds of it.

* `avoids_ok`, `avoids_error`, `Avoids.bind`, `Avoids.mono`: the rules.
* `avoids_iff`: the statement in full.
* `Unless E x P`: the program `x` gives a result of which `P` holds, or ends with an error of which `E`
  holds; `unless_ok`, `unless_error`, `Unless.bind`, `Unless.mono`: its rules.
* `ok_bind`, `error_bind`: a program after a step that gave a result, or an error.
* `bind_eq_ok`: the two steps of a program that gives a result.
* `foldlM_ok`: a relation to a program that cannot fail, kept by each step, is kept by a run.
-/

namespace Lib

variable {ε α β : Type} {bad : ε}

def Avoids (bad : ε) (x : Except ε α) (P : α → Prop) : Prop :=
  match x with
  | .ok a => P a
  | .error e => e ≠ bad

theorem avoids_iff {x : Except ε α} {P : α → Prop} :
    Avoids bad x P ↔ x ≠ .error bad ∧ ∀ a, x = .ok a → P a := by
  cases x with
  | ok a => simp [Avoids]
  | error e => simp [Avoids]

theorem Avoids.ne {x : Except ε α} {P : α → Prop} (h : Avoids bad x P) : x ≠ .error bad :=
  (avoids_iff.mp h).1

theorem avoids_ok {a : α} {P : α → Prop} (h : P a) : Avoids bad (.ok a) P := h

theorem avoids_error {e : ε} (P : α → Prop) (h : e ≠ bad) : Avoids bad (.error e) P := h

theorem Avoids.mono {x : Except ε α} {P Q : α → Prop} (h : Avoids bad x P) (hpq : ∀ a, P a → Q a) :
    Avoids bad x Q := by
  cases x with
  | ok a => exact hpq a h
  | error e => exact h

theorem Avoids.bind {x : Except ε α} {f : α → Except ε β} {P : α → Prop} {Q : β → Prop}
    (h : Avoids bad x P) (hf : ∀ a, P a → Avoids bad (f a) Q) : Avoids bad (x >>= f) Q := by
  cases x with
  | ok a => exact hf a h
  | error e => exact h

theorem ok_bind (a : α) (f : α → Except ε β) : Except.ok a >>= f = f a := rfl

theorem error_bind (e : ε) (f : α → Except ε β) : Except.error e >>= f = .error e := rfl

theorem bind_eq_ok {x : Except ε α} {f : α → Except ε β} {b : β} :
    x >>= f = .ok b ↔ ∃ a, x = .ok a ∧ f a = .ok b := by
  cases x with
  | ok a =>
    constructor
    · intro h
      exact ⟨a, rfl, h⟩
    · rintro ⟨_, ha, h⟩
      cases ha
      exact h
  | error e => exact iff_of_false nofun fun ⟨_, h, _⟩ => nomatch h

theorem foldlM_ok {σ τ ι : Type} {step : σ → ι → Except ε σ} {spec : τ → ι → τ} {R : σ → τ → Prop}
    (hstep : ∀ s t i, R s t → ∃ s', step s i = .ok s' ∧ R s' (spec t i)) {s : σ} {t : τ} (h : R s t)
    (is : List ι) : ∃ s', is.foldlM step s = .ok s' ∧ R s' (is.foldl spec t) := by
  induction is generalizing s t with
  | nil => exact ⟨s, rfl, h⟩
  | cons i is ih =>
    obtain ⟨s', hs', h'⟩ := hstep s t i h
    rw [List.foldlM_cons, hs', ok_bind, List.foldl_cons]
    exact ih h'

/-! ## Programs that can end with certain errors only -/

variable {E : ε → Prop}

def Unless (E : ε → Prop) (x : Except ε α) (P : α → Prop) : Prop :=
  match x with
  | .ok a => P a
  | .error e => E e

theorem unless_ok {a : α} {P : α → Prop} (h : P a) : Unless E (.ok a) P := h

theorem unless_error {e : ε} (P : α → Prop) (h : E e) : Unless E (.error e) P := h

theorem Unless.mono {x : Except ε α} {P Q : α → Prop} (h : Unless E x P) (hpq : ∀ a, P a → Q a) :
    Unless E x Q := by
  cases x with
  | ok a => exact hpq a h
  | error e => exact h

theorem Unless.bind {x : Except ε α} {f : α → Except ε β} {P : α → Prop} {Q : β → Prop}
    (h : Unless E x P) (hf : ∀ a, P a → Unless E (f a) Q) : Unless E (x >>= f) Q := by
  cases x with
  | ok a => exact hf a h
  | error e => exact h

end Lib
