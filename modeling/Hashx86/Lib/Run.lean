import Hashx86.Lib.Checked

/-!
# Runs of a deterministic machine

A machine is a step function `σ → ι → σ`; a run is a list of inputs.

* `run step s is`: the state after the run.
* `Along step P s is`: `P` holds of the state before and the input of every step of the run.
* `Along.of_inv`, `Along.iff_of_inv`: an invariant that each step keeps (under a condition on the
  step) proves a property, or an equivalence of two properties, of every step of a run.
* `answers`, `Refines`: a machine that answers its inputs, and one that answers like another;
  `Refines.of_inv`: an invariant under which each step answers and ends like one of the other.
* `tryRun`: a run of a machine that can fail; `tryRun_unless`: a relation that each step keeps, unless
  it fails, is kept by a run.
-/

namespace Lib

variable {σ ι : Type}

/-- The state after the inputs `is`. -/
def run (step : σ → ι → σ) (s : σ) : List ι → σ
  | [] => s
  | i :: is => run step (step s i) is

/-- `P` holds of the state before, and the input of, every step. -/
def Along (step : σ → ι → σ) (P : σ → ι → Prop) (s : σ) : List ι → Prop
  | [] => True
  | i :: is => P s i ∧ Along step P (step s i) is

@[simp] theorem run_nil (step : σ → ι → σ) (s : σ) : run step s [] = s := rfl

@[simp] theorem run_cons (step : σ → ι → σ) (s : σ) (i : ι) (is : List ι) :
    run step s (i :: is) = run step (step s i) is := rfl

@[simp] theorem along_nil (step : σ → ι → σ) (P : σ → ι → Prop) (s : σ) : Along step P s [] ↔ True :=
  Iff.rfl

@[simp] theorem along_cons (step : σ → ι → σ) (P : σ → ι → Prop) (s : σ) (i : ι) (is : List ι) :
    Along step P s (i :: is) ↔ P s i ∧ Along step P (step s i) is := Iff.rfl

theorem run_append (step : σ → ι → σ) (s : σ) (is js : List ι) :
    run step s (is ++ js) = run step (run step s is) js := by
  induction is generalizing s with
  | nil => rfl
  | cons i is ih => exact ih (step s i)

theorem along_append (step : σ → ι → σ) (P : σ → ι → Prop) (s : σ) (is js : List ι) :
    Along step P s (is ++ js) ↔ Along step P s is ∧ Along step P (run step s is) js := by
  induction is generalizing s with
  | nil => simp
  | cons i is ih => simp [ih, and_assoc]

theorem along_true (step : σ → ι → σ) (s : σ) (is : List ι) : Along step (fun _ _ => True) s is := by
  induction is generalizing s with
  | nil => trivial
  | cons i is ih => exact ⟨trivial, ih (step s i)⟩

variable {step : σ → ι → σ} {I : σ → Prop} {P Q : σ → ι → Prop}

theorem along_and {s : σ} {is : List ι} :
    Along step (fun s i => P s i ∧ Q s i) s is ↔ Along step P s is ∧ Along step Q s is := by
  induction is generalizing s with
  | nil => exact (and_self_iff (a := True)).symm
  | cons i is ih =>
    rw [along_cons, along_cons, along_cons, ih]
    exact and_and_and_comm

/-- An invariant that every allowed step keeps holds after an allowed run. -/
theorem run_inv (hstep : ∀ s i, I s → Q s i → I (step s i)) {s : σ} {is : List ι} (hs : I s)
    (hr : Along step Q s is) : I (run step s is) := by
  induction is generalizing s with
  | nil => exact hs
  | cons i is ih => exact ih (hstep s i hs hr.1) hr.2

/-- A property that the invariant gives each allowed step holds along an allowed run. -/
theorem Along.of_inv (hstep : ∀ s i, I s → Q s i → I (step s i) ∧ P s i) {s : σ} {is : List ι}
    (hs : I s) (hr : Along step Q s is) : Along step P s is := by
  induction is generalizing s with
  | nil => trivial
  | cons i is ih =>
    obtain ⟨h1, h2⟩ := hstep s i hs hr.1
    exact ⟨h2, ih h1 hr.2⟩

/-- Where the invariant makes the property of a step equivalent to the condition on it, they are
equivalent along a run. -/
theorem Along.iff_of_inv (hinv : ∀ s i, I s → Q s i → I (step s i))
    (hiff : ∀ s i, I s → (P s i ↔ Q s i)) {s : σ} {is : List ι} (hs : I s) :
    Along step P s is ↔ Along step Q s is := by
  induction is generalizing s with
  | nil => exact Iff.rfl
  | cons i is ih =>
    rw [along_cons, along_cons, hiff s i hs]
    exact and_congr_right fun hq => ih (hinv s i hs hq)

/-! ## Machines that answer -/

/-- The answers to the inputs `is`. -/
def answers {ω : Type} (step : σ → ι → ω × σ) (s : σ) : List ι → List ω
  | [] => []
  | i :: is => (step s i).1 :: answers step (step s i).2 is

/-- A machine in the state `s` answers like another one in the state `abs s`, and every state after
it stands for the one that the other is in. -/
def Refines {ω τ : Type} (step : σ → ι → ω × σ) (spec : τ → ι → ω × τ) (abs : σ → τ) (s : σ) : Prop :=
  ∀ is, answers step s is = answers spec (abs s) is ∧
    abs (run (fun s i => (step s i).2) s is) = run (fun t i => (spec t i).2) (abs s) is

theorem Refines.of_inv {ω τ : Type} {step : σ → ι → ω × σ} {spec : τ → ι → ω × τ} {abs : σ → τ}
    (hkeep : ∀ s i, I s → I (step s i).2)
    (hsim : ∀ s i, I s → (step s i).1 = (spec (abs s) i).1 ∧ abs (step s i).2 = (spec (abs s) i).2)
    {s : σ} (hs : I s) : Refines step spec abs s := by
  intro is
  induction is generalizing s with
  | nil => exact ⟨rfl, rfl⟩
  | cons i is ih =>
    obtain ⟨hanswer, hafter⟩ := hsim s i hs
    obtain ⟨hanswers, hrun⟩ := ih (hkeep s i hs)
    rw [hafter] at hanswers hrun
    refine ⟨?_, hrun⟩
    rw [answers, answers, hanswer, hanswers]

/-! ## Machines that can fail -/

/-- The answers to the inputs `is`, and the state after them. -/
def tryRun {ε ω : Type} (step : σ → ι → Except ε (ω × σ)) (s : σ) : List ι → Except ε (List ω × σ)
  | [] => .ok ([], s)
  | i :: is => do
    let (answer, s) ← step s i
    let (answers, s) ← tryRun step s is
    return (answer :: answers, s)

theorem tryRun_unless {ε ω τ : Type} {step : σ → ι → Except ε (ω × σ)} {spec : τ → ι → ω × τ}
    {R : σ → τ → Prop} {E : ε → Prop}
    (hsim : ∀ s t i, R s t → Unless E (step s i) fun r => r.1 = (spec t i).1 ∧ R r.2 (spec t i).2)
    {s : σ} {t : τ} (h : R s t) (is : List ι) :
    Unless E (tryRun step s is) fun r =>
      r.1 = answers spec t is ∧ R r.2 (run (fun t i => (spec t i).2) t is) := by
  induction is generalizing s t with
  | nil => exact ⟨rfl, h⟩
  | cons i is ih =>
    refine (hsim s t i h).bind fun r hr => (ih hr.2).bind fun rs hrs => ?_
    refine ⟨?_, hrs.2⟩
    rw [answers, hr.1, hrs.1]

end Lib
