import Mathlib.Logic.Function.Basic

/-!
# Segments of a linked structure

`Segment next p as q`: following `next` from `p` meets the places `as`, one after the other, and then
arrives at `q`.

* `segment_append`, `Segment.append`, `Segment.snoc`: two segments, one after the other.
* `Segment.congr`: what is linked outside `as` does not matter.
* `Segment.relink`: the last place of a segment is linked to another one.
-/

namespace Lib

variable {α : Type} {next next' : α → α} {p q r a : α} {as bs : List α}

def Segment (next : α → α) : α → List α → α → Prop
  | p, [], q => p = q
  | p, a :: as, q => p = a ∧ Segment next (next a) as q

@[simp] theorem segment_nil : Segment next p [] q ↔ p = q := Iff.rfl

@[simp] theorem segment_cons :
    Segment next p (a :: as) q ↔ p = a ∧ Segment next (next a) as q := Iff.rfl

theorem segment_append :
    Segment next p (as ++ bs) r ↔ ∃ q, Segment next p as q ∧ Segment next q bs r := by
  induction as generalizing p with
  | nil => simp
  | cons a as ih => simp [ih, and_assoc]

theorem Segment.append (h1 : Segment next p as q) (h2 : Segment next q bs r) :
    Segment next p (as ++ bs) r :=
  segment_append.mpr ⟨q, h1, h2⟩

theorem Segment.snoc (h : Segment next p as a) : Segment next p (as ++ [a]) (next a) :=
  h.append ⟨rfl, rfl⟩

theorem Segment.congr (h : Segment next p as q) (hn : ∀ a ∈ as, next' a = next a) :
    Segment next' p as q := by
  induction as generalizing p with
  | nil => exact h
  | cons a as ih =>
    obtain ⟨rfl, hrest⟩ := h
    refine ⟨rfl, ?_⟩
    rw [hn p (by simp)]
    exact ih hrest fun b hb => hn b (by simp [hb])

/-- The last place gets `r` as its next one, those before it keep theirs. -/
theorem Segment.relink (h : Segment next p (as ++ [a]) q) (hn : ∀ b ∈ as, next' b = next b) :
    Segment next' p (as ++ [a]) (next' a) := by
  obtain ⟨b, hfirst, rfl, -⟩ := segment_append.mp h
  exact (hfirst.congr hn).snoc

/-- A segment to a place that is not on it is empty exactly when it starts there. -/
theorem Segment.eq_nil_iff (h : Segment next p as q) (hq : q ∉ as) : as = [] ↔ p = q := by
  constructor
  · rintro rfl
    exact h
  · rintro rfl
    cases as with
    | nil => rfl
    | cons a as => exact absurd (h.1 ▸ List.mem_cons_self) hq

end Lib
