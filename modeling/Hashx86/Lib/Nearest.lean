import Mathlib.Data.List.Basic
import Mathlib.Order.Lattice

/-!
# The nearest entry of a list

A list of keys with values, in which a later entry hides an earlier one with its key.

* `lastAt l a`: the last value listed for a key. `Nearest l x e`: the last entry with the greatest
  key that is not above `x`.
* `nearest_append`: one more entry.
* `nearest_iff_lastAt`: the nearest entry is a matter of the last values only.
-/

namespace Lib

variable {κ α : Type} [LinearOrder κ]

/-- The last value listed for a key. -/
def lastAt (l : List (κ × α)) (a : κ) : Option α :=
  (l.reverse.find? fun e => decide (e.1 = a)).map Prod.snd

/-- The last entry with the greatest key that is not above `x`. -/
def Nearest (l : List (κ × α)) (x : κ) (e : κ × α) : Prop :=
  ∃ pre post, l = pre ++ e :: post ∧ e.1 ≤ x ∧ (∀ p ∈ pre, p.1 ≤ x → p.1 ≤ e.1) ∧
    ∀ p ∈ post, p.1 ≤ x → p.1 < e.1

variable {l l' : List (κ × α)} {x a : κ} {e : κ × α} {v : α}

theorem Nearest.le_of_mem (h : Nearest l x e) {p : κ × α} (hp : p ∈ l) (hx : p.1 ≤ x) :
    p.1 ≤ e.1 := by
  obtain ⟨pre, post, rfl, -, hpre, hpost⟩ := h
  rcases List.mem_append.mp hp with hmem | hmem
  · exact hpre p hmem hx
  · rcases List.mem_cons.mp hmem with rfl | hmem
    · exact le_refl _
    · exact le_of_lt (hpost p hmem hx)

theorem not_nearest_nil : ¬ Nearest ([] : List (κ × α)) x e := by
  rintro ⟨pre, post, h, -⟩
  exact absurd h.symm (List.append_ne_nil_of_right_ne_nil _ (List.cons_ne_nil _ _))

/-- A new entry is the nearest when no key is between it and `x`. -/
theorem nearest_append (e' : κ × α) :
    Nearest (l ++ [e']) x e ↔
      if e'.1 ≤ x ∧ ∀ p ∈ l, p.1 ≤ x → p.1 ≤ e'.1 then e' = e else Nearest l x e := by
  constructor
  · rintro ⟨pre, post, hl, hle, hpre, hpost⟩
    rcases List.eq_nil_or_concat post with rfl | ⟨post', e'', rfl⟩
    · obtain ⟨rfl, he⟩ := List.append_inj' hl rfl
      cases he
      rw [if_pos ⟨hle, hpre⟩]
    · rw [List.concat_eq_append] at hl hpost
      rw [← List.cons_append, ← List.append_assoc] at hl
      obtain ⟨rfl, he⟩ := List.append_inj' hl rfl
      cases he
      have hlt := hpost e' (List.mem_append_right _ List.mem_cons_self)
      rw [if_neg]
      · exact ⟨pre, post', rfl, hle, hpre, fun p hp => hpost p (List.mem_append_left _ hp)⟩
      · rintro ⟨hle', hall⟩
        have hge := hall e (List.mem_append_right _ List.mem_cons_self) hle
        exact absurd (hlt hle') (not_lt_of_ge hge)
  · intro h
    split at h
    case isTrue hlast =>
      subst h
      exact ⟨l, [], rfl, hlast.1, hlast.2, fun p hp => absurd hp List.not_mem_nil⟩
    case isFalse hlast =>
      have hmax : ∀ p ∈ l, p.1 ≤ x → p.1 ≤ e.1 := fun p hp hx => h.le_of_mem hp hx
      obtain ⟨pre, post, rfl, hle, hpre, hpost⟩ := h
      refine ⟨pre, post ++ [e'], by rw [List.append_assoc]; rfl, hle, hpre, fun p hp hx => ?_⟩
      rcases List.mem_append.mp hp with hmem | hmem
      · exact hpost p hmem hx
      · obtain rfl := List.mem_singleton.mp hmem
        by_contra hge
        exact hlast ⟨hx, fun q hq hqx => (hmax q hq hqx).trans (le_of_not_gt hge)⟩

theorem lastAt_eq_some_iff : lastAt l a = some v ↔
    ∃ pre post, l = pre ++ (a, v) :: post ∧ ∀ p ∈ post, p.1 ≠ a := by
  unfold lastAt
  rw [Option.map_eq_some_iff]
  constructor
  · rintro ⟨⟨b, w⟩, hfind, rfl⟩
    obtain ⟨hb, as, bs, hl, has⟩ := List.find?_eq_some_iff_append.mp hfind
    obtain rfl := of_decide_eq_true hb
    refine ⟨bs.reverse, as.reverse, ?_, fun p hp => ?_⟩
    · rw [← List.reverse_reverse l, hl, List.reverse_append, List.reverse_cons, List.append_assoc]
      rfl
    · simpa using has p (List.mem_reverse.mp hp)
  · rintro ⟨pre, post, rfl, hpost⟩
    refine ⟨(a, v), List.find?_eq_some_iff_append.mpr ⟨decide_eq_true rfl, post.reverse,
      pre.reverse, ?_, fun p hp => ?_⟩, rfl⟩
    · rw [List.reverse_append, List.reverse_cons, List.append_assoc]
      rfl
    · simpa using hpost p (List.mem_reverse.mp hp)

theorem lastAt_isSome_iff : (lastAt l a).isSome ↔ ∃ p ∈ l, p.1 = a := by
  unfold lastAt
  rw [Option.isSome_map, List.find?_isSome]
  simp

/-- The nearest entry, by the last values of the keys. -/
theorem nearest_iff_lastAt : Nearest l x (a, v) ↔
    a ≤ x ∧ lastAt l a = some v ∧ ∀ b ≤ x, (lastAt l b).isSome → b ≤ a := by
  constructor
  · intro h
    have hmax : ∀ p ∈ l, p.1 ≤ x → p.1 ≤ a := fun p hp hx => h.le_of_mem hp hx
    obtain ⟨pre, post, hl, hle, hpre, hpost⟩ := h
    refine ⟨hle, lastAt_eq_some_iff.mpr ⟨pre, post, hl, ?_⟩, ?_⟩
    · rintro p hp rfl
      exact lt_irrefl _ (hpost p hp hle)
    · rintro b hb hsome
      obtain ⟨p, hp, rfl⟩ := lastAt_isSome_iff.mp hsome
      exact hmax p hp hb
  · rintro ⟨hle, hlast, hmax⟩
    obtain ⟨pre, post, rfl, hpost⟩ := lastAt_eq_some_iff.mp hlast
    have hkey : ∀ p ∈ pre ++ (a, v) :: post, p.1 ≤ x → p.1 ≤ a := fun p hp hx =>
      hmax p.1 hx (lastAt_isSome_iff.mpr ⟨p, hp, rfl⟩)
    refine ⟨pre, post, rfl, hle, fun p hp => hkey p (List.mem_append_left _ hp), fun p hp hx => ?_⟩
    have hp' : p ∈ pre ++ (a, v) :: post :=
      List.mem_append_right _ (List.mem_cons_of_mem _ hp)
    exact lt_of_le_of_ne (hkey p hp' hx) (hpost p hp)

/-- At its own key an entry is the nearest when it is the last. -/
theorem nearest_self_iff : Nearest l a (a, v) ↔ lastAt l a = some v := by
  rw [nearest_iff_lastAt]
  exact ⟨fun h => h.2.1, fun h => ⟨le_refl a, h, fun _ hb _ => hb⟩⟩

/-- Lists with the same last values up to `x` have the same nearest entry. -/
theorem nearest_congr (h : ∀ a ≤ x, lastAt l a = lastAt l' a) : Nearest l x e ↔ Nearest l' x e := by
  obtain ⟨a, v⟩ := e
  rw [nearest_iff_lastAt, nearest_iff_lastAt]
  refine and_congr_right fun ha => ?_
  rw [h a ha]
  refine and_congr_right fun _ => forall₂_congr fun b hb => ?_
  rw [h b hb]

end Lib
