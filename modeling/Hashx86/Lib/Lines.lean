import Mathlib.Data.List.TakeWhile

/-!
# The lines of a text

* `entries eol f t`: the entries that `f` finds in the lines of a text, one in a line.
* `entries_line`: the first line and those behind it. `entries_dropWhile`: what `f` does not look at
  in front of a line.
* `dropWhile_takeWhile`, `dropWhile_dropWhile`: parts of a line are parts of the text.
-/

namespace Lib

variable {α β : Type} {eol : α → Bool} {f : List α → Option β} {p q : α → Bool}

theorem dropWhile_takeWhile (p q : α → Bool) (l : List α) :
    (l.takeWhile q).dropWhile p = (l.dropWhile fun a => p a && q a).takeWhile q := by
  induction l with
  | nil => rfl
  | cons a l ih =>
    by_cases hq : q a = true
    · by_cases hp : p a = true
      · rw [List.takeWhile_cons_of_pos hq, List.dropWhile_cons_of_pos hp,
          List.dropWhile_cons_of_pos (by rw [hp, hq]; rfl), ih]
      · rw [List.takeWhile_cons_of_pos hq, List.dropWhile_cons_of_neg hp,
          List.dropWhile_cons_of_neg (by simp [hp]), List.takeWhile_cons_of_pos hq]
    · rw [List.takeWhile_cons_of_neg hq, List.dropWhile_cons_of_neg (by simp [hq]),
        List.takeWhile_cons_of_neg hq]
      rfl

theorem dropWhile_dropWhile (h : ∀ a, p a = true → q a = true) (l : List α) :
    (l.dropWhile p).dropWhile q = l.dropWhile q := by
  induction l with
  | nil => rfl
  | cons a l ih =>
    by_cases hp : p a = true
    · rw [List.dropWhile_cons_of_pos hp, List.dropWhile_cons_of_pos (h a hp), ih]
    · rw [List.dropWhile_cons_of_neg hp]

/-- What is left begins where `p` fails. -/
theorem dropWhile_cons_head {a : α} {l r : List α} (h : l.dropWhile p = a :: r) : p a = false := by
  have hhead := List.head_dropWhile_not p (l := l) (by rw [h]; exact List.cons_ne_nil a r)
  simpa only [h, List.head_cons] using hhead

/-- The entries in the lines of a text. -/
def entries (eol : α → Bool) (f : List α → Option β) (t : List α) : List β :=
  (t.splitOnP eol).filterMap f

theorem entries_nil (hf : f [] = none) : entries eol f [] = [] := by
  rw [entries, List.splitOnP_nil, List.filterMap_cons_none hf, List.filterMap_nil]

theorem entries_eol (hf : f [] = none) {a : α} (ha : eol a = true) (t : List α) :
    entries eol f (a :: t) = entries eol f t := by
  rw [entries, List.splitOnP_cons_eq_if_modifyHead, if_pos ha, List.filterMap_cons_none hf, entries]

theorem splitOnP_line (t : List α) : t.splitOnP eol =
    (t.takeWhile fun a => !eol a) ::
      match t.dropWhile fun a => !eol a with
      | [] => []
      | _ :: rest => rest.splitOnP eol := by
  induction t with
  | nil => rfl
  | cons a t ih =>
    rw [List.splitOnP_cons_eq_if_modifyHead]
    by_cases ha : eol a = true
    · rw [if_pos ha, List.takeWhile_cons_of_neg (by simp [ha]),
        List.dropWhile_cons_of_neg (by simp [ha])]
    · rw [if_neg ha, ih, List.takeWhile_cons_of_pos (by simp [ha]),
        List.dropWhile_cons_of_pos (by simp [ha])]
      rfl

/-- A line has no end of a line in it. -/
theorem splitOnP_line_eol (t : List α) : ∀ line ∈ t.splitOnP eol, ∀ a ∈ line, eol a = false := by
  induction t with
  | nil =>
    rw [List.splitOnP_nil, List.forall_mem_singleton]
    exact nofun
  | cons b t ih =>
    rw [List.splitOnP_cons_eq_if_modifyHead]
    by_cases hb : eol b = true
    · rw [if_pos hb, List.forall_mem_cons]
      exact ⟨nofun, ih⟩
    · rw [if_neg hb]
      cases hsplit : t.splitOnP eol with
      | nil => exact absurd hsplit (List.splitOnP_ne_nil eol t)
      | cons line lines =>
        rw [hsplit, List.forall_mem_cons] at ih
        rw [List.modifyHead_cons, List.forall_mem_cons, List.forall_mem_cons]
        exact ⟨⟨Bool.eq_false_iff.mpr hb, ih.1⟩, ih.2⟩

/-- The entry in the first line, and those behind it. -/
theorem entries_line (hf : f [] = none) (t : List α) :
    entries eol f t = (f (t.takeWhile fun a => !eol a)).toList ++
      entries eol f (t.dropWhile fun a => !eol a) := by
  have hrest : entries eol f (t.dropWhile fun a => !eol a) =
      (match t.dropWhile fun a => !eol a with
        | [] => []
        | _ :: rest => rest.splitOnP eol).filterMap f := by
    cases hdrop : t.dropWhile fun a => !eol a with
    | nil => exact entries_nil hf
    | cons a rest =>
      have hhead := List.head_dropWhile_not (fun a => !eol a) (l := t) (by simp [hdrop])
      simp only [hdrop, List.head_cons, Bool.not_eq_false'] at hhead
      exact entries_eol hf hhead rest
  rw [hrest, entries, splitOnP_line, List.filterMap_cons]
  cases f (t.takeWhile fun a => !eol a) <;> rfl

/-- Ends of lines, and what `f` does not look at in front of a line, are gone over. -/
theorem entries_dropWhile (hf : f [] = none)
    (hp : ∀ a, p a = true → eol a = true ∨ ∀ l, f (a :: l) = f l) (t : List α) :
    entries eol f (t.dropWhile p) = entries eol f t := by
  induction t with
  | nil => rfl
  | cons a t ih =>
    by_cases ha : p a = true
    · rw [List.dropWhile_cons_of_pos ha, ih]
      by_cases heol : eol a = true
      · exact (entries_eol hf heol t).symm
      · have hskip := (hp a ha).resolve_left heol
        rw [entries_line hf, entries_line hf (a :: t), List.takeWhile_cons_of_pos (by simp [heol]),
          List.dropWhile_cons_of_pos (by simp [heol]), hskip]
    · rw [List.dropWhile_cons_of_neg ha]

end Lib
