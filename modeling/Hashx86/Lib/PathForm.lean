import Hashx86.Lib.Lines

/-!
# Lexical normal forms of paths

A path is a text of segments between separators. A segment can stand for the same directory or for
the one above it.

* `segments`, `normalize`, `render`: the segments of a text, what is left of them when each is
  followed from a base, and the text of a list of segments.
* `normalize_proper`: the segments that are left stand for themselves.
* `segments_render`, `normalize_eq_append`: a normal form is read back as it is.
* `normalize_map`: segments that are shortened, but not to another kind of segment.
-/

namespace Lib

/-- The separator, and the segments for the same directory and for the one above. -/
structure PathForm (α : Type) where
  sep : α
  here : List α
  up : List α

namespace PathForm

variable {α : Type} (f : PathForm α) {s t : List α} {base segs : List (List α)}

def render (segs : List (List α)) : List α :=
  if segs = [] then [f.sep] else segs.flatMap (f.sep :: ·)

/-- A segment that stands for itself. -/
structure Proper (s : List α) : Prop where
  ne_nil : s ≠ []
  ne_here : s ≠ f.here
  ne_up : s ≠ f.up
  sep : f.sep ∉ s

/-- The text of a normal form. -/
def Canonical (t : List α) : Prop := ∃ segs, (∀ s ∈ segs, f.Proper s) ∧ t = f.render segs

theorem flatMap_head (segs : List (List α)) :
    segs.flatMap (f.sep :: ·) = [] ∨ ∃ r, segs.flatMap (f.sep :: ·) = f.sep :: r := by
  cases segs with
  | nil => exact .inl rfl
  | cons s segs => exact .inr ⟨_, rfl⟩

/-- A path is the separator and more. -/
theorem render_eq_cons (segs : List (List α)) : ∃ r, f.render segs = f.sep :: r := by
  unfold render
  split
  · exact ⟨[], rfl⟩
  · rename_i hne
    refine (f.flatMap_head segs).resolve_left fun hnil => ?_
    cases segs with
    | nil => exact hne rfl
    | cons s segs => exact nomatch hnil

/-- What stands between two separators, if that is a segment. -/
def between (s : List α) : Option (List α) := if s = [] then none else some s

theorem between_nil : between ([] : List α) = none := rfl

variable [DecidableEq α]

def isSep (a : α) : Bool := decide (a = f.sep)

def segments (t : List α) : List (List α) := entries f.isSep between t

/-- The segments kept so far, with one more. -/
def follow (kept : List (List α)) (s : List α) : List (List α) :=
  if s = f.here then kept else if s = f.up then kept.dropLast else kept ++ [s]

def normalize (base segs : List (List α)) : List (List α) := segs.foldl f.follow base

theorem normalize_cons (base segs : List (List α)) (s : List α) :
    f.normalize base (s :: segs) = f.normalize (f.follow base s) segs := rfl

theorem segments_nil : f.segments [] = [] := rfl

theorem segments_sep (t : List α) : f.segments (f.sep :: t) = f.segments t :=
  entries_eol between_nil (by simp [isSep]) t

/-- The first segment, and those behind it. -/
theorem segments_append (hs : s ≠ []) (hsep : f.sep ∉ s) (ht : t = [] ∨ ∃ r, t = f.sep :: r) :
    f.segments (s ++ t) = s :: f.segments t := by
  have hall : ∀ a ∈ s, (!f.isSep a) = true := by
    intro a ha
    have hne : a ≠ f.sep := fun h => hsep (h ▸ ha)
    simp [isSep, hne]
  have htake : (s ++ t).takeWhile (fun a => !f.isSep a) = s := by
    rw [List.takeWhile_append_of_pos hall]
    rcases ht with rfl | ⟨r, rfl⟩
    · simp
    · rw [List.takeWhile_cons_of_neg (by simp [isSep]), List.append_nil]
  have hdrop : (s ++ t).dropWhile (fun a => !f.isSep a) = t := by
    rw [List.dropWhile_append_of_pos hall]
    rcases ht with rfl | ⟨r, rfl⟩
    · rfl
    · rw [List.dropWhile_cons_of_neg (by simp [isSep])]
  rw [segments, entries_line between_nil, htake, hdrop, between, if_neg hs]
  rfl

theorem segments_dropWhile (t : List α) : f.segments (t.dropWhile f.isSep) = f.segments t :=
  entries_dropWhile between_nil (fun _ h => .inl h) t

/-- The segments of a rendered path, whatever follows behind the next separator. -/
theorem segments_render_append (hsegs : ∀ s ∈ segs, f.Proper s)
    (ht : t = [] ∨ ∃ r, t = f.sep :: r) :
    f.segments (segs.flatMap (f.sep :: ·) ++ t) = segs ++ f.segments t := by
  induction segs with
  | nil => rfl
  | cons s segs ih =>
    obtain ⟨hs, hsegs⟩ := List.forall_mem_cons.mp hsegs
    have hrest : segs.flatMap (f.sep :: ·) ++ t = [] ∨
        ∃ r, segs.flatMap (f.sep :: ·) ++ t = f.sep :: r := by
      rcases f.flatMap_head segs with h | ⟨r, h⟩
      · rwa [h, List.nil_append]
      · exact .inr ⟨r ++ t, by rw [h, List.cons_append]⟩
    rw [List.flatMap_cons, List.cons_append, List.cons_append, List.append_assoc, segments_sep,
      f.segments_append hs.ne_nil hs.sep hrest, ih hsegs, List.cons_append]

theorem segments_render (hsegs : ∀ s ∈ segs, f.Proper s) : f.segments (f.render segs) = segs := by
  unfold render
  split
  case isTrue h => rw [h, segments_sep, segments_nil]
  case isFalse =>
    have h := f.segments_render_append hsegs (.inl rfl)
    rwa [List.append_nil, segments_nil, List.append_nil] at h

/-- A segment of a text has no separator. -/
theorem segments_sep_notMem (t : List α) : ∀ s ∈ f.segments t, s ≠ [] ∧ f.sep ∉ s := by
  intro s hs
  unfold segments entries at hs
  obtain ⟨line, hline, hbetween⟩ := List.mem_filterMap.mp hs
  unfold between at hbetween
  split at hbetween
  · exact nomatch hbetween
  · rename_i hne
    have heq := Option.some.inj hbetween
    rw [heq] at hline hne
    refine ⟨hne, fun hmem => ?_⟩
    have hsep := splitOnP_line_eol t s hline f.sep hmem
    simp [isSep] at hsep

theorem follow_proper (hbase : ∀ s ∈ base, f.Proper s) (hs : s ≠ [] ∧ f.sep ∉ s) :
    ∀ p ∈ f.follow base s, f.Proper p := by
  unfold follow
  split
  · exact hbase
  · split
    · exact fun p hp => hbase p (List.dropLast_subset base hp)
    · rename_i hhere hup
      rw [List.forall_mem_append, List.forall_mem_singleton]
      exact ⟨hbase, hs.1, hhere, hup, hs.2⟩

/-- The segments that are left stand for themselves. -/
theorem normalize_proper (hbase : ∀ s ∈ base, f.Proper s) (hsegs : ∀ s ∈ segs, s ≠ [] ∧ f.sep ∉ s) :
    ∀ p ∈ f.normalize base segs, f.Proper p := by
  induction segs generalizing base with
  | nil => exact hbase
  | cons s segs ih =>
    obtain ⟨hs, hsegs⟩ := List.forall_mem_cons.mp hsegs
    exact ih (f.follow_proper hbase hs) hsegs

/-- Segments that stand for themselves are all kept. -/
theorem normalize_eq_append (hsegs : ∀ s ∈ segs, f.Proper s) :
    f.normalize base segs = base ++ segs := by
  induction segs generalizing base with
  | nil => exact (List.append_nil base).symm
  | cons s segs ih =>
    obtain ⟨hs, hsegs⟩ := List.forall_mem_cons.mp hsegs
    have hfollow : f.follow base s = base ++ [s] := by
      rw [follow, if_neg hs.ne_here, if_neg hs.ne_up]
    rw [normalize_cons, hfollow, ih hsegs, List.append_assoc, List.singleton_append]

theorem normalize_append (base segs segs' : List (List α)) :
    f.normalize base (segs ++ segs') = f.normalize (f.normalize base segs) segs' :=
  List.foldl_append

/-- Segments are followed alike when they are shortened first. -/
theorem normalize_map (g : List α → List α) (hhere : ∀ s, g s = f.here ↔ s = f.here)
    (hup : ∀ s, g s = f.up ↔ s = f.up) (base segs : List (List α)) :
    f.normalize (base.map g) (segs.map g) = (f.normalize base segs).map g := by
  induction segs generalizing base with
  | nil => rfl
  | cons s segs ih =>
    have hfollow : f.follow (base.map g) (g s) = (f.follow base s).map g := by
      simp only [follow, hhere, hup]
      split_ifs
      · rfl
      · rw [List.map_dropLast]
      · rw [List.map_append, List.map_singleton]
    rw [List.map_cons, normalize_cons, hfollow, ih, normalize_cons]

end PathForm

end Lib
