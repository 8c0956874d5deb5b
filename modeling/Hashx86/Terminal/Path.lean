import Hashx86.Lib.SlashPath
import Mathlib.Data.List.TakeDrop

/-!
# Paths of the terminal (`TerminalApp::ResolvePath`, `TerminalApp::CommandCd`)

The path that is typed is joined to the current one in a buffer of 256 bytes, and its segments are
moved, one at a time, into another; the segment itself is read into a buffer of 128 bytes.

* `joinPath_eq`: the joined path, if it fits.
* `normalizeLoop_spec`: the loop leaves the segments that lexical normalisation keeps, each cut to
  127 bytes.
* `resolvePath_eq`: what is returned for every input.
* `resolves_iff`: the normal form is returned exactly when none of its segments is longer than that.
* `commandCd_canonical`: the current path is always in canonical form.
-/

namespace Hashx86
namespace Terminal

open Lib

def maxPathLen : Nat := 256
def maxShellToken : Nat := 128

/-! ## The joined path -/

/-- A character behind those in a buffer with `maxPathLen` bytes. -/
def appendRawChar (raw : List UInt8) (ch : UInt8) : Option (List UInt8) :=
  if maxPathLen - 1 ≤ raw.length then none else some (raw ++ [ch])

def appendRawText (raw text : List UInt8) : Option (List UInt8) := text.foldlM appendRawChar raw

def joinPath (currentPath input : List UInt8) : Option (List UInt8) :=
  if input = [] then appendRawText [] currentPath
  else if input.head? = some slash then appendRawText [] input
  else do
    let raw ← appendRawText [] currentPath
    let raw ← if 0 < raw.length ∧ raw.getLast? ≠ some slash then appendRawChar raw slash else raw
    appendRawText raw input

/-! ## The segments -/

/-- The next segment, and what is behind it. -/
def nextSegment (rest : List UInt8) : Option (List UInt8 × List UInt8) :=
  match rest.dropWhile isSlash with
  | [] => none
  | r => some (r.takeWhile fun b => !isSlash b, r.dropWhile fun b => !isSlash b)

/-- The segment as it is read into the buffer. -/
def shorten (segment : List UInt8) : List UInt8 := segment.take (maxShellToken - 1)

/-- `..` goes back in the normalised path. -/
def popSegment (normalized : List UInt8) : List UInt8 :=
  if 1 < normalized.length then
    let n := if normalized.getLast? = some slash then normalized.dropLast else normalized
    let n := n.rdropWhile fun b => !isSlash b
    if n.length = 0 then [slash] else n
  else normalized

def appendSegment (normalized segment : List UInt8) : Option (List UInt8) := do
  let n ← if 1 < normalized.length ∧ normalized.getLast? ≠ some slash then
    appendRawChar normalized slash else normalized
  appendRawText n segment

theorem nextSegment_some {rest s r : List UInt8} (h : nextSegment rest = some (s, r)) :
    rest.dropWhile isSlash = s ++ r ∧ s ≠ [] ∧ slash ∉ s ∧ (r = [] ∨ ∃ r', r = slash :: r') := by
  unfold nextSegment at h
  cases hdrop : rest.dropWhile isSlash with
  | nil => exact nomatch hdrop ▸ h
  | cons b t =>
    rw [hdrop] at h
    obtain ⟨rfl, rfl⟩ := Prod.mk.inj (Option.some.inj h)
    refine ⟨List.takeWhile_append_dropWhile.symm, ?_, fun hmem => ?_, ?_⟩
    · rw [List.takeWhile_cons_of_pos (by rw [dropWhile_cons_head hdrop]; rfl)]
      exact List.cons_ne_nil _ _
    · have hnot := List.mem_takeWhile_imp hmem
      exact absurd hnot (by decide)
    · cases hr : (b :: t).dropWhile fun b => !isSlash b with
      | nil => exact .inl rfl
      | cons c r' =>
        have hc := dropWhile_cons_head hr
        rw [Bool.not_eq_false', isSlash, decide_eq_true_eq] at hc
        exact .inr ⟨r', by rw [hc]⟩

theorem nextSegment_length {rest s r : List UInt8} (h : nextSegment rest = some (s, r)) :
    s.length + r.length ≤ rest.length := by
  have hlen := (List.dropWhile_suffix isSlash (l := rest)).length_le
  rwa [(nextSegment_some h).1, List.length_append] at hlen

/-- The loop over the segments in `rest`. -/
def normalizeLoop (rest normalized : List UInt8) : Option (List UInt8) :=
  match _h : nextSegment rest with
  | none => some normalized
  | some (s, r) =>
    let segment := shorten s
    if segment = [0x2E] then normalizeLoop r normalized
    else if segment = [0x2E, 0x2E] then normalizeLoop r (popSegment normalized)
    else
      match appendSegment normalized segment with
      | none => none
      | some n => normalizeLoop r n
termination_by rest.length
decreasing_by
  all_goals
    have hlen := nextSegment_length _h
    have hpos := List.length_pos_iff.mpr (nextSegment_some _h).2.1
    omega

def resolvePath (currentPath input : List UInt8) : Option (List UInt8) := do
  let raw ← joinPath currentPath input
  let n ← normalizeLoop (if raw.head? = some slash then raw.tail else raw) [slash]
  if 1 < n.length ∧ n.getLast? = some slash then some n.dropLast else some n

/-! ## What is asked -/

/-- The text before the path is normalised. -/
def joined (currentPath input : List UInt8) : List UInt8 :=
  if input = [] then currentPath
  else if input.head? = some slash then input
  else if 0 < currentPath.length ∧ currentPath.getLast? ≠ some slash then
    currentPath ++ slash :: input
  else currentPath ++ input

/-- The segments of the normal form: those of the input, followed from the root or from the current
path. -/
def lexical (currentPath input : List UInt8) : List (List UInt8) :=
  path.normalize (if input.head? = some slash then [] else path.segments currentPath)
    (path.segments input)

/-- The path does not fit, or the normal form is returned and resolves to itself. -/
def Resolves (currentPath input : List UInt8) : Prop :=
  match resolvePath currentPath input with
  | none => maxPathLen ≤ (joined currentPath input).length ∨
      maxPathLen ≤ (path.render (lexical currentPath input)).length
  | some p => p = path.render (lexical currentPath input) ∧ path.Canonical p ∧
      ∀ currentPath, resolvePath currentPath p = some p

/-! ## Buffers of 256 bytes -/

theorem appendRawText_eq {raw : List UInt8} (h : raw.length < maxPathLen) (text : List UInt8) :
    appendRawText raw text =
      if raw.length + text.length < maxPathLen then some (raw ++ text) else none := by
  unfold appendRawText
  induction text generalizing raw with
  | nil =>
    rw [List.append_nil, List.length_nil, Nat.add_zero, if_pos h]
    rfl
  | cons ch text ih =>
    rw [List.foldlM_cons, appendRawChar, List.length_cons]
    unfold maxPathLen at h ⊢
    split
    case isTrue hfull => exact (if_neg (by omega)).symm
    case isFalse hroom =>
      refine (ih (by rw [List.length_append]; exact (by omega : raw.length + 1 < 256))).trans ?_
      rw [List.length_append, List.length_singleton, List.append_assoc, List.singleton_append]
      exact if_congr (by unfold maxPathLen; omega) rfl rfl

theorem joinPath_eq (currentPath input : List UInt8) : joinPath currentPath input =
    if (joined currentPath input).length < maxPathLen then some (joined currentPath input)
    else none := by
  have hnil : ([] : List UInt8).length < maxPathLen := by decide
  have htext : ∀ text, appendRawText [] text =
      if text.length < maxPathLen then some text else none := fun text => by
    rw [appendRawText_eq hnil, List.length_nil, Nat.zero_add, List.nil_append]
  unfold joinPath joined
  split
  case isTrue => exact htext currentPath
  case isFalse hinput =>
    split
    case isTrue => exact htext input
    case isFalse =>
      rw [htext]
      have hpos := List.length_pos_iff.mpr hinput
      by_cases hfit : currentPath.length < maxPathLen
      · rw [if_pos hfit, Option.bind_eq_bind, Option.bind_some]
        split
        case isTrue =>
          rw [appendRawChar, List.length_append, List.length_cons]
          split
          case isTrue hfull =>
            refine (if_neg ?_).symm
            unfold maxPathLen at hfull ⊢
            omega
          case isFalse hroom =>
            have hlen : (currentPath ++ [slash]).length < maxPathLen := by
              rw [List.length_append, List.length_singleton]
              unfold maxPathLen at hroom ⊢
              omega
            refine (appendRawText_eq hlen input).trans ?_
            rw [List.length_append, List.length_singleton, List.append_assoc,
              List.singleton_append]
            exact if_congr (by omega) rfl rfl
        case isFalse =>
          rw [List.length_append]
          exact appendRawText_eq hfit input
      · rw [if_neg hfit]
        refine (if_neg ?_).symm
        split <;> rw [List.length_append] <;> omega

/-! ## The normalised path -/

/-- The normalised path while `kept` are the segments kept so far: `..` leaves a `/` behind. -/
def Held (normalized : List UInt8) (kept : List (List UInt8)) : Prop :=
  normalized = kept.flatMap (slash :: ·) ++ [slash] ∨
    kept ≠ [] ∧ normalized = kept.flatMap (slash :: ·)

theorem shorten_ne_dots {s : List UInt8} {d : List UInt8} (hd : d.length < maxShellToken - 1) :
    shorten s = d ↔ s = d := by
  unfold shorten
  constructor
  · intro h
    have hlen := congrArg List.length h
    rw [List.length_take] at hlen
    rwa [List.take_of_length_le (by omega)] at h
  · rintro rfl
    exact List.take_of_length_le hd.le

theorem shorten_here (s : List UInt8) : shorten s = path.here ↔ s = path.here :=
  shorten_ne_dots (by decide)

theorem shorten_up (s : List UInt8) : shorten s = path.up ↔ s = path.up :=
  shorten_ne_dots (by decide)

theorem shorten_proper {s : List UInt8} (h : path.Proper s) : path.Proper (shorten s) where
  ne_nil hnil := h.ne_nil ((shorten_ne_dots (by decide)).mp hnil)
  ne_here hhere := h.ne_here ((shorten_here s).mp hhere)
  ne_up hup := h.ne_up ((shorten_up s).mp hup)
  sep hmem := h.sep (List.mem_of_mem_take hmem)

/-- `..` removes the last segment kept. -/
theorem popSegment_held {normalized : List UInt8} {kept : List (List UInt8)}
    (hkept : ∀ s ∈ kept, path.Proper s) (h : Held normalized kept) :
    Held (popSegment normalized) kept.dropLast := by
  cases kept using List.reverseRecOn with
  | nil =>
    obtain rfl : normalized = [slash] := h.resolve_right fun h => h.1 rfl
    exact .inl rfl
  | append_singleton kept s =>
    have hs := hkept s (List.mem_append_right kept (List.mem_singleton_self s))
    have hpos := List.length_pos_iff.mpr hs.ne_nil
    have hlen : 1 < normalized.length := by
      unfold Held at h
      rw [flatMap_concat] at h
      rcases h with rfl | ⟨-, rfl⟩ <;> simp <;> omega
    have hdrop : (if normalized.getLast? = some slash then normalized.dropLast else normalized) =
        kept.flatMap (slash :: ·) ++ slash :: s := by
      unfold Held at h
      rw [flatMap_concat] at h
      rcases h with rfl | ⟨-, rfl⟩
      · rw [if_pos List.getLast?_concat, List.dropLast_concat]
      · rw [if_neg (getLast_ne_slash hs.ne_nil hs.sep)]
    rw [List.dropLast_concat, popSegment, if_pos hlen, hdrop]
    dsimp only
    rw [rdropWhile_segment hs.sep, if_neg (by simp)]
    exact .inl rfl

/-- The `/` that a segment needs in front of it. -/
def gap (normalized : List UInt8) : Nat := if normalized.getLast? = some slash then 0 else 1

/-- A segment is put behind those kept, where there is room. -/
theorem appendSegment_held {normalized s : List UInt8} {kept : List (List UInt8)}
    (hkept : ∀ s ∈ kept, path.Proper s) (h : Held normalized kept)
    (hroom : normalized.length + gap normalized + s.length < maxPathLen) :
    ∃ n, appendSegment normalized s = some n ∧ Held n (kept ++ [s]) ∧
      n.length = normalized.length + gap normalized + s.length := by
  have hheld : Held (kept.flatMap (slash :: ·) ++ slash :: s) (kept ++ [s]) :=
    .inr ⟨List.append_ne_nil_of_right_ne_nil kept (List.cons_ne_nil s []),
      (flatMap_concat kept s).symm⟩
  refine ⟨_, ?_, hheld, ?_⟩
  · unfold appendSegment gap at *
    rcases h with rfl | ⟨hne, rfl⟩
    · rw [if_neg fun hlast => hlast.2 List.getLast?_concat]
      rw [if_pos List.getLast?_concat] at hroom
      refine (appendRawText_eq (by omega) s).trans ?_
      rw [if_pos (by omega), List.append_assoc, List.singleton_append]
    · obtain ⟨hlast, hlen⟩ := flatMap_gap hkept hne
      rw [if_neg hlast] at hroom
      rw [if_pos ⟨hlen, hlast⟩, appendRawChar,
        if_neg (by unfold maxPathLen at hroom ⊢; omega)]
      refine (appendRawText_eq (by rw [List.length_append, List.length_singleton]; omega) s).trans ?_
      rw [List.length_append, List.length_singleton, if_pos hroom, List.append_assoc,
        List.singleton_append]
  · unfold gap
    rw [List.length_append, List.length_cons]
    rcases h with rfl | ⟨hne, rfl⟩
    · rw [if_pos List.getLast?_concat, List.length_append, List.length_singleton]
      omega
    · rw [if_neg (flatMap_gap hkept hne).1]
      omega

theorem popSegment_length (normalized : List UInt8) :
    (popSegment normalized).length ≤ normalized.length := by
  unfold popSegment
  split
  case isFalse => exact le_rfl
  case isTrue hlen =>
    have hdrop : (if normalized.getLast? = some slash then normalized.dropLast
        else normalized).length ≤ normalized.length := by
      split
      · rw [List.length_dropLast]
        omega
      · exact le_rfl
    have hpre := (List.rdropWhile_prefix (fun b => !isSlash b) _).length_le.trans hdrop
    dsimp only
    generalize List.rdropWhile _ _ = n at hpre ⊢
    split
    · exact hlen.le
    · exact hpre

theorem nextSegment_none {rest : List UInt8} (h : nextSegment rest = none) :
    path.segments rest = [] := by
  unfold nextSegment at h
  split at h
  · rename_i hdrop
    rw [← path.segments_dropWhile]
    exact congrArg path.segments hdrop
  · exact nomatch h

theorem segments_next {rest s r : List UInt8} (h : nextSegment rest = some (s, r)) :
    path.segments rest = s :: path.segments r := by
  obtain ⟨hdrop, hs, hsep, hr⟩ := nextSegment_some h
  rw [← path.segments_dropWhile, ← path.segments_append hs hsep hr]
  exact congrArg path.segments hdrop

/-- Where a segment needs a `/`, one has been read in front of it. -/
theorem nextSegment_gap {rest s r normalized : List UInt8} (h : nextSegment rest = some (s, r))
    (hgap : gap normalized = 0 ∨ ∃ r', rest = slash :: r') :
    gap normalized + s.length + r.length ≤ rest.length := by
  have hle : gap normalized ≤ 1 := by
    unfold gap
    split <;> decide
  rcases hgap with hgap | ⟨r', rfl⟩
  · have hlen := nextSegment_length h
    omega
  · have hdrop := (nextSegment_some h).1
    rw [List.dropWhile_cons_of_pos (by decide)] at hdrop
    have hlen := (List.dropWhile_suffix isSlash (l := r')).length_le
    rw [hdrop, List.length_append] at hlen
    rw [List.length_cons]
    omega

/-- There is room for the next segment of what is left. -/
theorem appendSegment_next {rest s r normalized : List UInt8} {kept : List (List UInt8)}
    (hkept : ∀ s ∈ kept, path.Proper s) (h : Held normalized kept)
    (hroom : normalized.length + rest.length < maxPathLen)
    (hgap : gap normalized = 0 ∨ rest = [] ∨ ∃ r, rest = slash :: r)
    (hnext : nextSegment rest = some (s, r)) :
    ∃ n, appendSegment normalized (shorten s) = some n ∧ Held n (kept ++ [shorten s]) ∧
      n.length + r.length < maxPathLen := by
  have hrest : rest ≠ [] := fun hnil => absurd hnext (by rw [hnil]; exact nofun)
  have hlen := nextSegment_gap hnext (hgap.imp_right fun h => h.resolve_left hrest)
  have hshort : (shorten s).length ≤ s.length := List.length_take_le' _ _
  obtain ⟨n, hn, hheld, hnlen⟩ := appendSegment_held (s := shorten s) hkept h (by omega)
  exact ⟨n, hn, hheld, by omega⟩

/-- The loop follows each segment, cut to what the buffer holds. -/
theorem normalizeLoop_spec (rest normalized : List UInt8) (kept : List (List UInt8))
    (hkept : ∀ s ∈ kept, path.Proper s) (h : Held normalized kept)
    (hroom : normalized.length + rest.length < maxPathLen)
    (hgap : gap normalized = 0 ∨ rest = [] ∨ ∃ r, rest = slash :: r) :
    ∃ n, normalizeLoop rest normalized = some n ∧ n.length < maxPathLen ∧
      Held n (path.normalize kept ((path.segments rest).map shorten)) := by
  fun_induction normalizeLoop rest normalized generalizing kept with
  | case1 rest normalized hnext =>
    rw [nextSegment_none hnext]
    exact ⟨normalized, rfl, by omega, h⟩
  | case2 rest normalized s r hnext segment hhere ih =>
    change shorten s = path.here at hhere
    have hlen := nextSegment_length hnext
    rw [segments_next hnext, List.map_cons, path.normalize_cons, PathForm.follow, if_pos hhere]
    exact ih kept hkept h (by omega) (.inr (nextSegment_some hnext).2.2.2)
  | case3 rest normalized s r hnext segment hhere hup ih =>
    change ¬shorten s = path.here at hhere
    change shorten s = path.up at hup
    have hlen := nextSegment_length hnext
    have hpop := popSegment_length normalized
    rw [segments_next hnext, List.map_cons, path.normalize_cons, PathForm.follow, if_neg hhere,
      if_pos hup]
    exact ih kept.dropLast (fun p hp => hkept p (List.dropLast_subset kept hp))
      (popSegment_held hkept h) (by omega) (.inr (nextSegment_some hnext).2.2.2)
  | case4 rest normalized s r hnext segment hhere hup hfull =>
    obtain ⟨n, hn, -⟩ := appendSegment_next hkept h hroom hgap hnext
    rw [hfull] at hn
    cases hn
  | case5 rest normalized s r hnext segment hhere hup n hn ih =>
    obtain ⟨n', hn', hheld, hlen⟩ := appendSegment_next hkept h hroom hgap hnext
    obtain rfl := Option.some.inj (hn.symm.trans hn')
    obtain ⟨-, hs, hsep, hr⟩ := nextSegment_some hnext
    change ¬shorten s = path.here at hhere
    change ¬shorten s = path.up at hup
    have hproper : path.Proper (shorten s) :=
      shorten_proper ⟨hs, mt (shorten_here s).mpr hhere, mt (shorten_up s).mpr hup, hsep⟩
    rw [segments_next hnext, List.map_cons, path.normalize_cons, PathForm.follow, if_neg hhere,
      if_neg hup]
    refine ih (kept ++ [shorten s]) ?_ hheld hlen (.inr hr)
    rw [List.forall_mem_append, List.forall_mem_singleton]
    exact ⟨hkept, hproper⟩

/-! ## The result -/

/-- The last `/` is removed. -/
theorem held_render {n : List UInt8} {kept : List (List UInt8)} (hkept : ∀ s ∈ kept, path.Proper s)
    (h : Held n kept) :
    (if 1 < n.length ∧ n.getLast? = some slash then some n.dropLast else some n) =
      some (path.render kept) := by
  unfold PathForm.render
  rcases h with rfl | ⟨hne, rfl⟩
  · by_cases hne : kept = []
    · rw [if_pos hne, hne]
      rfl
    · have hlen := (flatMap_gap hkept hne).2
      rw [if_neg hne, if_pos ⟨by rw [List.length_append]; omega, List.getLast?_concat⟩,
        List.dropLast_concat]
      rfl
  · rw [if_neg hne, if_neg fun h => (flatMap_gap hkept hne).1 h.2]
    rfl

theorem held_length {n : List UInt8} {kept : List (List UInt8)} (h : Held n kept) :
    (path.render kept).length ≤ n.length := by
  unfold PathForm.render
  rcases h with rfl | ⟨hne, rfl⟩
  · rw [List.length_append]
    split
    · exact Nat.le_add_left _ _
    · exact Nat.le_add_right _ _
  · rw [if_neg hne]
    exact le_rfl

/-- The segments that are returned for a path that is joined from the root. -/
def returned (t : List UInt8) : List (List UInt8) :=
  path.normalize [] ((path.segments t).map shorten)

theorem returned_proper (t : List UInt8) : ∀ s ∈ returned t, path.Proper s := by
  refine path.normalize_proper nofun fun s hs => ?_
  obtain ⟨p, hp, rfl⟩ := List.mem_map.mp hs
  obtain ⟨hne, hsep⟩ := path.segments_sep_notMem t p hp
  exact ⟨fun hnil => hne ((shorten_ne_dots (by decide)).mp hnil),
    fun hmem => hsep (List.mem_of_mem_take hmem)⟩

theorem returned_eq_map (t : List UInt8) :
    returned t = (path.normalize [] (path.segments t)).map shorten :=
  path.normalize_map shorten shorten_here shorten_up [] (path.segments t)

theorem resolvePath_long {currentPath input : List UInt8}
    (h : maxPathLen ≤ (joined currentPath input).length) : resolvePath currentPath input = none := by
  unfold resolvePath
  rw [joinPath_eq, if_neg (Nat.not_lt.mpr h)]
  rfl

/-- A path that fits is resolved. -/
theorem resolvePath_fits {currentPath input t : List UInt8}
    (hroot : joined currentPath input = slash :: t)
    (hfit : (joined currentPath input).length < maxPathLen) :
    resolvePath currentPath input = some (path.render (returned (slash :: t))) ∧
      (path.render (returned (slash :: t))).length < maxPathLen := by
  unfold resolvePath
  rw [joinPath_eq, if_pos hfit, hroot]
  rw [hroot, List.length_cons] at hfit
  have hroom : [slash].length + t.length < maxPathLen := by
    rw [List.length_singleton]
    omega
  obtain ⟨n, hn, hlen, hheld⟩ := normalizeLoop_spec t [slash] [] nofun (.inl rfl) hroom (.inl rfl)
  rw [← path.segments_sep t] at hheld
  refine ⟨?_, (held_length hheld).trans_lt hlen⟩
  change (normalizeLoop t [slash]).bind _ = _
  rw [hn]
  exact held_render (returned_proper (slash :: t)) hheld

/-- A normal form with segments that the buffer holds resolves to itself. -/
theorem resolvePath_self {segs : List (List UInt8)} (hsegs : ∀ s ∈ segs, path.Proper s)
    (hshort : segs.map shorten = segs) (hfit : (path.render segs).length < maxPathLen)
    (currentPath : List UInt8) :
    resolvePath currentPath (path.render segs) = some (path.render segs) := by
  obtain ⟨t, ht⟩ := path.render_eq_cons segs
  have hjoined : joined currentPath (path.render segs) = path.render segs := by
    unfold joined
    rw [ht, if_neg (List.cons_ne_nil _ _)]
    exact if_pos rfl
  have hreturned : returned (path.render segs) = segs := by
    rw [returned, path.segments_render hsegs, hshort]
    exact path.normalize_eq_append hsegs
  have h := (resolvePath_fits (hjoined.trans ht) (by rwa [hjoined])).1
  rw [← show path.render segs = slash :: t from ht, hreturned] at h
  exact h

theorem map_shorten_eq_self {segs : List (List UInt8)} :
    segs.map shorten = segs ↔ ∀ s ∈ segs, s.length < maxShellToken := by
  nth_rewrite 2 [← List.map_id segs]
  rw [List.map_inj_left]
  refine forall₂_congr fun s _ => ?_
  rw [id, shorten, List.take_eq_self_iff]
  exact (Nat.lt_iff_le_pred (by decide)).symm

/-- A canonical path is joined to the input from the root. -/
theorem joined_canonical {currentPath : List UInt8} (hcur : path.Canonical currentPath)
    (input : List UInt8) : (∃ t, joined currentPath input = slash :: t) ∧
      path.normalize [] (path.segments (joined currentPath input)) = lexical currentPath input := by
  obtain ⟨segs, hsegs, rfl⟩ := hcur
  have hbase : path.normalize [] segs = segs := path.normalize_eq_append hsegs
  unfold joined lexical
  rw [path.segments_render hsegs]
  split
  case isTrue hnil =>
    rw [hnil, path.segments_render hsegs, hbase]
    exact ⟨path.render_eq_cons segs, rfl⟩
  case isFalse =>
    split
    case isTrue hslash =>
      obtain ⟨t, rfl⟩ := List.head?_eq_some_iff.mp hslash
      exact ⟨⟨t, rfl⟩, rfl⟩
    case isFalse =>
      by_cases hne : segs = []
      · rw [hne, if_neg fun h => h.2 rfl]
        exact ⟨⟨input, rfl⟩, congrArg _ (path.segments_sep input)⟩
      · have hflat : path.render segs = segs.flatMap (slash :: ·) := if_neg hne
        obtain ⟨hlast, hlen⟩ := flatMap_gap hsegs hne
        obtain ⟨r, hr⟩ := (path.flatMap_head segs).resolve_left fun hnil => by
          rw [show segs.flatMap (slash :: ·) = [] from hnil] at hlen
          exact absurd hlen (by decide)
        rw [hflat, if_pos ⟨by omega, hlast⟩]
        refine ⟨⟨r ++ slash :: input, congrArg (· ++ slash :: input) hr⟩, ?_⟩
        rw [← hbase, ← path.normalize_append, hbase, ← path.segments_sep input]
        exact congrArg _ (path.segments_render_append hsegs (.inr ⟨input, rfl⟩))

/-- An input in normal form is its own normal form. -/
theorem lexical_render {segs : List (List UInt8)} (hsegs : ∀ s ∈ segs, path.Proper s)
    (currentPath : List UInt8) : lexical currentPath (path.render segs) = segs := by
  obtain ⟨t, ht⟩ := path.render_eq_cons segs
  unfold lexical
  rw [path.segments_render hsegs, if_pos (by rw [ht]; rfl)]
  exact path.normalize_eq_append hsegs

/-- A path that fits is returned in normal form exactly when no segment of that is cut. -/
theorem resolves_fits {currentPath input : List UInt8} (hcur : path.Canonical currentPath)
    (hfit : (joined currentPath input).length < maxPathLen) :
    Resolves currentPath input ↔ ∀ s ∈ lexical currentPath input, s.length < maxShellToken := by
  obtain ⟨⟨t, hroot⟩, hlexical⟩ := joined_canonical hcur input
  obtain ⟨hres, hlen⟩ := resolvePath_fits hroot hfit
  have hmap := returned_eq_map (slash :: t)
  rw [← hroot] at hres hlen hmap
  rw [hlexical] at hmap
  have hproper : ∀ s ∈ lexical currentPath input, path.Proper s := by
    rw [← hlexical]
    exact path.normalize_proper nofun (path.segments_sep_notMem _)
  rw [← map_shorten_eq_self, Resolves, hres]
  constructor
  · rintro ⟨heq, -⟩
    have hsegs := congrArg path.segments heq
    rwa [path.segments_render (returned_proper _), path.segments_render hproper, hmap] at hsegs
  · intro hshort
    rw [hmap, hshort] at hlen ⊢
    exact ⟨rfl, ⟨_, hproper, rfl⟩, resolvePath_self hproper hshort hlen⟩

/-- The normal form is returned exactly when none of its segments is cut. -/
theorem resolves_iff {currentPath : List UInt8} (hcur : path.Canonical currentPath)
    (input : List UInt8) : Resolves currentPath input ↔
      ((joined currentPath input).length < maxPathLen →
        ∀ s ∈ lexical currentPath input, s.length < maxShellToken) := by
  by_cases hfit : (joined currentPath input).length < maxPathLen
  · rw [imp_iff_right hfit]
    exact resolves_fits hcur hfit
  · rw [Resolves, resolvePath_long (Nat.not_lt.mp hfit)]
    exact iff_of_true (.inl (Nat.not_lt.mp hfit)) fun h => absurd h hfit

/-- `/bin` is resolved from the root. -/
theorem resolves_bin : Resolves [slash] [slash, 0x62, 0x69, 0x6E] := by
  refine (resolves_iff ⟨[], nofun, rfl⟩ _).mpr fun _ => ?_
  have hbin : ∀ s ∈ [[(0x62 : UInt8), 0x69, 0x6E]], path.Proper s :=
    List.forall_mem_singleton.mpr ⟨by decide, by decide, by decide, by decide⟩
  rw [show [slash, 0x62, 0x69, 0x6E] = path.render [[0x62, 0x69, 0x6E]] from rfl,
    lexical_render hbin]
  decide

/-- A name of 128 characters loses the last one. -/
theorem not_resolves_long_name :
    path.Canonical [slash] ∧ ¬ Resolves [slash] (slash :: List.replicate 128 0x61) := by
  have hroot : path.Canonical [slash] := ⟨[], nofun, rfl⟩
  refine ⟨hroot, ?_⟩
  rw [resolves_fits hroot (by simp [joined, maxPathLen])]
  intro h
  have hname : ∀ s ∈ [List.replicate 128 (0x61 : UInt8)], path.Proper s :=
    List.forall_mem_singleton.mpr ⟨by decide, by decide, by decide, by decide⟩
  have hlen := h (List.replicate 128 0x61)
    (by rw [show slash :: List.replicate 128 0x61 = path.render [List.replicate 128 0x61] from rfl,
      lexical_render hname]; exact List.mem_singleton_self _)
  rw [List.length_replicate] at hlen
  exact absurd hlen (by decide)

/-! ## `CommandCd` -/

/-- The current path after `cd`, where `isDirectory` tells the paths of directories. -/
def commandCd (isDirectory : List UInt8 → Bool) (currentPath args : List UInt8) : List UInt8 :=
  if args = [] then currentPath
  else
    match resolvePath currentPath args with
    | none => currentPath
    | some resolved => if isDirectory resolved then resolved else currentPath

/-- What is resolved from a canonical path is canonical. -/
theorem resolvePath_canonical {currentPath input p : List UInt8}
    (hcur : path.Canonical currentPath) (h : resolvePath currentPath input = some p) :
    path.Canonical p := by
  obtain ⟨⟨t, hroot⟩, -⟩ := joined_canonical hcur input
  by_cases hfit : (joined currentPath input).length < maxPathLen
  · rw [(resolvePath_fits hroot hfit).1] at h
    exact ⟨_, returned_proper _, (Option.some.inj h).symm⟩
  · exact absurd ((resolvePath_long (Nat.not_lt.mp hfit)).symm.trans h) nofun

theorem commandCd_canonical (isDirectory : List UInt8 → Bool) {currentPath : List UInt8}
    (hcur : path.Canonical currentPath) (args : List UInt8) :
    path.Canonical (commandCd isDirectory currentPath args) := by
  unfold commandCd
  split
  · exact hcur
  · split
    · exact hcur
    · rename_i resolved hres
      split
      · exact resolvePath_canonical hcur hres
      · exact hcur

/-- The current path is in canonical form after any commands. -/
theorem commandCd_run (isDirectory : List UInt8 → Bool) (commands : List (List UInt8)) :
    path.Canonical (commands.foldl (commandCd isDirectory) [slash]) := by
  have hrun : ∀ (commands : List (List UInt8)) (currentPath : List UInt8),
      path.Canonical currentPath →
        path.Canonical (commands.foldl (commandCd isDirectory) currentPath) := by
    intro commands
    induction commands with
    | nil => exact fun _ hcur => hcur
    | cons args commands ih =>
      exact fun cur hcur => ih _ (commandCd_canonical isDirectory hcur args)
  exact hrun commands [slash] ⟨[], nofun, rfl⟩

end Terminal
end Hashx86
