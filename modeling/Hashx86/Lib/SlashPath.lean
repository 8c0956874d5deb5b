import Hashx86.Lib.PathForm
import Mathlib.Data.List.DropRight

/-!
# Paths with `/` in buffers

* `strcat`, `childPath`: texts that are put together in a buffer, and the path of an entry.
* `flatMap_concat`, `flatMap_gap`, `rdropWhile_segment`: where the last segment of a path begins.
* `childPath_eq`: the path of an entry, if it fits. `child_render`: it has one more segment.
-/

namespace Lib

abbrev slash : UInt8 := 0x2F

/-- Segments end at `/`; `.` is the same directory, and `..` the one above. -/
def path : PathForm UInt8 := ⟨slash, [0x2E], [0x2E, 0x2E]⟩

def isSlash (b : UInt8) : Bool := decide (b = slash)

/-- The characters of a text in the source. -/
@[irreducible] def ascii (s : String) : List UInt8 := s.toList.map fun c => c.toNat.toUInt8

/-! ## The last segment -/

/-- The path ends with the last segment. -/
theorem flatMap_concat (kept : List (List UInt8)) (s : List UInt8) :
    (kept ++ [s]).flatMap (slash :: ·) = kept.flatMap (slash :: ·) ++ slash :: s := by
  rw [List.flatMap_append, List.flatMap_singleton]

theorem getLast_ne_slash {l s : List UInt8} (hs : s ≠ []) (hsep : slash ∉ s) :
    (l ++ slash :: s).getLast? ≠ some slash := by
  intro h
  rw [List.getLast?_append_cons, List.getLast?_cons_of_ne_nil hs] at h
  exact hsep (List.mem_of_getLast? h)

theorem rdropWhile_segment {l s : List UInt8} (hsep : slash ∉ s) :
    (l ++ slash :: s).rdropWhile (fun b => !isSlash b) = l ++ [slash] := by
  induction s using List.reverseRecOn with
  | nil => exact List.rdropWhile_concat_neg _ _ _ (by decide)
  | append_singleton s b ih =>
    have hb : b ≠ slash := fun h => hsep (List.mem_append_right s (List.mem_singleton.mpr h.symm))
    have hs : slash ∉ s := fun h => hsep (List.mem_append_left [b] h)
    rw [← List.cons_append, ← List.append_assoc,
      List.rdropWhile_concat_pos _ _ _ (by simp [isSlash, hb]), ih hs]

/-- The last segment kept does not end in `/`, so the next one needs one. -/
theorem flatMap_gap {kept : List (List UInt8)} (hkept : ∀ s ∈ kept, path.Proper s) (hne : kept ≠ []) :
    (kept.flatMap (slash :: ·)).getLast? ≠ some slash ∧ 1 < (kept.flatMap (slash :: ·)).length := by
  cases kept using List.reverseRecOn with
  | nil => exact absurd rfl hne
  | append_singleton kept s =>
    have hs := hkept s (List.mem_append_right kept (List.mem_singleton_self s))
    have hpos := List.length_pos_iff.mpr hs.ne_nil
    rw [flatMap_concat]
    exact ⟨getLast_ne_slash hs.ne_nil hs.sep, by simp; omega⟩

/-! ## The path of an entry -/

/-- A text behind the one in a buffer with `cap` bytes; `none` when it is overrun. -/
def strcat (cap : Nat) (dst src : List UInt8) : Option (List UInt8) :=
  if dst.length + src.length < cap then some (dst ++ src) else none

/-- A directory is copied into a buffer, with a `/` behind it unless it ends in one, and the name of
an entry. -/
def childPath (cap : Nat) (dir name : List UInt8) : Option (List UInt8) := do
  let fullPath ← strcat cap [] dir
  let fullPath ← if fullPath.getLast? ≠ some slash then strcat cap fullPath [slash] else fullPath
  strcat cap fullPath name

def child (dir name : List UInt8) : List UInt8 :=
  if dir.getLast? = some slash then dir ++ name else dir ++ slash :: name

theorem strcat_eq {cap : Nat} {dst src : List UInt8} (h : dst.length + src.length < cap) :
    strcat cap dst src = some (dst ++ src) := if_pos h

theorem child_length (dir name : List UInt8) :
    (child dir name).length ≤ dir.length + 1 + name.length := by
  unfold child
  split
  · rw [List.length_append]
    omega
  · rw [List.length_append, List.length_cons]
    omega

theorem childPath_eq {cap : Nat} {dir name : List UInt8} (h : (child dir name).length < cap) :
    childPath cap dir name = some (child dir name) := by
  unfold childPath
  unfold child at h ⊢
  by_cases hslash : dir.getLast? = some slash
  · rw [if_pos hslash] at h ⊢
    rw [List.length_append] at h
    rw [strcat_eq (by rw [List.length_nil]; omega), List.nil_append, Option.bind_eq_bind,
      Option.bind_some, if_neg (not_not.mpr hslash)]
    exact strcat_eq h
  · rw [if_neg hslash] at h ⊢
    rw [List.length_append, List.length_cons] at h
    rw [strcat_eq (by rw [List.length_nil]; omega), List.nil_append, Option.bind_eq_bind,
      Option.bind_some, if_pos hslash, strcat_eq (by rw [List.length_singleton]; omega)]
    refine (strcat_eq ?_).trans ?_
    · rw [List.length_append, List.length_singleton]
      omega
    · rw [List.append_assoc, List.singleton_append]

/-- The path of an entry has one more segment. -/
theorem child_render {segs : List (List UInt8)} (hsegs : ∀ s ∈ segs, path.Proper s)
    (name : List UInt8) : child (path.render segs) name = path.render (segs ++ [name]) := by
  have happend : segs ++ [name] ≠ [] := List.append_ne_nil_of_right_ne_nil segs nofun
  have hright : path.render (segs ++ [name]) = segs.flatMap (slash :: ·) ++ slash :: name :=
    (if_neg happend).trans (flatMap_concat segs name)
  rw [hright]
  by_cases hne : segs = []
  · rw [hne]
    rfl
  · have hflat : path.render segs = segs.flatMap (slash :: ·) := if_neg hne
    rw [hflat, child, if_neg (flatMap_gap hsegs hne).1]

end Lib
