import Hashx86.Settings.Jsmn
import Hashx86.Settings.Serialize

/-!
# The tokens of the text of a geometry

`parse_document`: `jsmn_parse` makes nine tokens of it, the root, the keys, their values and the
object at `"display"`, with the parents that the nesting says and each at its own text
(`documentTokens_spans`).
-/

namespace Hashx86

namespace SettingsFile

open Jsmn

theorem digitChar_bare : ∀ r < 10, isBare (digitChar r) = true := by decide

theorem decimal_bare (v : UInt16) : ∀ c ∈ decimal v, isBare c = true := by
  intro c hc
  obtain ⟨r, hr, rfl⟩ := List.mem_map.mp hc
  exact digitChar_bare r (Lib.numeral_lt (by decide) hr)

theorem decimal_ne_nil {v : UInt16} (hv : v ≠ 0) : decimal v ≠ [] := by
  intro h
  exact Lib.numeral_ne_nil (Nat.pos_of_ne_zero fun h0 => hv (UInt16.toNat_inj.mp h0))
    (List.map_eq_nil_iff.mp h)

/-! ### The text, line by line -/

section text

variable (ws hs : List Char)

/-- The text up to the value of the version. -/
def version : List Char := "\x7b\n".toList ++ "  \"schema_version\": ".toList

/-- The text up to the value of `"display"`. -/
def display : List Char := version ++ "1,\n".toList ++ "  \"display\": ".toList

/-- The text up to the width. -/
def width : List Char := display ++ "\x7b\n".toList ++ "    \"width\": ".toList

/-- The text up to the height. -/
def height : List Char := width ++ (ws ++ ",\n".toList) ++ "    \"height\": ".toList

/-- The text up to the end of the object at `"display"`. -/
def displayEnd : List Char := height ws ++ (hs ++ "\n".toList) ++ "  ".toList

/-- The text up to the end of the root. -/
def rootEnd : List Char := displayEnd ws hs ++ "\x7d".toList ++ "\n".toList

/-- The tokens of the text for the digits `ws` and `hs`. -/
def documentTokens : List Token :=
  [{ opening .object [] none with stop := some ((rootEnd ws hs).length + 1) },
    spanning .string ("\x7b\n".toList ++ "  ".toList ++ ['"']) "schema_version".toList (some 0),
    spanning .primitive version "1".toList (some 1),
    spanning .string (version ++ "1,\n".toList ++ "  ".toList ++ ['"']) "display".toList (some 0),
    { opening .object display (some 3) with stop := some ((displayEnd ws hs).length + 1) },
    spanning .string (display ++ "\x7b\n".toList ++ "    ".toList ++ ['"']) "width".toList (some 4),
    spanning .primitive width ws (some 5),
    spanning .string (width ++ (ws ++ ",\n".toList) ++ "    ".toList ++ ['"']) "height".toList
      (some 4),
    spanning .primitive (height ws) hs (some 7)]

/-- The tokens when the object at `"display"` has just been opened. -/
def openTokens : List Token :=
  [opening .object [] none,
    spanning .string ("\x7b\n".toList ++ "  ".toList ++ ['"']) "schema_version".toList (some 0),
    spanning .primitive version "1".toList (some 1),
    spanning .string (version ++ "1,\n".toList ++ "  ".toList ++ ['"']) "display".toList (some 0),
    opening .object display (some 3)]

theorem reads_version : Reads 64 [] version (none, []) (some 1, openTokens.take 2) :=
  ((reads_open (by decide)).append (reads_spaces (List.all_eq_true.mp rfl))).append
    (reads_key (w := "  ".toList) (s := "schema_version".toList) (List.all_eq_true.mp rfl)
      (List.all_eq_true.mp rfl) (by decide))

theorem reads_display : Reads 64 [] (display ++ "\x7b\n".toList) (none, []) (some 4, openTokens) :=
  ((reads_version.append
    (reads_member (s := "1".toList) (by decide) (List.all_eq_true.mp rfl) (by decide))).append
    (reads_key (w := "  ".toList) (s := "display".toList) (List.all_eq_true.mp rfl)
      (List.all_eq_true.mp rfl) (by decide))).append
    ((reads_open (by decide)).append (reads_spaces (List.all_eq_true.mp rfl)))

variable {ws hs}

theorem reads_width (hws : ∀ c ∈ ws, isBare c = true) (hne : ws ≠ []) :
    Reads 64 [] (width ++ (ws ++ ",\n".toList)) (none, [])
      (some 4, openTokens ++ [
        spanning .string (display ++ "\x7b\n".toList ++ "    ".toList ++ ['"']) "width".toList
          (some 4),
        spanning .primitive width ws (some 5)]) :=
  (reads_display.append (reads_key (w := "    ".toList) (s := "width".toList)
    (List.all_eq_true.mp rfl) (List.all_eq_true.mp rfl) (by decide))).append
    (reads_member hne hws (by decide))

theorem reads_height (hws : ∀ c ∈ ws, isBare c = true) (hwne : ws ≠ [])
    (hhs : ∀ c ∈ hs, isBare c = true) (hhne : hs ≠ []) :
    Reads 64 [] (displayEnd ws hs) (none, []) (some 7, openTokens ++ [
      spanning .string (display ++ "\x7b\n".toList ++ "    ".toList ++ ['"']) "width".toList
        (some 4),
      spanning .primitive width ws (some 5),
      spanning .string (width ++ (ws ++ ",\n".toList) ++ "    ".toList ++ ['"']) "height".toList
        (some 4),
      spanning .primitive (height ws) hs (some 7)]) :=
  (((reads_width hws hwne).append (reads_key (w := "    ".toList) (s := "height".toList)
    (List.all_eq_true.mp rfl) (List.all_eq_true.mp rfl) (by simp [openTokens]))).append
    (reads_last hhne hhs (by simp [openTokens]))).append (reads_spaces (List.all_eq_true.mp rfl))

/-- The brackets close the inner object, then the root. -/
theorem reads_document (hws : ∀ c ∈ ws, isBare c = true) (hwne : ws ≠ [])
    (hhs : ∀ c ∈ hs, isBare c = true) (hhne : hs ≠ []) :
    Reads 64 [] (rootEnd ws hs ++ "\x7d".toList ++ "\n".toList) (none, [])
      (none, documentTokens ws hs) :=
  let spaces {done : List Char} {q : Option Nat × List Token} : Reads 64 done "\n".toList q q :=
    reads_spaces (List.all_eq_true.mp rfl)
  (((((reads_height hws hwne hhs hhne).append (reads_close rfl)).append spaces).append
    (reads_close rfl)).append spaces)

/-- The token is at the text `s` of `js`. -/
def Spans (js : List Char) (t : Token) (s : List Char) : Prop :=
  ∃ done, done ++ s <+: js ∧ t.start = done.length ∧ t.stop = some (done.length + s.length)

theorem spans_spanning {js done s : List Char} {type : Kind} {parent : Option Nat}
    (h : done ++ s <+: js) : Spans js (spanning type done s parent) s := ⟨done, h, rfl, rfl⟩

theorem prefix_twice (a b c : List Char) : a <+: a ++ b ++ c :=
  (List.prefix_append a b).trans (List.prefix_append _ c)

variable {js : List Char}

/-- Each key and each value is at its text. -/
theorem documentTokens_spans (h : rootEnd ws hs <+: js) :
    List.Forall₂ (fun t s => t.type ≠ .object → Spans js t s) (documentTokens ws hs)
      [[], "schema_version".toList, "1".toList, "display".toList, [], "width".toList, ws,
        "height".toList, hs] := by
  have hend : displayEnd ws hs <+: js := (prefix_twice _ _ _).trans h
  have hheight : height ws ++ hs <+: js := by
    refine List.IsPrefix.trans ?_ hend
    rw [displayEnd, ← List.append_assoc (height ws)]
    exact prefix_twice _ _ _
  have hwidth : width ++ (ws ++ ",\n".toList) <+: js :=
    ((List.prefix_append _ _).trans (List.prefix_append _ hs)).trans hheight
  have hdisplay : display ++ "\x7b\n".toList <+: js :=
    ((List.prefix_append _ _).trans (List.prefix_append _ _)).trans hwidth
  have hversion : version ++ "1,\n".toList <+: js :=
    ((List.prefix_append _ _).trans (List.prefix_append _ _)).trans hdisplay
  have hkey : width ++ (ws ++ ",\n".toList) ++ "    ".toList ++ ['"'] ++ "height".toList <+:
      height ws := by
    rw [height, List.append_assoc, List.append_assoc, List.prefix_append_right_inj]
    decide
  have hschema : "\x7b\n".toList ++ "  ".toList ++ ['"'] ++ "schema_version".toList <+:
      version ++ "1,\n".toList := by decide
  have hone : version ++ "1".toList <+: version ++ "1,\n".toList := by decide
  have hname : version ++ "1,\n".toList ++ "  ".toList ++ ['"'] ++ "display".toList <+:
      display ++ "\x7b\n".toList := by decide
  have hwkey : display ++ "\x7b\n".toList ++ "    ".toList ++ ['"'] ++ "width".toList <+:
      width := by decide
  have hws : width ++ ws <+: width ++ (ws ++ ",\n".toList) := by
    rw [List.prefix_append_right_inj]
    exact List.prefix_append ..
  exact .cons nofun (.cons (fun _ => spans_spanning (hschema.trans hversion))
    (.cons (fun _ => spans_spanning (hone.trans hversion))
    (.cons (fun _ => spans_spanning (hname.trans hdisplay)) (.cons nofun
    (.cons (fun _ => spans_spanning (hwkey.trans ((List.prefix_append ..).trans hwidth)))
    (.cons (fun _ => spans_spanning (hws.trans hwidth))
    (.cons (fun _ => spans_spanning (hkey.trans ((List.prefix_append ..).trans hheight)))
    (.cons (fun _ => spans_spanning hheight) .nil))))))))

end text

theorem document_eq (mode : HDisplayMode) : document mode =
    rootEnd (decimal mode.width) (decimal mode.height) ++ "\x7d".toList ++ "\n".toList := by
  simp [document, pieces, rootEnd, displayEnd, height, width, display, version]

/-- `jsmn_parse` tokenises what the Settings application writes. -/
theorem parse_document {mode : HDisplayMode} (hw : mode.width ≠ 0) (hh : mode.height ≠ 0) :
    parse 64 (document mode) =
      .ok (documentTokens (decimal mode.width) (decimal mode.height)) := by
  rw [document_eq]
  exact parse_of_reads (reads_document (decimal_bare _) (decimal_ne_nil hw) (decimal_bare _)
    (decimal_ne_nil hh)) rfl

end SettingsFile

end Hashx86
