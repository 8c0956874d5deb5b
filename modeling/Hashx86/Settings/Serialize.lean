import Hashx86.Lib.Numeral

/-!
# Writing settings.json (`user_prog/Settings/prog.cpp`, `utils/string.cpp`)

* `itoa` and `serializeSettings` as the sources have them; `none` is `serializeSettings` that
  returns 0.
* `itoa_ten`: the decimal digits of a positive number.
* `serializeSettings_spec`: every geometry fits in the 256 bytes of `SettingsApp::onSave`.
-/

namespace Hashx86

namespace SettingsFile

open Lib (numeral)

/-- The character of a remainder. -/
def digitChar (remainder : Nat) : Char :=
  if remainder < 10 then Char.ofNat (remainder + '0'.toNat)
  else Char.ofNat (remainder + 'a'.toNat - 10)

/-- The characters that `do … while (ud /= divisor)` stores, in that order. -/
def remainders (divisor : Nat) (h : 1 < divisor) (ud : Nat) : List Char :=
  if _hq : ud / divisor = 0 then [digitChar (ud % divisor)]
  else digitChar (ud % divisor) :: remainders divisor h (ud / divisor)
termination_by ud
decreasing_by
  refine Nat.div_lt_self (Nat.pos_of_ne_zero ?_) h
  rintro rfl
  exact _hq (Nat.zero_div _)

/-- The digits of `ud`. The loop that reverses the buffer swaps from both ends, as `Array.reverse`
does. -/
def unsignedDigits (divisor : Nat) (h : 1 < divisor) (ud : Nat) : List Char :=
  (remainders divisor h ud).toArray.reverse.toList

/-- `itoa`; `unsigned long` has 32 bits. -/
def itoa (base : Nat) (d : BitVec 32) : List Char :=
  if base = 'd'.toNat ∧ d.msb then '-' :: unsignedDigits 10 (by decide) (-d).toNat
  else if base = 'x'.toNat then unsignedDigits 16 (by decide) d.toNat
  else unsignedDigits 10 (by decide) d.toNat

/-- `HDisplayMode`. -/
structure HDisplayMode where
  width : UInt16
  height : UInt16
  deriving DecidableEq, Repr

/-- `SETTINGS_SCHEMA_VERSION`, in both programs. -/
def schemaVersion : Nat := 1

/-- `APPEND`: character after character, while one more leaves room for the NUL. -/
def append (bufSize : Nat) (buf : List Char) : List Char → Option (List Char)
  | [] => some buf
  | c :: s => if bufSize ≤ buf.length + 1 then none else append bufSize (buf ++ [c]) s

/-- What `serializeSettings` appends, one piece after the other. -/
def pieces (vbuf wbuf hbuf : List Char) : List (List Char) :=
  ["\x7b\n".toList,
    "  \"schema_version\": ".toList, vbuf, ",\n".toList,
    "  \"display\": \x7b\n".toList,
    "    \"width\": ".toList, wbuf, ",\n".toList,
    "    \"height\": ".toList, hbuf, "\n".toList,
    "  \x7d\n".toList,
    "\x7d\n".toList]

/-- `serializeSettings`. -/
def serializeSettings (bufSize : Nat) (mode : HDisplayMode) : Option (List Char) :=
  let wbuf := itoa 10 (mode.width.toBitVec.setWidth 32)
  let hbuf := itoa 10 (mode.height.toBitVec.setWidth 32)
  let vbuf := itoa 10 (BitVec.ofNat 32 schemaVersion)
  (pieces vbuf wbuf hbuf).foldlM (append bufSize) []

/-! ### The digits -/

theorem remainders_eq {divisor : Nat} (h : 1 < divisor) {ud : Nat} (hpos : 0 < ud) :
    remainders divisor h ud = (Nat.digits divisor ud).map digitChar := by
  induction ud using Nat.strong_induction_on with
  | _ ud ih =>
    rw [remainders, Nat.digits_def' h hpos, List.map_cons]
    by_cases hq : ud / divisor = 0
    · rw [dif_pos hq, hq, Nat.digits_zero, List.map_nil]
    · rw [dif_neg hq, ih _ (Nat.div_lt_self hpos h) (Nat.pos_of_ne_zero hq)]

theorem unsignedDigits_eq {divisor : Nat} (h : 1 < divisor) {ud : Nat} (hpos : 0 < ud) :
    unsignedDigits divisor h ud = (numeral divisor ud).map digitChar := by
  rw [unsignedDigits, Array.toList_reverse, remainders_eq h hpos, numeral, List.map_reverse]

/-- With base 10 the sign is not looked at: the digits of the unsigned value. -/
theorem itoa_ten {d : BitVec 32} (hpos : 0 < d.toNat) :
    itoa 10 d = (numeral 10 d.toNat).map digitChar := by
  have hbase : ¬(10 = 'd'.toNat ∧ d.msb = true) := fun h => absurd h.1 (by decide)
  rw [itoa, if_neg hbase, if_neg (by decide), unsignedDigits_eq _ hpos]

/-- The digits of a geometry. -/
def decimal (v : UInt16) : List Char := (numeral 10 v.toNat).map digitChar

theorem itoa_geometry {v : UInt16} (hv : v ≠ 0) : itoa 10 (v.toBitVec.setWidth 32) = decimal v := by
  have hval : (v.toBitVec.setWidth 32).toNat = v.toNat := by
    rw [BitVec.toNat_setWidth_of_le (by decide)]
    rfl
  have hpos : 0 < v.toNat := Nat.pos_of_ne_zero fun h => hv (UInt16.toNat_inj.mp h)
  rw [itoa_ten (by rw [hval]; exact hpos), hval]
  rfl

theorem length_decimal_le (v : UInt16) : (decimal v).length ≤ 5 := by
  rw [decimal, List.length_map]
  exact Lib.length_numeral_le (by decide) (Nat.lt_of_lt_of_le v.toNat_lt (by decide))

/-! ### The text -/

theorem append_fits {bufSize : Nat} : ∀ (s buf : List Char), buf.length + s.length < bufSize →
    append bufSize buf s = some (buf ++ s)
  | [], buf, _ => by rw [append, List.append_nil]
  | c :: s, buf, h => by
    rw [List.length_cons] at h
    rw [append, if_neg (by omega), append_fits s, List.append_assoc]
    · rfl
    · rw [List.length_append, List.length_singleton]
      omega

theorem appendAll_fits {bufSize : Nat} : ∀ (ss : List (List Char)) (buf : List Char),
    buf.length + ss.flatten.length < bufSize →
    ss.foldlM (append bufSize) buf = some (buf ++ ss.flatten)
  | [], buf, _ => by rw [List.flatten_nil, List.append_nil]; rfl
  | s :: ss, buf, h => by
    rw [List.flatten_cons, List.length_append] at h
    rw [List.foldlM_cons, append_fits s buf (by omega), Option.bind_eq_bind, Option.bind_some,
      appendAll_fits ss, List.flatten_cons, List.append_assoc]
    rw [List.length_append]
    omega

/-- The text for a geometry. -/
def document (mode : HDisplayMode) : List Char :=
  (pieces ['1'] (decimal mode.width) (decimal mode.height)).flatten

theorem length_document_le (mode : HDisplayMode) : (document mode).length ≤ 90 := by
  have hw := length_decimal_le mode.width
  have hh := length_decimal_le mode.height
  have hsum : ∀ ws hs : List Char,
      (pieces ['1'] ws hs).flatten.length = 76 + ws.length + hs.length := by
    intro ws hs
    simp [pieces]
    omega
  rw [document, hsum]
  omega

theorem itoa_schemaVersion : itoa 10 (BitVec.ofNat 32 schemaVersion) = ['1'] := by
  rw [itoa_ten (by decide), Lib.numeral_of_pos (by decide) (by decide)]
  exact congrArg (fun ds => (ds ++ [1]).map digitChar) (Lib.numeral_zero 10)

/-- A buffer that holds the text and its NUL gets it. -/
theorem serializeSettings_spec {bufSize : Nat} {mode : HDisplayMode} (hw : mode.width ≠ 0)
    (hh : mode.height ≠ 0) (hsize : (document mode).length < bufSize) :
    serializeSettings bufSize mode = some (document mode) := by
  have happend := appendAll_fits (pieces ['1'] (decimal mode.width) (decimal mode.height)) []
    (by rw [List.length_nil, Nat.zero_add]; exact hsize)
  simp only [serializeSettings, itoa_geometry hw, itoa_geometry hh, itoa_schemaVersion]
  exact happend

end SettingsFile

end Hashx86
