import Hashx86.Settings.Document

/-!
# Reading settings.json (`core/settings.cpp`)

The text is a list of characters, and the tokens are those of `Jsmn.parse`; a result of -1 is
`none`.

* `settingsLoad` is `SettingsLoad`, over what the file system returns for the file.
* `parse_document`: the tokens of the text of a geometry.
* `settings_round_trip`: what the Settings application writes for a geometry is loaded as that
  geometry.
-/

namespace Hashx86

namespace SettingsFile

open Jsmn (Kind Token)

/-- `SETTINGS_MAX_BYTES`. -/
def settingsMaxBytes : Nat := 4096

/-- `SETTINGS_MAX_TOKENS`. -/
def settingsMaxTokens : Nat := 64

/-- `Settings`. -/
structure Settings where
  displayWidth : UInt16
  displayHeight : UInt16
  deriving DecidableEq, Repr

/-- An open file: its size and the bytes that reading that many returns, none if it fails. -/
structure BootFile where
  size : Nat
  content : List Char

/-- `readSettingsFile`; `none` is a file that is not there. -/
def readSettingsFile (f : Option BootFile) : Option (List Char) :=
  match f with
  | none => none
  | some f =>
    if f.size = 0 ∨ settingsMaxBytes < f.size then none
    else if f.content = [] then none
    else if f.content.take 3 = ['\xEF', '\xBB', '\xBF'] then some (f.content.drop 3)
    else some f.content

/-- `parseSettingsBuffer`. -/
def parseSettingsBuffer (text : List Char) : Option (List Token) :=
  match Jsmn.parse settingsMaxTokens text with
  | .error _ => none
  | .ok tokens =>
    match tokens.head? with
    | none => none
    | some t => if t.type ≠ .object then none else some tokens

/-- `tokenTextLen`; an `end` of -1 is before every start. -/
def tokenTextLen (t : Token) : Nat :=
  match t.stop with
  | none => 0
  | some stop => if stop < t.start then 0 else stop - t.start

/-- The characters `text[t->start + i]` for `i` below the token's length. -/
def tokenText (text : List Char) (t : Token) : List Char :=
  (text.drop t.start).take (tokenTextLen t)

/-- `tokenKeyEquals`. -/
def tokenKeyEquals (text : List Char) (t : Token) (key : List Char) : Bool :=
  tokenTextLen t = key.length && tokenText text t = key

/-- The loop of `tokenDepthTo`, with `left` more parents allowed by the cycle guard. -/
def depthFrom (tokens : List Token) (ancestor depth : Nat) : Nat → Option Nat → Option Nat
  | left, idx =>
    if idx = some ancestor then some depth
    else match idx, left with
      | none, _ => none
      | some _, 0 => none
      | some i, left + 1 =>
        depthFrom tokens ancestor (depth + 1) left ((tokens[i]?).bind (·.parent))

/-- `tokenDepthTo`. -/
def tokenDepthTo (tokens : List Token) (idx ancestor : Nat) : Option Nat :=
  depthFrom tokens ancestor 0 settingsMaxTokens (some idx)

/-- The inner loop of `objectLookup`: from `j` on to the next child of `objIdx`, or to the end. -/
def nextChild (tokens : List Token) (objIdx : Nat) : Nat → Nat → Nat
  | 0, j => j
  | fuel + 1, j =>
    if j < tokens.length ∧ tokenDepthTo tokens j objIdx ≠ some 1 then
      nextChild tokens objIdx fuel (j + 1)
    else j

/-- The outer loop of `objectLookup`. `i` and `j` grow in each round and stop at the number of
tokens, so as many rounds are enough. -/
def lookupFrom (text : List Char) (tokens : List Token) (objIdx : Nat) (key : List Char) :
    Nat → Nat → Option Nat
  | 0, _ => none
  | fuel + 1, i =>
    match tokens[i]? with
    | none => none
    | some t =>
      if tokenDepthTo tokens i objIdx ≠ some 1 then none
      else if t.type ≠ .string then none
      else if tokenKeyEquals text t key then
        if i + 1 < tokens.length then some (i + 1) else none
      else lookupFrom text tokens objIdx key fuel (nextChild tokens objIdx tokens.length (i + 1))

/-- `objectLookup`. -/
def objectLookup (text : List Char) (tokens : List Token) (objIdx : Nat) (key : List Char) :
    Option Nat :=
  match tokens[objIdx]? with
  | none => none
  | some t =>
    if t.type ≠ .object then none
    else lookupFrom text tokens objIdx key tokens.length (objIdx + 1)

/-- The loop of `tokenToU16`, with the value `v` so far. -/
def digitsFrom (v : Nat) : List Char → Option Nat
  | [] => some v
  | c :: cs =>
    if c < '0' ∨ '9' < c then none
    else
      let v := v * 10 + (c.toNat - '0'.toNat)
      if 0xFFFF < v then none else digitsFrom v cs

/-- `tokenToU16`. -/
def tokenToU16 (text : List Char) (t : Token) : Option UInt16 :=
  if t.type ≠ .primitive then none
  else if tokenTextLen t = 0 ∨ 5 < tokenTextLen t then none
  else match digitsFrom 0 (tokenText text t) with
    | none => none
    | some v => if v = 0 then none else some (UInt16.ofNat v)

/-- The value at `key` in the object, where it is a 16-bit number. -/
def valueAt (text : List Char) (tokens : List Token) (objIdx : Nat) (key : List Char) :
    Option UInt16 :=
  ((objectLookup text tokens objIdx key).bind (tokens[·]?)).bind (tokenToU16 text)

/-- `readDisplayMode`. -/
def readDisplayMode (text : List Char) (tokens : List Token) (s : Settings) : Settings :=
  match objectLookup text tokens 0 "display".toList with
  | none => s
  | some displayIdx =>
    if (tokens[displayIdx]?).map (·.type) ≠ some .object then s
    else
      { displayWidth := (valueAt text tokens displayIdx "width".toList).getD s.displayWidth
        displayHeight := (valueAt text tokens displayIdx "height".toList).getD s.displayHeight }

/-- `SettingsLoad`: what it returns and the settings after it. -/
def settingsLoad (s : Settings) (file : Option BootFile) : Bool × Settings :=
  match readSettingsFile file with
  | none => (false, s)
  | some text =>
    match parseSettingsBuffer text with
    | none => (false, s)
    | some tokens =>
      match valueAt text tokens 0 "schema_version".toList with
      | some ver =>
        if schemaVersion < ver.toNat then (false, s) else (true, readDisplayMode text tokens s)
      | none => (true, readDisplayMode text tokens s)

/-! ### Tokens at their text -/

section tokens

variable {text s key : List Char} {tokens : List Token} {t : Token}

theorem Spans.textLen (h : Spans text t s) : tokenTextLen t = s.length := by
  obtain ⟨done, -, hstart, hstop⟩ := h
  simp only [tokenTextLen, hstart, hstop]
  rw [if_neg (by omega), Nat.add_sub_cancel_left]

theorem Spans.read (h : Spans text t s) : tokenText text t = s := by
  obtain ⟨done, ⟨after, rfl⟩, hstart, -⟩ := id h
  rw [tokenText, h.textLen, hstart, List.append_assoc, List.drop_left, List.take_left]

theorem Spans.keyEquals (h : Spans text t s) : tokenKeyEquals text t key = decide (s = key) := by
  rw [tokenKeyEquals, h.textLen, h.read]
  by_cases hk : s = key
  · rw [decide_eq_true hk, hk, decide_eq_true rfl, Bool.true_and]
  · rw [decide_eq_false hk, Bool.and_false]

theorem digitsFrom_digits {ds : List Nat} (hds : ∀ d ∈ ds, d < 10) (v : Nat) :
    digitsFrom v (ds.map digitChar) = Lib.readUpTo 10 0xFFFF v ds := by
  induction ds generalizing v with
  | nil => rfl
  | cons d ds ih =>
    have hd : ∀ d < 10, ¬(digitChar d < '0' ∨ '9' < digitChar d) ∧
      (digitChar d).toNat - '0'.toNat = d := by decide
    obtain ⟨hdigit, hval⟩ := hd d (hds d (List.mem_cons_self ..))
    rw [List.map_cons, digitsFrom, if_neg hdigit, hval, Lib.readUpTo]
    simp only [ih fun d h => hds d (List.mem_cons_of_mem _ h)]

/-- The digits of a geometry are read back. -/
theorem tokenToU16_decimal {v : UInt16} (hv : v ≠ 0) (htype : t.type = .primitive)
    (h : Spans text t (decimal v)) : tokenToU16 text t = some v := by
  have hpos : 0 < v.toNat := Nat.pos_of_ne_zero fun h0 => hv (UInt16.toNat_inj.mp h0)
  have hlen : ¬((decimal v).length = 0 ∨ 5 < (decimal v).length) := by
    have hle := length_decimal_le v
    have hne := List.length_pos_of_ne_nil (decimal_ne_nil hv)
    omega
  have hbound : v.toNat ≤ 0xFFFF := Nat.le_of_lt_succ v.toNat_lt
  rw [tokenToU16, if_neg (not_not_intro htype), h.textLen, if_neg hlen, h.read, decimal,
    digitsFrom_digits fun d hd => Lib.numeral_lt (by decide) hd,
    Lib.readUpTo_numeral (by decide) hbound]
  simp only []
  rw [if_neg (by omega), UInt16.ofNat_toNat]

variable {objIdx i fuel : Nat}

theorem objectLookup_object (ht : tokens[objIdx]? = some t) (htype : t.type = .object) :
    objectLookup text tokens objIdx key =
      lookupFrom text tokens objIdx key tokens.length (objIdx + 1) := by
  simp only [objectLookup, ht]
  rw [if_neg (not_not_intro htype)]

theorem lookupFrom_hit (ht : tokens[i]? = some t) (hdepth : tokenDepthTo tokens i objIdx = some 1)
    (htype : t.type = .string) (hkey : Spans text t key) (hi : i + 1 < tokens.length) :
    lookupFrom text tokens objIdx key (fuel + 1) i = some (i + 1) := by
  simp only [lookupFrom, ht]
  rw [if_neg (not_not_intro hdepth), if_neg (not_not_intro htype), hkey.keyEquals,
    if_pos (decide_eq_true rfl), if_pos hi]

theorem lookupFrom_miss (ht : tokens[i]? = some t) (hdepth : tokenDepthTo tokens i objIdx = some 1)
    (htype : t.type = .string) (hkey : Spans text t s) (hne : s ≠ key) :
    lookupFrom text tokens objIdx key (fuel + 1) i =
      lookupFrom text tokens objIdx key fuel (nextChild tokens objIdx tokens.length (i + 1)) := by
  simp only [lookupFrom, ht]
  rw [if_neg (not_not_intro hdepth), if_neg (not_not_intro htype), hkey.keyEquals,
    if_neg (by rw [decide_eq_false hne]; decide)]

end tokens

/-! ### The round trip -/

section roundTrip

/-- The texts of the tokens, with the empty one for an object. -/
def documentTexts (ws hs : List Char) : List (List Char) :=
  [[], "schema_version".toList, "1".toList, "display".toList, [], "width".toList, ws,
    "height".toList, hs]

variable {mode : HDisplayMode}

theorem document_token {i : Nat} {t : Token} {s : List Char}
    (ht : (documentTokens (decimal mode.width) (decimal mode.height))[i]? = some t)
    (hs : (documentTexts (decimal mode.width) (decimal mode.height))[i]? = some s)
    (htype : t.type = .string ∨ t.type = .primitive) : Spans (document mode) t s := by
  have hpre : rootEnd (decimal mode.width) (decimal mode.height) <+: document mode := by
    rw [document_eq]
    exact prefix_twice _ _ _
  have hobject : t.type ≠ .object := by
    intro h
    rw [h] at htype
    exact absurd htype (by decide)
  obtain ⟨hi, rfl⟩ := List.getElem?_eq_some_iff.mp ht
  obtain ⟨hi', rfl⟩ := List.getElem?_eq_some_iff.mp hs
  exact (List.forall₂_iff_get.mp (documentTokens_spans hpre)).2 i hi hi' hobject

theorem lookup_version : objectLookup (document mode)
    (documentTokens (decimal mode.width) (decimal mode.height)) 0 "schema_version".toList =
      some 2 := by
  rw [objectLookup_object rfl rfl]
  exact lookupFrom_hit (i := 1) rfl rfl rfl (document_token (i := 1) rfl rfl (Or.inl rfl))
    (Nat.le_of_ble_eq_true rfl)

theorem lookup_display : objectLookup (document mode)
    (documentTokens (decimal mode.width) (decimal mode.height)) 0 "display".toList = some 4 := by
  rw [objectLookup_object rfl rfl]
  refine (lookupFrom_miss (i := 1) rfl rfl rfl (document_token (i := 1) rfl rfl (Or.inl rfl))
    (by decide)).trans ?_
  exact lookupFrom_hit (i := 3) rfl rfl rfl (document_token (i := 3) rfl rfl (Or.inl rfl))
    (Nat.le_of_ble_eq_true rfl)

theorem lookup_width : objectLookup (document mode)
    (documentTokens (decimal mode.width) (decimal mode.height)) 4 "width".toList = some 6 := by
  rw [objectLookup_object rfl rfl]
  exact lookupFrom_hit (i := 5) rfl rfl rfl (document_token (i := 5) rfl rfl (Or.inl rfl))
    (Nat.le_of_ble_eq_true rfl)

theorem lookup_height : objectLookup (document mode)
    (documentTokens (decimal mode.width) (decimal mode.height)) 4 "height".toList = some 8 := by
  rw [objectLookup_object rfl rfl]
  refine (lookupFrom_miss (i := 5) rfl rfl rfl (document_token (i := 5) rfl rfl (Or.inl rfl))
    (by decide)).trans ?_
  exact lookupFrom_hit (i := 7) rfl rfl rfl (document_token (i := 7) rfl rfl (Or.inl rfl))
    (Nat.le_of_ble_eq_true rfl)

/-- The version is read as 1. -/
theorem document_version : valueAt (document mode)
    (documentTokens (decimal mode.width) (decimal mode.height)) 0 "schema_version".toList =
      some 1 := by
  have hdigit : "1".toList = decimal 1 := by
    rw [← itoa_geometry (by decide)]
    exact itoa_schemaVersion.symm
  have htoken : Spans (document mode) (Jsmn.spanning .primitive version "1".toList (some 1))
      "1".toList := document_token (i := 2) rfl rfl (Or.inr rfl)
  rw [hdigit] at htoken
  rw [valueAt, lookup_version, Option.bind_some]
  exact tokenToU16_decimal (by decide) rfl htoken

theorem readDisplayMode_document (hw : mode.width ≠ 0) (hh : mode.height ≠ 0) (s : Settings) :
    readDisplayMode (document mode)
      (documentTokens (decimal mode.width) (decimal mode.height)) s =
      { displayWidth := mode.width, displayHeight := mode.height } := by
  have hwidth : valueAt (document mode)
      (documentTokens (decimal mode.width) (decimal mode.height)) 4 "width".toList =
        some mode.width := by
    rw [valueAt, lookup_width, Option.bind_some]
    exact tokenToU16_decimal hw rfl (document_token (i := 6) rfl rfl (Or.inr rfl))
  have hheight : valueAt (document mode)
      (documentTokens (decimal mode.width) (decimal mode.height)) 4 "height".toList =
        some mode.height := by
    rw [valueAt, lookup_height, Option.bind_some]
    exact tokenToU16_decimal hh rfl (document_token (i := 8) rfl rfl (Or.inr rfl))
  simp only [readDisplayMode, lookup_display, hwidth, hheight, Option.getD_some]
  exact if_neg (not_not_intro rfl)

/-- The file with the text `text`. -/
def BootFile.of (text : List Char) : BootFile := { size := text.length, content := text }

theorem readSettingsFile_plain {f : BootFile} (hsize : ¬(f.size = 0 ∨ settingsMaxBytes < f.size))
    (hne : f.content ≠ []) (hbom : f.content.take 3 ≠ ['\xEF', '\xBB', '\xBF']) :
    readSettingsFile (some f) = some f.content := by
  simp only [readSettingsFile]
  rw [if_neg hsize, if_neg hne, if_neg hbom]

theorem readSettingsFile_document (mode : HDisplayMode) :
    readSettingsFile (some (BootFile.of (document mode))) = some (document mode) := by
  have hlen : 0 < (document mode).length ∧ (document mode).length ≤ settingsMaxBytes :=
    ⟨Nat.zero_lt_succ _, Nat.le_trans (length_document_le mode) (by decide)⟩
  refine readSettingsFile_plain ?_ (List.ne_nil_of_length_pos hlen.1) fun h =>
    absurd (List.head_eq_of_cons_eq h) (by decide)
  change ¬((document mode).length = 0 ∨ settingsMaxBytes < (document mode).length)
  omega

/-- What the Settings application writes for a geometry is loaded as that geometry. -/
theorem settings_round_trip (mode : HDisplayMode) (hw : mode.width ≠ 0) (hh : mode.height ≠ 0)
    (s : Settings) : ∃ text, serializeSettings 256 mode = some text ∧
      settingsLoad s (some (BootFile.of text)) =
        (true, { displayWidth := mode.width, displayHeight := mode.height }) := by
  refine ⟨document mode, serializeSettings_spec hw hh ?_, ?_⟩
  · exact Nat.lt_of_le_of_lt (length_document_le mode) (by decide)
  · have htokens : parseSettingsBuffer (document mode) =
        some (documentTokens (decimal mode.width) (decimal mode.height)) := by
      simp only [parseSettingsBuffer, settingsMaxTokens, parse_document hw hh]
      rfl
    simp only [settingsLoad, readSettingsFile_document, htokens, document_version,
      readDisplayMode_document hw hh]
    exact if_neg (by decide)

theorem settings_round_trip_default : ∃ text, serializeSettings 256 ⟨1600, 900⟩ = some text ∧
    settingsLoad ⟨1024, 768⟩ (some (BootFile.of text)) = (true, ⟨1600, 900⟩) :=
  settings_round_trip ⟨1600, 900⟩ (by decide) (by decide) ⟨1024, 768⟩

end roundTrip

end SettingsFile

end Hashx86
