import Hashx86.Settings.Lookup

/-!
# What a document sets (`SettingsLoad`)

* `Document.loaded`: what loading a document should do, in terms of its members: nothing, if it
  names a newer schema, and else each geometry of `"display"` on its own.
* `digitsFrom_eq` and `tokenToU16_stands`: the reader of 16-bit numbers takes decimal integers of at
  most five digits.
* `settingsLoad_eq`: what `SettingsLoad` does in the same terms.
* `settingsLoad_iff`: it does what it should exactly when that reader is enough for the numbers in
  the document. `newer_schema_loaded`: a version for which it is not.
-/

namespace Hashx86

namespace Jsmn

/-! ### Members by name -/

/-- The direct members of an object. -/
def Members.pairs : Members → List (List Char × Value)
  | .one l v _ => [(l.key.text, v)]
  | .more l v _ _ rest => (l.key.text, v) :: rest.pairs

def Value.pairs : Value → List (List Char × Value)
  | .object _ ms => ms.pairs
  | _ => []

/-- The value of the first direct member with the key. -/
def Value.member (v : Value) (key : List Char) : Option Value :=
  (v.pairs.find? (·.1 = key)).map Prod.snd

theorem Members.first_pairs (key : List Char) : ∀ (ms : Members) (i : Nat),
    ((ms.entries i).find? (·.key = key)).map Entry.value =
      (ms.pairs.find? (·.1 = key)).map Prod.snd
  | .one l v w, i => by
    unfold Members.entries Members.pairs
    by_cases hk : l.key.text = key <;> simp [hk]
  | .more l v w w' rest, i => by
    unfold Members.entries Members.pairs
    by_cases hk : l.key.text = key
    · simp [hk]
    · rw [List.find?_cons_of_neg (by simpa using hk), List.find?_cons_of_neg (by simpa using hk)]
      exact rest.first_pairs key _

theorem Value.first_value (v : Value) (o : Nat) (key : List Char) :
    (v.first o key).map Entry.value = v.member key := by
  cases v with
  | object w ms => exact ms.first_pairs key (o + 1)
  | _ => rfl

end Jsmn

namespace SettingsFile

open Jsmn

/-! ### What a document says -/

def isDigit (c : Char) : Bool := '0' ≤ c ∧ c ≤ '9'

/-- The number that the digits continue from `v`. -/
def foldDigits (v : Nat) (s : List Char) : Nat :=
  s.foldl (fun v c => v * 10 + (c.toNat - '0'.toNat)) v

/-- A non-negative decimal integer. -/
def decimalInt : Value → Option Nat
  | .primitive s => if s.text.all isDigit then some (foldDigits 0 s.text) else none
  | _ => none

/-- A usable width or height. -/
def geometry (n : Nat) : Option UInt16 :=
  if 1 ≤ n ∧ n ≤ 65535 then some (UInt16.ofNat n) else none

/-- The schema version that the document names. -/
def versionIn (d : Document) : Option Nat :=
  (d.root.member "schema_version".toList).bind decimalInt

/-- The document names a newer schema. -/
def newer (d : Document) : Bool := (versionIn d).any (schemaVersion < ·)

/-- A member of the object at `"display"`. -/
def displayMember (d : Document) (key : List Char) : Option Value :=
  (d.root.member "display".toList).bind (·.member key)

/-- What the numbers of the document set, if `read` takes them from its values. -/
def merged (read : Value → Option UInt16) (d : Document) (s : Settings) : Settings where
  displayWidth := ((displayMember d "width".toList).bind read).getD s.displayWidth
  displayHeight := ((displayMember d "height".toList).bind read).getD s.displayHeight

/-- What loading the document should do. -/
def loaded (d : Document) (s : Settings) : Bool × Settings :=
  if newer d then (false, s) else (true, merged (fun v => (decimalInt v).bind geometry) d s)

/-! ### What the code reads -/

/-- What `tokenToU16` makes of a value. -/
def shortInt (v : Value) : Option UInt16 :=
  if v.text.length ≤ 5 then (decimalInt v).bind geometry else none

theorem le_foldDigits (s : List Char) (v : Nat) : v ≤ foldDigits v s := by
  induction s generalizing v with
  | nil => exact Nat.le_refl v
  | cons c s ih => exact Nat.le_trans (by omega) (ih (v * 10 + (c.toNat - '0'.toNat)))

/-- The loop of `tokenToU16` gives up at a character that is no digit, and past 65535. -/
theorem digitsFrom_eq (s : List Char) : ∀ v, v ≤ 0xFFFF → digitsFrom v s =
    if s.all isDigit ∧ foldDigits v s ≤ 0xFFFF then some (foldDigits v s) else none := by
  induction s with
  | nil => exact fun v hv => (if_pos ⟨rfl, hv⟩).symm
  | cons c s ih =>
    intro v hv
    have hfold : foldDigits v (c :: s) = foldDigits (v * 10 + (c.toNat - '0'.toNat)) s := rfl
    rw [digitsFrom, hfold, List.all_cons]
    by_cases hc : c < '0' ∨ '9' < c
    · have hno : isDigit c = false := decide_eq_false fun h => by
        rcases hc with hc | hc
        · exact absurd h.1 (Char.not_le.mpr hc)
        · exact absurd h.2 (Char.not_le.mpr hc)
      rw [if_pos hc, hno, Bool.false_and, if_neg fun h => Bool.false_ne_true h.1]
    · have hyes : isDigit c = true :=
        decide_eq_true ⟨Char.not_lt.mp fun h => hc (.inl h), Char.not_lt.mp fun h => hc (.inr h)⟩
      rw [if_neg hc, hyes, Bool.true_and]
      dsimp only
      by_cases hbig : 0xFFFF < v * 10 + (c.toNat - '0'.toNat)
      · have hle := le_foldDigits s (v * 10 + (c.toNat - '0'.toNat))
        rw [if_pos hbig, if_neg fun h => by omega]
      · rw [if_neg hbig, ih _ (by omega)]

theorem tokenToU16_stands {js : List Char} {tokens : List Token} {o : Nat} {v : Value} {t : Token}
    (h : Stands js tokens o v) (ht : tokens[o]? = some t) : tokenToU16 js t = shortInt v := by
  obtain ⟨done, parent, hjs, hat⟩ := h
  obtain ⟨u, us, hu, htype, -⟩ := v.tokens_eq_cons done parent o
  have hget : tokens[o]? = some u := (hu ▸ hat).get (x := 0) rfl
  obtain rfl : t = u := Option.some.inj (ht.symm.trans hget)
  unfold tokenToU16 shortInt
  cases v with
  | string | emptyArray | array | emptyObject | object =>
    rw [if_pos (by rw [htype]; nofun)]
    simp [decimalInt]
  | primitive s =>
    obtain rfl : spanning .primitive done s.text parent = t := (List.cons.inj hu).1
    have hspans : Spans js (spanning .primitive done s.text parent) s.text := spans_spanning hjs
    have hpos := List.length_pos_of_ne_nil s.ne_nil
    have hprim : (spanning .primitive done s.text parent).type = .primitive := rfl
    rw [if_neg (not_not_intro hprim), hspans.textLen, hspans.read, digitsFrom_eq _ 0 (by decide)]
    change _ = if s.text.length ≤ 5 then (Option.bind _ geometry) else none
    by_cases hlen : s.text.length ≤ 5
    · rw [if_neg (by omega), if_pos hlen]
      unfold decimalInt geometry
      by_cases hdig : s.text.all isDigit = true
      · simp only [hdig, true_and, if_true]
        grind
      · simp [hdig]
    · rw [if_pos (by omega), if_neg hlen]

theorem valueAt_stands {js : List Char} {tokens : List Token} {o : Nat} {v : Value}
    (h : Stands js tokens o v) (hk : v.kind = .object) (key : List Char) :
    valueAt js tokens o key = (v.member key).bind shortInt := by
  unfold valueAt
  rw [lookup_stands h hk, ← v.first_value o]
  cases hf : v.first o key with
  | none => rfl
  | some e =>
    have hmem : e ∈ v.entries o := List.mem_of_find?_eq_some hf
    obtain ⟨done, parent, hjs, hat⟩ := h
    have hstands : Stands js tokens e.index e.value :=
      v.stands done parent o hjs hat _ (Value.entries_nodes hmem)
    obtain ⟨done', parent', -, hat'⟩ := id hstands
    obtain ⟨t, ts, ht, -⟩ := e.value.tokens_eq_cons done' parent' e.index
    have hget : tokens[e.index]? = some t := (ht ▸ hat').get (x := 0) rfl
    simp only [Option.map_some, Option.bind_some, hget]
    exact tokenToU16_stands hstands hget

theorem readDisplayMode_eq (d : Document) (s : Settings) :
    readDisplayMode d.text d.tokens s = merged shortInt d s := by
  have hroot := stands_document d (d.root.self_mem_nodes 0)
  have hmember : ∀ key, displayMember d key =
      ((d.root.first 0 "display".toList).map Entry.value).bind (·.member key) := fun key => by
    rw [Value.first_value]
    rfl
  unfold readDisplayMode merged
  rw [lookup_stands hroot d.object, hmember, hmember]
  cases hf : d.root.first 0 "display".toList with
  | none => rfl
  | some e =>
    have hmem : e ∈ d.root.entries 0 := List.mem_of_find?_eq_some hf
    have hstands := stands_document d (Value.entries_nodes hmem)
    obtain ⟨done, parent, -, hat⟩ := id hstands
    obtain ⟨t, ts, ht, htype, -⟩ := e.value.tokens_eq_cons done parent e.index
    have hget : d.tokens[e.index]? = some t := (ht ▸ hat).get (x := 0) rfl
    simp only [Option.map_some, Option.bind_some, hget, htype]
    by_cases hk : e.value.kind = .object
    · rw [if_neg (by rw [hk]; exact not_not_intro rfl), valueAt_stands hstands hk,
        valueAt_stands hstands hk]
    · rw [if_pos fun h => hk (Option.some.inj h)]
      have hnone : ∀ key, e.value.member key = none := fun key => by
        cases hv : e.value with
        | object | emptyObject => exact absurd (congrArg Value.kind hv) hk
        | _ => rfl
      rw [hnone, hnone]
      rfl

/-- What `SettingsLoad` does with a document. -/
def loads (d : Document) (s : Settings) : Bool × Settings :=
  if ((d.root.member "schema_version".toList).bind shortInt).any (schemaVersion < ·.toNat) then
    (false, s)
  else (true, merged shortInt d s)

theorem settingsLoad_eq {f : BootFile} {d : Document} {tokens : List Token}
    (hread : readSettingsFile (some f) = some d.text)
    (hparse : parse settingsMaxTokens d.text = .ok tokens) (s : Settings) :
    settingsLoad s (some f) = loads d s := by
  obtain rfl := d.tokens_of_parse hparse
  have hroot := stands_document d (d.root.self_mem_nodes 0)
  obtain ⟨t, ts, ht, htype, -⟩ := d.root.tokens_eq_cons d.before.text none 0
  have hbuffer : parseSettingsBuffer d.text = some d.tokens := by
    unfold parseSettingsBuffer
    rw [hparse]
    dsimp only
    have hhead : d.tokens.head? = some t := congrArg List.head? ht
    rw [hhead]
    exact if_neg (not_not_intro (htype.trans d.object))
  unfold settingsLoad loads
  rw [hread]
  simp only [hbuffer, valueAt_stands hroot d.object, readDisplayMode_eq]
  cases (d.root.member "schema_version".toList).bind shortInt with
  | none => rfl
  | some ver => simp

/-! ### When the numbers are short enough -/

/-- A version that is newer has at most five digits and is at most 65535, and, where the version is
not newer, a usable geometry has at most five digits. -/
structure NumbersShort (d : Document) : Prop where
  version : ∀ v n, d.root.member "schema_version".toList = some v → decimalInt v = some n →
    schemaVersion < n → v.text.length ≤ 5 ∧ n ≤ 65535
  display : newer d = false → ∀ key ∈ ["width".toList, "height".toList], ∀ v,
    displayMember d key = some v → ((decimalInt v).bind geometry).isSome → v.text.length ≤ 5

theorem shortInt_eq_iff (v : Value) : shortInt v = (decimalInt v).bind geometry ↔
    (((decimalInt v).bind geometry).isSome → v.text.length ≤ 5) := by
  unfold shortInt
  by_cases hlen : v.text.length ≤ 5
  · rw [if_pos hlen]
    exact iff_of_true rfl fun _ => hlen
  · rw [if_neg hlen]
    cases (decimalInt v).bind geometry <;> simp [hlen]

/-- The code sees a newer version. -/
theorem newer_seen (d : Document) :
    ((d.root.member "schema_version".toList).bind shortInt).any (schemaVersion < ·.toNat) = true ↔
      ∃ v n, d.root.member "schema_version".toList = some v ∧ decimalInt v = some n ∧
        schemaVersion < n ∧ v.text.length ≤ 5 ∧ n ≤ 65535 := by
  rw [Option.any_eq_true]
  constructor
  · rintro ⟨ver, hver, hlt⟩
    obtain ⟨v, hv, hshort⟩ := Option.bind_eq_some_iff.mp hver
    unfold shortInt at hshort
    split at hshort
    · rename_i hlen
      obtain ⟨n, hn, hg⟩ := Option.bind_eq_some_iff.mp hshort
      unfold geometry at hg
      split at hg
      · rename_i hrange
        obtain rfl := Option.some.inj hg
        have htoNat : (UInt16.ofNat n).toNat = n := by
          rw [UInt16.toNat_ofNat']
          exact Nat.mod_eq_of_lt (by omega)
        rw [htoNat, decide_eq_true_eq] at hlt
        exact ⟨v, n, hv, hn, hlt, hlen, hrange.2⟩
      · cases hg
    · cases hshort
  · rintro ⟨v, n, hv, hn, hlt, hlen, hle⟩
    refine ⟨UInt16.ofNat n, ?_, ?_⟩
    · rw [hv, Option.bind_some, shortInt, if_pos hlen, hn, Option.bind_some, geometry]
      exact if_pos ⟨by unfold schemaVersion at hlt; omega, hle⟩
    · rw [UInt16.toNat_ofNat', Nat.mod_eq_of_lt (by omega)]
      exact decide_eq_true hlt

theorem newer_iff (d : Document) : newer d = true ↔
    ∃ v n, d.root.member "schema_version".toList = some v ∧ decimalInt v = some n ∧
      schemaVersion < n := by
  unfold newer versionIn
  rw [Option.any_eq_true]
  constructor
  · rintro ⟨n, hn, hlt⟩
    obtain ⟨v, hv, hn⟩ := Option.bind_eq_some_iff.mp hn
    exact ⟨v, n, hv, hn, of_decide_eq_true hlt⟩
  · rintro ⟨v, n, hv, hn, hlt⟩
    exact ⟨n, by rw [hv]; exact hn, decide_eq_true hlt⟩

theorem getD_inj {o o' : Option UInt16} (h : ∀ x, o.getD x = o'.getD x) : o = o' := by
  cases o with
  | none =>
    cases o' with
    | none => rfl
    | some a =>
      have h0 : (0 : UInt16) = a := h 0
      have h1 : (1 : UInt16) = a := h 1
      exact absurd (h0.trans h1.symm) (by decide)
  | some a =>
    cases o' with
    | none =>
      have h0 : a = (0 : UInt16) := h 0
      have h1 : a = (1 : UInt16) := h 1
      exact absurd (h0.symm.trans h1) (by decide)
    | some b => exact congrArg some (h 0)

/-- Short geometries are all the code needs to merge as it should. -/
theorem merged_eq_iff (d : Document) :
    (∀ s, merged shortInt d s = merged (fun v => (decimalInt v).bind geometry) d s) ↔
      ∀ key ∈ ["width".toList, "height".toList], ∀ v, displayMember d key = some v →
        ((decimalInt v).bind geometry).isSome → v.text.length ≤ 5 := by
  have hkey : ∀ key, (displayMember d key).bind shortInt =
        (displayMember d key).bind (fun v => (decimalInt v).bind geometry) ↔
      ∀ v, displayMember d key = some v →
        ((decimalInt v).bind geometry).isSome → v.text.length ≤ 5 := fun key => by
    cases hd : displayMember d key with
    | none => simp
    | some v => simpa using shortInt_eq_iff v
  constructor
  · intro h key hmem
    rw [← hkey]
    rcases List.mem_cons.mp hmem with rfl | hmem
    · exact getD_inj fun x => congrArg Settings.displayWidth (h ⟨x, x⟩)
    · obtain rfl := List.mem_singleton.mp hmem
      exact getD_inj fun x => congrArg Settings.displayHeight (h ⟨x, x⟩)
  · intro h s
    unfold merged
    rw [(hkey _).mpr (h _ List.mem_cons_self),
      (hkey _).mpr (h _ (List.mem_cons_of_mem _ List.mem_cons_self))]

/-- `SettingsLoad` does with a document what it should exactly when its numbers are short enough. -/
theorem settingsLoad_iff {f : BootFile} {d : Document} {tokens : List Token}
    (hread : readSettingsFile (some f) = some d.text)
    (hparse : parse settingsMaxTokens d.text = .ok tokens) :
    (∀ s, settingsLoad s (some f) = loaded d s) ↔ NumbersShort d := by
  simp only [settingsLoad_eq hread hparse]
  cases hnew : newer d with
  | true =>
    obtain ⟨v, n, hv, hn, hlt⟩ := (newer_iff d).mp hnew
    constructor
    · intro h
      have hseen := h ⟨0, 0⟩
      unfold loads loaded at hseen
      rw [hnew, if_pos rfl] at hseen
      split at hseen
      · rename_i hany
        obtain ⟨v', n', hv', hn', -, hlen, hle⟩ := (newer_seen d).mp hany
        refine ⟨fun u k hu hk _ => ?_, fun hno => ?_⟩
        · obtain rfl := Option.some.inj (hv'.symm.trans hu)
          obtain rfl := Option.some.inj (hn'.symm.trans hk)
          exact ⟨hlen, hle⟩
        · rw [hnew] at hno
          cases hno
      · cases hseen
    · intro h s
      obtain ⟨hlen, hle⟩ := h.version v n hv hn hlt
      unfold loads loaded
      rw [if_pos ((newer_seen d).mpr ⟨v, n, hv, hn, hlt, hlen, hle⟩), if_pos hnew]
  | false =>
    have hno : ¬ ∃ v n, d.root.member "schema_version".toList = some v ∧ decimalInt v = some n ∧
        schemaVersion < n := by
      rw [← newer_iff, hnew]
      exact Bool.false_ne_true
    have hunseen : ¬ ((d.root.member "schema_version".toList).bind shortInt).any
        (schemaVersion < ·.toNat) = true := fun hany =>
      let ⟨v, n, hv, hn, hlt, _⟩ := (newer_seen d).mp hany
      hno ⟨v, n, hv, hn, hlt⟩
    have hloads : ∀ s, loads d s = loaded d s ↔
        merged shortInt d s = merged (fun v => (decimalInt v).bind geometry) d s := fun s => by
      unfold loads loaded
      rw [if_neg hunseen, hnew, if_neg Bool.false_ne_true, Prod.mk.injEq]
      exact and_iff_right rfl
    simp only [hloads]
    rw [merged_eq_iff]
    exact ⟨fun h => ⟨fun v n hv hn hlt => absurd ⟨v, n, hv, hn, hlt⟩ hno, fun _ => h⟩,
      fun h => h.display hnew⟩

theorem space_nil : ∀ c ∈ ([] : List Char), isSpace c = true := List.forall_mem_nil _

/-- `{"schema_version":…,"display":{"width":800}}`. -/
def versionedDocument (version : Value) : Document where
  before := ⟨[], space_nil⟩
  root := .object ⟨[], space_nil⟩ (.more (plainLabel "schema_version".toList (by decide))
    version ⟨[], space_nil⟩ ⟨[], space_nil⟩
    (.one (plainLabel "display".toList (by decide))
      (.object ⟨[], space_nil⟩ (.one (plainLabel "width".toList (by decide))
        (bareValue "800".toList nofun (by decide)) ⟨[], space_nil⟩)) ⟨[], space_nil⟩))
  object := rfl
  after := ⟨[], space_nil⟩

theorem one_ne_nil : ['1'] ≠ [] := List.cons_ne_nil _ _

theorem one_bare : ['1'].all isBare = true := by decide

def versionOne : Document := versionedDocument (bareValue ['1'] one_ne_nil one_bare)

theorem versionOne_short : NumbersShort versionOne := by
  refine ⟨fun v n hv hn hlt => ?_, fun _ key hkey v hv _ => ?_⟩
  · have hversion : versionOne.root.member "schema_version".toList =
        some (bareValue ['1'] one_ne_nil one_bare) := rfl
    obtain rfl := Option.some.inj (hversion.symm.trans hv)
    have hone : decimalInt (bareValue ['1'] one_ne_nil one_bare) = some 1 := by decide
    obtain rfl := Option.some.inj (hone.symm.trans hn)
    exact absurd hlt (by decide)
  · have hall : ∀ key ∈ ["width".toList, "height".toList],
        ((displayMember versionOne key).map (·.text.length)).getD 0 ≤ 5 := by decide
    have hlen := hall key hkey
    rwa [hv] at hlen

theorem settingsLoad_versionOne : settingsLoad ⟨1024, 768⟩ (some (BootFile.of versionOne.text)) =
    (true, ⟨800, 768⟩) :=
  ((settingsLoad_iff (d := versionOne) (by decide +kernel) (versionOne.parse_text (by decide))).mpr
    versionOne_short ⟨1024, 768⟩).trans (by decide)

def versionOverflow : Document := versionedDocument (bareValue "65536".toList nofun (by decide))

/-- A document of the version 65536 is loaded. -/
theorem newer_schema_loaded : newer versionOverflow = true ∧
    readSettingsFile (some (BootFile.of versionOverflow.text)) = some versionOverflow.text ∧
    parse settingsMaxTokens versionOverflow.text = .ok versionOverflow.tokens ∧
    settingsLoad ⟨1024, 768⟩ (some (BootFile.of versionOverflow.text)) = (true, ⟨800, 768⟩) ∧
    loaded versionOverflow ⟨1024, 768⟩ = (false, ⟨1024, 768⟩) := by
  have hread : readSettingsFile (some (BootFile.of versionOverflow.text)) =
      some versionOverflow.text := by decide +kernel
  have hparse := versionOverflow.parse_text (n := settingsMaxTokens) (by decide)
  refine ⟨by decide, hread, hparse, ?_, by decide⟩
  rw [settingsLoad_eq hread hparse]
  decide

end SettingsFile

end Hashx86
