import Hashx86.Settings.Jsmn

/-!
# JSON texts and their tokens

A `Value` is a JSON text with its white space, so every well-formed text is the `text` of one. It is
a little more than JSON: a primitive may be whatever the tokenizer takes for one, and a string may
hold control characters.

* `Value.tokens`: the tokens in the order of the text, each under its parent: a value under its key,
  a key under its object, an element under its array (`JSMN_PARENT_LINKS`).
* `ReadsUpTo`: what a piece of text does before a character at which a primitive ends.
* `Nested`: the tokens of a piece of text are closed, and their parents are the given one or among
  them. `close_nested`: a bracket closes the token that they are nested in.
* `Value.reads`: these tokens are made of a value. `Document.parse_text`: `jsmn_parse` makes them of
  a text with an object, and, if it succeeds, no others (`Document.tokens_of_parse`).
-/

namespace Hashx86

namespace Jsmn

/-! ### Texts -/

/-- White space. -/
structure Space where
  text : List Char
  space : ∀ c ∈ text, isSpace c = true

/-- A number, `true`, `false` or `null`. -/
structure Bare where
  text : List Char
  ne_nil : text ≠ []
  bare : ∀ c ∈ text, isBare c = true

/-- A character of a string, as it is written. -/
inductive Piece where
  | plain (c : Char) (h : isPlain c = true)
  | escape (c : Char) (h : c ∈ ['"', '/', '\\', 'b', 'f', 'r', 'n', 't'])
  | unicode (a b c d : Char) (h : ∀ x ∈ [a, b, c, d], isHex x = true)

def Piece.text : Piece → List Char
  | .plain c _ => [c]
  | .escape c _ => ['\\', c]
  | .unicode a b c d _ => ['\\', 'u', a, b, c, d]

/-- A string, and its text between the quotes. -/
structure Str where
  pieces : List Piece

def Str.text (s : Str) : List Char := s.pieces.flatMap Piece.text

/-- A key with its colon. -/
structure Label where
  key : Str
  before : Space
  after : Space

def Label.text (l : Label) : List Char :=
  '"' :: (l.key.text ++ ['"']) ++ l.before.text ++ [':'] ++ l.after.text

mutual

inductive Value where
  | primitive (s : Bare)
  | string (s : Str)
  | emptyArray (w : Space)
  | array (w : Space) (es : Elements)
  | emptyObject (w : Space)
  | object (w : Space) (ms : Members)

/-- The elements of an array; white space follows an element and a comma. -/
inductive Elements where
  | one (v : Value) (w : Space)
  | more (v : Value) (w w' : Space) (rest : Elements)

/-- The members of an object. -/
inductive Members where
  | one (l : Label) (v : Value) (w : Space)
  | more (l : Label) (v : Value) (w w' : Space) (rest : Members)

end

mutual

def Value.text : Value → List Char
  | .primitive s => s.text
  | .string s => '"' :: (s.text ++ ['"'])
  | .emptyArray w => ['['] ++ w.text ++ [']']
  | .array w es => ['['] ++ w.text ++ es.text ++ [']']
  | .emptyObject w => ['\x7b'] ++ w.text ++ ['\x7d']
  | .object w ms => ['\x7b'] ++ w.text ++ ms.text ++ ['\x7d']

def Elements.text : Elements → List Char
  | .one v w => v.text ++ w.text
  | .more v w w' rest => v.text ++ w.text ++ [','] ++ w'.text ++ rest.text

def Members.text : Members → List Char
  | .one l v w => l.text ++ v.text ++ w.text
  | .more l v w w' rest => l.text ++ v.text ++ w.text ++ [','] ++ w'.text ++ rest.text

end

def Value.kind : Value → Kind
  | .primitive _ => .primitive
  | .string _ => .string
  | .emptyArray _ | .array _ _ => .array
  | .emptyObject _ | .object _ _ => .object

mutual

/-- The number of tokens. -/
def Value.size : Value → Nat
  | .primitive _ | .string _ | .emptyArray _ | .emptyObject _ => 1
  | .array _ es => es.size + 1
  | .object _ ms => ms.size + 1

def Elements.size : Elements → Nat
  | .one v _ => v.size
  | .more v _ _ rest => v.size + rest.size

def Members.size : Members → Nat
  | .one _ v _ => v.size + 1
  | .more _ v _ _ rest => v.size + 1 + rest.size

end

mutual

/-- The tokens of a value after the text `done`, the first of which has the number `base`. -/
def Value.tokens : Value → (done : List Char) → (parent : Option Nat) → (base : Nat) → List Token
  | .primitive s, done, parent, _ => [spanning .primitive done s.text parent]
  | .string s, done, parent, _ => [spanning .string (done ++ ['"']) s.text parent]
  | .emptyArray w, done, parent, _ => [spanning .array done (Value.emptyArray w).text parent]
  | .array w es, done, parent, base => spanning .array done (Value.array w es).text parent ::
      es.tokens (done ++ (['['] ++ w.text)) base (base + 1)
  | .emptyObject w, done, parent, _ => [spanning .object done (Value.emptyObject w).text parent]
  | .object w ms, done, parent, base => spanning .object done (Value.object w ms).text parent ::
      ms.tokens (done ++ (['\x7b'] ++ w.text)) base (base + 1)

def Elements.tokens : Elements → (done : List Char) → (parent base : Nat) → List Token
  | .one v _, done, parent, base => v.tokens done (some parent) base
  | .more v w w' rest, done, parent, base => v.tokens done (some parent) base ++
      rest.tokens (done ++ (v.text ++ w.text ++ [','] ++ w'.text)) parent (base + v.size)

def Members.tokens : Members → (done : List Char) → (parent base : Nat) → List Token
  | .one l v _, done, parent, base =>
      spanning .string (done ++ ['"']) l.key.text (some parent) ::
        v.tokens (done ++ l.text) (some base) (base + 1)
  | .more l v w w' rest, done, parent, base =>
      spanning .string (done ++ ['"']) l.key.text (some parent) ::
        v.tokens (done ++ l.text) (some base) (base + 1) ++
        rest.tokens (done ++ (l.text ++ v.text ++ w.text ++ [','] ++ w'.text)) parent
          (base + (v.size + 1))

end

mutual

theorem Value.length_tokens : ∀ (v : Value) (done : List Char) (parent : Option Nat) (base : Nat),
    (v.tokens done parent base).length = v.size
  | .primitive _, _, _, _ => by simp [Value.tokens, Value.size]
  | .string _, _, _, _ => by simp [Value.tokens, Value.size]
  | .emptyArray _, _, _, _ => by simp [Value.tokens, Value.size]
  | .array _ es, _, _, _ => by simp [Value.tokens, Value.size, es.length_tokens]
  | .emptyObject _, _, _, _ => by simp [Value.tokens, Value.size]
  | .object _ ms, _, _, _ => by simp [Value.tokens, Value.size, ms.length_tokens]

theorem Elements.length_tokens : ∀ (es : Elements) (done : List Char) (parent base : Nat),
    (es.tokens done parent base).length = es.size
  | .one v _, _, _, _ => by simp [Elements.tokens, Elements.size, v.length_tokens]
  | .more v _ _ rest, _, _, _ => by
    simp [Elements.tokens, Elements.size, v.length_tokens, rest.length_tokens]

theorem Members.length_tokens : ∀ (ms : Members) (done : List Char) (parent base : Nat),
    (ms.tokens done parent base).length = ms.size
  | .one _ v _, _, _, _ => by simp [Members.tokens, Members.size, v.length_tokens]
  | .more _ v _ _ rest, _, _, _ => by
    simp [Members.tokens, Members.size, v.length_tokens, rest.length_tokens]
    omega

end

attribute [simp] Value.length_tokens Elements.length_tokens Members.length_tokens

theorem Value.size_pos (v : Value) : 0 < v.size := by cases v <;> simp [Value.size]

/-! ### Reading up to the end of a primitive -/

/-- `Reads` before a character at which a primitive ends. -/
def ReadsUpTo (n : Nat) (done s : List Char) (q q' : Option Nat × List Token) : Prop :=
  ∀ c rest, endsPrimitive c = true →
    loop n { pos := done.length, toksuper := q.1, tokens := q.2 } (s ++ c :: rest) =
      loop n { pos := (done ++ s).length, toksuper := q'.1, tokens := q'.2 } (c :: rest)

section rules

variable {n : Nat} {done s t w : List Char} {q q' q'' : Option Nat × List Token} {i j : Option Nat}
  {ts : List Token} {c : Char}

theorem Reads.upTo (h : Reads n done s q q') : ReadsUpTo n done s q q' := fun c rest _ => h (c :: rest)

theorem isSpace_ends (h : isSpace c = true) : endsPrimitive c = true := by
  unfold isSpace at h
  unfold endsPrimitive
  simp at h ⊢
  tauto

/-- White space may follow. -/
theorem ReadsUpTo.spaces (h : ReadsUpTo n done s q q') (hw : ∀ c ∈ w, isSpace c = true) :
    ReadsUpTo n done (s ++ w) q q' := by
  intro c rest hc
  cases w with
  | nil => simpa using h c rest hc
  | cons d w =>
    have hread := h d (w ++ c :: rest) (isSpace_ends (hw d List.mem_cons_self))
    rw [List.append_assoc, List.cons_append, hread, ← List.cons_append, reads_spaces hw,
      List.append_assoc]

theorem ReadsUpTo.append (hs : ReadsUpTo n done s q q') (hc : endsPrimitive c = true)
    (ht : Reads n (done ++ s) (c :: t) q' q'') : Reads n done (s ++ c :: t) q q'' := by
  intro rest
  rw [List.append_assoc, List.cons_append, hs c (t ++ rest) hc, ← List.cons_append, ht,
    List.append_assoc]

theorem Reads.append_upTo (hs : Reads n done s q q') (ht : ReadsUpTo n (done ++ s) t q' q'') :
    ReadsUpTo n done (s ++ t) q q'' := by
  intro c rest hc
  rw [List.append_assoc, hs, ht c rest hc, List.append_assoc]

theorem reads_bare (b : Bare) (hn : ts.length < n) :
    ReadsUpTo n done b.text (i, ts) (i, ts ++ [spanning .primitive done b.text i]) := by
  intro c rest hc
  obtain ⟨d, s, hd⟩ := List.exists_cons_of_ne_nil b.ne_nil
  have hbare : isBare d = true := b.bare d (hd ▸ List.mem_cons_self)
  have hnul : d ≠ '\x00' := by
    rintro rfl
    exact absurd hbare (by decide)
  have hstep : step n { pos := done.length, toksuper := i, tokens := ts } d (s ++ c :: rest) =
      .ok ({
        pos := (done ++ b.text).length
        toksuper := i
        tokens := ts ++ [spanning .primitive done b.text i] }, c :: rest) := by
    rw [step_bare hbare, parsePrimitive, ← List.cons_append, ← hd, primitiveEnd_bare b.bare hc]
    change (Parser.alloc n _ _ >>= _) = _
    rw [alloc_room hn, spanning, List.length_append]
    rfl
  rw [show b.text ++ c :: rest = d :: (s ++ c :: rest) by rw [hd]; rfl, loop_step hnul hstep]

theorem stringEnd_piece (p : Piece) (pos : Nat) (rest : List Char) :
    stringEnd 0 pos (p.text ++ rest) = stringEnd 0 (pos + p.text.length) rest := by
  cases p with
  | plain c h =>
    obtain ⟨hnul, hquote, hback⟩ := of_decide_eq_true h
    unfold Piece.text
    rw [List.singleton_append, stringEnd.eq_def]
    simp [hnul, hquote, hback]
  | escape c h =>
    unfold Piece.text
    rw [List.cons_append, List.singleton_append, stringEnd.eq_def]
    simp only [h]
    simp
  | unicode a b c d h =>
    have hhex : ∀ x, isHex x = true → x ≠ '\x00' := by
      rintro x hx rfl
      exact absurd hx (by decide)
    have hdigit : ∀ k pos x rest, x ∈ [a, b, c, d] →
        stringEnd (k + 1) pos (x :: rest) = stringEnd k (pos + 1) rest := fun k pos x rest hx => by
      rw [stringEnd.eq_def]
      simp [h x hx, hhex x (h x hx)]
    have hopen : stringEnd 0 pos ('\\' :: 'u' :: a :: b :: c :: d :: rest) =
        stringEnd 4 (pos + 2) (a :: b :: c :: d :: rest) := by
      rw [stringEnd.eq_def]
      simp
    unfold Piece.text
    simp only [List.cons_append, List.nil_append]
    rw [hopen, hdigit, hdigit, hdigit, hdigit]
    · rfl
    all_goals simp

theorem stringEnd_str (s : Str) (pos : Nat) (rest : List Char) :
    stringEnd 0 pos (s.text ++ '"' :: rest) = .ok (pos + s.text.length, rest) := by
  obtain ⟨ps⟩ := s
  unfold Str.text
  induction ps generalizing pos with
  | nil =>
    rw [stringEnd.eq_def]
    simp
  | cons p ps ih =>
    rw [List.flatMap_cons, List.append_assoc, stringEnd_piece]
    rw [ih, List.length_append, Nat.add_assoc]

theorem reads_str (s : Str) (hn : ts.length < n) :
    Reads n done ('"' :: (s.text ++ ['"'])) (i, ts)
      (i, ts ++ [spanning .string (done ++ ['"']) s.text i]) := by
  intro rest
  have hlen : (done ++ '"' :: (s.text ++ ['"'])).length = done.length + 1 + s.text.length + 1 := by
    simp only [List.length_append, List.length_cons, List.length_nil]
    omega
  rw [List.cons_append, List.append_assoc, List.singleton_append, hlen]
  refine loop_step (by decide) ?_
  rw [step, if_neg (by decide), if_neg (by decide), if_pos rfl, parseString, stringEnd_str]
  change (Parser.alloc n _ _ >>= _) = _
  rw [alloc_room hn, spanning, List.length_append]
  rfl

/-- A key with its colon: the key is the parent of what follows. -/
theorem reads_label (l : Label) (hn : ts.length < n) : Reads n done l.text (i, ts)
    (some ts.length, ts ++ [spanning .string (done ++ ['"']) l.key.text i]) :=
  (((reads_str l.key hn).append (reads_spaces l.before.space)).append (reads_colon _)).append
    (reads_spaces l.after.space)

/-- A comma with white space around it. -/
theorem ReadsUpTo.comma (h : ReadsUpTo n done s q (i, ts)) (w w' : Space)
    (hj : afterComma ⟨0, i, ts⟩ = j) :
    Reads n done (s ++ w.text ++ [','] ++ w'.text) q (j, ts) := by
  subst hj
  rw [List.append_assoc (s ++ w.text)]
  exact (h.spaces w.space).append rfl (reads_comma.append (reads_spaces w'.space))

end rules

/-! ### Brackets -/

/-- The tokens from number `base` on are closed; the parent of each is `parent` or one of those
before it. -/
def Nested (parent : Option Nat) (base : Nat) (ts : List Token) : Prop :=
  ∀ x t, ts[x]? = some t → t.stop ≠ none ∧
    (t.parent = parent ∨ ∃ p, t.parent = some p ∧ base ≤ p ∧ p < base + x)

section nested

variable {parent : Option Nat} {base : Nat} {ts ts' : List Token}

theorem Nested.append (h : Nested parent base ts) (h' : Nested parent (base + ts.length) ts') :
    Nested parent base (ts ++ ts') := by
  intro x t ht
  rw [List.getElem?_append] at ht
  split at ht
  · exact h x t ht
  · obtain ⟨hstop, hp | ⟨p, hp, hle, hlt⟩⟩ := h' _ t ht
    · exact ⟨hstop, .inl hp⟩
    · exact ⟨hstop, .inr ⟨p, hp, by omega, by omega⟩⟩

theorem Nested.cons {type : Kind} {done s : List Char} (h : Nested (some base) (base + 1) ts) :
    Nested parent base (spanning type done s parent :: ts) := by
  intro x u hu
  cases x with
  | zero =>
    obtain rfl := Option.some.inj hu
    exact ⟨nofun, .inl rfl⟩
  | succ x =>
    obtain ⟨hstop', hp' | ⟨p, hp', hle, hlt⟩⟩ := h x u hu
    · exact ⟨hstop', .inr ⟨base, hp', Nat.le_refl _, by omega⟩⟩
    · exact ⟨hstop', .inr ⟨p, hp', by omega, by omega⟩⟩

theorem nested_nil : Nested parent base [] := by
  intro x t ht
  simp at ht

theorem nested_spanning {type : Kind} {done s : List Char} :
    Nested parent base [spanning type done s parent] := .cons nested_nil

end nested

mutual

theorem Value.nested : ∀ (v : Value) (done : List Char) (parent : Option Nat) (base : Nat),
    Nested parent base (v.tokens done parent base)
  | .primitive _, _, _, _ => nested_spanning
  | .string _, _, _, _ => nested_spanning
  | .emptyArray _, _, _, _ => nested_spanning
  | .array _ es, _, _, base => .cons (es.nested _ base (base + 1))
  | .emptyObject _, _, _, _ => nested_spanning
  | .object _ ms, _, _, base => .cons (ms.nested _ base (base + 1))

theorem Elements.nested : ∀ (es : Elements) (done : List Char) (parent base : Nat),
    Nested (some parent) base (es.tokens done parent base)
  | .one v _, done, parent, base => v.nested done (some parent) base
  | .more v _ _ rest, done, parent, base =>
    (v.nested done (some parent) base).append (by
      rw [v.length_tokens]
      exact rest.nested _ parent _)

theorem Members.nested : ∀ (ms : Members) (done : List Char) (parent base : Nat),
    Nested (some parent) base (ms.tokens done parent base)
  | .one _ v _, _, _, base => .cons (v.nested _ (some base) (base + 1))
  | .more _ v _ _ rest, _, parent, base =>
    (Nested.cons (v.nested _ (some base) (base + 1))).append (by
      rw [List.length_cons, v.length_tokens]
      exact rest.nested _ parent _)

end

/-- An opening bracket, its closing one and what they enclose. -/
def Bracket (c c' : Char) (type : Kind) : Prop :=
  (c = '\x7b' ∧ c' = '\x7d' ∧ type = .object) ∨ (c = '[' ∧ c' = ']' ∧ type = .array)

section brackets

variable {n : Nat} {done s : List Char} {i j : Option Nat} {ts mid : List Token} {c c' : Char}
  {type : Kind}

theorem reads_opening (hb : Bracket c c' type) (hn : ts.length < n) :
    Reads n done [c] (i, ts) (some ts.length, ts ++ [opening type done i]) := by
  have hround : ∀ rest, step n { pos := done.length, toksuper := i, tokens := ts } c rest = .ok ({
      pos := done.length + 1
      toksuper := some ts.length
      tokens := ts ++ [opening type done i] }, rest) := fun rest => by
    rcases hb with ⟨rfl, -, rfl⟩ | ⟨rfl, -, rfl⟩
    · rw [step, if_pos (Or.inl rfl)]
      dsimp only
      rw [alloc_room hn]
      rfl
    · rw [step, if_pos (Or.inr rfl)]
      dsimp only
      rw [alloc_room hn]
      rfl
  refine reads_char ?_ hround
  rcases hb with ⟨rfl, -⟩ | ⟨rfl, -⟩ <;> decide

/-- From a token on which the nesting rests, `close` climbs to the one that is open. -/
theorem close_nested (pos : Nat) {t : Token} (ht : t.stop = none) (htype : t.type = type)
    (hmid : Nested (some ts.length) (ts.length + 1) mid) (fuel : Nat) : ∀ k ≤ mid.length,
    k < fuel → close type ⟨pos, j, ts ++ t :: mid⟩ fuel (ts.length + k) =
      .ok ⟨pos, t.parent, ts ++ { t with stop := some (pos + 1) } :: mid⟩ := by
  induction fuel with
  | zero => exact fun k _ hk => absurd hk (Nat.not_lt_zero k)
  | succ fuel ih =>
    intro k hle hk
    rw [close]
    cases k with
    | zero =>
      have hget : (ts ++ t :: mid)[ts.length + 0]? = some t := by simp
      simp only [hget]
      rw [if_pos ht, if_neg (not_not_intro htype)]
      simp
    | succ k =>
      obtain ⟨u, hu⟩ : ∃ u, mid[k]? = some u := ⟨_, List.getElem?_eq_getElem (by omega)⟩
      have hget : (ts ++ t :: mid)[ts.length + (k + 1)]? = some u := by
        rw [List.getElem?_append_right (by omega), Nat.add_sub_cancel_left, List.getElem?_cons_succ,
          hu]
      simp only [hget]
      obtain ⟨hstop, hp⟩ := hmid k u hu
      rw [if_neg hstop]
      -- The parent is the open token or one between it and this one.
      obtain ⟨p, hp, hlow, hhigh⟩ : ∃ p, u.parent = some p ∧ ts.length ≤ p ∧
          p ≤ ts.length + k := by
        rcases hp with hp | ⟨p, hp, hlow, hhigh⟩
        · exact ⟨ts.length, hp, Nat.le_refl _, Nat.le_add_right ..⟩
        · exact ⟨p, hp, by omega, by omega⟩
      simp only [hp]
      have hclose := ih (p - ts.length) (by omega) (by omega)
      rwa [Nat.add_sub_cancel' hlow] at hclose

theorem reads_closing (hb : Bracket c c' type) {t : Token} (ht : t.stop = none)
    (htype : t.type = type) (hmid : Nested (some ts.length) (ts.length + 1) mid) :
    Reads n done [c'] (j, ts ++ t :: mid)
      (t.parent, ts ++ { t with stop := some (done.length + 1) } :: mid) := by
  have hlen : (ts ++ t :: mid).length - 1 = ts.length + mid.length := by
    simp only [List.length_append, List.length_cons]
    omega
  have hclose := close_nested (j := j) done.length ht htype hmid (ts ++ t :: mid).length mid.length
    (Nat.le_refl _) (by simp only [List.length_append, List.length_cons]; omega)
  have hround : ∀ rest, step n { pos := done.length, toksuper := j, tokens := ts ++ t :: mid } c'
      rest = .ok ({
        pos := done.length + 1
        toksuper := t.parent
        tokens := ts ++ { t with stop := some (done.length + 1) } :: mid }, rest) := fun rest => by
    rcases hb with ⟨-, rfl, rfl⟩ | ⟨-, rfl, rfl⟩
    · rw [step, if_neg (by decide), if_pos (Or.inl rfl), if_pos rfl]
      dsimp only
      rw [hlen, hclose]
      rfl
    · rw [step, if_neg (by decide), if_pos (Or.inr rfl), if_neg (by decide)]
      dsimp only
      rw [hlen, hclose]
      rfl
  refine reads_char ?_ hround
  rcases hb with ⟨-, rfl, -⟩ | ⟨-, rfl, -⟩ <;> decide

/-- What is between two brackets becomes nested in their token. -/
theorem reads_bracketed (hb : Bracket c c' type) (hn : ts.length < n) (w : Space)
    (hs : ReadsUpTo n (done ++ ([c] ++ w.text)) s (some ts.length, ts ++ [opening type done i])
      (j, ts ++ [opening type done i] ++ mid))
    (hmid : Nested (some ts.length) (ts.length + 1) mid) :
    Reads n done ([c] ++ w.text ++ s ++ [c']) (i, ts)
      (i, ts ++ spanning type done ([c] ++ w.text ++ s ++ [c']) i :: mid) := by
  have hends : endsPrimitive c' = true := by
    rcases hb with ⟨-, rfl, -⟩ | ⟨-, rfl, -⟩ <;> rfl
  have hopen : Reads n done ([c] ++ w.text) (i, ts) (some ts.length, ts ++ [opening type done i]) :=
    (reads_opening hb hn).append (reads_spaces w.space)
  have hstop : spanning type done ([c] ++ w.text ++ s ++ [c']) i =
      { opening type done i with stop := some ((done ++ ([c] ++ w.text ++ s)).length + 1) } := by
    unfold spanning opening
    simp only [List.length_append, List.length_singleton]
    rw [Nat.add_assoc done.length]
  rw [List.append_assoc ts, List.singleton_append] at hs
  rw [hstop]
  exact (hopen.append_upTo hs).append hends (reads_closing hb rfl rfl hmid)

/-- Nothing but white space between the brackets. -/
theorem reads_empty (hb : Bracket c c' type) (hn : ts.length < n) (w : Space) :
    Reads n done ([c] ++ w.text ++ [c']) (i, ts)
      (i, ts ++ [spanning type done ([c] ++ w.text ++ [c']) i]) := by
  have h : Reads n done ([c] ++ w.text ++ [] ++ [c']) (i, ts)
      (i, ts ++ [spanning type done ([c] ++ w.text ++ [] ++ [c']) i]) :=
    reads_bracketed hb hn w (by rw [List.append_nil]; exact reads_nil.upTo) nested_nil
  rwa [List.append_nil] at h

end brackets

/-! ### The tokens of a text -/

section values

variable {n : Nat}

/-- The members are read in the object, and a key is the parent after them. -/
def Members.ReadIn (n : Nat) (ms : Members) : Prop :=
  ∀ (done : List Char) (ts : List Token) (o : Nat) (t : Token), ts.length + ms.size ≤ n →
    ts[o]? = some t → t.type = .object →
    ∃ k, ReadsUpTo n done ms.text (some o, ts) (k, ts ++ ms.tokens done o ts.length)

theorem reads_object {ms : Members} {done : List Char} {i : Option Nat} {ts : List Token} (w : Space)
    (hn : ts.length + (ms.size + 1) ≤ n) (hms : ms.ReadIn n) :
    Reads n done (Value.object w ms).text (i, ts)
      (i, ts ++ (Value.object w ms).tokens done i ts.length) := by
  obtain ⟨k, h⟩ := hms (done ++ (['\x7b'] ++ w.text)) (ts ++ [opening .object done i]) ts.length _
    (by rw [List.length_append, List.length_singleton]; omega) List.getElem?_concat_length rfl
  rw [List.length_append, List.length_singleton] at h
  exact reads_bracketed (.inl ⟨rfl, rfl, rfl⟩) (by omega) w h (ms.nested _ _ _)

mutual

theorem Value.reads : ∀ (v : Value) (done : List Char) (i : Option Nat) (ts : List Token),
    ts.length + v.size ≤ n →
    ReadsUpTo n done v.text (i, ts) (i, ts ++ v.tokens done i ts.length)
  | .primitive s, done, i, ts, hn => reads_bare s hn
  | .string s, done, i, ts, hn => (reads_str s hn).upTo
  | .emptyArray w, done, i, ts, hn => (reads_empty (.inr ⟨rfl, rfl, rfl⟩) hn w).upTo
  | .array w es, done, i, ts, hn => by
    unfold Value.size at hn
    have h := es.reads (done ++ (['['] ++ w.text)) (ts ++ [opening .array done i]) ts.length _
      (by rw [List.length_append, List.length_singleton]; omega) List.getElem?_concat_length rfl
    rw [List.length_append, List.length_singleton] at h
    exact (reads_bracketed (.inr ⟨rfl, rfl, rfl⟩) (by omega) w h (es.nested _ _ _)).upTo
  | .emptyObject w, done, i, ts, hn => (reads_empty (.inl ⟨rfl, rfl, rfl⟩) hn w).upTo
  | .object w ms, done, i, ts, hn => (reads_object w hn ms.reads).upTo

theorem Elements.reads : ∀ (es : Elements) (done : List Char) (ts : List Token) (a : Nat) (t : Token),
    ts.length + es.size ≤ n → ts[a]? = some t → t.type = .array →
    ReadsUpTo n done es.text (some a, ts) (some a, ts ++ es.tokens done a ts.length)
  | .one v w, done, ts, a, _, hn, _, _ => (v.reads done (some a) ts hn).spaces w.space
  | .more v w w' rest, done, ts, a, t, hn, ht, htype => by
    unfold Elements.size at hn
    have ht' : (ts ++ v.tokens done (some a) ts.length)[a]? = some t := by
      rw [List.getElem?_append_left (List.getElem?_eq_some_iff.mp ht).1, ht]
    have hcomma : afterComma ⟨0, some a, ts ++ v.tokens done (some a) ts.length⟩ = some a := by
      simp only [afterComma, ht']
      rw [if_neg fun h => h.1 htype]
    have hrest := rest.reads (done ++ (v.text ++ w.text ++ [','] ++ w'.text))
      (ts ++ v.tokens done (some a) ts.length) a t
      (by rw [List.length_append, v.length_tokens]; omega) ht' htype
    rw [List.length_append, v.length_tokens] at hrest
    unfold Elements.text Elements.tokens
    rw [← List.append_assoc ts]
    exact ((v.reads done (some a) ts (by omega)).comma w w' hcomma).append_upTo hrest

theorem Members.reads : ∀ ms : Members, ms.ReadIn n
  | .one l v w, done, ts, o, _, hn, _, _ => by
    unfold Members.size at hn
    have hv := v.reads (done ++ l.text) (some ts.length)
      (ts ++ [spanning .string (done ++ ['"']) l.key.text (some o)])
      (by rw [List.length_append, List.length_singleton]; omega)
    rw [List.length_append, List.length_singleton, List.append_assoc] at hv
    exact ⟨_, ((reads_label l (by omega)).append_upTo hv).spaces w.space⟩
  | .more l v w w' rest, done, ts, o, t, hn, ht, htype => by
    unfold Members.size at hn
    obtain ⟨key, hkey⟩ : ∃ key, key = spanning .string (done ++ ['"']) l.key.text (some o) := ⟨_, rfl⟩
    have hv := v.reads (done ++ l.text) (some ts.length) (ts ++ [key])
      (by rw [List.length_append, List.length_singleton]; omega)
    rw [List.length_append, List.length_singleton, List.append_assoc, List.singleton_append] at hv
    obtain ⟨own, hown⟩ : ∃ own, own = ts ++ key :: v.tokens (done ++ l.text) (some ts.length)
        (ts.length + 1) := ⟨_, rfl⟩
    have hlen : own.length = ts.length + (v.size + 1) := by
      rw [hown, List.length_append, List.length_cons, v.length_tokens]
    rw [← hown] at hv
    -- After the value the key is the parent still; the comma goes up to the object.
    have hcomma : afterComma ⟨0, some ts.length, own⟩ = some o := by
      have hget : own[ts.length]? = some key := by
        rw [hown, List.getElem?_append_right (Nat.le_refl _), Nat.sub_self]
        rfl
      simp only [afterComma, hget]
      rw [hkey]
      exact if_pos ⟨nofun, nofun⟩
    obtain ⟨k, hrest⟩ := rest.reads (done ++ (l.text ++ v.text ++ w.text ++ [','] ++ w'.text)) own o t
      (by rw [hlen]; omega)
      (by rw [hown, List.getElem?_append_left (List.getElem?_eq_some_iff.mp ht).1, ht]) htype
    rw [hlen] at hrest
    have hlabel : Reads n done l.text (some o, ts) (some ts.length, ts ++ [key]) :=
      hkey ▸ reads_label l (by omega)
    refine ⟨k, ?_⟩
    unfold Members.text Members.tokens
    rw [← hkey, ← List.append_assoc ts, ← hown]
    exact ((hlabel.append_upTo hv).comma w w' hcomma).append_upTo hrest

end

end values

/-! ### The number of tokens -/

section budget

variable {n N : Nat}

theorem alloc_mono (hN : n ≤ N) {p p' : Parser} {t : Token} (h : p.alloc n t = .ok p') :
    p.alloc N t = .ok p' := by
  unfold Parser.alloc at h ⊢
  split at h
  · cases h
  · rwa [if_neg (by omega)]

theorem bind_mono {α β : Type} {x y : Except Error α} {f g : α → Except Error β} {b : β}
    (h : x >>= f = .ok b) (hx : ∀ a, x = .ok a → y = .ok a)
    (hf : ∀ a, f a = .ok b → g a = .ok b) : y >>= g = .ok b := by
  obtain ⟨a, ha, hb⟩ := bind_ok h
  rw [hx a ha]
  exact hf a hb

theorem step_mono (hN : n ≤ N) {p : Parser} {c : Char} {rest : List Char}
    {r : Parser × List Char} (h : step n p c rest = .ok r) : step N p c rest = .ok r := by
  unfold step at h ⊢
  split at h
  · rw [if_pos ‹_›]
    exact bind_mono h (fun _ => alloc_mono hN) fun _ => id
  rw [if_neg ‹_›]
  split at h
  · rw [if_pos ‹_›]
    exact h
  rw [if_neg ‹_›]
  split at h
  · rw [if_pos ‹_›]
    exact bind_mono h (fun _ => id) fun _ h => bind_mono h (fun _ => alloc_mono hN) fun _ => id
  rw [if_neg ‹_›]
  split at h
  · rw [if_pos ‹_›]
    exact h
  rw [if_neg ‹_›]
  split at h
  · rw [if_pos ‹_›]
    exact h
  rw [if_neg ‹_›]
  split at h
  · rw [if_pos ‹_›]
    exact h
  rw [if_neg ‹_›]
  exact bind_mono h (fun _ => id) fun _ h => bind_mono h (fun _ => alloc_mono hN) fun _ => id

theorem loop_mono (hN : n ≤ N) {p q : Parser} {js : List Char} (h : loop n p js = .ok q) :
    loop N p js = .ok q := by
  induction p, js using loop.induct n with
  | case1 p =>
    rw [loop] at h ⊢
    exact h
  | case2 p rest =>
    rw [loop, dif_pos rfl] at h ⊢
    exact h
  | case3 p c rest hc e he =>
    rw [loop, dif_neg hc] at h
    split at h
    · cases h
    · next hok => rw [he] at hok; cases hok
  | case4 p c rest hc p' rest' hok ih =>
    rw [loop_step hc hok] at h
    rw [loop_step hc (step_mono hN hok)]
    exact ih h

/-- What is parsed with few tokens is parsed with more. -/
theorem parse_mono (hN : n ≤ N) {js : List Char} {ts : List Token} (h : parse n js = .ok ts) :
    parse N js = .ok ts :=
  bind_mono h (fun _ => loop_mono hN) fun _ => id

end budget

/-! ### Documents -/

/-- A text with an object and white space around it. -/
structure Document where
  before : Space
  root : Value
  object : root.kind = .object
  after : Space

def Document.text (d : Document) : List Char := d.before.text ++ d.root.text ++ d.after.text

def Document.tokens (d : Document) : List Token := d.root.tokens d.before.text none 0

theorem Document.reads {n : Nat} (d : Document) (hn : d.root.size ≤ n) :
    Reads n [] d.text (none, []) (none, d.tokens) := by
  obtain ⟨before, root, hobject, after⟩ := d
  have hroot : Reads n before.text root.text (none, []) (none, root.tokens before.text none 0) := by
    cases root with
    | primitive | string | emptyArray | array => cases hobject
    | emptyObject w => exact reads_empty (.inl ⟨rfl, rfl, rfl⟩) hn w
    | object w ms =>
      refine reads_object w ?_ ms.reads
      rw [List.length_nil, Nat.zero_add]
      exact hn
  exact ((reads_spaces before.space).append hroot).append (reads_spaces after.space)

/-- Where the tokens are enough, `jsmn_parse` makes these. -/
theorem Document.parse_text {n : Nat} (d : Document) (hn : d.root.size ≤ n) :
    parse n d.text = .ok d.tokens := by
  refine parse_of_reads (d.reads hn) ?_
  rw [List.any_eq_false]
  intro t ht
  obtain ⟨x, hx, rfl⟩ := List.mem_iff_getElem.mp ht
  have hstop := (d.root.nested d.before.text none 0 x _ (List.getElem?_eq_getElem hx)).1
  exact fun hnone => hstop (of_decide_eq_true hnone)

theorem Document.tokens_of_parse {n : Nat} (d : Document) {ts : List Token}
    (h : parse n d.text = .ok ts) : ts = d.tokens := by
  have hmore := parse_mono (Nat.le_max_left n d.root.size) h
  rw [d.parse_text (Nat.le_max_right ..)] at hmore
  exact (Except.ok.inj hmore).symm

end Jsmn

end Hashx86
