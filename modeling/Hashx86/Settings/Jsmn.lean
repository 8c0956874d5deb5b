import Mathlib.Data.List.Basic

/-!
# The tokenizer (`third_party/jsmn/jsmn.h`)

As `core/settings.cpp` builds it: with `JSMN_PARENT_LINKS`, without `JSMN_STRICT`, and always with
an array of `n` tokens. The text is read from the left: `rest` is `js` from `parser->pos` on. A
character is one of code below 256, and a position of -1 is `none`.

* `parse` is `jsmn_parse`; `step` is one round of its loop.
* `Reads`: what a piece of text does to the parser, whatever follows it. `reads_string`,
  `reads_primitive`, `reads_open`, `reads_close`, `reads_colon` and `reads_comma` are the rules,
  and `Reads.append` composes them.
-/

namespace Hashx86

namespace Jsmn

/-- `jsmntype_t`. -/
inductive Kind where
  | object
  | array
  | string
  | primitive
  deriving DecidableEq, Repr

/-- `jsmnerr`. -/
inductive Error where
  | nomem
  | inval
  | part
  deriving DecidableEq, Repr

/-- `jsmntok_t`; `stop` is its `end`. -/
structure Token where
  type : Kind
  start : Nat
  stop : Option Nat
  parent : Option Nat
  deriving DecidableEq, Repr

/-- `jsmn_parser` and the tokens allocated so far: `toknext` is their number. -/
structure Parser where
  pos : Nat
  toksuper : Option Nat
  tokens : List Token

/-- `jsmn_init`. -/
def init : Parser := { pos := 0, toksuper := none, tokens := [] }

/-- `jsmn_alloc_token` and `jsmn_fill_token`. -/
def Parser.alloc (n : Nat) (p : Parser) (t : Token) : Except Error Parser :=
  if n ≤ p.tokens.length then .error .nomem else .ok { p with tokens := p.tokens ++ [t] }

/-- The characters at which a primitive ends. -/
def endsPrimitive (c : Char) : Bool :=
  c ∈ [':', '\t', '\r', '\n', ' ', ',', ']', '}']

theorem alloc_room {n : Nat} {p : Parser} (h : p.tokens.length < n) (t : Token) :
    p.alloc n t = .ok { p with tokens := p.tokens ++ [t] } := if_neg (Nat.not_le.mpr h)

/-- The loop of `jsmn_parse_primitive`: the position at which the primitive ends and what is left
from there on. -/
def primitiveEnd (pos : Nat) : List Char → Except Error (Nat × List Char)
  | [] => .ok (pos, [])
  | c :: rest =>
    if c = '\x00' ∨ endsPrimitive c then .ok (pos, c :: rest)
    else if c.toNat < 32 ∨ 127 ≤ c.toNat then .error .inval
    else primitiveEnd (pos + 1) rest

/-- `jsmn_parse_primitive`. The `parser->pos--` at its end undoes the `pos++` of the loop. -/
def parsePrimitive (n : Nat) (p : Parser) (rest : List Char) :
    Except Error (Parser × List Char) := do
  let (pos, rest) ← primitiveEnd p.pos rest
  let p ← p.alloc n { type := .primitive, start := p.pos, stop := some pos, parent := p.toksuper }
  return ({ p with pos := pos }, rest)

def isHex (c : Char) : Bool :=
  (48 ≤ c.toNat && c.toNat ≤ 57) || (65 ≤ c.toNat && c.toNat ≤ 70) ||
    (97 ≤ c.toNat && c.toNat ≤ 102)

/-- The loop of `jsmn_parse_string`: the position of the closing quote and what is left after it.
`hex` is the number of digits of a `\u` that may still come. -/
def stringEnd (hex pos : Nat) : List Char → Except Error (Nat × List Char)
  | [] => .error .part
  | c :: rest =>
    if c = '\x00' then .error .part
    else match hex with
      | hex + 1 => if isHex c then stringEnd hex (pos + 1) rest else .error .inval
      | 0 =>
        if c = '"' then .ok (pos, rest)
        else if c = '\\' then
          match rest with
          | [] => .error .part
          | e :: rest =>
            if e ∈ ['"', '/', '\\', 'b', 'f', 'r', 'n', 't'] then stringEnd 0 (pos + 2) rest
            else if e = 'u' then stringEnd 4 (pos + 2) rest
            else .error .inval
        else stringEnd 0 (pos + 1) rest

/-- `jsmn_parse_string`; `rest` is what follows the opening quote. -/
def parseString (n : Nat) (p : Parser) (rest : List Char) : Except Error (Parser × List Char) := do
  let (pos, rest) ← stringEnd 0 (p.pos + 1) rest
  let p ← p.alloc n { type := .string, start := p.pos + 1, stop := some pos, parent := p.toksuper }
  return ({ p with pos := pos + 1 }, rest)

/-- The loop under `}` and `]`: from token `i` up to the innermost one that is open. A parent comes
before its children, so as many rounds as there are tokens are enough. -/
def close (type : Kind) (p : Parser) : Nat → Nat → Except Error Parser
  | 0, _ => .error .inval
  | fuel + 1, i =>
    match p.tokens[i]? with
    | none => .error .inval
    | some token =>
      if token.stop = none then
        if token.type ≠ type then .error .inval
        else .ok { p with
          tokens := p.tokens.set i { token with stop := some (p.pos + 1) }
          toksuper := token.parent }
      else
        match token.parent with
        | none => if token.type ≠ type ∨ p.toksuper = none then .error .inval else .ok p
        | some j => close type p fuel j

/-- The token under which a key's next sibling goes, after a comma. -/
def afterComma (p : Parser) : Option Nat :=
  match p.toksuper with
  | none => none
  | some i =>
    match p.tokens[i]? with
    | none => none
    | some t => if t.type ≠ .array ∧ t.type ≠ .object then t.parent else some i

def isSpace (c : Char) : Bool := c ∈ ['\t', '\r', '\n', ' ']

/-- One round of the loop of `jsmn_parse`, at the character `c`. -/
def step (n : Nat) (p : Parser) (c : Char) (rest : List Char) :
    Except Error (Parser × List Char) :=
  if c = '{' ∨ c = '[' then do
    let type := if c = '{' then Kind.object else Kind.array
    let p' ← p.alloc n { type := type, start := p.pos, stop := none, parent := p.toksuper }
    return ({ p' with pos := p.pos + 1, toksuper := some p.tokens.length }, rest)
  else if c = '}' ∨ c = ']' then do
    let type := if c = '}' then Kind.object else Kind.array
    let p' ← close type p p.tokens.length (p.tokens.length - 1)
    return ({ p' with pos := p.pos + 1 }, rest)
  else if c = '"' then parseString n p rest
  else if isSpace c then .ok ({ p with pos := p.pos + 1 }, rest)
  else if c = ':' then
    let toksuper := if p.tokens = [] then none else some (p.tokens.length - 1)
    .ok ({ p with pos := p.pos + 1, toksuper := toksuper }, rest)
  else if c = ',' then .ok ({ p with pos := p.pos + 1, toksuper := afterComma p }, rest)
  else parsePrimitive n p (c :: rest)

theorem stringEnd_length : ∀ (hex pos : Nat) (rest : List Char) {pos' : Nat} {rest' : List Char},
    stringEnd hex pos rest = .ok (pos', rest') → rest'.length ≤ rest.length := by
  intro hex pos rest
  fun_induction stringEnd hex pos rest with
  | case1 | case2 | case4 | case6 | case9 => nofun
  | case3 _ _ _ _ _ _ ih | case10 _ _ _ _ _ _ ih => exact fun h => Nat.le_succ_of_le (ih h)
  | case7 _ _ _ _ _ _ ih | case8 _ _ _ _ _ ih =>
    exact fun h => Nat.le_succ_of_le (Nat.le_succ_of_le (ih h))
  | case5 =>
    intro pos' rest' h
    cases h
    exact Nat.le_succ _

theorem primitiveEnd_length : ∀ (pos : Nat) (rest : List Char) {pos' : Nat} {rest' : List Char},
    primitiveEnd pos rest = .ok (pos', rest') → rest'.length ≤ rest.length := by
  intro pos rest
  fun_induction primitiveEnd pos rest with
  | case1 | case2 =>
    intro pos' rest' h
    cases h
    exact Nat.le_refl _
  | case3 => nofun
  | case4 pos c rest hc hr ih => exact fun h => Nat.le_succ_of_le (ih h)

theorem bind_ok {α β : Type} {x : Except Error α} {f : α → Except Error β} {b : β}
    (h : x >>= f = .ok b) : ∃ a, x = .ok a ∧ f a = .ok b := by
  cases x with
  | error e => cases h
  | ok a => exact ⟨a, rfl, h⟩

theorem parseString_length {n : Nat} {p p' : Parser} {rest rest' : List Char}
    (h : parseString n p rest = .ok (p', rest')) : rest'.length ≤ rest.length := by
  obtain ⟨⟨pos, left⟩, hend, h⟩ := bind_ok h
  obtain ⟨q, -, h⟩ := bind_ok h
  cases h
  exact stringEnd_length 0 _ rest hend

theorem parsePrimitive_length {n : Nat} {p p' : Parser} {c : Char} {rest rest' : List Char}
    (hc : ¬(c = '\x00' ∨ endsPrimitive c)) (h : parsePrimitive n p (c :: rest) = .ok (p', rest')) :
    rest'.length ≤ rest.length := by
  obtain ⟨⟨pos, left⟩, hend, h⟩ := bind_ok h
  obtain ⟨q, -, h⟩ := bind_ok h
  cases h
  rw [primitiveEnd, if_neg hc] at hend
  split at hend
  · cases hend
  · exact primitiveEnd_length _ rest hend

/-- Each round reads at least its character. -/
theorem step_length {n : Nat} {p p' : Parser} {c : Char} {rest rest' : List Char}
    (hnul : c ≠ '\x00') (h : step n p c rest = .ok (p', rest')) : rest'.length ≤ rest.length := by
  unfold step at h
  split at h
  · obtain ⟨q, -, h⟩ := bind_ok h
    cases h
    exact Nat.le_refl _
  split at h
  · obtain ⟨q, -, h⟩ := bind_ok h
    cases h
    exact Nat.le_refl _
  split at h
  · exact parseString_length h
  split at h
  · cases h
    exact Nat.le_refl _
  split at h
  · cases h
    exact Nat.le_refl _
  split at h
  · cases h
    exact Nat.le_refl _
  · refine parsePrimitive_length (fun hend => ?_) h
    have hends : endsPrimitive c = true := hend.resolve_left hnul
    simp only [endsPrimitive, decide_eq_true_eq, List.mem_cons, List.not_mem_nil, or_false] at hends
    simp only [isSpace, decide_eq_true_eq, List.mem_cons, List.not_mem_nil, or_false] at *
    grind

/-- The loop of `jsmn_parse`. -/
def loop (n : Nat) (p : Parser) : List Char → Except Error Parser
  | [] => .ok p
  | c :: rest =>
    if _hc : c = '\x00' then .ok p
    else match _h : step n p c rest with
      | .error e => .error e
      | .ok (p', rest') => loop n p' rest'
termination_by rest => rest.length
decreasing_by exact Nat.lt_succ_of_le (step_length _hc _h)

/-- `jsmn_parse` with a new parser: the tokens, whose number it returns. -/
def parse (n : Nat) (js : List Char) : Except Error (List Token) := do
  let p ← loop n init js
  if p.tokens.any (·.stop = none) then .error .part
  else return p.tokens

theorem loop_step {n : Nat} {p p' : Parser} {c : Char} {rest rest' : List Char}
    (hnul : c ≠ '\x00') (h : step n p c rest = .ok (p', rest')) :
    loop n p (c :: rest) = loop n p' rest' := by
  rw [loop, dif_neg hnul]
  split
  · next e he => rw [h] at he; cases he
  · next p'' rest'' hok => rw [h] at hok; cases hok; rfl

/-! ### What a piece of text does -/

/-- A token for the text `s` after `done`. -/
def spanning (type : Kind) (done s : List Char) (parent : Option Nat) : Token :=
  { type := type, start := done.length, stop := some (done.length + s.length), parent := parent }

/-- The token of an object or an array that begins after `done`. -/
def opening (type : Kind) (done : List Char) (parent : Option Nat) : Token :=
  { type := type, start := done.length, stop := none, parent := parent }

/-- After `done`, reading `s` takes `toksuper` and the tokens from `q` to `q'`, whatever follows. -/
def Reads (n : Nat) (done s : List Char) (q q' : Option Nat × List Token) : Prop :=
  ∀ rest, loop n { pos := done.length, toksuper := q.1, tokens := q.2 } (s ++ rest) =
    loop n { pos := (done ++ s).length, toksuper := q'.1, tokens := q'.2 } rest

section rules

variable {n : Nat} {done s t : List Char} {q q' q'' : Option Nat × List Token} {i : Option Nat}
  {ts : List Token}

theorem Reads.append (hs : Reads n done s q q') (ht : Reads n (done ++ s) t q' q'') :
    Reads n done (s ++ t) q q'' := by
  intro rest
  rw [List.append_assoc, hs, ht, List.append_assoc]

/-- A round that reads its character alone. -/
theorem reads_char {c : Char} (hnul : c ≠ '\x00')
    (h : ∀ rest, step n { pos := done.length, toksuper := q.1, tokens := q.2 } c rest =
      .ok ({ pos := done.length + 1, toksuper := q'.1, tokens := q'.2 }, rest)) :
    Reads n done [c] q q' := by
  intro rest
  rw [List.singleton_append, loop_step hnul (h rest), List.length_append]
  rfl

theorem reads_nil : Reads n done [] q q := by
  intro rest
  rw [List.append_nil]
  rfl

theorem reads_spaces (hs : ∀ c ∈ s, isSpace c = true) : Reads n done s q q := by
  induction s generalizing done with
  | nil => exact reads_nil
  | cons c s ih =>
    have hc : c ∈ ['\t', '\r', '\n', ' '] := by
      have hmem := hs c (List.mem_cons_self ..)
      rwa [isSpace, decide_eq_true_eq] at hmem
    have hround : Reads n done [c] q q := by
      simp only [List.mem_cons, List.not_mem_nil, or_false] at hc
      rcases hc with rfl | rfl | rfl | rfl <;> exact reads_char (by decide) fun _ => rfl
    exact hround.append (ih fun c h => hs c (List.mem_cons_of_mem _ h))

theorem reads_open (hn : ts.length < n) :
    Reads n done ['{'] (i, ts) (some ts.length, ts ++ [opening .object done i]) := by
  refine reads_char (by decide) fun rest => ?_
  rw [step, if_pos (Or.inl rfl)]
  dsimp only
  rw [alloc_room hn]
  rfl

theorem reads_close {p : Parser}
    (h : close .object { pos := done.length, toksuper := i, tokens := ts } ts.length
      (ts.length - 1) = .ok p) :
    Reads n done ['}'] (i, ts) (p.toksuper, p.tokens) := by
  refine reads_char (by decide) fun rest => ?_
  rw [step, if_neg (by decide), if_pos (Or.inl rfl), if_pos rfl]
  dsimp only
  rw [h]
  rfl

/-- After a colon the last token is the parent. -/
theorem reads_colon (t : Token) :
    Reads n done [':'] (i, ts ++ [t]) (some ts.length, ts ++ [t]) := by
  refine reads_char (by decide) fun rest => ?_
  rw [step, if_neg (by decide), if_neg (by decide), if_neg (by decide), if_neg (by decide),
    if_pos rfl]
  simp

theorem reads_comma : Reads n done [','] (i, ts)
    (afterComma { pos := done.length, toksuper := i, tokens := ts }, ts) := by
  refine reads_char (by decide) fun rest => ?_
  rw [step, if_neg (by decide), if_neg (by decide), if_neg (by decide), if_neg (by decide),
    if_neg (by decide), if_pos rfl]

/-- The characters of a string that stand for themselves. -/
def isPlain (c : Char) : Bool := c ≠ '\x00' ∧ c ≠ '"' ∧ c ≠ '\\'

theorem stringEnd_plain (hs : ∀ c ∈ s, isPlain c = true) (pos : Nat) (rest : List Char) :
    stringEnd 0 pos (s ++ '"' :: rest) = .ok (pos + s.length, rest) := by
  induction s generalizing pos with
  | nil =>
    unfold stringEnd
    simp
  | cons c s ih =>
    obtain ⟨hnul, hquote, hback⟩ := of_decide_eq_true (hs c (List.mem_cons_self ..))
    have htail : stringEnd 0 pos (c :: (s ++ '"' :: rest)) =
        stringEnd 0 (pos + 1) (s ++ '"' :: rest) := by
      rw [stringEnd.eq_def]
      simp [hnul, hquote, hback]
    rw [List.cons_append, htail, ih fun c h => hs c (List.mem_cons_of_mem _ h), List.length_cons,
      Nat.add_right_comm, Nat.add_assoc]

theorem reads_string (hs : ∀ c ∈ s, isPlain c = true) (hn : ts.length < n) :
    Reads n done ('"' :: (s ++ ['"'])) (i, ts)
      (i, ts ++ [spanning .string (done ++ ['"']) s i]) := by
  intro rest
  have hlen : (done ++ '"' :: (s ++ ['"'])).length = done.length + 1 + s.length + 1 := by
    simp only [List.length_append, List.length_cons, List.length_nil]
    omega
  rw [List.cons_append, List.append_assoc, List.singleton_append, hlen]
  refine loop_step (by decide) ?_
  rw [step, if_neg (by decide), if_neg (by decide), if_pos rfl, parseString, stringEnd_plain hs]
  change (Parser.alloc n _ _ >>= _) = _
  rw [alloc_room hn, spanning, List.length_append]
  rfl

/-- The characters of which a primitive may consist. -/
def isBare (c : Char) : Bool :=
  32 ≤ c.toNat ∧ c.toNat < 127 ∧ endsPrimitive c = false ∧ c ∉ ['{', '[', '"']

theorem primitiveEnd_bare {c : Char} (hs : ∀ c ∈ s, isBare c = true) (hc : endsPrimitive c = true)
    (pos : Nat) (rest : List Char) :
    primitiveEnd pos (s ++ c :: rest) = .ok (pos + s.length, c :: rest) := by
  induction s generalizing pos with
  | nil => exact if_pos (Or.inr hc)
  | cons d s ih =>
    obtain ⟨hlow, hhigh, hd, -⟩ := of_decide_eq_true (hs d (List.mem_cons_self ..))
    have hnul : ¬(d = '\x00' ∨ endsPrimitive d = true) := by
      rintro (rfl | h)
      · exact absurd hlow (by decide)
      · rw [hd] at h; cases h
    rw [List.cons_append, primitiveEnd, if_neg hnul, if_neg (by omega),
      ih fun c h => hs c (List.mem_cons_of_mem _ h), List.length_cons, Nat.add_right_comm,
      Nat.add_assoc]

theorem step_bare {c : Char} (hc : isBare c = true) (p : Parser) (rest : List Char) :
    step n p c rest = parsePrimitive n p (c :: rest) := by
  obtain ⟨-, -, hends, hopen⟩ := of_decide_eq_true hc
  have hne : ∀ e : Char, endsPrimitive e = true → c ≠ e := by
    rintro e he rfl
    rw [he] at hends
    cases hends
  have hspace : ¬isSpace c = true := by
    intro h
    have hmem : c ∈ ['\t', '\r', '\n', ' '] := of_decide_eq_true h
    simp only [List.mem_cons, List.not_mem_nil, or_false] at hmem
    rcases hmem with rfl | rfl | rfl | rfl <;> exact hne _ rfl rfl
  simp only [List.mem_cons, List.not_mem_nil, or_false, not_or] at hopen
  rw [step, if_neg (not_or.mpr ⟨hopen.1, hopen.2.1⟩), if_neg (not_or.mpr ⟨hne _ rfl, hne _ rfl⟩),
    if_neg hopen.2.2, if_neg hspace, if_neg (hne _ rfl), if_neg (hne _ rfl)]

/-- A primitive ends before the character that follows it, which is then read. -/
theorem reads_primitive {c : Char} (hne : s ≠ []) (hs : ∀ c ∈ s, isBare c = true)
    (hc : endsPrimitive c = true) (hn : ts.length < n)
    (ht : Reads n (done ++ s) (c :: t) (i, ts ++ [spanning .primitive done s i]) q) :
    Reads n done (s ++ c :: t) (i, ts) q := by
  intro rest
  obtain ⟨d, s, rfl⟩ := List.exists_cons_of_ne_nil hne
  have hd : isBare d = true := hs d (List.mem_cons_self ..)
  have hround : step n { pos := done.length, toksuper := i, tokens := ts } d
      (s ++ c :: (t ++ rest)) = .ok ({
        pos := (done ++ d :: s).length
        toksuper := i
        tokens := ts ++ [spanning .primitive done (d :: s) i] }, c :: (t ++ rest)) := by
    rw [step_bare hd, parsePrimitive, ← List.cons_append, primitiveEnd_bare hs hc]
    change (Parser.alloc n _ _ >>= _) = _
    rw [alloc_room hn, spanning, List.length_append]
    rfl
  have hnul : d ≠ '\x00' := by
    rintro rfl
    exact absurd hd (by decide)
  rw [List.append_assoc, List.cons_append, List.cons_append, loop_step hnul hround]
  have h := ht rest
  rw [List.append_assoc] at h
  exact h

/-- Spaces and a key, up to its value. -/
theorem reads_key {w : List Char} (hw : ∀ c ∈ w, isSpace c = true)
    (hs : ∀ c ∈ s, isPlain c = true) (hn : ts.length < n) :
    Reads n done (w ++ '"' :: (s ++ ['"']) ++ [':', ' ']) (i, ts)
      (some ts.length, ts ++ [spanning .string (done ++ w ++ ['"']) s i]) :=
  ((reads_spaces hw).append (reads_string hs hn)).append
    ((reads_colon _).append (reads_spaces (List.all_eq_true.mp rfl)))

/-- A primitive, a comma and a line end. -/
theorem reads_member (hne : s ≠ []) (hs : ∀ c ∈ s, isBare c = true) (hn : ts.length < n) :
    Reads n done (s ++ [',', '\n']) (i, ts)
      (afterComma ⟨0, i, ts ++ [spanning .primitive done s i]⟩,
        ts ++ [spanning .primitive done s i]) :=
  reads_primitive hne hs rfl hn (reads_comma.append (reads_spaces (List.all_eq_true.mp rfl)))

/-- A primitive and a line end. -/
theorem reads_last (hne : s ≠ []) (hs : ∀ c ∈ s, isBare c = true) (hn : ts.length < n) :
    Reads n done (s ++ ['\n']) (i, ts) (i, ts ++ [spanning .primitive done s i]) :=
  reads_primitive hne hs rfl hn (reads_spaces (List.all_eq_true.mp rfl))

/-- What reads a whole text from the start gives the result of `parse`. -/
theorem parse_of_reads {js : List Char} (h : Reads n [] js (none, []) (i, ts))
    (hts : ts.any (·.stop = none) = false) : parse n js = .ok ts := by
  have hloop := h []
  rw [List.append_nil, List.length_nil, loop] at hloop
  change (loop n ⟨0, none, []⟩ js >>= _) = _
  rw [hloop]
  change (if ts.any (·.stop = none) then _ else _) = _
  rw [hts]
  rfl

end rules

end Jsmn

end Hashx86
