import Hashx86.Settings.Load
import Hashx86.Settings.Tree

/-!
# Members of an object (`core/settings.cpp`)

`objectLookup` over the tokens of any document.

* `NextChild` and `Walk` are its loops without a bound on their rounds: a derivation is a run that
  ends. `Walk.lookupFrom`: with the bound of the model the result is the same.
* `Value.nodes` and `Value.entries`: the values in a document, and the direct members of an object,
  each with the number of its token.
* `At`: a piece of the tokens to which no token behind it links. `Value.stands`: every value has
  such a piece.
* `walk_members`: the walk over the members of an object. `objectLookup_first`: in any document and
  any object of it, the value of the first direct member with the key.
-/

namespace Hashx86

namespace Jsmn

/-! ### Values in a document -/

mutual

/-- The values in a value, each with the number of its token; the first has the number `base`. -/
def Value.nodes : Value → (base : Nat) → List (Nat × Value)
  | .primitive s, base => [(base, .primitive s)]
  | .string s, base => [(base, .string s)]
  | .emptyArray w, base => [(base, .emptyArray w)]
  | .array w es, base => (base, .array w es) :: es.nodes (base + 1)
  | .emptyObject w, base => [(base, .emptyObject w)]
  | .object w ms, base => (base, .object w ms) :: ms.nodes (base + 1)

def Elements.nodes : Elements → (base : Nat) → List (Nat × Value)
  | .one v _, base => v.nodes base
  | .more v _ _ rest, base => v.nodes base ++ rest.nodes (base + v.size)

def Members.nodes : Members → (base : Nat) → List (Nat × Value)
  | .one _ v _, base => v.nodes (base + 1)
  | .more _ v _ _ rest, base => v.nodes (base + 1) ++ rest.nodes (base + (v.size + 1))

end

/-- A direct member of an object, with the number of its value's token. -/
structure Entry where
  key : List Char
  value : Value
  index : Nat

/-- The members from token `i` on: a key comes right before its value. -/
def Members.entries : Members → (i : Nat) → List Entry
  | .one l v _, i => [⟨l.key.text, v, i + 1⟩]
  | .more l v _ _ rest, i => ⟨l.key.text, v, i + 1⟩ :: rest.entries (i + (v.size + 1))

/-- The direct members of the object with token `o`. -/
def Value.entries (v : Value) (o : Nat) : List Entry :=
  match v with
  | .object _ ms => ms.entries (o + 1)
  | _ => []

/-- The value of the first direct member with the key. -/
def Value.first (v : Value) (o : Nat) (key : List Char) : Option Entry :=
  (v.entries o).find? (·.key = key)

theorem Value.self_mem_nodes (v : Value) (base : Nat) : (base, v) ∈ v.nodes base := by
  cases v <;> simp [Value.nodes]

/-- The first token of a value. -/
theorem Value.tokens_eq_cons (v : Value) (done : List Char) (parent : Option Nat) (base : Nat) :
    ∃ t ts, v.tokens done parent base = t :: ts ∧ t.type = v.kind ∧ t.parent = parent := by
  cases v <;> exact ⟨_, _, by unfold Value.tokens; rfl, rfl, rfl⟩

theorem Members.entries_nodes : ∀ (ms : Members) (i : Nat), ∀ e ∈ ms.entries i,
    (e.index, e.value) ∈ ms.nodes i
  | .one l v w, i, e, he => by
    obtain rfl := List.mem_singleton.mp he
    exact v.self_mem_nodes (i + 1)
  | .more l v w w' rest, i, e, he => by
    unfold Members.nodes
    rw [List.mem_append]
    rcases List.mem_cons.mp he with rfl | he
    · exact .inl (v.self_mem_nodes (i + 1))
    · exact .inr (rest.entries_nodes _ e he)

theorem Value.entries_nodes {v : Value} {o : Nat} {e : Entry} (he : e ∈ v.entries o) :
    (e.index, e.value) ∈ v.nodes o := by
  cases v with
  | object w ms =>
    unfold Value.nodes
    exact List.mem_cons_of_mem _ (ms.entries_nodes (o + 1) e he)
  | _ => cases he

/-- The object tokens from number `base` on are those of objects among the values `ns`. -/
def Objects (ns : List (Nat × Value)) (base : Nat) (ts : List Token) : Prop :=
  ∀ x t, ts[x]? = some t → t.type = .object → ∃ u, (base + x, u) ∈ ns ∧ u.kind = .object

section objects

variable {ns ns' : List (Nat × Value)} {base : Nat} {ts ts' : List Token} {t : Token}

theorem Objects.cons (ht : t.type = .object → ∃ u, (base, u) ∈ ns ∧ u.kind = .object)
    (h : Objects ns (base + 1) ts) : Objects ns base (t :: ts) := by
  intro x u hu htype
  cases x with
  | zero =>
    obtain rfl : t = u := Option.some.inj hu
    exact ht htype
  | succ x =>
    obtain ⟨v, hv, hk⟩ := h x u hu htype
    exact ⟨v, by rwa [← Nat.add_right_comm] at hv, hk⟩

theorem Objects.append (h : Objects ns base ts) (h' : Objects ns' (base + ts.length) ts') :
    Objects (ns ++ ns') base (ts ++ ts') := by
  intro x t ht htype
  rw [List.getElem?_append] at ht
  split at ht
  · obtain ⟨u, hu, hk⟩ := h x t ht htype
    exact ⟨u, List.mem_append_left _ hu, hk⟩
  · obtain ⟨u, hu, hk⟩ := h' _ t ht htype
    rw [show base + ts.length + (x - ts.length) = base + x by omega] at hu
    exact ⟨u, List.mem_append_right _ hu, hk⟩

theorem Objects.mono (h : Objects ns base ts) (hsub : ∀ p ∈ ns, p ∈ ns') : Objects ns' base ts :=
  fun x t ht htype =>
    let ⟨u, hu, hk⟩ := h x t ht htype
    ⟨u, hsub _ hu, hk⟩

theorem objects_nil : Objects ns base [] := by
  intro x t ht
  simp at ht

end objects

mutual

/-- Every object token is the token of an object. -/
theorem Value.objects : ∀ (v : Value) (done : List Char) (parent : Option Nat) (base : Nat),
    Objects (v.nodes base) base (v.tokens done parent base)
  | .primitive _, _, _, _ => .cons nofun objects_nil
  | .string _, _, _, _ => .cons nofun objects_nil
  | .emptyArray _, _, _, _ => .cons nofun objects_nil
  | .array _ es, _, _, base =>
    .cons nofun ((es.objects _ base (base + 1)).mono fun _ => List.mem_cons_of_mem _)
  | .emptyObject _, _, _, _ => .cons (fun _ => ⟨_, List.mem_cons_self, rfl⟩) objects_nil
  | .object _ ms, _, _, base =>
    .cons (fun _ => ⟨_, List.mem_cons_self, rfl⟩)
      ((ms.objects _ base (base + 1)).mono fun _ => List.mem_cons_of_mem _)

theorem Elements.objects : ∀ (es : Elements) (done : List Char) (parent base : Nat),
    Objects (es.nodes base) base (es.tokens done parent base)
  | .one v _, _, parent, base => v.objects _ (some parent) base
  | .more v _ _ rest, _, parent, base => (v.objects _ (some parent) base).append (by
    rw [v.length_tokens]
    exact rest.objects _ parent _)

theorem Members.objects : ∀ (ms : Members) (done : List Char) (parent base : Nat),
    Objects (ms.nodes base) base (ms.tokens done parent base)
  | .one _ v _, _, _, base => .cons nofun (v.objects _ (some base) (base + 1))
  | .more _ v _ _ rest, _, parent, base => by
    unfold Members.nodes Members.tokens
    refine .append (.cons nofun (v.objects _ (some base) (base + 1))) ?_
    rw [List.length_cons, v.length_tokens]
    exact rest.objects _ parent _

end

/-! ### A piece of the tokens -/

/-- `ts` are the tokens from number `base` on, and no later one links to them. -/
def At (tokens : List Token) (base : Nat) (ts : List Token) : Prop :=
  ∃ pre post, tokens = pre ++ ts ++ post ∧ pre.length = base ∧
    ∀ t ∈ post, ∀ p, t.parent = some p → p < base ∨ base + ts.length ≤ p

section at_

variable {tokens ts ts' : List Token} {base x p : Nat} {t : Token} {parent : Option Nat}

theorem At.get (h : At tokens base ts) (ht : ts[x]? = some t) : tokens[base + x]? = some t := by
  obtain ⟨pre, post, rfl, rfl, -⟩ := h
  have hx := (List.getElem?_eq_some_iff.mp ht).1
  rw [List.append_assoc, List.getElem?_append_right (Nat.le_add_right ..), Nat.add_sub_cancel_left,
    List.getElem?_append_left hx, ht]

theorem At.length_le (h : At tokens base ts) : base + ts.length ≤ tokens.length := by
  obtain ⟨pre, post, rfl, rfl, -⟩ := h
  simp only [List.length_append]
  omega

theorem At.past (h : At tokens base ts) (hx : base + ts.length ≤ x) (ht : tokens[x]? = some t)
    (hp : t.parent = some p) : p < base ∨ base + ts.length ≤ p := by
  obtain ⟨pre, post, rfl, rfl, hpost⟩ := h
  rw [List.getElem?_append_right (by rw [List.length_append]; exact hx)] at ht
  exact hpost t (List.mem_of_getElem? ht) p hp

theorem At.tail (h : At tokens base (t :: ts)) : At tokens (base + 1) ts := by
  obtain ⟨pre, post, rfl, rfl, hpost⟩ := h
  refine ⟨pre ++ [t], post, by simp, by simp, fun u hu p hp => ?_⟩
  have := hpost u hu p hp
  rw [List.length_cons] at this
  omega

theorem At.right (h : At tokens base (ts ++ ts')) : At tokens (base + ts.length) ts' := by
  obtain ⟨pre, post, rfl, rfl, hpost⟩ := h
  refine ⟨pre ++ ts, post, by simp, by simp, fun u hu p hp => ?_⟩
  have := hpost u hu p hp
  rw [List.length_append] at this
  omega

theorem At.left (h : At tokens base (ts ++ ts')) (hnest : Nested parent (base + ts.length) ts')
    (hparent : ∀ p, parent = some p → p < base) : At tokens base ts := by
  obtain ⟨pre, post, rfl, rfl, hpost⟩ := h
  refine ⟨pre, ts' ++ post, by simp, rfl, fun u hu p hp => ?_⟩
  rcases List.mem_append.mp hu with hu | hu
  · obtain ⟨x, hx, rfl⟩ := List.mem_iff_getElem.mp hu
    rcases (hnest x _ (List.getElem?_eq_getElem hx)).2 with hp' | ⟨q, hq, hle, -⟩
    · exact .inl (hparent p (hp'.symm.trans hp))
    · obtain rfl := Option.some.inj (hq.symm.trans hp)
      exact .inr hle
  · have := hpost u hu p hp
    rw [List.length_append] at this
    omega

end at_

/-- A value after the text `done` has its tokens from number `o` on. -/
def Stands (js : List Char) (tokens : List Token) (o : Nat) (v : Value) : Prop :=
  ∃ done parent, done ++ v.text <+: js ∧ At tokens o (v.tokens done parent o)

theorem prefix_append_left {done s t js : List Char} (h : done ++ (s ++ t) <+: js) :
    done ++ s <+: js := by
  rw [← List.append_assoc] at h
  exact (List.prefix_append _ t).trans h

mutual

/-- Every value in a piece of the tokens has a piece of its own. -/
theorem Value.stands {js : List Char} {tokens : List Token} : ∀ (v : Value) (done : List Char)
    (parent : Option Nat) (base : Nat), done ++ v.text <+: js →
    At tokens base (v.tokens done parent base) → ∀ p ∈ v.nodes base, Stands js tokens p.1 p.2
  | .primitive _, done, parent, _, hjs, hat =>
    List.forall_mem_singleton.mpr ⟨done, parent, hjs, hat⟩
  | .string _, done, parent, _, hjs, hat =>
    List.forall_mem_singleton.mpr ⟨done, parent, hjs, hat⟩
  | .emptyArray _, done, parent, _, hjs, hat =>
    List.forall_mem_singleton.mpr ⟨done, parent, hjs, hat⟩
  | .emptyObject _, done, parent, _, hjs, hat =>
    List.forall_mem_singleton.mpr ⟨done, parent, hjs, hat⟩
  | .array w es, done, parent, base, hjs, hat => by
    refine List.forall_mem_cons.mpr ⟨⟨done, parent, hjs, hat⟩, ?_⟩
    refine es.stands _ base (base + 1) ?_ hat.tail (Nat.lt_succ_self _)
    rw [List.append_assoc]
    exact prefix_append_left hjs
  | .object w ms, done, parent, base, hjs, hat => by
    refine List.forall_mem_cons.mpr ⟨⟨done, parent, hjs, hat⟩, ?_⟩
    refine ms.stands _ base (base + 1) ?_ hat.tail (Nat.lt_succ_self _)
    rw [List.append_assoc]
    exact prefix_append_left hjs

theorem Elements.stands {js : List Char} {tokens : List Token} : ∀ (es : Elements)
    (done : List Char) (parent base : Nat), done ++ es.text <+: js →
    At tokens base (es.tokens done parent base) → parent < base →
    ∀ p ∈ es.nodes base, Stands js tokens p.1 p.2
  | .one v _, done, parent, base, hjs, hat, _ =>
    v.stands done (some parent) base (prefix_append_left hjs) hat
  | .more v w w' rest, done, parent, base, hjs, hat, hlt => by
    have hleft := hat.left (by rw [v.length_tokens]; exact rest.nested _ parent _)
      fun p hp => Option.some.inj hp ▸ hlt
    have hright := hat.right
    rw [v.length_tokens] at hright
    refine List.forall_mem_append.mpr ⟨v.stands done (some parent) base ?_ hleft,
      rest.stands _ parent _ ?_ hright (by omega)⟩
    · unfold Elements.text at hjs
      simp only [List.append_assoc] at hjs
      exact prefix_append_left hjs
    · rw [List.append_assoc]
      exact hjs

theorem Members.stands {js : List Char} {tokens : List Token} : ∀ (ms : Members)
    (done : List Char) (parent base : Nat), done ++ ms.text <+: js →
    At tokens base (ms.tokens done parent base) → parent < base →
    ∀ p ∈ ms.nodes base, Stands js tokens p.1 p.2
  | .one l v w, done, parent, base, hjs, hat, _ => by
    refine v.stands _ (some base) (base + 1) ?_ hat.tail
    rw [List.append_assoc]
    exact prefix_append_left hjs
  | .more l v w w' rest, done, parent, base, hjs, hat, hlt => by
    have hleft := hat.left (by rw [List.length_cons, v.length_tokens]; exact rest.nested _ parent _)
      fun p hp => Option.some.inj hp ▸ hlt
    have hright := hat.right
    rw [List.length_cons, v.length_tokens] at hright
    refine List.forall_mem_append.mpr ⟨v.stands _ (some base) (base + 1) ?_ hleft.tail,
      rest.stands _ parent _ ?_ hright (by omega)⟩
    · have hpre : done ++ (l.text ++ v.text ++ (w.text ++ [','] ++ w'.text ++ rest.text)) <+: js := by
        simpa only [Members.text, List.append_assoc] using hjs
      rw [List.append_assoc]
      exact prefix_append_left hpre
    · rw [List.append_assoc]
      exact hjs

end

end Jsmn

namespace SettingsFile

open Jsmn

/-! ### The walk -/

/-- The inner loop of `objectLookup` from `j` on ends at `j'`. -/
inductive NextChild (tokens : List Token) (objIdx : Nat) : (j j' : Nat) → Prop where
  | stop {j : Nat} (h : ¬(j < tokens.length ∧ tokenDepthTo tokens j objIdx ≠ some 1)) :
      NextChild tokens objIdx j j
  | next {j j' : Nat} (h : j < tokens.length ∧ tokenDepthTo tokens j objIdx ≠ some 1)
      (hj : NextChild tokens objIdx (j + 1) j') : NextChild tokens objIdx j j'

/-- The outer loop of `objectLookup` from `i` on ends, and the result is `r`. -/
inductive Walk (text : List Char) (tokens : List Token) (objIdx : Nat) (key : List Char) :
    Nat → Option Nat → Prop where
  | past {i : Nat} (h : ¬(i < tokens.length ∧ tokenDepthTo tokens i objIdx = some 1)) :
      Walk text tokens objIdx key i none
  | malformed {i : Nat} {t : Token} (ht : tokens[i]? = some t)
      (hd : tokenDepthTo tokens i objIdx = some 1) (h : t.type ≠ .string) :
      Walk text tokens objIdx key i none
  | found {i : Nat} {t : Token} (ht : tokens[i]? = some t)
      (hd : tokenDepthTo tokens i objIdx = some 1) (h : t.type = .string)
      (hk : tokenKeyEquals text t key = true) :
      Walk text tokens objIdx key i (if i + 1 < tokens.length then some (i + 1) else none)
  | step {i j : Nat} {t : Token} {r : Option Nat} (ht : tokens[i]? = some t)
      (hd : tokenDepthTo tokens i objIdx = some 1) (h : t.type = .string)
      (hk : tokenKeyEquals text t key = false) (hj : NextChild tokens objIdx (i + 1) j)
      (hr : Walk text tokens objIdx key j r) : Walk text tokens objIdx key i r

section walk

variable {text key : List Char} {tokens : List Token} {objIdx i j : Nat} {r : Option Nat}

theorem NextChild.le (h : NextChild tokens objIdx i j) : i ≤ j := by
  induction h with
  | stop => exact Nat.le_refl _
  | next _ _ ih => omega

theorem NextChild.nextChild (h : NextChild tokens objIdx i j) : ∀ fuel, tokens.length ≤ i + fuel →
    nextChild tokens objIdx fuel i = j := by
  induction h with
  | stop hstop =>
    intro fuel _
    cases fuel with
    | zero => rfl
    | succ fuel => exact if_neg hstop
  | next hnext _ ih =>
    intro fuel hfuel
    cases fuel with
    | zero => omega
    | succ fuel =>
      rw [SettingsFile.nextChild, if_pos hnext]
      exact ih fuel (by omega)

/-- As many rounds as there are tokens left are enough. -/
theorem Walk.lookupFrom (h : Walk text tokens objIdx key i r) : ∀ fuel, tokens.length ≤ i + fuel →
    lookupFrom text tokens objIdx key fuel i = r := by
  induction h with
  | @past i hpast =>
    intro fuel _
    cases fuel with
    | zero => rfl
    | succ fuel =>
      rw [SettingsFile.lookupFrom]
      cases ht : tokens[i]? with
      | none => rfl
      | some t =>
        have hi := (List.getElem?_eq_some_iff.mp ht).1
        exact if_pos fun hd => hpast ⟨hi, hd⟩
  | malformed ht hd htype =>
    intro fuel hfuel
    have hi := (List.getElem?_eq_some_iff.mp ht).1
    obtain ⟨fuel, rfl⟩ : ∃ f, fuel = f + 1 := ⟨fuel - 1, by omega⟩
    simp only [SettingsFile.lookupFrom, ht]
    rw [if_neg (not_not_intro hd), if_pos htype]
  | found ht hd htype hk =>
    intro fuel hfuel
    have hi := (List.getElem?_eq_some_iff.mp ht).1
    obtain ⟨fuel, rfl⟩ : ∃ f, fuel = f + 1 := ⟨fuel - 1, by omega⟩
    simp only [SettingsFile.lookupFrom, ht]
    rw [if_neg (not_not_intro hd), if_neg (not_not_intro htype), if_pos hk]
  | step ht hd htype hk hj _ ih =>
    intro fuel hfuel
    have hi := (List.getElem?_eq_some_iff.mp ht).1
    have hle := hj.le
    obtain ⟨fuel, rfl⟩ : ∃ f, fuel = f + 1 := ⟨fuel - 1, by omega⟩
    simp only [SettingsFile.lookupFrom, ht]
    rw [if_neg (not_not_intro hd), if_neg (not_not_intro htype), hk, if_neg Bool.false_ne_true,
      hj.nextChild _ (by omega)]
    exact ih fuel (by omega)

theorem depthFrom_le {depth left d : Nat} {idx : Option Nat}
    (h : depthFrom tokens objIdx depth left idx = some d) : depth ≤ d := by
  induction left generalizing depth idx with
  | zero =>
    unfold depthFrom at h
    split at h
    · exact Nat.le_of_eq (Option.some.inj h)
    · cases idx <;> cases h
  | succ left ih =>
    unfold depthFrom at h
    split at h
    · exact Nat.le_of_eq (Option.some.inj h)
    · cases idx with
      | none => cases h
      | some i => exact Nat.le_of_succ_le (ih h)

/-- A direct child is a token that links to the object. -/
theorem tokenDepthTo_one (hi : i ≠ objIdx) :
    tokenDepthTo tokens i objIdx = some 1 ↔ (tokens[i]?).bind (·.parent) = some objIdx := by
  unfold tokenDepthTo settingsMaxTokens depthFrom
  rw [if_neg fun h => hi (Option.some.inj h)]
  dsimp only
  unfold depthFrom
  by_cases hp : (tokens[i]?).bind (·.parent) = some objIdx
  · rw [if_pos hp]
    exact iff_of_true rfl hp
  · rw [if_neg hp]
    refine iff_of_false (fun h => ?_) hp
    cases hq : (tokens[i]?).bind (·.parent) with
    | none =>
      rw [hq] at h
      cases h
    | some p =>
      rw [hq] at h
      have := depthFrom_le h
      omega

end walk

/-! ### The members -/

/-- At token `i` is a key of the object `o`, and its value after it: nothing in the value links to
the object. -/
structure MemberAt (js : List Char) (tokens : List Token) (o i : Nat) (key : List Char) (v : Value) :
    Prop where
  key : ∃ k, tokens[i]? = some k ∧ k.type = .string ∧ k.parent = some o ∧ Spans js k key
  value : ∃ t, tokens[i + 1]? = some t ∧ t.type = v.kind ∧ t.parent = some i
  inner : ∀ x, i < x → x < i + (v.size + 1) → ∃ t, tokens[x]? = some t ∧ t.parent ≠ some o

section members

variable {js key done : List Char} {tokens : List Token} {o i j : Nat} {v : Value} {r : Option Nat}

theorem memberAt_of_at {l : Label} (ho : o < i) (hjs : done ++ l.text <+: js)
    (h : At tokens i (spanning .string (done ++ ['"']) l.key.text (some o) ::
      v.tokens (done ++ l.text) (some i) (i + 1))) : MemberAt js tokens o i l.key.text v where
  key := by
    refine ⟨_, h.get (x := 0) rfl, rfl, rfl, spans_spanning ?_⟩
    rw [List.append_assoc]
    refine prefix_append_left (t := '"' :: (l.before.text ++ [':'] ++ l.after.text)) ?_
    simpa [Label.text] using hjs
  value := by
    obtain ⟨t, ts, ht, htype, hp⟩ := v.tokens_eq_cons (done ++ l.text) (some i) (i + 1)
    rw [ht] at h
    exact ⟨t, h.get (x := 1) rfl, htype, hp⟩
  inner x h1 h2 := by
    obtain ⟨k, rfl⟩ : ∃ k, x = i + 1 + k := ⟨x - (i + 1), by omega⟩
    have hk : k < (v.tokens (done ++ l.text) (some i) (i + 1)).length := by
      rw [v.length_tokens]
      omega
    refine ⟨_, h.tail.get (List.getElem?_eq_getElem hk), fun hp => ?_⟩
    rcases (v.nested (done ++ l.text) (some i) (i + 1) k _ (List.getElem?_eq_getElem hk)).2 with
      hp' | ⟨q, hq, hle, -⟩
    · have := Option.some.inj (hp'.symm.trans hp)
      omega
    · have := Option.some.inj (hq.symm.trans hp)
      omega

theorem MemberAt.depth (h : MemberAt js tokens o i key v) (ho : o < i) :
    tokenDepthTo tokens i o = some 1 := by
  obtain ⟨k, hk, -, hp, -⟩ := h.key
  rw [tokenDepthTo_one (by omega), hk]
  exact hp

/-- Tokens that do not link to the object are stepped over. -/
theorem nextChild_over (ho : o < i) (n : Nat)
    (h : ∀ x, i ≤ x → x < i + n → ∃ t, tokens[x]? = some t ∧ t.parent ≠ some o)
    (hj : NextChild tokens o (i + n) j) : NextChild tokens o i j := by
  induction n generalizing i with
  | zero => exact hj
  | succ n ih =>
    obtain ⟨t, ht, hp⟩ := h i (Nat.le_refl _) (by omega)
    refine .next ⟨(List.getElem?_eq_some_iff.mp ht).1, fun hd => ?_⟩ (ih (by omega)
      (fun x h1 h2 => h x (by omega) (by omega)) (by rwa [Nat.add_right_comm, Nat.add_assoc]))
    rw [tokenDepthTo_one (by omega), ht] at hd
    exact hp hd

/-- The walk at a member with the key. -/
theorem MemberAt.found (h : MemberAt js tokens o i key v) (ho : o < i) :
    Walk js tokens o key i (some (i + 1)) := by
  obtain ⟨k, hk, htype, -, hspans⟩ := h.key
  obtain ⟨t, ht, -⟩ := h.value
  have hwalk := Walk.found hk (h.depth ho) htype (hspans.keyEquals.trans (decide_eq_true rfl))
  rwa [if_pos (List.getElem?_eq_some_iff.mp ht).1] at hwalk

/-- The walk at a member with another key. -/
theorem MemberAt.skip {other : List Char} (h : MemberAt js tokens o i other v) (ho : o < i)
    (hne : other ≠ key) (hj : NextChild tokens o (i + (v.size + 1)) j)
    (hr : Walk js tokens o key j r) : Walk js tokens o key i r := by
  obtain ⟨k, hk, htype, -, hspans⟩ := h.key
  refine .step hk (h.depth ho) htype (hspans.keyEquals.trans (decide_eq_false hne))
    (nextChild_over (by omega) v.size (fun x h1 h2 => h.inner x h1 (by omega)) ?_) hr
  rwa [Nat.add_right_comm, Nat.add_assoc]

/-- Behind the last member the walk ends. -/
theorem walk_past (ho : o < i)
    (hpast : ∀ x t, i ≤ x → tokens[x]? = some t → t.parent ≠ some o) :
    Walk js tokens o key i none := .past fun h => by
  obtain ⟨hi, hd⟩ := h
  rw [tokenDepthTo_one (by omega)] at hd
  exact hpast i _ (Nat.le_refl _) (List.getElem?_eq_getElem hi)
    (by rwa [List.getElem?_eq_getElem hi] at hd)

theorem nextChild_past (ho : o < i) (hi : i ≤ tokens.length)
    (hpast : ∀ x t, i ≤ x → tokens[x]? = some t → t.parent ≠ some o) :
    NextChild tokens o i tokens.length := by
  refine nextChild_over ho (tokens.length - i) (fun x h1 h2 => ?_) ?_
  · have hx : x < tokens.length := by omega
    exact ⟨_, List.getElem?_eq_getElem hx, hpast x _ h1 (List.getElem?_eq_getElem hx)⟩
  · rw [Nat.add_sub_cancel' hi]
    exact .stop fun h => Nat.lt_irrefl _ h.1

/-- The members from token `i` on are where they should be, and behind them no token links to the
object. -/
structure MembersAt (js : List Char) (tokens : List Token) (o i : Nat) (ms : Members) : Prop where
  each : ∀ e ∈ ms.entries i, 0 < e.index ∧ MemberAt js tokens o (e.index - 1) e.key e.value
  past : ∀ x t, i + ms.size ≤ x → tokens[x]? = some t → t.parent ≠ some o
  le : i + ms.size ≤ tokens.length

theorem membersAt_of_at : ∀ {ms : Members} {done : List Char} {i : Nat}, o < i →
    done ++ ms.text <+: js → At tokens i (ms.tokens done o i) →
    (∀ x t, i + ms.size ≤ x → tokens[x]? = some t → t.parent ≠ some o) →
    MembersAt js tokens o i ms
  | .one l v w, done, i, ho, hjs, hat, hpast => by
    have hle := hat.length_le
    rw [Members.length_tokens] at hle
    refine ⟨List.forall_mem_singleton.mpr ⟨Nat.succ_pos _, memberAt_of_at ho ?_ hat⟩, hpast, hle⟩
    rw [Members.text, List.append_assoc] at hjs
    exact prefix_append_left hjs
  | .more l v w w' rest, done, i, ho, hjs, hat, hpast => by
    have hle := hat.length_le
    rw [Members.length_tokens] at hle
    have hleft := hat.left (by rw [List.length_cons, v.length_tokens]; exact rest.nested _ o _)
      fun p hp => Option.some.inj hp ▸ ho
    have hright := hat.right
    rw [List.length_cons, v.length_tokens] at hright
    have hrest : MembersAt js tokens o (i + (v.size + 1)) rest :=
      membersAt_of_at (by omega) (by rw [List.append_assoc]; exact hjs) hright
        fun x t hx => hpast x t (by unfold Members.size; omega)
    refine ⟨List.forall_mem_cons.mpr ⟨⟨Nat.succ_pos _, memberAt_of_at ho ?_ hleft⟩, hrest.each⟩,
      hpast, hle⟩
    simp only [Members.text, List.append_assoc] at hjs
    exact prefix_append_left hjs

/-- The walk over the members ends at the value of the first one with the key. -/
theorem walk_members : ∀ {ms : Members} {i : Nat}, o < i → MembersAt js tokens o i ms →
    Walk js tokens o key i (((ms.entries i).find? (·.key = key)).map Entry.index)
  | .one l v w, i, ho, h => by
    have hmember : MemberAt js tokens o i l.key.text v := (h.each _ (List.mem_singleton_self _)).2
    unfold Members.entries
    by_cases hk : l.key.text = key
    · rw [List.find?_cons_of_pos (by simpa using hk)]
      subst hk
      exact hmember.found ho
    · rw [List.find?_cons_of_neg (by simpa using hk)]
      exact hmember.skip ho hk (nextChild_past (by omega) h.le h.past)
        (walk_past (by have := h.le; omega) fun x t hx ht => absurd
          (List.getElem?_eq_some_iff.mp ht).1 (by omega))
  | .more l v w w' rest, i, ho, h => by
    have hmember : MemberAt js tokens o i l.key.text v := (h.each _ List.mem_cons_self).2
    have hrest : MembersAt js tokens o (i + (v.size + 1)) rest :=
      ⟨fun e he => h.each e (List.mem_cons_of_mem _ he),
        fun x t hx => h.past x t (by unfold Members.size; omega),
        by have := h.le; unfold Members.size at this; omega⟩
    unfold Members.entries
    by_cases hk : l.key.text = key
    · rw [List.find?_cons_of_pos (by simpa using hk)]
      subst hk
      exact hmember.found ho
    · rw [List.find?_cons_of_neg (by simpa using hk)]
      -- The next member begins right behind the value.
      obtain ⟨e, he, hei⟩ : ∃ e ∈ rest.entries (i + (v.size + 1)), e.index = i + (v.size + 1) + 1 := by
        cases rest <;> exact ⟨_, List.mem_cons_self, rfl⟩
      have hnext := (hrest.each e he).2
      rw [hei, Nat.add_sub_cancel] at hnext
      exact hmember.skip ho hk (.stop fun hstop => hstop.2 (hnext.depth (by omega)))
        (walk_members (by omega) hrest)

/-- The walk over any object. -/
theorem walk_stands (h : Stands js tokens o v) (hk : v.kind = .object) :
    (∀ e ∈ v.entries o, 0 < e.index ∧ MemberAt js tokens o (e.index - 1) e.key e.value) ∧
      ∀ key, Walk js tokens o key (o + 1) ((v.first o key).map Entry.index) := by
  obtain ⟨done, parent, hjs, hat⟩ := h
  have hpast : ∀ x t, o + v.size ≤ x → tokens[x]? = some t → t.parent ≠ some o := fun x t hx ht hp => by
    have := hat.past (by rwa [v.length_tokens]) ht hp
    have := v.size_pos
    rw [v.length_tokens] at *
    omega
  cases v with
  | primitive | string | emptyArray | array => cases hk
  | emptyObject w => exact ⟨nofun, fun key => walk_past (Nat.lt_succ_self o) hpast⟩
  | object w ms =>
    have hms : MembersAt js tokens o (o + 1) ms := by
      refine membersAt_of_at (Nat.lt_succ_self o) ?_ hat.tail fun x t hx =>
        hpast x t (by unfold Value.size; omega)
      rw [List.append_assoc]
      exact prefix_append_left hjs
    exact ⟨hms.each, fun key => walk_members (Nat.lt_succ_self o) hms⟩

end members

/-! ### The lookup -/

/-- The result of `objectLookup` in an object. -/
theorem lookup_stands {js : List Char} {tokens : List Token} {o : Nat} {v : Value}
    (h : Stands js tokens o v) (hk : v.kind = .object) (key : List Char) :
    objectLookup js tokens o key = (v.first o key).map Entry.index := by
  have hwalk := (walk_stands h hk).2 key
  obtain ⟨done, parent, -, hat⟩ := h
  obtain ⟨t, ts, ht, htype, -⟩ := v.tokens_eq_cons done parent o
  rw [ht] at hat
  have hget : tokens[o]? = some t := hat.get (x := 0) rfl
  rw [objectLookup_object hget (htype.trans hk)]
  exact hwalk.lookupFrom _ (by omega)

theorem stands_document (d : Document) {o : Nat} {v : Value} (hv : (o, v) ∈ d.root.nodes 0) :
    Stands d.text d.tokens o v :=
  d.root.stands d.before.text none 0 (List.prefix_append _ _)
    ⟨[], [], by rw [List.append_nil]; rfl, rfl, nofun⟩ (o, v) hv

/-- In a document, `objectLookup` walks to an end and returns the value of the first direct member
of the object with the key. -/
theorem objectLookup_first {n : Nat} (d : Document) {tokens : List Token}
    (h : parse n d.text = .ok tokens) {o : Nat} {t : Token} (ht : tokens[o]? = some t)
    (htype : t.type = .object) :
    ∃ v, (o, v) ∈ d.root.nodes 0 ∧ v.kind = .object ∧
      (∀ e ∈ v.entries o, MemberAt d.text tokens o (e.index - 1) e.key e.value) ∧
      ∀ key, Walk d.text tokens o key (o + 1) ((v.first o key).map Entry.index) ∧
        objectLookup d.text tokens o key = (v.first o key).map Entry.index := by
  obtain rfl := d.tokens_of_parse h
  obtain ⟨v, hv, hk⟩ := d.root.objects d.before.text none 0 o t ht htype
  rw [Nat.zero_add] at hv
  have hstands := stands_document d hv
  obtain ⟨hmembers, hwalk⟩ := walk_stands hstands hk
  exact ⟨v, hv, hk, fun e he => (hmembers e he).2, fun key =>
    ⟨hwalk key, lookup_stands hstands hk key⟩⟩

/-- A key of plain characters, and no white space. -/
def plainLabel (s : List Char) (h : s.all isPlain = true) : Label :=
  ⟨⟨s.pmap .plain (List.all_eq_true.mp h)⟩, ⟨[], nofun⟩, ⟨[], nofun⟩⟩

def bareValue (s : List Char) (hne : s ≠ []) (h : s.all isBare = true) : Value :=
  .primitive ⟨s, hne, List.all_eq_true.mp h⟩

/-- `{"a":{"b":1},"b":2}`. -/
def nestedDocument : Document where
  before := ⟨[], nofun⟩
  root := .object ⟨[], nofun⟩ (.more (plainLabel ['a'] (by decide))
    (.object ⟨[], nofun⟩ (.one (plainLabel ['b'] (by decide))
      (bareValue ['1'] nofun (by decide)) ⟨[], nofun⟩)) ⟨[], nofun⟩ ⟨[], nofun⟩
    (.one (plainLabel ['b'] (by decide)) (bareValue ['2'] nofun (by decide)) ⟨[], nofun⟩))
  object := rfl
  after := ⟨[], nofun⟩

/-- Token 4 is the value of a nested member of the name. -/
theorem objectLookup_first_nested :
    nestedDocument.text = "\x7b\"a\":\x7b\"b\":1\x7d,\"b\":2\x7d".toList ∧
      objectLookup nestedDocument.text nestedDocument.tokens 0 "b".toList = some 6 := by
  refine ⟨by decide, ?_⟩
  have hparse := nestedDocument.parse_text (n := 64) (by decide)
  obtain ⟨v, hv, -, -, hlookup⟩ := objectLookup_first nestedDocument hparse (o := 0) rfl rfl
  have hroot : v = nestedDocument.root := by
    rcases List.mem_cons.mp hv with he | hv
    · exact (Prod.ext_iff.mp he).2
    · simp [Value.nodes, Members.nodes, bareValue] at hv
  rw [(hlookup "b".toList).2, hroot]
  decide

end SettingsFile

end Hashx86
