import Hashx86.Gui.Tree

/-!
# Focus in a subtree

* `Ok act t`: the invariant. `act` is whether the root of `t` is the root of the tree or focused;
  then its `focusedChild` is its only focused child, and otherwise none is.
* `Lit t`: what holds of a subtree that has got focus inside and waits for its own.
* `passesOn`: the condition on a call of `GetFocus`. A container that may not be focused passes the
  focus on only if it has it.
* `getFocus_ok`, `dropFocus_ok`: the calls keep the invariant.
-/

namespace Hashx86
namespace WidgetTree

open Lib

variable {C : Type}

/-! ## `SetFocus` -/

@[simp] theorem key_node (v : Node C) (cs : List (Tree C)) :
    Rose.key (Rose.node v cs : Tree C) = v.id := rfl

theorem setFocusOf_eq (b : Bool) (f : Option Nat) (cs : List (Tree C)) :
    setFocusOf b f cs = cs.map fun c => if f = some c.key then setFocus b c else c := by
  induction cs with
  | nil => rw [setFocusOf, List.map_nil]
  | cons c cs ih => rw [setFocusOf, ih, List.map_cons]

theorem setFocus_of_eq {b : Bool} {v : Node C} (h : v.isFocused = b) (cs : List (Tree C)) :
    setFocus b (.node v cs) = .node v cs := by
  rw [setFocus, if_pos h]

theorem setFocus_of_ne {b : Bool} {v : Node C} (h : v.isFocused ≠ b) (cs : List (Tree C)) :
    setFocus b (.node v cs) = .node { v with isFocused := b, isDirty := true }
      (cs.map fun c =>
        if (if v.isComposite then v.focusedChild else none) = some c.key then setFocus b c
        else c) := by
  rw [setFocus, if_neg h, setFocusOf_eq]

theorem setFocus_label (b : Bool) (t : Tree C) : (setFocus b t).label =
    if t.label.isFocused = b then t.label
    else { t.label with isFocused := b, isDirty := true } := by
  cases t with
  | node v cs =>
    by_cases h : v.isFocused = b
    · rw [setFocus_of_eq h]
      exact (if_pos h).symm
    · rw [setFocus_of_ne h]
      exact (if_neg h).symm

@[simp] theorem setFocus_isFocused (b : Bool) (t : Tree C) :
    (setFocus b t).label.isFocused = b := by
  rw [setFocus_label]
  split
  · assumption
  · rfl

@[simp] theorem setFocus_key (b : Bool) (t : Tree C) : (setFocus b t).key = t.key := by
  change (setFocus b t).label.id = t.label.id
  rw [setFocus_label]
  split <;> rfl

@[simp] theorem setFocus_isFocussable (b : Bool) (t : Tree C) :
    (setFocus b t).label.isFocussable = t.label.isFocussable := by
  rw [setFocus_label]
  split <;> rfl

/-! ## The invariant -/

inductive Ok : Bool → Tree C → Prop
  | node {act : Bool} {v : Node C} {cs : List (Tree C)} (distinct : Rose.Distinct cs)
      (leaf : v.isComposite = false → cs = [])
      (listed : ∀ i, v.focusedChild = some i → ∃ c ∈ cs, c.key = i)
      (focused : ∀ c ∈ cs, c.label.isFocused = (act && decide (v.focusedChild = some c.key)))
      (children : ∀ c ∈ cs, Ok c.label.isFocused c) : Ok act (.node v cs)

namespace Ok

variable {act : Bool} {v : Node C} {cs : List (Tree C)}

theorem distinct (h : Ok act (.node v cs)) : Rose.Distinct cs := by cases h; assumption

theorem leaf (h : Ok act (.node v cs)) : v.isComposite = false → cs = [] := by cases h; assumption

theorem listed (h : Ok act (.node v cs)) :
    ∀ i, v.focusedChild = some i → ∃ c ∈ cs, c.key = i := by
  cases h
  assumption

theorem focused (h : Ok act (.node v cs)) :
    ∀ c ∈ cs, c.label.isFocused = (act && decide (v.focusedChild = some c.key)) := by
  cases h
  assumption

theorem children (h : Ok act (.node v cs)) : ∀ c ∈ cs, Ok c.label.isFocused c := by
  cases h
  assumption

/-- The label matters by its `focusedChild` only. -/
theorem relabel (h : Ok act (.node v cs)) {u : Node C} (hc : u.isComposite = v.isComposite)
    (hf : u.focusedChild = v.focusedChild) : Ok act (.node u cs) :=
  .node h.distinct (fun hu => h.leaf (hc ▸ hu)) (hf ▸ h.listed) (hf ▸ h.focused) h.children

theorem unfocused (h : Ok false (.node v cs)) {c : Tree C} (hc : c ∈ cs) :
    c.label.isFocused = false ∧ Ok false c := by
  have hf : c.label.isFocused = false := h.focused c hc
  exact ⟨hf, hf ▸ h.children c hc⟩

theorem get?_cons (h : Ok act (.node v cs)) {c : Tree C} (hc : c ∈ cs) {i : Nat} (hk : c.key = i)
    (π : List Nat) : (Rose.node v cs).get? (i :: π) = c.get? π :=
  Rose.get?_of_child (t := .node v cs) h.distinct hc hk

/-- A leaf has no focused child. -/
theorem chain (h : Ok act (.node v cs)) :
    (if v.isComposite then v.focusedChild else none) = v.focusedChild := by
  by_cases hv : v.isComposite
  · exact if_pos hv
  · rw [if_neg hv]
    cases hf : v.focusedChild with
    | none => rfl
    | some i =>
      obtain ⟨c, hc, -⟩ := h.listed i hf
      rw [h.leaf (by simpa using hv)] at hc
      exact absurd hc List.not_mem_nil

end Ok

/-- The focused child of a subtree follows the subtree's root, by induction on the tree. -/
theorem setFocus_ok (b : Bool) (t : Tree C) :
    ∀ {act : Bool}, Ok act t → act = t.label.isFocused → Ok b (setFocus b t) := by
  induction t using Rose.ind with
  | h v cs ih =>
    intro act h ha
    by_cases hb : v.isFocused = b
    · rw [setFocus_of_eq hb, ← hb]
      exact ha ▸ h
    · have hab : act = !b := by
        rw [ha]
        cases hv : v.isFocused <;> cases b <;> simp_all
      rw [setFocus_of_ne hb, h.chain]
      have hkey : ∀ c : Tree C,
          (if v.focusedChild = some c.key then setFocus b c else c).key = c.key := by
        intro c
        split
        · exact setFocus_key b c
        · rfl
      refine .node ?_ (fun hv => by rw [h.leaf hv, List.map_nil]) (fun i hi => ?_) ?_ ?_
      · rw [Rose.Distinct, List.map_map]
        exact (List.map_congr_left fun c _ => hkey c) ▸ h.distinct
      · obtain ⟨c, hc, hci⟩ := h.listed i hi
        exact ⟨_, List.mem_map_of_mem hc, (hkey c).trans hci⟩
      · intro d hd
        obtain ⟨c, hc, rfl⟩ := List.mem_map.mp hd
        rw [hkey]
        by_cases hf : v.focusedChild = some c.key
        · simp [hf]
        · simp [hf, h.focused c hc]
      · intro d hd
        obtain ⟨c, hc, rfl⟩ := List.mem_map.mp hd
        by_cases hf : v.focusedChild = some c.key
        · rw [if_pos hf, setFocus_isFocused]
          exact ih c hc (h.children c hc) rfl
        · rw [if_neg hf]
          exact h.children c hc

/-- The state of a container below which the focus was set, before its own container sets its. -/
def Lit (t : Tree C) : Prop :=
  Ok true (.node t.label (t.children.map fun c =>
    if t.label.focusedChild = some c.key then setFocus true c else c))

theorem map_setFocus_key (b : Bool) (f : Option Nat) (cs : List (Tree C)) :
    (cs.map fun c => if f = some c.key then setFocus b c else c).map Rose.key =
      cs.map Rose.key := by
  rw [List.map_map]
  refine List.map_congr_left fun c _ => ?_
  dsimp only [Function.comp]
  split
  · exact setFocus_key b c
  · rfl

theorem Ok.lit {act : Bool} {t : Tree C} (h : Ok act t) : Lit t := by
  cases t with
  | node v cs =>
    refine .node ?_ (fun hv => by rw [Rose.children_node, h.leaf hv, List.map_nil])
      (fun i hi => ?_) ?_ ?_
    · rw [Rose.Distinct, map_setFocus_key]
      exact h.distinct
    · obtain ⟨c, hc, hci⟩ := h.listed i hi
      refine ⟨_, List.mem_map_of_mem hc, ?_⟩
      split
      · exact (setFocus_key true c).trans hci
      · exact hci
    · intro d hd
      obtain ⟨c, hc, rfl⟩ := List.mem_map.mp hd
      by_cases hf : v.focusedChild = some c.key
      · simp [hf]
      · simp [hf, h.focused c hc]
    · intro d hd
      obtain ⟨c, hc, rfl⟩ := List.mem_map.mp hd
      by_cases hf : v.focusedChild = some c.key
      · rw [Rose.label_node, if_pos hf, setFocus_isFocused]
        exact setFocus_ok true c (h.children c hc) rfl
      · rw [Rose.label_node, if_neg hf]
        exact h.children c hc

/-- When the container then gets the focus, the chain below it is complete. -/
theorem Lit.setFocus {t : Tree C} (h : Lit t) (hf : t.label.isFocused = false) :
    Ok true (setFocus true t) := by
  cases t with
  | node v cs =>
    have hf : v.isFocused = false := hf
    have hchain := h.chain
    rw [Rose.label_node] at hchain
    rw [setFocus_of_ne (by rw [hf]; exact Bool.false_ne_true), hchain]
    exact h.relabel rfl rfl

/-! ## One container -/

theorem mem_raiseKey {i : Nat} {cs : List (Tree C)} {c : Tree C} : c ∈ raiseKey i cs ↔ c ∈ cs := by
  rw [raiseKey, List.mem_append, List.mem_filter, List.mem_filter]
  by_cases hc : c.key = i <;> simp [hc]

theorem distinct_raiseKey {i : Nat} {cs : List (Tree C)} (h : Rose.Distinct cs) :
    Rose.Distinct (raiseKey i cs) := by
  rw [Rose.Distinct, raiseKey, List.map_append]
  refine List.nodup_append.mpr ⟨h.sublist (List.filter_sublist.map _),
    h.sublist (List.filter_sublist.map _), fun a ha b hb hab => ?_⟩
  obtain ⟨c, hc, rfl⟩ := List.mem_map.mp ha
  obtain ⟨d, hd, rfl⟩ := List.mem_map.mp hb
  have hc := of_decide_eq_true (List.mem_filter.mp hc).2
  have hd := of_decide_eq_true (List.mem_filter.mp hd).2
  exact hc (hab.trans hd)

theorem granted_of_focussable {v : Node C} {cs : List (Tree C)} (h : Rose.Distinct cs) {c : Tree C}
    (hc : c ∈ cs) (hf : c.label.isFocussable = true) :
    granted (some c.key) (.node v cs) = some c.key := by
  refine if_neg fun ha => ?_
  obtain ⟨d, hd, hk⟩ := List.any_eq_true.mp ha
  obtain ⟨hk, hn⟩ := of_decide_eq_true hk
  rw [← h.eq hc hd (Option.some.inj hk), hf] at hn
  exact absurd hn (by decide)

theorem granted_of_not_focussable {v : Node C} {cs : List (Tree C)} {c : Tree C} (hc : c ∈ cs)
    (hf : c.label.isFocussable = false) : granted (some c.key) (.node v cs) = none :=
  if_pos (List.any_eq_true.mpr ⟨c, hc, decide_eq_true ⟨rfl, by rw [hf]; rfl⟩⟩)

theorem granted_cases (i : Option Nat) (t : Tree C) : granted i t = none ∨ granted i t = i := by
  unfold granted
  split
  · exact .inl rfl
  · exact .inr rfl

/-- A container before it handles `GetFocus i`: all is well below it, but for a child that has just
got focus inside and is asked for. -/
structure Near (act : Bool) (i : Option Nat) (v : Node C) (cs : List (Tree C)) : Prop where
  distinct : Rose.Distinct cs
  leaf : v.isComposite = false → cs = []
  listed : ∀ k, v.focusedChild = some k → ∃ c ∈ cs, c.key = k
  target : ∀ k, i = some k → ∃ c ∈ cs, c.key = k
  focused : ∀ c ∈ cs, c.label.isFocused = (act && decide (v.focusedChild = some c.key))
  children : ∀ c ∈ cs, Ok c.label.isFocused c ∨
    i = some c.key ∧ c.label.isFocused = false ∧ c.label.isFocussable = true ∧ Lit c

theorem Ok.near {act : Bool} {v : Node C} {cs : List (Tree C)} (h : Ok act (.node v cs))
    {i : Option Nat} (hi : ∀ k, i = some k → ∃ c ∈ cs, c.key = k) : Near act i v cs :=
  ⟨h.distinct, h.leaf, h.listed, hi, h.focused, fun c hc => .inl (h.children c hc)⟩

theorem focusStep_of_eq {i : Option Nat} {v : Node C} {cs : List (Tree C)}
    (h : v.focusedChild = granted i (.node v cs)) :
    focusStep i (.node v cs) = (.node v cs, false) := if_pos h

/-- The children after the focus moved. -/
def moved (old new : Option Nat) (cs : List (Tree C)) : List (Tree C) :=
  let cs := cs.map fun c =>
    if old = some c.key then setFocus false c else if new = some c.key then setFocus true c else c
  match new with
  | none => cs
  | some i => raiseKey i cs

theorem focusStep_of_ne {i : Option Nat} {v : Node C} {cs : List (Tree C)}
    (h : v.focusedChild ≠ granted i (.node v cs)) : (focusStep i (.node v cs)).1 =
      .node { v.dirty (shifts v.focusedChild (granted i (.node v cs)) (.node v cs)) with
        focusedChild := granted i (.node v cs) }
        (moved v.focusedChild (granted i (.node v cs)) cs) := by
  unfold focusStep
  dsimp only [Rose.label_node, Rose.children_node]
  rw [if_neg h]
  rfl

theorem mem_moved {old new : Option Nat} {cs : List (Tree C)} {d : Tree C} :
    d ∈ moved old new cs ↔ ∃ c ∈ cs, d = if old = some c.key then setFocus false c
      else if new = some c.key then setFocus true c else c := by
  have hmap : (d ∈ cs.map fun c => if old = some c.key then setFocus false c
      else if new = some c.key then setFocus true c else c) ↔ ∃ c ∈ cs, d =
      if old = some c.key then setFocus false c else if new = some c.key then setFocus true c
      else c := by
    rw [List.mem_map]
    exact exists_congr fun c => and_congr_right fun _ => eq_comm
  rw [← hmap]
  unfold moved
  cases new with
  | none => exact Iff.rfl
  | some i => exact mem_raiseKey

theorem distinct_moved {old new : Option Nat} {cs : List (Tree C)} (h : Rose.Distinct cs) :
    Rose.Distinct (moved old new cs) := by
  have hmap : Rose.Distinct (cs.map fun c => if old = some c.key then setFocus false c
      else if new = some c.key then setFocus true c else c) := by
    rw [Rose.Distinct, List.map_map]
    refine (List.map_congr_left fun c _ => ?_) ▸ h
    dsimp only [Function.comp]
    split
    · exact (setFocus_key false c).symm
    · split
      · exact (setFocus_key true c).symm
      · rfl
  unfold moved
  cases new with
  | none => exact hmap
  | some i => exact distinct_raiseKey hmap

namespace Near

variable {act : Bool} {i : Option Nat} {v : Node C} {cs : List (Tree C)}

/-- A child that is not well itself is the one asked for, and gets the focus. -/
theorem ok_of_not_granted (h : Near act i v cs) {c : Tree C} (hc : c ∈ cs)
    (hg : granted i (.node v cs) ≠ some c.key) : Ok c.label.isFocused c := by
  rcases h.children c hc with hok | ⟨rfl, -, hf, -⟩
  · exact hok
  · exact absurd (granted_of_focussable h.distinct hc hf) hg

theorem setFocus_true (h : Near act i v cs) {c : Tree C} (hc : c ∈ cs) :
    Ok true (setFocus true c) := by
  rcases h.children c hc with hok | ⟨-, hf, -, hlit⟩
  · exact setFocus_ok true c hok rfl
  · exact hlit.setFocus hf

theorem ok_of_moved (h : Near act i v cs) (hne : v.focusedChild ≠ granted i (.node v cs))
    (b : Bool) (hb : granted i (.node v cs) = none ∨ b = true) :
    Ok b (focusStep i (.node v cs)).1 := by
  rw [focusStep_of_ne hne]
  -- after the move a child is focused exactly if it is the one granted
  have hchild : ∀ d ∈ moved v.focusedChild (granted i (.node v cs)) cs,
      d.label.isFocused = (b && decide (granted i (.node v cs) = some d.key)) ∧
        Ok d.label.isFocused d := by
    intro d hd
    obtain ⟨c, hc, rfl⟩ := mem_moved.mp hd
    by_cases hold : v.focusedChild = some c.key
    · have hg : granted i (.node v cs) ≠ some c.key := fun hg => hne (hold.trans hg.symm)
      rw [if_pos hold, setFocus_isFocused, setFocus_key, decide_eq_false hg, Bool.and_false]
      exact ⟨rfl, setFocus_ok false c (h.ok_of_not_granted hc hg) rfl⟩
    · rw [if_neg hold]
      by_cases hg : granted i (.node v cs) = some c.key
      · have hb : b = true := hb.resolve_left (by simp [hg])
        rw [if_pos hg, setFocus_isFocused, setFocus_key, hb, decide_eq_true hg]
        exact ⟨rfl, h.setFocus_true hc⟩
      · rw [if_neg hg, decide_eq_false hg, Bool.and_false]
        refine ⟨?_, h.ok_of_not_granted hc hg⟩
        rw [h.focused c hc, decide_eq_false hold, Bool.and_false]
  refine .node (distinct_moved h.distinct) (fun hv => ?_) (fun k hk => ?_)
    (fun d hd => (hchild d hd).1) fun d hd => (hchild d hd).2
  · rw [List.eq_nil_iff_forall_not_mem]
    intro d hd
    obtain ⟨c, hc, -⟩ := mem_moved.mp hd
    rw [h.leaf hv] at hc
    exact absurd hc List.not_mem_nil
  · have hk : granted i (.node v cs) = some k := hk
    have hi : granted i (.node v cs) = i := (granted_cases i _).resolve_left (by simp [hk])
    obtain ⟨c, hc, hck⟩ := h.target k (hi.symm.trans hk)
    refine ⟨_, mem_moved.mpr ⟨c, hc, rfl⟩, ?_⟩
    split
    · exact (setFocus_key false c).trans hck
    · split
      · exact (setFocus_key true c).trans hck
      · exact hck

/-- What `GetFocus` leaves of a container, up to the call on its parent. -/
theorem focusStep (h : Near act i v cs) : Lit (focusStep i (.node v cs)).1 ∧
    (act = true → Ok true (WidgetTree.focusStep i (.node v cs)).1) := by
  by_cases hne : v.focusedChild = granted i (.node v cs)
  · rw [focusStep_of_eq hne]
    refine ⟨.node ?_ (fun hv => ?_) (fun k hk => ?_) (fun d hd => ?_) (fun d hd => ?_), ?_⟩
    · rw [Rose.Distinct, map_setFocus_key]
      exact h.distinct
    · rw [Rose.children_node, h.leaf hv, List.map_nil]
    · obtain ⟨c, hc, hck⟩ := h.listed k hk
      refine ⟨_, List.mem_map_of_mem hc, ?_⟩
      split
      · exact (setFocus_key true c).trans hck
      · exact hck
    · obtain ⟨c, hc, rfl⟩ := List.mem_map.mp hd
      by_cases hf : v.focusedChild = some c.key
      · simp [hf]
      · simp [hf, h.focused c hc]
    · obtain ⟨c, hc, rfl⟩ := List.mem_map.mp hd
      by_cases hf : v.focusedChild = some c.key
      · rw [Rose.label_node, if_pos hf, setFocus_isFocused]
        exact h.setFocus_true hc
      · rw [Rose.label_node, if_neg hf]
        exact h.ok_of_not_granted hc (hne ▸ hf)
    · rintro rfl
      refine .node h.distinct h.leaf h.listed h.focused fun c hc => ?_
      by_cases hf : v.focusedChild = some c.key
      · rcases h.children c hc with hok | ⟨-, hn, -⟩
        · exact hok
        · rw [h.focused c hc, decide_eq_true hf] at hn
          exact absurd hn (by decide)
      · exact h.ok_of_not_granted hc (hne ▸ hf)
  · have hok := h.ok_of_moved hne true (.inr rfl)
    exact ⟨hok.lit, fun _ => hok⟩

/-- No focus is set in a container that is well and asked for nothing that it may grant. -/
theorem quiet (h : Near act i v cs) (ha : act = false) (hok : ∀ c ∈ cs, Ok false c)
    (hq : granted i (.node v cs) = none ∨ v.focusedChild = i) :
    Ok false (WidgetTree.focusStep i (.node v cs)).1 := by
  subst ha
  by_cases hne : v.focusedChild = granted i (.node v cs)
  · rw [focusStep_of_eq hne]
    exact .node h.distinct h.leaf h.listed h.focused fun c hc => by
      rw [h.focused c hc]
      exact hok c hc
  · refine h.ok_of_moved hne false (.inl ?_)
    rcases hq with hq | hq
    · exact hq
    · exact (granted_cases i _).resolve_right fun hg => hne (hq.trans hg.symm)

end Near

/-! ## The call up to the root -/

/-- The call sets no focus in the subtree. -/
def quiet : List Nat → Option Nat → Tree C → Bool
  | [], widget, t => granted widget t = none || t.label.focusedChild = widget
  | i :: π, widget, t => t.children.all fun c =>
    c.key ≠ i || quiet π widget c && (!c.label.isFocussable || t.label.focusedChild = some i)

/-- The call is for a child or null, and each container on the way up may be focused, is focused, or
has no focus set in it by the call. -/
def passesOn : List Nat → Option Nat → Tree C → Bool
  | [], widget, t => widget.all fun i => t.children.any (·.key = i)
  | i :: π, widget, t => t.children.all fun c =>
    c.key ≠ i || passesOn π widget c &&
      (c.label.isFocussable || c.label.isFocused || quiet π widget c)

/-- Only the dirty flag and the `focusedChild` of the label have changed. -/
def SameFlags (t' t : Tree C) : Prop :=
  ∃ d f, t'.label = { t.label with isDirty := d, focusedChild := f }

theorem SameFlags.key {t' t : Tree C} (h : SameFlags t' t) : t'.key = t.key := by
  obtain ⟨d, f, he⟩ := h
  change t'.label.id = t.label.id
  rw [he]

theorem SameFlags.isFocused {t' t : Tree C} (h : SameFlags t' t) :
    t'.label.isFocused = t.label.isFocused := by
  obtain ⟨d, f, he⟩ := h
  rw [he]

theorem SameFlags.isFocussable {t' t : Tree C} (h : SameFlags t' t) :
    t'.label.isFocussable = t.label.isFocussable := by
  obtain ⟨d, f, he⟩ := h
  rw [he]

theorem SameFlags.trans {t'' t' t : Tree C} (h : SameFlags t'' t') (h' : SameFlags t' t) :
    SameFlags t'' t := by
  obtain ⟨d, f, he⟩ := h
  obtain ⟨d', f', he'⟩ := h'
  exact ⟨d, f, by rw [he, he']⟩

theorem focusStep_same (i : Option Nat) (t : Tree C) : SameFlags (focusStep i t).1 t := by
  cases t with
  | node v cs =>
    by_cases h : v.focusedChild = granted i (.node v cs)
    · rw [focusStep_of_eq h]
      exact ⟨v.isDirty, v.focusedChild, rfl⟩
    · rw [focusStep_of_ne h]
      exact ⟨_, _, rfl⟩

/-- A container when the call in its child `i` is done, before it handles its own. -/
def afterChild (i : Nat) (π : List Nat) (widget : Option Nat) (t : Tree C) : Tree C :=
  .node (t.label.dirty (t.children.any fun c => c.key = i && (getFocus π widget c).2))
    (Rose.mapKey i (fun c => (getFocus π widget c).1) t.children)

theorem getFocus_cons (i : Nat) (π : List Nat) (widget : Option Nat) (t : Tree C) :
    (getFocus (i :: π) widget t).1 = (focusStep (some i) (afterChild i π widget t)).1 := rfl

theorem getFocus_same (π : List Nat) (widget : Option Nat) (t : Tree C) :
    SameFlags (getFocus π widget t).1 t := by
  cases π with
  | nil => exact focusStep_same widget t
  | cons i π =>
    rw [getFocus_cons]
    exact (focusStep_same _ _).trans ⟨_, t.label.focusedChild, rfl⟩

/-- A container whose child `i` was changed by a call in it. -/
theorem Ok.near_afterChild {act : Bool} {v : Node C} {cs : List (Tree C)} (h : Ok act (.node v cs))
    {u : Node C} (hu : u.isComposite = v.isComposite) (huf : u.focusedChild = v.focusedChild)
    {i : Nat} {f : Tree C → Tree C} (hf : ∀ t, SameFlags (f t) t) (hi : ∃ c ∈ cs, c.key = i)
    (hc : ∀ c ∈ cs, c.key = i → Ok c.label.isFocused (f c) ∨
      c.label.isFocused = false ∧ c.label.isFocussable = true ∧ Lit (f c)) :
    Near act (some i) u (Rose.mapKey i f cs) where
  distinct := by
    rw [Rose.Distinct, Rose.map_key_mapKey fun t => (hf t).key]
    exact h.distinct
  leaf := fun hv => by
    rw [h.leaf (hu ▸ hv)]
    rfl
  listed := fun k hk => by
    obtain ⟨c, hc, hck⟩ := h.listed k (huf ▸ hk)
    refine ⟨_, Rose.mem_mapKey.mpr ⟨c, hc, rfl⟩, ?_⟩
    split
    · exact (hf c).key.trans hck
    · exact hck
  target := fun k hk => by
    obtain ⟨c, hc, hck⟩ := hi
    refine ⟨_, Rose.mem_mapKey.mpr ⟨c, hc, rfl⟩, ?_⟩
    rw [if_pos hck, (hf c).key, hck]
    exact Option.some.inj hk
  focused := fun d hd => by
    obtain ⟨c, hc, rfl⟩ := Rose.mem_mapKey.mp hd
    rw [huf]
    split
    · rw [(hf c).isFocused, (hf c).key]
      exact h.focused c hc
    · exact h.focused c hc
  children := fun d hd => by
    obtain ⟨c, hcm, rfl⟩ := Rose.mem_mapKey.mp hd
    by_cases hk : c.key = i
    · rw [if_pos hk, (hf c).isFocused, (hf c).key, (hf c).isFocussable]
      exact (hc c hcm hk).imp_right fun hl => ⟨by rw [hk], hl⟩
    · rw [if_neg hk]
      exact .inl (h.children c hcm)

/-- The call keeps the invariant, by induction on the path of the container. -/
theorem getFocus_ok (π : List Nat) (widget : Option Nat) : ∀ {act : Bool} {t s : Tree C},
    Ok act t → t.get? π = some s → passesOn π widget t →
      Lit (getFocus π widget t).1 ∧ (act = true → Ok true (getFocus π widget t).1) ∧
      (act = false → quiet π widget t → Ok false (getFocus π widget t).1) := by
  induction π with
  | nil =>
    intro act t s h _ hp
    cases t with
    | node v cs =>
      have hnear : Near act widget v cs := h.near fun k hk => by
        subst hk
        obtain ⟨c, hc, hck⟩ := List.any_eq_true.mp hp
        exact ⟨c, hc, of_decide_eq_true hck⟩
      refine ⟨hnear.focusStep.1, hnear.focusStep.2, fun ha hq => ?_⟩
      subst ha
      exact hnear.quiet rfl (fun c hc => (h.unfocused hc).2)
        ((Bool.or_eq_true _ _).mp hq |>.imp of_decide_eq_true of_decide_eq_true)
  | cons i π ih =>
    intro act t s h hs hp
    cases t with
    | node v cs =>
      obtain ⟨c0, hc0, hk0, hs0⟩ := Rose.get?_cons hs
      have hc0 : c0 ∈ cs := hc0
      have hpass : passesOn π widget c0 = true ∧
          (c0.label.isFocussable = true ∨ c0.label.isFocused = true ∨
            quiet π widget c0 = true) := by
        have hp := List.all_eq_true.mp hp c0 hc0
        simpa [hk0, or_assoc] using hp
      obtain ⟨hlit, htrue, hfalse⟩ := ih (h.children c0 hc0) hs0 hpass.1
      have honly : ∀ c ∈ cs, c.key = i → c = c0 := fun c hc hk =>
        h.distinct.eq hc hc0 (hk.trans hk0.symm)
      have hnear := h.near_afterChild
        (u := v.dirty (cs.any fun c => c.key = i && (getFocus π widget c).2)) rfl rfl
        (fun t => getFocus_same π widget t) ⟨c0, hc0, hk0⟩ fun c hc hk => by
          obtain rfl := honly c hc hk
          cases hf : c.label.isFocused with
          | true =>
            rw [hf] at htrue
            exact .inl (htrue rfl)
          | false =>
            rw [hf] at hfalse
            rcases hpass.2 with hp | hp | hp
            · exact .inr ⟨rfl, hp, hlit⟩
            · exact absurd (hf.symm.trans hp) (by decide)
            · exact .inl (hfalse rfl hp)
      rw [getFocus_cons]
      refine ⟨hnear.focusStep.1, hnear.focusStep.2, fun ha hq => ?_⟩
      subst ha
      have hq := List.all_eq_true.mp hq c0 hc0
      have hq : quiet π widget c0 = true ∧
          (c0.label.isFocussable = false ∨ v.focusedChild = some i) := by
        rw [hk0, decide_eq_false (not_not.mpr rfl), Bool.false_or, Bool.and_eq_true] at hq
        exact ⟨hq.1, (Bool.or_eq_true _ _).mp hq.2 |>.imp (by simp) of_decide_eq_true⟩
      refine hnear.quiet rfl (fun d hd => ?_) ?_
      · obtain ⟨c, hc, rfl⟩ := Rose.mem_mapKey.mp hd
        by_cases hk : c.key = i
        · obtain rfl := honly c hc hk
          rw [if_pos hk]
          exact hfalse (h.unfocused hc).1 hq.1
        · rw [if_neg hk]
          exact (h.unfocused hc).2
      · refine hq.2.imp (fun hf => ?_) id
        have hd : (getFocus π widget c0).1 ∈ Rose.mapKey i (fun c => (getFocus π widget c).1) cs :=
          Rose.mem_mapKey.mpr ⟨c0, hc0, (if_pos hk0).symm⟩
        have hg : ∀ u : Node C, granted (some (getFocus π widget c0).1.key) (.node u _) = none :=
          fun u => granted_of_not_focussable hd ((getFocus_same π widget c0).isFocussable.trans hf)
        rw [(getFocus_same π widget c0).key, hk0] at hg
        exact hg _

/-! ## Losing the focus -/

/-- A widget that has the focus is at the end of a chain of focused ones. -/
theorem Ok.active {π : List Nat} : ∀ {i : Nat} {act : Bool} {v : Node C} {cs : List (Tree C)}
    {s : Tree C}, Ok act (.node v cs) → (Rose.node v cs).get? (i :: π) = some s →
    s.label.isFocused = true → act = true ∧ v.focusedChild = some i := by
  induction π with
  | nil =>
    intro i act v cs s h hs hf
    obtain ⟨c, hc, hk, he⟩ := Rose.get?_cons hs
    obtain rfl := Option.some.inj he
    rw [h.focused c hc, Bool.and_eq_true, decide_eq_true_iff, hk] at hf
    exact hf
  | cons j π ih =>
    intro i act v cs s h hs hf
    obtain ⟨c, hc, hk, he⟩ := Rose.get?_cons hs
    have hcf : c.label.isFocused = true := by
      have hok := h.children c hc
      cases c with
      | node u ds => exact (ih hok he hf).1
    rw [h.focused c hc, Bool.and_eq_true, decide_eq_true_iff, hk] at hcf
    exact hcf

theorem along_same {g : Node C → Node C} (hg : ∀ v, ∃ d, g v = { v with isDirty := d })
    (f : Tree C → Tree C) (i : Nat) (π : List Nat) (t : Tree C) :
    SameFlags (t.along g f (i :: π)) t := by
  obtain ⟨d, hd⟩ := hg t.label
  exact ⟨d, t.label.focusedChild, hd⟩

theorem dirty_same (b : Bool) (v : Node C) : ∃ d, v.dirty b = { v with isDirty := d } := ⟨_, rfl⟩

theorem key_setFocus_along (b : Bool) (π : List Nat) (t : Tree C) :
    (t.along (Node.dirty true) (setFocus b) π).key = t.key :=
  Rose.key_along (g := Node.dirty true) (fun _ => rfl) (setFocus_key b) π t

/-- The focus is taken from a widget and from its container, by induction on the path of the
container. The containers above keep theirs. -/
theorem dropFocus_ok (k : Nat) (π : List Nat) : ∀ {act : Bool} {t s : Tree C}, Ok act t →
    t.get? (π ++ [k]) = some s → s.label.isFocused = true →
      Ok true (getFocus π none (t.along (Node.dirty true) (setFocus false) (π ++ [k]))).1 := by
  induction π with
  | nil =>
    intro act t s h hs hf
    cases t with
    | node v cs =>
      obtain ⟨rfl, hfc⟩ := h.active hs hf
      have hfd : (v.dirty true).focusedChild = some k := hfc
      have hne : (v.dirty true).focusedChild ≠
          granted none (.node (v.dirty true) (Rose.mapKey k (setFocus false) cs)) := by
        rcases granted_cases none (.node (v.dirty true) (Rose.mapKey k (setFocus false) cs)) with
          hg | hg <;> rw [hg] <;> exact fun he => absurd (hfc.symm.trans he) (by simp)
      have hg : granted none (.node (v.dirty true) (Rose.mapKey k (setFocus false) cs)) = none :=
        (granted_cases none _).elim id id
      change Ok true (focusStep none (.node (v.dirty true) (Rose.mapKey k (setFocus false) cs))).1
      rw [focusStep_of_ne hne, hg]
      -- no child is focused
      have hchild : ∀ d ∈ moved (v.dirty true).focusedChild none
          (Rose.mapKey k (setFocus false) cs), d.label.isFocused = false ∧ Ok false d := by
        intro d hd
        obtain ⟨e, he, rfl⟩ := mem_moved.mp hd
        obtain ⟨c, hc, rfl⟩ := Rose.mem_mapKey.mp he
        have hok := setFocus_ok false c (h.children c hc) rfl
        by_cases hk : c.key = k
        · rw [if_pos hk, setFocus_key, hk, if_pos hfd, setFocus_isFocused]
          exact ⟨rfl, setFocus_ok false _ hok (setFocus_isFocused false c).symm⟩
        · have hnf : (v.dirty true).focusedChild ≠ some c.key :=
            fun e => hk (Option.some.inj (e.symm.trans hfc))
          have hcf : c.label.isFocused = false := by
            rw [h.focused c hc]
            exact decide_eq_false hnf
          rw [if_neg hk, if_neg hnf, if_neg (by simp)]
          exact ⟨hcf, hcf ▸ h.children c hc⟩
      refine .node (distinct_moved ?_) (fun hv => ?_) (fun i hi => absurd hi (by simp))
        (fun d hd => by simpa using (hchild d hd).1)
        fun d hd => by rw [(hchild d hd).1]; exact (hchild d hd).2
      · rw [Rose.Distinct, Rose.map_key_mapKey (setFocus_key false)]
        exact h.distinct
      · rw [h.leaf hv]
        rfl
  | cons i π ih =>
    intro act t s h hs hf
    cases t with
    | node v cs =>
      obtain ⟨rfl, hfc⟩ := h.active hs hf
      obtain ⟨c0, hc0, hk0, hs0⟩ := Rose.get?_cons hs
      have hcf : c0.label.isFocused = true := by
        rw [h.focused c0 hc0, hk0]
        simp [hfc]
      have hsame : ∀ t : Tree C, SameFlags
          (getFocus π none (t.along (Node.dirty true) (setFocus false) (π ++ [k]))).1 t := by
        intro t
        refine (getFocus_same π none _).trans ?_
        cases π with
        | nil => exact along_same (dirty_same true) _ k [] t
        | cons j π => exact along_same (dirty_same true) _ j (π ++ [k]) t
      have hnear := h.near_afterChild (u := (v.dirty true).dirty
          ((Rose.mapKey i (Rose.along (Node.dirty true) (setFocus false) (π ++ [k])) cs).any
            fun c => c.key = i && (getFocus π none c).2)) rfl rfl hsame ⟨c0, hc0, hk0⟩
        fun c hc hk => by
          obtain rfl := h.distinct.eq hc hc0 (hk.trans hk0.symm)
          rw [hcf]
          exact .inl (ih (h.children c hc) hs0 hf)
      rw [getFocus_cons, List.cons_append, Rose.along, afterChild]
      rw [Rose.children_node, Rose.label_node, Rose.mapKey_mapKey (key_setFocus_along false _)]
      exact hnear.focusStep.2 rfl

end WidgetTree
end Hashx86
