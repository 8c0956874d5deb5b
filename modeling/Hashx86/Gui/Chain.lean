import Hashx86.Gui.Route

/-!
# The focus chain

* `Chained`: the focused widgets form one chain of `focusedChild` pointers, and a key reaches the
  leaf that shows focus.
* `Passes`, `Allowed`: the conditions on a call of `GetFocus` and on a step.
* `Well`: the invariant of a run. Each operation has a lemma that it keeps it.
* `chained_along`: the chain is there after each allowed step of a run.
-/

namespace Hashx86
namespace WidgetTree

open Lib

variable {C : Type}

/-! ## Runs -/

inductive FocusOp (C : Type) where
  | call (c : Call)
  | setFocussable (π : List Nat) (focussable : Bool)
  | setEnabled (π : List Nat) (value : Bool)
  | addChild (π : List Nat) (child : Tree C)
  | removeChild (π : List Nat) (child : Nat)
  | press (x y : Int) (button : Nat)
  | tab (backwards : Bool)

def FocusOp.step (t : Tree C) : FocusOp C → Tree C
  | .call c => c.step t
  | .setFocussable π focussable => WidgetTree.setFocussable π focussable t
  | .setEnabled π value => WidgetTree.setEnabled π value t
  | .addChild π child => WidgetTree.addChild π child t
  | .removeChild π child => WidgetTree.removeChild π child t
  | .press x y button => run Call.step t (onMouseDown [] x y button t)
  | .tab backwards => run Call.step t (onTabFocus backwards t)

/-- The focused widgets form one chain, and a key reaches the leaf that shows focus. -/
structure Chained (t : Tree C) : Prop where
  listed : ∀ π s i, t.get? π = some s → s.label.focusedChild = some i →
    ∃ c ∈ s.children, c.key = i
  focused : ∀ π s c, t.get? π = some s → c ∈ s.children → c.label.isFocused = true →
    s.label.focusedChild = some c.key
  unique : ∀ π s c d, t.get? π = some s → c ∈ s.children → d ∈ s.children →
    c.label.isFocused = true → d.label.isFocused = true → c = d
  ancestors : ∀ π ρ s a, t.get? (π ++ ρ) = some s → s.label.isFocused = true → t.get? π = some a →
    π = [] ∨ a.label.isFocused = true
  reached : ∀ π s, t.get? π = some s → s.label.isFocused = true → s.label.isComposite = false →
    (∀ ρ a, ρ <+: π → t.get? ρ = some a → a.label.isVisible = true) → onKeyDown t = some π

/-- The call of a container keeps the chain: it is for a child or null, the containers on the way
pass it on, and none of those that the focus goes through is shown but disabled. -/
def Passes (t : Tree C) : Call → Prop
  | .getFocus π widget => ∀ s, t.get? π = some s → s.label.isComposite = true →
    passesOn π widget t = true ∧ route hears π widget t = route seen π widget t
  | .topmost _ => True

def Allowed (t : Tree C) : FocusOp C → Prop
  | .call c => Passes t c
  | .setFocussable _ _ => True
  | .setEnabled π value => π = [] → value = false → follow seen t = none
  | .addChild π child => (∀ s, t.get? π = some s → s.label.isComposite = true) ∧
    Ok false child ∧ child.label.isFocused = false
  | .removeChild _ _ => True
  | .press x y button => Along Call.step Passes t (onMouseDown [] x y button t)
  | .tab backwards => Along Call.step Passes t (onTabFocus backwards t)

/-- The invariant of a run. -/
structure Well (t : Tree C) : Prop where
  ok : Ok true t
  unfocused : t.label.isFocused = false
  heard : follow hears t = follow seen t

theorem requestFocus_of_composite {t s : Tree C} {π : List Nat} (hs : t.get? π = some s)
    (hc : s.label.isComposite = true) (widget : Option Nat) :
    requestFocus π widget t = (getFocus π widget t).1 := by
  rw [requestFocus, hs]
  exact if_pos hc

theorem Well.requestFocus {t : Tree C} (h : Well t) {π : List Nat} {widget : Option Nat}
    (hr : Passes t (.getFocus π widget)) : Well (requestFocus π widget t) := by
  by_cases hc : (t.get? π).any (·.label.isComposite)
  · obtain ⟨s, hs, hc⟩ := (Option.any_eq_true _ _).mp hc
    obtain ⟨hp, heq⟩ := hr s hs hc
    have hway := h.ok.way hs hc
    rw [requestFocus_of_composite hs hc]
    refine ⟨(getFocus_ok π widget h.ok hs hp).2.1 rfl, ?_, ?_⟩
    · exact (getFocus_same π widget t).isFocused.trans h.unfocused
    · rw [follow_getFocus plain_hears π widget hway, follow_getFocus plain_seen π widget hway, heq]
  · rw [WidgetTree.requestFocus, if_neg hc]
    exact h

/-- The focus is gone from the tree with the widget that had it. -/
theorem dropFocus_well {t s : Tree C} {π : List Nat} (h : Ok true t)
    (hu : t.label.isFocused = false) (hs : t.get? π = some s) (hf : s.label.isFocused = true) :
    Well (dropFocus π t) := by
  rcases List.eq_nil_or_concat π with rfl | ⟨π, k, rfl⟩
  · obtain rfl := Option.some.inj hs
    exact absurd (hu.symm.trans hf) (by decide)
  rw [List.concat_eq_append] at hs ⊢
  obtain ⟨s', hs', hk⟩ := Rose.get?_append.mp hs
  have hcomp : s'.label.isComposite = true := by
    obtain ⟨c, hc, -⟩ := Rose.get?_cons hk
    obtain ⟨act, hok⟩ := h.get? hs'
    cases s' with
    | node u ds => exact hok.isComposite hc
  have hway := (h.way hs' hcomp).along (dirties_dirty true) (f := setFocus false) k
  have hget := Rose.get?_along_append (g := Node.dirty true) (f := setFocus false) (fun _ => rfl)
    (setFocus_key false) π k t
  rw [hs', Option.map_some] at hget
  unfold dropFocus
  dsimp only
  rw [if_neg (by simp), List.dropLast_concat]
  rw [requestFocus_of_composite hget hcomp]
  refine ⟨dropFocus_ok k π h hs hf, ?_, ?_⟩
  · refine (getFocus_same π none _).isFocused.trans ?_
    cases π with
    | nil => exact hu
    | cons i π => exact hu
  · rw [follow_getFocus plain_hears π none hway, follow_getFocus plain_seen π none hway,
      route_none, route_none]

/-! ## The operations -/

/-- A change of other fields of one label. -/
theorem Well.relabel {t : Tree C} (h : Well t) {u : Node C → Node C} (π : List Nat)
    (hu : ∀ v, (u v).id = v.id ∧ (u v).isFocused = v.isFocused ∧
      (u v).isComposite = v.isComposite ∧ (u v).focusedChild = v.focusedChild) :
    Ok true (t.along id (Rose.relabel u) π) ∧
      (t.along id (Rose.relabel u) π).label.isFocused = false := by
  refine ⟨h.ok.along dirties_id (Rose.key_relabel fun v => (hu v).1) (fun t => ?_)
    fun s act _ hok => ?_, ?_⟩
  · cases t with
    | node v cs => exact (hu v).2.1
  · cases s with
    | node v cs => exact hok.relabel (hu v).2.2.1 (hu v).2.2.2
  · have hunf := h.unfocused
    cases t with
    | node v cs =>
      cases π with
      | nil => exact (hu v).2.1.trans hunf
      | cons i π => exact hunf

theorem Well.setFocussable {t : Tree C} (h : Well t) (π : List Nat) (focussable : Bool) :
    Well (setFocussable π focussable t) := by
  have hkey := Rose.key_relabel (α := Node C) (u := fun v => { v with isFocussable := focussable })
    fun _ => rfl
  obtain ⟨hok, hunf⟩ := h.relabel (u := fun v => { v with isFocussable := focussable }) π
    fun _ => ⟨rfl, rfl, rfl, rfl⟩
  unfold WidgetTree.setFocussable
  dsimp only
  split
  · next hb =>
    obtain ⟨s, hs, hf⟩ := (Option.any_eq_true _ _).mp (Bool.and_eq_true _ _ |>.mp hb).2
    have hget := Rose.get?_along (g := id) dirties_id.key hkey π t
    rw [hs, Option.map_some] at hget
    refine dropFocus_well hok hunf hget ?_
    cases s with
    | node v cs => exact hf
  · refine ⟨hok, hunf, ?_⟩
    have hsame : ∀ p : Node C → Bool, Plain p → follow p (t.along id
        (Rose.relabel fun v => { v with isFocussable := focussable }) π) = follow p t := by
      refine fun p hp => follow_along hp dirties_id hkey h.ok fun s _ => .inl ?_
      cases s with
      | node v cs => exact follow_congr hp rfl rfl rfl rfl
    rw [hsame _ plain_hears, hsame _ plain_seen, h.heard]

theorem Well.markDirty {t : Tree C} (h : Well t) (π : List Nat) : Well (markDirty π t) := by
  have hkey := Rose.key_relabel (α := Node C) (u := Node.dirty true) fun _ => rfl
  have hsame : ∀ p : Node C → Bool, Plain p → follow p (WidgetTree.markDirty π t) = follow p t := by
    refine fun p hp => follow_along hp (dirties_dirty true) hkey h.ok fun s _ => .inl ?_
    cases s with
    | node v cs => exact follow_congr hp rfl rfl rfl rfl
  refine ⟨h.ok.along (dirties_dirty true) hkey (fun t => ?_) fun s act _ hok => ?_, ?_, ?_⟩
  · cases t with
    | node v cs => rfl
  · cases s with
    | node v cs => exact hok.relabel rfl rfl
  · have hunf := h.unfocused
    cases t with
    | node v cs => cases π <;> exact hunf
  · rw [hsame _ plain_hears, hsame _ plain_seen, h.heard]

/-- Whether a widget is on does not matter for what is seen. -/
theorem follow_seen_enabled (value : Bool) (s : Tree C) :
    follow seen (s.relabel fun v => { v with enabled := value }) = follow seen s := by
  cases s with
  | node v cs =>
    cases hv : v.isComposite with
    | false =>
      rw [follow_leaf hv]
      exact follow_leaf (p := seen) (v := { v with enabled := value }) hv
    | true =>
      rw [follow_node hv]
      exact follow_node (p := seen) (v := { v with enabled := value }) hv

/-- A container with one child raised. -/
def raised (k : Nat) (s : Tree C) : Tree C := .node s.label (raiseKey k s.children)

theorem Ok.raised {act : Bool} {v : Node C} {cs : List (Tree C)} (h : Ok act (.node v cs))
    (k : Nat) : Ok act (WidgetTree.raised k (.node v cs)) := by
  refine .node (distinct_raiseKey h.distinct) (fun hv => ?_) (fun i hi => ?_)
    (fun c hc => h.focused c (mem_raiseKey.mp hc)) fun c hc => h.children c (mem_raiseKey.mp hc)
  · rw [Rose.children_node, h.leaf hv]
    rfl
  · obtain ⟨c, hc, hk⟩ := h.listed i hi
    exact ⟨c, mem_raiseKey.mpr hc, hk⟩

theorem Ok.follow_raised {act : Bool} {v : Node C} {cs : List (Tree C)} (h : Ok act (.node v cs))
    (hp : Plain p) (k : Nat) :
    follow p (WidgetTree.raised k (.node v cs)) = follow p (.node v cs) := by
  refine follow_congr hp rfl rfl rfl ?_
  dsimp only [Rose.label_node, Rose.children_node]
  cases hfc : v.focusedChild with
  | none => rw [followOf_none, followOf_none]
  | some i =>
    obtain ⟨c, hc, rfl⟩ := h.listed i hfc
    rw [followOf_of_mem h.distinct hc,
      followOf_of_mem (distinct_raiseKey h.distinct) (mem_raiseKey.mpr hc)]

theorem Well.requestTopmostFocus {t : Tree C} (h : Well t) (π : List Nat) :
    Well (requestTopmostFocus π t) := by
  unfold WidgetTree.requestTopmostFocus
  split
  · exact h
  · next k _ =>
    have hsame : ∀ p : Node C → Bool, Plain p →
        follow p (t.along id (raised k) π.dropLast) = follow p t := by
      refine fun p hp => follow_along hp dirties_id (f := raised k) (fun _ => rfl) h.ok
        fun s hs => .inl ?_
      obtain ⟨act, hok⟩ := h.ok.get? hs
      cases s with
      | node v cs => exact hok.follow_raised hp k
    refine Well.markDirty ⟨h.ok.along dirties_id (f := raised k) (fun _ => rfl) (fun _ => rfl)
      fun s act _ hok => ?_, ?_, ?_⟩ π.dropLast
    · cases s with
      | node v cs => exact hok.raised k
    · cases π.dropLast <;> exact h.unfocused
    · exact (hsame _ plain_hears).trans (h.heard.trans (hsame _ plain_seen).symm)

theorem Well.call {t : Tree C} (h : Well t) {c : Call} (hc : Passes t c) : Well (c.step t) := by
  cases c with
  | getFocus π widget => exact h.requestFocus hc
  | topmost π => exact h.requestTopmostFocus π

theorem Well.setEnabled {t : Tree C} (h : Well t) {π : List Nat} {value : Bool}
    (ha : π = [] → value = false → follow seen t = none) : Well (setEnabled π value t) := by
  have hkey := Rose.key_relabel (α := Node C) (u := fun v => { v with enabled := value })
    fun _ => rfl
  obtain ⟨hok, hunf⟩ := h.relabel (u := fun v => { v with enabled := value }) π
    fun _ => ⟨rfl, rfl, rfl, rfl⟩
  have hseen : follow seen (t.along id (Rose.relabel fun v => { v with enabled := value }) π) =
      follow seen t :=
    follow_along plain_seen dirties_id hkey h.ok fun s _ => .inl (follow_seen_enabled value s)
  unfold WidgetTree.setEnabled
  split
  · exact h
  · next hdiff =>
    refine Well.markDirty ?_ π
    split
    · next hb =>
      obtain ⟨s, hs, hf⟩ := (Option.any_eq_true _ _).mp (Bool.and_eq_true _ _ |>.mp hb).2
      have hget := Rose.get?_along (g := id) dirties_id.key hkey π t
      rw [hs, Option.map_some] at hget
      refine dropFocus_well hok hunf hget ?_
      cases s with
      | node v cs => exact hf
    · next hb =>
      refine ⟨hok, hunf, ?_⟩
      cases value with
      | true =>
        cases hr : follow hears t with
        | some ρ => rw [follow_enable π t hr, hseen, ← h.heard, hr]
        | none =>
          rw [hseen, ← h.heard, hr, Option.eq_none_iff_forall_ne_some]
          intro ρ hρ
          have hρ := follow_hears _ hρ
          rw [hseen, ← h.heard, hr] at hρ
          exact absurd hρ (by simp)
      | false =>
        by_cases hπ : π = []
        · have hn := hseen.trans (ha hπ rfl)
          rw [hn, Option.eq_none_iff_forall_ne_some]
          intro ρ hρ
          exact absurd (hn.symm.trans (follow_hears _ hρ)) (by simp)
        · rw [hseen, ← h.heard]
          refine follow_along plain_hears dirties_id hkey h.ok fun s hs => .inr ⟨rfl, ?_, hπ⟩
          rw [hs] at hb
          simpa using hb

theorem Ok.append {act : Bool} {v : Node C} {cs : List (Tree C)} {child : Tree C}
    (h : Ok act (.node v cs)) (hv : v.isComposite = true) (hnew : ∀ c ∈ cs, c.key ≠ child.key)
    (hchild : Ok false child) (hf : child.label.isFocused = false) :
    Ok act (.node v (cs ++ [child])) := by
  have hfc : v.focusedChild ≠ some child.key := by
    intro he
    obtain ⟨c, hc, hk⟩ := h.listed _ he
    exact hnew c hc hk
  refine .node ?_ (fun hl => absurd (hv.symm.trans hl) (by decide)) (fun i hi => ?_)
    (fun c hc => ?_) fun c hc => ?_
  · rw [Rose.Distinct, List.map_append, List.map_singleton, List.nodup_append]
    refine ⟨h.distinct, List.nodup_singleton _, fun a ha b hb => ?_⟩
    obtain ⟨c, hc, rfl⟩ := List.mem_map.mp ha
    rw [List.mem_singleton.mp hb]
    exact hnew c hc
  · obtain ⟨c, hc, hk⟩ := h.listed i hi
    exact ⟨c, List.mem_append_left _ hc, hk⟩
  · rcases List.mem_append.mp hc with hc | hc
    · exact h.focused c hc
    · rw [List.mem_singleton.mp hc, hf, decide_eq_false hfc, Bool.and_false]
  · rcases List.mem_append.mp hc with hc | hc
    · exact h.children c hc
    · rw [List.mem_singleton.mp hc, hf]
      exact hchild

theorem followOf_append {fc : Option Nat} {cs : List (Tree C)}
    (h : ∀ i, fc = some i → ∃ c ∈ cs, c.key = i) (ds : List (Tree C)) :
    followOf p fc (cs ++ ds) = followOf p fc cs := by
  cases fc with
  | none => rw [followOf_none, followOf_none]
  | some i =>
    obtain ⟨c, hc, hk⟩ := h i rfl
    have hsome : (cs.find? (·.key = i)).isSome := List.find?_isSome.mpr ⟨c, hc, decide_eq_true hk⟩
    obtain ⟨d, hd⟩ := Option.isSome_iff_exists.mp hsome
    rw [followOf_some, followOf_some, List.find?_append, hd, Option.some_or]

/-- A container with one more child. -/
def withChild (child s : Tree C) : Tree C := .node s.label (s.children ++ [child])

theorem Well.addChild {t child : Tree C} (h : Well t) {π : List Nat}
    (hc : ∀ s, t.get? π = some s → s.label.isComposite = true) (hchild : Ok false child)
    (hf : child.label.isFocused = false) : Well (addChild π child t) := by
  unfold WidgetTree.addChild
  split
  · exact h
  · next hnew =>
    have hfresh : ∀ s, t.get? π = some s → ∀ c ∈ s.children, c.key ≠ child.key := by
      intro s hs c hc he
      rw [hs] at hnew
      exact hnew (List.any_eq_true.mpr ⟨c, hc, decide_eq_true he⟩)
    have hsame : ∀ p : Node C → Bool, Plain p → follow p (t.along id (withChild child) π) =
        follow p t := by
      refine fun p hp => follow_along hp dirties_id (f := withChild child) (fun _ => rfl) h.ok
        fun s hs => .inl ?_
      obtain ⟨act, hok⟩ := h.ok.get? hs
      cases s with
      | node v cs => exact follow_congr hp rfl rfl rfl (followOf_append hok.listed _)
    refine Well.markDirty ⟨h.ok.along dirties_id (f := withChild child) (fun _ => rfl)
      (fun _ => rfl) fun s act hs hok => ?_, ?_, ?_⟩ π
    · cases s with
      | node v cs => exact hok.append (hc _ hs) (hfresh _ hs) hchild hf
    · cases π <;> exact h.unfocused
    · rw [hsame _ plain_hears, hsame _ plain_seen, h.heard]

/-- A container without one of its children. -/
def without (child : Nat) (s : Tree C) : Tree C :=
  .node { s.label with
    focusedChild := if s.label.focusedChild = some child then none else s.label.focusedChild }
    (s.children.filter (·.key ≠ child))

theorem without_of_eq {v : Node C} {child : Nat} (h : v.focusedChild = some child)
    (cs : List (Tree C)) : without child (.node v cs) =
      .node { v with focusedChild := none } (cs.filter (·.key ≠ child)) := by
  simp [without, h]

theorem without_of_ne {v : Node C} {child : Nat} (h : v.focusedChild ≠ some child)
    (cs : List (Tree C)) : without child (.node v cs) = .node v (cs.filter (·.key ≠ child)) := by
  simp [without, h]

theorem Ok.without {act : Bool} {v : Node C} {cs : List (Tree C)} (h : Ok act (.node v cs))
    (child : Nat) : Ok act (without child (.node v cs)) := by
  have hmem : ∀ c ∈ cs.filter (·.key ≠ child), c ∈ cs ∧ c.key ≠ child := fun c hc =>
    ⟨(List.mem_filter.mp hc).1, of_decide_eq_true (List.mem_filter.mp hc).2⟩
  have hleaf : v.isComposite = false → cs.filter (·.key ≠ child) = [] := fun hv => by
    rw [h.leaf hv, List.filter_nil]
  have hdistinct := h.distinct.sublist ((List.filter_sublist (p := (·.key ≠ child))).map Rose.key)
  by_cases hfc : v.focusedChild = some child
  · rw [without_of_eq hfc]
    refine .node hdistinct hleaf (fun i hi => absurd hi (by simp)) (fun c hc => ?_)
      fun c hc => h.children c (hmem c hc).1
    obtain ⟨hc, hk⟩ := hmem c hc
    rw [h.focused c hc, hfc]
    simp [Ne.symm hk]
  · rw [without_of_ne hfc]
    refine .node hdistinct hleaf (fun i hi => ?_) (fun c hc => h.focused c (hmem c hc).1)
      fun c hc => h.children c (hmem c hc).1
    obtain ⟨c, hc, hk⟩ := h.listed i hi
    refine ⟨c, List.mem_filter.mpr ⟨hc, decide_eq_true fun he => hfc ?_⟩, hk⟩
    rw [hi, ← hk, he]

/-- The route ends at a container that lost the child on it, and is the same otherwise. -/
theorem follow_without (v : Node C) (cs : List (Tree C)) (child : Nat) :
    (∀ p : Node C → Bool, Plain p →
      follow p (without child (.node v cs)) = follow p (.node v cs)) ∨
    ∀ p : Node C → Bool, follow p (without child (.node v cs)) = none := by
  by_cases hfc : v.focusedChild = some child
  · rw [without_of_eq hfc]
    cases hv : v.isComposite with
    | false =>
      refine .inl fun p _ => (follow_leaf ?_).trans (follow_leaf hv).symm
      exact hv
    | true =>
      refine .inr fun p => (follow_node ?_).trans ?_
      · exact hv
      · rw [followOf_none, ite_self]
  · refine .inl fun p hp => ?_
    rw [without_of_ne hfc]
    refine follow_congr hp rfl rfl rfl (followOf_filter fun c _ he => ?_)
    exact decide_eq_true fun hk => hfc (hk ▸ he)

theorem Well.removeChild {t : Tree C} (h : Well t) (π : List Nat) (child : Nat) :
    Well (removeChild π child t) := by
  unfold WidgetTree.removeChild
  dsimp only
  split
  · have hcut := follow_along_cut plain_hears plain_seen dirties_id (f := without child)
      (fun _ => rfl) (π := π) h.ok fun s act _ hok => by
        cases s with
        | node v cs =>
          exact (follow_without v cs child).imp (fun h => ⟨h _ plain_hears, h _ plain_seen⟩)
            fun h => ⟨h _, h _⟩
    refine Well.markDirty ⟨h.ok.along dirties_id (f := without child) (fun _ => rfl) (fun _ => rfl)
      fun s act _ hok => ?_, ?_, ?_⟩ π
    · cases s with
      | node v cs => exact hok.without child
    · cases π <;> exact h.unfocused
    · rcases hcut with ⟨h1, h2⟩ | ⟨h1, h2⟩
      · exact h1.trans (h.heard.trans h2.symm)
      · exact h1.trans h2.symm
  · exact h

/-! ## The chain -/

theorem Ok.get?_focused {π : List Nat} : ∀ {i : Nat} {act : Bool} {t s : Tree C}, Ok act t →
    t.get? (i :: π) = some s → Ok s.label.isFocused s := by
  induction π with
  | nil =>
    intro i act t s h hs
    cases t with
    | node v cs =>
      obtain ⟨c, hc, -, hs⟩ := Rose.get?_cons hs
      obtain rfl := Option.some.inj hs
      exact h.children c hc
  | cons j π ih =>
    intro i act t s h hs
    cases t with
    | node v cs =>
      obtain ⟨c, hc, -, hs⟩ := Rose.get?_cons hs
      exact ih (h.children c hc) hs

/-- The route ends at a leaf that has the focus and is shown. -/
theorem Ok.follow {π : List Nat} : ∀ {act : Bool} {t s : Tree C}, Ok act t →
    t.get? π = some s → s.label.isFocused = true → s.label.isComposite = false →
    (∀ ρ a, ρ <+: π → t.get? ρ = some a → a.label.isVisible = true) →
      follow seen t = some π := by
  induction π with
  | nil =>
    intro act t s h hs hf hc hvis
    obtain rfl := Option.some.inj hs
    cases t with
    | node v cs => exact follow_leaf hc
  | cons i π ih =>
    intro act t s h hs hf hc hvis
    cases t with
    | node v cs =>
      obtain ⟨c, hcm, hk, hcs⟩ := Rose.get?_cons hs
      obtain ⟨-, hfc⟩ := h.active hs hf
      have hv : seen v = true := hvis [] _ List.nil_prefix rfl
      rw [follow_node (h.isComposite hcm), if_pos hv, hfc, ← hk, followOf_of_mem h.distinct hcm,
        ih (h.children c hcm) hcs hf hc fun ρ a hρ ha => ?_]
      · rfl
      · refine hvis (i :: ρ) a (List.cons_prefix_cons.mpr ⟨rfl, hρ⟩) ?_
        rwa [h.get?_cons hcm hk]

theorem Well.chained {t : Tree C} (h : Well t) : Chained t where
  listed := fun π s i hs hi => by
    obtain ⟨act, hok⟩ := h.ok.get? hs
    cases s with
    | node v cs => exact hok.listed i hi
  focused := fun π s c hs hc hf => by
    obtain ⟨act, hok⟩ := h.ok.get? hs
    cases s with
    | node v cs =>
      rw [hok.focused c hc, Bool.and_eq_true, decide_eq_true_iff] at hf
      exact hf.2
  unique := fun π s c d hs hc hd hcf hdf => by
    obtain ⟨act, hok⟩ := h.ok.get? hs
    cases s with
    | node v cs =>
      rw [hok.focused c hc, Bool.and_eq_true, decide_eq_true_iff] at hcf
      rw [hok.focused d hd, Bool.and_eq_true, decide_eq_true_iff] at hdf
      exact hok.distinct.eq hc hd (Option.some.inj (hcf.2.symm.trans hdf.2))
  ancestors := fun π ρ s a hs hf ha => by
    obtain ⟨u, hu, hus⟩ := Rose.get?_append.mp hs
    obtain rfl := Option.some.inj (ha.symm.trans hu)
    cases π with
    | nil => exact .inl rfl
    | cons i π =>
      have hok := h.ok.get?_focused ha
      refine .inr ?_
      cases ρ with
      | nil =>
        obtain rfl := Option.some.inj hus
        exact hf
      | cons j ρ =>
        cases a with
        | node v cs => exact (hok.active hus hf).1
  reached := fun π s hs hf hc hvis => h.heard.trans (h.ok.follow hs hf hc hvis)

theorem Well.step {t : Tree C} (h : Well t) {op : FocusOp C} (ha : Allowed t op) :
    Well (op.step t) := by
  cases op with
  | call c => exact h.call ha
  | setFocussable π focussable => exact h.setFocussable π focussable
  | setEnabled π value => exact h.setEnabled ha
  | addChild π child => exact h.addChild ha.1 ha.2.1 ha.2.2
  | removeChild π child => exact h.removeChild π child
  | press x y button => exact run_inv (fun _ _ h hr => h.call hr) h ha
  | tab backwards => exact run_inv (fun _ _ h hr => h.call hr) h ha

/-- A tree that was never asked for focus. -/
inductive Fresh : Tree C → Prop
  | node {v : Node C} {cs : List (Tree C)} (distinct : Rose.Distinct cs)
      (leaf : v.isComposite = false → cs = []) (unfocused : v.isFocused = false)
      (chain : v.focusedChild = none) (children : ∀ c ∈ cs, Fresh c) : Fresh (.node v cs)

theorem Fresh.ok {t : Tree C} (h : Fresh t) (act : Bool) :
    Ok act t ∧ t.label.isFocused = false := by
  induction h generalizing act with
  | @node v cs hd hleaf hunf hfc hchildren ih =>
    refine ⟨.node hd hleaf (fun i hi => ?_) (fun c hc => ?_) fun c hc => (ih c hc _).1, hunf⟩
    · rw [hfc] at hi
      exact absurd hi (by simp)
    · rw [(ih c hc true).2, hfc]
      simp

theorem Fresh.well {t : Tree C} (h : Fresh t) : Well t := by
  refine ⟨(h.ok true).1, (h.ok true).2, ?_⟩
  cases h with
  | @node v cs hd hleaf hunf hfc hchildren =>
    cases hv : v.isComposite with
    | false => rw [follow_leaf hv, follow_leaf hv]
    | true =>
      rw [follow_node hv, follow_node hv, hfc, followOf_none, followOf_none, ite_self, ite_self]

def blank (id : Nat) (shape : Shape) (isFocussable : Bool) : Node Unit where
  id := id
  shape := shape
  x := 0
  y := 0
  w := 100
  h := 100
  isVisible := true
  enabled := true
  isFocussable := isFocussable
  isFocused := false
  focusedChild := none
  isDirty := true
  content := ()
  cache := fun _ _ => 0

/-- A box with a panel that holds a button. -/
def box (isFocussable : Bool) : Tree Unit :=
  .node (blank 0 .composite false)
    [.node (blank 1 .composite isFocussable) [.node (blank 2 .leaf true) []]]

theorem box_fresh (isFocussable : Bool) : Fresh (box isFocussable) := by
  refine .node (List.nodup_singleton _) nofun rfl rfl fun c hc => ?_
  rw [List.mem_singleton.mp hc]
  refine .node (List.nodup_singleton _) nofun rfl rfl fun c hc => ?_
  rw [List.mem_singleton.mp hc]
  exact .node List.nodup_nil (fun _ => rfl) rfl rfl fun c hc => absurd hc List.not_mem_nil

end WidgetTree
end Hashx86
