import Hashx86.Gui.Focus

/-!
# The route of a key

A key follows the `focusedChild` pointers from the root through the containers that let it pass
(`hears`); the chain is seen through those that are shown (`seen`).

* `follow_getFocus`: the route after a call of `GetFocus`, from the tree before it (`route`).
* `Ok.along`, `follow_along`, `follow_along_cut`: what a change at one place keeps above it.
-/

namespace Hashx86
namespace WidgetTree

open Lib

variable {C : Type}

/-! ## The chain of pointers -/

/-- The way of an event through a container depends on these flags only. -/
def Plain (p : Node C → Bool) : Prop :=
  ∀ v u : Node C, v.isVisible = u.isVisible → v.enabled = u.enabled → p v = p u

/-- A key passes a container that is on and shown; a chain is seen as far as it is shown. -/
def hears (v : Node C) : Bool := v.enabled && v.isVisible

def seen (v : Node C) : Bool := v.isVisible

theorem plain_hears : Plain (hears : Node C → Bool) := fun _ _ hv he => by simp [hears, hv, he]

theorem plain_seen : Plain (seen : Node C → Bool) := fun _ _ hv _ => hv

variable {p : Node C → Bool}

theorem followOf_none (cs : List (Tree C)) : followOf p none cs = none := by
  induction cs with
  | nil => rfl
  | cons c cs ih =>
    rw [followOf, if_neg (by simp)]
    exact ih

theorem followOf_map {f : Option Nat} {g : Tree C → Tree C} {cs : List (Tree C)}
    (hg : ∀ c ∈ cs, (g c).key = c.key ∧ (f = some c.key → follow p (g c) = follow p c)) :
    followOf p f (cs.map g) = followOf p f cs := by
  induction cs with
  | nil => rfl
  | cons c cs ih =>
    obtain ⟨hk, hc⟩ := hg c List.mem_cons_self
    rw [List.map_cons, followOf, followOf, hk, ih fun c hc => hg c (List.mem_cons_of_mem _ hc)]
    by_cases hf : f = some c.key
    · rw [if_pos hf, if_pos hf, hc hf]
    · rw [if_neg hf, if_neg hf]

theorem followOf_of_mem {cs : List (Tree C)} (hd : Rose.Distinct cs) {c : Tree C} (hc : c ∈ cs) :
    followOf p (some c.key) cs = (follow p c).map (c.key :: ·) := by
  induction cs with
  | nil => exact absurd hc List.not_mem_nil
  | cons d cs ih =>
    rw [followOf]
    by_cases hk : c.key = d.key
    · rw [if_pos (congrArg some hk), hd.eq hc List.mem_cons_self hk]
    · rw [if_neg fun e => hk (Option.some.inj e)]
      have hc := (List.mem_cons.mp hc).resolve_left fun e => hk (congrArg Rose.key e)
      exact ih (List.nodup_cons.mp hd).2 hc

theorem follow_node {v : Node C} {cs : List (Tree C)} (hv : v.isComposite = true) :
    follow p (.node v cs) = if p v then followOf p v.focusedChild cs else none := by
  rw [follow, if_neg (by simp [hv])]

theorem follow_leaf {v : Node C} {cs : List (Tree C)} (hv : v.isComposite = false) :
    follow p (.node v cs) = some [] := by
  rw [follow, if_pos (by simp [hv])]

/-- A label and children that the route does not tell apart. -/
theorem follow_congr (hp : Plain p) {v u : Node C} {cs ds : List (Tree C)}
    (hs : u.isComposite = v.isComposite) (hv : u.isVisible = v.isVisible)
    (he : u.enabled = v.enabled)
    (h : followOf p u.focusedChild ds = followOf p v.focusedChild cs) :
    follow p (.node u ds) = follow p (.node v cs) := by
  cases hc : v.isComposite with
  | false => rw [follow_leaf hc, follow_leaf (hs.trans hc)]
  | true => rw [follow_node hc, follow_node (hs.trans hc), hp u v hv he, h]

theorem follow_setFocus (hp : Plain p) (b : Bool) (t : Tree C) :
    follow p (setFocus b t) = follow p t := by
  induction t using Rose.ind with
  | h v cs ih =>
    by_cases hb : v.isFocused = b
    · rw [setFocus_of_eq hb]
    · rw [setFocus_of_ne hb]
      refine follow_congr hp rfl rfl rfl (followOf_map fun c hc => ?_)
      by_cases hk : (if v.isComposite then v.focusedChild else none) = some c.key
      · rw [if_pos hk]
        exact ⟨setFocus_key b c, fun _ => ih c hc⟩
      · rw [if_neg hk]
        exact ⟨rfl, fun _ => rfl⟩

theorem followOf_mono {q : Node C → Bool} {fc : Option Nat} {F : Tree C → Tree C}
    {cs : List (Tree C)} (h : ∀ c ∈ cs, (F c).key = c.key ∧
      ∀ ρ, follow p c = some ρ → follow q (F c) = some ρ) {ρ : List Nat}
    (hr : followOf p fc cs = some ρ) : followOf q fc (cs.map F) = some ρ := by
  induction cs with
  | nil => exact absurd hr (by simp [followOf])
  | cons c cs ih =>
    obtain ⟨hk, hc⟩ := h c List.mem_cons_self
    rw [followOf] at hr
    rw [List.map_cons, followOf, hk]
    by_cases hf : fc = some c.key
    · rw [if_pos hf] at hr ⊢
      obtain ⟨σ, hσ, rfl⟩ := Option.map_eq_some_iff.mp hr
      rw [hc σ hσ, Option.map_some]
    · rw [if_neg hf] at hr ⊢
      exact ih (fun c hc => h c (List.mem_cons_of_mem _ hc)) hr

/-- `hears` lets pass only what is `seen`. -/
theorem follow_hears (t : Tree C) {ρ : List Nat} (h : follow hears t = some ρ) :
    follow seen t = some ρ := by
  induction t using Rose.ind generalizing ρ with
  | h v cs ih =>
    cases hc : v.isComposite with
    | false =>
      rw [follow_leaf hc] at h ⊢
      exact h
    | true =>
      rw [follow_node hc] at h ⊢
      split at h
      · next hp =>
        have hs : seen v = true := (Bool.and_eq_true _ _ |>.mp hp).2
        rw [if_pos hs]
        have hm := followOf_mono (q := seen) (F := id) (fun c hc => ⟨rfl, fun ρ => ih c hc⟩) h
        rwa [List.map_id] at hm
      · exact absurd h (by simp)

theorem followOf_filter_ne {i : Nat} (cs ds : List (Tree C)) :
    followOf p (some i) (cs.filter (·.key ≠ i) ++ ds) = followOf p (some i) ds := by
  induction cs with
  | nil => rfl
  | cons c cs ih =>
    by_cases hc : c.key = i
    · rw [List.filter_cons_of_neg (by simp [hc])]
      exact ih
    · rw [List.filter_cons_of_pos (by simp [hc]), List.cons_append, followOf,
        if_neg fun e => hc (Option.some.inj e).symm]
      exact ih

theorem followOf_filter {q : Tree C → Bool} {fc : Option Nat} {cs : List (Tree C)}
    (h : ∀ c ∈ cs, fc = some c.key → q c = true) :
    followOf p fc (cs.filter q) = followOf p fc cs := by
  induction cs with
  | nil => rfl
  | cons c cs ih =>
    have ih := ih fun c hc => h c (List.mem_cons_of_mem _ hc)
    by_cases hf : fc = some c.key
    · rw [List.filter_cons_of_pos (h c List.mem_cons_self hf), followOf, followOf, if_pos hf,
        if_pos hf]
    · by_cases hq : q c
      · rw [List.filter_cons_of_pos hq, followOf, followOf, ih]
      · rw [List.filter_cons_of_neg hq, followOf, if_neg hf]
        exact ih

theorem followOf_raiseKey {i : Nat} (cs : List (Tree C)) :
    followOf p (some i) (raiseKey i cs) = followOf p (some i) cs :=
  (followOf_filter_ne cs _).trans <| followOf_filter fun _ _ he =>
    decide_eq_true (Option.some.inj he).symm

theorem followOf_moved (hp : Plain p) {old new : Option Nat} (hne : old ≠ new)
    (cs : List (Tree C)) : followOf p new (moved old new cs) = followOf p new cs := by
  have hmap : followOf p new (cs.map fun c => if old = some c.key then setFocus false c
      else if new = some c.key then setFocus true c else c) = followOf p new cs := by
    refine followOf_map fun c _ => ?_
    by_cases ho : old = some c.key
    · rw [if_pos ho]
      exact ⟨setFocus_key false c, fun _ => follow_setFocus hp false c⟩
    · rw [if_neg ho]
      by_cases hn : new = some c.key
      · rw [if_pos hn]
        exact ⟨setFocus_key true c, fun _ => follow_setFocus hp true c⟩
      · rw [if_neg hn]
        exact ⟨rfl, fun _ => rfl⟩
  cases new with
  | none => rw [followOf_none, followOf_none]
  | some i => exact (followOf_raiseKey _).trans hmap

/-- The route through a container after `GetFocus`, whether the focus moved or not. -/
theorem focusStep_follow {v : Node C} {cs : List (Tree C)} (hp : Plain p)
    (hv : v.isComposite = true) (i : Option Nat) : follow p (focusStep i (.node v cs)).1 =
      if p v then followOf p (granted i (.node v cs)) cs else none := by
  by_cases hne : v.focusedChild = granted i (.node v cs)
  · rw [focusStep_of_eq hne, follow_node hv, hne]
  · rw [focusStep_of_ne hne]
    refine (follow_node ?_).trans ?_
    · exact hv
    · rw [followOf_moved hp hne]
      exact congrArg (fun b => if b = true then _ else none) (hp _ v rfl rfl)

theorem followOf_some (i : Nat) (cs : List (Tree C)) : followOf p (some i) cs =
    (cs.find? (·.key = i)).bind fun c => (follow p c).map (i :: ·) := by
  induction cs with
  | nil => rfl
  | cons c cs ih =>
    rw [followOf]
    by_cases hc : c.key = i
    · rw [if_pos (by rw [hc]), List.find?_cons_of_pos (by simp [hc]), hc]
      rfl
    · rw [if_neg fun e => hc (Option.some.inj e).symm, List.find?_cons_of_neg (by simp [hc])]
      exact ih

/-- The containers on the path. -/
def Way : List Nat → Tree C → Prop
  | [], t => t.label.isComposite = true
  | i :: π, t => t.label.isComposite = true ∧ ∀ c ∈ t.children, c.key = i → Way π c

theorem Ok.isComposite {act : Bool} {v : Node C} {cs : List (Tree C)} (h : Ok act (.node v cs))
    {c : Tree C} (hc : c ∈ cs) : v.isComposite = true := by
  refine Bool.not_eq_false _ |>.mp fun hv => ?_
  rw [h.leaf hv] at hc
  exact absurd hc List.not_mem_nil

theorem Ok.get? {π : List Nat} : ∀ {act : Bool} {t s : Tree C}, Ok act t →
    t.get? π = some s → ∃ act, Ok act s := by
  induction π with
  | nil =>
    intro act t s h hs
    exact ⟨act, Option.some.inj hs ▸ h⟩
  | cons i π ih =>
    intro act t s h hs
    cases t with
    | node v cs =>
      obtain ⟨c, hc, -, hs⟩ := Rose.get?_cons hs
      exact ih (h.children c hc) hs

theorem Ok.way {π : List Nat} : ∀ {act : Bool} {t s : Tree C}, Ok act t → t.get? π = some s →
    s.label.isComposite = true → Way π t := by
  induction π with
  | nil =>
    intro act t s _ hs hc
    obtain rfl := Option.some.inj hs
    exact hc
  | cons i π ih =>
    intro act t s h hs hc
    cases t with
    | node v cs =>
      obtain ⟨c0, hc0, hk0, hs0⟩ := Rose.get?_cons hs
      refine ⟨h.isComposite hc0, fun c hcs hk => ?_⟩
      obtain rfl := h.distinct.eq hcs hc0 (hk.trans hk0.symm)
      exact ih (h.children c hc0) hs0 hc

/-- The route of a key once the call is done, from the tree before it. -/
def route (p : Node C → Bool) : List Nat → Option Nat → Tree C → Option (List Nat)
  | [], widget, t => if p t.label then followOf p (granted widget t) t.children else none
  | i :: π, widget, t =>
    if p t.label && granted (some i) t = some i then
      (t.children.find? (·.key = i)).bind fun c => (route p π widget c).map (i :: ·)
    else none

theorem granted_congr {widget : Option Nat} {v u : Node C} {cs ds : List (Tree C)}
    {f : Tree C → Tree C} (hd : ds = cs.map f)
    (hf : ∀ t, (f t).key = t.key ∧ (f t).label.isFocussable = t.label.isFocussable) :
    granted widget (.node u ds) = granted widget (.node v cs) := by
  unfold granted
  rw [Rose.children_node, Rose.children_node, hd, List.any_map]
  have hfun : (fun c => decide (widget = some c.key ∧ !c.label.isFocussable)) ∘ f =
      fun c : Tree C => decide (widget = some c.key ∧ !c.label.isFocussable) := by
    funext c
    simp only [Function.comp, (hf c).1, (hf c).2]
  rw [hfun]

/-- The call takes the key along its route, by induction on the path of the container. -/
theorem follow_getFocus (hp : Plain p) (π : List Nat) (widget : Option Nat) :
    ∀ {t : Tree C}, Way π t → follow p (getFocus π widget t).1 = route p π widget t := by
  induction π with
  | nil =>
    intro t hw
    cases t with
    | node v cs => exact focusStep_follow hp hw widget
  | cons i π ih =>
    intro t hw
    cases t with
    | node v cs =>
      have hkey : ∀ t : Tree C, (getFocus π widget t).1.key = t.key :=
        fun t => (getFocus_same π widget t).key
      have hg : granted (some i) (afterChild i π widget (.node v cs)) =
          granted (some i) (.node v cs) := by
        refine granted_congr rfl fun t => ?_
        split
        · exact ⟨hkey t, (getFocus_same π widget t).isFocussable⟩
        · exact ⟨rfl, rfl⟩
      have hpv : ∀ b, p (v.dirty b) = p v := fun b => hp _ _ rfl rfl
      rw [getFocus_cons, route]
      refine (focusStep_follow hp ?_ _).trans ?_
      · exact hw.1
      · change (if p (v.dirty _) then followOf p (granted (some i)
          (afterChild i π widget (.node v cs))) (Rose.mapKey i _ cs) else none) = _
        rw [hg, hpv]
        rcases granted_cases (some i) (.node v cs) with hn | hs
        · simp [hn, followOf_none]
        · rw [hs, followOf_some, Rose.find?_mapKey hkey]
          simp only [decide_true, Bool.and_true, Rose.label_node, Rose.children_node]
          cases hf : cs.find? (·.key = i) with
          | none => rfl
          | some c =>
            have hk := List.find?_some (p := fun c : Tree C => decide (c.key = i)) hf
            rw [Option.map_some, Option.bind_some, Option.bind_some,
              ih (hw.2 c (List.mem_of_find?_eq_some hf) (of_decide_eq_true hk))]

theorem route_none (π : List Nat) (t : Tree C) : route p π none t = none := by
  induction π generalizing t with
  | nil => rw [route, (granted_cases none t).elim id id, followOf_none, ite_self]
  | cons i π ih =>
    rw [route]
    split
    · cases t.children.find? (·.key = i) with
      | none => rfl
      | some c => rw [Option.bind_some, ih, Option.map_none]
    · rfl

/-! ## A change at one place -/

/-- The labels above the place get dirty at most. -/
def Dirties (g : Node C → Node C) : Prop := ∀ v, ∃ d, g v = { v with isDirty := d }

theorem dirties_id : Dirties (id : Node C → Node C) := fun v => ⟨v.isDirty, rfl⟩

theorem dirties_dirty (b : Bool) : Dirties (Node.dirty b : Node C → Node C) :=
  fun v => ⟨v.isDirty || b, rfl⟩

variable {g : Node C → Node C} {f : Tree C → Tree C}

theorem Dirties.key (hg : Dirties g) (v : Node C) : Keyed.key (g v) = Keyed.key v := by
  obtain ⟨d, hd⟩ := hg v
  rw [hd]
  rfl

/-- A change that keeps the invariant where it is made keeps it above, by induction on the path. -/
theorem Ok.along (hg : Dirties g) (hk : ∀ t, (f t).key = t.key)
    (hf : ∀ t, (f t).label.isFocused = t.label.isFocused) {π : List Nat} :
    ∀ {act : Bool} {t : Tree C}, Ok act t →
      (∀ s act, t.get? π = some s → Ok act s → Ok act (f s)) → Ok act (t.along g f π) := by
  induction π with
  | nil => exact fun h hok => hok _ _ rfl h
  | cons i π ih =>
    intro act t h hok
    cases t with
    | node v cs =>
      have hkey : ∀ t : Tree C, (t.along g f π).key = t.key := Rose.key_along hg.key hk π
      have hfoc : ∀ t : Tree C, (t.along g f π).label.isFocused = t.label.isFocused := by
        intro t
        cases π with
        | nil => exact hf t
        | cons j π =>
          obtain ⟨d, hd⟩ := hg t.label
          change (g t.label).isFocused = t.label.isFocused
          rw [hd]
      obtain ⟨d, hd⟩ := hg v
      have hfc : (g v).focusedChild = v.focusedChild := by rw [hd]
      have hcomp : (g v).isComposite = v.isComposite := by rw [hd]; rfl
      have hmem : ∀ e ∈ Rose.mapKey i (Rose.along g f π) cs, ∃ c ∈ cs, e.key = c.key ∧
          e.label.isFocused = c.label.isFocused ∧ Ok e.label.isFocused e := by
        intro e he
        obtain ⟨c, hc, rfl⟩ := Rose.mem_mapKey.mp he
        refine ⟨c, hc, ?_⟩
        by_cases hk : c.key = i
        · rw [if_pos hk, hfoc]
          refine ⟨hkey c, rfl, ih (h.children c hc) fun s act hs => hok s act ?_⟩
          rwa [h.get?_cons hc hk]
        · rw [if_neg hk]
          exact ⟨rfl, rfl, h.children c hc⟩
      refine .node ?_ (fun hv => ?_) (fun k hk => ?_) (fun e he => ?_) (fun e he => ?_)
      · rw [Rose.Distinct, Rose.map_key_mapKey hkey]
        exact h.distinct
      · rw [Rose.children_node, h.leaf (hcomp ▸ hv)]
        rfl
      · obtain ⟨c, hc, hck⟩ := h.listed k (hfc ▸ hk)
        refine ⟨_, Rose.mem_mapKey.mpr ⟨c, hc, rfl⟩, ?_⟩
        split
        · exact (hkey c).trans hck
        · exact hck
      · obtain ⟨c, hc, hck, hcf, -⟩ := hmem e he
        rw [Rose.label_node, hfc, hck, hcf]
        exact h.focused c hc
      · obtain ⟨c, hc, -, -, hok⟩ := hmem e he
        exact hok

theorem follow_along_node (hp : Plain p) (hg : Dirties g) {v : Node C} {cs : List (Tree C)}
    (hv : v.isComposite = true) (i : Nat) (π : List Nat) :
    follow p ((Rose.node v cs).along g f (i :: π)) =
      if p v then followOf p v.focusedChild (Rose.mapKey i (Rose.along g f π) cs) else none := by
  obtain ⟨d, hd⟩ := hg v
  rw [Rose.along, Rose.label_node, Rose.children_node, hd]
  refine (follow_node ?_).trans ?_
  · exact hv
  · exact congrArg (fun b => if b = true then _ else none) (hp _ v rfl rfl)

theorem followOf_mapKey {i : Nat} {fc : Option Nat} {F : Tree C → Tree C} {cs : List (Tree C)}
    (hF : ∀ t, (F t).key = t.key)
    (h : fc = some i → ∀ c ∈ cs, c.key = i → follow p (F c) = follow p c) :
    followOf p fc (Rose.mapKey i F cs) = followOf p fc cs := by
  refine followOf_map fun c hc => ?_
  by_cases hk : c.key = i
  · rw [if_pos hk]
    exact ⟨hF c, fun he => h (he.trans (congrArg some hk)) c hc hk⟩
  · rw [if_neg hk]
    exact ⟨rfl, fun _ => rfl⟩

theorem follow_along_leaf (hg : Dirties g) {v : Node C} {cs : List (Tree C)}
    (hv : v.isComposite = false) (i : Nat) (π : List Nat) :
    follow p ((Rose.node v cs).along g f (i :: π)) = follow p (.node v cs) := by
  obtain ⟨d, hd⟩ := hg v
  rw [follow_leaf hv, Rose.along, Rose.label_node, hd]
  exact follow_leaf (p := p) hv

/-- A change that keeps the route where it is made, or is off the route, keeps it above. -/
theorem follow_along (hp : Plain p) (hg : Dirties g) (hk : ∀ t, (f t).key = t.key) {π : List Nat} :
    ∀ {act : Bool} {t : Tree C}, Ok act t →
      (∀ s, t.get? π = some s → follow p (f s) = follow p s ∨
        act = true ∧ s.label.isFocused = false ∧ π ≠ []) →
      follow p (t.along g f π) = follow p t := by
  induction π with
  | nil => exact fun _ hr => (hr _ rfl).resolve_right fun hn => hn.2.2 rfl
  | cons i π ih =>
    intro act t h hr
    cases t with
    | node v cs =>
      cases hv : v.isComposite with
      | false => exact follow_along_leaf hg hv i π
      | true =>
        rw [follow_along_node hp hg hv, follow_node hv]
        rw [followOf_mapKey (Rose.key_along hg.key hk π) fun hfc c hc hck => ?_]
        refine ih (h.children c hc) fun s hs => (hr s ?_).imp_right fun ⟨ha, hsf, _⟩ => ?_
        · rwa [h.get?_cons hc hck]
        · have hcf : c.label.isFocused = true := by
            rw [h.focused c hc, ha, hck, hfc]
            simp
          refine ⟨hcf, hsf, fun hπ => ?_⟩
          subst hπ
          obtain rfl := Option.some.inj hs
          rw [hcf] at hsf
          exact absurd hsf (by decide)

/-- A change that keeps the route or cuts it, the same way for two conditions. -/
theorem follow_along_cut {q : Node C → Bool} (hp : Plain p) (hq : Plain q) (hg : Dirties g)
    (hk : ∀ t, (f t).key = t.key) {π : List Nat} : ∀ {act : Bool} {t : Tree C}, Ok act t →
      (∀ s act, t.get? π = some s → Ok act s →
        follow p (f s) = follow p s ∧ follow q (f s) = follow q s ∨
        follow p (f s) = none ∧ follow q (f s) = none) →
      (follow p (t.along g f π) = follow p t ∧ follow q (t.along g f π) = follow q t ∨
        follow p (t.along g f π) = none ∧ follow q (t.along g f π) = none) := by
  induction π with
  | nil => exact fun h hr => hr _ _ rfl h
  | cons i π ih =>
    intro act t h hr
    cases t with
    | node v cs =>
      cases hv : v.isComposite with
      | false => exact .inl ⟨follow_along_leaf hg hv i π, follow_along_leaf hg hv i π⟩
      | true =>
        have hkey : ∀ t : Tree C, (t.along g f π).key = t.key := Rose.key_along hg.key hk π
        rw [follow_along_node hp hg hv, follow_along_node hq hg hv, follow_node hv, follow_node hv]
        by_cases hfc : v.focusedChild = some i
        · obtain ⟨c, hc, hck⟩ := h.listed i hfc
          have hfind : cs.find? (·.key = i) = some c := hck ▸ h.distinct.find? hc
          rw [hfc, followOf_some, followOf_some, followOf_some, followOf_some,
            Rose.find?_mapKey hkey, hfind]
          simp only [Option.map_some, Option.bind_some]
          have hr := ih (h.children c hc) fun s act hs => hr s act <| by
            rwa [h.get?_cons hc hck]
          rcases hr with ⟨h1, h2⟩ | ⟨h1, h2⟩
          · rw [h1, h2]
            exact .inl ⟨rfl, rfl⟩
          · rw [h1, h2]
            exact .inr ⟨ite_self none, ite_self none⟩
        · rw [followOf_mapKey hkey fun he => absurd he hfc,
            followOf_mapKey hkey fun he => absurd he hfc]
          exact .inl ⟨rfl, rfl⟩

/-- A widget that is turned on takes no key from another. -/
theorem follow_enable (π : List Nat) (t : Tree C) {ρ : List Nat} (h : follow hears t = some ρ) :
    follow hears (t.along id (Rose.relabel fun v => { v with enabled := true }) π) = some ρ := by
  induction π generalizing t ρ with
  | nil =>
    cases t with
    | node v cs =>
      cases hv : v.isComposite with
      | false =>
        rw [follow_leaf hv] at h
        refine (follow_leaf ?_).trans h
        exact hv
      | true =>
        rw [follow_node hv] at h
        refine (follow_node ?_).trans ?_
        · exact hv
        · split at h
          · next hp =>
            have hs : v.isVisible = true := (Bool.and_eq_true _ _ |>.mp hp).2
            exact (if_pos (by simp [hears, hs])).trans h
          · exact absurd h (by simp)
  | cons i π ih =>
    cases t with
    | node v cs =>
      rw [Rose.along]
      cases hv : v.isComposite with
      | false =>
        rw [follow_leaf hv] at h
        exact (follow_leaf hv).trans h
      | true =>
        rw [follow_node hv] at h
        refine (follow_node ?_).trans ?_
        · exact hv
        · split at h
          · next hp =>
            refine (if_pos hp).trans (followOf_mono (fun c hc => ?_) h)
            by_cases hk : c.key = i
            · rw [if_pos hk]
              refine ⟨Rose.key_along dirties_id.key (Rose.key_relabel fun v => ?_) π c,
                fun ρ => ih c⟩
              rfl
            · rw [if_neg hk]
              exact ⟨rfl, fun _ => id⟩
          · exact absurd h (by simp)

/-- The way to the container of a widget, in the tree where the widget changed. -/
theorem Way.along (hg : Dirties g) {π : List Nat} (k : Nat) :
    ∀ {t : Tree C}, Way π t → Way π (t.along g f (π ++ [k])) := by
  have hcomp : ∀ v, (g v).isComposite = v.isComposite := by
    intro v
    obtain ⟨d, hd⟩ := hg v
    rw [hd]
    rfl
  induction π with
  | nil =>
    intro t h
    exact (hcomp t.label).trans h
  | cons i π ih =>
    intro t h
    refine ⟨(hcomp t.label).trans h.1, fun e he hke => ?_⟩
    obtain ⟨c, hc, rfl⟩ := Rose.mem_mapKey.mp he
    by_cases hki : c.key = i
    · rw [if_pos hki]
      exact ih (h.2 c hc hki)
    · rw [if_neg hki] at hke
      exact absurd hke hki

end WidgetTree
end Hashx86
