import Hashx86.Gui.Chain
import Hashx86.Lib.ToEnd
import Mathlib.Data.List.Induction
import Mathlib.Data.List.Permutation

/-!
# Focus stops (`gui/widget.cpp`)

The order of the focus stops is that of the child lists, and a widget that gets the focus goes to
the end of its list, as do the containers above it.

* `stops`: the stops in tab order, without the prefix that `CollectTabStops` carries along
  (`tabStops_eq`).
* `ask π`: the stop at the path asks for focus; `focusPath` is where the focus is.
* `takes`, `focusPath_of_takes`, `takes_of_focusPath`: when it gets it.
* `stops_ask`, `stops_ask_last`, `stops_ask_before`: what becomes of the order of the stops.
-/

namespace Hashx86
namespace WidgetTree

open Lib

variable {C : Type}

/-! ## Where the focus is -/

mutual
/-- The widget that has the focus, at the end of the `focusedChild` pointers. -/
def focusPath : Tree C → List Nat
  | .node v cs => focusPathOf v.focusedChild cs

def focusPathOf (focusedChild : Option Nat) : List (Tree C) → List Nat
  | [] => []
  | c :: cs =>
    if focusedChild = some c.key then c.key :: focusPath c else focusPathOf focusedChild cs
end

/-- The widgets on the way may be focused, and the one at its end passes no focus on. -/
def takes : List Nat → Tree C → Bool
  | [], t => t.label.focusedChild = none
  | i :: π, t => t.children.all fun c => c.key ≠ i || c.label.isFocussable && takes π c

/-! ## The stops -/

/-- The stops in a widget, given those below it. -/
def entry (v : Node C) (below : List (List Nat)) : List (List Nat) :=
  if !v.isVisible then [] else if v.isFocussable && below.isEmpty then [[]] else below

mutual
def stops : Tree C → List (List Nat)
  | .node _ cs => stopsBelow cs

def stopsBelow : List (Tree C) → List (List Nat)
  | [] => []
  | c :: cs => (entry c.label (stops c)).map (c.key :: ·) ++ stopsBelow cs
end

/-- The stops in a child. -/
def branch (c : Tree C) : List (List Nat) := (entry c.label (stops c)).map (c.key :: ·)

theorem stops_node (v : Node C) (cs : List (Tree C)) : stops (.node v cs) = cs.flatMap branch := by
  rw [stops]
  induction cs with
  | nil => rfl
  | cons c cs ih =>
    rw [stopsBelow, ih]
    rfl

theorem entry_nil_iff (v : Node C) (below : List (List Nat)) : (entry v below).isEmpty =
    !(v.isVisible && (v.isFocussable || !below.isEmpty)) := by
  unfold entry
  cases v.isVisible <;> cases v.isFocussable <;> cases below <;> rfl

/-- The stops in a widget are those below it, or the widget. -/
theorem entry_cases {v : Node C} {below : List (List Nat)} {π : List Nat}
    (h : π ∈ entry v below) : v.isVisible = true ∧
      (entry v below = below ∨ below = [] ∧ π = [] ∧ entry v below = [[]]) := by
  unfold entry at h ⊢
  cases hv : v.isVisible with
  | false =>
    rw [hv] at h
    exact absurd h List.not_mem_nil
  | true =>
    rw [hv] at h
    refine ⟨rfl, ?_⟩
    cases hf : v.isFocussable && below.isEmpty with
    | false => exact .inl (by simp)
    | true =>
      rw [hf] at h
      rw [Bool.and_eq_true] at hf
      exact .inr ⟨List.isEmpty_iff.mp hf.2, by simpa using h, by simp⟩

theorem entry_of_ne_nil {v : Node C} (hv : v.isVisible = true) {below : List (List Nat)}
    (h : below ≠ []) : entry v below = below := by
  rw [entry, hv, List.isEmpty_eq_false_iff.mpr h, Bool.and_false]
  rfl

theorem mem_branch {c : Tree C} {π : List Nat} :
    π ∈ branch c ↔ ∃ ρ ∈ entry c.label (stops c), c.key :: ρ = π := List.mem_map

/-- The paths in a branch begin with the key of the child. -/
theorem prefix_branch {c : Tree C} {π : List Nat} (h : π ∈ branch c) (i : Nat) :
    [i] <+: π ↔ c.key = i := by
  obtain ⟨ρ, -, rfl⟩ := mem_branch.mp h
  rw [List.cons_prefix_cons]
  exact ⟨fun h => h.1.symm, fun h => ⟨h.symm, List.nil_prefix⟩⟩

theorem mem_stops {v : Node C} {cs : List (Tree C)} {π : List Nat}
    (h : π ∈ stops (.node v cs)) :
    ∃ c ∈ cs, ∃ ρ ∈ entry c.label (stops c), π = c.key :: ρ := by
  rw [stops_node, List.mem_flatMap] at h
  obtain ⟨c, hc, hπ⟩ := h
  obtain ⟨ρ, hρ, rfl⟩ := mem_branch.mp hπ
  exact ⟨c, hc, ρ, hρ, rfl⟩

theorem stopsOf_eq (π : List Nat) (cs : List (Tree C))
    (h : ∀ c ∈ cs, ∀ π, (∃ act, Ok act c) → tabStops π c = (stops c).map (π ++ ·) ∧
      hasFocusable c = !(stops c).isEmpty)
    (hok : ∀ c ∈ cs, ∃ act, Ok act c) : stopsOf π cs = (cs.flatMap branch).map (π ++ ·) ∧
      anyFocusable cs = !(cs.flatMap branch).isEmpty := by
  induction cs with
  | nil => exact ⟨rfl, rfl⟩
  | cons c cs ih =>
    obtain ⟨hc, hcs⟩ := List.forall_mem_cons.mp h
    obtain ⟨hokc, hokcs⟩ := List.forall_mem_cons.mp hok
    obtain ⟨hstops, hany⟩ := ih hcs hokcs
    have hleaf : c.label.isComposite = false → stops c = [] := by
      obtain ⟨act, hokc⟩ := hokc
      cases c with
      | node v ds =>
        intro hv
        rw [hokc.leaf hv]
        rfl
    rw [stopsOf, hstops, List.flatMap_cons, List.map_append, anyFocusable, hany]
    constructor
    · congr 1
      rw [branch, List.map_map]
      rw [(hc _ hokc).1, (hc [] hokc).2]
      unfold entry
      cases hv : c.label.isVisible with
      | false => rfl
      | true =>
        cases hf : c.label.isFocussable <;> cases hcomp : c.label.isComposite <;>
          cases hs : stops c <;> simp_all [Function.comp_def]
    · have hbranch : (branch c).isEmpty = (entry c.label (stops c)).isEmpty := by
        rw [branch, List.isEmpty_map]
      have hempty : (branch c ++ cs.flatMap branch).isEmpty =
          ((branch c).isEmpty && (cs.flatMap branch).isEmpty) := by
        cases branch c <;> rfl
      rw [hempty, hbranch, entry_nil_iff, (hc [] hokc).2]
      cases c.label.isVisible <;> cases c.label.isFocussable <;> simp

/-- `CollectTabStops` gives the stops. -/
theorem tabStops_eq (t : Tree C) : ∀ π, (∃ act, Ok act t) →
    tabStops π t = (stops t).map (π ++ ·) ∧ hasFocusable t = !(stops t).isEmpty := by
  induction t using Rose.ind with
  | h v cs ih =>
    rintro π ⟨act, hok⟩
    rw [tabStops, hasFocusable, stops_node]
    exact stopsOf_eq π cs ih fun c hc => ⟨_, hok.children c hc⟩

/-! ## The order of the stops -/

/-- The last stop is in the last child that has one. -/
theorem split_last {cs : List (Tree C)} (h : Rose.Distinct cs) {i : Nat} {π : List Nat}
    {A : List (List Nat)} (hlast : cs.flatMap branch = A ++ [i :: π]) :
    ∃ as c bs, cs = as ++ c :: bs ∧ c.key = i ∧ bs.flatMap branch = [] ∧
      (∃ E, entry c.label (stops c) = E ++ [π]) ∧ (∀ a ∈ as, a.key ≠ i) ∧ ∀ b ∈ bs, b.key ≠ i := by
  induction cs using List.reverseRecOn with
  | nil => exact absurd hlast.symm (by simp)
  | append_singleton cs e ih =>
    rw [Rose.Distinct, List.map_append, List.nodup_append] at h
    obtain ⟨hcs, -, hne⟩ := h
    have hother : ∀ c ∈ cs, c.key ≠ e.key := fun c hc =>
      hne _ (List.mem_map_of_mem hc) _ (List.mem_map_of_mem List.mem_cons_self)
    rw [List.flatMap_append, List.flatMap_singleton] at hlast
    rcases List.eq_nil_or_concat (branch e) with hnil | ⟨W, last, hconcat⟩
    · rw [hnil, List.append_nil] at hlast
      obtain ⟨as, c, bs, rfl, hk, hbs, hE, has, hbk⟩ := ih hcs hlast
      refine ⟨as, c, bs ++ [e], by simp, hk, by simp [hbs, hnil], hE, has, fun b hb => ?_⟩
      rcases List.mem_append.mp hb with hb | hb
      · exact hbk b hb
      · rw [List.mem_singleton.mp hb, ← hk]
        exact (hother c (by simp)).symm
    · rw [List.concat_eq_append] at hconcat
      rw [hconcat, ← List.append_assoc] at hlast
      have hlast := (List.append_inj' hlast rfl).2
      rw [(List.cons.inj hlast).1] at hconcat
      have hmem : i :: π ∈ branch e := hconcat ▸ List.mem_append_right W List.mem_cons_self
      have hk : e.key = i :=
        (prefix_branch hmem i).mp (List.cons_prefix_cons.mpr ⟨rfl, List.nil_prefix⟩)
      refine ⟨cs, e, [], rfl, hk, rfl, ?_, fun c hc => hk ▸ hother c hc,
        fun b hb => absurd hb List.not_mem_nil⟩
      obtain ⟨E, R, hE, -, hR⟩ := List.map_eq_append_iff.mp hconcat
      obtain ⟨ρ, hρ, hlast⟩ := List.map_eq_singleton_iff.mp hR
      rw [hE, hρ, (List.cons.inj hlast).2]
      exact ⟨E, rfl⟩

/-- The stops below a widget on the way to the last one are at the end. -/
theorem stops_suffix (ρ : List Nat) : ∀ {act : Bool} {t : Tree C} {A : List (List Nat)}
    {π : List Nat}, Ok act t → stops t = A ++ [π] → ρ <+: π →
      toEnd (ρ <+: ·) (stops t) = stops t := by
  induction ρ with
  | nil =>
    intro act t A π _ _ _
    exact toEnd_append (l := []) (fun _ h => nomatch h) fun _ _ => List.nil_prefix
  | cons i ρ ih =>
    rintro act ⟨v, cs⟩ A π hok hlast ⟨π, rfl⟩
    rw [stops_node] at hlast ⊢
    obtain ⟨as, c, bs, rfl, hk, hbs, ⟨E, hE⟩, has, -⟩ := split_last hok.distinct hlast
    have hin : toEnd (ρ <+: ·) (entry c.label (stops c)) = entry c.label (stops c) := by
      rcases (entry_cases (hE ▸ List.mem_append_right E List.mem_cons_self)).2 with
        hstops | ⟨-, hnil, -⟩
      · rw [hstops] at hE ⊢
        exact ih (hok.children c (by simp)) hE (List.prefix_append ρ π)
      · rw [(List.append_eq_nil_iff.mp hnil).1]
        exact toEnd_append (l := []) (fun _ h => nomatch h) fun _ _ => List.nil_prefix
    have hbranch : toEnd (i :: ρ <+: ·) (branch c) = branch c := by
      rw [branch, toEnd_map, hk]
      simp only [List.prefix_cons_inj]
      rw [hin]
    rw [List.flatMap_append, List.flatMap_cons, hbs, List.append_nil, toEnd_append_left, hbranch]
    intro ω hω hp
    obtain ⟨a, ha, hω⟩ := List.mem_flatMap.mp hω
    exact has a ha ((prefix_branch hω i).mp
      ((List.cons_prefix_cons.mpr ⟨rfl, List.nil_prefix⟩ : [i] <+: i :: ρ).trans hp))

/-- No stop is above another. -/
theorem stops_free (π : List Nat) : ∀ {act : Bool} {t : Tree C} {ρ : List Nat}, Ok act t →
    π ∈ stops t → ρ ∈ stops t → π <+: ρ → π = ρ := by
  induction π with
  | nil =>
    rintro act ⟨v, cs⟩ ρ _ hπ _ _
    obtain ⟨c, -, σ, -, hcons⟩ := mem_stops hπ
    exact nomatch hcons
  | cons i π ih =>
    rintro act ⟨v, cs⟩ ρ hok hπ hρ hp
    obtain ⟨c, hc, σ, hσ, hcons⟩ := mem_stops hπ
    obtain ⟨rfl, rfl⟩ := List.cons.inj hcons
    obtain ⟨d, hd, τ, hτ, rfl⟩ := mem_stops hρ
    obtain ⟨hk, hbelow⟩ := List.cons_prefix_cons.mp hp
    obtain rfl := hok.distinct.eq hc hd hk
    congr 1
    rcases (entry_cases hσ).2 with hstops | ⟨hnil, rfl, -⟩
    · rw [hstops] at hσ hτ
      exact ih (hok.children c hc) hσ hτ hbelow
    · rcases (entry_cases hτ).2 with hstops | ⟨-, rfl, -⟩
      · rw [hstops, hnil] at hτ
        exact nomatch hτ
      · rfl

theorem stops_nodup (t : Tree C) : ∀ {act : Bool}, Ok act t → (stops t).Nodup := by
  induction t using Rose.ind with
  | h v cs ih =>
    intro act hok
    rw [stops_node, List.nodup_flatMap]
    constructor
    · intro c hc
      refine List.Nodup.map (fun _ _ h => (List.cons.inj h).2) ?_
      unfold entry
      split
      · exact List.nodup_nil
      · split
        · exact List.nodup_singleton []
        · exact ih c hc (hok.children c hc)
    · refine (List.pairwise_map.mp hok.distinct).imp fun {c d} hne => ?_
      rintro π hπ hπ'
      exact hne (((prefix_branch hπ c.key).mpr rfl |> (prefix_branch hπ' c.key).mp).symm)

/-! ## Giving the focus to a stop -/

theorem branch_congr {c d : Tree C} (hk : d.key = c.key)
    (hv : d.label.isVisible = c.label.isVisible)
    (hf : d.label.isFocussable = c.label.isFocussable)
    (hs : entry c.label (stops d) = entry c.label (stops c)) : branch d = branch c := by
  unfold branch
  rw [hk, ← hs]
  unfold entry
  rw [hv, hf]

theorem setFocus_isVisible (b : Bool) (t : Tree C) :
    (setFocus b t).label.isVisible = t.label.isVisible := by
  rw [setFocus_label]
  split <;> rfl

theorem focusPathOf_map {f : Tree C → Tree C} {cs : List (Tree C)}
    (h : ∀ c ∈ cs, (f c).key = c.key ∧ focusPath (f c) = focusPath c) (fc : Option Nat) :
    focusPathOf fc (cs.map f) = focusPathOf fc cs := by
  induction cs with
  | nil => rfl
  | cons c cs ih =>
    obtain ⟨⟨hk, hp⟩, hcs⟩ := List.forall_mem_cons.mp h
    rw [List.map_cons, focusPathOf, focusPathOf, hk, hp, ih hcs]

/-- `SetFocus` changes neither the stops nor the way to the focus. -/
theorem setFocus_stops (b : Bool) (t : Tree C) :
    stops (setFocus b t) = stops t ∧ focusPath (setFocus b t) = focusPath t := by
  induction t using Rose.ind with
  | h v cs ih =>
    by_cases hb : v.isFocused = b
    · rw [setFocus_of_eq hb]
      exact ⟨rfl, rfl⟩
    · rw [setFocus_of_ne hb]
      generalize (if v.isComposite then v.focusedChild else none) = w
      constructor
      · rw [stops_node, stops_node, List.flatMap_map]
        refine List.flatMap_congr fun c hc => ?_
        split
        · refine branch_congr (setFocus_key b c) (setFocus_isVisible b c)
            (setFocus_isFocussable b c) ?_
          rw [(ih c hc).1]
        · rfl
      · refine focusPathOf_map (fun c hc => ?_) v.focusedChild
        split
        · exact ⟨setFocus_key b c, (ih c hc).2⟩
        · exact ⟨rfl, rfl⟩

theorem branch_setFocus (b : Bool) (c : Tree C) : branch (setFocus b c) = branch c :=
  branch_congr (setFocus_key b c) (setFocus_isVisible b c) (setFocus_isFocussable b c)
    (by rw [(setFocus_stops b c).1])

theorem focusPathOf_none (cs : List (Tree C)) : focusPathOf none cs = [] := by
  induction cs with
  | nil => rfl
  | cons c cs ih => rw [focusPathOf, if_neg nofun, ih]

theorem focusPathOf_some {cs : List (Tree C)} (h : Rose.Distinct cs) {c : Tree C} (hc : c ∈ cs) :
    focusPathOf (some c.key) cs = c.key :: focusPath c := by
  induction cs with
  | nil => exact nomatch hc
  | cons d cs ih =>
    obtain ⟨hd, hcs⟩ := List.nodup_cons.mp h
    rw [focusPathOf]
    rcases List.mem_cons.mp hc with rfl | hc
    · rw [if_pos rfl]
    · have hne : some c.key ≠ some d.key := by
        intro heq
        rw [← Option.some.inj heq] at hd
        exact hd (List.mem_map_of_mem hc)
      rw [if_neg hne, ih hcs hc]

theorem raiseKey_eq (i : Nat) (cs : List (Tree C)) : raiseKey i cs = toEnd (·.key = i) cs := rfl

/-- The stops in the children when the focus moved. -/
theorem flatMap_moved (old new : Option Nat) (cs : List (Tree C)) :
    (moved old new cs).flatMap branch = match new with
      | none => cs.flatMap branch
      | some i => toEnd ([i] <+: ·) (cs.flatMap branch) := by
  have hmap : (cs.map fun c => if old = some c.key then setFocus false c
      else if new = some c.key then setFocus true c else c).flatMap branch =
      cs.flatMap branch := by
    rw [List.flatMap_map]
    refine List.flatMap_congr fun c _ => ?_
    split
    · exact branch_setFocus false c
    · split
      · exact branch_setFocus true c
      · rfl
  rw [← hmap]
  cases new with
  | none => rfl
  | some i =>
    dsimp only
    rw [toEnd_flatMap (q := fun c : Tree C => c.key = i) fun c _ π hπ => prefix_branch hπ i]
    rfl

/-- `GetFocus` of a container for a child: the stops in the child go to the end, unless the child
has its focus already or may not have it. -/
theorem stops_focusStep {v : Node C} {cs : List (Tree C)} (h : Rose.Distinct cs) {c : Tree C}
    (hc : c ∈ cs) : stops (focusStep (some c.key) (.node v cs)).1 =
      if c.label.isFocussable = true ∧ v.focusedChild ≠ some c.key then
        toEnd ([c.key] <+: ·) (cs.flatMap branch)
      else cs.flatMap branch := by
  cases hf : c.label.isFocussable with
  | false =>
    rw [if_neg (by simp)]
    by_cases hne : v.focusedChild = granted (some c.key) (.node v cs)
    · rw [focusStep_of_eq hne, stops_node]
    · rw [focusStep_of_ne hne, stops_node, flatMap_moved, granted_of_not_focussable hc hf]
  | true =>
    have hg := granted_of_focussable (v := v) h hc hf
    by_cases hne : v.focusedChild = some c.key
    · rw [focusStep_of_eq (hne.trans hg.symm), stops_node, if_neg (by simp [hne])]
    · rw [focusStep_of_ne (hg.symm ▸ hne), stops_node, flatMap_moved, hg, if_pos ⟨rfl, hne⟩]

/-- Where the focus of the container then is. -/
theorem focusPath_focusStep {v : Node C} {cs : List (Tree C)} (h : Rose.Distinct cs) {c : Tree C}
    (hc : c ∈ cs) : focusPath (focusStep (some c.key) (.node v cs)).1 =
      if c.label.isFocussable then c.key :: focusPath c else [] := by
  cases hf : c.label.isFocussable with
  | false =>
    have hg := granted_of_not_focussable (v := v) hc hf
    rw [if_neg (by simp)]
    by_cases hne : v.focusedChild = none
    · rw [focusStep_of_eq (hne.trans hg.symm), focusPath, hne, focusPathOf_none]
    · rw [focusStep_of_ne (hg ▸ hne), focusPath]
      dsimp only
      rw [hg, focusPathOf_none]
  | true =>
    have hg := granted_of_focussable (v := v) h hc hf
    rw [if_pos rfl]
    by_cases hne : v.focusedChild = some c.key
    · rw [focusStep_of_eq (hne.trans hg.symm), focusPath, hne, focusPathOf_some h hc]
    · rw [focusStep_of_ne (hg.symm ▸ hne), focusPath]
      dsimp only
      rw [hg]
      have hmem : setFocus true c ∈ moved v.focusedChild (some c.key) cs :=
        mem_moved.mpr ⟨c, hc, by rw [if_neg hne, if_pos rfl]⟩
      have hsome := focusPathOf_some (distinct_moved h) hmem
      rw [setFocus_key, (setFocus_stops true c).2] at hsome
      exact hsome

/-- The stop at the path asks its containers for focus. -/
def ask : List Nat → Tree C → Tree C
  | [], t => t
  | i :: π, t => (getFocus (i :: π).dropLast (i :: π).getLast? t).1

/-- First the stop in the child `i` asks, then the child. -/
theorem ask_cons (i : Nat) (π : List Nat) (t : Tree C) : ∃ d, ask (i :: π) t =
    (focusStep (some i) (.node { t.label with isDirty := d }
      (Rose.mapKey i (ask π) t.children))).1 := by
  cases π with
  | nil =>
    refine ⟨t.label.isDirty, ?_⟩
    have hid : Rose.mapKey i (ask []) t.children = t.children := by
      unfold Rose.mapKey
      refine (List.map_congr_left fun c _ => ?_).trans (List.map_id _)
      split <;> rfl
    rw [hid]
    cases t with
    | node v cs => rfl
  | cons j π =>
    refine ⟨t.label.isDirty || t.children.any fun c =>
      c.key = i && (getFocus (j :: π).dropLast (j :: π).getLast? c).2, ?_⟩
    rw [ask, List.dropLast_cons_cons, List.getLast?_cons_cons, getFocus_cons]
    rfl

theorem ask_same (π : List Nat) (t : Tree C) : SameFlags (ask π t) t := by
  cases π with
  | nil => exact ⟨t.label.isDirty, t.label.focusedChild, rfl⟩
  | cons i π => exact getFocus_same _ _ t

section

variable {act : Bool} {v : Node C} {cs : List (Tree C)} {c : Tree C}

theorem distinct_mapKey (h : Rose.Distinct cs) (i : Nat) (π : List Nat) :
    Rose.Distinct (Rose.mapKey i (ask π) cs) := by
  rw [Rose.Distinct, Rose.map_key_mapKey fun t => (ask_same π t).key]
  exact h

theorem mem_mapKey_ask (hc : c ∈ cs) (π : List Nat) : ask π c ∈ Rose.mapKey c.key (ask π) cs :=
  Rose.mem_mapKey.mpr ⟨c, hc, (if_pos rfl).symm⟩

/-- The stops when a stop in the child asked. -/
theorem stops_ask (h : Rose.Distinct cs) (hc : c ∈ cs) (π : List Nat) :
    stops (ask (c.key :: π) (.node v cs)) =
      if c.label.isFocussable = true ∧ v.focusedChild ≠ some c.key then
        toEnd ([c.key] <+: ·) ((Rose.mapKey c.key (ask π) cs).flatMap branch)
      else (Rose.mapKey c.key (ask π) cs).flatMap branch := by
  obtain ⟨d, hd⟩ := ask_cons c.key π (.node v cs)
  have hstep := stops_focusStep (v := { v with isDirty := d }) (distinct_mapKey h c.key π)
    (mem_mapKey_ask hc π)
  rw [(ask_same π c).key, (ask_same π c).isFocussable] at hstep
  rw [hd]
  exact hstep

theorem focusPath_ask (h : Rose.Distinct cs) (hc : c ∈ cs) (π : List Nat) :
    focusPath (ask (c.key :: π) (.node v cs)) =
      if c.label.isFocussable then c.key :: focusPath (ask π c) else [] := by
  obtain ⟨d, hd⟩ := ask_cons c.key π (.node v cs)
  have hstep := focusPath_focusStep (v := { v with isDirty := d }) (distinct_mapKey h c.key π)
    (mem_mapKey_ask hc π)
  rw [(ask_same π c).key, (ask_same π c).isFocussable] at hstep
  rw [hd]
  exact hstep

theorem flatMap_mapKey (h : Rose.Distinct cs) (hc : c ∈ cs) {f : Tree C → Tree C}
    (hf : branch (f c) = branch c) : (Rose.mapKey c.key f cs).flatMap branch = cs.flatMap branch := by
  rw [Rose.mapKey, List.flatMap_map]
  refine List.flatMap_congr fun d hd => ?_
  split
  · rename_i hk
    rw [h.eq hd hc hk, hf]
  · rfl

theorem entry_perm (u : Node C) {l r : List (List Nat)} (h : l.Perm r) :
    (entry u l).Perm (entry u r) := by
  unfold entry
  have hempty : l.isEmpty = r.isEmpty := by
    rw [Bool.eq_iff_iff, List.isEmpty_iff, List.isEmpty_iff]
    exact ⟨fun hl => (hl ▸ h).symm.eq_nil, fun hr => (hr ▸ h).eq_nil⟩
  rw [hempty]
  split
  · exact .rfl
  · split
    · exact .rfl
    · exact h

/-- What a call in a child does to the stops in it. -/
theorem branch_ask (π : List Nat) (c : Tree C) :
    branch (ask π c) = (entry c.label (stops (ask π c))).map (c.key :: ·) := by
  obtain ⟨d, f, hlabel⟩ := ask_same π c
  unfold branch
  rw [(ask_same π c).key, hlabel]
  rfl

/-- The child in which a stop is. -/
theorem Ok.mem_stops (hok : Ok act (.node v cs)) {i : Nat} {π : List Nat}
    (h : i :: π ∈ stops (.node v cs)) : ∃ c ∈ cs, c.key = i ∧ π ∈ entry c.label (stops c) ∧
      ∀ d ∈ cs, d.key = i → d = c := by
  obtain ⟨c, hc, ρ, hρ, heq⟩ := WidgetTree.mem_stops h
  obtain ⟨rfl, rfl⟩ := List.cons.inj heq
  exact ⟨c, hc, rfl, hρ, fun d hd hk => hok.distinct.eq hd hc hk⟩

theorem takes_cons (hc : c ∈ cs) (π : List Nat) (h : takes (c.key :: π) (.node v cs) = true) :
    c.label.isFocussable = true ∧ takes π c = true := by
  have hc := List.all_eq_true.mp h c hc
  simpa using hc

end

theorem nil_not_mem_stops (t : Tree C) : [] ∉ stops t := by
  intro h
  cases t with
  | node v cs =>
    obtain ⟨c, -, ρ, -, hcons⟩ := mem_stops h
    exact nomatch hcons

/-- No stop is lost, and none is added. -/
theorem stops_ask_perm (π : List Nat) : ∀ {act : Bool} {t : Tree C}, Ok act t → π ∈ stops t →
    (stops (ask π t)).Perm (stops t) := by
  induction π with
  | nil => exact fun _ _ => .rfl
  | cons i π ih =>
    rintro act ⟨v, cs⟩ hok hπ
    obtain ⟨c, hc, rfl, hin, -⟩ := hok.mem_stops hπ
    have hbranch : (branch (ask π c)).Perm (branch c) := by
      rw [branch_ask]
      refine List.Perm.map _ (entry_perm _ ?_)
      rcases (entry_cases hin).2 with hstops | ⟨-, rfl, -⟩
      · exact ih (hok.children c hc) (hstops ▸ hin)
      · exact .rfl
    have hall : ((Rose.mapKey c.key (ask π) cs).flatMap branch).Perm (cs.flatMap branch) := by
      rw [Rose.mapKey, List.flatMap_map]
      refine List.Perm.flatMap_left cs fun d hd => ?_
      split
      · rename_i hk
        rw [hok.distinct.eq hd hc hk]
        exact hbranch
      · exact .rfl
    rw [stops_ask hok.distinct hc, stops_node]
    split
    · exact (toEnd_perm _).trans hall
    · exact hall

/-- A stop that the focus is passed on to has it. -/
theorem focusPath_of_takes (π : List Nat) : ∀ {act : Bool} {t : Tree C}, Ok act t →
    π ∈ stops t → takes π t = true → focusPath (ask π t) = π := by
  induction π with
  | nil => exact fun {_ t} _ h _ => absurd h (nil_not_mem_stops t)
  | cons i π ih =>
    rintro act ⟨v, cs⟩ hok hπ htakes
    obtain ⟨c, hc, rfl, hin, -⟩ := hok.mem_stops hπ
    obtain ⟨hf, htakes⟩ := takes_cons hc π htakes
    rw [focusPath_ask hok.distinct hc, if_pos hf]
    congr 1
    rcases (entry_cases hin).2 with hstops | ⟨-, rfl, -⟩
    · exact ih (hok.children c hc) (hstops ▸ hin) htakes
    · cases c with
      | node u ds =>
        have hnone : u.focusedChild = none := of_decide_eq_true htakes
        change focusPathOf u.focusedChild ds = []
        rw [hnone, focusPathOf_none]

/-- If a stop has the focus after one asked for it, then it is that one, and the focus is passed on
to it. -/
theorem takes_of_focusPath (π : List Nat) : ∀ {act : Bool} {t : Tree C}, Ok act t → π ∈ stops t →
    focusPath (ask π t) ∈ stops t → takes π t = true := by
  induction π with
  | nil => exact fun {_ t} _ h _ => absurd h (nil_not_mem_stops t)
  | cons i π ih =>
    rintro act ⟨v, cs⟩ hok hπ hfocus
    obtain ⟨c, hc, rfl, hin, honly⟩ := hok.mem_stops hπ
    rw [focusPath_ask hok.distinct hc] at hfocus
    cases hf : c.label.isFocussable with
    | false =>
      rw [hf] at hfocus
      exact absurd hfocus (nil_not_mem_stops _)
    | true =>
      rw [hf, if_pos rfl] at hfocus
      obtain ⟨d, hd, hk, hfocus, -⟩ := hok.mem_stops hfocus
      obtain rfl := honly d hd hk
      have htakes : takes π d = true := by
        rcases (entry_cases hin).2 with hstops | ⟨hnil, rfl, -⟩
        · rw [hstops] at hin hfocus
          exact ih (hok.children d hd) hin hfocus
        · -- the child is a stop itself, and its own focused child would be below it
          rcases (entry_cases hfocus).2 with hstops | ⟨-, hend, -⟩
          · rw [hstops, hnil] at hfocus
            exact nomatch hfocus
          · cases d with
            | node u ds =>
              refine decide_eq_true ?_
              cases hfc : u.focusedChild with
              | none => exact hfc
              | some k =>
                obtain ⟨e, he, rfl⟩ := (hok.children _ hd).listed k hfc
                change focusPathOf u.focusedChild ds = [] at hend
                rw [hfc, focusPathOf_some (hok.children _ hd).distinct he] at hend
                exact nomatch hend
      refine List.all_eq_true.mpr fun e he => ?_
      by_cases hk : e.key = d.key
      · rw [honly e he hk, hf, htakes]
        simp
      · simp [hk]

/-! ## The order after a step -/

/-- A stop in a child that the child's last stop is. -/
theorem entry_of_branch {c : Tree C} {W R : List (List Nat)}
    (h : branch c = W ++ R.map (c.key :: ·)) : ∃ E, entry c.label (stops c) = E ++ R := by
  obtain ⟨E, R', hE, -, hR⟩ := List.map_eq_append_iff.mp h
  have hinj : Function.Injective (c.key :: · : List Nat → List Nat) :=
    fun _ _ h => (List.cons.inj h).2
  rw [hE, List.map_injective_iff.mpr hinj hR]
  exact ⟨E, rfl⟩

/-- The last stop is at the end already. -/
theorem stops_ask_last (π : List Nat) : ∀ {act : Bool} {t : Tree C} {A : List (List Nat)},
    Ok act t → stops t = A ++ [π] → stops (ask π t) = stops t := by
  induction π with
  | nil => exact fun _ _ => rfl
  | cons i π ih =>
    rintro act ⟨v, cs⟩ A hok hlast
    have hend := stops_suffix [i] hok hlast (List.cons_prefix_cons.mpr ⟨rfl, List.nil_prefix⟩)
    rw [stops_node] at hlast hend ⊢
    obtain ⟨as, c, bs, hcs, rfl, -, ⟨E, hE⟩, -⟩ := split_last hok.distinct hlast
    have hc : c ∈ cs := hcs ▸ by simp
    have hbranch : branch (ask π c) = branch c := by
      rw [branch_ask, branch]
      rcases (entry_cases (hE ▸ List.mem_append_right E List.mem_cons_self)).2 with
        hstops | ⟨-, hnil, -⟩
      · rw [hstops] at hE
        rw [ih (hok.children c hc) hE]
      · rw [hnil]
        rfl
    rw [stops_ask hok.distinct hc, flatMap_mapKey hok.distinct hc hbranch]
    split
    · exact hend
    · rfl

theorem filter_branch {cs : List (Tree C)} (h : Rose.Distinct cs) {c : Tree C} (hc : c ∈ cs) :
    (cs.flatMap branch).filter ([c.key] <+: ·) = branch c := by
  obtain ⟨as, bs, rfl⟩ := List.append_of_mem hc
  rw [Rose.Distinct, List.map_append, List.map_cons, List.nodup_append, List.nodup_cons] at h
  obtain ⟨-, ⟨hbs, -⟩, has⟩ := h
  rw [List.flatMap_append, List.flatMap_cons, List.filter_append, List.filter_append]
  rw [filter_eq_nil, filter_eq_self fun π hπ => (prefix_branch hπ _).mpr rfl, filter_eq_nil,
    List.nil_append, List.append_nil]
  · intro π hπ hp
    obtain ⟨b, hb, hπ⟩ := List.mem_flatMap.mp hπ
    exact hbs ((prefix_branch hπ _).mp hp ▸ List.mem_map_of_mem hb)
  · intro π hπ hp
    obtain ⟨a, ha, hπ⟩ := List.mem_flatMap.mp hπ
    exact has _ (List.mem_map_of_mem ha) _ List.mem_cons_self ((prefix_branch hπ _).mp hp)

theorem focusPath_cons {act : Bool} {v : Node C} {cs : List (Tree C)} (hok : Ok act (.node v cs))
    {d : Tree C} (hd : d ∈ cs) {π : List Nat} (h : focusPath (.node v cs) = d.key :: π) :
    v.focusedChild = some d.key ∧ focusPath d = π := by
  rw [focusPath] at h
  cases hfc : v.focusedChild with
  | none =>
    rw [hfc, focusPathOf_none] at h
    exact nomatch h
  | some k =>
    obtain ⟨e, he, rfl⟩ := hok.listed k hfc
    rw [hfc, focusPathOf_some hok.distinct he] at h
    obtain ⟨hk, rfl⟩ := List.cons.inj h
    obtain rfl := hok.distinct.eq he hd hk
    exact ⟨rfl, rfl⟩

theorem mapKey_split {as bs : List (Tree C)} {c : Tree C} (has : ∀ a ∈ as, a.key ≠ c.key)
    (hbs : ∀ b ∈ bs, b.key ≠ c.key) (f : Tree C → Tree C) :
    Rose.mapKey c.key f (as ++ c :: bs) = as ++ f c :: bs := by
  rw [Rose.mapKey, List.map_append, List.map_cons, if_pos rfl]
  congr 1
  · exact (List.map_congr_left fun a ha => if_neg (has a ha)).trans (List.map_id _)
  · congr 1
    exact (List.map_congr_left fun b hb => if_neg (hbs b hb)).trans (List.map_id _)

/-- The focus is on the last stop, and goes to the one before it: all stops below their fork go to
the end. -/
theorem stops_ask_before (x : List Nat) : ∀ {act : Bool} {t : Tree C} {A : List (List Nat)}
    {y : List Nat}, Ok act t → stops t = A ++ [x, y] → focusPath t = y → takes x t = true →
      stops (ask x t) = toEnd (fork x y <+: ·) (stops t) := by
  induction x with
  | nil =>
    intro act t A y _ hstops _ _
    exact absurd (hstops ▸ by simp) (nil_not_mem_stops t)
  | cons i x ih =>
    rintro act ⟨v, cs⟩ A y hok hstops hfocus htakes
    obtain ⟨c, hc, rfl, hin, honly⟩ := hok.mem_stops (hstops ▸ by simp : i :: x ∈ _)
    obtain ⟨d, hd, y, -, rfl⟩ := mem_stops (hstops ▸ by simp : y ∈ stops (.node v cs))
    obtain ⟨hfc, hfocus⟩ := focusPath_cons hok hd hfocus
    obtain ⟨hf, htakes⟩ := takes_cons hc x htakes
    have hfilter := filter_branch hok.distinct hc
    rw [stops_node] at hstops ⊢
    rw [hstops, List.filter_append] at hfilter
    rw [stops_ask hok.distinct hc, fork]
    by_cases hk : c.key = d.key
    · obtain rfl := hok.distinct.eq hd hc hk.symm
      obtain ⟨E, hE⟩ := entry_of_branch (W := A.filter ([d.key] <+: ·)) (R := [x, y]) (by
        rw [← hfilter]
        simp)
      obtain ⟨hvisible, hbelow | ⟨-, -, hself⟩⟩ := entry_cases hin
      · have hstops' : stops d = E ++ [x, y] := hbelow ▸ hE
        have hrec := ih (hok.children d hd) hstops' hfocus htakes
        obtain ⟨as, e, bs, rfl, hek, hbs, -, has, hbk⟩ :=
          split_last (A := A ++ [d.key :: x]) hok.distinct (by simpa using hstops)
        obtain rfl := honly e (by simp) hek
        rw [if_neg (by simp [hfc]), if_pos rfl, mapKey_split has hbk, List.flatMap_append,
          List.flatMap_append, List.flatMap_cons, List.flatMap_cons, hbs, List.append_nil,
          List.append_nil, branch_ask, hrec, branch, hbelow]
        rw [entry_of_ne_nil hvisible (fun hnil => ?_), toEnd_append_left, toEnd_map]
        · simp only [List.prefix_cons_inj]
        · intro π hπ hp
          obtain ⟨a, ha, hπ⟩ := List.mem_flatMap.mp hπ
          exact has a ha ((prefix_branch hπ e.key).mp
            ((List.cons_prefix_cons.mpr ⟨rfl, List.nil_prefix⟩ : [e.key] <+: _).trans hp))
        · have hlen := (toEnd_perm (p := (fork x y <+: ·)) (stops e)).length_eq
          rw [hnil, hstops', List.length_append] at hlen
          exact absurd hlen (by simp)
      · have hlen := congrArg List.length (hself.symm.trans hE)
        rw [List.length_append] at hlen
        exact absurd hlen (by simp)
    · have hne : v.focusedChild ≠ some c.key := fun h => hk (Option.some.inj (h.symm.trans hfc))
      rw [if_pos ⟨hf, hne⟩, if_neg hk]
      congr 1
      refine flatMap_mapKey hok.distinct hc ?_
      obtain ⟨E, hE⟩ := entry_of_branch (W := A.filter ([c.key] <+: ·)) (R := [x]) (by
        rw [← hfilter]
        simp [List.cons_prefix_cons, hk])
      rw [branch_ask, branch]
      obtain ⟨-, hbelow | ⟨-, rfl, -⟩⟩ := entry_cases hin
      · rw [stops_ask_last x (hok.children c hc) (hbelow ▸ hE)]
      · rfl

end WidgetTree
end Hashx86
