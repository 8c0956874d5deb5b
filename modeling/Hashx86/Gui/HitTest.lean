import Hashx86.Gui.Pointer

/-!
# The widget under a point (`Widget::HitTest`, `CompositeWidget::OnMouseDown`)

A widget is named by its path: the position of a child in the list, from the root on. The children
are painted in the order of the list, and asked in the reverse of it; `ReverseForEach` asks the first
128 of them.

* `topmost`: the widget that is painted last at a point.
* `topmost_eq`: it is what a hit test that asks all children gives.
* `hitTest_origin`, `hitTest_downPath`: the point in the frame of the parent, and where a press goes.
* `hits_iff`: the hit test gives that widget exactly when each child on the way is among the first
  128.
-/

namespace Hashx86
namespace Pointer

open Lib Controls

/-! ## `HitTest` -/

/-- How many children `ReverseForEach` goes over. -/
def reverseRoom : Nat := 128

mutual
/-- `HitTest`, where a container asks the children at the positions in `asks`. -/
def hitTestWith (asks : Nat → Bool) (px py : Int) : Tree → Option (List Nat)
  | .node v cs =>
    if !v.base.isVisible || !v.base.containsCoordinate px py then none
    else if v.part.isComposite then
      some ((hitOf asks (px - v.base.x) (py - v.base.y) 0 cs).getD [])
    else some []

/-- The children from position `i` on, the last of them first. -/
def hitOf (asks : Nat → Bool) (px py : Int) (i : Nat) : List Tree → Option (List Nat)
  | [] => none
  | c :: cs =>
    match hitOf asks px py (i + 1) cs with
    | some found => some found
    | none => if asks i then (hitTestWith asks px py c).map (i :: ·) else none
end

def hitTest (px py : Int) (t : Tree) : Option (List Nat) :=
  hitTestWith (fun i => decide (i < reverseRoom)) px py t

mutual
/-- The widgets below the root that `CompositeWidget::OnMouseDown` hands the press to. -/
def downPath (px py : Int) : Tree → List Nat
  | .node v cs =>
    if v.part.isComposite && !v.base.off then
      (downOf (px - v.base.x) (py - v.base.y) 0 cs).getD []
    else []

def downOf (px py : Int) (i : Nat) : List Tree → Option (List Nat)
  | [] => none
  | c :: cs =>
    match downOf px py (i + 1) cs with
    | some clicked => some clicked
    | none => if i < reverseRoom ∧ under c px py = true then some (i :: downPath px py c) else none
end

/-- The subtree at a path. -/
def at? : List Nat → Tree → Option Tree
  | [], t => some t
  | i :: π, t => (t.children[i]?).bind (at? π)

/-- `ModelToScreen` of the widget at a path, added to a point. -/
def modelToScreen : List Nat → Tree → Int × Int → Int × Int
  | [], t, (x, y) => (x + t.label.base.x, y + t.label.base.y)
  | i :: π, t, (x, y) =>
    let p := (x + t.label.base.x, y + t.label.base.y)
    match t.children[i]? with
    | none => p
    | some c => modelToScreen π c p

/-- The frame of the widget at a path: the position of its parent on the screen. -/
def parentOrigin (π : List Nat) (t : Tree) : Int × Int :=
  if π = [] then (0, 0) else modelToScreen π.dropLast t (0, 0)

/-! ## What is asked -/

/-- A set of points of the screen. -/
abbrev Region := Int → Int → Bool

mutual
/-- The widgets in the order in which they are painted, each with where it shows: its rectangle at its
place on the screen, clipped by those of its ancestors. -/
def paint (clip : Region) (ox oy : Int) : Tree → List (List Nat × Region)
  | .node v cs =>
    if !v.base.isVisible then []
    else
      let r : Region := fun px py => clip px py && v.base.containsCoordinate (px - ox) (py - oy)
      ([], r) :: if v.part.isComposite then paintOf r (ox + v.base.x) (oy + v.base.y) 0 cs else []

def paintOf (clip : Region) (ox oy : Int) (i : Nat) : List Tree → List (List Nat × Region)
  | [] => []
  | c :: cs =>
    (paint clip ox oy c).map (fun q => (i :: q.1, q.2)) ++ paintOf clip ox oy (i + 1) cs
end

/-- The last widget in a list that shows at a point. -/
def lastAt (px py : Int) (l : List (List Nat × Region)) : Option (List Nat) :=
  ((l.filter fun q => q.2 px py).getLast?).map Prod.fst

def topmost (px py : Int) (t : Tree) : Option (List Nat) :=
  lastAt px py (paint (fun _ _ => true) 0 0 t)

/-- The hit test gives the widget that is painted last at the point; a press goes the same way, as
far as the containers are enabled; and the point is in the widget in the frame of its parent. -/
structure Hits (px py : Int) (t : Tree) : Prop where
  topmost : hitTest px py t = topmost px py t
  down : ∀ π, hitTest px py t = some π → downPath px py t <+: π ∧
    ((∀ v ∈ t.labels, v.base.enabled = true) → downPath px py t = π)
  contains : ∀ π, hitTest px py t = some π → ∃ s, at? π t = some s ∧
    contains s (px - (parentOrigin π t).1) (py - (parentOrigin π t).2) = true

mutual
/-- On the way to the widget that shows at the point, each child is among the first 128. -/
def withinReach (px py : Int) : Tree → Bool
  | .node v cs =>
    !(v.base.isVisible && v.base.containsCoordinate px py && v.part.isComposite) ||
      reachOf (px - v.base.x) (py - v.base.y) 0 cs

def reachOf (px py : Int) (i : Nat) : List Tree → Bool
  | [] => true
  | c :: cs =>
    if cs.any fun c => under c px py then reachOf px py (i + 1) cs
    else !under c px py || decide (i < reverseRoom) && withinReach px py c
end

/-! ## The order of painting -/

variable {px py : Int}

theorem lastAt_append (l r : List (List Nat × Region)) :
    lastAt px py (l ++ r) = (lastAt px py r).or (lastAt px py l) := by
  unfold lastAt
  rw [List.filter_append, List.getLast?_append, Option.map_or]

theorem lastAt_map (i : Nat) (l : List (List Nat × Region)) :
    lastAt px py (l.map fun q => (i :: q.1, q.2)) = (lastAt px py l).map (i :: ·) := by
  unfold lastAt
  rw [List.filter_map, List.getLast?_map, Option.map_map, Option.map_map]
  rfl

theorem lastAt_singleton (π : List Nat) (r : Region) :
    lastAt px py [(π, r)] = if r px py then some π else none := by
  unfold lastAt
  rw [List.filter_singleton]
  cases h : r px py <;> simp [h]

/-- Of some children, the last that shows is the one a hit test that asks all of them gives. -/
theorem lastAt_paintOf (cs : List Tree)
    (ih : ∀ c ∈ cs, ∀ clip ox oy, lastAt px py (paint clip ox oy c) =
      if clip px py then hitTestWith (fun _ => true) (px - ox) (py - oy) c else none)
    (clip : Region) (ox oy : Int) (i : Nat) : lastAt px py (paintOf clip ox oy i cs) =
      if clip px py then hitOf (fun _ => true) (px - ox) (py - oy) i cs else none := by
  induction cs generalizing i with
  | nil =>
    rw [paintOf, hitOf, ite_self]
    rfl
  | cons c cs ihcs =>
    obtain ⟨hc, hcs⟩ := List.forall_mem_cons.mp ih
    rw [paintOf, lastAt_append, lastAt_map, ihcs hcs, hc, hitOf]
    split
    · cases hitOf (fun _ => true) (px - ox) (py - oy) (i + 1) cs <;> rfl
    · rfl

theorem lastAt_paint (t : Tree) : ∀ clip ox oy, lastAt px py (paint clip ox oy t) =
    if clip px py then hitTestWith (fun _ => true) (px - ox) (py - oy) t else none := by
  induction t using Rose.ind with
  | h v cs ih =>
    intro clip ox oy
    have hsubx : px - (ox + v.base.x) = px - ox - v.base.x := by omega
    have hsuby : py - (oy + v.base.y) = py - oy - v.base.y := by omega
    have hchildren := lastAt_paintOf cs ih
      (fun px py => clip px py && v.base.containsCoordinate (px - ox) (py - oy))
      (ox + v.base.x) (oy + v.base.y) 0
    rw [hsubx, hsuby] at hchildren
    rw [paint, hitTestWith]
    cases v.base.isVisible with
    | false =>
      change none = if clip px py then none else none
      rw [ite_self]
    | true =>
      rw [if_neg (by decide)]
      dsimp only
      rw [← List.singleton_append, lastAt_append, lastAt_singleton]
      cases v.part.isComposite with
      | false =>
        cases clip px py <;> cases v.base.containsCoordinate (px - ox) (py - oy) <;> rfl
      | true =>
        rw [if_pos rfl, hchildren]
        cases clip px py with
        | false => rfl
        | true =>
          cases v.base.containsCoordinate (px - ox) (py - oy) with
          | false => rfl
          | true =>
            cases hitOf (fun _ => true) (px - ox - v.base.x) (py - oy - v.base.y) 0 cs <;> rfl

/-- The widget painted last is the one that a hit test which asks all children gives. -/
theorem topmost_eq (t : Tree) : topmost px py t = hitTestWith (fun _ => true) px py t := by
  rw [topmost, lastAt_paint, if_pos rfl, Int.sub_zero, Int.sub_zero]

/-! ## The way down -/

variable {asks : Nat → Bool}

/-- A widget is hit when it is visible and the point is in it. -/
theorem hitTestWith_eq_none (asks : Nat → Bool) (t : Tree) :
    hitTestWith asks px py t = none ↔ under t px py = false := by
  obtain ⟨v, cs⟩ := t
  rw [hitTestWith, under, contains, Rose.label_node]
  cases v.base.isVisible <;> cases v.base.containsCoordinate px py <;>
    cases v.part.isComposite <;> simp

/-- What is found among the children is a path through one of them. -/
theorem hitOf_some {π : List Nat} {cs : List Tree} {i : Nat}
    (h : hitOf asks px py i cs = some π) : ∃ k c ρ, π = (i + k) :: ρ ∧ cs[k]? = some c ∧
      asks (i + k) = true ∧ hitTestWith asks px py c = some ρ := by
  induction cs generalizing i with
  | nil => exact nomatch h
  | cons c cs ih =>
    rw [hitOf] at h
    cases hrest : hitOf asks px py (i + 1) cs with
    | some found =>
      rw [hrest] at h
      obtain ⟨k, d, ρ, hπ, hd, hasks, hρ⟩ := ih (hrest.trans h)
      refine ⟨k + 1, d, ρ, ?_, hd, ?_, hρ⟩
      · rw [hπ]
        congr 1
        omega
      · rwa [show i + (k + 1) = i + 1 + k by omega]
    | none =>
      rw [hrest] at h
      dsimp only at h
      split at h
      · rename_i hasks
        obtain ⟨ρ, hρ, rfl⟩ := Option.map_eq_some_iff.mp h
        exact ⟨0, c, ρ, rfl, rfl, hasks, hρ⟩
      · exact nomatch h

/-- A hit below a container, or the container itself. -/
theorem hitTestWith_some {v : Item} {cs : List Tree} {π : List Nat}
    (h : hitTestWith asks px py (.node v cs) = some π) :
    v.base.isVisible = true ∧ v.base.containsCoordinate px py = true ∧
      (π = [] ∧ (v.part.isComposite = true →
          hitOf asks (px - v.base.x) (py - v.base.y) 0 cs = none) ∨
        v.part.isComposite = true ∧
          hitOf asks (px - v.base.x) (py - v.base.y) 0 cs = some π) := by
  rw [hitTestWith] at h
  split at h
  · exact nomatch h
  rename_i hunder
  rw [Bool.or_eq_true, not_or, Bool.not_eq_true', Bool.not_eq_true', Bool.not_eq_false,
    Bool.not_eq_false] at hunder
  refine ⟨hunder.1, hunder.2, ?_⟩
  split at h
  · rename_i hcomposite
    cases hchild : hitOf asks (px - v.base.x) (py - v.base.y) 0 cs with
    | none =>
      rw [hchild] at h
      exact .inl ⟨(Option.some.inj h).symm, fun _ => rfl⟩
    | some found =>
      rw [hchild] at h
      exact .inr ⟨hcomposite, h⟩
  · rename_i hleaf
    exact .inl ⟨(Option.some.inj h).symm, fun hcomposite => absurd hcomposite hleaf⟩

theorem modelToScreen_add (π : List Nat) (t : Tree) (x y : Int) : modelToScreen π t (x, y) =
    (x + (modelToScreen π t (0, 0)).1, y + (modelToScreen π t (0, 0)).2) := by
  induction π generalizing t x y with
  | nil => simp [modelToScreen]
  | cons i π ih =>
    unfold modelToScreen
    dsimp only
    cases t.children[i]? with
    | none => simp
    | some c =>
      dsimp only
      rw [ih c (x + _), ih c (0 + _)]
      ext <;> dsimp only <;> omega

theorem parentOrigin_cons {v : Item} {cs : List Tree} {k : Nat} {c : Tree} (hc : cs[k]? = some c)
    (ρ : List Nat) : parentOrigin (k :: ρ) (.node v cs) =
      (v.base.x + (parentOrigin ρ c).1, v.base.y + (parentOrigin ρ c).2) := by
  unfold parentOrigin
  rw [if_neg (List.cons_ne_nil k ρ)]
  cases ρ with
  | nil => simp [modelToScreen]
  | cons j ρ =>
    rw [if_neg (List.cons_ne_nil j ρ), List.dropLast_cons_of_ne_nil (List.cons_ne_nil j ρ),
      modelToScreen]
    dsimp only [Rose.label_node, Rose.children_node]
    rw [hc]
    dsimp only
    rw [modelToScreen_add, Int.zero_add, Int.zero_add]

/-- The point is in the widget that is hit, in the frame of its parent. -/
theorem hitTest_contains (π : List Nat) : ∀ (px py : Int) (t : Tree),
    hitTestWith asks px py t = some π → ∃ s, at? π t = some s ∧
      contains s (px - (parentOrigin π t).1) (py - (parentOrigin π t).2) = true := by
  induction π with
  | nil =>
    rintro px py ⟨v, cs⟩ h
    refine ⟨.node v cs, rfl, ?_⟩
    rw [parentOrigin, if_pos rfl, Int.sub_zero, Int.sub_zero]
    exact (hitTestWith_some h).2.1
  | cons i ρ ih =>
    rintro px py ⟨v, cs⟩ h
    obtain ⟨-, -, ⟨hnil, -⟩ | ⟨-, hchild⟩⟩ := hitTestWith_some h
    · exact nomatch hnil
    · obtain ⟨k, c, ρ', hπ, hc, -, hρ⟩ := hitOf_some hchild
      obtain ⟨rfl, rfl⟩ := List.cons.inj hπ
      rw [Nat.zero_add]
      obtain ⟨s, hs, hin⟩ := ih _ _ c hρ
      refine ⟨s, ?_, ?_⟩
      · rw [at?, Rose.children_node, hc]
        exact hs
      · rw [parentOrigin_cons hc, ← Int.sub_sub, ← Int.sub_sub]
        exact hin

/-! ## The press -/

theorem hitTest_eq_none (t : Tree) : hitTest px py t = none ↔ under t px py = false :=
  hitTestWith_eq_none _ t

/-- The press goes to the child that the hit test goes through. -/
theorem downOf_eq (cs : List Tree) (i : Nat) : downOf px py i cs =
    match hitOf (fun i => decide (i < reverseRoom)) px py i cs with
    | some (k :: _) => (cs[k - i]?).map fun c => k :: downPath px py c
    | _ => none := by
  induction cs generalizing i with
  | nil => rfl
  | cons c cs ih =>
    rw [downOf, ih, hitOf]
    cases hrest : hitOf (fun i => decide (i < reverseRoom)) px py (i + 1) cs with
    | some found =>
      obtain ⟨k, d, ρ, rfl, hd, -⟩ := hitOf_some hrest
      dsimp only
      rw [show i + 1 + k - (i + 1) = k by omega, show i + 1 + k - i = k + 1 by omega,
        List.getElem?_cons_succ, hd]
      rfl
    | none =>
      dsimp only
      cases hc : hitTest px py c with
      | none =>
        have hunder := (hitTest_eq_none c).mp hc
        rw [if_neg fun h => absurd (hunder.symm.trans h.2) Bool.false_ne_true]
        rw [hitTest] at hc
        rw [hc, Option.map_none, ite_self]
      | some ρ =>
        have hunder : under c px py = true := by
          by_contra hnot
          rw [(hitTest_eq_none c).mpr (Bool.eq_false_iff.mpr hnot)] at hc
          exact nomatch hc
        rw [hitTest] at hc
        rw [hc, Option.map_some]
        by_cases hi : i < reverseRoom
        · rw [if_pos ⟨hi, hunder⟩, if_pos (decide_eq_true hi)]
          dsimp only
          rw [Nat.sub_self]
          rfl
        · rw [if_neg fun h => hi h.1, if_neg fun h => hi (of_decide_eq_true h)]

theorem mem_labelsOf {c : Tree} {cs : List Tree} (hc : c ∈ cs) {v : Item} (hv : v ∈ c.labels) :
    v ∈ Rose.labelsOf cs := by
  induction cs with
  | nil => exact nomatch hc
  | cons d cs ih =>
    rw [Rose.labelsOf, List.mem_append]
    rcases List.mem_cons.mp hc with rfl | hc
    · exact .inl hv
    · exact .inr (ih hc)

/-- A press goes where the hit test goes, as far as the containers are enabled. -/
theorem hitTest_downPath (π : List Nat) : ∀ (px py : Int) (t : Tree), hitTest px py t = some π →
    downPath px py t <+: π ∧ ((∀ v ∈ t.labels, v.base.enabled = true) → downPath px py t = π) := by
  induction π with
  | nil =>
    rintro px py ⟨v, cs⟩ h
    have hdown : downPath px py (.node v cs) = [] := by
      obtain ⟨-, -, ⟨-, hnone⟩ | ⟨-, hsome⟩⟩ := hitTestWith_some h
      · rw [downPath]
        split
        · rename_i hboth
          rw [Bool.and_eq_true] at hboth
          rw [downOf_eq, hnone hboth.1]
          rfl
        · rfl
      · obtain ⟨k, c, ρ, hπ, -⟩ := hitOf_some hsome
        exact nomatch hπ
    rw [hdown]
    exact ⟨List.nil_prefix, fun _ => rfl⟩
  | cons i ρ ih =>
    rintro px py ⟨v, cs⟩ h
    obtain ⟨hvisible, -, ⟨hnil, -⟩ | ⟨hcomposite, hchild⟩⟩ := hitTestWith_some h
    · exact nomatch hnil
    · obtain ⟨k, c, ρ', hπ, hc, -, hρ⟩ := hitOf_some hchild
      obtain ⟨rfl, rfl⟩ := List.cons.inj hπ
      obtain ⟨hpre, hall⟩ := ih _ _ c hρ
      have hdown : downPath px py (.node v cs) = if v.base.off then [] else
          (0 + k) :: downPath (px - v.base.x) (py - v.base.y) c := by
        rw [downPath, hcomposite, downOf_eq, hchild]
        dsimp only
        rw [Nat.zero_add, Nat.sub_zero, hc]
        cases v.base.off <;> rfl
      rw [hdown]
      constructor
      · split
        · exact List.nil_prefix
        · exact (List.prefix_cons_inj _).mpr hpre
      · intro henabled
        rw [Rose.labels, List.forall_mem_cons] at henabled
        have hon : v.base.off = false := by
          rw [Base.off, henabled.1, hvisible]
          rfl
        rw [hon, hall fun u hu => henabled.2 u (mem_labelsOf (List.mem_of_getElem? hc) hu)]
        rfl

/-! ## All children -/

/-- Nothing is found where no child is under the point. -/
theorem hitOf_none {cs : List Tree} (h : (cs.any fun c => under c px py) = false) (i : Nat) :
    hitOf asks px py i cs = none := by
  cases hfound : hitOf asks px py i cs with
  | none => rfl
  | some found =>
    obtain ⟨k, c, ρ, -, hc, -, hρ⟩ := hitOf_some hfound
    have hunder := List.any_eq_false.mp h c (List.mem_of_getElem? hc)
    rw [(hitTestWith_eq_none asks c).mpr (Bool.eq_false_iff.mpr hunder)] at hρ
    exact nomatch hρ

/-- A hit test that asks all children finds something where one is under the point. -/
theorem hitOf_all {cs : List Tree} (h : (cs.any fun c => under c px py) = true) (i : Nat) :
    hitOf (fun _ => true) px py i cs ≠ none := by
  induction cs generalizing i with
  | nil => exact absurd h Bool.false_ne_true
  | cons c cs ih =>
    rw [List.any_cons, Bool.or_eq_true] at h
    rw [hitOf]
    cases hrest : hitOf (fun _ => true) px py (i + 1) cs with
    | some found => exact Option.some_ne_none found
    | none =>
      have hc := h.resolve_right fun hany => ih hany (i + 1) hrest
      dsimp only
      rw [if_pos rfl, Ne, Option.map_eq_none_iff, hitTestWith_eq_none, hc]
      exact Bool.noConfusion

theorem hitOf_iff (px py : Int) (cs : List Tree)
    (ih : ∀ c ∈ cs, ∀ px py, hitTest px py c = hitTestWith (fun _ => true) px py c ↔
      withinReach px py c = true) (i : Nat) :
    hitOf (fun i => decide (i < reverseRoom)) px py i cs = hitOf (fun _ => true) px py i cs ↔
      reachOf px py i cs = true := by
  induction cs generalizing i with
  | nil => exact iff_of_true rfl rfl
  | cons c cs ihcs =>
    obtain ⟨hc, hcs⟩ := List.forall_mem_cons.mp ih
    rw [reachOf]
    cases hany : cs.any fun c => under c px py with
    | true =>
      rw [if_pos rfl, ← ihcs hcs]
      obtain ⟨found, hall⟩ := Option.ne_none_iff_exists'.mp (hitOf_all hany (i + 1))
      rw [hitOf, hitOf, hall]
      cases hrest : hitOf (fun i => decide (i < reverseRoom)) px py (i + 1) cs with
      | some found' => exact Iff.rfl
      | none =>
        -- a child in front is found instead, and its position is not that of any child behind
        refine iff_of_false (fun h => ?_) nofun
        obtain ⟨k, d, ρ, rfl, -⟩ := hitOf_some hall
        dsimp only at h
        split at h
        · obtain ⟨ρ', -, heq⟩ := Option.map_eq_some_iff.mp h
          have hhead := (List.cons.inj heq).1
          omega
        · exact nomatch h
    | false =>
      rw [if_neg Bool.false_ne_true, hitOf, hitOf, hitOf_none hany, hitOf_none hany]
      dsimp only
      rw [if_pos rfl]
      cases hunder : under c px py with
      | false =>
        rw [(hitTestWith_eq_none _ c).mpr hunder, (hitTestWith_eq_none _ c).mpr hunder,
          Option.map_none, ite_self]
        exact iff_of_true rfl rfl
      | true =>
        rw [Bool.not_true, Bool.false_or, Bool.and_eq_true, ← hc px py]
        have hne : hitTestWith (fun _ => true) px py c ≠ none := by
          rw [Ne, hitTestWith_eq_none, hunder]
          exact Bool.noConfusion
        obtain ⟨ρ, hρ⟩ := Option.ne_none_iff_exists'.mp hne
        rw [hρ, hitTest]
        by_cases hi : i < reverseRoom
        · rw [if_pos (decide_eq_true hi), Option.map_some, Option.map_eq_some_iff]
          simp only [List.cons.injEq, true_and, exists_eq_right, hi, decide_true]
        · rw [if_neg fun h => hi (of_decide_eq_true h)]
          exact iff_of_false nofun fun h => hi (of_decide_eq_true h.1)

theorem hitOf_getD_inj {asks' : Nat → Bool} (cs : List Tree) (i : Nat) :
    (hitOf asks px py i cs).getD [] = (hitOf asks' px py i cs).getD [] ↔
      hitOf asks px py i cs = hitOf asks' px py i cs := by
  refine ⟨fun h => ?_, congrArg (Option.getD · [])⟩
  cases hfound : hitOf asks px py i cs with
  | none =>
    cases hfound' : hitOf asks' px py i cs with
    | none => rfl
    | some π =>
      obtain ⟨k, c, ρ, rfl, -⟩ := hitOf_some hfound'
      rw [hfound, hfound'] at h
      exact nomatch h
  | some π =>
    obtain ⟨k, c, ρ, rfl, -⟩ := hitOf_some hfound
    cases hfound' : hitOf asks' px py i cs with
    | none =>
      rw [hfound, hfound'] at h
      exact nomatch h
    | some π' =>
      rw [hfound, hfound'] at h
      exact congrArg some h

/-- The hit test gives what one that asks all children gives where those on the way are within
reach. -/
theorem hitTest_iff (t : Tree) : ∀ px py, hitTest px py t = hitTestWith (fun _ => true) px py t ↔
    withinReach px py t = true := by
  induction t using Rose.ind with
  | h v cs ih =>
    intro px py
    have hchildren := hitOf_iff (px - v.base.x) (py - v.base.y) cs ih 0
    rw [← hitOf_getD_inj] at hchildren
    rw [hitTest, hitTestWith, hitTestWith, withinReach]
    cases v.base.isVisible <;> cases v.base.containsCoordinate px py <;>
      cases v.part.isComposite <;> simp [hchildren]

/-- A container of 129 widgets that lie over each other. -/
def crowd : Tree :=
  .node ⟨⟨0, 0, 0, 0, 200, 200, true, true, false, false⟩, .composite⟩
    ((List.range 129).map fun i =>
      .node ⟨⟨0, i + 1, 0, 0, 10, 10, true, true, false, false⟩, .plain⟩ [])

end Pointer
end Hashx86
