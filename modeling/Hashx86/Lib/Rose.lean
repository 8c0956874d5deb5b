import Mathlib.Data.List.Basic
import Mathlib.Data.List.Nodup

/-!
# Finitely branching trees with keyed children

`Rose α` is a tree with a label at each node and a list of children. `Keyed α` gives labels a key;
a path is a list of keys, one for each step down. Children of one node have distinct keys where a
result needs it (`Distinct`).

* `labels t`, `map f t`: the labels in preorder, and a function on each.
* `Rose.ind`: induction with a hypothesis for each child.
* `get? π t`: the subtree at a path.
* `along π g f t`: `f` at the end of the path, `g` on the labels above it.
-/

namespace Lib

inductive Rose (α : Type) where
  | node (label : α) (children : List (Rose α))

class Keyed (α : Type) where
  key : α → Nat

namespace Rose

variable {α : Type}

def label : Rose α → α
  | node a _ => a

def children : Rose α → List (Rose α)
  | node _ cs => cs

@[simp] theorem label_node (a : α) (cs : List (Rose α)) : (node a cs).label = a := rfl

@[simp] theorem children_node (a : α) (cs : List (Rose α)) : (node a cs).children = cs := rfl

theorem eta (t : Rose α) : node t.label t.children = t := by
  cases t
  rfl

def relabel (u : α → α) : Rose α → Rose α
  | node a cs => node (u a) cs

mutual
/-- The labels, a node's before those of its children. -/
def labels : Rose α → List α
  | node a cs => a :: labelsOf cs

def labelsOf : List (Rose α) → List α
  | [] => []
  | c :: cs => labels c ++ labelsOf cs
end

mutual
/-- `f` on each label. -/
def map {β : Type} (f : α → β) : Rose α → Rose β
  | node a cs => node (f a) (mapOf f cs)

def mapOf {β : Type} (f : α → β) : List (Rose α) → List (Rose β)
  | [] => []
  | c :: cs => map f c :: mapOf f cs
end

/-- Induction on a tree, with the hypothesis for each child. -/
@[elab_as_elim]
theorem ind {P : Rose α → Prop} (h : ∀ a cs, (∀ c ∈ cs, P c) → P (node a cs)) (t : Rose α) : P t :=
  @Rose.rec α P (fun cs => ∀ c ∈ cs, P c) (fun a cs ih => h a cs ih)
    (fun _ hc => absurd hc List.not_mem_nil)
    (fun _ _ hc hcs => List.forall_mem_cons.mpr ⟨hc, hcs⟩) t

variable [Keyed α]

def key (t : Rose α) : Nat := Keyed.key t.label

/-- The children with `f` applied to those of the key. -/
def mapKey (i : Nat) (f : Rose α → Rose α) (cs : List (Rose α)) : List (Rose α) :=
  cs.map fun c => if c.key = i then f c else c

/-- The subtree at a path. -/
def get? : List Nat → Rose α → Option (Rose α)
  | [], t => some t
  | i :: π, t => (t.children.find? (·.key = i)).bind (get? π)

/-- `f` at the end of the path, `g` on the labels above it. -/
def along (g : α → α) (f : Rose α → Rose α) : List Nat → Rose α → Rose α
  | [], t => f t
  | i :: π, t => node (g t.label) (mapKey i (along g f π) t.children)

def Distinct (cs : List (Rose α)) : Prop := (cs.map key).Nodup

theorem Distinct.eq {cs : List (Rose α)} (h : Distinct cs) {c d : Rose α} (hc : c ∈ cs)
    (hd : d ∈ cs) (hk : c.key = d.key) : c = d := List.inj_on_of_nodup_map h hc hd hk

theorem Distinct.find? {cs : List (Rose α)} (h : Distinct cs) {c : Rose α} (hc : c ∈ cs) :
    cs.find? (·.key = c.key) = some c := by
  cases hf : cs.find? (·.key = c.key) with
  | none => exact absurd (decide_eq_true rfl) (List.find?_eq_none.mp hf c hc)
  | some d =>
    have hk := List.find?_some (p := fun x : Rose α => decide (x.key = c.key)) hf
    rw [h.eq (List.mem_of_find?_eq_some hf) hc (of_decide_eq_true hk)]

theorem map_key_mapKey {f : Rose α → Rose α} (hf : ∀ t, (f t).key = t.key) (i : Nat)
    (cs : List (Rose α)) : (mapKey i f cs).map key = cs.map key := by
  rw [mapKey, List.map_map]
  refine List.map_congr_left fun c _ => ?_
  dsimp only [Function.comp]
  split
  · exact hf c
  · rfl

theorem mem_mapKey {i : Nat} {f : Rose α → Rose α} {cs : List (Rose α)} {d : Rose α} :
    d ∈ mapKey i f cs ↔ ∃ c ∈ cs, d = if c.key = i then f c else c := by
  rw [mapKey, List.mem_map]
  exact exists_congr fun c => and_congr_right fun _ => eq_comm

theorem mapKey_mapKey {f g : Rose α → Rose α} (hg : ∀ t, (g t).key = t.key) (i : Nat)
    (cs : List (Rose α)) : mapKey i f (mapKey i g cs) = mapKey i (fun c => f (g c)) cs := by
  rw [mapKey, mapKey, mapKey, List.map_map]
  refine List.map_congr_left fun c _ => ?_
  by_cases hc : c.key = i
  · simp [hc, hg]
  · simp [hc]

theorem find?_mapKey {f : Rose α → Rose α} (hf : ∀ t, (f t).key = t.key) (i : Nat)
    (cs : List (Rose α)) :
    (mapKey i f cs).find? (·.key = i) = (cs.find? (·.key = i)).map f := by
  induction cs with
  | nil => rfl
  | cons c cs ih =>
    rw [mapKey, List.map_cons, ← mapKey]
    by_cases hc : c.key = i
    · simp [hc, hf]
    · simp [hc, ih]

theorem get?_cons {i : Nat} {π : List Nat} {t s : Rose α} (h : t.get? (i :: π) = some s) :
    ∃ c ∈ t.children, c.key = i ∧ c.get? π = some s := by
  obtain ⟨c, hc, hs⟩ := Option.bind_eq_some_iff.mp h
  have hk := List.find?_some (p := fun c : Rose α => decide (c.key = i)) hc
  exact ⟨c, List.mem_of_find?_eq_some hc, of_decide_eq_true hk, hs⟩

theorem get?_append {π ρ : List Nat} {t s : Rose α} :
    t.get? (π ++ ρ) = some s ↔ ∃ u, t.get? π = some u ∧ u.get? ρ = some s := by
  induction π generalizing t with
  | nil => simp [get?]
  | cons i π ih =>
    rw [List.cons_append, get?, get?]
    cases t.children.find? (·.key = i) with
    | none => simp
    | some c => exact ih

theorem get?_of_child {i : Nat} {π : List Nat} {t c : Rose α} (h : Distinct t.children)
    (hc : c ∈ t.children) (hk : c.key = i) : t.get? (i :: π) = c.get? π := by
  rw [get?, ← hk, h.find? hc, Option.bind_some]

theorem key_relabel {u : α → α} (hu : ∀ a, Keyed.key (u a) = Keyed.key a) (t : Rose α) :
    (relabel u t).key = t.key := by
  cases t with
  | node a cs => exact hu a

theorem key_along {g : α → α} {f : Rose α → Rose α} (hg : ∀ a, Keyed.key (g a) = Keyed.key a)
    (hf : ∀ t, (f t).key = t.key) (π : List Nat) (t : Rose α) : (along g f π t).key = t.key := by
  cases π with
  | nil => exact hf t
  | cons i π => exact hg t.label

/-- The place where a tree was changed. -/
theorem get?_along {g : α → α} {f : Rose α → Rose α} (hg : ∀ a, Keyed.key (g a) = Keyed.key a)
    (hf : ∀ t, (f t).key = t.key) (π : List Nat) (t : Rose α) :
    (along g f π t).get? π = (t.get? π).map f := by
  induction π generalizing t with
  | nil => rfl
  | cons i π ih =>
    rw [along, get?, children_node, find?_mapKey (key_along hg hf _), get?]
    cases t.children.find? (·.key = i) with
    | none => rfl
    | some c =>
      rw [Option.map_some, Option.bind_some, Option.bind_some]
      exact ih c

/-- The parent of the place where a tree was changed. -/
theorem get?_along_append {g : α → α} {f : Rose α → Rose α}
    (hg : ∀ a, Keyed.key (g a) = Keyed.key a) (hf : ∀ t, (f t).key = t.key) (π : List Nat)
    (k : Nat) (t : Rose α) : (along g f (π ++ [k]) t).get? π =
      (t.get? π).map fun s => node (g s.label) (mapKey k f s.children) := by
  induction π generalizing t with
  | nil => rfl
  | cons i π ih =>
    rw [List.cons_append, along, get?, children_node, find?_mapKey (key_along hg hf _), get?]
    cases t.children.find? (·.key = i) with
    | none => rfl
    | some c =>
      rw [Option.map_some, Option.bind_some, Option.bind_some]
      exact ih c

end Rose
end Lib
