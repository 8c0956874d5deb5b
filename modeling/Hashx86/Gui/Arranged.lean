import Hashx86.Gui.LayoutSpots

/-!
# Widgets in line and in a grid

* `InLine`, `InGrid`: the managed widgets in order, the spacing apart, and so disjoint
  (`Ordered.disjoint`).
* `Inside`: a widget inside the padded parent; `inside_iff`: along a box and across.
-/

namespace Hashx86
namespace Sizing
namespace Layout

open Lib

variable {l : Layout} {ws : Table} {vertical : Bool}

/-- The `k`-th managed widget. -/
def child (l : Layout) (ws : Table) (k : Nat) : Option Widget :=
  l.managed[k]?.bind fun m => ws[m.1]?

/-- The pixels of a widget, in its parent. -/
def Covers (v : Widget) (X Y : Int) : Prop :=
  (v.x.toInt ≤ X ∧ X < v.x.toInt + v.w.toInt) ∧ v.y.toInt ≤ Y ∧ Y < v.y.toInt + v.h.toInt

instance (v : Widget) (X Y : Int) : Decidable (Covers v X Y) :=
  inferInstanceAs (Decidable ((_ ∧ _) ∧ _ ∧ _))

/-- Where a widget begins along a box, and its extent there. -/
def along (vertical : Bool) (v : Widget) : Int × Int :=
  if vertical then (v.y.toInt, v.h.toInt) else (v.x.toInt, v.w.toInt)

/-- The widgets of a box are one after another, each the spacing after the one before. -/
structure InLine (vertical : Bool) (l : Layout) (ws : Table) : Prop where
  next : ∀ k v u, l.child ws k = some v → l.child ws (k + 1) = some u →
    (along vertical u).1 = (along vertical v).1 + (along vertical v).2 + l.spacing.toInt
  order : ∀ i j v u, i < j → l.child ws i = some v → l.child ws j = some u →
    (along vertical v).1 + (along vertical v).2 + l.spacing.toInt ≤ (along vertical u).1

/-- The widgets of a grid of `c` columns are in rows, from left to right, each the spacing after the
one to its left and the one above. -/
structure InGrid (c : Nat) (l : Layout) (ws : Table) : Prop where
  right : ∀ k v u, (k + 1) % c ≠ 0 → l.child ws k = some v → l.child ws (k + 1) = some u →
    u.y = v.y ∧ u.x.toInt = v.x.toInt + v.w.toInt + l.spacing.toInt
  below : ∀ k v u, l.child ws k = some v → l.child ws (k + c) = some u →
    u.x = v.x ∧ u.y.toInt = v.y.toInt + v.h.toInt + l.spacing.toInt
  order : ∀ i j v u, i < j → l.child ws i = some v → l.child ws j = some u →
    u.y = v.y ∧ v.x.toInt + v.w.toInt + l.spacing.toInt ≤ u.x.toInt ∨
      v.y.toInt + v.h.toInt + l.spacing.toInt ≤ u.y.toInt

def Ordered (l : Layout) (ws : Table) : Prop :=
  match l.kind with
  | .vBox => l.InLine true ws
  | .hBox => l.InLine false ws
  | .grid columns => l.InGrid (gridColumns columns).toInt.toNat ws

/-- A widget inside the parent without its padding. -/
def Inside (l : Layout) (ws : Table) (v : Widget) : Prop :=
  (l.padding ≤ v.x ∧ v.x.toInt + v.w.toInt ≤ (ws.sizeAt l.parent).1.toInt - l.padding.toInt) ∧
    l.padding ≤ v.y ∧ v.y.toInt + v.h.toInt ≤ (ws.sizeAt l.parent).2.toInt - l.padding.toInt

theorem inside_iff (vertical : Bool) {v : Widget} : l.Inside ws v ↔
    (l.padding.toInt ≤ (along vertical v).1 ∧ (along vertical v).1 + (along vertical v).2 ≤
      (main vertical (ws.sizeAt l.parent)).toInt - l.padding.toInt) ∧
    l.padding.toInt ≤ (along (!vertical) v).1 ∧ (along (!vertical) v).1 + (along (!vertical) v).2 ≤
      (cross vertical (ws.sizeAt l.parent)).toInt - l.padding.toInt := by
  rw [Inside, Int32.le_iff_toInt_le, Int32.le_iff_toInt_le]
  cases vertical with
  | false => exact Iff.rfl
  | true => exact and_comm

theorem child_eq {k : Nat} (hk : k < l.managed.length) : l.child ws k = ws[l.managed[k].1]? := by
  rw [child, List.getElem?_eq_getElem hk, Option.bind_some]

theorem lt_of_child {k : Nat} {v : Widget} (hv : l.child ws k = some v) : k < l.managed.length := by
  obtain ⟨m, hm, -⟩ := Option.bind_eq_some_iff.mp hv
  exact (List.getElem?_eq_some_iff.mp hm).1

theorem InLine.disjoint (h : l.InLine vertical ws) (hs : 0 ≤ l.spacing) {i j : Nat} {v u : Widget}
    (hij : i < j) (hv : l.child ws i = some v) (hu : l.child ws j = some u) (X Y : Int) :
    ¬ (Covers v X Y ∧ Covers u X Y) := by
  have horder := h.order i j v u hij hv hu
  have hgap := toInt_nonneg.mp hs
  rintro ⟨⟨hx, hy⟩, hx', hy'⟩
  unfold along at horder
  cases vertical <;> dsimp at horder <;> omega

theorem InGrid.disjoint {c : Nat} (h : l.InGrid c ws) (hs : 0 ≤ l.spacing) {i j : Nat}
    {v u : Widget} (hij : i < j) (hv : l.child ws i = some v) (hu : l.child ws j = some u)
    (X Y : Int) : ¬ (Covers v X Y ∧ Covers u X Y) := by
  have hgap := toInt_nonneg.mp hs
  rintro ⟨⟨hx, hy⟩, hx', hy'⟩
  obtain ⟨-, hright⟩ | hbelow := h.order i j v u hij hv hu
  · omega
  · omega

theorem Ordered.disjoint (h : l.Ordered ws) (hs : 0 ≤ l.spacing) {i j : Nat} {v u : Widget}
    (hij : i ≠ j) (hv : l.child ws i = some v) (hu : l.child ws j = some u) (X Y : Int) :
    ¬ (Covers v X Y ∧ Covers u X Y) := by
  have hlater : ∀ i j v u, i < j → l.child ws i = some v → l.child ws j = some u →
      ¬ (Covers v X Y ∧ Covers u X Y) := by
    intro i j v u hij hv hu
    unfold Ordered at h
    cases hkind : l.kind with
    | vBox =>
      rw [hkind] at h
      exact InLine.disjoint h hs hij hv hu X Y
    | hBox =>
      rw [hkind] at h
      exact InLine.disjoint h hs hij hv hu X Y
    | grid columns =>
      rw [hkind] at h
      exact InGrid.disjoint h hs hij hv hu X Y
  obtain hlt | hgt := Nat.lt_or_gt_of_ne hij
  · exact hlater i j v u hlt hv hu
  · exact fun hboth => hlater j i u v hgt hu hv hboth.symm

end Layout
end Sizing
end Hashx86
