import Hashx86.Gui.Destroy

/-!
# Taking widgets off the tree

* `Removed g g' D`: the widgets of `D` are freed, once each, and gone from the registry and from
  every child list; the others are as before, and none but the desktop has left the registry.
* `detachAndDestroy_spec`: a widget taken from its parent and deleted goes with its descendants.
* `Removed.foldl`: the same for a list of widgets, none below another.
* `unregisterTree_spec`: the walk of `DELETE` takes no widget but descendants and the desktop out of
  the registry.
-/

namespace Hashx86
namespace Gui

structure Removed (g g' : GuiState) (D : Ptr → Prop) : Prop where
  next : g'.next = g.next
  unallocated : ∀ {x}, g.heap x = none → g'.heap x = none
  alloc : ∀ {x}, D x → (g.heap x).isSome
  gone : ∀ {x}, D x → g'.heap x = none
  keep : ∀ {x w}, ¬ D x → g.heap x = some w → ∃ l, g'.heap x = some { w with childrenList := l } ∧
    l.Sublist w.childrenList ∧ ∀ c, c ∈ l ↔ c ∈ w.childrenList ∧ ¬ D c
  freed : ∃ l, g'.freed = l ++ g.freed ∧ l.Nodup ∧ ∀ x, x ∈ l ↔ D x
  sublist : g'.hguiWidgets.Sublist g.hguiWidgets
  unregistered : ∀ {x}, D x → x ∉ g'.hguiWidgets
  registered : ∀ {x}, x ∈ g.hguiWidgets → ¬ D x → x ∈ g'.hguiWidgets ∨ x = theDesktop

namespace Removed

variable {g g' g'' : GuiState} {D E : Ptr → Prop}

/-- An allocated widget was one before, with a longer child list. -/
theorem of_some (h : Removed g g' D) {x : Ptr} {w : Widget} (hx : g'.heap x = some w) :
    ¬ D x ∧ ∃ v, g.heap x = some v ∧ w = { v with childrenList := w.childrenList } ∧
      w.childrenList.Sublist v.childrenList ∧
      ∀ c, c ∈ w.childrenList ↔ c ∈ v.childrenList ∧ ¬ D c := by
  have hd : ¬ D x := fun hd => by simp [h.gone hd] at hx
  cases hg : g.heap x with
  | none => simp [h.unallocated hg] at hx
  | some v =>
    obtain ⟨l, hl, hs, hm⟩ := h.keep hd hg
    rw [hx, Option.some.injEq] at hl
    subst hl
    exact ⟨hd, v, rfl, rfl, hs, hm⟩

theorem lists_iff (h : Removed g g' D) {q c : Ptr} :
    Lists g' q c ↔ Lists g q c ∧ ¬ D q ∧ ¬ D c := by
  constructor
  · rintro ⟨w, hw, hc⟩
    obtain ⟨hd, v, hv, -, -, hm⟩ := h.of_some hw
    exact ⟨⟨v, hv, ((hm c).mp hc).1⟩, hd, ((hm c).mp hc).2⟩
  · rintro ⟨⟨w, hw, hc⟩, hq, hdc⟩
    obtain ⟨l, hl, -, hm⟩ := h.keep hq hw
    exact ⟨_, hl, (hm c).mpr ⟨hc, hdc⟩⟩

theorem congr (h : Removed g g' D) (he : ∀ x, E x ↔ D x) : Removed g g' E := by
  obtain rfl : E = D := funext fun x => propext (he x)
  exact h

theorem forest (h : Removed g g' D) (hf : Forest g) : Forest g' where
  child := by
    intro p c hl
    obtain ⟨hl, -, hdc⟩ := h.lists_iff.mp hl
    obtain ⟨hlt, v, hv, hvp⟩ := hf.child hl
    obtain ⟨l, hl', -⟩ := h.keep hdc hv
    exact ⟨hlt, _, hl', hvp⟩
  nodup := by
    intro p w hw
    obtain ⟨-, v, hv, -, hs, -⟩ := h.of_some hw
    exact (hf.nodup hv).sublist hs
  bound := by
    intro p w hw
    obtain ⟨-, v, hv, -⟩ := h.of_some hw
    rw [h.next]
    exact hf.bound hv
  registry := hf.registry.sublist h.sublist

/-- Nothing of `D` is below a widget: the same widgets are below it. -/
theorem below_iff (h : Removed g g' D) {r : Ptr} (hr : ∀ y, Below g r y → ¬ D y) (x : Ptr) :
    Below g' r x ↔ Below g r x :=
  below_congr (fun y hy c => h.lists_iff.trans
    ⟨And.left, fun hl => ⟨hl, hr y hy, hr c (.tail hy hl)⟩⟩) x

theorem trans (h : Removed g g' D) (h' : Removed g' g'' E) (hd : ∀ x, D x → ¬ E x) :
    Removed g g'' fun x => D x ∨ E x where
  next := h'.next.trans h.next
  unallocated := fun hx => h'.unallocated (h.unallocated hx)
  alloc := by
    rintro x (hx | hx)
    · exact h.alloc hx
    · obtain ⟨w, hw⟩ := Option.isSome_iff_exists.mp (h'.alloc hx)
      obtain ⟨-, v, hv, -⟩ := h.of_some hw
      rw [hv]
      rfl
  gone := fun hx => hx.elim (fun hx => h'.unallocated (h.gone hx)) h'.gone
  keep := by
    intro x w hx hw
    rw [not_or] at hx
    obtain ⟨l, hl, hs, hm⟩ := h.keep hx.1 hw
    obtain ⟨l', hl', hs', hm'⟩ := h'.keep hx.2 hl
    exact ⟨l', hl', hs'.trans hs, fun c => by rw [hm', hm, and_assoc, not_or]⟩
  freed := by
    obtain ⟨l, hl, hn, hm⟩ := h.freed
    obtain ⟨l', hl', hn', hm'⟩ := h'.freed
    refine ⟨l' ++ l, by rw [hl', hl, List.append_assoc], ?_, fun x => ?_⟩
    · exact List.nodup_append.mpr ⟨hn', hn, fun a ha b hb hab =>
        hd a ((hm a).mp (hab ▸ hb)) ((hm' a).mp ha)⟩
    · rw [List.mem_append, hm, hm', or_comm]
  sublist := h'.sublist.trans h.sublist
  unregistered := fun hx hm =>
    hx.elim (fun hx => h.unregistered hx (h'.sublist.subset hm)) fun hx => h'.unregistered hx hm
  registered := by
    intro x hm hx
    rw [not_or] at hx
    exact (h.registered hm hx.1).elim (fun hm => h'.registered hm hx.2) .inr

theorem refl (g : GuiState) : Removed g g fun _ => False where
  next := rfl
  unallocated := id
  alloc := False.elim
  gone := False.elim
  keep := fun {x w} _ hw => ⟨w.childrenList, hw, .refl _, by simp⟩
  freed := ⟨[], rfl, List.nodup_nil, by simp⟩
  sublist := .refl _
  unregistered := False.elim
  registered := fun hm _ => .inl hm

/-- A loop that takes widgets off one after the other, none of them below another. `Q` is what the
loop needs to know of their parent pointers. -/
theorem foldl {f : GuiState → Ptr → GuiState} {Q : Option Ptr → Prop}
    (hstep : ∀ {g r w}, Forest g → g.heap r = some w → Q w.parent →
      Removed g (f g r) (Below g r)) (rs : List Ptr) :
    ∀ {g}, Forest g → rs.Nodup → (∀ r ∈ rs, ∃ w, g.heap r = some w ∧ Q w.parent) →
      (∀ r ∈ rs, ∀ s ∈ rs, r ≠ s → ¬ Below g r s) →
      Removed g (rs.foldl f g) fun x => ∃ r ∈ rs, Below g r x := by
  induction rs with
  | nil => exact fun {g} _ _ _ _ => (refl g).congr (by simp)
  | cons r rs ih =>
    intro g hf hn hrs hapart
    obtain ⟨hr, hn⟩ := List.nodup_cons.mp hn
    obtain ⟨w, hw, hQ⟩ := hrs r List.mem_cons_self
    have h1 := hstep hf hw hQ
    -- what is below two of the widgets would put one below the other
    have hdis : ∀ s ∈ rs, ∀ y, Below g s y → ¬ Below g r y := by
      intro s hs y hy hry
      have hne : r ≠ s := fun e => hr (e ▸ hs)
      have hs' := List.mem_cons_of_mem r hs
      rcases hf.below_total hry hy with hb | hb
      · exact hapart r List.mem_cons_self s hs' hne hb
      · exact hapart s hs' r List.mem_cons_self hne.symm hb
    have hbelow : ∀ s ∈ rs, ∀ x, Below (f g r) s x ↔ Below g s x := fun s hs =>
      h1.below_iff (hdis s hs)
    have h2 := ih (h1.forest hf) hn
      (fun s hs => by
        obtain ⟨v, hv, hQ⟩ := hrs s (List.mem_cons_of_mem r hs)
        obtain ⟨l, hl, -⟩ := h1.keep (hdis s hs s .refl) hv
        exact ⟨_, hl, hQ⟩)
      (fun s hs t ht hne hb => hapart s (List.mem_cons_of_mem r hs) t (List.mem_cons_of_mem r ht)
        hne ((hbelow s hs t).mp hb))
    refine (h1.trans h2 fun x hx ⟨s, hs, hsx⟩ => hdis s hs x ((hbelow s hs x).mp hsx) hx).congr
      fun x => ?_
    rw [List.exists_mem_cons_iff]
    exact or_congr_right (exists_congr fun s => and_congr_right fun hs => (hbelow s hs x).symm)

end Removed

/-! ## Detachment -/

/-- `CompositeWidget::RemoveChild` of a child that is listed. -/
theorem removeChild_spec {g : GuiState} {q p : Ptr} (hf : Forest g) (hl : Lists g q p) :
    ∃ w v, g.heap q = some w ∧ g.heap p = some v ∧ v.parent = some q ∧
      removeChild g q p = { g with
        heap := Function.update (Function.update g.heap q
          (some { w with childrenList := w.childrenList.erase p })) p
          (some { v with parent := none }) } := by
  obtain ⟨hlt, v, hv, hvp⟩ := hf.child hl
  obtain ⟨w, hw, hm⟩ := hl
  refine ⟨w, v, hw, hv, hvp, ?_⟩
  have hne : p ≠ q := (Nat.ne_of_lt hlt).symm
  rw [removeChild, if_pos ((any_lists g q p).mpr ⟨w, hw, hm⟩)]
  unfold modify
  dsimp only
  rw [Function.update_of_ne hne, hw, hv, Option.map_some, Option.map_some, if_pos hvp]

/-- The first part of `detachAndDestroy`. -/
def detach (g : GuiState) (p : Ptr) : GuiState :=
  match (g.heap p).bind (·.parent) with
  | none => g
  | some q => removeChild g q p

theorem detachAndDestroy_eq (g : GuiState) (p : Ptr) :
    detachAndDestroy g p = destroy (detach g p).next (detach g p) p := rfl

theorem detach_sameRest (g : GuiState) (p : Ptr) : SameRest g (detach g p) := by
  unfold detach
  cases (g.heap p).bind (·.parent) with
  | none => exact .refl g
  | some q => exact removeChild_sameRest g q p

theorem detachAndDestroy_sameRest (g : GuiState) (p : Ptr) :
    SameRest g (detachAndDestroy g p) :=
  (detach_sameRest g p).trans (destroy_sameRest _ _ p)

/-- What `detach` does to the heap, in one statement for both cases. -/
theorem detach_spec {g : GuiState} {p : Ptr} {w : Widget} (hf : Forest g)
    (hw : g.heap p = some w) :
    (detach g p).freed = g.freed ∧ (detach g p).hguiWidgets = g.hguiWidgets ∧
      (∃ o, (o = none ∨ o = w.parent) ∧ (detach g p).heap p = some { w with parent := o }) ∧
      (∀ {x v}, x ≠ p → g.heap x = some v →
        (detach g p).heap x = some { v with childrenList := v.childrenList.erase p }) ∧
      (∀ {x}, g.heap x = none → (detach g p).heap x = none) := by
  have hunlisted : ∀ {x v}, ¬ Lists g x p → g.heap x = some v →
      { v with childrenList := v.childrenList.erase p } = v := by
    intro x v hl hv
    rw [List.erase_of_not_mem fun hm => hl ⟨v, hv, hm⟩]
  by_cases hl : ∃ q, Lists g q p
  · obtain ⟨q, hl⟩ := hl
    obtain ⟨u, v, hu, hv, hvp, he⟩ := removeChild_spec hf hl
    have hd : detach g p = removeChild g q p := by
      unfold detach
      rw [hv, Option.bind_some, hvp]
    rw [hw, Option.some.injEq] at hv
    subst hv
    have hpq : q ≠ p := Nat.ne_of_lt (hf.child hl).1
    rw [hd, he]
    refine ⟨rfl, rfl, ⟨none, .inl rfl, Function.update_self _ _ _⟩, fun {x v} hx hv => ?_,
      fun {x} hx => ?_⟩
    · dsimp only
      rw [Function.update_of_ne hx]
      by_cases hxq : x = q
      · subst hxq
        rw [hu, Option.some.injEq] at hv
        rw [Function.update_self, hv]
      · rw [Function.update_of_ne hxq, hv, hunlisted (fun h => hxq (hf.parent_unique h hl)) hv]
    · dsimp only
      rw [Function.update_of_ne (fun e => by simp [e, hw] at hx),
        Function.update_of_ne (fun e => by simp [e, hu] at hx), hx]
  · rw [not_exists] at hl
    have hd : detach g p = g := by
      unfold detach
      cases (g.heap p).bind (·.parent) with
      | none => rfl
      | some q => exact removeChild_of_not_lists (hl q)
    rw [hd]
    exact ⟨rfl, rfl, ⟨w.parent, .inr rfl, hw⟩,
      fun _ hv => hv.trans (congrArg some (hunlisted (hl _) hv).symm), id⟩

theorem detach_lists {g : GuiState} {p : Ptr} {w : Widget} (hf : Forest g)
    (hw : g.heap p = some w) (q c : Ptr) : Lists (detach g p) q c ↔ Lists g q c ∧ c ≠ p := by
  obtain ⟨-, -, ⟨o, -, ho⟩, hsome, hnone⟩ := detach_spec hf hw
  have hself : ¬ Lists g p p := fun hl => Nat.lt_irrefl p (hf.child hl).1
  by_cases hq : q = p
  · subst hq
    have he : Lists (detach g q) q c ↔ Lists g q c := lists_congr (by rw [ho, hw]; rfl) c
    rw [he]
    exact ⟨fun hl => ⟨hl, fun e => hself (e ▸ hl)⟩, And.left⟩
  · cases hg : g.heap q with
    | none =>
      refine ⟨fun ⟨v, hv, _⟩ => ?_, fun ⟨⟨v, hv, _⟩, _⟩ => ?_⟩
      · rw [hnone hg] at hv
        exact absurd hv (by simp)
      · rw [hg] at hv
        exact absurd hv (by simp)
    | some v =>
      have h1 : Lists (detach g p) q c ↔ c ∈ v.childrenList.erase p := by
        simp [Lists, hsome hq hg]
      have h2 : Lists g q c ↔ c ∈ v.childrenList := by simp [Lists, hg]
      rw [h1, h2, (hf.nodup hg).mem_erase_iff, and_comm]

theorem detach_forest {g : GuiState} {p : Ptr} {w : Widget} (hf : Forest g)
    (hw : g.heap p = some w) : Forest (detach g p) := by
  obtain ⟨-, hreg, ⟨o, -, ho⟩, hsome, hnone⟩ := detach_spec hf hw
  have hback : ∀ {x v}, (detach g p).heap x = some v → ∃ u, g.heap x = some u ∧
      v.childrenList.Sublist u.childrenList := by
    intro x v hv
    cases hg : g.heap x with
    | none => simp [hnone hg] at hv
    | some u =>
      by_cases hx : x = p
      · subst hx
        rw [ho, Option.some.injEq] at hv
        rw [hw, Option.some.injEq] at hg
        exact ⟨u, rfl, by rw [← hv, ← hg]⟩
      · rw [hsome hx hg, Option.some.injEq] at hv
        exact ⟨u, rfl, by rw [← hv]; exact List.erase_sublist⟩
  refine ⟨fun {q c} hl => ?_, fun hv => ?_, fun hv => ?_, hreg ▸ hf.registry⟩
  · obtain ⟨hl, hc⟩ := (detach_lists hf hw q c).mp hl
    obtain ⟨hlt, v, hv, hvp⟩ := hf.child hl
    exact ⟨hlt, _, hsome hc hv, hvp⟩
  · obtain ⟨u, hu, hs⟩ := hback hv
    exact (hf.nodup hu).sublist hs
  · obtain ⟨u, hu, -⟩ := hback hv
    rw [(detach_sameRest g p).next]
    exact hf.bound hu

/-- A widget taken from its parent and deleted. -/
theorem detachAndDestroy_spec {g : GuiState} {p : Ptr} {w : Widget} (hf : Forest g)
    (hw : g.heap p = some w) : Removed g (detachAndDestroy g p) (Below g p) := by
  obtain ⟨hfreed, hreg, ⟨o, -, ho⟩, hsome, hnone⟩ := detach_spec hf hw
  have hlists := detach_lists hf hw
  have hf1 := detach_forest hf hw
  have hbelow : ∀ x, Below (detach g p) p x ↔ Below g p x := by
    refine below_congr fun y hy c => (hlists y c).trans ⟨And.left, fun hl => ⟨hl, fun e => ?_⟩⟩
    exact Nat.not_le_of_lt (e ▸ (hf.child hl).1) (hf.below_le hy)
  obtain ⟨hfree, hkeep⟩ := destroy_spec (detach g p).next hf1 (by rw [ho]; rfl)
    (fun q hl => ((hlists q p).mp hl).2 rfl) (Nat.le_add_left _ _)
  rw [← detachAndDestroy_eq] at hfree hkeep
  have hfree := hfree.congr fun x => (hbelow x).symm
  have hkeep : ∀ x, ¬ Below g p x → (detachAndDestroy g p).heap x = (detach g p).heap x :=
    fun x hx => hkeep x fun hb => hx ((hbelow x).mp hb)
  refine ⟨(detachAndDestroy_sameRest g p).next, fun {x} hx => ?_,
    fun hx => hf.below_alloc hx (by rw [hw]; rfl), hfree.gone _, fun {x v} hx hv => ?_,
    hfreed ▸ hfree.freed, hreg ▸ hfree.sublist, fun {x} hx hm => ((hfree.registry x).mp hm).2 hx,
    fun {x} hm hx => .inl ((hfree.registry x).mpr ⟨hreg ▸ hm, hx⟩)⟩
  · by_cases hb : Below g p x
    · exact hfree.gone x hb
    · exact (hkeep x hb).trans (hnone hx)
  · have hxp : x ≠ p := fun e => hx (e ▸ .refl)
    refine ⟨v.childrenList.erase p, (hkeep x hx).trans (hsome hxp hv), List.erase_sublist,
      fun c => ?_⟩
    rw [(hf.nodup hv).mem_erase_iff, and_comm]
    refine and_congr_right fun hc => not_congr ⟨fun e => e ▸ .refl, fun hb => ?_⟩
    rcases Relation.ReflTransGen.cases_tail hb with e | ⟨y, hy, hyc⟩
    · exact e
    · exact absurd (hf.parent_unique hyc ⟨v, hv, hc⟩ ▸ hy) hx

namespace Removed

variable {g g' : GuiState} {D : Ptr → Prop}

/-- One of the widgets was detached first. -/
theorem of_detach {c : Ptr} {w : Widget} (hf : Forest g) (hw : g.heap c = some w) (hc : D c)
    (h : Removed (detach g c) g' D) : Removed g g' D := by
  obtain ⟨hfreed, hreg, -, hsome, hnone⟩ := detach_spec hf hw
  refine ⟨h.next.trans (detach_sameRest g c).next, fun hx => h.unallocated (hnone hx),
    fun {x} hx => ?_, h.gone, fun {x v} hx hv => ?_, hfreed ▸ h.freed, hreg ▸ h.sublist,
    h.unregistered, fun hm hx => h.registered (hreg ▸ hm) hx⟩
  · cases hg : g.heap x with
    | none => exact absurd (h.alloc hx) (by simp [hnone hg])
    | some v => rfl
  obtain ⟨l, hl, hs, hm⟩ := h.keep hx (hsome (fun e => hx (e ▸ hc)) hv)
  refine ⟨l, hl, hs.trans List.erase_sublist, fun d => ?_⟩
  rw [hm]
  dsimp only
  rw [(hf.nodup hv).mem_erase_iff, and_assoc]
  exact ⟨And.right, fun ⟨h1, h2⟩ => ⟨fun e => h2 (e ▸ hc), h1, h2⟩⟩

/-- Some of the widgets, or the desktop, were taken out of the registry first. -/
theorem of_registry {r : List Ptr} (h : Removed { g with hguiWidgets := r } g' D)
    (hs : r.Sublist g.hguiWidgets)
    (hr : ∀ x ∈ g.hguiWidgets, x ∈ r ∨ D x ∨ x = theDesktop) : Removed g g' D := by
  refine ⟨h.next, h.unallocated, h.alloc, h.gone, h.keep, h.freed, h.sublist.trans hs,
    h.unregistered, fun hm hx => ?_⟩
  rcases hr _ hm with hr | hr | hr
  · exact h.registered hr hx
  · exact absurd hr hx
  · exact .inr hr

end Removed

/-! ## The registry -/

/-- The ids of the registered widgets. -/
structure Ids (g : GuiState) : Prop where
  unique : ∀ {p q w v}, g.heap p = some w → g.heap q = some v → w.id = v.id → w.id ≠ 0 → p = q
  zero : ∀ {p w}, g.heap p = some w → w.id = 0 → p ∈ g.hguiWidgets → p = theDesktop

/-- The walk takes out of the registry, for each descendant, the widget registered with its id: it
or, for the id 0 of a close button, the desktop. -/
theorem unregisterTree_spec (fuel : Nat) : ∀ (g : GuiState) (ps : List Ptr), Ids g →
    ∃ r, unregisterTree fuel g ps = { g with hguiWidgets := r } ∧ r.Sublist g.hguiWidgets ∧
      ∀ x ∈ g.hguiWidgets, x ∈ r ∨ (∃ p ∈ ps, Below g p x) ∨ x = theDesktop := by
  induction fuel with
  | zero => exact fun g _ _ => ⟨g.hguiWidgets, rfl, .refl _, fun x hx => .inl hx⟩
  | succ fuel ih =>
    intro g ps hids
    cases ps with
    | nil => exact ⟨g.hguiWidgets, rfl, .refl _, fun x hx => .inl hx⟩
    | cons cur ps =>
      cases hw : g.heap cur with
      | none =>
        obtain ⟨r, hr, hs, hx⟩ := ih g ps hids
        refine ⟨r, by rw [unregisterTree, hw]; exact hr, hs, fun x hm => ?_⟩
        exact (hx x hm).imp_right (Or.imp_left fun ⟨p, hp, hb⟩ =>
          ⟨p, List.mem_cons_of_mem cur hp, hb⟩)
      | some w =>
        have hsub := g.hguiWidgets.eraseP_sublist (p := fun c => (g.heap c).any (·.id == w.id))
        obtain ⟨r, hr, hs, hx⟩ := ih
          { g with hguiWidgets := g.hguiWidgets.eraseP fun c => (g.heap c).any (·.id == w.id) }
          (ps ++ w.childrenList) ⟨hids.unique, fun hv h0 hm => hids.zero hv h0 (hsub.subset hm)⟩
        refine ⟨r, by rw [unregisterTree, hw]; exact hr, hs.trans hsub, fun x hm => ?_⟩
        have hlist : ∀ y, Below { g with
            hguiWidgets := g.hguiWidgets.eraseP fun c => (g.heap c).any (·.id == w.id) } y x →
            Below g y x := fun y => (below_congr (fun _ _ _ => Iff.rfl) x).mp
        by_cases hsame : (g.heap x).any (·.id == w.id)
        · obtain ⟨v, hv, hid⟩ := (Option.any_eq_true _ _).mp hsame
          rw [beq_iff_eq] at hid
          by_cases h0 : v.id = 0
          · exact .inr (.inr (hids.zero hv h0 hm))
          · exact .inr (.inl ⟨cur, List.mem_cons_self, hids.unique hv hw hid h0 ▸ .refl⟩)
        · have hm' :=
            (List.mem_eraseP_of_neg (p := fun c => (g.heap c).any (·.id == w.id)) hsame).mpr hm
          rcases hx x hm' with h | ⟨p, hp, hb⟩ | h
          · exact .inl h
          · rcases List.mem_append.mp hp with hp | hp
            · exact .inr (.inl ⟨p, List.mem_cons_of_mem cur hp, hlist p hb⟩)
            · exact .inr (.inl ⟨cur, List.mem_cons_self, .head ⟨w, hw, hp⟩ (hlist p hb)⟩)
          · exact .inr (.inr h)

end Gui
end Hashx86
