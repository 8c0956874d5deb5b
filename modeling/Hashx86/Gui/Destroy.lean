import Hashx86.Gui.Widgets
import Mathlib.Data.List.Nodup
import Mathlib.Logic.Relation

/-!
# Deleting a widget

* `Forest`: each listed child is allocated, points back to its parent and was made after it.
* `Below g p x`: `x` is `p` or one of its descendants.
* `destroy_spec`: the deletion of a widget that no list names frees it and its descendants, each
  once, takes them out of the registry and changes nothing else.
-/

namespace Hashx86
namespace Gui

open Relation

/-- `c` is in the child list of `p`. -/
def Lists (g : GuiState) (p c : Ptr) : Prop := ∃ w, g.heap p = some w ∧ c ∈ w.childrenList

def Below (g : GuiState) : Ptr → Ptr → Prop := ReflTransGen (Lists g)

structure Forest (g : GuiState) : Prop where
  child : ∀ {p c}, Lists g p c → p < c ∧ ∃ v, g.heap c = some v ∧ v.parent = some p
  nodup : ∀ {p w}, g.heap p = some w → w.childrenList.Nodup
  bound : ∀ {p w}, g.heap p = some w → p < g.next
  registry : g.hguiWidgets.Nodup

namespace Forest

variable {g : GuiState} {p q c x : Ptr}

theorem parent_unique (h : Forest g) (hp : Lists g p c) (hq : Lists g q c) : p = q := by
  obtain ⟨-, v, hv, hvp⟩ := h.child hp
  obtain ⟨-, u, hu, huq⟩ := h.child hq
  rw [hv, Option.some.injEq] at hu
  rw [← hu, hvp, Option.some.injEq] at huq
  exact huq

theorem below_le (h : Forest g) (hb : Below g p x) : p ≤ x := by
  induction hb with
  | refl => exact Nat.le_refl p
  | tail _ hl ih => exact Nat.le_trans ih (Nat.le_of_lt (h.child hl).1)

theorem below_alloc (h : Forest g) (hb : Below g p x) (hp : (g.heap p).isSome) :
    (g.heap x).isSome := by
  cases hb with
  | refl => exact hp
  | tail _ hl =>
    obtain ⟨-, v, hv, -⟩ := h.child hl
    rw [hv]
    rfl

/-- Two widgets above one are above each other. -/
theorem below_total (h : Forest g) (hp : Below g p x) (hq : Below g q x) :
    Below g p q ∨ Below g q p := by
  have hu : Relator.RightUnique (Function.swap (Lists g)) := fun _ _ _ h1 h2 =>
    h.parent_unique h1 h2
  rcases ReflTransGen.total_of_right_unique hu hp.swap hq.swap with hb | hb
  · exact .inr hb.swap
  · exact .inl hb.swap

/-- Two children of one widget have no descendant in common. -/
theorem siblings_disjoint {d : Ptr} (h : Forest g) (hc : Lists g p c) (hd : Lists g p d)
    (hne : c ≠ d) (h1 : Below g c x) : ¬ Below g d x := by
  have hlast : ∀ {a b}, Lists g p a → Lists g p b → a ≠ b → ¬ Below g a b := by
    intro a b ha hb hab hbel
    rcases ReflTransGen.cases_tail hbel with e | ⟨y, hy, hyb⟩
    · exact hab e.symm
    · have := h.below_le hy
      rw [h.parent_unique hyb hb] at this
      exact Nat.not_le_of_lt (h.child ha).1 this
  intro h2
  rcases h.below_total h1 h2 with hb | hb
  · exact hlast hc hd hne hb
  · exact hlast hd hc (Ne.symm hne) hb

end Forest

theorem lists_congr {g g' : GuiState} {p : Ptr}
    (h : (g'.heap p).map (·.childrenList) = (g.heap p).map (·.childrenList)) (c : Ptr) :
    Lists g' p c ↔ Lists g p c := by
  unfold Lists
  cases hg : g.heap p <;> cases hg' : g'.heap p <;> simp_all

/-- What is below a widget depends on the lists below it. -/
theorem below_congr {g g' : GuiState} {p : Ptr}
    (h : ∀ y, Below g p y → ∀ c, Lists g' y c ↔ Lists g y c) (x : Ptr) :
    Below g' p x ↔ Below g p x := by
  constructor
  · intro hb
    induction hb with
    | refl => exact .refl
    | tail _ hl ih => exact ih.tail ((h _ ih _).mp hl)
  · intro hb
    induction hb with
    | refl => exact .refl
    | tail hy hl ih => exact ih.tail ((h _ hy _).mpr hl)

theorem below_cases {g : GuiState} {p x : Ptr} :
    Below g p x ↔ x = p ∨ ∃ c, Lists g p c ∧ Below g c x := by
  constructor
  · intro hb
    rcases ReflTransGen.cases_head hb with e | ⟨c, hc, hx⟩
    · exact .inl e.symm
    · exact .inr ⟨c, hc, hx⟩
  · rintro (rfl | ⟨c, hc, hx⟩)
    · exact .refl
    · exact .head hc hx

/-- The widgets of `D` are freed, once each, and gone from the registry; `freed` and the registry
are not changed otherwise. -/
structure Frees (g g' : GuiState) (D : Ptr → Prop) : Prop where
  gone : ∀ x, D x → g'.heap x = none
  freed : ∃ l, g'.freed = l ++ g.freed ∧ l.Nodup ∧ ∀ x, x ∈ l ↔ D x
  registry : ∀ x, x ∈ g'.hguiWidgets ↔ x ∈ g.hguiWidgets ∧ ¬ D x
  sublist : g'.hguiWidgets.Sublist g.hguiWidgets

theorem Frees.congr {g g' : GuiState} {D E : Ptr → Prop} (h : Frees g g' D) (he : ∀ x, E x ↔ D x) :
    Frees g g' E := by
  obtain rfl : E = D := funext fun x => propext (he x)
  exact h

/-- Two deletions of disjoint widgets. -/
theorem Frees.trans {g g' g'' : GuiState} {D E : Ptr → Prop} (h : Frees g g' D)
    (h' : Frees g' g'' E) (hd : ∀ x, D x → ¬ E x) (hkeep : ∀ x, D x → g''.heap x = g'.heap x) :
    Frees g g'' fun x => D x ∨ E x := by
  obtain ⟨l, hl, hn, hm⟩ := h.freed
  obtain ⟨l', hl', hn', hm'⟩ := h'.freed
  refine ⟨?_, ⟨l' ++ l, ?_, ?_, fun x => ?_⟩, fun x => ?_, h'.sublist.trans h.sublist⟩
  · rintro x (hx | hx)
    · exact (hkeep x hx).trans (h.gone x hx)
    · exact h'.gone x hx
  · rw [hl', hl, List.append_assoc]
  · exact List.nodup_append.mpr ⟨hn', hn, fun a ha b hb hab =>
      hd a ((hm a).mp (hab ▸ hb)) ((hm' a).mp ha)⟩
  · rw [List.mem_append, hm, hm', or_comm]
  · rw [h'.registry, h.registry, and_assoc, not_or]

@[simp] theorem modify_heap_self (g : GuiState) (p : Ptr) (f : Widget → Widget) :
    (modify g p f).heap p = (g.heap p).map f := Function.update_self _ _ _

theorem modify_heap_of_ne (g : GuiState) {p x : Ptr} (f : Widget → Widget) (h : x ≠ p) :
    (modify g p f).heap x = g.heap x := Function.update_of_ne h _ _

theorem any_lists (g : GuiState) (p c : Ptr) :
    ((g.heap p).any fun w => decide (c ∈ w.childrenList)) = true ↔ Lists g p c := by
  rw [Option.any_eq_true]
  simp only [Lists, decide_eq_true_eq]

theorem removeChild_of_not_lists {g : GuiState} {p c : Ptr} (h : ¬ Lists g p c) :
    removeChild g p c = g := if_neg fun ha => h ((any_lists g p c).mp ha)

/-- `freeWidget` on a widget that is in no list. -/
theorem freeWidget_eq {g : GuiState} {p : Ptr} (hp : ∀ q, ¬ Lists g q p) :
    freeWidget g p =
      { g with
        heap := Function.update g.heap p none
        freed := p :: g.freed
        hguiWidgets := g.hguiWidgets.erase p } := by
  unfold freeWidget
  cases (g.heap p).bind (·.parent) with
  | none => rfl
  | some q =>
    dsimp only
    rw [removeChild_of_not_lists (hp q)]

theorem freeWidget_spec {g : GuiState} {p : Ptr} (hp : ∀ q, ¬ Lists g q p)
    (hn : g.hguiWidgets.Nodup) :
    Frees g (freeWidget g p) (· = p) ∧ ∀ x ≠ p, (freeWidget g p).heap x = g.heap x := by
  rw [freeWidget_eq hp]
  refine ⟨⟨?_, ⟨[p], rfl, List.nodup_singleton p, by simp⟩, fun x => ?_, List.erase_sublist⟩,
    fun x hx => Function.update_of_ne hx _ _⟩
  · rintro x rfl
    exact Function.update_self _ _ _
  · rw [hn.mem_erase_iff, and_comm]

/-- A forest stays one when a widget that is in no list goes with its descendants. -/
theorem Forest.frees {g g' : GuiState} {c : Ptr} (h : Forest g) (hroot : ∀ q, ¬ Lists g q c)
    (hf : Frees g g' (Below g c)) (hk : ∀ x, ¬ Below g c x → g'.heap x = g.heap x)
    (hnext : g'.next = g.next) : Forest g' := by
  have hheap : ∀ {x w}, g'.heap x = some w → ¬ Below g c x ∧ g.heap x = some w := by
    intro x w hx
    have hb : ¬ Below g c x := fun hb => by simp [hf.gone x hb] at hx
    exact ⟨hb, (hk x hb).symm.trans hx⟩
  refine ⟨?_, fun hw => h.nodup (hheap hw).2, fun hw => ?_, h.registry.sublist hf.sublist⟩
  · rintro q d ⟨w, hw, hd⟩
    obtain ⟨hb, hw⟩ := hheap hw
    have hl : Lists g q d := ⟨w, hw, hd⟩
    obtain ⟨hlt, v, hv, hvp⟩ := h.child hl
    refine ⟨hlt, v, ?_, hvp⟩
    rw [hk d fun hbd => ?_, hv]
    rcases ReflTransGen.cases_tail hbd with e | ⟨y, hy, hyd⟩
    · exact hroot q (e ▸ hl)
    · exact hb (h.parent_unique hyd hl ▸ hy)
  · rw [hnext]
    exact h.bound (hheap hw).2

/-- The first child `c` of `p` is taken from the list and loses its parent. -/
def popChild (p : Ptr) (g : GuiState) (c : Ptr) : GuiState :=
  modify (modify g p fun w => { w with childrenList := w.childrenList.tail }) c
    fun v => { v with parent := none }

/-- One turn of the loop of `~CompositeWidget`. -/
def dropChild (fuel : Nat) (p : Ptr) (g : GuiState) (c : Ptr) : GuiState :=
  destroy fuel (popChild p g c) c

/-- What the deletion of widgets leaves alone. -/
structure SameRest (g g' : GuiState) : Prop where
  next : g'.next = g.next
  counter : g'.widgetIDCounter = g.widgetIDCounter
  pending : g'.pendingWidgetDestroy = g.pendingWidgetDestroy
  tabs : g'.tabs = g.tabs
  tabCount : g'.tabCount = g.tabCount
  exited : g'.exited = g.exited
  staleReads : g'.staleReads = g.staleReads

theorem SameRest.refl (g : GuiState) : SameRest g g := ⟨rfl, rfl, rfl, rfl, rfl, rfl, rfl⟩

theorem SameRest.trans {g g' g'' : GuiState} (h : SameRest g g') (h' : SameRest g' g'') :
    SameRest g g'' :=
  ⟨h'.next.trans h.next, h'.counter.trans h.counter, h'.pending.trans h.pending,
    h'.tabs.trans h.tabs, h'.tabCount.trans h.tabCount, h'.exited.trans h.exited,
    h'.staleReads.trans h.staleReads⟩

theorem removeChild_sameRest (g : GuiState) (p c : Ptr) : SameRest g (removeChild g p c) := by
  unfold removeChild
  split
  · exact ⟨rfl, rfl, rfl, rfl, rfl, rfl, rfl⟩
  · exact .refl g

theorem freeWidget_sameRest (g : GuiState) (p : Ptr) : SameRest g (freeWidget g p) := by
  unfold freeWidget
  cases (g.heap p).bind (·.parent) with
  | none => exact ⟨rfl, rfl, rfl, rfl, rfl, rfl, rfl⟩
  | some q =>
    obtain ⟨h1, h2, h3, h4, h5, h6, h7⟩ := removeChild_sameRest g q p
    exact ⟨h1, h2, h3, h4, h5, h6, h7⟩

/-- `~CompositeWidget` and `~Widget`, by `dropChild`. -/
theorem destroy_succ (fuel : Nat) {g : GuiState} {p : Ptr} {w : Widget} (hp : g.heap p = some w) :
    destroy (fuel + 1) g p = freeWidget (w.childrenList.foldl (dropChild fuel p) g) p := by
  rw [destroy, hp]
  rfl

theorem destroy_sameRest (fuel : Nat) : ∀ (g : GuiState) (p : Ptr),
    SameRest g (destroy fuel g p) := by
  induction fuel with
  | zero => exact fun g _ => .refl g
  | succ fuel ih =>
    intro g p
    cases hp : g.heap p with
    | none =>
      rw [destroy, hp]
      exact ⟨rfl, rfl, rfl, rfl, rfl, rfl, rfl⟩
    | some w =>
      have hdrop : ∀ (g : GuiState) (c : Ptr), SameRest g (dropChild fuel p g c) := by
        intro g c
        obtain ⟨h1, h2, h3, h4, h5, h6, h7⟩ := ih (popChild p g c) c
        exact ⟨h1, h2, h3, h4, h5, h6, h7⟩
      have hfold : ∀ (cs : List Ptr) (g : GuiState),
          SameRest g (cs.foldl (dropChild fuel p) g) := by
        intro cs
        induction cs with
        | nil => exact fun g => .refl g
        | cons c cs ihcs => exact fun g => (hdrop g c).trans (ihcs _)
      rw [destroy_succ fuel hp]
      exact (hfold _ g).trans (freeWidget_sameRest _ p)

theorem popChild_spec {g : GuiState} {p c : Ptr} {w : Widget} {cs : List Ptr} (hf : Forest g)
    (hp : g.heap p = some w) (hcs : w.childrenList = c :: cs) :
    let g2 := popChild p g c
    Forest g2 ∧ g2.heap p = some { w with childrenList := cs } ∧ (g2.heap c).isSome ∧
      (∀ x, x ≠ p → x ≠ c → g2.heap x = g.heap x) ∧
      ∀ q d, Lists g2 q d ↔ Lists g q d ∧ d ≠ c := by
  intro g2
  have hl : Lists g p c := ⟨w, hp, hcs ▸ List.mem_cons_self⟩
  obtain ⟨hlt, v, hv, hvp⟩ := hf.child hl
  have hne : p ≠ c := Nat.ne_of_lt hlt
  have hnd := hf.nodup hp
  rw [hcs, List.nodup_cons] at hnd
  have h2p : g2.heap p = some { w with childrenList := cs } := by
    simp only [g2, popChild]
    rw [modify_heap_of_ne _ _ hne, modify_heap_self, hp, Option.map_some, hcs, List.tail_cons]
  have h2c : g2.heap c = some { v with parent := none } := by
    simp only [g2, popChild]
    rw [modify_heap_self, modify_heap_of_ne _ _ (Ne.symm hne), hv, Option.map_some]
  have h2o : ∀ x, x ≠ p → x ≠ c → g2.heap x = g.heap x := fun x h1 h2 => by
    simp only [g2, popChild]
    rw [modify_heap_of_ne _ _ h2, modify_heap_of_ne _ _ h1]
  have hlists : ∀ q d, Lists g2 q d ↔ Lists g q d ∧ d ≠ c := by
    intro q d
    by_cases hq : q = p
    · subst hq
      have h1 : Lists g2 q d ↔ d ∈ cs := by simp [Lists, h2p]
      have h2 : Lists g q d ↔ d ∈ c :: cs := by simp [Lists, hp, hcs]
      rw [h1, h2, List.mem_cons]
      refine ⟨fun hd => ⟨.inr hd, fun e => hnd.1 (e ▸ hd)⟩, fun ⟨hd, hdc⟩ => hd.resolve_left hdc⟩
    · have hsame : Lists g2 q d ↔ Lists g q d := by
        by_cases hqc : q = c
        · subst hqc
          exact lists_congr (by rw [h2c, hv]; rfl) d
        · exact lists_congr (by rw [h2o q hq hqc]) d
      rw [hsame]
      exact ⟨fun hd => ⟨hd, fun e => hq (hf.parent_unique (e ▸ hd) hl)⟩, And.left⟩
  refine ⟨⟨fun {q d} hqd => ?_, fun {q u} hu => ?_, fun {q u} hu => ?_, hf.registry⟩, h2p,
    by rw [h2c]; rfl, h2o, hlists⟩
  · obtain ⟨hqd, hdc⟩ := (hlists q d).mp hqd
    obtain ⟨hlt, u, hu, hup⟩ := hf.child hqd
    refine ⟨hlt, ?_⟩
    by_cases hdp : d = p
    · subst hdp
      rw [hp, Option.some.injEq] at hu
      exact ⟨_, h2p, by rw [← hu] at hup; exact hup⟩
    · exact ⟨u, (h2o d hdp hdc).trans hu, hup⟩
  · by_cases hq : q = p
    · subst hq
      rw [h2p, Option.some.injEq] at hu
      exact hu ▸ hnd.2
    · by_cases hqc : q = c
      · subst hqc
        rw [h2c, Option.some.injEq] at hu
        have hn := hf.nodup hv
        rw [← hu]
        exact hn
      · exact hf.nodup ((h2o q hq hqc).symm.trans hu)
  · by_cases hq : q = p
    · exact hq ▸ hf.bound hp
    · by_cases hqc : q = c
      · exact hqc ▸ hf.bound hv
      · exact hf.bound ((h2o q hq hqc).symm.trans hu)

/-- The loop over the children `cs` that are left, by induction on them. -/
theorem foldl_dropChild_spec (fuel : Nat)
    (ih : ∀ {g : GuiState} {c : Ptr}, Forest g → (g.heap c).isSome → (∀ q, ¬ Lists g q c) →
      g.next ≤ c + fuel → Frees g (destroy fuel g c) (Below g c) ∧
        ∀ x, ¬ Below g c x → (destroy fuel g c).heap x = g.heap x)
    {p : Ptr} (cs : List Ptr) : ∀ {g : GuiState} {w : Widget}, Forest g → g.heap p = some w →
      w.childrenList = cs → g.next ≤ p + 1 + fuel →
      let g' := cs.foldl (dropChild fuel p) g
      Frees g g' (fun x => ∃ c ∈ cs, Below g c x) ∧
        g'.heap p = some { w with childrenList := [] } ∧
        ∀ x, x ≠ p → (∀ c ∈ cs, ¬ Below g c x) → g'.heap x = g.heap x := by
  induction cs with
  | nil =>
    intro g w hf hp hcs _
    refine ⟨⟨by simp, ⟨[], rfl, List.nodup_nil, by simp⟩, by simp, List.Sublist.refl _⟩, ?_,
      fun _ _ _ => rfl⟩
    rw [List.foldl_nil, hp, ← hcs]
  | cons c cs ihcs =>
    intro g w hf hp hcs hfuel
    rw [List.foldl_cons]
    obtain ⟨hf2, hp2, hc2, hrest2, hlists2⟩ := popChild_spec hf hp hcs
    have hl : ∀ {d}, d ∈ c :: cs → Lists g p d := fun hd => ⟨w, hp, hcs ▸ hd⟩
    have hlt : p < c := (hf.child (hl List.mem_cons_self)).1
    have hnd : c ∉ cs := (List.nodup_cons.mp (hcs ▸ hf.nodup hp)).1
    -- below a child of `p` the lists are as before
    have hbelow2 : ∀ d ∈ c :: cs, ∀ x, Below (popChild p g c) d x ↔ Below g d x := by
      intro d hd
      refine below_congr fun y hy e => ?_
      rw [hlists2]
      refine ⟨And.left, fun he => ⟨he, fun hec => ?_⟩⟩
      have hyp := hf.parent_unique (hec ▸ he) (hl List.mem_cons_self)
      exact Nat.not_lt_of_le (hf.below_le hy) (hyp ▸ (hf.child (hl hd)).1)
    have hroot : ∀ q, ¬ Lists (popChild p g c) q c := fun q hq => ((hlists2 q c).mp hq).2 rfl
    obtain ⟨hfree, hkeep⟩ := ih hf2 hc2 hroot
      (Nat.le_trans hfuel (Nat.add_le_add_right hlt fuel))
    change Frees _ (dropChild fuel p g c) _ at hfree
    change ∀ x, _ → (dropChild fuel p g c).heap x = _ at hkeep
    have hp3 : (dropChild fuel p g c).heap p = some { w with childrenList := cs } :=
      (hkeep p fun hb => Nat.not_le_of_lt hlt (hf2.below_le hb)).trans hp2
    have hnext : (dropChild fuel p g c).next = g.next := (destroy_sameRest fuel _ c).next
    have hf3 := hf2.frees hroot hfree hkeep hnext
    have hbelow3 : ∀ d ∈ cs, ∀ x, Below (dropChild fuel p g c) d x ↔ Below g d x := by
      intro d hd x
      have hd' := List.mem_cons_of_mem c hd
      rw [← hbelow2 d hd']
      refine below_congr (fun y hy => lists_congr ?_) x
      rw [hkeep y fun hb => ?_]
      exact hf.siblings_disjoint (hl List.mem_cons_self) (hl hd') (fun e => hnd (e ▸ hd))
        ((hbelow2 c List.mem_cons_self y).mp hb) ((hbelow2 d hd' y).mp hy)
    obtain ⟨hfree', hp', hkeep'⟩ := ihcs hf3 hp3 rfl (by rwa [hnext])
    have hfirst : Frees g (dropChild fuel p g c) (Below g c) :=
      Frees.congr ⟨hfree.gone, hfree.freed, hfree.registry, hfree.sublist⟩
        fun x => (hbelow2 c List.mem_cons_self x).symm
    have hothers : Frees (dropChild fuel p g c) (cs.foldl (dropChild fuel p) (dropChild fuel p g c))
        fun x => ∃ d ∈ cs, Below g d x :=
      hfree'.congr fun x => exists_congr fun d => and_congr_right fun hd => (hbelow3 d hd x).symm
    have hdis : ∀ x, Below g c x → ¬ ∃ d ∈ cs, Below g d x := fun x hx ⟨d, hd, hdx⟩ =>
      hf.siblings_disjoint (hl List.mem_cons_self) (hl (List.mem_cons_of_mem c hd))
        (fun e => hnd (e ▸ hd)) hx hdx
    refine ⟨(hfirst.trans hothers hdis fun x hx => ?_).congr fun x => by simp, hp',
      fun x hxp hx => ?_⟩
    · refine hkeep' x (fun e => ?_) fun d hd hb => hdis x hx ⟨d, hd, (hbelow3 d hd x).mp hb⟩
      exact Nat.not_le_of_lt hlt (e ▸ hf.below_le hx)
    · have hxc : ¬ Below g c x := hx c List.mem_cons_self
      rw [hkeep' x hxp fun d hd hb => hx d (List.mem_cons_of_mem c hd) ((hbelow3 d hd x).mp hb),
        hkeep x fun hb => hxc ((hbelow2 c List.mem_cons_self x).mp hb)]
      exact hrest2 x hxp fun e => hxc (e ▸ .refl)

/-- The deletion of a widget that is in no list. -/
theorem destroy_spec (fuel : Nat) : ∀ {g : GuiState} {p : Ptr}, Forest g → (g.heap p).isSome →
    (∀ q, ¬ Lists g q p) → g.next ≤ p + fuel → Frees g (destroy fuel g p) (Below g p) ∧
      ∀ x, ¬ Below g p x → (destroy fuel g p).heap x = g.heap x := by
  induction fuel with
  | zero =>
    intro g p hf hp _ hfuel
    obtain ⟨w, hw⟩ := Option.isSome_iff_exists.mp hp
    exact absurd (hf.bound hw) (Nat.not_lt_of_le hfuel)
  | succ fuel ih =>
    intro g p hf hp hroot hfuel
    obtain ⟨w, hw⟩ := Option.isSome_iff_exists.mp hp
    rw [destroy_succ fuel hw]
    obtain ⟨hfree, hp', hkeep⟩ := foldl_dropChild_spec fuel ih w.childrenList hf hw rfl
      (by rwa [Nat.add_right_comm, Nat.add_assoc])
    have hl : ∀ {d}, d ∈ w.childrenList → Lists g p d := fun hd => ⟨w, hw, hd⟩
    have hpd : ∀ d ∈ w.childrenList, ¬ Below g d p := fun d hd hb =>
      Nat.not_le_of_lt (hf.child (hl hd)).1 (hf.below_le hb)
    have hcases : ∀ x, Below g p x ↔ (∃ d ∈ w.childrenList, Below g d x) ∨ x = p := by
      intro x
      rw [below_cases, or_comm]
      refine or_congr_left ⟨fun ⟨c, ⟨u, hu, hc⟩, hx⟩ => ?_, fun ⟨c, hc, hx⟩ => ⟨c, hl hc, hx⟩⟩
      rw [hw, Option.some.injEq] at hu
      exact ⟨c, hu ▸ hc, hx⟩
    have hroot' : ∀ q, ¬ Lists (w.childrenList.foldl (dropChild fuel p) g) q p := by
      rintro q ⟨u, hu, hm⟩
      by_cases hq : q = p
      · rw [hq, hp', Option.some.injEq] at hu
        rw [← hu] at hm
        exact absurd hm List.not_mem_nil
      · by_cases hd : ∃ d ∈ w.childrenList, Below g d q
        · rw [hfree.gone q hd] at hu
          exact absurd hu (by simp)
        · rw [hkeep q hq fun d hd' hb => hd ⟨d, hd', hb⟩] at hu
          exact hroot q ⟨u, hu, hm⟩
    obtain ⟨hlast, hkeep'⟩ := freeWidget_spec hroot' (hf.registry.sublist hfree.sublist)
    refine ⟨(hfree.trans hlast (fun x ⟨d, hd, hb⟩ e => hpd d hd (e ▸ hb)) fun x hx => ?_).congr
      hcases, fun x hx => ?_⟩
    · obtain ⟨d, hd, hb⟩ := hx
      exact hkeep' x fun e => hpd d hd (e ▸ hb)
    · rw [hcases, not_or] at hx
      rw [hkeep' x hx.2, hkeep x hx.2 fun d hd hb => hx.1 ⟨d, hd, hb⟩]

end Gui
end Hashx86
