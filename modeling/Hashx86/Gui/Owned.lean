import Hashx86.Gui.Detach

/-!
# The invariants on the widgets of processes

* `Named`: which widgets there are, and which are registered.
* `Linked`: how parent pointers, child lists and the queue of deferred destructions agree.
* `Careful`: the condition on a step. The id handed out is fresh, a window that awaits destruction
  is not touched again, and no widget that is not listed has a parent that goes.
* `Owned.removed`: the invariants hold of what a removal leaves. `DELETE` (`Owned.delete`) and the
  deferred destructions (`Owned.drain`) are removals.
-/

namespace Hashx86
namespace Gui

/-- Each widget whose parent pointer is a widget of `D` is in the child list of that widget. -/
def AllListed (g : GuiState) (D : Ptr → Prop) : Prop :=
  ∀ p w q, g.heap p = some w → w.parent = some q → D q → Lists g q p

def Careful (g : GuiState) : GuiOp → Prop
  | .create .. =>
    g.widgetIDCounter ≠ 0 ∧ ∀ p w, g.heap p = some w → w.id ≠ g.widgetIDCounter
  | .addChild pid _ childID => ∀ c w, findWidgetByID g childID = some c → g.heap c = some w →
    w.pid = pid → c ∉ g.pendingWidgetDestroy
  | .delete pid id => ∀ t w, findWidgetByID g id = some t → g.heap t = some w → w.pid = pid →
    t ∉ g.pendingWidgetDestroy ∧ AllListed g (Below g t)
  | .drain => ∀ t ∈ g.pendingWidgetDestroy, AllListed g (Below g t)
  | .exit pid => pid ≠ 0 →
    (∀ t ∈ g.pendingWidgetDestroy, ∀ w, g.heap t = some w → w.pid ≠ pid) ∧
      AllListed g fun q => ∃ w, g.heap q = some w ∧ w.pid = pid
  | _ => True

/-! ## The invariants -/

/-- Which widgets there are. A close button is not registered: it goes with its window. -/
structure Named (g : GuiState) : Prop where
  desktop : ∃ d, g.heap theDesktop = some d ∧ d.kind = .desktop ∧ d.pid = 0 ∧ d.id = 0
  process : ∀ {p w}, g.heap p = some w → p ≠ theDesktop → w.pid ≠ 0 ∧ w.kind ≠ .desktop
  bound : ∀ {p w}, g.heap p = some w → p < g.next
  freed : ∀ p ∈ g.freed, p < g.next ∧ g.heap p = none
  freedOnce : g.freed.Nodup
  registeredOnce : g.hguiWidgets.Nodup
  registered : ∀ p ∈ g.hguiWidgets, ∃ w, g.heap p = some w ∧ w.kind ≠ .closeButton
  inRegistry : ∀ {p w}, g.heap p = some w →
    p = theDesktop ∨ w.kind = .closeButton ∨ p ∈ g.hguiWidgets
  unique : ∀ {p q w v}, g.heap p = some w → g.heap q = some v → w.id = v.id → w.id ≠ 0 → p = q
  zero : ∀ {p w}, g.heap p = some w → w.id = 0 → p = theDesktop ∨ w.kind = .closeButton
  exited : ∀ {p w}, g.heap p = some w → w.pid ∉ g.exited

/-- How they are linked. Without a parent are the desktop and the windows that await destruction. -/
structure Linked (g : GuiState) : Prop where
  child : ∀ {p c}, Lists g p c → ∃ v, g.heap c = some v ∧ v.parent = some p
  nodup : ∀ {p w}, g.heap p = some w → w.childrenList.Nodup
  parent : ∀ {p w q}, g.heap p = some w → w.parent = some q →
    q < p ∧ ∃ v, g.heap q = some v ∧ v.kind.isComposite = true
  samePid : ∀ {p c w v}, Lists g p c → p ≠ theDesktop → g.heap p = some w → g.heap c = some v →
    v.pid = w.pid
  closeButton : ∀ {p w}, g.heap p = some w → w.kind = .closeButton →
    ∃ q ≠ theDesktop, Lists g q p
  awaiting : ∀ p, p ∈ g.pendingWidgetDestroy ↔
    p ≠ theDesktop ∧ ∃ w, g.heap p = some w ∧ w.parent = none
  awaitingOnce : g.pendingWidgetDestroy.Nodup

structure Owned (g : GuiState) : Prop extends Named g, Linked g

namespace Owned

variable {g g' : GuiState} {D : Ptr → Prop}

theorem forest (h : Owned g) : Forest g where
  child := fun hl => by
    obtain ⟨v, hv, hvp⟩ := h.child hl
    exact ⟨(h.parent hv hvp).1, v, hv, hvp⟩
  nodup := h.nodup
  bound := h.bound
  registry := h.registeredOnce

theorem ids (h : Owned g) : Ids g where
  unique := h.unique
  zero := by
    intro p w hw h0 hm
    obtain ⟨v, hv, hk⟩ := h.registered p hm
    rw [hw, Option.some.injEq] at hv
    exact (h.zero hw h0).resolve_right (hv ▸ hk)

theorem init : Owned .init := by
  have hheap : ∀ {p w}, GuiState.init.heap p = some w →
      p = theDesktop ∧ w = ⟨.desktop, 0, 0, none, [], true⟩ := by
    intro p w hw
    by_cases hp : p = theDesktop
    · subst hp
      exact ⟨rfl, (Option.some.inj hw).symm⟩
    · have hnone : GuiState.init.heap p = none := by
        change Function.update (fun _ => none) theDesktop _ p = none
        rw [Function.update_of_ne hp]
      rw [hnone] at hw
      exact absurd hw (by simp)
  have hlists : ∀ {p c}, ¬ Lists .init p c := by
    rintro p c ⟨w, hw, hc⟩
    obtain ⟨-, rfl⟩ := hheap hw
    exact absurd hc List.not_mem_nil
  refine ⟨⟨⟨_, rfl, rfl, rfl, rfl⟩, fun hw hp => absurd (hheap hw).1 hp, fun hw => ?_,
    fun p hp => absurd hp List.not_mem_nil, List.nodup_nil, List.nodup_singleton _, fun p hp => ?_,
    fun hw => .inl (hheap hw).1, fun hw hv _ _ => (hheap hw).1.trans (hheap hv).1.symm,
    fun hw _ => .inl (hheap hw).1, fun _ => List.not_mem_nil⟩,
    ⟨fun hl => absurd hl hlists, fun hw => ?_, fun hw hp => ?_, fun hl => absurd hl hlists,
    fun hw hk => ?_, fun p => ?_, List.nodup_nil⟩⟩
  · rw [(hheap hw).1]
    exact Nat.one_pos
  · rw [List.mem_singleton.mp hp]
    exact ⟨_, rfl, by decide⟩
  · rw [(hheap hw).2]
    exact List.nodup_nil
  · rw [(hheap hw).2] at hp
    exact absurd hp (by simp)
  · rw [(hheap hw).2] at hk
    exact absurd hk (by simp)
  · refine ⟨fun hp => absurd hp List.not_mem_nil, fun ⟨hp, w, hw, _⟩ => absurd (hheap hw).1 hp⟩

/-- Only the taskbar has changed. -/
theorem withTabs (h : Owned g) (t : List TaskbarTab) (n : Int) (s : List Ptr) :
    Owned { g with tabs := t, tabCount := n, staleReads := s } :=
  ⟨⟨h.desktop, h.process, h.bound, h.freed, h.freedOnce, h.registeredOnce, h.registered,
    h.inRegistry, h.unique, h.zero, h.exited⟩,
    ⟨h.child, h.nodup, h.parent, h.samePid, h.closeButton, h.awaiting, h.awaitingOnce⟩⟩

/-- Widgets whose parent goes go as well: what is left is owned. -/
theorem removed (h : Owned g) (hr : Removed g g' D)
    (hclosed : ∀ {p w q}, g.heap p = some w → w.parent = some q → D q → D p)
    (hdesk : ¬ D theDesktop)
    (hpend : ∀ p, p ∈ g'.pendingWidgetDestroy ↔ p ∈ g.pendingWidgetDestroy ∧ ¬ D p)
    (hpendn : g'.pendingWidgetDestroy.Nodup)
    (hexited : ∀ {x w}, g.heap x = some w → ¬ D x → w.pid ∉ g'.exited) : Owned g' := by
  have hof : ∀ {x w}, g'.heap x = some w → ∃ v, g.heap x = some v ∧ ¬ D x ∧
      w.kind = v.kind ∧ w.pid = v.pid ∧ w.id = v.id ∧ w.parent = v.parent := by
    intro x w hw
    obtain ⟨hd, v, hv, he, -⟩ := hr.of_some hw
    rw [he]
    exact ⟨v, hv, hd, rfl, rfl, rfl, rfl⟩
  obtain ⟨l, hl, hln, hlm⟩ := hr.freed
  refine ⟨⟨?_, ?_, ?_, ?_, ?_, ?_, ?_, ?_, ?_, ?_, ?_⟩, ⟨?_, ?_, ?_, ?_, ?_, ?_, hpendn⟩⟩
  · obtain ⟨d, hd, hk, hpid, hid⟩ := h.desktop
    obtain ⟨l, hl, -⟩ := hr.keep hdesk hd
    exact ⟨_, hl, hk, hpid, hid⟩
  · intro p w hw hp
    obtain ⟨v, hv, -, hk, hpid, -⟩ := hof hw
    rw [hk, hpid]
    exact h.process hv hp
  · intro p w hw
    obtain ⟨v, hv, -⟩ := hof hw
    rw [hr.next]
    exact h.bound hv
  · intro p hp
    rw [hl, List.mem_append, hlm] at hp
    rw [hr.next]
    rcases hp with hp | hp
    · obtain ⟨w, hw⟩ := Option.isSome_iff_exists.mp (hr.alloc hp)
      exact ⟨h.bound hw, hr.gone hp⟩
    · exact ⟨(h.freed p hp).1, hr.unallocated (h.freed p hp).2⟩
  · rw [hl]
    refine List.nodup_append.mpr ⟨hln, h.freedOnce, fun a ha b hb hab => ?_⟩
    have ha := hr.alloc ((hlm a).mp ha)
    rw [hab, (h.freed b hb).2] at ha
    exact absurd ha (by simp)
  · exact h.registeredOnce.sublist hr.sublist
  · intro p hp
    obtain ⟨w, hw, hk⟩ := h.registered p (hr.sublist.subset hp)
    obtain ⟨l, hl, -⟩ := hr.keep (fun hd => hr.unregistered hd hp) hw
    exact ⟨_, hl, hk⟩
  · intro p w hw
    obtain ⟨v, hv, hd, hk, -⟩ := hof hw
    rw [hk]
    rcases h.inRegistry hv with hp | hp | hp
    · exact .inl hp
    · exact .inr (.inl hp)
    · exact (hr.registered hp hd).elim (fun hp => .inr (.inr hp)) .inl
  · intro p q w v hw hv hid h0
    obtain ⟨w', hw', -, -, -, hi, -⟩ := hof hw
    obtain ⟨v', hv', -, -, -, hi', -⟩ := hof hv
    exact h.unique hw' hv' (by rw [← hi, ← hi', hid]) (hi ▸ h0)
  · intro p w hw h0
    obtain ⟨v, hv, -, hk, -, hi, -⟩ := hof hw
    rw [hk]
    exact h.zero hv (hi ▸ h0)
  · intro p w hw
    obtain ⟨v, hv, hd, -, hpid, -⟩ := hof hw
    rw [hpid]
    exact hexited hv hd
  · intro p c hpc
    obtain ⟨hpc, -, hd⟩ := hr.lists_iff.mp hpc
    obtain ⟨v, hv, hvp⟩ := h.child hpc
    obtain ⟨l, hl, -⟩ := hr.keep hd hv
    exact ⟨_, hl, hvp⟩
  · exact fun hw => (hr.forest h.forest).nodup hw
  · intro p w q hw hq
    obtain ⟨v, hv, hd, -, -, -, hp⟩ := hof hw
    rw [hp] at hq
    obtain ⟨hlt, u, hu, hc⟩ := h.parent hv hq
    obtain ⟨l, hl, -⟩ := hr.keep (fun hdq => hd (hclosed hv hq hdq)) hu
    exact ⟨hlt, _, hl, hc⟩
  · intro p c w v hl hp hw hv
    obtain ⟨w', hw', -, -, hpw, -⟩ := hof hw
    obtain ⟨v', hv', -, -, hpv, -⟩ := hof hv
    rw [hpw, hpv]
    exact h.samePid (hr.lists_iff.mp hl).1 hp hw' hv'
  · intro p w hw hk
    obtain ⟨v, hv, hd, hk', -⟩ := hof hw
    obtain ⟨q, hq, hl⟩ := h.closeButton hv (hk' ▸ hk)
    refine ⟨q, hq, hr.lists_iff.mpr ⟨hl, fun hdq => hd ?_, hd⟩⟩
    obtain ⟨u, hu, huq⟩ := h.child hl
    exact hclosed hu huq hdq
  · intro p
    rw [hpend, h.awaiting]
    constructor
    · rintro ⟨⟨hp, w, hw, hwp⟩, hd⟩
      obtain ⟨l, hl, -⟩ := hr.keep hd hw
      exact ⟨hp, _, hl, hwp⟩
    · rintro ⟨hp, w, hw, hwp⟩
      obtain ⟨v, hv, hd, -, -, -, hvp⟩ := hof hw
      exact ⟨⟨hp, v, hv, hvp ▸ hwp⟩, hd⟩

theorem ne_desktop {p : Ptr} {w : Widget} (h : Owned g) (hw : g.heap p = some w)
    (hp : w.pid ≠ 0) : p ≠ theDesktop := by
  rintro rfl
  obtain ⟨d, hd, -, hpid, -⟩ := h.desktop
  rw [hw, Option.some.injEq] at hd
  exact hp (hd ▸ hpid)

theorem not_below_desktop {t : Ptr} (h : Owned g) (ht : t ≠ theDesktop) :
    ¬ Below g t theDesktop := fun hb => ht (Nat.le_zero.mp (h.forest.below_le hb))

/-- A window that awaits destruction is below no other widget. -/
theorem not_below_awaiting {p t : Ptr} (h : Owned g) (hp : p ∈ g.pendingWidgetDestroy)
    (hne : p ≠ t) : ¬ Below g t p := by
  intro hb
  obtain ⟨-, w, hw, hwp⟩ := (h.awaiting p).mp hp
  rcases Relation.ReflTransGen.cases_tail hb with e | ⟨y, -, hy⟩
  · exact hne e
  · obtain ⟨v, hv, hvp⟩ := h.child hy
    rw [hw, Option.some.injEq] at hv
    rw [hv, hvp] at hwp
    exact absurd hwp (by simp)

end Owned

/-! ## Deletions -/

/-- Among the widgets with the id, those that a search returns are registered. -/
theorem findWidgetByID_spec {g : GuiState} {searchID : Nat} {t : Ptr}
    (h : findWidgetByID g searchID = some t) :
    t ∈ g.hguiWidgets ∧ ∃ w, g.heap t = some w ∧ w.id = searchID := by
  have hfold : ∀ (l : List Ptr) (o : Option Ptr), l.foldl
      (fun found c => if (g.heap c).any (·.id == searchID) then some c else found) o = some t →
      o = some t ∨ t ∈ l ∧ (g.heap t).any (·.id == searchID) = true := by
    intro l
    induction l with
    | nil => exact fun o ho => .inl ho
    | cons c l ih =>
      intro o ho
      rcases ih _ ho with he | ⟨hm, ha⟩
      · dsimp only at he
        split at he
        · next ha =>
          obtain rfl := Option.some.inj he
          exact .inr ⟨List.mem_cons_self, ha⟩
        · exact .inl he
      · exact .inr ⟨List.mem_cons_of_mem c hm, ha⟩
  obtain ⟨hm, ha⟩ := (hfold _ _ h).resolve_left (by simp)
  obtain ⟨w, hw, hid⟩ := (Option.any_eq_true _ _).mp ha
  exact ⟨hm, w, hw, beq_iff_eq.mp hid⟩

theorem removeTab_eq (g : GuiState) (found : TaskbarTab → Bool) :
    ∃ t n, removeTab g found = { g with tabs := t, tabCount := n } := by
  unfold removeTab
  split
  · exact ⟨_, _, rfl⟩
  · exact ⟨g.tabs, g.tabCount, rfl⟩

/-- `DELETE` takes away the tab of the window that the target is or lies in. -/
def dropTab (g : GuiState) (t : Ptr) : GuiState :=
  match enclosingWindow g.next g t with
  | none => g
  | some win => removeTabByWindow g win

theorem dropTab_eq (g : GuiState) (t : Ptr) :
    dropTab g t = { g with tabs := (dropTab g t).tabs, tabCount := (dropTab g t).tabCount } := by
  unfold dropTab
  cases enclosingWindow g.next g t with
  | none => rfl
  | some win =>
    obtain ⟨tabs, n, he⟩ := removeTab_eq g (·.windowWidget == win)
    dsimp only [removeTabByWindow]
    rw [he]

theorem handleDelete_cases (g : GuiState) (pid id : Nat) : handleDelete g pid id = g ∨
    ∃ t w, findWidgetByID g id = some t ∧ g.heap t = some w ∧ w.pid = pid ∧
      handleDelete g pid id =
        detachAndDestroy (unregisterTree (dropTab g t).next (dropTab g t) [t]) t := by
  unfold handleDelete
  cases ht : findWidgetByID g id with
  | none => exact .inl rfl
  | some t =>
    obtain ⟨-, w, hw, -⟩ := findWidgetByID_spec ht
    dsimp only
    by_cases hp : w.pid = pid
    · exact .inr ⟨t, w, rfl, hw, hp, if_neg (by simp [hw, hp])⟩
    · exact .inl (if_pos (by simp [hw, hp]))

/-- `DELETE` takes the target off the tree with what is below it. -/
theorem handleDelete_spec {g : GuiState} (h : Owned g) (pid id : Nat) :
    handleDelete g pid id = g ∨
    ∃ t w, findWidgetByID g id = some t ∧ g.heap t = some w ∧ w.pid = pid ∧
      Removed g (handleDelete g pid id) (Below g t) ∧
      SameRest (dropTab g t) (handleDelete g pid id) := by
  rcases handleDelete_cases g pid id with he | ⟨t, w, ht, hw, hp, he⟩
  · exact .inl he
  · refine .inr ⟨t, w, ht, hw, hp, ?_⟩
    have hdrop := dropTab_eq g t
    generalize (dropTab g t).tabs = tabs at hdrop
    generalize (dropTab g t).tabCount = n at hdrop
    rw [hdrop] at he ⊢
    obtain ⟨r, hr, hs, hx⟩ := unregisterTree_spec g.next { g with tabs := tabs, tabCount := n } [t]
      (h.withTabs tabs n g.staleReads).ids
    have hbelow : ∀ x, Below { g with tabs := tabs, tabCount := n } t x ↔ Below g t x :=
      below_congr fun _ _ _ => Iff.rfl
    rw [hr] at he
    have hf : Forest { g with tabs := tabs, tabCount := n, hguiWidgets := r } :=
      ⟨h.forest.child, h.nodup, h.bound, h.registeredOnce.sublist hs⟩
    obtain ⟨h1, h2, h3, h4, h5, h6, h7⟩ := detachAndDestroy_sameRest
      { g with tabs := tabs, tabCount := n, hguiWidgets := r } t
    rw [he]
    refine ⟨?_, ⟨h1, h2, h3, h4, h5, h6, h7⟩⟩
    have hrem := (detachAndDestroy_spec hf hw).of_registry
      (g := { g with tabs := tabs, tabCount := n }) hs fun x hm => by
        rcases hx x hm with h1 | ⟨p, hp, hb⟩ | h1
        · exact .inl h1
        · rw [List.mem_singleton.mp hp] at hb
          exact .inr (.inl hb)
        · exact .inr (.inr h1)
    exact ⟨hrem.next, hrem.unallocated, hrem.alloc, hrem.gone, hrem.keep, hrem.freed, hrem.sublist,
      hrem.unregistered, hrem.registered⟩

theorem Owned.delete {g : GuiState} {pid id : Nat} (h : Owned g) (hpid : pid ≠ 0)
    (hc : Careful g (.delete pid id)) : Owned (handleDelete g pid id) := by
  rcases handleDelete_spec h pid id with he | ⟨t, w, ht, hw, hp, hr, hrest⟩
  · rw [he]
    exact h
  · obtain ⟨hnp, hlisted⟩ := hc t w ht hw hp
    have hpend : (handleDelete g pid id).pendingWidgetDestroy = g.pendingWidgetDestroy := by
      rw [hrest.pending, dropTab_eq]
    have hex : (handleDelete g pid id).exited = g.exited := by rw [hrest.exited, dropTab_eq]
    refine h.removed hr (fun hv hq hb => hb.tail (hlisted _ _ _ hv hq hb))
      (h.not_below_desktop (h.ne_desktop hw (hp ▸ hpid))) (fun p => ?_) (hpend ▸ h.awaitingOnce)
      fun hx _ => hex ▸ h.exited hx
    rw [hpend]
    exact ⟨fun hm => ⟨hm, h.not_below_awaiting hm fun e => hnp (e ▸ hm)⟩, And.left⟩

/-- One turn of `DrainDeferredWidgetDeletes`. -/
def drainOne (g : GuiState) (p : Ptr) : GuiState :=
  destroy g.next { g with pendingWidgetDestroy := g.pendingWidgetDestroy.tail } p

theorem drain_eq (g : GuiState) : drain g = g.pendingWidgetDestroy.foldl drainOne g := rfl

theorem drainOne_spec {g : GuiState} {p : Ptr} {w : Widget} (hf : Forest g)
    (hw : g.heap p = some w) (hp : w.parent = none) : Removed g (drainOne g p) (Below g p) := by
  have hd : detachAndDestroy { g with pendingWidgetDestroy := g.pendingWidgetDestroy.tail } p =
      drainOne g p := by
    rw [detachAndDestroy_eq, detach]
    dsimp only
    rw [hw, Option.bind_some, hp]
    rfl
  have hr := detachAndDestroy_spec
    (g := { g with pendingWidgetDestroy := g.pendingWidgetDestroy.tail })
    ⟨hf.child, hf.nodup, hf.bound, hf.registry⟩ hw
  rw [hd] at hr
  exact ⟨hr.next, hr.unallocated, hr.alloc, hr.gone, hr.keep, hr.freed, hr.sublist,
    hr.unregistered, hr.registered⟩

theorem foldl_drainOne_sameRest (ps : List Ptr) (g : GuiState) :
    SameRest { g with pendingWidgetDestroy := g.pendingWidgetDestroy.drop ps.length }
      (ps.foldl drainOne g) := by
  induction ps generalizing g with
  | nil => exact .refl g
  | cons p ps ih =>
    have hd : SameRest { g with pendingWidgetDestroy := g.pendingWidgetDestroy.tail }
      (drainOne g p) := destroy_sameRest g.next _ p
    have hi := ih (drainOne g p)
    refine ⟨hi.next.trans hd.next, hi.counter.trans hd.counter, hi.pending.trans ?_,
      hi.tabs.trans hd.tabs, hi.tabCount.trans hd.tabCount, hi.exited.trans hd.exited,
      hi.staleReads.trans hd.staleReads⟩
    dsimp only
    rw [hd.pending, List.drop_tail, List.length_cons]

theorem drain_sameRest (g : GuiState) :
    SameRest { g with pendingWidgetDestroy := [] } (drain g) := by
  have hrest := foldl_drainOne_sameRest g.pendingWidgetDestroy g
  rw [List.drop_length] at hrest
  exact hrest

theorem drain_removed {g : GuiState} (h : Owned g) :
    Removed g (drain g) fun x => ∃ p ∈ g.pendingWidgetDestroy, Below g p x :=
  Removed.foldl (f := drainOne) (Q := (· = none)) drainOne_spec g.pendingWidgetDestroy h.forest
    h.awaitingOnce (fun p hp => ((h.awaiting p).mp hp).2)
    fun _ _ _ ht hne => h.not_below_awaiting ht hne.symm

theorem Owned.drain {g : GuiState} (h : Owned g) (hc : Careful g .drain) : Owned (drain g) := by
  have hrest := drain_sameRest g
  have hpend : (Gui.drain g).pendingWidgetDestroy = [] := hrest.pending
  have hex : (Gui.drain g).exited = g.exited := hrest.exited
  refine h.removed (drain_removed h)
    (fun hv hq ⟨r, hm, hb⟩ => ⟨r, hm, hb.tail (hc r hm _ _ _ hv hq hb)⟩)
    (fun ⟨r, hm, hb⟩ => h.not_below_desktop ((h.awaiting r).mp hm).1 hb) (fun p => ?_)
    (hpend ▸ List.nodup_nil) fun hx _ => hex ▸ h.exited hx
  rw [hpend]
  exact ⟨fun hm => absurd hm List.not_mem_nil, fun ⟨hm, hd⟩ => absurd ⟨p, hm, .refl⟩ hd⟩

end Gui
end Hashx86
