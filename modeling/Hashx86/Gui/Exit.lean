import Hashx86.Gui.Owned
import Mathlib.Order.Basic

/-!
# The end of a process (`CleanupExitedProcessGui`)

The desktop detaches one window of the process; then each registered widget whose parent is not a
registered widget of the process is a root, and goes with what is below it.

* `Owned.below_root`: each widget of the process is below a root.
* `Owned.exit_spec`: exactly the widgets of the process are freed.
* `Gone`: nothing is left of them.
-/

namespace Hashx86
namespace Gui

/-- Nothing is left of the widgets that a process had in `g`, and it has no others. -/
structure Gone (g g' : GuiState) (pid : Nat) : Prop where
  left : ∀ {p w}, g.heap p = some w → w.pid = pid → g'.heap p = none ∧ p ∉ g'.hguiWidgets ∧
    p ∉ g'.pendingWidgetDestroy ∧ ∀ q, ¬ Lists g' q p
  others : ∀ {p w}, g'.heap p = some w → w.pid ≠ pid

/-- One turn of the loop of `HguiHandler::RemoveAppByPID`. -/
def removeRoot (g : GuiState) (w : Ptr) : GuiState :=
  detachAndDestroy { g with hguiWidgets := g.hguiWidgets.erase w } w

theorem removeRoot_spec {g : GuiState} {p : Ptr} {w : Widget} (hf : Forest g)
    (hw : g.heap p = some w) : Removed g (removeRoot g p) (Below g p) := by
  have hr := detachAndDestroy_spec (g := { g with hguiWidgets := g.hguiWidgets.erase p })
    ⟨hf.child, hf.nodup, hf.bound, hf.registry.erase p⟩ hw
  refine hr.of_registry List.erase_sublist fun x hm => ?_
  by_cases hx : x = p
  · exact .inr (.inl (hx ▸ .refl))
  · exact .inl ((List.mem_erase_of_ne hx).mpr hm)

theorem foldl_removeRoot_sameRest (ps : List Ptr) (g : GuiState) :
    SameRest g (ps.foldl removeRoot g) := by
  induction ps generalizing g with
  | nil => exact .refl g
  | cons p ps ih =>
    obtain ⟨h1, h2, h3, h4, h5, h6, h7⟩ := detachAndDestroy_sameRest
      { g with hguiWidgets := g.hguiWidgets.erase p } p
    exact SameRest.trans ⟨h1, h2, h3, h4, h5, h6, h7⟩ (ih _)

theorem appWidgets_iff {g : GuiState} {pid : Nat} {p : Ptr} (h : Owned g) (hpid : pid ≠ 0) :
    p ∈ appWidgets g pid ↔ ∃ w, g.heap p = some w ∧ w.pid = pid ∧ w.kind ≠ .closeButton := by
  rw [appWidgets, List.mem_filter, Option.any_eq_true]
  constructor
  · rintro ⟨hm, w, hw, hp⟩
    obtain ⟨v, hv, hk⟩ := h.registered p hm
    rw [hw, Option.some.injEq] at hv
    exact ⟨w, hw, beq_iff_eq.mp hp, hv ▸ hk⟩
  · rintro ⟨w, hw, hp, hk⟩
    refine ⟨?_, w, hw, beq_iff_eq.mpr hp⟩
    rcases h.inRegistry hw with hd | hd | hd
    · exact absurd hd (h.ne_desktop hw (hp ▸ hpid))
    · exact absurd hd hk
    · exact hd

theorem mem_appRoots {g : GuiState} {pid : Nat} {p : Ptr} : p ∈ appRoots g pid ↔
    p ∈ appWidgets g pid ∧ ∀ w, g.heap p = some w → ∀ q, w.parent = some q →
      q ∉ appWidgets g pid := by
  rw [appRoots, List.mem_filter]
  refine and_congr_right fun _ => ?_
  cases g.heap p with
  | none => simp
  | some w => cases hw : w.parent <;> simp [hw]

/-- The sweep of the desktop detaches at most one window of the process, and drops its tab. -/
theorem desktopRemoveApp_cases {g : GuiState} (h : Owned g) (pid : Nat) :
    ∃ g1, desktopRemoveApp g pid =
        { g1 with
          tabs := (removeTabByPID g pid).tabs
          tabCount := (removeTabByPID g pid).tabCount } ∧
      (g1 = g ∨ ∃ c w, g.heap c = some w ∧ w.pid = pid ∧ w.parent = some theDesktop ∧
        g1 = detach g c) := by
  have htab : ∀ g1 : GuiState, g1.tabs = g.tabs → g1.tabCount = g.tabCount → removeTabByPID g1 pid =
      { g1 with
        tabs := (removeTabByPID g pid).tabs
        tabCount := (removeTabByPID g pid).tabCount } := by
    intro g1 h1 h2
    unfold removeTabByPID removeTab
    rw [h1, h2]
    split
    · rfl
    · rw [← h1, ← h2]
  unfold desktopRemoveApp
  dsimp only
  cases hc : (((g.heap theDesktop).map (·.childrenList)).getD []).find?
      fun c => (g.heap c).any (·.pid == pid) with
  | none => exact ⟨g, htab g rfl rfl, .inl rfl⟩
  | some c =>
    have hrest := removeChild_sameRest g theDesktop c
    refine ⟨_, htab _ hrest.tabs hrest.tabCount, .inr ?_⟩
    obtain ⟨d, hd, -⟩ := h.desktop
    have hm := List.mem_of_find?_eq_some hc
    rw [hd, Option.map_some, Option.getD_some] at hm
    obtain ⟨v, hv, hvp⟩ := h.child ⟨d, hd, hm⟩
    refine ⟨c, v, hv, ?_, hvp, ?_⟩
    · have ha := List.find?_some hc
      rw [hv] at ha
      exact beq_iff_eq.mp ha
    · rw [detach, hv, Option.bind_some, hvp]

namespace Owned

variable {g : GuiState} {pid : Nat}

/-- What is below a widget other than the desktop belongs to the same process. -/
theorem pid_of_below {r x : Ptr} {w : Widget} (h : Owned g) (hw : g.heap r = some w)
    (hr : r ≠ theDesktop) (hb : Below g r x) : ∃ v, g.heap x = some v ∧ v.pid = w.pid := by
  induction hb with
  | refl => exact ⟨w, hw, rfl⟩
  | @tail y x hy hl ih =>
    obtain ⟨u, hu, hpu⟩ := ih
    obtain ⟨v, hv, -⟩ := h.child hl
    have hyd : y ≠ theDesktop := fun e => h.not_below_desktop hr (e ▸ hy)
    exact ⟨v, hv, (h.samePid hl hyd hu hv).trans hpu⟩

theorem root_ne_desktop {r : Ptr} (h : Owned g) (hpid : pid ≠ 0) (hr : r ∈ appRoots g pid) :
    r ≠ theDesktop := by
  obtain ⟨w, hw, hp, -⟩ := (appWidgets_iff h hpid).mp (mem_appRoots.mp hr).1
  exact h.ne_desktop hw (hp ▸ hpid)

/-- No root of a process is below another. -/
theorem roots_apart {r t : Ptr} (h : Owned g) (hpid : pid ≠ 0) (hr : r ∈ appRoots g pid)
    (ht : t ∈ appRoots g pid) (hne : r ≠ t) : ¬ Below g r t := by
  intro hb
  rcases Relation.ReflTransGen.cases_tail hb with e | ⟨y, hy, hl⟩
  · exact hne e.symm
  · obtain ⟨w, hw, hp, -⟩ := (appWidgets_iff h hpid).mp (mem_appRoots.mp hr).1
    obtain ⟨u, hu, hpu⟩ := h.pid_of_below hw (h.root_ne_desktop hpid hr) hy
    obtain ⟨v, hv, hvy⟩ := h.child hl
    obtain ⟨-, u', hu', hc⟩ := h.parent hv hvy
    rw [hu, Option.some.injEq] at hu'
    subst hu'
    refine (mem_appRoots.mp ht).2 v hv y hvy ((appWidgets_iff h hpid).mpr ⟨u, hu, hpu.trans hp, ?_⟩)
    intro hk
    rw [hk] at hc
    exact absurd hc (by decide)

/-- Each widget of a process is below a root, by induction on the age of the widget. -/
theorem below_root (h : Owned g) (hpid : pid ≠ 0)
    (hlisted : AllListed g fun q => ∃ w, g.heap q = some w ∧ w.pid = pid) (x : Ptr) :
    ∀ {w}, g.heap x = some w → w.pid = pid → ∃ r ∈ appRoots g pid, Below g r x := by
  induction x using Nat.strongRecOn with
  | ind x ih =>
    intro w hw hp
    have hup : ∀ {q v}, w.parent = some q → g.heap q = some v → v.pid = pid →
        ∃ r ∈ appRoots g pid, Below g r x := by
      intro q v hq hv hvp
      obtain ⟨r, hr, hb⟩ := ih q (h.parent hw hq).1 hv hvp
      exact ⟨r, hr, hb.tail (hlisted x w q hw hq ⟨v, hv, hvp⟩)⟩
    by_cases hk : w.kind = .closeButton
    · obtain ⟨q, hq, hl⟩ := h.closeButton hw hk
      obtain ⟨w', hw', hwq⟩ := h.child hl
      rw [hw, Option.some.injEq] at hw'
      obtain ⟨-, v, hv, -⟩ := h.parent hw (hw' ▸ hwq)
      exact hup (hw' ▸ hwq) hv ((h.samePid hl hq hv hw).symm.trans hp)
    · have hm : x ∈ appWidgets g pid := (appWidgets_iff h hpid).mpr ⟨w, hw, hp, hk⟩
      by_cases hroot : x ∈ appRoots g pid
      · exact ⟨x, hroot, .refl⟩
      · rw [mem_appRoots, not_and] at hroot
        have hroot := hroot hm
        simp only [not_forall, not_not] at hroot
        obtain ⟨w', hw', q, hq, hqm⟩ := hroot
        rw [hw, Option.some.injEq] at hw'
        obtain ⟨v, hv, hvp, -⟩ := (appWidgets_iff h hpid).mp hqm
        exact hup (hw' ▸ hq) hv hvp

/-- The sweep of the desktop changes no root and nothing below one. -/
theorem detach_roots {c : Ptr} {u : Widget} (h : Owned g) (hpid : pid ≠ 0) (hu : g.heap c = some u)
    (hup : u.parent = some theDesktop) :
    (∀ r, r ∈ appRoots (detach g c) pid ↔ r ∈ appRoots g pid) ∧
      ∀ r, r ≠ theDesktop → ∀ x, Below (detach g c) r x ↔ Below g r x := by
  obtain ⟨-, hreg, ⟨o, ho, hc⟩, hsome, hnone⟩ := detach_spec h.forest hu
  have happ : appWidgets (detach g c) pid = appWidgets g pid := by
    rw [appWidgets, appWidgets, hreg]
    refine List.filter_congr fun x _ => ?_
    by_cases hx : x = c
    · rw [hx, hc, hu]
      rfl
    · cases hg : g.heap x with
      | none => rw [hnone hg]
      | some v =>
        rw [hsome hx hg]
        rfl
  have hdesk : theDesktop ∉ appWidgets g pid := by
    rw [appWidgets_iff h hpid]
    rintro ⟨w, hw, hp, -⟩
    exact h.ne_desktop hw (hp ▸ hpid) rfl
  refine ⟨fun r => ?_, fun r hr => below_congr fun y hy d => ?_⟩
  · rw [mem_appRoots, mem_appRoots, happ]
    refine and_congr_right fun _ => ?_
    by_cases hx : r = c
    · subst hx
      constructor
      · intro _ w hw q hq
        rw [hu, Option.some.injEq] at hw
        rw [← hw, hup, Option.some.injEq] at hq
        exact hq ▸ hdesk
      · intro _ w hw q hq
        rw [hc, Option.some.injEq] at hw
        rw [← hw] at hq
        rcases ho with rfl | rfl
        · exact absurd hq (by simp)
        · rw [hup, Option.some.injEq] at hq
          exact hq ▸ hdesk
    · cases hg : g.heap r with
      | none => simp [hnone hg]
      | some v => simp [hsome hx hg]
  · rw [detach_lists h.forest hu]
    refine ⟨And.left, fun hl => ⟨hl, fun e => ?_⟩⟩
    obtain ⟨v, hv, hvp⟩ := h.child (e ▸ hl)
    rw [hu, Option.some.injEq] at hv
    rw [← hv, hup, Option.some.injEq] at hvp
    exact h.not_below_desktop hr (hvp ▸ hy)

/-- The end of a process frees exactly its widgets. -/
theorem exit_spec (h : Owned g) (hpid : pid ≠ 0) (hc : Careful g (.exit pid)) :
    Removed g (exitProcess g pid) (fun x => ∃ w, g.heap x = some w ∧ w.pid = pid) ∧
      SameRest
        { g with
          tabs := (removeTabByPID g pid).tabs
          tabCount := (removeTabByPID g pid).tabCount
          exited := pid :: g.exited } (exitProcess g pid) := by
  obtain ⟨-, hlisted⟩ := hc hpid
  obtain ⟨g1, he, hg1⟩ := desktopRemoveApp_cases h pid
  have hrest1 : SameRest g g1 := by
    rcases hg1 with rfl | ⟨c, w, -, -, -, rfl⟩
    · exact .refl _
    · exact detach_sameRest g c
  have hf1 : Forest g1 := by
    rcases hg1 with rfl | ⟨c, w, hw, -, -, rfl⟩
    · exact h.forest
    · exact detach_forest h.forest hw
  have hroots : (∀ r, r ∈ appRoots g1 pid ↔ r ∈ appRoots g pid) ∧
      ∀ r, r ≠ theDesktop → ∀ x, Below g1 r x ↔ Below g r x := by
    rcases hg1 with rfl | ⟨c, w, hw, -, hwp, rfl⟩
    · exact ⟨fun _ => Iff.rfl, fun _ _ _ => Iff.rfl⟩
    · exact h.detach_roots hpid hw hwp
  have hsome : ∀ {x w}, g.heap x = some w → (g1.heap x).isSome := by
    intro x w hw
    rcases hg1 with rfl | ⟨c, u, hu, -, -, rfl⟩
    · rw [hw]
      rfl
    · obtain ⟨-, -, ⟨o, -, ho⟩, hs, -⟩ := detach_spec h.forest hu
      by_cases hx : x = c
      · rw [hx, ho]
        rfl
      · rw [hs hx hw]
        rfl
  obtain ⟨hmem, hbelow⟩ := hroots
  let g2 : GuiState :=
    { g1 with
      tabs := (removeTabByPID g pid).tabs
      tabCount := (removeTabByPID g pid).tabCount }
  have hf2 : Forest g2 := ⟨hf1.child, hf1.nodup, hf1.bound, hf1.registry⟩
  have hbelow2 : ∀ r ∈ appRoots g2 pid, ∀ x, Below g2 r x ↔ Below g r x := by
    intro r hr x
    have hr := (hmem r).mp hr
    exact (below_congr (fun _ _ _ => Iff.rfl) x).trans (hbelow r (h.root_ne_desktop hpid hr) x)
  have hr := Removed.foldl (f := removeRoot) (Q := fun _ => True)
    (fun hf hw _ => removeRoot_spec hf hw) (appRoots g2 pid) hf2
    ((hf2.registry.filter _).filter _)
    (fun r hr => by
      obtain ⟨w, hw, -⟩ := (appWidgets_iff h hpid).mp (mem_appRoots.mp ((hmem r).mp hr)).1
      obtain ⟨v, hv⟩ := Option.isSome_iff_exists.mp (hsome hw)
      exact ⟨v, hv, trivial⟩)
    fun r hr t ht hne hb => h.roots_apart hpid ((hmem r).mp hr) ((hmem t).mp ht) hne
      ((hbelow2 r hr t).mp hb)
  have hD : ∀ x, (∃ w, g.heap x = some w ∧ w.pid = pid) ↔
      ∃ r ∈ appRoots g2 pid, Below g2 r x := by
    intro x
    constructor
    · rintro ⟨w, hw, hp⟩
      obtain ⟨r, hr, hb⟩ := h.below_root hpid hlisted x hw hp
      have hr2 := (hmem r).mpr hr
      exact ⟨r, hr2, (hbelow2 r hr2 x).mpr hb⟩
    · rintro ⟨r, hr, hb⟩
      have hr' := (hmem r).mp hr
      obtain ⟨w, hw, hp, -⟩ := (appWidgets_iff h hpid).mp (mem_appRoots.mp hr').1
      obtain ⟨v, hv, hvp⟩ := h.pid_of_below hw (h.root_ne_desktop hpid hr') ((hbelow2 r hr x).mp hb)
      exact ⟨v, hv, hvp.trans hp⟩
  have hr := hr.congr hD
  have hrest := (foldl_removeRoot_sameRest (appRoots g2 pid) g2)
  have hex : exitProcess g pid =
      { (appRoots g2 pid).foldl removeRoot g2 with
        exited := pid :: ((appRoots g2 pid).foldl removeRoot g2).exited } := by
    rw [exitProcess, if_neg hpid, he]
    rfl
  rw [hex]
  refine ⟨?_, ⟨hrest.next.trans hrest1.next, hrest.counter.trans hrest1.counter,
    hrest.pending.trans hrest1.pending, hrest.tabs, hrest.tabCount,
    congrArg (pid :: ·) (hrest.exited.trans hrest1.exited),
    hrest.staleReads.trans hrest1.staleReads⟩⟩
  have hr1 : Removed g1 { (appRoots g2 pid).foldl removeRoot g2 with
      exited := pid :: ((appRoots g2 pid).foldl removeRoot g2).exited } _ :=
    ⟨hr.next, hr.unallocated, hr.alloc, hr.gone, hr.keep, hr.freed, hr.sublist, hr.unregistered,
      hr.registered⟩
  rcases hg1 with rfl | ⟨c, w, hw, hp, -, rfl⟩
  · exact hr1
  · exact hr1.of_detach h.forest hw ⟨w, hw, hp⟩

theorem exit (h : Owned g) (hc : Careful g (.exit pid)) : Owned (exitProcess g pid) ∧
    (pid ≠ 0 → Gone g (exitProcess g pid) pid) := by
  by_cases hpid : pid = 0
  · rw [exitProcess, if_pos hpid]
    exact ⟨h, fun hp => absurd hpid hp⟩
  · obtain ⟨hr, hrest⟩ := h.exit_spec hpid hc
    have hpend : (exitProcess g pid).pendingWidgetDestroy = g.pendingWidgetDestroy := hrest.pending
    have hex : (exitProcess g pid).exited = pid :: g.exited := hrest.exited
    obtain ⟨hawait, hlisted⟩ := hc hpid
    refine ⟨h.removed hr ?_ ?_ (fun p => ?_) (hpend ▸ h.awaitingOnce) ?_, fun _ => ⟨?_, ?_⟩⟩
    · intro p w q hw hq ⟨v, hv, hvp⟩
      have hl := hlisted p w q hw hq ⟨v, hv, hvp⟩
      exact ⟨w, hw, (h.samePid hl (h.ne_desktop hv (hvp ▸ hpid)) hv hw).trans hvp⟩
    · rintro ⟨w, hw, hp⟩
      exact h.ne_desktop hw (hp ▸ hpid) rfl
    · rw [hpend]
      exact ⟨fun hm => ⟨hm, fun ⟨w, hw, hp⟩ => hawait p hm w hw hp⟩, And.left⟩
    · intro x w hw hd
      rw [hex, List.mem_cons, not_or]
      exact ⟨fun hp => hd ⟨w, hw, hp⟩, h.exited hw⟩
    · intro p w hw hp
      refine ⟨hr.gone ⟨w, hw, hp⟩, hr.unregistered ⟨w, hw, hp⟩, ?_, fun q hl => ?_⟩
      · rw [hpend]
        exact fun hm => hawait p hm w hw hp
      · exact (hr.lists_iff.mp hl).2.2 ⟨w, hw, hp⟩
    · intro p w hw hp
      obtain ⟨hd, v, hv, he, -⟩ := hr.of_some hw
      rw [he] at hp
      exact hd ⟨v, hv, hp⟩

end Owned

end Gui
end Hashx86
