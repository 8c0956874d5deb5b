import Hashx86.Gui.Owned

/-!
# New widgets and new links

* `Named.relink`: a step that only changes links keeps `Named`.
* `Owned.setList`: a child list grows or is reordered (`ADD_CHILD`, focus).
* `Owned.alloc`: a widget is made (`CREATE`).
* `Owned.await`: a window is taken off the screen and awaits destruction (`Window::OnClose`).
-/

namespace Hashx86
namespace Gui

/-- The part of a widget that does not change. -/
def Widget.name (w : Widget) : Kind × Nat × Nat := (w.kind, w.pid, w.id)

theorem name_eq {v w : Widget} (h : v.name = w.name) :
    v.kind = w.kind ∧ v.pid = w.pid ∧ v.id = w.id := by
  simpa [Widget.name] using h

theorem Named.relink {g g' : GuiState} (h : Named g)
    (hheap : ∀ x, (g'.heap x).map Widget.name = (g.heap x).map Widget.name)
    (hnext : g'.next = g.next) (hfreed : g'.freed = g.freed)
    (hreg : g'.hguiWidgets = g.hguiWidgets) (hex : g'.exited = g.exited) : Named g' := by
  have hback : ∀ {x w}, g'.heap x = some w → ∃ v, g.heap x = some v ∧ w.kind = v.kind ∧
      w.pid = v.pid ∧ w.id = v.id := by
    intro x w hw
    have he := hheap x
    rw [hw, Option.map_some, eq_comm, Option.map_eq_some_iff] at he
    obtain ⟨v, hv, hn⟩ := he
    exact ⟨v, hv, name_eq hn.symm⟩
  have hforth : ∀ {x v}, g.heap x = some v → ∃ w, g'.heap x = some w ∧ w.kind = v.kind ∧
      w.pid = v.pid ∧ w.id = v.id := by
    intro x v hv
    have he := hheap x
    rw [hv, Option.map_some, Option.map_eq_some_iff] at he
    obtain ⟨w, hw, hn⟩ := he
    exact ⟨w, hw, name_eq hn⟩
  refine ⟨?_, fun hw hp => ?_, fun hw => ?_, fun p hp => ?_, hfreed ▸ h.freedOnce,
    hreg ▸ h.registeredOnce, fun p hp => ?_, fun hw => ?_, fun hw hv hid h0 => ?_, fun hw h0 => ?_,
    fun hw => ?_⟩
  · obtain ⟨d, hd, hk, hpid, hid⟩ := h.desktop
    obtain ⟨w, hw, hk', hpid', hid'⟩ := hforth hd
    exact ⟨w, hw, hk'.trans hk, hpid'.trans hpid, hid'.trans hid⟩
  · obtain ⟨v, hv, hk, hpid, -⟩ := hback hw
    rw [hk, hpid]
    exact h.process hv hp
  · obtain ⟨v, hv, -⟩ := hback hw
    exact hnext ▸ h.bound hv
  · rw [hfreed] at hp
    refine ⟨hnext ▸ (h.freed p hp).1, Option.map_eq_none_iff.mp ((hheap p).trans ?_)⟩
    rw [(h.freed p hp).2, Option.map_none]
  · obtain ⟨v, hv, hk⟩ := h.registered p (hreg ▸ hp)
    obtain ⟨w, hw, hk', -⟩ := hforth hv
    exact ⟨w, hw, hk' ▸ hk⟩
  · obtain ⟨v, hv, hk, -⟩ := hback hw
    rw [hk, hreg]
    exact h.inRegistry hv
  · obtain ⟨w', hw', -, -, hi⟩ := hback hw
    obtain ⟨v', hv', -, -, hi'⟩ := hback hv
    exact h.unique hw' hv' (hi.symm.trans (hid.trans hi')) (hi ▸ h0)
  · obtain ⟨v, hv, hk, -, hi⟩ := hback hw
    rw [hk]
    exact h.zero hv (hi ▸ h0)
  · obtain ⟨v, hv, -, hpid, -⟩ := hback hw
    rw [hpid, hex]
    exact h.exited hv

namespace Owned

variable {g : GuiState}

/-- A child list that grows or is reordered. -/
theorem setList {p : Ptr} {w : Widget} {l : List Ptr} (h : Owned g) (hw : g.heap p = some w)
    (hn : l.Nodup) (hl : ∀ c ∈ l, ∃ v, g.heap c = some v ∧ v.parent = some p ∧
      (p ≠ theDesktop → v.pid = w.pid)) (hsub : w.childrenList ⊆ l) :
    Owned { g with heap := Function.update g.heap p (some { w with childrenList := l }) } := by
  let g' : GuiState :=
    { g with heap := Function.update g.heap p (some { w with childrenList := l }) }
  have hself : g'.heap p = some { w with childrenList := l } := Function.update_self _ _ _
  have hne : ∀ {x}, x ≠ p → g'.heap x = g.heap x := fun hx => Function.update_of_ne hx _ _
  have hback : ∀ {x v}, g'.heap x = some v → ∃ u, g.heap x = some u ∧ v.kind = u.kind ∧
      v.pid = u.pid ∧ v.parent = u.parent := by
    intro x v hv
    by_cases hx : x = p
    · subst hx
      rw [hself, Option.some.injEq] at hv
      exact ⟨w, hw, by rw [← hv]; exact ⟨rfl, rfl, rfl⟩⟩
    · exact ⟨v, (hne hx).symm.trans hv, rfl, rfl, rfl⟩
  have hforth : ∀ {x u}, g.heap x = some u → ∃ v, g'.heap x = some v ∧ v.kind = u.kind ∧
      v.pid = u.pid ∧ v.parent = u.parent := by
    intro x u hu
    by_cases hx : x = p
    · subst hx
      rw [hw, Option.some.injEq] at hu
      exact ⟨_, hself, by rw [← hu]; exact ⟨rfl, rfl, rfl⟩⟩
    · exact ⟨u, (hne hx).trans hu, rfl, rfl, rfl⟩
  have hlists : ∀ {q c}, Lists g' q c → q = p ∧ c ∈ l ∨ q ≠ p ∧ Lists g q c := by
    rintro q c ⟨v, hv, hc⟩
    by_cases hq : q = p
    · subst hq
      rw [hself, Option.some.injEq] at hv
      rw [← hv] at hc
      exact .inl ⟨rfl, hc⟩
    · exact .inr ⟨hq, v, (hne hq).symm.trans hv, hc⟩
  have hmono : ∀ {q c}, Lists g q c → Lists g' q c := by
    rintro q c ⟨v, hv, hc⟩
    by_cases hq : q = p
    · subst hq
      rw [hw, Option.some.injEq] at hv
      exact ⟨_, hself, hsub (hv ▸ hc)⟩
    · exact ⟨v, (hne hq).trans hv, hc⟩
  refine ⟨h.toNamed.relink (fun x => ?_) rfl rfl rfl rfl, fun hqc => ?_, fun {q v} hv => ?_,
    fun hv hq => ?_, fun hqc hq hu hv => ?_, fun hv hk => ?_, fun x => ?_, h.awaitingOnce⟩
  · by_cases hx : x = p
    · subst hx
      change (g'.heap x).map _ = _
      rw [hself, hw]
      rfl
    · exact congrArg _ (hne hx)
  · rcases hlists hqc with ⟨rfl, hc⟩ | ⟨hq, hqc⟩
    · obtain ⟨u, hu, hup, -⟩ := hl _ hc
      obtain ⟨v, hv, -, -, hp⟩ := hforth hu
      exact ⟨v, hv, hp.trans hup⟩
    · obtain ⟨u, hu, hup⟩ := h.child hqc
      obtain ⟨v, hv, -, -, hp⟩ := hforth hu
      exact ⟨v, hv, hp.trans hup⟩
  · by_cases hq : q = p
    · subst hq
      obtain rfl := Option.some.inj (hself.symm.trans hv)
      exact hn
    · exact h.nodup ((hne hq).symm.trans hv)
  · obtain ⟨u, hu, -, -, hp⟩ := hback hv
    obtain ⟨hlt, t, ht, hc⟩ := h.parent hu (hp ▸ hq)
    obtain ⟨t', ht', hk, -⟩ := hforth ht
    exact ⟨hlt, t', ht', hk ▸ hc⟩
  · obtain ⟨u', hu', -, hpu, -⟩ := hback hu
    obtain ⟨v', hv', -, hpv, -⟩ := hback hv
    rw [hpu, hpv]
    rcases hlists hqc with ⟨rfl, hc⟩ | ⟨-, hqc⟩
    · obtain ⟨t, ht, -, hpid⟩ := hl _ hc
      rw [hv', Option.some.injEq] at ht
      rw [hw, Option.some.injEq] at hu'
      rw [ht, ← hu']
      exact hpid hq
    · exact h.samePid hqc hq hu' hv'
  · obtain ⟨u, hu, hk', -⟩ := hback hv
    obtain ⟨q, hq, hqc⟩ := h.closeButton hu (hk' ▸ hk)
    exact ⟨q, hq, hmono hqc⟩
  · refine (h.awaiting x).trans (and_congr_right fun _ => ⟨fun ⟨u, hu, hup⟩ => ?_,
      fun ⟨v, hv, hvp⟩ => ?_⟩)
    · obtain ⟨v, hv, -, -, hp⟩ := hforth hu
      exact ⟨v, hv, hp.trans hup⟩
    · obtain ⟨u, hu, -, -, hp⟩ := hback hv
      exact ⟨u, hu, hp ▸ hvp⟩

theorem raise (h : Owned g) (p c : Ptr) : Owned (raise g p c) := by
  unfold Gui.raise modify
  cases hw : g.heap p with
  | none =>
    have he : Function.update g.heap p none = g.heap := by
      rw [← hw, Function.update_eq_self]
    rw [Option.map_none, he]
    exact h
  | some w =>
    rw [Option.map_some]
    by_cases hc : c ∈ w.childrenList
    · rw [if_pos hc]
      have hn := h.nodup hw
      have hl : ∀ {x}, x ∈ w.childrenList.erase c ++ [c] ↔ x ∈ w.childrenList := fun {x} => by
        rw [List.mem_append, hn.mem_erase_iff, List.mem_singleton]
        by_cases hx : x = c <;> simp [hx, hc]
      refine h.setList hw ?_ (fun x hx => ?_) fun x hx => hl.mpr hx
      · refine List.nodup_append.mpr ⟨hn.erase c, List.nodup_singleton c, fun a ha b hb => ?_⟩
        rw [List.mem_singleton.mp hb]
        exact (hn.mem_erase_iff.mp ha).1
      · have hpx : Lists g p x := ⟨w, hw, hl.mp hx⟩
        obtain ⟨v, hv, hvp⟩ := h.child hpx
        exact ⟨v, hv, hvp, fun hp => h.samePid hpx hp hw hv⟩
    · rw [if_neg hc, ← hw, Function.update_eq_self]
      exact h

/-- A child that may be added already has the container as its parent. -/
theorem addChild {p c : Ptr} {w v : Widget} (h : Owned g) (hw : g.heap p = some w)
    (hv : g.heap c = some v) (hc : c ≠ theDesktop) (hnp : c ∉ g.pendingWidgetDestroy)
    (hpid : p ≠ theDesktop → v.pid = w.pid) : Owned (addChild g p c).2 := by
  have hpar : v.parent ≠ none := fun hn => hnp ((h.awaiting c).mpr ⟨hc, v, hv, hn⟩)
  unfold Gui.addChild
  rw [hw, hv]
  dsimp only
  by_cases hp : v.parent = some p
  · rw [if_neg fun hn => hn.2 hp]
    by_cases hm : c ∈ w.childrenList
    · rw [if_pos hm]
      exact h
    · rw [if_neg hm]
      have hne : c ≠ p := (Nat.ne_of_lt (h.parent hv hp).1).symm
      have he : modify (modify g p fun w => { w with childrenList := w.childrenList ++ [c] }) c
          (fun v => { v with parent := some p }) =
          { g with
            heap := Function.update g.heap p
              (some { w with childrenList := w.childrenList ++ [c] }) } := by
        unfold modify
        dsimp only
        rw [Function.update_of_ne hne, hw, hv, Option.map_some, Option.map_some, ← hp]
        have hself : Function.update g.heap c (some v) = g.heap := by
          rw [← hv, Function.update_eq_self]
        rw [Function.update_comm hne.symm]
        change { g with heap := Function.update (Function.update g.heap c (some v)) p _ } = _
        rw [hself]
      dsimp only
      rw [he]
      refine h.setList hw ?_ (fun x hx => ?_) fun x hx => List.mem_append_left _ hx
      · exact List.nodup_append.mpr ⟨h.nodup hw, List.nodup_singleton c,
          fun a ha b hb hab => hm (List.mem_singleton.mp hb ▸ hab ▸ ha)⟩
      · rcases List.mem_append.mp hx with hx | hx
        · obtain ⟨u, hu, hup⟩ := h.child ⟨w, hw, hx⟩
          exact ⟨u, hu, hup, fun hpd => h.samePid ⟨w, hw, hx⟩ hpd hw hu⟩
        · rw [List.mem_singleton.mp hx]
          exact ⟨v, hv, hp, hpid⟩
  · rw [if_pos ⟨hpar, hp⟩]
    exact h

end Owned

theorem addTab_eq (g : GuiState) (pid : Nat) (window : Ptr) :
    ∃ t n, addTab g pid window = { g with tabs := t, tabCount := n } := by
  unfold addTab
  split
  · exact ⟨g.tabs, g.tabCount, rfl⟩
  · split
    · exact ⟨g.tabs, g.tabCount, rfl⟩
    · exact ⟨_, _, rfl⟩

theorem clickTab_eq (g : GuiState) (i : Nat) : ∃ r, clickTab g i = { g with staleReads := r } := by
  unfold clickTab
  cases g.tabs[i]? with
  | none => exact ⟨g.staleReads, rfl⟩
  | some t =>
    dsimp only
    cases g.heap t.windowWidget with
    | none => exact ⟨_, rfl⟩
    | some w =>
      dsimp only
      cases w.parent with
      | none => exact ⟨g.staleReads, rfl⟩
      | some p =>
        dsimp only
        split
        · exact ⟨_, rfl⟩
        · exact ⟨g.staleReads, rfl⟩

/-- What `ADD_CHILD` does when the widgets exist and belong to the caller. -/
theorem handleAddChild_cases (g : GuiState) (pid parentID childID : Nat) :
    handleAddChild g pid parentID childID = g ∨
    ∃ p c w v, findWidgetByID g parentID = some p ∧ findWidgetByID g childID = some c ∧
      g.heap p = some w ∧ g.heap c = some v ∧ w.kind.isComposite = true ∧ v.pid = pid ∧
      (w.id ≠ 0 → w.pid = pid) ∧ handleAddChild g pid parentID childID =
        if w.id = 0 then addTab (addChild g p c).2 v.pid c else (addChild g p c).2 := by
  unfold handleAddChild
  cases hp : findWidgetByID g parentID with
  | none => exact .inl rfl
  | some p =>
    cases hc : findWidgetByID g childID with
    | none => exact .inl rfl
    | some c =>
      obtain ⟨-, w, hw, -⟩ := findWidgetByID_spec hp
      obtain ⟨-, v, hv, -⟩ := findWidgetByID_spec hc
      dsimp only
      rw [hw, hv]
      dsimp only
      by_cases h1 : w.kind.isComposite = true
      · by_cases h2 : v.pid = pid
        · by_cases h3 : w.pid ≠ pid ∧ w.id ≠ 0
          · exact .inl (by rw [if_neg (by simp [h1]), if_neg (not_not.mpr h2), if_pos h3])
          · refine .inr ⟨p, c, w, v, rfl, rfl, hw, hv, h1, h2, fun h0 => ?_, ?_⟩
            · exact not_not.mp fun hn => h3 ⟨hn, h0⟩
            · rw [if_neg (by simp [h1]), if_neg (not_not.mpr h2), if_neg h3]
        · exact .inl (by rw [if_neg (by simp [h1]), if_pos h2])
      · exact .inl (if_pos (by simpa using h1))

theorem Owned.handleAddChild {g : GuiState} {pid parentID childID : Nat} (h : Owned g)
    (hpid : pid ≠ 0) (hc : Careful g (.addChild pid parentID childID)) :
    Owned (handleAddChild g pid parentID childID) := by
  rcases handleAddChild_cases g pid parentID childID with
    he | ⟨p, c, w, v, -, hfc, hw, hv, hcomp, hvp, hwp, he⟩
  · rw [he]
    exact h
  · have hadd : Owned (Gui.addChild g p c).2 := by
      refine h.addChild hw hv (h.ne_desktop hv (hvp ▸ hpid)) (hc c v hfc hv hvp) fun hp => ?_
      rw [hvp, hwp fun h0 => ?_]
      have hk := (h.zero hw h0).resolve_left hp
      rw [hk] at hcomp
      exact absurd hcomp (by decide)
    rw [he]
    split
    · obtain ⟨t, n, ht⟩ := addTab_eq (Gui.addChild g p c).2 v.pid c
      rw [ht]
      exact hadd.withTabs t n _
    · exact hadd

/-- A widget made below a composite: a close button goes into the list of its window, every other
widget into the registry only. -/
theorem Owned.alloc {g : GuiState} {p : Ptr} {w v : Widget} {l r : List Ptr} (h : Owned g)
    (hw : g.heap p = some w) (hcomp : w.kind.isComposite = true) (hvp : v.parent = some p)
    (hvl : v.childrenList = []) (hpid : v.pid ≠ 0) (hlive : v.pid ∉ g.exited)
    (hdesk : v.kind ≠ .desktop)
    (hkind : v.kind = .closeButton ∧ v.id = 0 ∧ r = g.hguiWidgets ∧ p ≠ theDesktop ∧
        v.pid = w.pid ∧ l = w.childrenList ++ [g.next] ∨
      v.kind ≠ .closeButton ∧ v.id ≠ 0 ∧ (∀ x u, g.heap x = some u → u.id ≠ v.id) ∧
        r = g.next :: g.hguiWidgets ∧ l = w.childrenList) (k : Nat) :
    Owned { g with
      widgetIDCounter := k
      next := g.next + 1
      heap := Function.update (Function.update g.heap p (some { w with childrenList := l })) g.next
        (some v)
      hguiWidgets := r } := by
  have hpn : p < g.next := h.bound hw
  have hfresh : g.heap g.next = none := by
    cases hx : g.heap g.next with
    | none => rfl
    | some u => exact absurd (h.bound hx) (Nat.lt_irrefl _)
  let g' : GuiState := { g with
    widgetIDCounter := k
    next := g.next + 1
    heap := Function.update (Function.update g.heap p (some { w with childrenList := l })) g.next
      (some v)
    hguiWidgets := r }
  have hnew : g'.heap g.next = some v := Function.update_self _ _ _
  have hp : g'.heap p = some { w with childrenList := l } :=
    (Function.update_of_ne (Nat.ne_of_lt hpn) _ _).trans (Function.update_self _ _ _)
  have hold : ∀ {x}, x ≠ g.next → x ≠ p → g'.heap x = g.heap x := fun hx hxp =>
    (Function.update_of_ne hx _ _).trans (Function.update_of_ne hxp _ _)
  -- an allocated widget is the new one, or an old one but for the list of `p`
  have hback : ∀ {x u}, g'.heap x = some u → x = g.next ∧ u = v ∨ x < g.next ∧
      ∃ t, g.heap x = some t ∧ u.name = t.name ∧ u.parent = t.parent := by
    intro x u hu
    by_cases hx : x = g.next
    · subst hx
      exact .inl ⟨rfl, Option.some.inj (hu.symm.trans hnew)⟩
    · right
      by_cases hxp : x = p
      · subst hxp
        rw [hp, Option.some.injEq] at hu
        exact ⟨hpn, w, hw, by rw [← hu]; exact ⟨rfl, rfl⟩⟩
      · have hu := (hold hx hxp).symm.trans hu
        exact ⟨h.bound hu, u, hu, rfl, rfl⟩
  have hforth : ∀ {x t}, g.heap x = some t → ∃ u, g'.heap x = some u ∧ u.name = t.name ∧
      u.parent = t.parent := by
    intro x t ht
    by_cases hxp : x = p
    · subst hxp
      rw [hw, Option.some.injEq] at ht
      exact ⟨_, hp, by rw [← ht]; exact ⟨rfl, rfl⟩⟩
    · exact ⟨t, (hold (Nat.ne_of_lt (h.bound ht)) hxp).trans ht, rfl, rfl⟩
  have hsub : w.childrenList ⊆ l := by
    rcases hkind with ⟨-, -, -, -, -, rfl⟩ | ⟨-, -, -, -, rfl⟩
    · exact List.subset_append_left _ _
    · exact fun _ hx => hx
  have hmono : ∀ {q c}, Lists g q c → Lists g' q c := by
    rintro q c ⟨u, hu, hc⟩
    by_cases hq : q = p
    · subst hq
      rw [hw, Option.some.injEq] at hu
      exact ⟨_, hp, hsub (hu ▸ hc)⟩
    · exact ⟨u, (hold (Nat.ne_of_lt (h.bound hu)) hq).trans hu, hc⟩
  have hlists : ∀ {q c}, Lists g' q c →
      Lists g q c ∨ q = p ∧ c = g.next ∧ p ≠ theDesktop ∧ v.pid = w.pid := by
    rintro q c ⟨u, hu, hc⟩
    by_cases hq : q = p
    · subst hq
      rw [hp, Option.some.injEq] at hu
      rw [← hu] at hc
      rcases hkind with ⟨-, -, -, hpd, hpw, rfl⟩ | ⟨-, -, -, -, rfl⟩
      · rcases List.mem_append.mp hc with hc | hc
        · exact .inl ⟨w, hw, hc⟩
        · exact .inr ⟨rfl, List.mem_singleton.mp hc, hpd, hpw⟩
      · exact .inl ⟨w, hw, hc⟩
    · by_cases hqn : q = g.next
      · subst hqn
        rw [hnew, Option.some.injEq] at hu
        rw [← hu, hvl] at hc
        exact absurd hc List.not_mem_nil
      · exact .inl ⟨u, (hold hqn hq).symm.trans hu, hc⟩
  have hlisted : ∀ {q c}, Lists g q c → c ≠ g.next := by
    rintro q c hl rfl
    obtain ⟨u, hu, -⟩ := h.child hl
    rw [hfresh] at hu
    exact absurd hu (by simp)
  have hregn : g.next ∉ g.hguiWidgets := fun hm => by
    obtain ⟨u, hu, -⟩ := h.registered _ hm
    rw [hfresh] at hu
    exact absurd hu (by simp)
  refine ⟨⟨?_, ?_, ?_, ?_, h.freedOnce, ?_, ?_, ?_, ?_, ?_, ?_⟩, ⟨?_, ?_, ?_, ?_, ?_, ?_,
    h.awaitingOnce⟩⟩
  · obtain ⟨d, hd, hk, hdp, hid⟩ := h.desktop
    obtain ⟨u, hu, hn, -⟩ := hforth hd
    obtain ⟨hk', hp', hi'⟩ := name_eq hn
    exact ⟨u, hu, hk'.trans hk, hp'.trans hdp, hi'.trans hid⟩
  · intro x u hu hx
    rcases hback hu with ⟨rfl, rfl⟩ | ⟨-, t, ht, hn, -⟩
    · exact ⟨hpid, hdesk⟩
    · obtain ⟨hk', hp', -⟩ := name_eq hn
      rw [hk', hp']
      exact h.process ht hx
  · intro x u hu
    rcases hback hu with ⟨rfl, -⟩ | ⟨hx, -⟩
    · exact Nat.lt_succ_self _
    · exact Nat.lt_succ_of_lt hx
  · intro x hx
    obtain ⟨hlt, hnone⟩ := h.freed x hx
    refine ⟨Nat.lt_succ_of_lt hlt, ?_⟩
    change g'.heap x = none
    rw [hold (Nat.ne_of_lt hlt) (fun e => by simp [e, hw] at hnone), hnone]
  · rcases hkind with ⟨-, -, rfl, -⟩ | ⟨-, -, -, rfl, -⟩
    · exact h.registeredOnce
    · exact List.nodup_cons.mpr ⟨hregn, h.registeredOnce⟩
  · have hold : ∀ x ∈ g.hguiWidgets, ∃ u, g'.heap x = some u ∧ u.kind ≠ .closeButton := by
      intro x hx
      obtain ⟨t, ht, hk⟩ := h.registered x hx
      obtain ⟨u, hu, hn, -⟩ := hforth ht
      exact ⟨u, hu, (name_eq hn).1 ▸ hk⟩
    rcases hkind with ⟨-, -, rfl, -⟩ | ⟨hk, -, -, rfl, -⟩
    · exact hold
    · exact List.forall_mem_cons.mpr ⟨⟨v, hnew, hk⟩, hold⟩
  · intro x u hu
    change _ ∨ _ ∨ x ∈ r
    rcases hback hu with ⟨rfl, rfl⟩ | ⟨-, t, ht, hn, -⟩
    · rcases hkind with ⟨hk, -⟩ | ⟨-, -, -, rfl, -⟩
      · exact .inr (.inl hk)
      · exact .inr (.inr List.mem_cons_self)
    · rw [(name_eq hn).1]
      refine (h.inRegistry ht).imp_right (Or.imp_right fun hm => ?_)
      rcases hkind with ⟨-, -, rfl, -⟩ | ⟨-, -, -, rfl, -⟩
      · exact hm
      · exact List.mem_cons_of_mem _ hm
  · intro x y u t hu ht hid h0
    have hv0 : v.id ≠ 0 → ∀ x u, g.heap x = some u → u.id ≠ v.id := by
      rcases hkind with ⟨-, hid, -⟩ | ⟨-, -, hf, -⟩
      · exact fun h0 => absurd hid h0
      · exact fun _ => hf
    rcases hback hu with ⟨rfl, rfl⟩ | ⟨-, u', hu', hn, -⟩
    · rcases hback ht with ⟨rfl, -⟩ | ⟨-, t', ht', hn', -⟩
      · rfl
      · exact absurd (hid.trans (name_eq hn').2.2).symm (hv0 h0 y t' ht')
    · rcases hback ht with ⟨rfl, rfl⟩ | ⟨-, t', ht', hn', -⟩
      · exact absurd ((name_eq hn).2.2.symm.trans hid) (hv0 (hid ▸ h0) x u' hu')
      · obtain ⟨-, -, hi⟩ := name_eq hn
        exact h.unique hu' ht' (hi.symm.trans (hid.trans (name_eq hn').2.2)) (hi ▸ h0)
  · intro x u hu h0
    rcases hback hu with ⟨rfl, rfl⟩ | ⟨-, t, ht, hn, -⟩
    · rcases hkind with ⟨hk, -⟩ | ⟨-, hid, -⟩
      · exact .inr hk
      · exact absurd h0 hid
    · obtain ⟨hk', -, hi'⟩ := name_eq hn
      rw [hk']
      exact h.zero ht (hi' ▸ h0)
  · intro x u hu
    rcases hback hu with ⟨rfl, rfl⟩ | ⟨-, t, ht, hn, -⟩
    · exact hlive
    · rw [(name_eq hn).2.1]
      exact h.exited ht
  · intro q c hl
    rcases hlists hl with hl | ⟨rfl, rfl, -⟩
    · obtain ⟨t, ht, htq⟩ := h.child hl
      obtain ⟨u, hu, -, hup⟩ := hforth ht
      exact ⟨u, hu, hup.trans htq⟩
    · exact ⟨v, hnew, hvp⟩
  · intro q u hu
    by_cases hq : q = p
    · subst hq
      obtain rfl := Option.some.inj (hp.symm.trans hu)
      rcases hkind with ⟨-, -, -, -, -, rfl⟩ | ⟨-, -, -, -, rfl⟩
      · exact List.nodup_append.mpr ⟨h.nodup hw, List.nodup_singleton _, fun a ha b hb hab =>
          hlisted ⟨w, hw, ha⟩ (hab.trans (List.mem_singleton.mp hb))⟩
      · exact h.nodup hw
    · by_cases hqn : q = g.next
      · subst hqn
        obtain rfl := Option.some.inj (hnew.symm.trans hu)
        rw [hvl]
        exact List.nodup_nil
      · exact h.nodup ((hold hqn hq).symm.trans hu)
  · intro x u q hu hq
    rcases hback hu with ⟨rfl, rfl⟩ | ⟨-, t, ht, -, hup⟩
    · rw [hvp, Option.some.injEq] at hq
      subst hq
      exact ⟨hpn, _, hp, hcomp⟩
    · obtain ⟨hlt, y, hy, hc⟩ := h.parent ht (hup ▸ hq)
      obtain ⟨z, hz, hn, -⟩ := hforth hy
      exact ⟨hlt, z, hz, (name_eq hn).1 ▸ hc⟩
  · intro q c u t hl hq hu ht
    rcases hlists hl with hl | ⟨rfl, rfl, -, hpw⟩
    · obtain ⟨u', hu', -⟩ := id hl
      obtain ⟨t', ht', -⟩ := h.child hl
      obtain ⟨z, hz, hn, -⟩ := hforth hu'
      obtain ⟨z', hz', hn', -⟩ := hforth ht'
      rw [Option.some.inj (hu.symm.trans hz), Option.some.inj (ht.symm.trans hz'),
        (name_eq hn).2.1, (name_eq hn').2.1]
      exact h.samePid hl hq hu' ht'
    · rw [Option.some.inj (ht.symm.trans hnew), Option.some.inj (hu.symm.trans hp)]
      exact hpw
  · intro x u hu hk
    rcases hback hu with ⟨rfl, rfl⟩ | ⟨-, t, ht, hn, -⟩
    · rcases hkind with ⟨-, -, -, hpd, -, rfl⟩ | ⟨hk', -⟩
      · exact ⟨p, hpd, _, hp, List.mem_append_right _ (List.mem_singleton.mpr rfl)⟩
      · exact absurd hk hk'
    · obtain ⟨q, hq, hl⟩ := h.closeButton ht ((name_eq hn).1 ▸ hk)
      exact ⟨q, hq, hmono hl⟩
  · intro x
    refine (h.awaiting x).trans (and_congr_right fun _ => ⟨fun ⟨t, ht, htp⟩ => ?_,
      fun ⟨u, hu, hup⟩ => ?_⟩)
    · obtain ⟨u, hu, -, hup⟩ := hforth ht
      exact ⟨u, hu, hup.trans htp⟩
    · rcases hback hu with ⟨rfl, rfl⟩ | ⟨-, t, ht, -, htp⟩
      · rw [hvp] at hup
        exact absurd hup (by simp)
      · exact ⟨t, ht, htp ▸ hup⟩

theorem Owned.create {g : GuiState} {pid parentID : Nat} {window copied : Bool} (h : Owned g)
    (hpid : pid ≠ 0) (hlive : pid ∉ g.exited)
    (hc : Careful g (.create pid parentID window copied)) :
    Owned (create g pid parentID window copied) := by
  obtain ⟨hid, hfresh⟩ := hc
  unfold Gui.create
  cases findWidgetByID g parentID with
  | none => exact h
  | some p =>
    dsimp only
    cases hw : g.heap p with
    | none => exact h
    | some w =>
      have hself : Function.update g.heap p (some w) = g.heap := by
        rw [← hw, Function.update_eq_self]
      have hpn : g.next ≠ p := (Nat.ne_of_lt (h.bound hw)).symm
      dsimp only
      split
      · exact h
      next hcomp =>
      have hcomp : w.kind.isComposite = true := by simpa using hcomp
      split
      · exact h
      split
      · exact h
      cases window with
      | false =>
        have ha := h.alloc (v := ⟨.control, pid, g.widgetIDCounter, some p, [], true⟩)
          (l := w.childrenList) (r := g.next :: g.hguiWidgets) hw hcomp rfl rfl hpid hlive
          (by simp) (.inr ⟨by simp, hid, hfresh, rfl, rfl⟩) ((g.widgetIDCounter + 1) % 2 ^ 32)
        change Owned { g with
          widgetIDCounter := (g.widgetIDCounter + 1) % 2 ^ 32
          next := g.next + 1
          heap := Function.update (Function.update g.heap p (some w)) g.next _
          hguiWidgets := g.next :: g.hguiWidgets } at ha
        rw [hself] at ha
        exact ha
      | true =>
        -- the window first, then its close button
        have ha := h.alloc (v := ⟨.window, pid, g.widgetIDCounter, some p, [], true⟩)
          (l := w.childrenList) (r := g.next :: g.hguiWidgets) hw hcomp rfl rfl hpid hlive
          (by simp) (.inr ⟨by simp, hid, hfresh, rfl, rfl⟩) ((g.widgetIDCounter + 1) % 2 ^ 32)
        change Owned { g with
          widgetIDCounter := (g.widgetIDCounter + 1) % 2 ^ 32
          next := g.next + 1
          heap := Function.update (Function.update g.heap p (some w)) g.next _
          hguiWidgets := g.next :: g.hguiWidgets } at ha
        rw [hself] at ha
        have hb := ha.alloc (p := g.next) (w := ⟨.window, pid, g.widgetIDCounter, some p, [], true⟩)
          (v := ⟨.closeButton, pid, 0, some g.next, [], true⟩) (l := [g.next + 1])
          (r := g.next :: g.hguiWidgets) (Function.update_self _ _ _) rfl rfl rfl hpid hlive
          (by simp) (.inl ⟨rfl, rfl, rfl, fun e => ?_, rfl, rfl⟩)
          ((g.widgetIDCounter + 1) % 2 ^ 32)
        · change Owned { g with
            widgetIDCounter := (g.widgetIDCounter + 1) % 2 ^ 32
            next := g.next + 1 + 1
            heap := Function.update (Function.update (Function.update g.heap g.next _) g.next _)
              (g.next + 1) _
            hguiWidgets := g.next :: g.hguiWidgets } at hb
          rw [Function.update_idem] at hb
          exact hb
        · exact absurd (h.bound hw) (e ▸ Nat.not_lt_zero p)

/-- A window that was taken from its parent `q` now awaits destruction. -/
theorem Owned.await {g g' : GuiState} {p q : Ptr} {w : Widget} (h : Owned g)
    (hw : g.heap p = some w) (hpd : p ≠ theDesktop) (hk : w.kind = .window)
    (hq : w.parent = some q)
    (hp : g'.heap p = some { w with parent := none, isVisible := false })
    (hsome : ∀ {x v}, x ≠ p → g.heap x = some v →
      g'.heap x = some { v with childrenList := v.childrenList.erase p })
    (hnone : ∀ {x}, g.heap x = none → g'.heap x = none) (hnext : g'.next = g.next)
    (hfreed : g'.freed = g.freed) (hreg : g'.hguiWidgets = g.hguiWidgets)
    (hex : g'.exited = g.exited)
    (hpend : g'.pendingWidgetDestroy = g.pendingWidgetDestroy ++ [p]) : Owned g' := by
  have hback : ∀ {x v}, g'.heap x = some v → ∃ u, g.heap x = some u ∧ v.name = u.name ∧
      v.childrenList.Sublist u.childrenList ∧
      (∀ c, c ∈ v.childrenList ↔ c ∈ u.childrenList ∧ c ≠ p) ∧
      (x ≠ p → v.parent = u.parent) ∧ (x = p → v.parent = none) := by
    intro x v hv
    by_cases hx : x = p
    · subst hx
      obtain rfl := Option.some.inj (hp.symm.trans hv)
      refine ⟨w, hw, rfl, .refl _, fun c => ⟨fun hc => ⟨hc, fun e => ?_⟩, And.left⟩,
        fun hn => absurd rfl hn, fun _ => rfl⟩
      exact Nat.lt_irrefl x (h.forest.child ⟨w, hw, e ▸ hc⟩).1
    · cases hu : g.heap x with
      | none => exact absurd ((hnone hu).symm.trans hv) (by simp)
      | some u =>
        obtain rfl := Option.some.inj ((hsome hx hu).symm.trans hv)
        refine ⟨u, rfl, rfl, List.erase_sublist, fun c => ?_, fun _ => rfl, fun e => absurd e hx⟩
        rw [(h.nodup hu).mem_erase_iff, and_comm]
  have hforth : ∀ {x u}, g.heap x = some u → ∃ v, g'.heap x = some v ∧ v.name = u.name ∧
      (x ≠ p → v.parent = u.parent) := by
    intro x u hu
    by_cases hx : x = p
    · subst hx
      obtain rfl := Option.some.inj (hw.symm.trans hu)
      exact ⟨_, hp, rfl, fun hn => absurd rfl hn⟩
    · exact ⟨_, hsome hx hu, rfl, fun _ => rfl⟩
  have hlists : ∀ {a b}, Lists g' a b ↔ Lists g a b ∧ b ≠ p := by
    intro a b
    constructor
    · rintro ⟨v, hv, hb⟩
      obtain ⟨u, hu, -, -, hm, -⟩ := hback hv
      exact ⟨⟨u, hu, ((hm b).mp hb).1⟩, ((hm b).mp hb).2⟩
    · rintro ⟨⟨u, hu, hb⟩, hbp⟩
      obtain ⟨v, hv, -⟩ := hforth hu
      obtain ⟨u', hu', -, -, hm, -⟩ := hback hv
      obtain rfl := Option.some.inj (hu.symm.trans hu')
      exact ⟨v, hv, (hm b).mpr ⟨hb, hbp⟩⟩
  refine ⟨h.toNamed.relink (fun x => ?_) hnext hfreed hreg hex, fun hab => ?_, fun hv => ?_,
    fun {x _ _} hv hvq => ?_, fun hab ha hu hv => ?_, fun hv hvk => ?_, fun x => ?_, ?_⟩
  · cases hu : g.heap x with
    | none => rw [hnone hu]
    | some u =>
      obtain ⟨v, hv, hn, -⟩ := hforth hu
      rw [hv, Option.map_some, Option.map_some, hn]
  · obtain ⟨hab, hb⟩ := hlists.mp hab
    obtain ⟨u, hu, hup⟩ := h.child hab
    obtain ⟨v, hv, -, hvp⟩ := hforth hu
    exact ⟨v, hv, (hvp hb).trans hup⟩
  · obtain ⟨u, hu, -, hs, -⟩ := hback hv
    exact (h.nodup hu).sublist hs
  · obtain ⟨u, hu, -, -, -, hne, heq⟩ := hback hv
    by_cases hx : x = p
    · rw [heq hx] at hvq
      exact absurd hvq (by simp)
    · obtain ⟨hlt, t, ht, hc⟩ := h.parent hu ((hne hx).symm.trans hvq)
      obtain ⟨t', ht', hn, -⟩ := hforth ht
      exact ⟨hlt, t', ht', (name_eq hn).1 ▸ hc⟩
  · obtain ⟨u', hu', hn, -⟩ := hback hu
    obtain ⟨v', hv', hn', -⟩ := hback hv
    rw [(name_eq hn).2.1, (name_eq hn').2.1]
    exact h.samePid (hlists.mp hab).1 ha hu' hv'
  · obtain ⟨u, hu, hn, -⟩ := hback hv
    have hk' := (name_eq hn).1.symm.trans hvk
    obtain ⟨a, ha, hab⟩ := h.closeButton hu hk'
    refine ⟨a, ha, hlists.mpr ⟨hab, ?_⟩⟩
    rintro rfl
    rw [Option.some.inj (hu.symm.trans hw), hk] at hk'
    exact absurd hk' (by decide)
  · rw [hpend, List.mem_append, List.mem_singleton, h.awaiting]
    constructor
    · rintro (⟨hx, u, hu, hup⟩ | rfl)
      · have hxp : x ≠ p := by
          rintro rfl
          rw [Option.some.inj (hu.symm.trans hw), hq] at hup
          exact absurd hup (by simp)
        obtain ⟨v, hv, -, hvp⟩ := hforth hu
        exact ⟨hx, v, hv, (hvp hxp).trans hup⟩
      · exact ⟨hpd, _, hp, rfl⟩
    · rintro ⟨hx, v, hv, hvp⟩
      obtain ⟨u, hu, -, -, -, hne, -⟩ := hback hv
      by_cases hxp : x = p
      · exact .inr hxp
      · exact .inl ⟨hx, u, hu, (hne hxp).symm.trans hvp⟩
  · rw [hpend]
    refine List.nodup_append.mpr ⟨h.awaitingOnce, List.nodup_singleton p, fun a ha b hb hab => ?_⟩
    obtain ⟨-, u, hu, hup⟩ := (h.awaiting a).mp ha
    rw [hab, List.mem_singleton.mp hb, hw, Option.some.injEq] at hu
    rw [← hu, hq] at hup
    exact absurd hup (by simp)

/-- A widget on the screen that is not the desktop is listed by its parent. -/
theorem listed_of_onScreen {g : GuiState} {n : Nat} {p : Ptr} (h : onScreen n g p = true)
    (hp : p ≠ theDesktop) : ∃ w q, g.heap p = some w ∧ w.parent = some q ∧ Lists g q p := by
  cases n with
  | zero => exact absurd h (by simp [onScreen])
  | succ n =>
    rw [onScreen] at h
    cases hw : g.heap p with
    | none => simp [hw] at h
    | some w =>
      cases hq : w.parent with
      | none => simp [hw, hq, hp] at h
      | some q =>
        simp only [hw, hq, beq_eq_false_iff_ne.mpr hp, Bool.false_or, Bool.and_eq_true,
          any_lists] at h
        exact ⟨w, q, rfl, hq, h.2.1⟩

theorem Forest.hide {g : GuiState} {p : Ptr} {w : Widget} (h : Forest g) (hw : g.heap p = some w) :
    Forest (modify g p fun win => { win with isVisible := false }) := by
  have hself : (modify g p fun win => { win with isVisible := false }).heap p =
      some { w with isVisible := false } := by
    rw [modify_heap_self, hw, Option.map_some]
  have hback : ∀ {x v}, (modify g p fun win => { win with isVisible := false }).heap x = some v →
      ∃ u, g.heap x = some u ∧ v.childrenList = u.childrenList := by
    intro x v hv
    by_cases hx : x = p
    · subst hx
      obtain rfl := Option.some.inj (hself.symm.trans hv)
      exact ⟨w, hw, rfl⟩
    · exact ⟨v, (modify_heap_of_ne g _ hx).symm.trans hv, rfl⟩
  refine ⟨fun {q c} ⟨v, hv, hc⟩ => ?_, fun hv => ?_, fun hv => ?_, h.registry⟩
  · obtain ⟨u, hu, he⟩ := hback hv
    obtain ⟨hlt, t, ht, htp⟩ := h.child ⟨u, hu, he ▸ hc⟩
    refine ⟨hlt, ?_⟩
    by_cases hx : c = p
    · subst hx
      rw [hw, Option.some.injEq] at ht
      exact ⟨_, hself, ht ▸ htp⟩
    · exact ⟨t, (modify_heap_of_ne g _ hx).trans ht, htp⟩
  · obtain ⟨u, hu, he⟩ := hback hv
    rw [he]
    exact h.nodup hu
  · obtain ⟨u, hu, -⟩ := hback hv
    exact h.bound hu

theorem Owned.close {g : GuiState} (h : Owned g) (p : Ptr) (posted : Bool) :
    Owned (onClose g p posted) := by
  unfold onClose
  cases hw : g.heap p with
  | none => exact h
  | some w =>
    dsimp only
    split
    · exact h
    next hc =>
    split
    · exact h
    rw [not_or, not_not, Bool.not_eq_true', Bool.not_eq_false] at hc
    obtain ⟨hk, hon⟩ := hc
    have hpd : p ≠ theDesktop := by
      rintro rfl
      obtain ⟨d, hd, hdk, -⟩ := h.desktop
      rw [hw, Option.some.injEq] at hd
      rw [hd, hdk] at hk
      exact absurd hk (by decide)
    obtain ⟨w', q, hw', hq, hl⟩ := listed_of_onScreen hon hpd
    rw [hw, Option.some.injEq] at hw'
    subst hw'
    rw [hq]
    dsimp only
    have hqp : q ≠ p := Nat.ne_of_lt (h.parent hw hq).1
    have hl1 : Lists (modify g p fun win => { win with isVisible := false }) q p := by
      obtain ⟨u, hu, hm⟩ := hl
      exact ⟨u, (modify_heap_of_ne g _ hqp).trans hu, hm⟩
    obtain ⟨u, w1, hu, hw1, -, he⟩ := removeChild_spec (h.forest.hide hw) hl1
    rw [modify_heap_of_ne g _ hqp] at hu
    rw [modify_heap_self, hw, Option.map_some, Option.some.injEq] at hw1
    subst hw1
    rw [he]
    refine h.await hw hpd hk hq (Function.update_self _ _ _) (fun {x v} hx hv => ?_)
      (fun {x} hx => ?_) rfl rfl rfl rfl rfl
    · dsimp only
      rw [Function.update_of_ne hx]
      by_cases hxq : x = q
      · subst hxq
        obtain rfl := Option.some.inj (hu.symm.trans hv)
        rw [Function.update_self]
      · rw [Function.update_of_ne hxq, modify_heap_of_ne g _ hx, hv,
          List.erase_of_not_mem fun hm => hxq (h.forest.parent_unique ⟨v, hv, hm⟩ hl)]
    · dsimp only
      have hxp : x ≠ p := fun e => by simp [e, hw] at hx
      have hxq : x ≠ q := fun e => by simp [e, hu] at hx
      rw [Function.update_of_ne hxp, Function.update_of_ne hxq, modify_heap_of_ne g _ hxp, hx]

end Gui
end Hashx86
