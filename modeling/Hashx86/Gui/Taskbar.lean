import Hashx86.Gui.Ownership
import Mathlib.Data.List.Dedup

/-!
# The tabs of the taskbar (`gui/taskbar.cpp`)

* `Served`: each tab refers to an allocated window of a live process, there are at most ten tabs,
  each process on the desktop has one while fewer than ten processes are there, and no click on a
  tab has read a freed widget.
* `Tabbed`: the invariant behind it. The tab of a process is for a window of its own.
* `TabSafe`: the condition on a step. A tab goes only with the last window of its process, and no
  window is freed that has a tab.
* `served_along`: the tabs are right after each step that is careful and safe for them.
* `button_takes_tab`: the deletion of a button takes the tab of its window away.
-/

namespace Hashx86
namespace Gui

open Lib

/-- The processes with a window in the child list of the desktop. -/
def processesShown (g : GuiState) : List Nat :=
  ((((g.heap theDesktop).map (·.childrenList)).getD []).filterMap fun c =>
    (g.heap c).bind fun w => if w.kind = .window then some w.pid else none).dedup

structure Served (g : GuiState) : Prop where
  window : ∀ t ∈ g.tabs, ∃ w, g.heap t.windowWidget = some w ∧ w.kind = .window ∧ w.pid ∉ g.exited
  count : g.tabCount = g.tabs.length ∧ g.tabCount ≤ taskbarTabMaxTabs
  shown : ((processesShown g).length : Int) < taskbarTabMaxTabs →
    ∀ pid ∈ processesShown g, ∃ t ∈ g.tabs, t.pid = pid
  stale : g.staleReads = []

def TabSafe (g : GuiState) : GuiOp → Prop
  | .addChild pid parentID childID => ∀ p w c v, findWidgetByID g parentID = some p →
    g.heap p = some w → w.id = 0 → findWidgetByID g childID = some c → g.heap c = some v →
    v.pid = pid → (∃ t ∈ g.tabs, t.pid = pid) ∨ v.kind = .window ∧ g.tabCount < taskbarTabMaxTabs
  | .delete pid id => ∀ t w, findWidgetByID g id = some t → g.heap t = some w → w.pid = pid →
    ∀ u ∈ g.tabs,
      (Below g t u.windowWidget → enclosingWindow g.next g t = some u.windowWidget) ∧
      (enclosingWindow g.next g t = some u.windowWidget →
        ∀ c v, Lists g theDesktop c → g.heap c = some v → v.pid = u.pid → c = t)
  | .drain => ∀ u ∈ g.tabs, ∀ p ∈ g.pendingWidgetDestroy, ¬ Below g p u.windowWidget
  | _ => True

structure Tabbed (g : GuiState) : Prop where
  window : ∀ t ∈ g.tabs, ∃ w, g.heap t.windowWidget = some w ∧ w.kind = .window ∧ w.pid = t.pid
  once : (g.tabs.map (·.pid)).Nodup
  count : g.tabCount = g.tabs.length
  bounded : g.tabCount ≤ taskbarTabMaxTabs
  shown : ∀ {c w}, Lists g theDesktop c → g.heap c = some w → ∃ t ∈ g.tabs, t.pid = w.pid
  stale : g.staleReads = []

theorem mem_processesShown {g : GuiState} {pid : Nat} (h : pid ∈ processesShown g) :
    ∃ c w, Lists g theDesktop c ∧ g.heap c = some w ∧ w.pid = pid := by
  rw [processesShown, List.mem_dedup, List.mem_filterMap] at h
  obtain ⟨c, hc, hw⟩ := h
  obtain ⟨w, hw, hpid⟩ := Option.bind_eq_some_iff.mp hw
  cases hd : g.heap theDesktop with
  | none =>
    rw [hd] at hc
    exact absurd hc List.not_mem_nil
  | some d =>
    rw [hd] at hc
    split at hpid
    · exact ⟨c, w, ⟨d, hd, hc⟩, hw, Option.some.inj hpid⟩
    · exact absurd hpid (by simp)

/-- Of elements with distinct keys, `eraseP` removes all that satisfy a predicate on the key. -/
theorem mem_eraseP_iff {α β : Type} {f : α → β} {p : α → Bool} {l : List α}
    (hn : (l.map f).Nodup) (hp : ∀ a ∈ l, ∀ b ∈ l, p a → p b → f a = f b) (x : α) :
    x ∈ l.eraseP p ↔ x ∈ l ∧ ¬ p x := by
  induction l with
  | nil => simp
  | cons a l ih =>
    rw [List.map_cons, List.nodup_cons] at hn
    by_cases ha : p a
    · rw [List.eraseP_cons_of_pos ha, List.mem_cons]
      refine ⟨fun hx => ⟨.inr hx, fun hpx => hn.1 ?_⟩, fun ⟨hx, hpx⟩ => ?_⟩
      · rw [hp a List.mem_cons_self x (List.mem_cons_of_mem a hx) ha hpx]
        exact List.mem_map_of_mem hx
      · exact hx.resolve_left fun e => hpx (e ▸ ha)
    · rw [List.eraseP_cons_of_neg ha, List.mem_cons, List.mem_cons,
        ih hn.2 fun a ha b hb => hp a (List.mem_cons_of_mem _ ha) b (List.mem_cons_of_mem _ hb)]
      refine ⟨fun hx => hx.elim (fun e => ⟨.inl e, e ▸ ha⟩) fun hx => ⟨.inr hx.1, hx.2⟩, ?_⟩
      exact fun ⟨hx, hpx⟩ => hx.imp_right fun hx => ⟨hx, hpx⟩

theorem removeTab_tabs (g : GuiState) (found : TaskbarTab → Bool) :
    (removeTab g found).tabs = g.tabs.eraseP found := by
  unfold removeTab
  split
  · rfl
  · next h =>
    rw [List.eraseP_of_forall_not fun t ht hf => h (List.any_eq_true.mpr ⟨t, ht, hf⟩)]

theorem removeTab_count {g : GuiState} (h : g.tabCount = g.tabs.length)
    (found : TaskbarTab → Bool) : (removeTab g found).tabCount = (g.tabs.eraseP found).length := by
  unfold removeTab
  split
  · next ha =>
    obtain ⟨t, ht, hf⟩ := List.any_eq_true.mp ha
    have hpos := List.length_pos_of_mem ht
    rw [List.length_eraseP_of_mem ht hf]
    dsimp only
    omega
  · next hn =>
    rw [List.eraseP_of_forall_not fun t ht hf => hn (List.any_eq_true.mpr ⟨t, ht, hf⟩), h]

theorem removeTab_none (g : GuiState) : removeTab g (fun _ => false) = g := if_neg (by simp)

theorem modify_name {g : GuiState} {p : Ptr} {f : Widget → Widget}
    (hf : ∀ w, (f w).name = w.name) {x : Ptr} {v : Widget} (hv : g.heap x = some v) :
    ∃ w, (modify g p f).heap x = some w ∧ w.name = v.name := by
  by_cases hx : x = p
  · subst hx
    exact ⟨f v, by rw [modify_heap_self, hv, Option.map_some], hf v⟩
  · exact ⟨v, (modify_heap_of_ne g f hx).trans hv, rfl⟩

theorem modify_lists {g : GuiState} {p : Ptr} {f : Widget → Widget} {q c : Ptr}
    (hf : ∀ w, c ∈ (f w).childrenList → c ∈ w.childrenList) (h : Lists (modify g p f) q c) :
    Lists g q c := by
  obtain ⟨w, hw, hc⟩ := h
  by_cases hq : q = p
  · subst hq
    rw [modify_heap_self, Option.map_eq_some_iff] at hw
    obtain ⟨v, hv, rfl⟩ := hw
    exact ⟨v, hv, hf v hc⟩
  · exact ⟨w, (modify_heap_of_ne g f hq).symm.trans hw, hc⟩

theorem removeChild_name {g : GuiState} {p c x : Ptr} {v : Widget} (hv : g.heap x = some v) :
    ∃ w, (removeChild g p c).heap x = some w ∧ w.name = v.name := by
  unfold removeChild
  split
  · obtain ⟨u, hu, hn⟩ := modify_name (p := p)
      (f := fun w => { w with childrenList := w.childrenList.erase c }) (fun _ => rfl) hv
    obtain ⟨w, hw, hn'⟩ := modify_name (p := c)
      (f := fun v => if v.parent = some p then { v with parent := none } else v)
      (fun w => by split <;> rfl) hu
    exact ⟨w, hw, hn'.trans hn⟩
  · exact ⟨v, hv, rfl⟩

theorem removeChild_lists {g : GuiState} {p c q d : Ptr} (h : Lists (removeChild g p c) q d) :
    Lists g q d := by
  unfold removeChild at h
  split at h
  · exact modify_lists (fun _ => List.mem_of_mem_erase)
      (modify_lists (fun w => by split <;> exact id) h)
  · exact h

namespace Tabbed

variable {g g' : GuiState}

theorem served (h : Tabbed g) (ho : Owned g) : Served g where
  window := fun t ht => by
    obtain ⟨w, hw, hk, -⟩ := h.window t ht
    exact ⟨w, hw, hk, ho.exited hw⟩
  count := ⟨h.count, h.bounded⟩
  shown := fun _ pid hp => by
    obtain ⟨c, w, hl, hw, rfl⟩ := mem_processesShown hp
    exact h.shown hl hw
  stale := h.stale

theorem init : Tabbed .init where
  window := fun t ht => absurd ht List.not_mem_nil
  once := List.nodup_nil
  count := rfl
  bounded := by decide
  shown := fun ⟨w, hw, hc⟩ _ => by
    obtain rfl : _ = w := Option.some.inj hw
    exact absurd hc List.not_mem_nil
  stale := rfl

/-- Widgets are added or relinked, and the desktop lists nothing new. -/
theorem relink (h : Tabbed g) (ho : Owned g)
    (hheap : ∀ {x v}, g.heap x = some v → ∃ w, g'.heap x = some w ∧ w.name = v.name)
    (hl : ∀ {c}, Lists g' theDesktop c → Lists g theDesktop c) (htabs : g'.tabs = g.tabs)
    (hcount : g'.tabCount = g.tabCount) (hstale : g'.staleReads = g.staleReads) : Tabbed g' where
  window := fun t ht => by
    obtain ⟨v, hv, hk, hp⟩ := h.window t (htabs ▸ ht)
    obtain ⟨w, hw, hn⟩ := hheap hv
    obtain ⟨hk', hp', -⟩ := name_eq hn
    exact ⟨w, hw, hk'.trans hk, hp'.trans hp⟩
  once := htabs ▸ h.once
  count := by rw [hcount, htabs, h.count]
  bounded := hcount ▸ h.bounded
  shown := fun {c w} hc hw => by
    obtain ⟨v, hv, -⟩ := ho.child (hl hc)
    obtain ⟨w', hw', hn⟩ := hheap hv
    rw [hw, Option.some.injEq] at hw'
    rw [hw', (name_eq hn).2.1, htabs]
    exact h.shown (hl hc) hv
  stale := hstale.trans h.stale

/-- Widgets are removed and some tabs with them: none that still has its window gets lost. -/
theorem removed {D : Ptr → Prop} {f : TaskbarTab → Bool} (h : Tabbed g)
    (hr : Removed g g' D) (htabs : g'.tabs = (removeTab g f).tabs)
    (hcount : g'.tabCount = (removeTab g f).tabCount) (hstale : g'.staleReads = g.staleReads)
    (hfound : ∀ a ∈ g.tabs, ∀ b ∈ g.tabs, f a → f b → a.pid = b.pid)
    (hwin : ∀ t ∈ g.tabs, D t.windowWidget → f t)
    (hshown : ∀ t ∈ g.tabs, f t → ∀ c v, Lists g theDesktop c → g.heap c = some v →
      v.pid = t.pid → D c) : Tabbed g' := by
  have hmem : ∀ t, t ∈ g'.tabs ↔ t ∈ g.tabs ∧ ¬ f t := by
    rw [htabs, removeTab_tabs]
    exact mem_eraseP_iff h.once hfound
  have hlen : g'.tabCount = g'.tabs.length := by
    rw [hcount, removeTab_count h.count, htabs, removeTab_tabs]
  refine ⟨fun t ht => ?_, ?_, hlen, ?_, fun {c w} hc hw => ?_, hstale.trans h.stale⟩
  · obtain ⟨ht, hf⟩ := (hmem t).mp ht
    obtain ⟨w, hw, hk, hp⟩ := h.window t ht
    obtain ⟨l, hl, -⟩ := hr.keep (fun hd => hf (hwin t ht hd)) hw
    exact ⟨_, hl, hk, hp⟩
  · rw [htabs, removeTab_tabs]
    exact h.once.sublist (List.eraseP_sublist.map _)
  · have hle : (g'.tabs.length : Int) ≤ g.tabs.length := by
      rw [htabs, removeTab_tabs]
      exact Int.ofNat_le.mpr List.eraseP_sublist.length_le
    rw [hlen]
    exact Int.le_trans hle (h.count ▸ h.bounded)
  · obtain ⟨hl, -, hd⟩ := hr.lists_iff.mp hc
    obtain ⟨-, v, hv, he, -⟩ := hr.of_some hw
    obtain ⟨t, ht, hp⟩ := h.shown hl hv
    refine ⟨t, (hmem t).mpr ⟨ht, fun hf => hd (hshown t ht hf c v hl hv hp.symm)⟩, ?_⟩
    rw [he]
    exact hp

theorem delete {pid id : Nat} (h : Tabbed g) (ho : Owned g) (hc : TabSafe g (.delete pid id)) :
    Tabbed (handleDelete g pid id) := by
  rcases handleDelete_spec ho pid id with he | ⟨t, w, ht, hw, hp, hr, hrest⟩
  · rw [he]
    exact h
  · have hc := hc t w ht hw hp
    have hdrop : dropTab g t =
        removeTab g fun u => decide (enclosingWindow g.next g t = some u.windowWidget) := by
      unfold dropTab
      cases enclosingWindow g.next g t with
      | none => simp [removeTab_none]
      | some win =>
        refine congrArg (removeTab g) (funext fun u => ?_)
        exact Bool.eq_iff_iff.mpr
          (by rw [beq_iff_eq, decide_eq_true_iff, Option.some.injEq, eq_comm])
    refine h.removed hr (hdrop ▸ hrest.tabs) (hdrop ▸ hrest.tabCount)
      (hrest.staleReads.trans (by rw [dropTab_eq])) (fun a ha b hb hfa hfb => ?_)
      (fun u hu hd => decide_eq_true ((hc u hu).1 hd))
      fun u hu hf c v hl hv hpid => (hc u hu).2 (of_decide_eq_true hf) c v hl hv hpid ▸ .refl
    -- two tabs for one window would be of one process
    obtain ⟨va, hva, -, hpa⟩ := h.window a ha
    obtain ⟨vb, hvb, -, hpb⟩ := h.window b hb
    have hab := (of_decide_eq_true hfa).symm.trans (of_decide_eq_true hfb)
    rw [Option.some.inj hab, hvb, Option.some.injEq] at hva
    rw [← hpa, ← hpb, hva]

theorem drain (h : Tabbed g) (ho : Owned g) (hc : TabSafe g .drain) : Tabbed (drain g) := by
  have hrest := drain_sameRest g
  refine h.removed (f := fun _ => false) (drain_removed ho) ?_ ?_ hrest.staleReads
    (fun _ _ _ _ hf => absurd hf (by simp)) (fun t ht ⟨p, hp, hb⟩ => absurd hb (hc t ht p hp))
    fun _ _ hf => absurd hf (by simp)
  · rw [removeTab_none]
    exact hrest.tabs
  · rw [removeTab_none]
    exact hrest.tabCount

theorem exit {pid : Nat} (h : Tabbed g) (ho : Owned g) (hc : Careful g (.exit pid)) :
    Tabbed (exitProcess g pid) := by
  by_cases hpid : pid = 0
  · rw [exitProcess, if_pos hpid]
    exact h
  · obtain ⟨hr, hrest⟩ := ho.exit_spec hpid hc
    refine h.removed hr hrest.tabs hrest.tabCount hrest.staleReads
      (fun a _ b _ hfa hfb => (beq_iff_eq.mp hfa).trans (beq_iff_eq.mp hfb).symm)
      (fun t ht hd => ?_) fun t _ hf c v _ hv hp => ⟨v, hv, hp.trans (beq_iff_eq.mp hf)⟩
    obtain ⟨w, hw, hp⟩ := hd
    obtain ⟨v, hv, -, hvp⟩ := h.window t ht
    rw [hw, Option.some.injEq] at hv
    exact beq_iff_eq.mpr (hvp.symm.trans (hv ▸ hp))

theorem clickTab (h : Tabbed g) (ho : Owned g) (i : Nat) : clickTab g i = g := by
  unfold Gui.clickTab
  cases ht : g.tabs[i]? with
  | none => rfl
  | some t =>
    obtain ⟨w, hw, -⟩ := h.window t (List.mem_of_getElem? ht)
    dsimp only
    rw [hw]
    dsimp only
    cases hq : w.parent with
    | none => rfl
    | some q =>
      obtain ⟨-, v, hv, -⟩ := ho.parent hw hq
      exact if_neg (by simp [hv])

theorem raise (h : Tabbed g) (ho : Owned g) (p c : Ptr) : Tabbed (raise g p c) := by
  refine h.relink ho (modify_name fun w => by split <;> rfl) (fun hl => modify_lists ?_ hl) rfl rfl
    rfl
  intro w hx
  split at hx
  · next hc =>
    rcases List.mem_append.mp hx with hx | hx
    · exact List.mem_of_mem_erase hx
    · rwa [List.mem_singleton.mp hx]
  · exact hx

theorem close (h : Tabbed g) (ho : Owned g) (p : Ptr) (posted : Bool) :
    Tabbed (onClose g p posted) := by
  unfold onClose
  cases g.heap p with
  | none => exact h
  | some w =>
    dsimp only
    split
    · exact h
    split
    · exact h
    have hhide : ∀ {x v}, g.heap x = some v → ∃ u, (modify g p fun win =>
        { win with isVisible := false }).heap x = some u ∧ u.name = v.name :=
      modify_name (f := fun win => { win with isVisible := false }) fun _ => rfl
    cases w.parent with
    | none => exact h.relink ho hhide (modify_lists fun _ => id) rfl rfl rfl
    | some q =>
      dsimp only
      have hrest := removeChild_sameRest (modify g p fun win => { win with isVisible := false }) q p
      refine h.relink ho (fun hv => ?_) (fun {d} hl => ?_) hrest.tabs hrest.tabCount
        hrest.staleReads
      · obtain ⟨u, hu, hn⟩ := hhide hv
        obtain ⟨t, ht, hn'⟩ := removeChild_name (p := q) (c := p) hu
        exact ⟨t, ht, hn'.trans hn⟩
      · have hl : Lists (removeChild (modify g p fun win => { win with isVisible := false }) q p)
          theDesktop d := hl
        exact modify_lists (f := fun win => { win with isVisible := false }) (fun _ => id)
          (removeChild_lists hl)

theorem create (h : Tabbed g) (ho : Owned g) (pid parentID : Nat) (window copied : Bool) :
    Tabbed (create g pid parentID window copied) := by
  have hne : theDesktop ≠ g.next := by
    obtain ⟨d, hd, -⟩ := ho.desktop
    exact Nat.ne_of_lt (ho.bound hd)
  have hold : ∀ {x v}, g.heap x = some v → x ≠ g.next ∧ x ≠ g.next + 1 := fun hv =>
    ⟨Nat.ne_of_lt (ho.bound hv), Nat.ne_of_lt (Nat.lt_succ_of_lt (ho.bound hv))⟩
  have hdesk : theDesktop ≠ g.next + 1 := Nat.ne_of_lt (Nat.succ_pos _)
  unfold Gui.create
  cases findWidgetByID g parentID with
  | none => exact h
  | some p =>
    dsimp only
    cases g.heap p with
    | none => exact h
    | some w =>
      dsimp only
      split
      · exact h
      split
      · exact h
      split
      · exact h
      split
      · refine h.relink ho (fun {x v} hv => ⟨v, ?_, rfl⟩) (fun ⟨v, hv, hc⟩ => ⟨v, ?_, hc⟩) rfl rfl
          rfl
        · dsimp only
          rw [Function.update_of_ne (hold hv).2, Function.update_of_ne (hold hv).1, hv]
        · dsimp only at hv
          rwa [Function.update_of_ne hdesk, Function.update_of_ne hne] at hv
      · refine h.relink ho (fun {x v} hv => ⟨v, ?_, rfl⟩) (fun ⟨v, hv, hc⟩ => ⟨v, ?_, hc⟩) rfl rfl
          rfl
        · dsimp only
          rw [Function.update_of_ne (hold hv).1, hv]
        · dsimp only at hv
          rwa [Function.update_of_ne hne] at hv

/-- `ADD_CHILD`: a tab is added, or the process has one, or nothing was added to the desktop. -/
theorem handleAddChild {pid parentID childID : Nat} (h : Tabbed g) (ho : Owned g)
    (hc : TabSafe g (.addChild pid parentID childID)) :
    Tabbed (handleAddChild g pid parentID childID) := by
  rcases handleAddChild_cases g pid parentID childID with
    he | ⟨p, c, w, v, hfp, hfc, hw, hv, -, hvp, -, he⟩
  · rw [he]
    exact h
  · have hc := fun h0 => hc p w c v hfp hw h0 hfc hv hvp
    have hrest : SameRest g (Gui.addChild g p c).2 := by
      unfold Gui.addChild
      rw [hw, hv]
      dsimp only
      split
      · exact .refl g
      split
      · exact .refl g
      · exact ⟨rfl, rfl, rfl, rfl, rfl, rfl, rfl⟩
    have hname : ∀ {x u}, g.heap x = some u →
        ∃ t, (Gui.addChild g p c).2.heap x = some t ∧ t.name = u.name := by
      intro x u hu
      unfold Gui.addChild
      rw [hw, hv]
      dsimp only
      split
      · exact ⟨u, hu, rfl⟩
      split
      · exact ⟨u, hu, rfl⟩
      · obtain ⟨t, ht, hn⟩ := modify_name (p := p)
          (f := fun w => { w with childrenList := w.childrenList ++ [c] }) (fun _ => rfl) hu
        obtain ⟨t', ht', hn'⟩ := modify_name (p := c)
          (f := fun v => { v with parent := some p }) (fun _ => rfl) ht
        exact ⟨t', ht', hn'.trans hn⟩
    have hlists : ∀ {d}, Lists (Gui.addChild g p c).2 theDesktop d →
        Lists g theDesktop d ∨ p = theDesktop ∧ d = c := by
      intro d hl
      unfold Gui.addChild at hl
      rw [hw, hv] at hl
      dsimp only at hl
      split at hl
      · exact .inl hl
      split at hl
      · exact .inl hl
      · by_cases hd : p = theDesktop ∧ d = c
        · exact .inr hd
        · refine .inl ?_
          obtain ⟨u, hu, hm⟩ :=
            modify_lists (f := fun v => { v with parent := some p }) (fun _ => id) hl
          by_cases hp : theDesktop = p
          · rw [hp, modify_heap_self, hw, Option.map_some, Option.some.injEq] at hu
            rw [← hu] at hm
            rcases List.mem_append.mp hm with hm | hm
            · exact ⟨w, hp ▸ hw, hm⟩
            · exact absurd ⟨hp.symm, List.mem_singleton.mp hm⟩ hd
          · rw [modify_heap_of_ne g _ hp] at hu
            exact ⟨u, hu, hm⟩
    rw [he]
    split
    · next h0 =>
      have hwin : ∀ t ∈ g.tabs, ∃ u, (Gui.addChild g p c).2.heap t.windowWidget = some u ∧
          u.kind = .window ∧ u.pid = t.pid := by
        intro t ht
        obtain ⟨u, hu, hk, hp⟩ := h.window t ht
        obtain ⟨u', hu', hn⟩ := hname hu
        exact ⟨u', hu', (name_eq hn).1.trans hk, (name_eq hn).2.1.trans hp⟩
      -- what the desktop lists had a tab, or is the child
      have hshown : ∀ {d u}, Lists (Gui.addChild g p c).2 theDesktop d →
          (Gui.addChild g p c).2.heap d = some u →
          (∃ t ∈ g.tabs, t.pid = u.pid) ∨ u.pid = v.pid := by
        intro d u hl hu
        rcases hlists hl with hl | ⟨-, rfl⟩
        · obtain ⟨y, hy, -⟩ := ho.child hl
          obtain ⟨u', hu', hn⟩ := hname hy
          obtain rfl := Option.some.inj (hu.symm.trans hu')
          rw [(name_eq hn).2.1]
          exact .inl (h.shown hl hy)
        · obtain ⟨u', hu', hn⟩ := hname hv
          obtain rfl := Option.some.inj (hu.symm.trans hu')
          exact .inr (name_eq hn).2.1
      by_cases hex : ∃ t ∈ g.tabs, t.pid = v.pid
      · have hadd : addTab (Gui.addChild g p c).2 v.pid c = (Gui.addChild g p c).2 := by
          unfold addTab
          split
          · rfl
          · obtain ⟨t, ht, hp⟩ := hex
            have ht : t ∈ (Gui.addChild g p c).2.tabs := hrest.tabs ▸ ht
            rw [if_pos]
            exact List.any_eq_true.mpr ⟨t, ht, beq_iff_eq.mpr hp⟩
        rw [hadd]
        refine ⟨fun t ht => hwin t (hrest.tabs ▸ ht), hrest.tabs ▸ h.once, ?_,
          hrest.tabCount ▸ h.bounded, fun hl hu => ?_, hrest.staleReads.trans h.stale⟩
        · rw [hrest.tabCount, hrest.tabs, h.count]
        · rw [hrest.tabs]
          exact (hshown hl hu).elim id fun hp => hp ▸ hex
      · obtain ⟨hk, hlt⟩ := (hc h0).resolve_left fun he => hex (hvp ▸ he)
        have hadd : addTab (Gui.addChild g p c).2 v.pid c =
            { (Gui.addChild g p c).2 with
              tabs := ⟨v.pid, c⟩ :: g.tabs
              tabCount := g.tabCount + 1 } := by
          unfold addTab
          rw [hrest.tabs, hrest.tabCount, if_neg (by omega), if_neg]
          intro ha
          obtain ⟨t, ht, hp⟩ := List.any_eq_true.mp ha
          exact hex ⟨t, ht, beq_iff_eq.mp hp⟩
        obtain ⟨u, hu, hn⟩ := hname hv
        rw [hadd]
        refine ⟨List.forall_mem_cons.mpr ⟨⟨u, hu, (name_eq hn).1.trans hk, (name_eq hn).2.1⟩, hwin⟩,
          ?_, ?_, ?_, fun hl hu => ?_, hrest.staleReads.trans h.stale⟩
        · refine List.nodup_cons.mpr ⟨fun hm => ?_, h.once⟩
          obtain ⟨t, ht, hp⟩ := List.mem_map.mp hm
          exact hex ⟨t, ht, hp⟩
        · dsimp only
          rw [h.count, List.length_cons]
          rfl
        · dsimp only
          omega
        · rcases hshown hl hu with ⟨t, ht, hp⟩ | hp
          · exact ⟨t, List.mem_cons_of_mem _ ht, hp⟩
          · exact ⟨_, List.mem_cons_self, hp.symm⟩
    · next h0 =>
      refine h.relink ho hname (fun hl => (hlists hl).resolve_right fun ⟨hp, _⟩ => ?_) hrest.tabs
        hrest.tabCount hrest.staleReads
      obtain ⟨d, hd, -, -, hid⟩ := ho.desktop
      rw [hp, hd, Option.some.injEq] at hw
      exact h0 (hw ▸ hid)

theorem step (h : Tabbed g) (ho : Owned g) {op : GuiOp} (hc : Careful g op) (ht : TabSafe g op) :
    Tabbed (op.step g) := by
  unfold GuiOp.step
  split
  · exact h
  cases op with
  | create pid parentID window copied => exact h.create ho pid parentID window copied
  | addChild pid parentID childID => exact h.handleAddChild ho ht
  | delete pid id => exact h.delete ho ht
  | close w posted => exact h.close ho w posted
  | drain => exact h.drain ho ht
  | exit pid => exact h.exit ho hc
  | raise p c => exact h.raise ho p c
  | clickTab i =>
    dsimp only
    rw [h.clickTab ho]
    exact h

end Tabbed

/-- In a run of careful steps that are safe for the tabs, the tabs are right after each. -/
theorem served_along (ops : List GuiOp)
    (h : Along GuiOp.step (fun g op => Careful g op ∧ TabSafe g op) .init ops) :
    Along GuiOp.step (fun g op => Served (op.step g)) .init ops :=
  Along.of_inv (I := fun g => Owned g ∧ Tabbed g)
    (fun _ _ ⟨ho, ht⟩ ⟨hc, hs⟩ =>
      ⟨⟨ho.step hc, ht.step ho hc hs⟩, (ht.step ho hc hs).served (ho.step hc)⟩)
    ⟨Owned.init, Tabbed.init⟩ h

theorem served_along_openAndExit :
    Along GuiOp.step (fun g op => Served (op.step g)) .init openAndExit := by
  obtain ⟨h0, h1, h2, -⟩ := openAndExit_careful
  refine served_along _ ⟨⟨h0, trivial⟩, ⟨h1, fun p w c v _ _ _ hc hv _ => .inr ⟨?_, by decide⟩⟩,
    ⟨h2, trivial⟩, trivial⟩
  have hf : findWidgetByID (GuiOp.step .init (.create 7 0 true true)) 1000 = some 1 := by decide
  obtain rfl := Option.some.inj (hc.symm.trans hf)
  exact congrArg Widget.kind (Option.some.inj hv.symm)

/-- A window with a button, which is then deleted. -/
def deleteButton : List GuiOp :=
  [.create 7 0 true true, .addChild 7 0 1000, .create 7 1000 false true, .addChild 7 1000 1001,
    .delete 7 1001]

theorem button_takes_tab :
    ¬ Along GuiOp.step (fun g op => Served (op.step g)) .init deleteButton := by
  rintro ⟨-, -, -, -, h, -⟩
  obtain ⟨t, ht, -⟩ := h.shown (by decide) 7 (by decide)
  exact absurd ht List.not_mem_nil

end Gui
end Hashx86
