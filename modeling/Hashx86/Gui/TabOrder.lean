import Hashx86.Gui.TabStops

/-!
# The Tab key (`gui/widget.cpp`)

* `Cycles`: as many steps as there are stops, forwards or backwards, focus each of them once, and a
  step back returns to the stop that was left.
* `tab_eq`: a step asks for the stop next to the one that has the focus.
* `Ready.cycles`: one stop or two are gone through.
* `AtEnd.misses`: backwards from the last of three or more, one is never reached.
* `cycles_iff`: the steps go through the stops exactly if there are at most two.
-/

namespace Hashx86
namespace WidgetTree

open Lib

variable {C : Type}

/-! ## What is asked -/

/-- `OnTabFocus` with the call that it makes. -/
def tab (backwards : Bool) (t : Tree C) : Tree C :=
  run Call.step t (onTabFocus backwards t)

/-- Where the focus is after each of `n` steps. -/
def visits (backwards : Bool) : Nat → Tree C → List (List Nat)
  | 0, _ => []
  | n + 1, t => focusPath (tab backwards t) :: visits backwards n (tab backwards t)

/-- As many steps as there are stops focus each of them once, and a step back returns to the stop
that a step left. -/
structure Cycles (stops : List (List Nat)) (t : Tree C) : Prop where
  forwards : (visits false stops.length t).Perm stops
  backwards : (visits true stops.length t).Perm stops
  back : focusPath t ∈ stops → focusPath (tab true (tab false t)) = focusPath t

/-- The focus is where it is, or was given to one of the stops. -/
def Starts (t t' : Tree C) : Prop :=
  t' = t ∨ ∃ π ∈ tabStops [] t, t' = requestFocus π.dropLast π.getLast? t

/-! ## The steps -/

/-- The container of a stop. -/
theorem get?_stop (π : List Nat) : ∀ {act : Bool} {t : Tree C} {i : Nat}, Ok act t →
    i :: π ∈ stops t → ∃ s, t.get? (i :: π).dropLast = some s ∧ s.label.isComposite = true := by
  induction π with
  | nil =>
    rintro act ⟨v, cs⟩ i hok hπ
    obtain ⟨c, hc, -⟩ := hok.mem_stops hπ
    exact ⟨_, rfl, hok.isComposite hc⟩
  | cons j π ih =>
    rintro act ⟨v, cs⟩ i hok hπ
    obtain ⟨c, hc, hk, hin, -⟩ := hok.mem_stops hπ
    rw [List.dropLast_cons_cons, hok.get?_cons hc hk]
    rcases (entry_cases hin).2 with hbelow | ⟨-, hnil, -⟩
    · exact ih (hok.children c hc) (hbelow ▸ hin)
    · exact nomatch hnil

theorem requestFocus_stop {act : Bool} {t : Tree C} (hok : Ok act t) {π : List Nat}
    (hπ : π ∈ stops t) : requestFocus π.dropLast π.getLast? t = ask π t := by
  cases π with
  | nil => exact absurd hπ (nil_not_mem_stops t)
  | cons i π =>
    obtain ⟨s, hs, hcomp⟩ := get?_stop π hok hπ
    exact requestFocus_of_composite hs hcomp _

theorem passesOn_stop (π : List Nat) : ∀ {act : Bool} {t : Tree C} {i : Nat}, Ok act t →
    i :: π ∈ stops t → takes (i :: π) t = true →
      passesOn (i :: π).dropLast (i :: π).getLast? t = true := by
  induction π with
  | nil =>
    rintro act ⟨v, cs⟩ i hok hπ _
    obtain ⟨c, hc, hk, -⟩ := hok.mem_stops hπ
    exact List.any_eq_true.mpr ⟨c, hc, decide_eq_true hk⟩
  | cons j π ih =>
    rintro act ⟨v, cs⟩ i hok hπ htakes
    obtain ⟨c, hc, rfl, hin, honly⟩ := hok.mem_stops hπ
    obtain ⟨hf, htakes⟩ := takes_cons hc _ htakes
    have hpass : passesOn (j :: π).dropLast (j :: π).getLast? c = true := by
      rcases (entry_cases hin).2 with hbelow | ⟨-, hnil, -⟩
      · exact ih (hok.children c hc) (hbelow ▸ hin) htakes
      · exact nomatch hnil
    rw [List.dropLast_cons_cons, List.getLast?_cons_cons]
    refine List.all_eq_true.mpr fun d hd => ?_
    by_cases hk : d.key = c.key
    · rw [honly d hd hk, hpass, hf]
      simp
    · simp [hk]

theorem Ok.ask {t : Tree C} (hok : Ok true t) {π : List Nat} (hπ : π ∈ stops t)
    (htakes : takes π t = true) : Ok true (ask π t) := by
  cases π with
  | nil => exact hok
  | cons i π =>
    obtain ⟨s, hs, -⟩ := get?_stop π hok hπ
    exact (getFocus_ok _ _ hok hs (passesOn_stop π hok hπ htakes)).2.1 rfl

theorem takes_setFocus (b : Bool) (π : List Nat) (t : Tree C) :
    takes π (setFocus b t) = takes π t := by
  induction π generalizing t with
  | nil =>
    rw [takes, takes, setFocus_label]
    split <;> rfl
  | cons i π ih =>
    cases t with
    | node v cs =>
      by_cases hb : v.isFocused = b
      · rw [setFocus_of_eq hb]
      · rw [setFocus_of_ne hb, takes, takes, Rose.children_node, Rose.children_node, List.all_map]
        congr 1
        funext c
        dsimp only [Function.comp]
        generalize (if v.isComposite then v.focusedChild else none) = w
        split
        · rw [setFocus_key, setFocus_isFocussable, ih]
        · rfl

theorem takes_focusStep (i : Option Nat) (j : Nat) (π : List Nat) (t : Tree C) :
    takes (j :: π) (focusStep i t).1 = takes (j :: π) t := by
  cases t with
  | node v cs =>
    by_cases hne : v.focusedChild = granted i (.node v cs)
    · rw [focusStep_of_eq hne]
    · rw [focusStep_of_ne hne, takes, takes, Bool.eq_iff_iff, List.all_eq_true, List.all_eq_true]
      simp only [Rose.children_node, mem_moved]
      refine ⟨fun h c hc => ?_, ?_⟩
      · have h := h _ ⟨c, hc, rfl⟩
        revert h
        split
        · rw [setFocus_key, setFocus_isFocussable, takes_setFocus]
          exact id
        · split
          · rw [setFocus_key, setFocus_isFocussable, takes_setFocus]
            exact id
          · exact id
      · rintro h _ ⟨c, hc, rfl⟩
        have h := h c hc
        split
        · rw [setFocus_key, setFocus_isFocussable, takes_setFocus]
          exact h
        · split
          · rw [setFocus_key, setFocus_isFocussable, takes_setFocus]
            exact h
          · exact h

/-- Whether the focus is passed on to a stop is the same after another got it. -/
theorem takes_ask (σ : List Nat) : ∀ {act : Bool} {t : Tree C} {π : List Nat}, Ok act t →
    σ ∈ stops t → π ∈ stops t → takes π (ask σ t) = takes π t := by
  induction σ with
  | nil => exact fun _ _ _ => rfl
  | cons i σ ih =>
    rintro act ⟨v, cs⟩ π hok hσ hπ
    obtain ⟨c, hc, rfl, hσ, honly⟩ := hok.mem_stops hσ
    obtain ⟨d, hd, π, hbelow, rfl⟩ := mem_stops hπ
    obtain ⟨dirty, hask⟩ := ask_cons c.key σ (.node v cs)
    rw [hask, takes_focusStep, takes, takes, Rose.children_node, Rose.children_node, Rose.mapKey,
      List.all_map, Bool.eq_iff_iff, List.all_eq_true, List.all_eq_true]
    refine forall_congr' fun e => imp_congr_right fun he => ?_
    dsimp only [Function.comp]
    split
    · rename_i hk
      obtain rfl := honly e he hk
      rw [(ask_same σ e).key, (ask_same σ e).isFocussable]
      by_cases hkd : e.key = d.key
      · obtain rfl := hok.distinct.eq he hd hkd
        have htakes : takes π (ask σ e) = takes π e := by
          rcases (entry_cases hσ).2 with hstops | ⟨-, rfl, -⟩
          · exact ih (hok.children e he) (hstops ▸ hσ) (hstops ▸ hbelow)
          · rfl
        rw [htakes]
      · simp [hkd]
    · exact Iff.rfl

/-- `FindDeepestFocused` gives the end of the `focusedChild` pointers. -/
theorem focusedOf_eq {cs : List (Tree C)} {fc : Option Nat}
    (hfocused : ∀ c ∈ cs, c.label.isFocused = decide (fc = some c.key))
    (h : ∀ c ∈ cs, c.label.isFocused = true → ∀ π, deepestFocused π c =
      if focusPath c = [] then none else some (π ++ focusPath c)) (π : List Nat) :
    focusedOf π cs =
      if focusPathOf fc cs = [] then none else some (π ++ focusPathOf fc cs) := by
  induction cs with
  | nil => rfl
  | cons c cs ih =>
    obtain ⟨hc, hcs⟩ := List.forall_mem_cons.mp hfocused
    obtain ⟨hdeep, h⟩ := List.forall_mem_cons.mp h
    rw [focusedOf, focusPathOf, ih hcs h]
    by_cases hfc : fc = some c.key
    · have hfocus : c.label.isFocused = true := hc.trans (decide_eq_true hfc)
      rw [if_pos hfocus, if_pos hfc, if_neg (List.cons_ne_nil _ _), hdeep hfocus]
      split
      · rename_i hnil
        rw [hnil]
        rfl
      · simp
    · rw [if_neg (by simp [hc, hfc]), if_neg hfc]

theorem deepestFocused_eq (t : Tree C) : ∀ π, Ok true t → deepestFocused π t =
    if focusPath t = [] then none else some (π ++ focusPath t) := by
  induction t using Rose.ind with
  | h v cs ih =>
    intro π hok
    rw [deepestFocused, focusPath]
    refine focusedOf_eq (fun c hc => ?_) (fun c hc hf => fun π => ih c hc π ?_) π
    · rw [hok.focused c hc, Bool.true_and]
    · exact hf ▸ hok.children c hc

/-- The place of the next stop in the list, given where the focus is. -/
def turn (backwards : Bool) (stops : List (List Nat)) (focus : List Nat) : Nat :=
  match stops.findIdx? (· = focus) with
  | none => if backwards then stops.length - 1 else 0
  | some i =>
    if backwards then if i = 0 then stops.length - 1 else i - 1 else (i + 1) % stops.length

def Node.on (v : Node C) : Bool := v.enabled && v.isVisible

theorem tabStops_root {act : Bool} {t : Tree C} (hok : Ok act t) : tabStops [] t = stops t := by
  rw [(tabStops_eq t [] ⟨act, hok⟩).1]
  exact List.map_id _

/-- A step asks for the next stop. -/
theorem tab_eq {t : Tree C} (hok : Ok true t) (hon : t.label.on = true) (backwards : Bool) :
    tab backwards t = match (stops t)[turn backwards (stops t) (focusPath t)]? with
      | none => t
      | some π => ask π t := by
  have hcurrent : ((deepestFocused [] t).bind fun π => (stops t).findIdx? (· = π)) =
      (stops t).findIdx? (· = focusPath t) := by
    rw [deepestFocused_eq t [] hok]
    split
    · rename_i hnil
      rw [hnil]
      refine (List.findIdx?_eq_none_iff.mpr fun π hπ => decide_eq_false ?_).symm
      rintro rfl
      exact nil_not_mem_stops t hπ
    · rfl
  have hoff : (!t.label.enabled || !t.label.isVisible) = false := by
    rw [← Bool.not_and, ← Node.on, hon]
    rfl
  unfold tab onTabFocus
  rw [hoff, tabStops_root hok, if_neg Bool.false_ne_true]
  dsimp only
  rw [hcurrent]
  change run Call.step t (match (stops t)[turn backwards (stops t) (focusPath t)]? with
    | none => []
    | some π => [.getFocus π.dropLast π.getLast?]) = _
  cases hnext : (stops t)[turn backwards (stops t) (focusPath t)]? with
  | none => rfl
  | some π => exact requestFocus_stop hok (List.mem_of_getElem? hnext)

theorem tab_off {t : Tree C} (hoff : t.label.on = false) (backwards : Bool) :
    tab backwards t = t := by
  have hoff : (!t.label.enabled || !t.label.isVisible) = true := by
    rw [← Bool.not_and, ← Node.on, hoff]
    rfl
  unfold tab onTabFocus
  rw [if_pos hoff]
  rfl

theorem turn_lt (backwards : Bool) {L : List (List Nat)} (h : L ≠ []) (focus : List Nat) :
    turn backwards L focus < L.length := by
  have hpos := List.length_pos_iff.mpr h
  unfold turn
  split
  · split <;> omega
  · rename_i i hi
    have hlt := (List.findIdx?_eq_some_iff_getElem.mp hi).1
    split
    · split <;> omega
    · exact Nat.mod_lt _ hpos

/-- Of two stops the step goes to the other one. -/
theorem turn_other (backwards : Bool) {L : List (List Nat)} {p q : List Nat} (hpq : p ≠ q)
    (h : L.Perm [p, q]) : L[turn backwards L p]? = some q := by
  rcases List.perm_pair.mp h with rfl | rfl
  · have hidx : [p, q].findIdx? (· = p) = some 0 := by simp [List.findIdx?_cons]
    rw [turn, hidx]
    cases backwards <;> rfl
  · have hidx : [q, p].findIdx? (· = p) = some 1 := by simp [List.findIdx?_cons, hpq.symm]
    rw [turn, hidx]
    cases backwards <;> simp

/-- The step back from the last stop. -/
theorem turn_back {A : List (List Nat)} {x y : List Nat} (h : (A ++ [x, y]).Nodup) :
    (A ++ [x, y])[turn true (A ++ [x, y]) y]? = some x := by
  obtain ⟨-, hxy, hA⟩ := List.nodup_append.mp h
  have hidx : (A ++ [x, y]).findIdx? (· = y) = some (A.length + 1) := by
    rw [List.findIdx?_append, List.findIdx?_eq_none_iff.mpr fun a ha =>
      decide_eq_false (hA a ha y (by simp))]
    have hne : x ≠ y := by simpa using hxy
    simp [List.findIdx?_cons, hne, Nat.add_comm]
  rw [turn, hidx]
  dsimp only
  rw [if_pos rfl, if_neg (Nat.succ_ne_zero _), Nat.add_sub_cancel]
  simp

/-! ## Whole rounds -/

/-- A tree in which each stop can get the focus. -/
structure Ready (t : Tree C) : Prop where
  ok : Ok true t
  on : t.label.on = true
  takes : ∀ π ∈ stops t, takes π t = true

theorem ask_on (π : List Nat) (t : Tree C) : (ask π t).label.on = t.label.on := by
  obtain ⟨d, f, hlabel⟩ := ask_same π t
  rw [hlabel]
  rfl

theorem Ready.ask {t : Tree C} (h : Ready t) {π : List Nat} (hπ : π ∈ stops t) :
    Ready (ask π t) where
  ok := h.ok.ask hπ (h.takes π hπ)
  on := (ask_on π t).trans h.on
  takes ρ hρ := by
    have hρ := (stops_ask_perm π h.ok hπ).mem_iff.mp hρ
    rw [takes_ask π h.ok hπ hρ]
    exact h.takes ρ hρ

theorem Ready.focus {t : Tree C} (h : Ready t) {π : List Nat} (hπ : π ∈ stops t) :
    focusPath (WidgetTree.ask π t) = π :=
  focusPath_of_takes π h.ok hπ (h.takes π hπ)

/-- A step gives the focus to some stop. -/
theorem exists_tab {t : Tree C} (hok : Ok true t) (hon : t.label.on = true) (hne : stops t ≠ [])
    (backwards : Bool) : ∃ π ∈ stops t, tab backwards t = ask π t := by
  have hlt := turn_lt backwards hne (focusPath t)
  refine ⟨_, List.getElem_mem hlt, ?_⟩
  rw [tab_eq hok hon, List.getElem?_eq_getElem hlt]

/-- With one stop or two a round goes through all of them. -/
theorem Ready.cycles {t : Tree C} (h : Ready t) (hlen : (stops t).length ≤ 2) :
    Cycles (stops t) t := by
  have hround : ∀ backwards, (visits backwards (stops t).length t).Perm (stops t) := by
    intro backwards
    match hstops : stops t, hlen with
    | [], _ => exact .nil
    | [p], _ =>
      obtain ⟨π, hπ, htab⟩ := exists_tab h.ok h.on (by simp [hstops]) backwards
      obtain rfl : π = p := by simpa [hstops] using hπ
      change [focusPath (tab backwards t)].Perm [π]
      rw [htab, h.focus hπ]
    | [p, q], _ =>
      obtain ⟨π, hπ, htab⟩ := exists_tab h.ok h.on (by simp [hstops]) backwards
      have hnodup := stops_nodup t h.ok
      rw [hstops] at hnodup
      have hpq : p ≠ q := by simpa using hnodup
      -- the other stop follows
      obtain ⟨ρ, hπρ, hperm⟩ : ∃ ρ, π ≠ ρ ∧ (stops t).Perm [π, ρ] := by
        have hmem : π = p ∨ π = q := by simpa [hstops] using hπ
        rcases hmem with rfl | rfl
        · exact ⟨q, hpq, by rw [hstops]⟩
        · exact ⟨p, hpq.symm, hstops ▸ .swap _ _ _⟩
      have hnext := turn_other backwards hπρ ((stops_ask_perm π h.ok hπ).trans hperm)
      have hsecond : tab backwards (WidgetTree.ask π t) =
          WidgetTree.ask ρ (WidgetTree.ask π t) := by
        rw [tab_eq (h.ask hπ).ok (h.ask hπ).on, h.focus hπ, hnext]
      change [focusPath (tab backwards t), focusPath (tab backwards (tab backwards t))].Perm _
      rw [htab, hsecond, h.focus hπ, (h.ask hπ).focus (List.mem_of_getElem? hnext), ← hstops]
      exact hperm.symm
  refine ⟨hround false, hround true, fun hmem => ?_⟩
  match hstops : stops t, hlen with
  | [], _ => exact absurd (hstops ▸ hmem) List.not_mem_nil
  | [p], _ =>
    have hsame : ∀ {s : Tree C}, Ready s → (stops s).Perm [p] → ∀ backwards,
        focusPath (tab backwards s) = p ∧ Ready (tab backwards s) ∧
          (stops (tab backwards s)).Perm [p] := by
      intro s hs hperm backwards
      obtain ⟨π, hπ, htab⟩ := exists_tab hs.ok hs.on (by simp [List.perm_singleton.mp hperm])
        backwards
      obtain rfl : π = p := by simpa using hperm.subset hπ
      rw [htab]
      exact ⟨hs.focus hπ, hs.ask hπ, (stops_ask_perm π hs.ok hπ).trans hperm⟩
    obtain ⟨-, hready, hperm⟩ := hsame h (.of_eq hstops) false
    rw [(hsame hready hperm true).1]
    exact (by simpa [hstops] using hmem : focusPath t = p).symm
  | [p, q], _ =>
    have hnodup := stops_nodup t h.ok
    rw [hstops] at hnodup
    have hpq : p ≠ q := by simpa using hnodup
    obtain ⟨ρ, hne, hperm⟩ : ∃ ρ, focusPath t ≠ ρ ∧ (stops t).Perm [focusPath t, ρ] := by
      have hmem : focusPath t = p ∨ focusPath t = q := by simpa [hstops] using hmem
      rcases hmem with hfocus | hfocus
      · exact ⟨q, hfocus ▸ hpq, by rw [hstops, hfocus]⟩
      · exact ⟨p, hfocus ▸ hpq.symm, by rw [hstops, hfocus]; exact .swap _ _ _⟩
    have hforth := turn_other false hne hperm
    have hρ := List.mem_of_getElem? hforth
    have htab : tab false t = WidgetTree.ask ρ t := by
      rw [tab_eq h.ok h.on, hforth]
    have hback := turn_other true hne.symm
      (((stops_ask_perm ρ h.ok hρ).trans hperm).trans (.swap _ _ _))
    rw [htab, tab_eq (h.ask hρ).ok (h.ask hρ).on, h.focus hρ, hback]
    exact (h.ask hρ).focus (List.mem_of_getElem? hback)

theorem mem_visits {backwards : Bool} {n : Nat} {t : Tree C} {π : List Nat}
    (h : π ∈ visits backwards n t) : ∃ k, π = focusPath ((tab backwards)^[k + 1] t) := by
  induction n generalizing t with
  | zero => exact nomatch h
  | succ n ih =>
    rcases List.mem_cons.mp h with rfl | h
    · exact ⟨0, rfl⟩
    · obtain ⟨k, hk⟩ := ih h
      exact ⟨k + 1, hk⟩

/-- The focus is passed on to the stops that are visited, if nothing else is. -/
theorem takes_of_visits {backwards : Bool} {n : Nat} {t : Tree C} (hok : Ok true t)
    (hon : t.label.on = true) (h : ∀ π ∈ visits backwards n t, π ∈ stops t) :
    ∀ π ∈ visits backwards n t, takes π t = true := by
  induction n generalizing t with
  | zero => exact fun π hπ => nomatch hπ
  | succ n ih =>
    obtain ⟨hfirst, hrest⟩ := List.forall_mem_cons.mp h
    obtain ⟨σ, hσ, htab⟩ := exists_tab hok hon (List.ne_nil_of_mem hfirst) backwards
    rw [htab] at hfirst hrest
    have htakes := takes_of_focusPath σ hok hσ hfirst
    have hperm := stops_ask_perm σ hok hσ
    rw [visits, htab, focusPath_of_takes σ hok hσ htakes]
    refine List.forall_mem_cons.mpr ⟨htakes, fun π hπ => ?_⟩
    rw [← takes_ask σ hok hσ (hrest π hπ)]
    exact ih (hok.ask hσ htakes) ((ask_on σ t).trans hon)
      (fun ρ hρ => hperm.mem_iff.mpr (hrest ρ hρ)) π hπ

/-- The focus is on the last stop, and there are others. -/
structure AtEnd (t : Tree C) : Prop where
  ready : Ready t
  two : 2 ≤ (stops t).length
  last : ∃ A, stops t = A ++ [focusPath t]

/-- A step back from the last stop. -/
theorem AtEnd.back {t : Tree C} (h : AtEnd t) :
    (∃ A, stops t = A ++ [focusPath (tab true t), focusPath t]) ∧
      stops (tab true t) = toEnd (fork (focusPath (tab true t)) (focusPath t) <+: ·) (stops t) ∧
      AtEnd (tab true t) := by
  obtain ⟨B, hB⟩ := h.last
  rcases List.eq_nil_or_concat B with rfl | ⟨A, x, rfl⟩
  · have htwo := h.two
    rw [hB] at htwo
    exact absurd htwo (by simp)
  have hstops : stops t = A ++ [x, focusPath t] := by
    rw [hB, List.concat_eq_append, List.append_assoc]
    rfl
  have hx : x ∈ stops t := hstops ▸ by simp
  have hnodup := stops_nodup t h.ready.ok
  have htab : tab true t = ask x t := by
    rw [hstops] at hnodup
    rw [tab_eq h.ready.ok h.ready.on, hstops, turn_back hnodup]
  have hfocus : focusPath (tab true t) = x := by rw [htab, h.ready.focus hx]
  have horder := stops_ask_before x h.ready.ok hstops rfl (h.ready.takes x hx)
  rw [hfocus, htab]
  refine ⟨⟨A, hstops⟩, horder, h.ready.ask hx, ?_, ?_⟩
  · rw [(stops_ask_perm x h.ready.ok hx).length_eq]
    exact h.two
  · have hne : ¬ x <+: focusPath t := by
      intro hp
      have heq := stops_free x h.ready.ok hx (hstops ▸ by simp) hp
      rw [hstops, List.nodup_append] at hnodup
      exact absurd heq (by simpa using hnodup.2.1)
    rw [h.ready.focus hx, horder, hstops, toEnd, List.filter_append, List.filter_append]
    refine ⟨A.filter (¬ fork x (focusPath t) <+: ·) ++ [focusPath t] ++
      A.filter (fork x (focusPath t) <+: ·), ?_⟩
    simp [fork_isPrefix, not_fork_isPrefix hne]

theorem AtEnd.along {t : Tree C} (h : AtEnd t) (k : Nat) : AtEnd ((tab true)^[k] t) := by
  induction k with
  | zero => exact h
  | succ k ih =>
    rw [Function.iterate_succ_apply']
    exact ih.back.2.2

/-- Of three stops or more one is never reached backwards from the last. -/
theorem AtEnd.misses {t : Tree C} (h : AtEnd t) (hlen : 3 ≤ (stops t).length) (n : Nat) :
    ∃ π ∈ stops t, π ∉ visits true n t := by
  choose A hA using fun k => (h.along k).back.1
  simp only [← Function.iterate_succ_apply' (tab true)] at hA
  have hne : A 0 ≠ [] := by
    intro hnil
    have hA0 := congrArg List.length (hA 0)
    rw [hnil] at hA0
    change (stops t).length = 2 at hA0
    omega
  have halone : ∀ ω ∈ A 0, ¬ fork (focusPath t) (focusPath (tab true t)) <+: ω := by
    intro ω hω hp
    have hstops : stops t = A 0 ++ [focusPath (tab true t), focusPath t] := hA 0
    obtain ⟨B, hB⟩ := h.last
    have hend := stops_suffix _ h.ready.ok hB
      (fork_isPrefix (focusPath t) (focusPath (tab true t)))
    -- then the last two would both be below the fork
    have hsuffix : (stops t).filter (fork (focusPath t) (focusPath (tab true t)) <+: ·) <:+
        stops t := ⟨_, hend⟩
    have hlong : 2 ≤ ((stops t).filter
        (fork (focusPath t) (focusPath (tab true t)) <+: ·)).length := by
      have hother : ω ∈ (A 0).filter (fork (focusPath t) (focusPath (tab true t)) <+: ·) :=
        List.mem_filter.mpr ⟨hω, decide_eq_true hp⟩
      have hpos := List.length_pos_of_mem hother
      have hlast : focusPath t ∈ [focusPath (tab true t), focusPath t].filter
          (fork (focusPath t) (focusPath (tab true t)) <+: ·) :=
        List.mem_filter.mpr ⟨by simp, decide_eq_true (fork_isPrefix _ _)⟩
      have hpos' := List.length_pos_of_mem hlast
      rw [hstops, List.filter_append, List.length_append]
      omega
    have hpair : [focusPath (tab true t), focusPath t] <:+
        (stops t).filter (fork (focusPath t) (focusPath (tab true t)) <+: ·) :=
      List.suffix_of_suffix_length_le ⟨A 0, hstops.symm⟩ hsuffix hlong
    have hmem := List.mem_filter.mp (hpair.subset List.mem_cons_self)
    refine not_fork_isPrefix (fun hp => ?_) (of_decide_eq_true hmem.2)
    have heq := stops_free _ h.ready.ok (hstops ▸ by simp) hmem.1 hp
    have hnodup := stops_nodup t h.ready.ok
    rw [hstops, List.nodup_append] at hnodup
    exact absurd heq.symm (by simpa using hnodup.2.1)
  obtain ⟨π, hπ, hnever⟩ := exists_not_visited (L := fun k => stops ((tab true)^[k] t)) (A := A)
    (f := fun k => focusPath ((tab true)^[k] t)) hA
    (fun k => by
      rw [Function.iterate_succ_apply']
      exact (h.along k).back.2.1)
    (stops_nodup t h.ready.ok) (fun x hx y hy hp => stops_free x h.ready.ok hx hy hp) halone hne
  refine ⟨π, hπ, fun hmem => ?_⟩
  obtain ⟨k, hk⟩ := mem_visits hmem
  exact hnever k hk.symm

theorem visits_off {t : Tree C} (hoff : t.label.on = false) (backwards : Bool) (n : Nat) :
    visits backwards n t = List.replicate n (focusPath t) := by
  induction n with
  | zero => rfl
  | succ n ih => rw [visits, tab_off hoff, ih, List.replicate_succ]

theorem Cycles.perm {t : Tree C} {L L' : List (List Nat)} (h : Cycles L t) (hL : L.Perm L') :
    Cycles L' t := by
  obtain ⟨hforwards, hbackwards, hback⟩ := h
  rw [hL.length_eq] at hforwards hbackwards
  exact ⟨hforwards.trans hL, hbackwards.trans hL, fun hmem => hback (hL.mem_iff.mpr hmem)⟩

/-- The steps go through the stops and back exactly if there are at most two (or just one, which
has the focus, where the Tab key is off) and the focus is passed on to each of them. -/
theorem cycles_iff {t : Tree C} (hok : Ok true t) (hne : tabStops [] t ≠ []) :
    (∀ t', Starts t t' → Cycles (tabStops [] t) t') ↔
      (t.label.on = true ∧ (tabStops [] t).length ≤ 2 ∨ tabStops [] t = [focusPath t]) ∧
        ∀ π ∈ tabStops [] t, takes π t = true := by
  unfold Starts
  rw [tabStops_root hok] at hne ⊢
  constructor
  · intro h
    have hforwards := (h t (.inl rfl)).forwards
    cases hon : t.label.on with
    | false =>
      -- the focus stays where it is
      rw [visits_off hon] at hforwards
      have hlen : (stops t).length = 1 := by
        have hnodup := hforwards.nodup_iff.mpr (stops_nodup t hok)
        have hle := List.nodup_replicate.mp hnodup
        have hpos := List.length_pos_iff.mpr hne
        omega
      rw [hlen] at hforwards
      refine ⟨.inr (List.perm_singleton.mp hforwards.symm), fun π hπ => ?_⟩
      have hstart := (h _ (.inr ⟨π, hπ, rfl⟩)).forwards
      rw [requestFocus_stop hok hπ, visits_off ((ask_on π t).trans hon), hlen] at hstart
      exact takes_of_focusPath π hok hπ (hstart.subset List.mem_cons_self)
    | true =>
      have htakes : ∀ π ∈ stops t, takes π t = true := fun π hπ =>
        takes_of_visits hok hon (fun ρ hρ => hforwards.mem_iff.mp hρ) π (hforwards.mem_iff.mpr hπ)
      refine ⟨.inl ⟨rfl, ?_⟩, htakes⟩
      have hready : Ready t := ⟨hok, hon, htakes⟩
      -- from the last stop, the steps back miss one of three
      by_contra hlen
      obtain ⟨A, l, hlast⟩ := (List.eq_nil_or_concat (stops t)).resolve_left hne
      rw [List.concat_eq_append] at hlast
      have hl : l ∈ stops t := hlast ▸ by simp
      have horder := stops_ask_last l hok hlast
      have hend : AtEnd (ask l t) :=
        ⟨hready.ask hl, by rw [horder]; omega, A, by rw [horder, hready.focus hl, hlast]⟩
      obtain ⟨π, hπ, hmiss⟩ := hend.misses (by rw [horder]; omega) (stops t).length
      rw [horder] at hπ
      have hcycles := (h _ (.inr ⟨l, hl, rfl⟩)).backwards
      rw [requestFocus_stop hok hl] at hcycles
      exact hmiss (hcycles.mem_iff.mpr hπ)
  · rintro ⟨hcond, htakes⟩ t' ht'
    -- the tree as it is, or with the focus given to a stop, has the same stops
    have hstart : Ok true t' ∧ t'.label.on = t.label.on ∧ (stops t').Perm (stops t) ∧
        (∀ π ∈ stops t', takes π t' = true) ∧
        (stops t = [focusPath t] → focusPath t' = focusPath t) := by
      rcases ht' with rfl | ⟨π, hπ, rfl⟩
      · exact ⟨hok, rfl, .rfl, htakes, fun _ => rfl⟩
      · rw [requestFocus_stop hok hπ]
        have hperm := stops_ask_perm π hok hπ
        refine ⟨hok.ask hπ (htakes π hπ), ask_on π t, hperm, fun ρ hρ => ?_, fun hone => ?_⟩
        · have hρ := hperm.mem_iff.mp hρ
          rw [takes_ask π hok hπ hρ]
          exact htakes ρ hρ
        · rw [focusPath_of_takes π hok hπ (htakes π hπ)]
          exact List.mem_singleton.mp (hone ▸ hπ)
    obtain ⟨hok', hon', hperm, htakes', hfocus⟩ := hstart
    have hsmall : t.label.on = true → (stops t).length ≤ 2 → Cycles (stops t) t' :=
      fun hon hlen => (Ready.cycles ⟨hok', hon'.trans hon, htakes'⟩
        (hperm.length_eq.trans_le hlen)).perm hperm
    rcases hcond with ⟨hon, hlen⟩ | hone
    · exact hsmall hon hlen
    · cases hon : t.label.on with
      | true => exact hsmall hon (by simp [hone])
      | false =>
        have hstay := visits_off (hon'.trans hon)
        rw [hone]
        refine ⟨?_, ?_, fun _ => ?_⟩
        · rw [hstay, hfocus hone]
          rfl
        · rw [hstay, hfocus hone]
          rfl
        · rw [tab_off (hon'.trans hon), tab_off (hon'.trans hon)]

/-- Some widgets side by side. -/
def toolbar (n : Nat) : Tree Unit :=
  .node (blank 0 .composite true)
    ((List.range n).map fun i => .node (blank (i + 1) .leaf true) [])

theorem toolbar_fresh (n : Nat) : Fresh (toolbar n) := by
  refine .node ?_ nofun rfl rfl fun c hc => ?_
  · rw [Rose.Distinct, List.map_map]
    exact List.nodup_range.map fun _ _ h => Nat.succ.inj h
  · obtain ⟨i, -, rfl⟩ := List.mem_map.mp hc
    exact .node List.nodup_nil (fun _ => rfl) rfl rfl fun c hc => absurd hc List.not_mem_nil

theorem toolbar_cycles : Cycles (tabStops [] (toolbar 2)) (toolbar 2) ∧
    Cycles (tabStops [] (toolbar 2)) (requestFocus [] (some 2) (toolbar 2)) := by
  have h := (cycles_iff ((toolbar_fresh 2).ok true).1 (by decide)).mpr
    ⟨.inl ⟨rfl, by decide⟩, by decide⟩
  exact ⟨h _ (.inl rfl), h _ (.inr ⟨[2], by decide, rfl⟩)⟩

/-- Of three widgets, the first is not reached backwards from the last. -/
theorem toolbar_stuck : visits true 3 (requestFocus [] (some 3) (toolbar 3)) = [[2], [3], [2]] ∧
    ¬ ∀ t', Starts (toolbar 3) t' → Cycles (tabStops [] (toolbar 3)) t' := by
  have hvisits : visits true 3 (requestFocus [] (some 3) (toolbar 3)) = [[2], [3], [2]] := by
    decide
  refine ⟨hvisits, fun h => ?_⟩
  have hround := (h _ (.inr ⟨[3], by decide, rfl⟩)).backwards
  change (visits true 3 (requestFocus [] (some 3) (toolbar 3))).Perm [[1], [2], [3]] at hround
  rw [hvisits] at hround
  exact absurd hround (by decide)

end WidgetTree
end Hashx86
