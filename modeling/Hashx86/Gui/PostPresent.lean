import Hashx86.Lib.Run
import Mathlib.Data.List.Induction

/-!
# Actions after a frame (`Desktop::PostAfterPresent`, `Desktop::RunPostPresentAction`)

The interrupt side posts an action into the one slot of the desktop; the task takes it out once it
finds the desktop clean, and calls it when it has left the guard. What is posted meanwhile is queued
again.

* `Inv`: what the slot and the task hold, and what has become of each post.
* `inv_step`: every event keeps it.
* `posts_accounted`: over any interleaving an action is called at most once, with its instance and
  after a clean pass; and it is called, unless a later post came before that pass.
-/

namespace Hashx86
namespace PostPresent

open Lib

/-- The fields of the desktop, and what `RunPostPresentAction` has copied out and not yet called. A
null pointer is `none`. -/
structure Desktop (α ι : Type) where
  isDirty : Bool
  postPresentAction : Option α
  postPresentInstance : Option ι
  copied : Option (α × Option ι)

/-- What the interrupt side does, the two passes of the task, and the call that ends the second. The
taskbar and the start menu may be dirty at `draw`. -/
inductive Event (α ι : Type) where
  | post (action : Option α) (inst : Option ι)
  | markDirty
  | draw (menusDirty : Bool)
  | pass
  | call

variable {α ι : Type}

namespace Desktop

def postAfterPresent (d : Desktop α ι) (action : Option α) (inst : Option ι) : Desktop α ι :=
  { d with postPresentAction := action, postPresentInstance := inst }

/-- A dirty desktop is drawn in full and is clean then. -/
def draw (d : Desktop α ι) (menusDirty : Bool) : Desktop α ι :=
  if d.isDirty || menusDirty then { d with isDirty := false } else d

/-- The guarded part of `RunPostPresentAction`. -/
def takeAction (d : Desktop α ι) : Desktop α ι :=
  if d.isDirty then d
  else { d with
    postPresentAction := none
    postPresentInstance := none
    copied := d.postPresentAction.map (·, d.postPresentInstance) }

/-- An event, and the action that is called by it. The task makes no pass while it is to call. -/
def step (d : Desktop α ι) : Event α ι → Desktop α ι × Option (α × Option ι)
  | .post action inst => (d.postAfterPresent action inst, none)
  | .markDirty => ({ d with isDirty := true }, none)
  | .draw menusDirty => (if d.copied.isNone then d.draw menusDirty else d, none)
  | .pass => (if d.copied.isNone then d.takeAction else d, none)
  | .call => ({ d with copied := none }, d.copied)

end Desktop

/-- The desktop after some events, how many there were, the numbers of the posts in the slot and with
the task, and the calls so far with the numbers of their posts. -/
structure Trace (α ι : Type) where
  desktop : Desktop α ι
  time : Nat
  posted : Nat
  copiedAt : Nat
  calls : List (Nat × α × Option ι)

def Trace.start (d : Desktop α ι) : Trace α ι := ⟨d, 0, 0, 0, []⟩

def Trace.step (t : Trace α ι) (e : Event α ι) : Trace α ι where
  desktop := (t.desktop.step e).1
  time := t.time + 1
  posted := if let .post _ _ := e then t.time else t.posted
  copiedAt := if let .pass := e then
      if t.desktop.copied.isNone && !t.desktop.isDirty then t.posted else t.copiedAt
    else t.copiedAt
  calls := t.calls ++ ((t.desktop.step e).2.map (t.copiedAt, ·)).toList

/-! ## What is asked -/

/-- A pass of the task that finds the desktop clean. -/
def CleanPass (d : Desktop α ι) (es : List (Event α ι)) (k : Nat) : Prop :=
  es[k]? = some .pass ∧
    (run (fun d e => (d.step e).1) d (es.take k)).isDirty = false ∧
    (run (fun d e => (d.step e).1) d (es.take k)).copied = none

def IsPost (es : List (Event α ι)) (n : Nat) : Prop := ∃ a i, es[n]? = some (.post a i)

/-- The calls account for the posts of some events. -/
structure Accounted (d : Desktop α ι) (es : List (Event α ι)) : Prop where
  once : ((run Trace.step (Trace.start d) es).calls.map Prod.fst).Pairwise (· < ·)
  right : ∀ n a i, (n, a, i) ∈ (run Trace.step (Trace.start d) es).calls →
    es[n]? = some (.post (some a) i) ∧ ∃ k, n < k ∧ CleanPass d es k
  served : ∀ n a i k, es[n]? = some (.post (some a) i) → n < k → CleanPass d es k →
    (∀ m, n < m → m < k → ¬ IsPost es m) →
    (n, a, i) ∈ (run Trace.step (Trace.start d) es).calls ∨
      (run Trace.step (Trace.start d) es).desktop.copied = some (a, i)

/-! ## Events at the end of a trace -/

variable {d : Desktop α ι} {es : List (Event α ι)} {e : Event α ι} {n k : Nat}

theorem getElem?_append_some {x : Event α ι} (h : es[n]? = some x) : (es ++ [e])[n]? = some x := by
  obtain ⟨hlt, -⟩ := List.getElem?_eq_some_iff.mp h
  rwa [List.getElem?_append_left hlt]

theorem getElem?_append_cases {x : Event α ι} (h : (es ++ [e])[n]? = some x) :
    es[n]? = some x ∨ n = es.length ∧ e = x := by
  obtain ⟨hlt, -⟩ := List.getElem?_eq_some_iff.mp h
  rw [List.length_append, List.length_singleton] at hlt
  rcases Nat.lt_succ_iff_lt_or_eq.mp hlt with hn | rfl
  · rw [List.getElem?_append_left hn] at h
    exact .inl h
  · rw [List.getElem?_concat_length] at h
    exact .inr ⟨rfl, Option.some.inj h⟩

theorem lt_length {x : Event α ι} (h : es[n]? = some x) : n < es.length :=
  (List.getElem?_eq_some_iff.mp h).1

theorem CleanPass.append (h : CleanPass d es k) : CleanPass d (es ++ [e]) k := by
  have hlt := lt_length h.1
  unfold CleanPass
  rw [List.take_append_of_le_length (Nat.le_of_lt hlt)]
  exact ⟨getElem?_append_some h.1, h.2⟩

/-- A clean pass was one before, or is the last event. -/
theorem CleanPass.cases (h : CleanPass d (es ++ [e]) k) : CleanPass d es k ∨
    k = es.length ∧ e = .pass ∧ (run (fun d e => (d.step e).1) d es).isDirty = false ∧
      (run (fun d e => (d.step e).1) d es).copied = none := by
  obtain ⟨hk, hclean⟩ := h
  rcases getElem?_append_cases hk with hk | ⟨rfl, rfl⟩
  · rw [List.take_append_of_le_length (Nat.le_of_lt (lt_length hk))] at hclean
    exact .inl ⟨hk, hclean⟩
  · rw [List.take_left] at hclean
    exact .inr ⟨rfl, rfl, hclean⟩

theorem IsPost.append (h : IsPost es n) : IsPost (es ++ [e]) n :=
  have ⟨a, i, hn⟩ := h
  ⟨a, i, getElem?_append_some hn⟩

/-! ## The invariant -/

/-- The action of a post is in the slot, with the task, or has been called. -/
def Has (t : Trace α ι) (n : Nat) (a : α) (i : Option ι) : Prop :=
  (t.desktop.postPresentAction = some a ∧ t.desktop.postPresentInstance = i ∧ t.posted = n) ∨
    (t.desktop.copied = some (a, i) ∧ t.copiedAt = n) ∨ (n, a, i) ∈ t.calls

/-- A later post came before the next clean pass. -/
def Replaced (d : Desktop α ι) (es : List (Event α ι)) (n : Nat) : Prop :=
  ∃ m, n < m ∧ IsPost es m ∧ ∀ k, n < k → k < m → ¬ CleanPass d es k

/-- What the slot and the task hold was posted, and what was posted is not lost. -/
structure Inv (d : Desktop α ι) (es : List (Event α ι)) (t : Trace α ι) : Prop where
  desktop : t.desktop = run (fun d e => (d.step e).1) d es
  time : t.time = es.length
  slot : ∀ a, t.desktop.postPresentAction = some a →
    es[t.posted]? = some (.post (some a) t.desktop.postPresentInstance) ∧
      ∀ k, t.posted < k → ¬ CleanPass d es k
  held : ∀ a i, t.desktop.copied = some (a, i) →
    es[t.copiedAt]? = some (.post (some a) i) ∧ ∃ k, t.copiedAt < k ∧ CleanPass d es k
  called : ∀ n a i, (n, a, i) ∈ t.calls →
    es[n]? = some (.post (some a) i) ∧ ∃ k, n < k ∧ CleanPass d es k
  sorted : (t.calls.map Prod.fst).Pairwise (· < ·)
  before_held : t.desktop.copied ≠ none → ∀ c ∈ t.calls, c.1 < t.copiedAt
  before_slot : t.desktop.postPresentAction ≠ none →
    (∀ c ∈ t.calls, c.1 < t.posted) ∧ (t.desktop.copied ≠ none → t.copiedAt < t.posted)
  served : ∀ n a i, es[n]? = some (.post (some a) i) → Has t n a i ∨ Replaced d es n

theorem Replaced.append (h : Replaced d es n) : Replaced d (es ++ [e]) n := by
  obtain ⟨m, hnm, hm, hk⟩ := h
  refine ⟨m, hnm, hm.append, fun k hnk hkm hclean => ?_⟩
  obtain ⟨a, i, hpost⟩ := hm
  have hlt := lt_length hpost
  rcases hclean.cases with hclean | ⟨hlen, -⟩
  · exact hk k hnk hkm hclean
  · omega

theorem posted_append {a : α} {i : Option ι}
    (h : es[n]? = some (.post (some a) i) ∧ ∃ k, n < k ∧ CleanPass d es k) :
    (es ++ [e])[n]? = some (.post (some a) i) ∧ ∃ k, n < k ∧ CleanPass d (es ++ [e]) k :=
  have ⟨hn, k, hk, hclean⟩ := h
  ⟨getElem?_append_some hn, k, hk, hclean.append⟩

variable {t : Trace α ι}

theorem step_desktop (h : Inv d es t) :
    (t.step e).desktop = run (fun d e => (d.step e).1) d (es ++ [e]) := by
  rw [run_append, ← h.desktop]
  rfl

theorem step_time (h : Inv d es t) : (t.step e).time = (es ++ [e]).length := by
  rw [List.length_append, List.length_singleton, ← h.time]
  rfl

/-- An event that leaves the slot and the task alone. -/
theorem inv_quiet (h : Inv d es t) (hpost : ∀ a i, e ≠ .post a i)
    (hclean : ¬ (e = .pass ∧ t.desktop.isDirty = false ∧ t.desktop.copied = none))
    (haction : (t.step e).desktop.postPresentAction = t.desktop.postPresentAction)
    (hinst : (t.step e).desktop.postPresentInstance = t.desktop.postPresentInstance)
    (hcopied : (t.step e).desktop.copied = t.desktop.copied) (hposted : (t.step e).posted = t.posted)
    (hat : (t.step e).copiedAt = t.copiedAt) (hcalls : (t.step e).calls = t.calls) :
    Inv d (es ++ [e]) (t.step e) where
  desktop := step_desktop h
  time := step_time h
  slot a ha := by
    rw [haction] at ha
    obtain ⟨hget, hnone⟩ := h.slot a ha
    rw [hposted, hinst]
    refine ⟨getElem?_append_some hget, fun k hk hpass => ?_⟩
    rcases hpass.cases with hpass | ⟨-, he, hdirty, hnot⟩
    · exact hnone k hk hpass
    · rw [← h.desktop] at hdirty hnot
      exact hclean ⟨he, hdirty, hnot⟩
  held a i hai := by
    rw [hcopied] at hai
    rw [hat]
    exact posted_append (h.held a i hai)
  called n a i hmem := by
    rw [hcalls] at hmem
    exact posted_append (h.called n a i hmem)
  sorted := by
    rw [hcalls]
    exact h.sorted
  before_held := by
    rw [hcopied, hcalls, hat]
    exact h.before_held
  before_slot := by
    rw [haction, hcopied, hcalls, hat, hposted]
    exact h.before_slot
  served n a i hn := by
    rcases getElem?_append_cases hn with hn | ⟨-, he⟩
    · unfold Has
      rw [haction, hinst, hcopied, hposted, hat, hcalls]
      exact (h.served n a i hn).imp_right Replaced.append
    · exact absurd he (hpost _ _)

theorem called_lt (h : Inv d es t) : ∀ c ∈ t.calls, c.1 < es.length :=
  fun ⟨n, a, i⟩ hc => lt_length (h.called n a i hc).1

/-- A post takes the slot; what was in it has been replaced. -/
theorem inv_post (h : Inv d es t) (action : Option α) (inst : Option ι) :
    Inv d (es ++ [.post action inst]) (t.step (.post action inst)) where
  desktop := step_desktop h
  time := step_time h
  slot a ha := by
    have hlast : (es ++ [Event.post action inst])[es.length]? = some (.post action inst) :=
      List.getElem?_concat_length
    have ha' : action = some a := ha
    change (es ++ [Event.post action inst])[t.time]? = some (.post (some a) inst) ∧
      ∀ k, t.time < k → _
    rw [h.time, ← ha']
    refine ⟨hlast, fun k hk hclean => ?_⟩
    have hlt := lt_length hclean.1
    rw [List.length_append, List.length_singleton] at hlt
    omega
  held a i hai := posted_append (h.held a i hai)
  called n a i hmem := by
    rw [show (t.step (.post action inst)).calls = t.calls ++ [] from rfl, List.append_nil] at hmem
    exact posted_append (h.called n a i hmem)
  sorted := by
    rw [show (t.step (.post action inst)).calls = t.calls ++ [] from rfl, List.append_nil]
    exact h.sorted
  before_held hne := by
    rw [show (t.step (.post action inst)).calls = t.calls ++ [] from rfl, List.append_nil]
    exact h.before_held hne
  before_slot _ := by
    rw [show (t.step (.post action inst)).calls = t.calls ++ [] from rfl, List.append_nil]
    change (∀ c ∈ t.calls, c.1 < t.time) ∧ (t.desktop.copied ≠ none → t.copiedAt < t.time)
    rw [h.time]
    refine ⟨called_lt h, fun hne => ?_⟩
    obtain ⟨⟨a, i⟩, hai⟩ := Option.ne_none_iff_exists'.mp hne
    exact lt_length (h.held a i hai).1
  served n a i hn := by
    rcases getElem?_append_cases hn with hn | ⟨rfl, he⟩
    · rcases h.served n a i hn with (⟨ha, hi, rfl⟩ | hheld | hcall) | hreplaced
      · refine .inr ⟨es.length, lt_length hn, ⟨action, inst, List.getElem?_concat_length⟩,
          fun k hk hlt hclean => ?_⟩
        rcases hclean.cases with hclean | ⟨hlen, -⟩
        · exact (h.slot a ha).2 k hk hclean
        · omega
      · exact .inl (.inr (.inl hheld))
      · exact .inl (.inr (.inr (List.mem_append_left _ hcall)))
      · exact .inr hreplaced.append
    · obtain ⟨rfl, rfl⟩ := Event.post.inj he
      exact .inl (.inl ⟨rfl, rfl, h.time⟩)

/-- A clean pass hands what is in the slot to the task. -/
theorem inv_take (h : Inv d es t) (hdirty : t.desktop.isDirty = false)
    (hcopied : t.desktop.copied = none) : Inv d (es ++ [.pass]) (t.step .pass) := by
  have hdesktop : (t.step .pass).desktop = { t.desktop with
      postPresentAction := none
      postPresentInstance := none
      copied := t.desktop.postPresentAction.map (·, t.desktop.postPresentInstance) } := by
    change (if t.desktop.copied.isNone then t.desktop.takeAction else t.desktop) = _
    rw [hcopied, if_pos Option.isNone_none, Desktop.takeAction,
      if_neg (by rw [hdirty]; exact Bool.false_ne_true)]
  have hat : (t.step .pass).copiedAt = t.posted := by
    change (if t.desktop.copied.isNone && !t.desktop.isDirty then t.posted else t.copiedAt) = _
    rw [hcopied, hdirty]
    rfl
  have hcalls : (t.step .pass).calls = t.calls := List.append_nil _
  have hpass : CleanPass d (es ++ [.pass]) es.length := by
    refine ⟨List.getElem?_concat_length, ?_⟩
    rw [List.take_left, ← h.desktop]
    exact ⟨hdirty, hcopied⟩
  constructor
  case desktop => exact step_desktop h
  case time => exact step_time h
  case slot =>
    rw [hdesktop]
    exact nofun
  case held =>
    intro a i hai
    rw [hdesktop] at hai
    obtain ⟨b, hb, hbi⟩ := Option.map_eq_some_iff.mp hai
    obtain ⟨rfl, rfl⟩ := Prod.mk.inj hbi
    have hget := (h.slot b hb).1
    rw [hat]
    exact ⟨getElem?_append_some hget, es.length, lt_length hget, hpass⟩
  case called =>
    rw [hcalls]
    exact fun n a i hmem => posted_append (h.called n a i hmem)
  case sorted =>
    rw [hcalls]
    exact h.sorted
  case before_held =>
    rw [hcalls, hat, hdesktop]
    intro hne
    exact (h.before_slot fun hnone => hne (by rw [hnone]; rfl)).1
  case before_slot =>
    rw [hdesktop]
    exact fun hne => absurd rfl hne
  case served =>
    intro n a i hn
    rcases getElem?_append_cases hn with hn | ⟨-, he⟩
    · unfold Has
      rw [hcalls, hat, hdesktop]
      rcases h.served n a i hn with (⟨ha, hi, rfl⟩ | ⟨hheld, -⟩ | hcall) | hreplaced
      · exact .inl (.inr (.inl ⟨by rw [ha, hi]; rfl, rfl⟩))
      · exact absurd (hcopied.symm.trans hheld) nofun
      · exact .inl (.inr (.inr hcall))
      · exact .inr hreplaced.append
    · exact nomatch he

/-- The task calls what it holds. -/
theorem inv_call (h : Inv d es t) {a : α} {i : Option ι} (hcopied : t.desktop.copied = some (a, i)) :
    Inv d (es ++ [.call]) (t.step .call) := by
  have hcalls : (t.step .call).calls = t.calls ++ [(t.copiedAt, a, i)] := by
    change t.calls ++ (t.desktop.copied.map (t.copiedAt, ·)).toList = _
    rw [hcopied]
    rfl
  have hne : t.desktop.copied ≠ none := by
    rw [hcopied]
    exact Option.some_ne_none _
  have hlast : ∀ c ∈ t.calls ++ [(t.copiedAt, a, i)],
      c ∈ t.calls ∨ c = (t.copiedAt, a, i) := fun c hc => by
    rwa [List.mem_append, List.mem_singleton] at hc
  constructor
  case desktop => exact step_desktop h
  case time => exact step_time h
  case slot =>
    intro b hb
    obtain ⟨hget, hnone⟩ := h.slot b hb
    refine ⟨getElem?_append_some hget, fun k hk hpass => ?_⟩
    rcases hpass.cases with hpass | ⟨-, he, -⟩
    · exact hnone k hk hpass
    · exact nomatch he
  case held => exact nofun
  case called =>
    rw [hcalls]
    intro n b j hmem
    rcases hlast _ hmem with hmem | heq
    · exact posted_append (h.called n b j hmem)
    · cases heq
      exact posted_append (h.held a i hcopied)
  case sorted =>
    rw [hcalls, List.map_append, List.pairwise_append]
    refine ⟨h.sorted, List.pairwise_singleton _ _, fun x hx y hy => ?_⟩
    obtain ⟨c, hc, rfl⟩ := List.mem_map.mp hx
    obtain rfl := List.mem_singleton.mp hy
    exact h.before_held hne c hc
  case before_held => exact fun hnone => absurd rfl hnone
  case before_slot =>
    rw [hcalls]
    intro hslot
    obtain ⟨hbefore, hheld⟩ := h.before_slot hslot
    refine ⟨fun c hc => ?_, fun hnone => absurd rfl hnone⟩
    rcases hlast c hc with hc | rfl
    · exact hbefore c hc
    · exact hheld hne
  case served =>
    intro n b j hn
    rcases getElem?_append_cases hn with hn | ⟨-, he⟩
    · unfold Has
      rw [hcalls]
      rcases h.served n b j hn with (hslot | ⟨hheld, rfl⟩ | hcall) | hreplaced
      · exact .inl (.inl hslot)
      · obtain ⟨rfl, rfl⟩ := Prod.mk.inj (Option.some.inj (hcopied.symm.trans hheld))
        exact .inl (.inr (.inr (List.mem_append_right _ (List.mem_singleton_self _))))
      · exact .inl (.inr (.inr (List.mem_append_left _ hcall)))
      · exact .inr hreplaced.append
    · exact nomatch he

/-- Every event keeps the invariant. -/
theorem inv_step (h : Inv d es t) (e : Event α ι) : Inv d (es ++ [e]) (t.step e) := by
  have hnil : t.calls ++ [] = t.calls := List.append_nil _
  cases e with
  | post action inst => exact inv_post h action inst
  | markDirty => exact inv_quiet h nofun (fun hc => nomatch hc.1) rfl rfl rfl rfl rfl hnil
  | draw menusDirty =>
    have hdraw : ∀ d : Desktop α ι, (d.draw menusDirty).postPresentAction = d.postPresentAction ∧
        (d.draw menusDirty).postPresentInstance = d.postPresentInstance ∧
        (d.draw menusDirty).copied = d.copied := by
      intro d
      unfold Desktop.draw
      split <;> exact ⟨rfl, rfl, rfl⟩
    have hstep : (t.step (.draw menusDirty)).desktop =
      if t.desktop.copied.isNone then t.desktop.draw menusDirty else t.desktop := rfl
    obtain ⟨haction, hinst, hcopied⟩ := hdraw t.desktop
    refine inv_quiet h nofun (fun hc => nomatch hc.1) ?_ ?_ ?_ rfl rfl hnil <;> rw [hstep] <;> split
    · exact haction
    · rfl
    · exact hinst
    · rfl
    · exact hcopied
    · rfl
  | pass =>
    by_cases hclean : t.desktop.isDirty = false ∧ t.desktop.copied = none
    · exact inv_take h hclean.1 hclean.2
    · have hstep : (t.step .pass).desktop = t.desktop := by
        change (if t.desktop.copied.isNone then t.desktop.takeAction else t.desktop) = _
        cases hcopied : t.desktop.copied with
        | some ai => rfl
        | none =>
          have hdirty : t.desktop.isDirty = true :=
            eq_true_of_ne_false fun hdirty => hclean ⟨hdirty, hcopied⟩
          rw [if_pos Option.isNone_none, Desktop.takeAction, if_pos hdirty]
      have hat : (t.step .pass).copiedAt = t.copiedAt := by
        change (if t.desktop.copied.isNone && !t.desktop.isDirty then t.posted else t.copiedAt) = _
        refine if_neg fun hboth => hclean ?_
        rw [Bool.and_eq_true, Option.isNone_iff_eq_none, Bool.not_eq_true'] at hboth
        exact hboth.symm
      exact inv_quiet h nofun (fun hc => hclean hc.2) (by rw [hstep]) (by rw [hstep]) (by rw [hstep])
        rfl hat hnil
  | call =>
    cases hcopied : t.desktop.copied with
    | some ai => exact inv_call h hcopied
    | none =>
      have hcalls : (t.step .call).calls = t.calls := by
        change t.calls ++ (t.desktop.copied.map (t.copiedAt, ·)).toList = _
        rw [hcopied]
        exact hnil
      exact inv_quiet h nofun (fun hc => nomatch hc.1) rfl rfl hcopied.symm rfl rfl hcalls

/-! ## Runs -/

/-- The invariant holds after any events, on a desktop where nothing is queued. -/
theorem inv_run (hslot : d.postPresentAction = none) (hcopied : d.copied = none)
    (es : List (Event α ι)) : Inv d es (run Trace.step (Trace.start d) es) := by
  induction es using List.reverseRecOn with
  | nil =>
    exact {
      desktop := rfl
      time := rfl
      slot := fun a ha => nomatch hslot.symm.trans ha
      held := fun a i hai => nomatch hcopied.symm.trans hai
      called := nofun
      sorted := .nil
      before_held := fun hne => absurd hcopied hne
      before_slot := fun hne => absurd hslot hne
      served := nofun }
  | append_singleton es e ih =>
    rw [run_append]
    exact inv_step ih e

/-- Over any interleaving, from a desktop where nothing is queued, the calls account for the posts. -/
theorem posts_accounted (isDirty : Bool) (es : List (Event α ι)) :
    Accounted ⟨isDirty, none, none, none⟩ es := by
  have h := inv_run (d := ⟨isDirty, none, none, none⟩) rfl rfl es
  refine ⟨h.sorted, h.called, fun n a i k hn hnk hclean hposts => ?_⟩
  rcases h.served n a i hn with (⟨ha, -, rfl⟩ | ⟨hheld, -⟩ | hcall) | ⟨m, hnm, hm, hnone⟩
  · exact absurd hclean ((h.slot a ha).2 k hnk)
  · exact .inr hheld
  · exact .inl hcall
  · -- the post that replaced it came before the pass, or the pass before that post
    rcases Nat.lt_trichotomy m k with hlt | rfl | hgt
    · exact absurd hm (hposts m hnm hlt)
    · obtain ⟨a', i', hpost⟩ := hm
      exact nomatch hpost.symm.trans hclean.1
    · exact absurd hclean (hnone k hnk hgt)

def twoPosts : List (Event Nat Nat) :=
  [.post (some 1) (some 10), .post (some 2) (some 20), .pass, .call]

/-- Of two posts before a clean pass, the first is never called. -/
theorem post_replaced : CleanPass ⟨false, none, none, none⟩ twoPosts 2 ∧
    (run Trace.step (Trace.start ⟨false, none, none, none⟩) twoPosts).calls = [(1, 2, some 20)] ∧
    (run Trace.step (Trace.start ⟨false, none, none, none⟩) twoPosts).desktop =
      ⟨false, none, none, none⟩ :=
  ⟨⟨rfl, rfl, rfl⟩, rfl, rfl⟩

end PostPresent
end Hashx86
