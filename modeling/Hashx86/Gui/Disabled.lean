import Hashx86.Gui.Controls
import Hashx86.Gui.Tree

/-!
# Disabled controls

* `Quiet v e`: the event changes nothing that is shown and posts nothing.
* `Edits v e`: what a disabled widget still lets through. `InputBox` and `TextBox` do not look at
  the flag, and a `ScrollContainer` sets the value of its bar itself.
* `quiet_along`: from `SetEnabled(false)` on, the events of a run are quiet if and only if none
  edits.
-/

namespace Hashx86
namespace Controls

open Lib

def Quiet (v : Widget) (e : Event) : Prop := (v.step e).shown = v.shown ∧ v.posts e = []

/-- The keys that `InputBox` takes as an edit. -/
def inputEdits (f : Field) (key : List Char) : Prop :=
  key = "Backspace".toList ∧ f.cursor ≠ 0 ∨
    ∃ c, key = [c] ∧ isPrint c = true ∧ f.text.length + 1 < f.capacity

/-- `Backspace` and `Delete` -/
def specialEdits (f : Field) (key : Nat) : Prop :=
  key = 0x0E ∧ f.cursor ≠ 0 ∨ key = 0x53 ∧ f.cursor < f.text.length

/-- The keys that `TextBox` takes as an edit: it looks at the first character only. -/
def textEdits (f : Field) (key : List Char) : Prop :=
  ∃ c, key.head? = some c ∧ (c = '\r' ∨ c = '\n' ∨ isPrint c = true) ∧
    f.text.length + 1 < f.capacity

def Edits (v : Widget) (e : Event) : Prop :=
  match v.control, e with
  | .inputBox f, .keyDown key => inputEdits f key
  | .inputBox f, .specialKeyDown key => specialEdits f key
  | .textBox s, .keyDown key => s.readOnly = false ∧ textEdits s.field key
  | .textBox s, .specialKeyDown key => s.readOnly = false ∧ specialEdits s.field key
  | .scrollBar s, .containerWheel delta => s.range.clamp (s.range.value - delta) ≠ s.range.value
  | _, _ => False

/-! ## One event -/

theorem insert_text (f : Field) (c : Char) :
    (f.insert c).text = f.text ↔ ¬ f.text.length + 1 < f.capacity := by
  unfold Field.insert
  split
  · next h =>
    refine iff_of_false (fun he => ?_) (fun hn => hn h)
    have hlen := congrArg List.length he
    rw [List.length_insertIdx_of_le_length f.cursor_le] at hlen
    omega
  · next h => exact iff_of_true rfl h

theorem backspace_text (f : Field) : f.backspace.text = f.text ↔ f.cursor = 0 := by
  unfold Field.backspace
  split
  · next h => exact iff_of_true rfl h
  · next h =>
    refine iff_of_false (fun he => ?_) h
    have hlen := congrArg List.length he
    have := f.cursor_le
    rw [List.length_eraseIdx_of_lt (by omega)] at hlen
    omega

theorem delete_text (f : Field) : f.delete.text = f.text ↔ ¬ f.cursor < f.text.length := by
  unfold Field.delete
  split
  · next h =>
    refine iff_of_false (fun he => ?_) (fun hn => hn h)
    have hlen := congrArg List.length he
    rw [List.length_eraseIdx_of_lt h] at hlen
    omega
  · next h => exact iff_of_true rfl h

@[simp] theorem moveTo_text (f : Field) (i : Nat) : (f.moveTo i).text = f.text := rfl

theorem off_of_disabled {b : Base} (hb : b.enabled = false) : b.off = true := by
  rw [Base.off, hb]
  rfl

theorem Button.quiet {b : Base} (hb : b.enabled = false) (s : Button) (e : Event) :
    (s.handle b e).posts = [] := by
  have ho := off_of_disabled hb
  cases e with
  | mouseDown x y button => simp [Button.handle, ho, Out.same]
  | mouseUp x y button =>
    simp only [Button.handle, hb, Out.same]
    split
    · rfl
    · split <;> rfl
  | keyDown key => simp [Button.handle, ho, Out.same]
  | _ => rfl

theorem Slider.quiet {b : Base} (hb : b.enabled = false) (s : Slider) (e : Event) :
    (s.handle b e).state.range = s.range ∧ (s.handle b e).posts = [] := by
  have ho := off_of_disabled hb
  cases e with
  | mouseUp x y button =>
    simp only [Slider.handle]
    split <;> exact ⟨rfl, rfl⟩
  | _ => simp [Slider.handle, ho, Out.same]

theorem ScrollBar.quiet {b : Base} (hb : b.enabled = false) (s : ScrollBar) {e : Event}
    (he : ∀ delta, e ≠ .containerWheel delta) :
    (s.handle b e).state.range = s.range ∧ (s.handle b e).posts = [] := by
  have ho := off_of_disabled hb
  cases e with
  | containerWheel delta => exact absurd rfl (he delta)
  | _ => simp [ScrollBar.handle, ho, Out.same]

theorem ListView.quiet {b : Base} (hb : b.enabled = false) (s : ListView) (e : Event) :
    (s.handle b e).state.selectedIndex = s.selectedIndex ∧
      (s.handle b e).state.scrollOffset = s.scrollOffset ∧ (s.handle b e).posts = [] := by
  have ho := off_of_disabled hb
  cases e <;> simp [ListView.handle, ho, Out.same]

theorem SpinBox.quiet {b : Base} (hb : b.enabled = false) (s : SpinBox) (e : Event) :
    (s.handle b e).state.range = s.range ∧ (s.handle b e).posts = [] := by
  have ho := off_of_disabled hb
  cases e with
  | mouseUp x y button =>
    simp only [SpinBox.handle, ho]
    split <;> exact ⟨rfl, rfl⟩
  | _ => simp [SpinBox.handle, ho, Out.same]

theorem ComboBox.setOpen_selected (b : Base) (s : ComboBox) (value : Bool) :
    (s.setOpen b value).2.selected = s.selected := by
  unfold ComboBox.setOpen
  split <;> rfl

theorem ComboBox.quiet {b : Base} (hb : b.enabled = false) (s : ComboBox) (e : Event) :
    (s.handle b e).state.selected = s.selected ∧ (s.handle b e).posts = [] := by
  have ho := off_of_disabled hb
  cases e with
  | mouseUp x y button =>
    simp only [ComboBox.handle, ho]
    split <;> exact ⟨rfl, rfl⟩
  | setFocus result =>
    simp only [ComboBox.handle]
    split
    · exact ⟨s.setOpen_selected b false, rfl⟩
    · exact ⟨rfl, rfl⟩
  | _ => simp [ComboBox.handle, ho, Out.same]

theorem inputBox_onKeyDown_text (f : Field) (key : List Char) :
    (InputBox.onKeyDown f key).text = f.text ↔ ¬ inputEdits f key := by
  unfold InputBox.onKeyDown inputEdits
  split
  · next h =>
    rw [backspace_text]
    constructor
    · rintro h0 (⟨-, hc⟩ | ⟨c, hc, -⟩)
      · exact hc h0
      · exact absurd (h.symm.trans hc) (by simp)
    · exact fun hn => Classical.byContradiction fun hc => hn (.inl ⟨h, hc⟩)
  · next h =>
    split
    · next c =>
      split
      · next hp =>
        rw [insert_text]
        constructor
        · rintro hn (⟨hk, -⟩ | ⟨d, -, -, hl⟩)
          · exact h hk
          · exact hn hl
        · exact fun hn hl => hn (.inr ⟨c, rfl, hp, hl⟩)
      · next hp =>
        refine iff_of_true rfl ?_
        rintro (⟨hk, -⟩ | ⟨d, hd, hpd, -⟩)
        · exact h hk
        · exact hp (List.cons.inj hd |>.1 ▸ hpd)
    · next hne =>
      refine iff_of_true rfl ?_
      rintro (⟨hk, -⟩ | ⟨d, hd, -⟩)
      · exact h hk
      · exact hne d hd

theorem textBox_onKeyDown_text (s : TextBox) (key : List Char) :
    (s.onKeyDown key).text = s.field.text ↔ ¬ (s.readOnly = false ∧ textEdits s.field key) := by
  unfold TextBox.onKeyDown textEdits
  split
  · exact iff_of_true rfl fun ⟨_, c, hc, _⟩ => absurd hc (by simp)
  · next c _ =>
    split
    · next hr => exact iff_of_true rfl fun ⟨hf, _⟩ => absurd (hr.symm.trans hf) (by decide)
    · next hr =>
      have hr : s.readOnly = false := by simpa using hr
      split
      · next hc =>
        rw [insert_text]
        have hc : c = '\r' ∨ c = '\n' := by simpa using hc
        constructor
        · rintro hn ⟨-, d, -, -, hl⟩
          exact hn hl
        · exact fun hn hl => hn ⟨hr, c, rfl, hc.elim .inl fun h => .inr (.inl h), hl⟩
      · next hc =>
        split
        · next hp =>
          rw [insert_text]
          constructor
          · rintro hn ⟨-, d, -, -, hl⟩
            exact hn hl
          · exact fun hn hl => hn ⟨hr, c, rfl, .inr (.inr hp), hl⟩
        · next hp =>
          refine iff_of_true rfl ?_
          rintro ⟨-, d, hd, hk, -⟩
          obtain rfl : c = d := Option.some.inj hd
          simp only [Bool.or_eq_true, decide_eq_true_eq, not_or] at hc
          rcases hk with hk | hk | hk
          · exact hc.1 hk
          · exact hc.2 hk
          · exact hp hk

theorem inputBox_backspace (f : Field) : InputBox.onKeyDown f "Backspace".toList = f.backspace :=
  if_pos rfl

theorem inputBox_onSpecialKeyDown_text (f : Field) (key : Nat) :
    (InputBox.onSpecialKeyDown f key).text = f.text ↔ ¬ specialEdits f key := by
  unfold specialEdits
  by_cases hb : key = 0x0E
  · subst hb
    have he : InputBox.onSpecialKeyDown f 0x0E = f.backspace := inputBox_backspace f
    rw [he, backspace_text]
    simp
  · by_cases hd : key = 0x53
    · subst hd
      have he : InputBox.onSpecialKeyDown f 0x53 = f.delete := rfl
      rw [he, delete_text]
      simp
    · refine iff_of_true ?_ (fun h => h.elim (fun h => hb h.1) fun h => hd h.1)
      rw [InputBox.onSpecialKeyDown, if_neg hb, if_neg hd]
      split
      · rfl
      · split
        · rfl
        · split
          · rfl
          · split <;> rfl

theorem textBox_onSpecialKeyDown_text (s : TextBox) (key : Nat) :
    (s.onSpecialKeyDown key).text = s.field.text ↔
      ¬ (s.readOnly = false ∧ specialEdits s.field key) := by
  unfold TextBox.onSpecialKeyDown specialEdits
  split
  · next hr => exact iff_of_true rfl fun ⟨hf, _⟩ => absurd (hr.symm.trans hf) (by decide)
  · next hr =>
    have hr : s.readOnly = false := by simpa using hr
    by_cases hb : key = 0x0E
    · subst hb
      rw [if_neg (by decide), if_neg (by decide), if_pos rfl, backspace_text]
      simp [hr]
    · by_cases hd : key = 0x53
      · subst hd
        rw [if_neg (by decide), if_neg (by decide), if_neg (by decide), if_pos rfl, delete_text]
        simp [hr]
      · refine iff_of_true ?_ (fun h => h.2.elim (fun h => hb h.1) fun h => hd h.1)
        rw [if_neg hb, if_neg hd]
        split
        · rfl
        · split <;> rfl

theorem scrollBar_containerWheel (b : Base) (s : ScrollBar) (delta : Int) :
    (s.handle b (.containerWheel delta)).state.range.value = s.range.value ∧
      (s.handle b (.containerWheel delta)).posts = [] ↔
      ¬ s.range.clamp (s.range.value - delta) ≠ s.range.value := by
  rw [Classical.not_not]
  refine ⟨fun h => h.1, fun h => ⟨h, ?_⟩⟩
  exact if_pos h

/-- A disabled widget is quiet but for the edits. -/
theorem quiet_iff {v : Widget} (hv : v.base.enabled = false) (e : Event) :
    Quiet v e ↔ ¬ Edits v e := by
  obtain ⟨b, c⟩ := v
  have hshown : (Widget.step ⟨b, c⟩ e).shown = (c.handle b e).state.shown := by
    cases e <;> rfl
  unfold Quiet
  rw [hshown]
  cases c with
  | button s => exact iff_of_true ⟨rfl, s.quiet hv e⟩ id
  | slider s =>
    obtain ⟨hr, hp⟩ := s.quiet hv e
    exact iff_of_true ⟨congrArg (fun r => ([r.value], [])) hr, hp⟩ id
  | scrollBar s =>
    by_cases he : ∃ delta, e = .containerWheel delta
    · obtain ⟨delta, rfl⟩ := he
      refine Iff.trans ?_ (scrollBar_containerWheel b s delta)
      refine and_congr_left fun _ => ⟨fun h => (List.cons.inj (Prod.mk.inj h).1).1, fun h => ?_⟩
      exact congrArg (fun i => ([i], [])) h
    · obtain ⟨hr, hp⟩ := s.quiet hv fun delta hd => he ⟨delta, hd⟩
      refine iff_of_true ⟨congrArg (fun r => ([r.value], [])) hr, hp⟩ ?_
      cases e with
      | containerWheel delta => exact absurd ⟨delta, rfl⟩ he
      | _ => exact id
  | listView s =>
    obtain ⟨hi, ho, hp⟩ := s.quiet hv e
    refine iff_of_true ⟨?_, hp⟩ id
    exact congrArg (fun l : List Int => (l, [])) (by rw [hi, ho])
  | spinBox s =>
    obtain ⟨hr, hp⟩ := s.quiet hv e
    exact iff_of_true ⟨congrArg (fun r => ([r.value], [])) hr, hp⟩ id
  | comboBox s =>
    obtain ⟨hi, hp⟩ := s.quiet hv e
    exact iff_of_true ⟨congrArg (fun i => ([i], [])) hi, hp⟩ id
  | inputBox f =>
    have htext : ∀ t : List Char, (([], t) : List Int × List Char) = ([], f.text) ↔ t = f.text :=
      fun t => ⟨fun h => (Prod.mk.inj h).2, fun h => by rw [h]⟩
    cases e with
    | keyDown key =>
      exact (and_iff_left rfl).trans ((htext _).trans (inputBox_onKeyDown_text f key))
    | specialKeyDown key =>
      exact (and_iff_left rfl).trans ((htext _).trans (inputBox_onSpecialKeyDown_text f key))
    | _ => exact iff_of_true ⟨rfl, rfl⟩ id
  | textBox s =>
    have htext : ∀ t : List Char,
        (([], t) : List Int × List Char) = ([], s.field.text) ↔ t = s.field.text :=
      fun t => ⟨fun h => (Prod.mk.inj h).2, fun h => by rw [h]⟩
    cases e with
    | keyDown key =>
      exact (and_iff_left rfl).trans ((htext _).trans (textBox_onKeyDown_text s key))
    | specialKeyDown key =>
      exact (and_iff_left rfl).trans ((htext _).trans (textBox_onSpecialKeyDown_text s key))
    | _ => exact iff_of_true ⟨rfl, rfl⟩ id

/-! ## Runs -/

theorem ComboBox.setOpen_enabled (b : Base) (s : ComboBox) (value : Bool) :
    (s.setOpen b value).1.enabled = b.enabled := by
  unfold ComboBox.setOpen
  split
  · rfl
  · exact b.resize_enabled _ _

/-- A disabled widget stays disabled. -/
theorem handle_disabled {b : Base} (hb : b.enabled = false) (c : Control) (e : Event) :
    (c.handle b e).base.enabled = false := by
  have ho := off_of_disabled hb
  cases c with
  | button s =>
    simp only [Control.handle, Out.map]
    cases e with
    | mouseUp x y button =>
      simp only [Button.handle, Out.same, hb]
      split
      · exact hb
      · split <;> exact hb
    | _ => simp [Button.handle, Out.same, ho, hb]
  | slider s =>
    simp only [Control.handle, Out.map]
    cases e with
    | mouseUp x y button =>
      simp only [Slider.handle]
      split <;> exact hb
    | _ => simp [Slider.handle, Out.same, ho, hb]
  | scrollBar s =>
    simp only [Control.handle, Out.map]
    cases e with
    | containerWheel delta => exact hb
    | _ => simp [ScrollBar.handle, Out.same, ho, hb]
  | listView s =>
    simp only [Control.handle, Out.map]
    cases e <;> simp [ListView.handle, Out.same, ho, hb]
  | spinBox s =>
    simp only [Control.handle, Out.map]
    cases e with
    | mouseUp x y button =>
      simp only [SpinBox.handle, ho]
      split <;> exact hb
    | _ => simp [SpinBox.handle, Out.same, ho, hb]
  | comboBox s =>
    simp only [Control.handle, Out.map]
    cases e with
    | mouseUp x y button =>
      simp only [ComboBox.handle, ho]
      split <;> exact hb
    | setFocus result =>
      simp only [ComboBox.handle]
      split
      · exact (s.setOpen_enabled b false).trans hb
      · exact hb
    | _ => simp [ComboBox.handle, Out.same, ho, hb]
  | inputBox f => cases e <;> exact hb
  | textBox s => cases e <;> exact hb

theorem step_disabled {v : Widget} (hv : v.base.enabled = false) (e : Event) :
    (v.step e).base.enabled = false := by
  have h := handle_disabled hv v.control e
  cases e <;> exact h

theorem setEnabled_disabled (v : Widget) : (v.setEnabled false).base.enabled = false := by
  unfold Widget.setEnabled
  split
  · assumption
  · exact step_disabled rfl (.setFocus false)

/-- From `SetEnabled(false)` on, the events of a run change nothing that is shown and post nothing
if and only if none of them edits. -/
theorem quiet_along (v : Widget) (es : List Event) :
    Along Widget.step Quiet (v.setEnabled false) es ↔
      Along Widget.step (fun v e => ¬ Edits v e) (v.setEnabled false) es :=
  Along.iff_of_inv (I := fun v => v.base.enabled = false) (fun _ e hv _ => step_disabled hv e)
    (fun _ e hv => quiet_iff hv e) (setEnabled_disabled v)

/-- An input box in a form, both as its container sees it and with its text. -/
def input : Widget where
  base := ⟨7, 1, 0, 0, 100, 100, true, true, false, false⟩
  control := .inputBox ⟨[], 256, 0, by decide, by decide⟩

def form : WidgetTree.Tree Unit :=
  let v : WidgetTree.Node Unit :=
    ⟨0, .composite, 0, 0, 100, 100, true, true, false, false, none, true, (), fun _ _ => 0⟩
  .node v [.node { v with id := 1, shape := .leaf, isFocussable := true } []]

/-- The form with the box disabled, after a press on it. -/
def pressed : WidgetTree.Tree Unit :=
  let t := WidgetTree.setEnabled [1] false form
  run WidgetTree.Call.step t (WidgetTree.onMouseDown [] 10 10 1 t)

/-- The press gives the disabled box the focus, a key then goes to it, and it takes the key. -/
theorem disabled_input_edited :
    (pressed.get? [1]).any (fun s => !s.label.enabled && s.label.isFocused) = true ∧
      WidgetTree.onKeyDown pressed = some [1] ∧
      ¬ Along Widget.step Quiet (input.setEnabled false) [.setFocus true, .keyDown ['a']] := by
  refine ⟨by decide, by decide, fun ⟨_, ⟨h, _⟩, _⟩ => ?_⟩
  exact absurd h (by decide)

end Controls
end Hashx86
