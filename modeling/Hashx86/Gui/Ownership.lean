import Hashx86.Gui.Exit
import Hashx86.Gui.Link

/-!
# Who owns a widget

* `Sound`: what is registered, named by a parent pointer or listed is allocated, and nothing is
  freed twice.
* `tidy_along`: along careful steps the widgets are sound, and an exit leaves nothing behind.
* `control_not_added`: a control that was created and not added to its window survives it.
-/

namespace Hashx86
namespace Gui

open Lib

structure Sound (g : GuiState) : Prop where
  registered : ∀ p ∈ g.hguiWidgets, (g.heap p).isSome
  parent : ∀ {p w q}, g.heap p = some w → w.parent = some q → (g.heap q).isSome
  child : ∀ {p c}, Lists g p c → ∃ v, g.heap c = some v ∧ v.parent = some p
  freedOnce : g.freed.Nodup

def Tidy (g : GuiState) (op : GuiOp) : Prop :=
  Sound (op.step g) ∧ ∀ pid, op = .exit pid → pid ≠ 0 → Gone g (op.step g) pid

namespace Owned

variable {g : GuiState}

theorem sound (h : Owned g) : Sound g where
  registered := fun p hp => by
    obtain ⟨w, hw, -⟩ := h.registered p hp
    rw [hw]
    rfl
  parent := fun hw hp => by
    obtain ⟨-, v, hv, -⟩ := h.parent hw hp
    rw [hv]
    rfl
  child := h.child
  freedOnce := h.freedOnce

theorem step (h : Owned g) {op : GuiOp} (hc : Careful g op) : Owned (op.step g) := by
  unfold GuiOp.step
  split
  · exact h
  next hn =>
  cases op with
  | create pid parentID window copied =>
    have hp : pid ≠ 0 ∧ pid ∉ g.exited := by simpa [GuiOp.caller] using hn
    exact h.create hp.1 hp.2 hc
  | addChild pid parentID childID =>
    have hp : pid ≠ 0 ∧ pid ∉ g.exited := by simpa [GuiOp.caller] using hn
    exact h.handleAddChild hp.1 hc
  | delete pid id =>
    have hp : pid ≠ 0 ∧ pid ∉ g.exited := by simpa [GuiOp.caller] using hn
    exact h.delete hp.1 hc
  | close w posted => exact h.close w posted
  | drain => exact h.drain hc
  | exit pid => exact (h.exit hc).1
  | raise p c => exact h.raise p c
  | clickTab i =>
    obtain ⟨r, hr⟩ := clickTab_eq g i
    dsimp only
    rw [hr]
    exact h.withTabs g.tabs g.tabCount r

/-- A process that has exited has nothing, before and after the request that it cannot make. -/
theorem gone_of_exited {pid : Nat} (h : Owned g) (hx : pid ∈ g.exited) : Gone g g pid where
  left := fun hw hp => absurd hx (hp ▸ h.exited hw)
  others := fun hw hp => absurd hx (hp ▸ h.exited hw)

theorem tidy (h : Owned g) {op : GuiOp} (hc : Careful g op) : Tidy g op := by
  refine ⟨(h.step hc).sound, ?_⟩
  rintro pid rfl hpid
  by_cases hx : pid ∈ g.exited
  · have hs : (GuiOp.exit pid).step g = g := if_pos (by simp [GuiOp.caller, hx])
    rw [hs]
    exact h.gone_of_exited hx
  · have hs : (GuiOp.exit pid).step g = exitProcess g pid :=
      if_neg (by simp [GuiOp.caller, hx, hpid])
    rw [hs]
    exact (h.exit hc).2 hpid

end Owned

theorem tidy_along (ops : List GuiOp) (h : Along GuiOp.step Careful .init ops) :
    Along GuiOp.step Tidy .init ops :=
  Along.of_inv (fun _ _ ho hc => ⟨ho.step hc, ho.tidy hc⟩) Owned.init h

/-- A statement about the widgets of a state is one about those below `next`. -/
theorem Owned.forall_heap {g : GuiState} {P : Ptr → Widget → Prop} (h : Owned g)
    (hp : ∀ p < g.next, ∀ w ∈ g.heap p, P p w) {p : Ptr} {w : Widget} (hw : g.heap p = some w) :
    P p w := hp p (h.bound hw) w hw

theorem Owned.allListed_pid {g : GuiState} {pid : Nat} (h : Owned g)
    (hl : ∀ p < g.next, ∀ w ∈ g.heap p, ∀ q ∈ w.parent, (g.heap q).any (·.pid == pid) →
      (g.heap q).any fun v => decide (p ∈ v.childrenList)) :
    AllListed g fun q => ∃ w, g.heap q = some w ∧ w.pid = pid := by
  rintro p w q hw hq ⟨v, hv, hp⟩
  exact (any_lists g q p).mp (h.forall_heap hl hw q hq (by simp [hv, hp]))

/-- A process opens a window and exits. -/
def openAndExit : List GuiOp := [.create 7 0 true true, .addChild 7 0 1000, .exit 7]

theorem openAndExit_careful : Along GuiOp.step Careful .init openAndExit := by
  have h0 : Careful .init (.create 7 0 true true) :=
    ⟨by decide, fun p w => Owned.init.forall_heap (P := fun _ w => w.id ≠ 1000) (by decide)⟩
  have h1 : Careful (GuiOp.step .init (.create 7 0 true true)) (.addChild 7 0 1000) :=
    fun _ _ _ _ _ => List.not_mem_nil
  refine ⟨h0, h1, fun _ => ⟨fun t ht => absurd ht List.not_mem_nil, ?_⟩, trivial⟩
  exact ((Owned.init.step h0).step h1).allListed_pid (by decide)

theorem tidy_along_openAndExit : Along GuiOp.step Tidy .init openAndExit :=
  tidy_along _ openAndExit_careful

/-- A window with a control that was created for it and not added. -/
def deleteWindow : List GuiOp :=
  [.create 7 0 true true, .addChild 7 0 1000, .create 7 1000 false true, .delete 7 1000]

theorem control_not_added : ¬ Along GuiOp.step Tidy .init deleteWindow := by
  rintro ⟨-, -, -, ⟨hs, -⟩, -⟩
  exact absurd (hs.parent (p := 3) (w := ⟨.control, 7, 1001, some 1, [], true⟩) (q := 1)
    (by decide) rfl) (by decide)

end Gui
end Hashx86
