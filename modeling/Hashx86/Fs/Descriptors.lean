import Hashx86.Fs.Files
import Hashx86.Lib.Run
import Hashx86.Sched.Live

/-!
# The slots of open files and the processes that hold them

A slot of the `SlotManager` should belong to a `File` that a live process has in its descriptor
table. `sys_open` and `sys_close` keep that (`held_open`, `held_close`), and so does every call of
the scheduler but one that ends a process with open descriptors: `KillProcess` deletes the PCB, and
with it the table, but closes nothing. `owned_run` says that the slots are owned all along a run
exactly when no step of it ends such a process.
-/

namespace Hashx86
namespace Fs
namespace Descriptors

open Lib Sched

/-- The kernel with its open files. -/
structure Sys where
  k : Kernel
  files : Files

inductive Call where
  | sched (op : Sched.Op)
  | sysOpen (flags : Int) (copied mounted : Bool) (a : OpenArgs)
  | sysClose (fd : Nat)

/-- The process of the running thread; a pointer to no PCB counts as `NULL`. -/
def caller (k : Kernel) : Option Nat := (currentProcess k).filter fun p => (k.ids p).isSome

/-- `CreateProcess` and `CloneCurrentProcess` clear the table of the new PCB. -/
def clearTable (k : Kernel) (f : Files) (op : Sched.Op) : Files :=
  match newPcbPtr op with
  | none => f
  | some p =>
    if (k.pcbs p).isNone then { f with fdTable := Function.update f.fdTable p fun _ => none } else f

def sysStep (threadExit : Nat) (s : Sys) : Call → Sys
  | .sched op => { k := step threadExit s.k op, files := clearTable s.k s.files op }
  | .sysOpen flags copied mounted a =>
    { s with files := (Fs.sysOpen s.files (caller s.k) flags copied mounted a).2 }
  | .sysClose fd => { s with files := (Fs.sysClose s.files (caller s.k) fd).2 }

/-! ## What should hold -/

/-- A live process has the file as descriptor `fd`. -/
structure Holds (ids : Nat → Option Nat) (f : Files) (p fd ptr : Nat) : Prop where
  live : (ids p).isSome
  ge : fdMin ≤ fd
  lt : fd < fdMax
  entry : f.fdTable p fd = some ptr

/-- Slot `i` is the stream of the file. -/
def Backs (f : Files) (i ptr : Nat) : Prop :=
  i < maxOpenFiles ∧ (f.slots i).map Slot.file = some (some ptr)

/-- Every slot in use belongs to a file that a live process holds. -/
def Owned (s : Sys) : Prop :=
  ∀ i < maxOpenFiles, (s.files.slots i).isSome →
    ∃ ptr p fd, Backs s.files i ptr ∧ Holds s.k.ids s.files p fd ptr

/-- No live process has an open file. -/
def NoneOpen (s : Sys) : Prop := ∀ p fd ptr, ¬ Holds s.k.ids s.files p fd ptr

/-- After the call the slots are owned, and all free when nothing is open. -/
def Right (threadExit : Nat) (s : Sys) (c : Call) : Prop :=
  Owned (sysStep threadExit s c) ∧
    (NoneOpen (sysStep threadExit s c) → ∀ i < maxOpenFiles,
      (sysStep threadExit s c).files.slots i = none)

/-- The call does not end a process that has open files. -/
def StepOk (threadExit : Nat) (s : Sys) : Call → Prop
  | .sched op => ∀ p ∈ victim threadExit s.k op, ∀ fd, fdMin ≤ fd → fd < fdMax →
      s.files.fdTable p fd = none
  | _ => True

/-! ## The invariant -/

/-- Slots and descriptors belong to each other, one to one. -/
structure Held (ids : Nat → Option Nat) (f : Files) : Prop where
  owned : ∀ i < maxOpenFiles, (f.slots i).isSome → ∃ ptr p fd, Backs f i ptr ∧ Holds ids f p fd ptr
  backed : ∀ {p fd ptr}, Holds ids f p fd ptr → f.heap ptr = some true ∧ ∃ i, Backs f i ptr
  one_holder : ∀ {p q fd fd' ptr}, Holds ids f p fd ptr → Holds ids f q fd' ptr → p = q ∧ fd = fd'
  one_slot : ∀ {i j ptr}, Backs f i ptr → Backs f j ptr → i = j

variable {ids : Nat → Option Nat} {f : Files}

theorem held_empty (ids : Nat → Option Nat) : Held ids Files.empty where
  owned _ _ h := absurd h Bool.false_ne_true
  backed h := absurd h.entry (Option.some_ne_none _).symm
  one_holder h := absurd h.entry (Option.some_ne_none _).symm
  one_slot h := absurd h.2 (Option.some_ne_none _).symm

/-- A file of a slot is a file on the heap. -/
theorem Held.heap (h : Held ids f) {i ptr : Nat} (hb : Backs f i ptr) : f.heap ptr = some true := by
  obtain ⟨hi, hs⟩ := hb
  obtain ⟨sl, hsl, -⟩ := Option.map_eq_some_iff.mp hs
  obtain ⟨ptr', p, fd, hb', hh⟩ := h.owned i hi (by rw [hsl]; rfl)
  have heq : ptr' = ptr := Option.some.inj (Option.some.inj (hb'.2.symm.trans hs))
  exact heq ▸ (h.backed hh).1

/-! ## Slots -/

theorem alloc_some {i : Nat} (h : f.alloc = some i) : i < maxOpenFiles ∧ f.slots i = none := by
  have hmem := List.mem_of_find?_eq_some h
  have hnone := List.find?_some h
  exact ⟨List.mem_range.mp hmem, Option.isNone_iff_eq_none.mp hnone⟩

theorem find_eq {i ptr : Nat} (hb : Backs f i ptr)
    (huniq : ∀ {j}, Backs f j ptr → j = i) : f.find ptr = some i := by
  cases hf : f.find ptr with
  | none =>
    have hno := List.find?_eq_none.mp hf i (List.mem_range.mpr hb.1)
    exact absurd hb.2 (by simpa using hno)
  | some j =>
    have hmem := List.mem_of_find?_eq_some hf
    have heq := List.find?_some hf
    exact congrArg some (huniq ⟨List.mem_range.mp hmem, by simpa using heq⟩)

/-- A file that was opened. -/
def opened (f : Files) (ptr i : Nat) (isDir : Bool) : Files :=
  { f with
    slots := Function.update f.slots i (some { file := some ptr, isDir := isDir })
    heap := Function.update f.heap ptr (some true) }

/-- A file that was closed and deleted. -/
def dropped (f : Files) (ptr i : Nat) : Files :=
  { f with slots := Function.update f.slots i none, heap := Function.update f.heap ptr none }

theorem opened_dropped {ptr i : Nat} (isDir : Bool) (hs : f.slots i = none)
    (hh : f.heap ptr = none) : dropped (opened f ptr i isDir) ptr i = f := by
  unfold opened dropped
  dsimp only
  rw [Function.update_idem, Function.update_idem, ← hs, Function.update_eq_self, ← hh,
    Function.update_eq_self]

theorem close_delete {ptr i : Nat} (hh : f.heap ptr = some true) (hf : f.find ptr = some i) :
    (f.close ptr).delete ptr = dropped f ptr i := by
  have hclose : f.close ptr = (f.setSlot i none).setFile ptr (some false) := by
    unfold Files.close Files.closeFile
    rw [if_pos hh, hf]
  rw [hclose]
  unfold Files.delete Files.close
  rw [if_neg (by
    unfold Files.setFile
    dsimp only
    rw [Function.update_self]
    decide)]
  unfold Files.setFile Files.setSlot dropped
  dsimp only
  rw [Function.update_idem]

/-! ## `sys_open` and `sys_close` -/

theorem openDir_cases (f : Files) (a : OpenArgs) : openDir f a = (none, f) ∨
    ∃ i isDir, openDir f a = (some a.ptr, opened f a.ptr i isDir) ∧ f.heap a.ptr = none ∧
      i < maxOpenFiles ∧ f.slots i = none := by
  unfold openDir
  split
  · exact .inl rfl
  cases ha : f.alloc with
  | none => exact .inl rfl
  | some i =>
    obtain ⟨hi, hs⟩ := alloc_some ha
    dsimp only
    by_cases hnew : (f.setSlot i (some { file := none, isDir := true })).canNewFile a.ptr = true
    · rw [if_neg (by rw [hnew]; decide)]
      have hfree : f.heap a.ptr = none := by
        have := ((Bool.and_eq_true _ _).mp hnew).2
        exact Option.isNone_iff_eq_none.mp this
      refine .inr ⟨i, true, ?_, hfree, hi, hs⟩
      unfold Files.setSlot Files.setFile opened
      dsimp only
      rw [Function.update_idem]
    · rw [if_pos (by simpa using hnew)]
      refine .inl ?_
      unfold Files.setSlot
      dsimp only
      rw [Function.update_idem, ← hs, Function.update_eq_self]

theorem openRegular_cases (f : Files) (a : OpenArgs) : openRegular f a = (none, f) ∨
    ∃ i isDir, openRegular f a = (some a.ptr, opened f a.ptr i isDir) ∧ f.heap a.ptr = none ∧
      i < maxOpenFiles ∧ f.slots i = none := by
  unfold openRegular
  split
  · exact .inl rfl
  by_cases hnew : f.canNewFile a.ptr = true
  · rw [if_neg (by rw [hnew]; decide)]
    have hfree : f.heap a.ptr = none := by
      have := ((Bool.and_eq_true _ _).mp hnew).2
      exact Option.isNone_iff_eq_none.mp this
    dsimp only
    cases ha : (f.setFile a.ptr (some false)).alloc with
    | none =>
      refine .inl ?_
      have hself : (f.setFile a.ptr (some false)).heap a.ptr = some false :=
        Function.update_self _ _ _
      unfold Files.delete Files.close
      rw [if_neg (by rw [hself]; decide)]
      unfold Files.setFile
      dsimp only
      rw [Function.update_idem, ← hfree, Function.update_eq_self]
    | some i =>
      obtain ⟨hi, hs⟩ := alloc_some ha
      refine .inr ⟨i, false, ?_, hfree, hi, hs⟩
      unfold Files.setSlot Files.setFile opened
      dsimp only
      rw [Function.update_idem]
  · rw [if_pos (by simpa using hnew)]
    exact .inl rfl

/-- `OpenWithFlags` fails and leaves everything as it was, or it opens a file in a free slot. -/
theorem openWithFlags_cases (f : Files) (flags : Nat) (a : OpenArgs) :
    openWithFlags f flags a = (none, f) ∨
    ∃ i isDir, openWithFlags f flags a = (some a.ptr, opened f a.ptr i isDir) ∧
      f.heap a.ptr = none ∧ i < maxOpenFiles ∧ f.slots i = none := by
  have hdir := openDir_cases f a
  have hreg := openRegular_cases f a
  unfold openWithFlags
  dsimp only
  generalize (if flags &&& oAccmode ≠ oRdonly ∧ flags &&& oAccmode ≠ oWronly ∧
    flags &&& oAccmode ≠ oRdwr then oRdonly else flags &&& oAccmode) = acc
  split
  · exact .inl rfl
  split
  · exact .inl rfl
  split
  · exact .inl rfl
  split
  · exact hdir
  split
  · split
    · exact .inl rfl
    · exact hreg
  · exact hdir
  · exact hreg

theorem allocateFd_cases (f : Files) (process : Option Nat) (ptr : Nat) :
    allocateFd f process ptr = (-1, f) ∨
    ∃ p fd : Nat, allocateFd f process ptr = ((fd : Int), f.setFd p fd (some ptr)) ∧
      process = some p ∧ fdMin ≤ fd ∧ fd < fdMax ∧ f.fdTable p fd = none := by
  unfold allocateFd
  cases process with
  | none => exact .inl rfl
  | some p =>
    dsimp only
    cases hf : (List.range' fdMin (fdMax - fdMin)).find? fun fd => (f.fdTable p fd).isNone with
    | none => exact .inl rfl
    | some fd =>
      have hmem := List.mem_range'_1.mp (List.mem_of_find?_eq_some hf)
      have hnone := List.find?_some hf
      have hfree : f.fdTable p fd = none := Option.isNone_iff_eq_none.mp hnone
      have hbound : fdMin + (fdMax - fdMin) = fdMax := rfl
      exact .inr ⟨p, fd, rfl, rfl, hmem.1, hbound ▸ hmem.2, hfree⟩

/-- `sys_open` leaves everything as it was, or the caller has a new file. -/
theorem sysOpen_cases (h : Held ids f) (process : Option Nat) (flags : Int) (copied mounted : Bool)
    (a : OpenArgs) : (sysOpen f process flags copied mounted a).2 = f ∨
    ∃ p fd i isDir, (sysOpen f process flags copied mounted a).2 =
        (opened f a.ptr i isDir).setFd p fd (some a.ptr) ∧
      process = some p ∧ fdMin ≤ fd ∧ fd < fdMax ∧ f.fdTable p fd = none ∧
      f.heap a.ptr = none ∧ i < maxOpenFiles ∧ f.slots i = none := by
  unfold sysOpen
  dsimp only
  split
  · exact .inl rfl
  split
  · exact .inl rfl
  split
  · exact .inl rfl
  split
  · exact .inl rfl
  rcases openWithFlags_cases f flags.toNat a with e | ⟨i, isDir, e, hheap, hi, hs⟩
  · rw [e]
    exact .inl rfl
  rw [e]
  dsimp only
  rcases allocateFd_cases (opened f a.ptr i isDir) process a.ptr with
    e | ⟨p, fd, e, hp, hge, hlt, hfree⟩
  · rw [e]
    -- no descriptor is left: the file that was just opened is closed again
    have hbacks : Backs (opened f a.ptr i isDir) i a.ptr :=
      ⟨hi, by unfold opened; dsimp only; rw [Function.update_self]; rfl⟩
    have huniq : ∀ {j}, Backs (opened f a.ptr i isDir) j a.ptr → j = i := fun {j} hj => by
      by_contra hne
      have hb : Backs f j a.ptr := by
        refine ⟨hj.1, ?_⟩
        have := hj.2
        unfold opened at this
        dsimp only at this
        rwa [Function.update_of_ne hne] at this
      exact Option.some_ne_none _ ((h.heap hb).symm.trans hheap)
    have hopen : (opened f a.ptr i isDir).heap a.ptr = some true := Function.update_self _ _ _
    refine .inl ?_
    dsimp only
    rw [if_pos (by decide), close_delete hopen (find_eq hbacks huniq)]
    exact opened_dropped isDir hs hheap
  · rw [e]
    dsimp only
    rw [if_neg (by omega)]
    exact .inr ⟨p, fd, i, isDir, rfl, hp, hge, hlt, hfree, hheap, hi, hs⟩

/-- `sys_close` leaves everything as it was, or the caller has lost a file. -/
theorem sysClose_cases (h : Held ids f) {process : Option Nat}
    (hlive : ∀ p ∈ process, (ids p).isSome) (fd : Nat) : (sysClose f process fd).2 = f ∨
    ∃ p ptr i, (sysClose f process fd).2 = (dropped f ptr i).setFd p fd none ∧
      Holds ids f p fd ptr ∧ Backs f i ptr := by
  unfold sysClose
  split
  · exact .inl rfl
  unfold getFileByFd releaseFd
  cases process with
  | none => exact .inl rfl
  | some p =>
    dsimp only
    by_cases hout : fd < fdMin ∨ fdMax ≤ fd
    · rw [if_pos hout]
      exact .inl rfl
    simp only [if_neg hout]
    cases he : f.fdTable p fd with
    | none => exact .inl rfl
    | some ptr =>
      have hholds : Holds ids f p fd ptr := ⟨hlive p rfl, by omega, by omega, he⟩
      obtain ⟨hheap, i, hb⟩ := h.backed hholds
      dsimp only
      rw [close_delete hheap (find_eq hb fun hj => h.one_slot hj hb)]
      exact .inr ⟨p, ptr, i, rfl, hholds, hb⟩

/-! ## Every call keeps the invariant -/

theorem backs_update {i j ptr : Nat} {s : Option Slot} {heap : Nat → Option Bool}
    {fdTable : Nat → Nat → Option Nat} :
    Backs { slots := Function.update f.slots i s, heap := heap, fdTable := fdTable } j ptr ↔
      j < maxOpenFiles ∧ (j = i ∧ s.map Slot.file = some (some ptr) ∨ j ≠ i ∧ Backs f j ptr) := by
  unfold Backs
  dsimp only
  by_cases hj : j = i
  · subst hj
    rw [Function.update_self]
    simp
  · rw [Function.update_of_ne hj]
    simp [hj]

theorem setFd_entry {p fd q fd' : Nat} {v : Option Nat} :
    (f.setFd p fd v).fdTable q fd' = if q = p ∧ fd' = fd then v else f.fdTable q fd' := by
  unfold Files.setFd
  dsimp only
  by_cases hq : q = p
  · subst hq
    rw [Function.update_self]
    by_cases hfd : fd' = fd
    · subst hfd
      rw [Function.update_self, if_pos ⟨rfl, rfl⟩]
    · rw [Function.update_of_ne hfd, if_neg fun h => hfd h.2]
  · rw [Function.update_of_ne hq, if_neg fun h => hq h.1]

theorem holds_setFd {f' : Files} (hf : f'.fdTable = f.fdTable) {p fd q fd' ptr : Nat}
    {v : Option Nat} : Holds ids (f'.setFd p fd v) q fd' ptr ↔
      ((q = p ∧ fd' = fd) ∧ (ids q).isSome ∧ fdMin ≤ fd' ∧ fd' < fdMax ∧ v = some ptr) ∨
      ¬ (q = p ∧ fd' = fd) ∧ Holds ids f q fd' ptr := by
  constructor
  · intro h
    have he := h.entry
    rw [setFd_entry, hf] at he
    by_cases hc : q = p ∧ fd' = fd
    · rw [if_pos hc] at he
      exact .inl ⟨hc, h.live, h.ge, h.lt, he⟩
    · rw [if_neg hc] at he
      exact .inr ⟨hc, h.live, h.ge, h.lt, he⟩
  · rintro (⟨hc, hl, hge, hlt, hv⟩ | ⟨hc, h⟩)
    · exact ⟨hl, hge, hlt, by rw [setFd_entry, if_pos hc]; exact hv⟩
    · exact ⟨h.live, h.ge, h.lt, by rw [setFd_entry, if_neg hc, hf]; exact h.entry⟩

/-- The caller has a new file. -/
theorem held_open (h : Held ids f) {p fd ptr i : Nat} {isDir : Bool} (hp : (ids p).isSome)
    (hge : fdMin ≤ fd) (hlt : fd < fdMax) (hfree : f.fdTable p fd = none)
    (hheap : f.heap ptr = none) (hi : i < maxOpenFiles) (hs : f.slots i = none) :
    Held ids ((opened f ptr i isDir).setFd p fd (some ptr)) := by
  have hfd : (opened f ptr i isDir).fdTable = f.fdTable := rfl
  have hnew : Backs ((opened f ptr i isDir).setFd p fd (some ptr)) i ptr :=
    backs_update.mpr ⟨hi, .inl ⟨rfl, rfl⟩⟩
  have hmine : Holds ids ((opened f ptr i isDir).setFd p fd (some ptr)) p fd ptr :=
    (holds_setFd hfd).mpr (.inl ⟨⟨rfl, rfl⟩, hp, hge, hlt, rfl⟩)
  have hnot : ∀ {j}, ¬ Backs f j ptr := fun hb =>
    Option.some_ne_none _ ((h.heap hb).symm.trans hheap)
  have hnone : ∀ {q fd'}, ¬ Holds ids f q fd' ptr := fun hh =>
    Option.some_ne_none _ ((h.backed hh).1.symm.trans hheap)
  have hnoslot : ∀ {ptr'}, ¬ Backs f i ptr' := fun hb => by
    have := hb.2
    rw [hs] at this
    exact Option.some_ne_none _ this.symm
  have hback : ∀ {j ptr'}, Backs f j ptr' →
      Backs ((opened f ptr i isDir).setFd p fd (some ptr)) j ptr' := fun {j ptr'} hb =>
    backs_update.mpr ⟨hb.1, .inr ⟨fun hj => hnoslot (hj ▸ hb), hb⟩⟩
  refine ⟨fun j hj hsome => ?_, fun {q fd' ptr'} hh => ?_, fun {q q' fd₁ fd₂ ptr'} h₁ h₂ => ?_,
    fun {j j' ptr'} h₁ h₂ => ?_⟩
  · by_cases hji : j = i
    · exact ⟨ptr, p, fd, hji ▸ hnew, hmine⟩
    · have hold : (f.slots j).isSome := by
        have : ((Function.update f.slots i (some { file := some ptr, isDir := isDir })) j).isSome :=
          hsome
        rwa [Function.update_of_ne hji] at this
      obtain ⟨ptr', q, fd', hb, hh⟩ := h.owned j hj hold
      refine ⟨ptr', q, fd', hback hb, (holds_setFd hfd).mpr (.inr ⟨?_, hh⟩)⟩
      rintro ⟨rfl, rfl⟩
      exact Option.some_ne_none _ (hh.entry.symm.trans hfree)
  · rcases (holds_setFd hfd).mp hh with ⟨-, -, -, -, he⟩ | ⟨-, hh⟩
    · obtain rfl := Option.some.inj he
      exact ⟨Function.update_self _ _ _, i, hnew⟩
    · have hne : ptr' ≠ ptr := fun he => hnone (he ▸ hh)
      obtain ⟨htrue, j, hb⟩ := h.backed hh
      exact ⟨(Function.update_of_ne hne _ _).trans htrue, j, hback hb⟩
  · rcases (holds_setFd hfd).mp h₁ with ⟨⟨rfl, rfl⟩, -, -, -, he₁⟩ | ⟨-, g₁⟩ <;>
      rcases (holds_setFd hfd).mp h₂ with ⟨⟨rfl, rfl⟩, -, -, -, he₂⟩ | ⟨-, g₂⟩
    · exact ⟨rfl, rfl⟩
    · exact absurd ((Option.some.inj he₁).symm ▸ g₂) hnone
    · exact absurd ((Option.some.inj he₂).symm ▸ g₁) hnone
    · exact h.one_holder g₁ g₂
  · rcases (backs_update.mp h₁).2 with ⟨rfl, he₁⟩ | ⟨-, g₁⟩ <;>
      rcases (backs_update.mp h₂).2 with ⟨rfl, he₂⟩ | ⟨-, g₂⟩
    · rfl
    · exact absurd ((Option.some.inj (Option.some.inj he₁)).symm ▸ g₂) hnot
    · exact absurd ((Option.some.inj (Option.some.inj he₂)).symm ▸ g₁) hnot
    · exact h.one_slot g₁ g₂

/-- The caller has lost a file. -/
theorem held_close (h : Held ids f) {p fd ptr i : Nat} (hh : Holds ids f p fd ptr)
    (hb : Backs f i ptr) : Held ids ((dropped f ptr i).setFd p fd none) := by
  have hfd : (dropped f ptr i).fdTable = f.fdTable := rfl
  have hother : ∀ {q fd' ptr'}, Holds ids ((dropped f ptr i).setFd p fd none) q fd' ptr' →
      Holds ids f q fd' ptr' ∧ ptr' ≠ ptr := fun {q fd' ptr'} hq => by
    rcases (holds_setFd hfd).mp hq with ⟨-, -, -, -, he⟩ | ⟨hne, hq⟩
    · exact absurd he (Option.some_ne_none _).symm
    · exact ⟨⟨hq.live, hq.ge, hq.lt, hq.entry⟩, fun he => hne (h.one_holder (he ▸ hq) hh)⟩
  have hslot : ∀ {j ptr'}, Backs ((dropped f ptr i).setFd p fd none) j ptr' → Backs f j ptr' :=
    fun hq => by
      rcases (backs_update.mp hq).2 with ⟨-, he⟩ | ⟨-, hq⟩
      · exact absurd he (Option.some_ne_none _).symm
      · exact hq
  have hback : ∀ {j ptr'}, Backs f j ptr' → ptr' ≠ ptr →
      Backs ((dropped f ptr i).setFd p fd none) j ptr' := fun {j ptr'} hq hne =>
    backs_update.mpr ⟨hq.1, .inr ⟨fun hj => hne (Option.some.inj (Option.some.inj
      ((hj ▸ hq.2).symm.trans hb.2))), hq⟩⟩
  refine ⟨fun j hj hsome => ?_, fun {q fd' ptr'} hq => ?_, fun h₁ h₂ => ?_, fun h₁ h₂ => ?_⟩
  · have hsome : ((Function.update f.slots i none) j).isSome := hsome
    have hji : j ≠ i := fun he => by
      rw [he, Function.update_self] at hsome
      exact absurd hsome Bool.false_ne_true
    rw [Function.update_of_ne hji] at hsome
    obtain ⟨ptr', q, fd', hb', hq⟩ := h.owned j hj hsome
    have hne : ptr' ≠ ptr := fun he => hji (h.one_slot (he ▸ hb') hb)
    refine ⟨ptr', q, fd', hback hb' hne, (holds_setFd hfd).mpr (.inr ⟨?_, hq⟩)⟩
    rintro ⟨rfl, rfl⟩
    exact hne (Option.some.inj (hq.entry.symm.trans hh.entry))
  · obtain ⟨hq, hne⟩ := hother hq
    obtain ⟨htrue, j, hb'⟩ := h.backed hq
    exact ⟨(Function.update_of_ne hne _ _).trans htrue, j, hback hb' hne⟩
  · exact h.one_holder (hother h₁).1 (hother h₂).1
  · exact h.one_slot (hslot h₁) (hslot h₂)

/-! ## Calls of the scheduler -/

theorem held_congr {ids' : Nat → Option Nat} {f' : Files} (h : Held ids f)
    (hslots : f'.slots = f.slots) (hheap : f'.heap = f.heap)
    (hiff : ∀ {p fd ptr}, Holds ids' f' p fd ptr ↔ Holds ids f p fd ptr) : Held ids' f' := by
  have hback : ∀ {i ptr}, Backs f' i ptr ↔ Backs f i ptr := fun {i ptr} => by
    unfold Backs
    rw [hslots]
  refine ⟨fun i hi hs => ?_, fun hh => ?_, fun h₁ h₂ => ?_, fun h₁ h₂ => ?_⟩
  · obtain ⟨ptr, p, fd, hb, hh⟩ := h.owned i hi (hslots ▸ hs)
    exact ⟨ptr, p, fd, hback.mpr hb, hiff.mpr hh⟩
  · obtain ⟨htrue, i, hb⟩ := h.backed (hiff.mp hh)
    exact ⟨hheap ▸ htrue, i, hback.mpr hb⟩
  · exact h.one_holder (hiff.mp h₁) (hiff.mp h₂)
  · exact h.one_slot (hback.mp h₁) (hback.mp h₂)

/-- The tables of the live processes are left alone. -/
theorem clearTable_live (k : Kernel) (f : Files) (op : Sched.Op) :
    (clearTable k f op).slots = f.slots ∧ (clearTable k f op).heap = f.heap ∧
      ∀ p, (k.ids p).isSome → (clearTable k f op).fdTable p = f.fdTable p := by
  unfold clearTable
  cases newPcbPtr op with
  | none => exact ⟨rfl, rfl, fun _ _ => rfl⟩
  | some q =>
    dsimp only
    by_cases hq : (k.pcbs q).isNone = true
    · rw [if_pos hq]
      refine ⟨rfl, rfl, fun p hp => Function.update_of_ne (fun he => ?_) _ _⟩
      have hdead : k.ids q = none := congrArg (Option.map _) (Option.isNone_iff_eq_none.mp hq)
      rw [he, hdead] at hp
      exact absurd hp Bool.false_ne_true
    · rw [if_neg hq]
      exact ⟨rfl, rfl, fun _ _ => rfl⟩

/-- A new process has no open file. -/
theorem clearTable_new {k : Kernel} {op : Sched.Op} {p : Nat} (f : Files)
    (hnew : newPcbPtr op = some p) (hdead : k.ids p = none) :
    (clearTable k f op).fdTable p = fun _ => none := by
  have hnone : (k.pcbs p).isNone = true :=
    Option.isNone_iff_eq_none.mpr (Option.map_eq_none_iff.mp hdead)
  unfold clearTable
  rw [hnew]
  dsimp only
  rw [if_pos hnone]
  exact Function.update_self _ _ _

section Step

variable {threadExit : Nat} {s : Sys}

theorem held_of_victim {k : Kernel} {op : Sched.Op} {p : Nat} (h : Held k.ids f)
    (hempty : ∀ fd, fdMin ≤ fd → fd < fdMax → f.fdTable p fd = none) :
    Held (Function.update k.ids p none) (clearTable k f op) := by
  obtain ⟨hslots, hheap, htable⟩ := clearTable_live k f op
  refine held_congr h hslots hheap fun {q fd ptr} => ⟨fun hh => ?_, fun hh => ?_⟩
  · have hne : q ≠ p := fun he => by
      have hlive := hh.live
      rw [he, Function.update_self] at hlive
      exact absurd hlive Bool.false_ne_true
    have hlive := hh.live
    rw [Function.update_of_ne hne] at hlive
    exact ⟨hlive, hh.ge, hh.lt, by rw [← htable q hlive]; exact hh.entry⟩
  · have hne : q ≠ p := fun he => by
      have he := (he ▸ hh.entry).symm.trans (hempty fd hh.ge hh.lt)
      exact Option.some_ne_none _ he
    refine ⟨?_, hh.ge, hh.lt, (congrFun (htable q hh.live) fd).trans hh.entry⟩
    rw [Function.update_of_ne hne]
    exact hh.live

theorem held_of_new {k : Kernel} {op : Sched.Op} {p pid : Nat} (h : Held k.ids f)
    (hnew : newPcbPtr op = some p) (hdead : k.ids p = none) :
    Held (Function.update k.ids p (some pid)) (clearTable k f op) := by
  obtain ⟨hslots, hheap, htable⟩ := clearTable_live k f op
  refine held_congr h hslots hheap fun {q fd ptr} => ⟨fun hh => ?_, fun hh => ?_⟩
  · have hne : q ≠ p := fun he => by
      have he' := hh.entry
      rw [he, clearTable_new f hnew hdead] at he'
      exact absurd he' (Option.some_ne_none _).symm
    have hlive := hh.live
    rw [Function.update_of_ne hne] at hlive
    exact ⟨hlive, hh.ge, hh.lt, by rw [← htable q hlive]; exact hh.entry⟩
  · have hne : q ≠ p := fun he => by
      have hlive := hh.live
      rw [he, hdead] at hlive
      exact absurd hlive Bool.false_ne_true
    refine ⟨?_, hh.ge, hh.lt, (congrFun (htable q hh.live) fd).trans hh.entry⟩
    rw [Function.update_of_ne hne]
    exact hh.live

theorem caller_live {k : Kernel} {p : Nat} (h : p ∈ caller k) : (k.ids p).isSome :=
  (Option.mem_filter_iff.mp h).2

/-- A call that ends no process with open files keeps slots and descriptors together. -/
theorem held_step (h : Held s.k.ids s.files) (c : Call) (hok : StepOk threadExit s c) :
    Held (sysStep threadExit s c).k.ids (sysStep threadExit s c).files := by
  cases c with
  | sched op =>
    dsimp only [sysStep]
    rcases ids_step threadExit s.k op with ⟨p, hv, e⟩ | ⟨-, e | ⟨p, pid, hnew, hdead, e⟩⟩
    · rw [e]
      exact held_of_victim h (hok p hv)
    · rw [e]
      obtain ⟨hslots, hheap, htable⟩ := clearTable_live s.k s.files op
      refine held_congr h hslots hheap fun {q fd ptr} => ⟨fun hh => ?_, fun hh => ?_⟩
      · exact ⟨hh.live, hh.ge, hh.lt, by rw [← htable q hh.live]; exact hh.entry⟩
      · exact ⟨hh.live, hh.ge, hh.lt, (congrFun (htable q hh.live) fd).trans hh.entry⟩
    · rw [e]
      exact held_of_new h hnew hdead
  | sysOpen flags copied mounted a =>
    dsimp only [sysStep]
    rcases sysOpen_cases h (caller s.k) flags copied mounted a with
      e | ⟨p, fd, i, isDir, e, hp, hge, hlt, hfree, hheap, hi, hs⟩
    · rw [e]
      exact h
    · rw [e]
      exact held_open h (caller_live hp) hge hlt hfree hheap hi hs
  | sysClose fd =>
    dsimp only [sysStep]
    rcases sysClose_cases h (fun p hp => caller_live hp) fd with e | ⟨p, ptr, i, e, hh, hb⟩
    · rw [e]
      exact h
    · rw [e]
      exact held_close h hh hb

theorem right_of_held {c : Call}
    (h : Held (sysStep threadExit s c).k.ids (sysStep threadExit s c).files) :
    Right threadExit s c := by
  refine ⟨h.owned, fun hnone i hi => ?_⟩
  by_contra hs
  obtain ⟨ptr, p, fd, -, hh⟩ := h.owned i hi (Option.isSome_iff_ne_none.mpr hs)
  exact hnone p fd ptr hh

/-- The slot of an open file is lost when its process ends. -/
theorem not_owned_of_victim {op : Sched.Op} {p fd ptr : Nat} (h : Held s.k.ids s.files)
    (hh : Holds s.k.ids s.files p fd ptr)
    (hids : (step threadExit s.k op).ids = Function.update s.k.ids p none) :
    ¬ Owned (sysStep threadExit s (.sched op)) := by
  intro ho
  obtain ⟨hslots, -, htable⟩ := clearTable_live s.k s.files op
  obtain ⟨-, i, hb⟩ := h.backed hh
  have hsame : ∀ {j x}, Backs (clearTable s.k s.files op) j x → Backs s.files j x :=
    fun hx => ⟨hx.1, by rw [← hslots]; exact hx.2⟩
  have hsome : ((clearTable s.k s.files op).slots i).isSome := by
    obtain ⟨sl, hsl, -⟩ := Option.map_eq_some_iff.mp hb.2
    rw [hslots, hsl]
    rfl
  obtain ⟨ptr', q, fd', hb', hq⟩ := ho i hb.1 hsome
  have hptr : ptr' = ptr :=
    Option.some.inj (Option.some.inj ((hsame hb').2.symm.trans hb.2))
  have hlive : (Function.update s.k.ids p none q).isSome := hids ▸ hq.live
  have hne : q ≠ p := fun he => by
    rw [he, Function.update_self] at hlive
    exact absurd hlive Bool.false_ne_true
  rw [Function.update_of_ne hne] at hlive
  have hold : Holds s.k.ids s.files q fd' ptr :=
    ⟨hlive, hq.ge, hq.lt, by rw [← htable q hlive, ← hptr]; exact hq.entry⟩
  exact hne (h.one_holder hold hh).1

theorem right_iff (h : Held s.k.ids s.files) (c : Call) :
    Right threadExit s c ↔ StepOk threadExit s c := by
  refine ⟨fun hr => ?_, fun hok => right_of_held (held_step h c hok)⟩
  cases c with
  | sched op =>
    intro p hv fd hge hlt
    by_contra hne
    obtain ⟨ptr, he⟩ := Option.ne_none_iff_exists'.mp hne
    have hh : Holds s.k.ids s.files p fd ptr := ⟨victim_live hv, hge, hlt, he⟩
    rcases ids_step threadExit s.k op with ⟨q, hv', e⟩ | ⟨hv', -⟩
    · obtain rfl := Option.some.inj (hv.symm.trans hv')
      exact not_owned_of_victim h hh e hr.1
    · exact Option.some_ne_none _ (hv.symm.trans hv')
  | sysOpen => trivial
  | sysClose => trivial

end Step

/-! ## Runs -/

/-- From a kernel without open files, the slots are owned after every call of a run exactly when no
call ends a process that has open files. -/
theorem owned_run (threadExit : Nat) (k : Kernel) (calls : List Call) :
    Along (sysStep threadExit) (Right threadExit) { k := k, files := .empty } calls ↔
      Along (sysStep threadExit) (StepOk threadExit) { k := k, files := .empty } calls :=
  Along.iff_of_inv (I := fun s => Held s.k.ids s.files) (fun _ c h hok => held_step h c hok)
    (fun _ c h => right_iff h c) (held_empty k.ids)

/-- The only thread of a process opens a file and exits: the process is gone and its slot is still
in use. -/
theorem slot_lost_on_exit :
    ∃ k, newScheduler eightFrames tenStacks 0x5000 0x6000 1 = some k ∧
      ¬ Along (sysStep 0x5000) (Right 0x5000) { k := k, files := .empty }
        [.sched (.createProcess 2 3 true 0x100000 0 true), .sched (.schedule .zero),
          .sysOpen 0 true true ⟨true, false, some false, true, 9⟩, .sched .exitCurrentThread] := by
  refine ⟨(newScheduler eightFrames tenStacks 0x5000 0x6000 1).get (by decide), by simp, ?_⟩
  rintro ⟨h₁, h₂, h₃, h₄, -⟩
  have held₁ := held_step (held_empty _) _ ((right_iff (held_empty _) _).mp h₁)
  have held₂ := held_step held₁ _ ((right_iff held₁ _).mp h₂)
  have held₃ := held_step held₂ _ ((right_iff held₂ _).mp h₃)
  have hempty := (right_iff held₃ _).mp h₄ 2 (by decide) 3 (by decide) (by decide)
  exact absurd hempty (by decide)

end Descriptors
end Fs
end Hashx86
