import Hashx86.Sched.Spaces
import Hashx86.Sched.Teardown

/-!
# The calls on the address spaces

`Acts` is what a call does to the address spaces: the frames are tied to the processes as before, and
only the address spaces in `D` changed. When it is `clean` it left no frame without an owner.

* `createThread_acts`, `cloneCurrentThread_acts`, `terminateThread_acts`: calls in one process.
* `killProcess_acts`: the frames of a user process are freed, and those are all that is.
-/

namespace Hashx86
namespace Sched

open Lib Paging

structure Acts (base : Nat → Prop) (D : Nat → Prop) (clean : Prop) (k k' : Kernel)
    (own own' : Owners) : Prop where
  spaces : Spaces base k' own'
  tramp : k'.trampolinePhys = k.trampolinePhys
  within : Within base k.trampolinePhys D k.machine k'.machine own own'
  held : clean → ∀ b, own' b = some .held → own b = some .held

variable {base : Nat → Prop} {d p t : Nat} {k k₁ k' : Kernel} {own own₁ own' : Owners}
variable {D D' : Nat → Prop} {clean clean' : Prop}

theorem Acts.same (h : Spaces base k own) (hm : k'.machine = k.machine)
    (ht : k'.trampolinePhys = k.trampolinePhys) (hspace : k'.space = k.space) :
    Acts base D clean k k' own own :=
  ⟨h.congr hm ht hspace, ht, hm.symm ▸ .refl .., fun _ _ hb => hb⟩

theorem Acts.trans (h : Acts base D clean k k₁ own own₁) (h₁ : Acts base D clean k₁ k' own₁ own') :
    Acts base D clean k k' own own' :=
  ⟨h₁.spaces, h₁.tramp.trans h.tramp, h.within.trans (h.tramp ▸ h₁.within),
    fun hc b hb => h.held hc b (h₁.held hc b hb)⟩

theorem Acts.mono (h : Acts base D clean k k' own own') (hD : ∀ e, D e → D' e) (hc : clean' → clean) :
    Acts base D' clean' k k' own own' :=
  ⟨h.spaces, h.tramp, h.within.mono hD, fun hc' => h.held (hc hc')⟩

/-- A call inside the address space of process `p`. -/
theorem Acts.stays (h : Spaces base k own) (hp : k.space p = some d)
    (hs : Stays base k.trampolinePhys d clean k.machine k'.machine own own')
    (ht : k'.trampolinePhys = k.trampolinePhys) (hspace : k'.space = k.space) :
    Acts base (fun e => k.space p = some e) clean k k' own own' :=
  ⟨h.stays hp hs ht hspace, ht, hs.within.mono fun _ he => he ▸ hp, hs.held⟩

/-! ## The frame of the exit trampoline -/

theorem tramp_createThread (threadExit : Nat) (k : Kernel) (ptr p entrypoint arg : Nat) :
    (createThread threadExit k ptr (some p) entrypoint arg).2.trampolinePhys = k.trampolinePhys := by
  unfold createThread
  dsimp only
  cases k.pcbs p with
  | none => rfl
  | some pcb =>
    dsimp only
    split
    · have ht := (newThread_same k ptr (some p) pcb.pid noSlot
        (kernelContext threadExit entrypoint arg)).2.2.tramp
      split <;> rename_i he <;> rw [he] at ht <;> exact ht
    · have ht := (newThread_same k ptr (some p) pcb.pid noSlot CpuState.zero).2.2.tramp
      split
      · rename_i he
        rwa [he] at ht
      · rename_i t k₁ he
        rw [he] at ht
        have ha := (sameSpaces_allocUserStack k₁ t pcb.pageDirectory).tramp
        split <;> rename_i he' <;> rw [he'] at ha <;> exact ha.trans ht

theorem tramp_cloneCurrentThread (k : Kernel) (ptr : Nat) (a : CloneArgs) :
    (cloneCurrentThread k ptr a).2.trampolinePhys = k.trampolinePhys := by
  unfold cloneCurrentThread
  split
  · rename_i p pcb context _ _
    have ht := (newThread_same k ptr (some p) pcb.pid (if a.childStack ≠ 0 then noSlot else 0)
      { context with eax := 0 }).2.2.tramp
    dsimp only
    split
    · rename_i he
      rwa [he] at ht
    · rename_i t k₁ he
      rw [he] at ht
      have hc := (sameSpaces_cloneStack k₁ t pcb.pageDirectory a.childStack).tramp
      split <;> rename_i he' <;> rw [he'] at hc <;> exact hc.trans ht
  · rfl

theorem tramp_reclaimSlot (k : Kernel) (t : Nat) (tcb : Tcb) :
    (reclaimSlot k t tcb).trampolinePhys = k.trampolinePhys := by
  unfold reclaimSlot
  cases tcb.parent with
  | none => rfl
  | some p =>
    dsimp only
    generalize ((k.pcbs p).map (·.pageDirectory)).getD 0 = directory
    -- for any memory, so that the kernel need not look at the loop over the stack's pages
    have hback : ∀ m, (((k.withMachine m).recycleSlot tcb.stackSlotIdx).modTcb t fun tcb =>
        { tcb with stackSlotIdx := noSlot }).trampolinePhys = k.trampolinePhys := fun m => rfl
    split
    · rfl
    split
    · exact hback _
    · exact hback k.machine

/-! ## Calls in one process -/

theorem space_createThread (threadExit : Nat) (k : Kernel) (ptr p entrypoint arg : Nat) :
    (createThread threadExit k ptr (some p) entrypoint arg).2.space = k.space := by
  rcases createThread_cases threadExit k ptr (some p) entrypoint arg with
    ⟨k', he, hf⟩ | ⟨hn, -⟩ | ⟨p', k', -, he, hs⟩
  · rw [he]
    exact space_congr hf.pcbs
  · exact absurd hn (by simp)
  · rw [he]
    exact space_spawned hs

theorem createThread_acts (h : Spaces base k own) (hnext : k.space p ≠ none → k.nextStackSlotIdx ≠ 4095)
    (threadExit ptr entrypoint arg : Nat) : ∃ own', Acts base (fun e => k.space p = some e)
      (∀ d, k.space p = some d → NextUnmapped k d) k
      (createThread threadExit k ptr (some p) entrypoint arg).2 own own' := by
  have ht := tramp_createThread threadExit k ptr p entrypoint arg
  have hspace := space_createThread threadExit k ptr p entrypoint arg
  cases hu : k.space p with
  | none =>
    have hm : (createThread threadExit k ptr (some p) entrypoint arg).2.machine = k.machine :=
      createThread_kernel (fun pcb hp => by
        by_contra hne
        rw [space_of_pcb hp (Bool.eq_false_iff.mpr hne)] at hu
        exact nomatch hu) threadExit ptr entrypoint arg
    exact ⟨own, .same h hm ht hspace⟩
  | some d =>
    obtain ⟨pcb, hp, hd⟩ := Option.bind_eq_some_iff.mp hu
    unfold Pcb.space at hd
    split at hd
    · exact nomatch hd
    · rename_i hk
      obtain rfl := Option.some.inj hd
      obtain ⟨own', hs⟩ := createThread_stays hp (Bool.eq_false_iff.mpr hk) (h.lives hu)
        (hnext (hu ▸ by simp)) threadExit ptr entrypoint arg
      refine ⟨own', (Acts.stays h hu hs ht hspace).mono (fun e he => ?_) fun hc => hc _ rfl⟩
      rwa [hu] at he

/-- The process that is running. -/
theorem cloneParent_some {pcb : Pcb} (h : cloneParent k = some (p, pcb)) :
    currentProcess k = some p ∧ k.pcbs p = some pcb := by
  simp only [cloneParent, Option.bind_eq_bind, Option.bind_eq_some_iff, Option.pure_def,
    Option.some.injEq, Prod.mk.injEq] at h
  obtain ⟨cur, hcur, tcb, htcb, p', hp, pcb', hpcb, rfl, rfl⟩ := h
  refine ⟨?_, hpcb⟩
  unfold currentProcess
  rw [hcur, Option.bind_some, htcb, Option.bind_some, hp]

theorem cloneCurrentThread_acts (h : Spaces base k own) (ptr : Nat) {a : CloneArgs}
    (hu : ∀ p, currentProcess k = some p → k.pcbs p ≠ none → k.space p ≠ none)
    (hnext : a.childStack = 0 → k.nextStackSlotIdx ≠ 4095) : ∃ own',
    Acts base (fun e => (currentProcess k).bind k.space = some e)
      (a.childStack = 0 → ∀ d, (currentProcess k).bind k.space = some d → NextUnmapped k d) k
      (cloneCurrentThread k ptr a).2 own own' := by
  have ht := tramp_cloneCurrentThread k ptr a
  have hspace : (cloneCurrentThread k ptr a).2.space = k.space := by
    rcases cloneCurrentThread_cases k ptr a with ⟨k', he, hf⟩ | ⟨p, k', he, hs⟩
    · rw [he]
      exact space_congr hf.pcbs
    · rw [he]
      exact space_spawned hs
  cases hp : cloneParent k with
  | none =>
    have hm : (cloneCurrentThread k ptr a).2.machine = k.machine := by
      unfold cloneCurrentThread
      rw [hp]
    exact ⟨own, .same h hm ht hspace⟩
  | some pp =>
    obtain ⟨p, pcb⟩ := pp
    obtain ⟨hcur, hpcb⟩ := cloneParent_some hp
    obtain ⟨d, hd⟩ := Option.ne_none_iff_exists'.mp (hu p hcur (hpcb ▸ by simp))
    have hdir : pcb.pageDirectory = d := by
      unfold Kernel.space Pcb.space at hd
      rw [hpcb, Option.bind_some] at hd
      split at hd
      · exact nomatch hd
      · exact Option.some.inj hd
    subst hdir
    obtain ⟨own', hs⟩ := cloneCurrentThread_stays hp (h.lives hd) ptr hnext
    rw [hcur, Option.bind_some]
    exact ⟨own', (Acts.stays h hd hs ht hspace).mono (fun _ he => he) fun hc hz => hc hz _ hd⟩

/-! ## Termination -/

/-- The user stack that the end of thread `t` unmaps. -/
def Reclaims (k : Kernel) (t : Nat) (m : Machine) : Prop :=
  m = k.machine ∨ ∃ p slot pcb, k.Slotted t p ∧ k.slotOf t = some slot ∧ k.pcbs p = some pcb ∧
    m = freeUserStackSlot k.machine pcb.pageDirectory slot

theorem reclaimSlot_reclaims {k₀ : Kernel} (hm : k₀.machine = k.machine) (hp : k₀.pcbs = k.pcbs)
    {tcb : Tcb} (ht : k.tcbs t = some tcb) : Reclaims k t (reclaimSlot k₀ t tcb).machine := by
  unfold reclaimSlot
  rw [hp]
  cases hpar : tcb.parent with
  | none => exact .inl hm
  | some p =>
    dsimp only
    split
    · exact .inl hm
    · rename_i hslot
      cases hpcb : k.pcbs p with
      | none => exact .inl hm
      | some pcb =>
        dsimp only [Option.map_some, Option.getD_some]
        split
        · refine .inr ⟨p, tcb.stackSlotIdx, pcb, ⟨tcb, ht, hpar, hslot⟩, ?_, hpcb, ?_⟩
          · unfold Kernel.slotOf
            rw [ht, Option.bind_some]
            exact if_neg hslot
          · have hback : ∀ m, (((k₀.withMachine m).recycleSlot tcb.stackSlotIdx).modTcb t fun tcb =>
                { tcb with stackSlotIdx := noSlot }).machine = m := fun m => rfl
            rw [← hm]
            exact hback _
        · exact .inl hm

theorem terminateThread_reclaims (k : Kernel) (t : Nat) :
    (terminateThread k t).trampolinePhys = k.trampolinePhys ∧
      Reclaims k t (terminateThread k t).machine := by
  have hleave : ∀ {k₁ : Kernel}, k₁.trampolinePhys = k.trampolinePhys ∧ Reclaims k t k₁.machine →
      (if k₁.currentThread = some t then
        { k₁ with currentThread := none, pendingReclaims := k₁.pendingReclaims ++ [t] }
        else k₁.dropThread t).trampolinePhys = k.trampolinePhys ∧
      Reclaims k t (if k₁.currentThread = some t then
        { k₁ with currentThread := none, pendingReclaims := k₁.pendingReclaims ++ [t] }
        else k₁.dropThread t).machine := fun {k₁} h => by
    split
    · exact h
    · rw [(sameSpaces_dropThread _ t).tramp, machine_dropThread]
      exact h
  unfold terminateThread
  split
  · exact ⟨rfl, .inl rfl⟩
  rename_i tcb ht
  split
  · exact ⟨rfl, .inl rfl⟩
  dsimp only
  refine hleave ?_
  generalize hk₁ : reclaimSlot _ t tcb = k₁
  have h₁ : k₁.trampolinePhys = k.trampolinePhys ∧ Reclaims k t k₁.machine := by
    rw [← hk₁]
    refine ⟨tramp_reclaimSlot _ t tcb, reclaimSlot_reclaims ?_ ?_ ht⟩ <;> rfl
  cases tcb.parent with
  | none => exact h₁
  | some p => exact h₁

/-- The stack of a thread is unmapped in the directory of its process. -/
theorem terminateThread_acts (h : Spaces base k own) (hs : SlotsOk k)
    (hk : ∀ p, k.Slotted t p → k.space p ≠ none) : ∃ own',
    Acts base (fun e => ((k.tcbs t).bind Tcb.parent).bind k.space = some e) True k
      (terminateThread k t) own own' := by
  have hspace := space_terminateThread k t
  obtain ⟨htr, hm | ⟨p, slot, pcb, hslot, hof, hpcb, hm⟩⟩ := terminateThread_reclaims k t
  · exact ⟨own, .same h hm htr hspace⟩
  · have hd : k.space p = some pcb.pageDirectory := by
      have hne := hk p hslot
      unfold Kernel.space Pcb.space at hne ⊢
      rw [hpcb, Option.bind_some] at hne ⊢
      split at hne
      · exact absurd rfl hne
      · rename_i hu
        exact if_neg hu
    obtain ⟨tcb, htcb, hpar, -⟩ := hslot
    have hlt := hs.ledger.owner_issued t slot hof
    obtain ⟨own', hst⟩ := freeUserStackSlot_stays (h.lives hd)
      (inUserRange_of_lt (Nat.lt_of_lt_of_le hlt hs.next_le))
    rw [← hm] at hst
    refine ⟨own', (Acts.stays h hd hst htr hspace).mono (fun e he => ?_) id⟩
    rw [htcb, Option.bind_some, hpar, Option.bind_some]
    exact he

theorem Stacked.space (h : Stacked k) {t p : Nat} (hs : k.Slotted t p) : k.space p ≠ none := by
  obtain ⟨pcb, hp, -, hu⟩ := h t p hs
  rw [space_of_pcb hp hu]
  simp

theorem killThreads_acts (p n : Nat) : ∀ {k : Kernel} {own : Owners}, Rota k.view → SlotsOk k →
    Stacked k → Spaces base k own → ∃ own', Acts base (fun e => k.space p = some e) True k
      (killThreads k p n) own own' := by
  induction n with
  | zero => exact fun {k own} _ _ _ h => ⟨own, .same h rfl rfl rfl⟩
  | succ n ih =>
    intro k own hr hs hk h
    unfold killThreads
    cases hp : k.pcbs p with
    | none => exact ih hr hs hk h
    | some pcb =>
      dsimp only [Option.map_some, Option.getD_some]
      have hthreads : k.view.threads p = pcb.threads := by
        unfold Kernel.view
        simp only [hp, Option.map_some, Option.getD_some]
      cases hq : pcb.threads with
      | nil => exact ih hr hs hk h
      | cons t rest =>
        dsimp only
        have hmem : ∀ u ∈ t :: rest, u ∈ k.view.threads p := by rw [hthreads, hq]; exact fun _ => id
        have hnodup := hr.threads_nodup p
        rw [hthreads, hq, List.nodup_cons] at hnodup
        have hpop := hr.setThreads hnodup.2 fun u hu => hmem u (List.mem_cons_of_mem t hu)
        rw [← view_modPcb k p rest hp] at hpop
        have hkill := stacked_popThread hk hs hp hq
        unfold popThread at hkill
        generalize hk₁ : (k.modPcb p fun pcb => { pcb with threads := rest }) = k₁ at hpop hkill ⊢
        have hs₁ : SlotsOk k₁ := hk₁ ▸ hs.modPcb p _ fun _ => rfl
        have hspace : k₁.space = k.space := hk₁ ▸ space_modPcb k p fun _ => rfl
        have htcbs : k₁.tcbs = k.tcbs := hk₁ ▸ rfl
        have h₁ : Spaces base k₁ own := h.congr (hk₁ ▸ rfl) (hk₁ ▸ rfl) hspace
        have hidle : t ≠ k₁.idleThread := by
          have := hr.thread_ne_idle (hmem t List.mem_cons_self)
          subst hk₁
          exact this
        obtain ⟨own₁, ha⟩ := terminateThread_acts h₁ hs₁ (t := t) fun q hq' => by
          rw [hspace]
          obtain ⟨tcb, htcb, hrest⟩ := hq'
          exact hk.space ⟨tcb, htcbs ▸ htcb, hrest⟩
        obtain ⟨own', ha'⟩ := ih (rota_terminateThread hpop hidle) (slotsOk_terminateThread hs₁ t)
          hkill ha.spaces
        have hpar : (k₁.tcbs t).bind Tcb.parent = some p :=
          htcbs ▸ (hr.threads_live p t (hmem t List.mem_cons_self)).2
        have hsame : Acts base (fun e => k.space p = some e) True k k₁ own own :=
          .same h (hk₁ ▸ rfl) (hk₁ ▸ rfl) hspace
        refine ⟨own', hsame.trans ((ha.mono (fun e he => ?_) id).trans (ha'.mono (fun e he => ?_) id))⟩
        · rw [hpar, Option.bind_some, hspace] at he
          exact he
        · rw [space_terminateThread, hspace] at he
          exact he

/-- The parts of `KillProcess`. -/
theorem killProcess_parts (k : Kernel) (pid : Nat) :
    (firstWithPid k pid = none ∧ ∃ list, (killProcess k pid).2 = { k with globalProcessList := list }) ∨
    ∃ p pcb list cr3 k₂ k₃, firstWithPid k pid = some p ∧ k.pcbs p = some pcb ∧
      k₂ = killThreads { k with globalProcessList := list, cr3 := cr3 } p pcb.threads.length ∧
      k₃ = (if pcb.isKernelProcess then k₂
        else k₂.withMachine (killSpace k₂.machine k₂.trampolinePhys pcb.pageDirectory)) ∧
      (killProcess k pid).2 = forgetProcess { k₃ with
        freeStackOffsets := pcb.deferredStackSlots.reverse ++ k₃.freeStackOffsets } p := by
  have hscan := killScan_fst k pid k.globalProcessList []
  rw [List.append_nil] at hscan
  unfold killProcess firstWithPid
  generalize killScan k pid k.globalProcessList.length k.globalProcessList = scan at hscan ⊢
  obtain ⟨target, list⟩ := scan
  dsimp only at hscan ⊢
  rw [← hscan]
  cases target with
  | none => exact .inl ⟨rfl, list, rfl⟩
  | some p =>
    have hp : k.ids p = some pid := by simpa using List.find?_some hscan.symm
    obtain ⟨pcb, hpcb, -⟩ := Option.map_eq_some_iff.mp hp
    dsimp only
    rw [hpcb]
    refine .inr ⟨p, pcb, list, if pcb.pageDirectory = k.cr3 then k.machine.kernelPageDirectory else k.cr3,
      _, _, rfl, hpcb, rfl, rfl, ?_⟩
    dsimp only
    by_cases hc : pcb.pageDirectory = k.cr3
    · rw [if_pos hc, if_pos hc]
    · rw [if_neg hc, if_neg hc]

theorem killProcess_acts (h : Spaces base k own) (hr : Rota k.view) (hs : SlotsOk k) (hk : Stacked k)
    (pid : Nat) : ∃ own', Acts base (fun e => (firstWithPid k pid).bind k.space = some e) True k
      (killProcess k pid).2 own own' := by
  rcases killProcess_parts k pid with ⟨-, list, he⟩ |
    ⟨p, pcb, list, cr3, k₂, k₃, hfirst, hpcb, hk₂, hk₃, he⟩
  · rw [he]
    exact ⟨own, .same h rfl rfl rfl⟩
  · rw [he, hfirst, Option.bind_some]
    have h₁ : Spaces base ({ k with globalProcessList := list, cr3 := cr3 } : Kernel) own :=
      h.congr rfl rfl rfl
    have hs₁ : SlotsOk ({ k with globalProcessList := list, cr3 := cr3 } : Kernel) :=
      hs.congr rfl hs.deferred rfl rfl rfl hs.running hs.zone
    have hr₁ : Rota ({ k with globalProcessList := list, cr3 := cr3 } : Kernel).view := hr
    obtain ⟨own₂, ha⟩ := killThreads_acts p pcb.threads.length hr₁ hs₁
      (hk.congr rfl rfl) h₁
    rw [← hk₂] at ha
    have hspace : k₂.space = k.space := by
      rw [hk₂]
      exact space_killThreads p _ _
    have hsame : Acts base (fun e => k.space p = some e) True k
        { k with globalProcessList := list, cr3 := cr3 } own own := .same h rfl rfl rfl
    have ha₂ := hsame.trans ha
    by_cases hu : pcb.isKernelProcess
    · rw [if_pos hu] at hk₃
      subst hk₃
      have hnone : k₃.space p = none := by
        rw [hspace]
        unfold Kernel.space Pcb.space
        rw [hpcb, Option.bind_some, if_pos hu]
      refine ⟨own₂, ha₂.trans (.same ha₂.spaces rfl rfl ?_)⟩
      rw [space_forgetProcess]
      exact Function.update_eq_self_iff.mpr hnone.symm
    · rw [if_neg hu] at hk₃
      have hd : k₂.space p = some pcb.pageDirectory :=
        hspace ▸ space_of_pcb hpcb (Bool.eq_false_iff.mpr hu)
      obtain ⟨gone, hf, hgone⟩ := killSpace_spec ha₂.spaces.owned (ha₂.spaces.dir hd)
      subst hk₃
      -- for any memory, so that the kernel need not look at the loops over the directory
      generalize killSpace k₂.machine k₂.trampolinePhys pcb.pageDirectory = m at hf
      generalize pcb.deferredStackSlots.reverse ++ _ = pool
      have hmem : pcb.pageDirectory ∈ gone := (hgone _).mpr ⟨.dir, ha₂.spaces.dir hd, rfl⟩
      refine ⟨_, ha₂.trans ⟨ha₂.spaces.removed hd hf hmem rfl (space_forgetProcess _ _), rfl,
        (hf.within ha₂.spaces.owned (ha₂.spaces.dir hd)).mono ?_, ?_⟩⟩
      · rintro e rfl
        exact hspace ▸ hd
      · exact fun _ b hb => (without_some.mp hb).2

end Sched
end Hashx86
