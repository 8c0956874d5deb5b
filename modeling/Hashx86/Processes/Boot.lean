import Hashx86.Processes.Defs

/-!
# The address spaces when the scheduler is made

The constructor takes one frame, that of the exit trampoline, which is none of those that were in use
(`spaces_newScheduler`).
-/

namespace Hashx86
namespace Processes

open Lib Paging Sched

variable {m : Machine} {zone : Kstack.Zone} {threadExit idleTask tcbPtr : Nat} {k : Kernel}

/-- The frames that are not of the processes. -/
def KernelFrame (boot : Pmm.Info) (tramp a : Nat) : Prop := inUse boot a ∨ a = tramp

/-- The parts of the constructor. -/
theorem newScheduler_parts (h : newScheduler m zone threadExit idleTask tcbPtr = some k) : ∃ tramp m₁,
    m.allocBlockLow = (tramp, m₁) ∧ tramp ≠ 0 ∧ k.trampolinePhys = tramp ∧
    k.machine = (m₁.zero tramp pageSize).store tramp trampolineCode.length
      (fun i => trampolineCode.getD i 0) ∧
    (∀ p, k.pcbs p = none) ∧ ∀ t tcb, k.tcbs t = some tcb → tcb.parent = none := by
  unfold newScheduler at h
  generalize m.allocBlockLow = r at h ⊢
  obtain ⟨tramp, m₁⟩ := r
  dsimp only at h
  refine ⟨tramp, m₁, rfl, ?_⟩
  split at h
  · exact nomatch h
  rename_i h0
  generalize (m₁.zero tramp pageSize).store tramp trampolineCode.length
    (fun i => trampolineCode.getD i 0) = m₂ at h ⊢
  rcases createThread_cases threadExit ({ Kernel.boot m₂ zone with trampolinePhys := tramp } : Kernel)
      tcbPtr none idleTask 0 with ⟨k', e, -⟩ | ⟨-, -, context, e⟩ | ⟨p, k', hp, -⟩
  · rw [e] at h
    exact nomatch h
  · rw [e] at h
    obtain rfl := Option.some.inj h
    refine ⟨h0, rfl, rfl, fun p => rfl, fun t tcb ht => ?_⟩
    by_cases htp : t = tcbPtr
    · rw [htp] at ht
      obtain rfl := Option.some.inj ((Kernel.withThread_self _ _ _).symm.trans ht)
      rfl
    · exact nomatch (Function.update_of_ne htp _ _).symm.trans ht
  · exact nomatch hp

/-- The code of the exit trampoline is written to its frame. -/
theorem writesOnly_trampoline {m₁ : Machine} {tramp : Nat} (hmod : tramp % 4096 = 0) :
    WritesOnly m₁ ((m₁.zero tramp pageSize).store tramp trampolineCode.length
      (fun i => trampolineCode.getD i 0)) (· = tramp) := fun x hx => by
  have hout : ∀ n ≤ 4096, ∀ src (m : Machine), (m.store tramp n src).mem x = m.mem x := fun n hn src m => by
    refine overwrite_of_out _ _ ?_
    unfold frameAddr at hx
    omega
  rw [hout _ (by decide)]
  exact hout pageSize (by decide) _ m₁

theorem spaces_newScheduler (hb : Boots m)
    (h : newScheduler m zone threadExit idleTask tcbPtr = some k) :
    Spaces (KernelFrame m.pmm k.trampolinePhys) k (fun _ => none) ∧
    FreesOk (KernelFrame m.pmm k.trampolinePhys) k.machine.log ∧
    Accounted (KernelFrame m.pmm k.trampolinePhys) k.machine.pmm fun _ => none := by
  obtain ⟨tramp, m₁, halloc, h0, ht, hm, hpcbs, -⟩ := newScheduler_parts h
  have hactive := space_of_active hb.active
  rcases hactive.alloc with he | ⟨a, m₂, he, -, hmod, -, hbase, hs, hmem, hkd, hlog, hfree, hiff⟩
  · rw [halloc] at he
    exact absurd (Prod.mk.inj he).1 h0
  obtain ⟨rfl, rfl⟩ := Prod.mk.inj (halloc.symm.trans he)
  rw [ht]
  have hpmm : k.machine.pmm = m₁.pmm := hm ▸ rfl
  have hkd' : k.machine.kernelPageDirectory = m.kernelPageDirectory := hkd ▸ hm ▸ rfl
  have hlog' : k.machine.log = .alloc tramp :: m.log := hlog ▸ hm ▸ rfl
  have hkeep : ∀ x, frameAddr x ≠ tramp → k.machine.mem x = m.mem x := fun x hx => by
    rw [hm, writesOnly_trampoline hmod x hx, hmem]
  have hlow : tramp < lowLimit := (hs.frames.aligned (Function.update_self ..)).2.2
  have hne : ∀ {b}, inUse m.pmm b → b ≠ tramp := fun hb he => hbase (he ▸ hb)
  have hkernel : ∀ i < 1024, k.machine.entry m.kernelPageDirectory i = m.entry m.kernelPageDirectory i :=
    fun i hi => Machine.entry_congr hactive.tables.kernelDir.2 hi fun x hx =>
      hkeep x (hx ▸ hne hactive.tables.kernelDir.1)
  have hnone : ∀ p, k.space p = none := fun p => by
    unfold Kernel.space
    rw [hpcbs]
    rfl
  have hused : ∀ g, Pmm.Free k.machine.pmm g ↔ Pmm.Free m.pmm g ∧ g ≠ tramp / 4096 := hpmm ▸ hiff
  have hframes : Frames (KernelFrame m.pmm tramp) k.machine.pmm fun _ => none := by
    refine ⟨hpmm ▸ hs.frames.wf, nofun, nofun, fun b hb => ?_, .inl hactive.frames.zero⟩
    rcases hb with hb | rfl
    · exact ⟨hb.1, fun hf => hb.2 ((hused _).mp hf).1⟩
    · exact ⟨hmod, fun hf => ((hused _).mp hf).2 rfl⟩
  have htables : Tables (KernelFrame m.pmm tramp) k.machine fun _ => none := by
    refine ⟨?_, fun i hi hk => ?_, iff_of_false nofun fun hf => nomatch hf.1⟩
    · rw [hkd']
      exact ⟨.inl hactive.tables.kernelDir.1, hactive.tables.kernelDir.2⟩
    · rw [hkd', hkernel i hi]
      exact (hactive.tables.kernelTables i hi hk).imp_right .inl
  refine ⟨⟨?_, ?_, ?_, fun d => ?_, fun {p q d} hp => ?_, fun {p d} hp => ?_, ?_⟩, fun b inUse hf => ?_,
    fun g hg => .inl ?_⟩
  · rw [ht]
    exact ⟨⟨hframes, htables⟩, ⟨iff_of_false nofun fun hf => nomatch hf.1⟩, .inr rfl⟩
  · rw [ht]
    exact ⟨by unfold lowLimit at hlow; omega, h0⟩
  · rw [ht]
    refine ⟨hkd' ▸ hne hactive.tables.kernelDir.1, fun i hi hk => ?_⟩
    rw [hkd', hkernel i hi]
    exact hne (hactive.tables.kernelTables i hi hk).2
  · exact iff_of_false nofun fun ⟨p, hp⟩ => nomatch (hnone p).symm.trans hp
  · exact nomatch (hnone p).symm.trans hp
  · exact nomatch (hnone p).symm.trans hp
  · have he : k.machine.entry 0 256 = m.entry 0 256 := Machine.entry_congr (by decide) (by decide)
      fun x hx => hkeep x (hx ▸ h0.symm)
    rw [he]
    exact hb.null
  · rw [hlog', hb.log, List.mem_singleton] at hf
    exact nomatch hf
  · by_cases hgt : g = tramp / 4096
    · exact .inr (by omega)
    · refine .inl ⟨Nat.mul_mod_left g 4096, fun hf => hg ((hused g).mpr ⟨?_, hgt⟩)⟩
      rwa [Nat.mul_div_cancel g (by decide)] at hf

end Processes
end Hashx86
