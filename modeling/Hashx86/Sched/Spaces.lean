import Hashx86.Sched.FreshSlot
import Hashx86.Sched.Stacked
import Hashx86.Sched.Stays

/-!
# The address spaces of the processes

`Spaces` ties the frames to the processes: the directories are those of the user processes, and the
pages of each are in frames of its own.

* `Spaces.stays`, `Spaces.added`, `Spaces.removed`: a call inside one address space, a new one, and the
  end of one.
-/

namespace Hashx86
namespace Sched

open Lib Paging

structure Spaces (base : Nat → Prop) (k : Kernel) (own : Owners) : Prop where
  owned : Owned base k.trampolinePhys k.machine own
  tramp : k.trampolinePhys < 2 ^ 32 ∧ k.trampolinePhys ≠ 0
  apart : TrampApart k.trampolinePhys k.machine
  dirs : ∀ d, own d = some .dir ↔ ∃ p, k.space p = some d
  inj : ∀ {p q d}, k.space p = some d → k.space q = some d → p = q
  priv : ∀ {p d}, k.space p = some d → Private k.machine own d
  /-- `MapPage` with `NULL` for the directory finds no table in frame 0. -/
  null : present (k.machine.entry 0 256) = false

variable {base : Nat → Prop} {d p t : Nat} {k k' : Kernel} {own own' : Owners} {D : Nat → Prop}
variable {clean : Prop}

theorem Spaces.dir (h : Spaces base k own) (hp : k.space p = some d) : own d = some .dir :=
  (h.dirs d).mpr ⟨p, hp⟩

theorem Spaces.lives (h : Spaces base k own) (hp : k.space p = some d) :
    Lives base k.trampolinePhys d k.machine own :=
  ⟨h.owned, h.apart, h.dir hp, h.priv hp⟩

/-- A change to the address spaces in `D`. -/
theorem Spaces.within (h : Spaces base k own)
    (hw : Within base k.trampolinePhys D k.machine k'.machine own own')
    (ho : Owned base k.trampolinePhys k'.machine own') (ht : k'.trampolinePhys = k.trampolinePhys)
    (hdirs : ∀ d, own' d = some .dir ↔ ∃ p, k'.space p = some d)
    (hinj : ∀ {p q d}, k'.space p = some d → k'.space q = some d → p = q)
    (hpriv : ∀ {p d}, k'.space p = some d → D d → Private k'.machine own' d) :
    Spaces base k' own' where
  owned := ht.symm ▸ ho
  tramp := ht.symm ▸ h.tramp
  apart := ht.symm ▸ hw.apart h.owned h.apart
  dirs := hdirs
  inj := hinj
  priv {p d} hp := by
    by_cases hD : D d
    · exact hpriv hp hD
    · have hd : own d = some .dir := (hw.uses (u := .dir) rfl hD).mp ((hdirs d).mpr ⟨p, hp⟩)
      obtain ⟨q, hq⟩ := (h.dirs d).mp hd
      exact hw.priv h.owned h.apart hd hD (h.priv hq)
  null := by
    have he : k'.machine.entry 0 256 = k.machine.entry 0 256 :=
      Machine.entry_congr (by decide) (by decide) fun x hx =>
        hw.kernel (hx ▸ h.owned.frames.zero) (hx ▸ h.tramp.2.symm)
    rw [he]
    exact h.null

/-- The processes and their address spaces are the same. -/
theorem Spaces.stays (h : Spaces base k own) (hp : k.space p = some d)
    (hs : Stays base k.trampolinePhys d clean k.machine k'.machine own own')
    (ht : k'.trampolinePhys = k.trampolinePhys) (hspace : k'.space = k.space) : Spaces base k' own' := by
  refine h.within hs.within hs.owned ht (fun e => ?_) (hspace.symm ▸ h.inj) fun {q e} hq he => ?_
  · rw [hspace, ← h.dirs]
    by_cases he : e = d
    · rw [he]
      exact iff_of_true hs.dir (h.dir hp)
    · exact hs.within.uses (u := .dir) rfl he
  · obtain rfl : e = d := he
    exact hs.priv (h.priv hp)

/-- Nothing changed that the address spaces see. -/
theorem Spaces.congr (h : Spaces base k own) (hm : k'.machine = k.machine)
    (ht : k'.trampolinePhys = k.trampolinePhys) (hspace : k'.space = k.space) : Spaces base k' own where
  owned := by rw [hm, ht]; exact h.owned
  tramp := ht.symm ▸ h.tramp
  apart := by rw [hm, ht]; exact h.apart
  dirs := hspace.symm ▸ h.dirs
  inj := hspace.symm ▸ h.inj
  priv := by rw [hm, hspace]; exact h.priv
  null := hm.symm ▸ h.null

/-- A process with a new directory. -/
theorem Spaces.added (h : Spaces base k own) (hd : own d = none) (hp : k.space p = none)
    (hw : Within base k.trampolinePhys D k.machine k'.machine own own')
    (ho : Owned base k.trampolinePhys k'.machine own') (ht : k'.trampolinePhys = k.trampolinePhys)
    (hspace : k'.space = Function.update k.space p (some d)) (hd' : own' d = some .dir)
    (hold : ∀ e, e ≠ d → D e → (own' e = some .dir ↔ own e = some .dir))
    (hpriv : ∀ {e}, own' e = some .dir → D e → Private k'.machine own' e) : Spaces base k' own' := by
  have hcases : ∀ {q e}, k'.space q = some e → (q = p ∧ e = d) ∨ (q ≠ p ∧ k.space q = some e) :=
    fun {q e} hq => by
      rw [hspace] at hq
      by_cases hqp : q = p
      · rw [hqp, Function.update_self] at hq
        exact .inl ⟨hqp, (Option.some.inj hq).symm⟩
      · rw [Function.update_of_ne hqp] at hq
        exact .inr ⟨hqp, hq⟩
  have hne : ∀ {q}, k.space q ≠ some d := fun {q} hq => by
    rw [h.dir hq] at hd
    exact nomatch hd
  have hdirs : ∀ e, own' e = some .dir ↔ ∃ q, k'.space q = some e := fun e => by
    by_cases he : e = d
    · rw [he]
      exact iff_of_true hd' ⟨p, by rw [hspace, Function.update_self]⟩
    · have hiff : own' e = some .dir ↔ own e = some .dir := by
        by_cases hD : D e
        · exact hold e he hD
        · exact hw.uses (u := .dir) rfl hD
      rw [hiff, h.dirs]
      refine exists_congr fun q => ?_
      rw [hspace]
      by_cases hqp : q = p
      · rw [hqp, Function.update_self, hp]
        exact iff_of_false nofun fun hs => he (Option.some.inj hs).symm
      · rw [Function.update_of_ne hqp]
  refine h.within hw ho ht hdirs (fun {q r e} hq hr => ?_) fun {q e} hq hD =>
    hpriv ((hdirs e).mpr ⟨q, hq⟩) hD
  rcases hcases hq with ⟨rfl, rfl⟩ | ⟨-, hq⟩ <;> rcases hcases hr with ⟨rfl, he⟩ | ⟨-, hr⟩
  · rfl
  · exact absurd hr hne
  · exact absurd (he ▸ hq) hne
  · exact h.inj hq hr

/-- The address space of a process is gone. -/
theorem Spaces.removed (h : Spaces base k own) {gone : List Nat} (hp : k.space p = some d)
    (hf : Freed base k.trampolinePhys d gone k.machine k'.machine own) (hmem : d ∈ gone)
    (ht : k'.trampolinePhys = k.trampolinePhys) (hspace : k'.space = Function.update k.space p none) :
    Spaces base k' (without own gone) := by
  have hgone : without own gone d ≠ some .dir := fun hs => (without_some.mp hs).1 hmem
  have hw := hf.within h.owned (h.dir hp)
  have hcases : ∀ {q e}, k'.space q = some e → q ≠ p ∧ k.space q = some e := fun {q e} hq => by
    rw [hspace] at hq
    by_cases hqp : q = p
    · rw [hqp, Function.update_self] at hq
      exact nomatch hq
    · rw [Function.update_of_ne hqp] at hq
      exact ⟨hqp, hq⟩
  have hdirs : ∀ e, without own gone e = some .dir ↔ ∃ q, k'.space q = some e := fun e => by
    by_cases he : e = d
    · rw [he]
      refine iff_of_false hgone fun ⟨q, hq⟩ => ?_
      exact (hcases hq).1 (h.inj (hcases hq).2 hp)
    · rw [hw.uses (u := .dir) rfl he, h.dirs]
      refine exists_congr fun q => ⟨fun hq => ?_, fun hq => (hcases hq).2⟩
      rw [hspace, Function.update_of_ne fun hqp => he ?_]
      · exact hq
      · rw [hqp, hp] at hq
        exact (Option.some.inj hq).symm
  refine h.within hw hf.owned ht hdirs (fun {q r e} hq hr => h.inj (hcases hq).2 (hcases hr).2)
    fun {q e} hq he => ?_
  obtain rfl : e = d := he
  exact absurd ((hdirs e).mpr ⟨q, hq⟩) hgone

end Sched
end Hashx86
