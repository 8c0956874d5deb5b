import Hashx86.Syscalls.Brk
import Hashx86.User.Break

/-!
# The break of the user heap is the one of the kernel

`UserHeap.sysBrk` asks `ok` whether the kernel finds the pages of a call. `Handle_sys_brk` gives the
same word and the same break for one answer of `ok`, whatever the memory of the machine is.
-/

namespace Hashx86
namespace UserHeap

/-- The variables of the kernel for the break of a process. -/
structure Mirrors (b : Break) (heap : Sched.HeapSegment) : Prop where
  endAddress : b.endAddress = heap.endAddress
  maxAddress : b.maxAddress = heap.maxAddress

variable {m : Machine} {d brk : Nat} {heap : Sched.HeapSegment} {kmallocOk : Bool}

/-- A request for more is granted or refused as a whole. -/
theorem sysBrk_more (kmallocOk : Bool) (m : Machine) (d : Nat) (h0 : ¬ brk = 0)
    (hle : ¬ brk ≤ heap.endAddress) (hmax : ¬ heap.maxAddress < brk) :
    ∃ m', Syscalls.sysBrk kmallocOk m d heap brk = (brk, { heap with endAddress := brk }, m') ∨
      Syscalls.sysBrk kmallocOk m d heap brk = (Syscalls.failure, heap, m') := by
  unfold Syscalls.sysBrk
  dsimp only
  rw [if_neg h0, if_neg hle, if_neg hmax]
  split
  · exact ⟨m, .inl rfl⟩
  · split
    · exact ⟨m, .inr rfl⟩
    · split
      · exact ⟨_, .inr rfl⟩
      · exact ⟨_, .inl rfl⟩

theorem sysBrk_kernel (kmallocOk : Bool) (m : Machine) (d : Nat) (heap : Sched.HeapSegment)
    (brk : Nat) : ∃ granted : Bool, ∀ (ok : Nat → Bool) (b : Break), ok b.calls = granted →
      Mirrors b heap →
        (sysBrk ok b brk).1 = (Syscalls.sysBrk kmallocOk m d heap brk).1 ∧
          Mirrors (sysBrk ok b brk).2 (Syscalls.sysBrk kmallocOk m d heap brk).2.1 := by
  by_cases h0 : brk = 0
  · refine ⟨true, fun ok b _ hb => ?_⟩
    unfold Syscalls.sysBrk sysBrk
    dsimp only
    rw [if_pos h0, if_pos h0]
    exact ⟨hb.endAddress, hb.endAddress, hb.maxAddress⟩
  by_cases hle : brk ≤ heap.endAddress
  · refine ⟨true, fun ok b _ hb => ?_⟩
    have hnot : ¬ b.endAddress < brk := by rw [hb.endAddress]; omega
    unfold Syscalls.sysBrk sysBrk
    dsimp only
    rw [if_neg h0, if_neg h0, if_pos hle, if_neg hnot]
    exact ⟨hb.endAddress, hb.endAddress, hb.maxAddress⟩
  have hmore : ∀ {b : Break}, Mirrors b heap → b.endAddress < brk := fun hb => by
    rw [hb.endAddress]
    omega
  by_cases hmax : heap.maxAddress < brk
  · refine ⟨true, fun ok b _ hb => ?_⟩
    have hmax' : b.maxAddress < brk := by rw [hb.maxAddress]; exact hmax
    unfold Syscalls.sysBrk sysBrk
    dsimp only
    rw [if_neg h0, if_neg h0, if_neg hle, if_pos (hmore hb), if_pos hmax, if_pos hmax']
    exact ⟨rfl, hb.endAddress, hb.maxAddress⟩
  have hroom : ∀ {b : Break}, Mirrors b heap → ¬ b.maxAddress < brk := fun hb => by
    rw [hb.maxAddress]
    exact hmax
  obtain ⟨m', hcall | hcall⟩ := sysBrk_more kmallocOk m d h0 hle hmax
  · refine ⟨true, fun ok b hok hb => ?_⟩
    unfold sysBrk
    dsimp only
    rw [hcall, if_neg h0, if_pos (hmore hb), if_neg (hroom hb), hok, if_pos rfl]
    exact ⟨rfl, rfl, hb.maxAddress⟩
  · refine ⟨false, fun ok b hok hb => ?_⟩
    unfold sysBrk
    dsimp only
    rw [hcall, if_neg h0, if_pos (hmore hb), if_neg (hroom hb), hok, if_neg Bool.false_ne_true]
    exact ⟨rfl, hb.endAddress, hb.maxAddress⟩

end UserHeap
end Hashx86
