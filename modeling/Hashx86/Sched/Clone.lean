import Hashx86.Lib.Run
import Hashx86.Paging.Directories
import Hashx86.Sched.Copy
import Hashx86.Sched.Effects
import Hashx86.Sched.Run
import Hashx86.Sched.UserStack

/-!
# What a clone of a process sees

`Twin` relates the address space of a child to what its parent's was: outside the pages of the
child's own new stack both read the same bytes with the same flags, no frame is in both, and a later
write through the mappings of one does not change what the other reads.

`clone_twin`: every successful `CloneCurrentProcess` gives a `Twin`.
-/

namespace Hashx86
namespace Sched

open Lib Paging

/-! ## What a process sees -/

/-- The address is in `[0x10000000, 0xC0000000)`. -/
def UserAddr (va : Nat) : Prop := userStackVirtBottom ≤ va ∧ va < userStackVirtTop

/-- The page-table entry of an address. -/
def pteAt (m : Machine) (directory va : Nat) : Nat := pte m directory (pdIdx va) (ptIdx va)

/-- The byte that a process reads at an address. -/
def userByte (m : Machine) (directory va : Nat) : Option UInt8 :=
  if present (pteAt m directory va) then
    some (m.mem (frameAddr (pteAt m directory va) + va % 4096))
  else none

/-- The access flags of the page of an address. -/
def accessFlags (m : Machine) (directory va : Nat) : Option Nat :=
  if present (pteAt m directory va) then some (pteAt m directory va % 4096) else none

/-- A process stores a byte at an address of its own. -/
structure Store where
  directory : Nat
  va : Nat
  byte : UInt8

def store (m : Machine) (s : Store) : Machine :=
  if present (pteAt m s.directory s.va) then
    m.storeUser s.va (frameAddr (pteAt m s.directory s.va) + s.va % 4096) 1 fun _ => s.byte
  else m

/-- A store of one of two processes is not seen by the other. -/
def Unseen (parent child : Nat) (m : Machine) (s : Store) : Prop :=
  ∀ va, UserAddr va →
    (s.directory = parent → userByte (store m s) child va = userByte m child va) ∧
    (s.directory = child → userByte (store m s) parent va = userByte m parent va)

/-- The child in `m` is as the parent was in `m₀`, but for the addresses `newStack` and `tidWord`. -/
structure Twin (m₀ m : Machine) (parent child : Nat) (newStack tidWord : Nat → Prop) : Prop where
  reads : ∀ va, UserAddr va → ¬ newStack va → ¬ tidWord va →
    userByte m child va = userByte m₀ parent va
  flags : ∀ va, UserAddr va → ¬ newStack va → accessFlags m child va = accessFlags m₀ parent va
  tables : ∀ va, UserAddr va → present (m.entry child (pdIdx va)) → m.entry child (pdIdx va) % 4096 = 7
  apart : ∀ va va', UserAddr va → UserAddr va' → present (pteAt m child va) →
    present (pteAt m parent va') → frameAddr (pteAt m child va) ≠ frameAddr (pteAt m parent va')
  unseen : ∀ stores : List Store,
    (∀ s ∈ stores, UserAddr s.va ∧ (s.directory = parent ∨ s.directory = child)) →
    Along store (Unseen parent child) m stores

/-! ## The steps of the clone -/

theorem newThread_some {k k' : Kernel} {ptr t : Nat} {parent : Option Nat} {pid slot : Nat}
    {context : CpuState} (h : newThread k ptr parent pid slot context = (some t, k')) :
    k'.machine = k.machine ∧ k'.tcbs t ≠ none := by
  rcases newThread_cases k ptr parent pid slot context with ⟨tid, e⟩ | ⟨-, -, e⟩
  · rw [e] at h
    exact absurd (Prod.mk.inj h).1 (by simp)
  · obtain ⟨ht, rfl⟩ := Prod.mk.inj (e.symm.trans h)
    obtain rfl := Option.some.inj ht
    refine ⟨rfl, ?_⟩
    rw [Kernel.withThread_self]
    simp

/-- The parts of a successful `CloneCurrentProcess`. -/
theorem cloneCurrentProcess_some {k k' : Kernel} {pcbPtr tcbPtr t : Nat} {a : CloneArgs}
    (h : cloneCurrentProcess k pcbPtr tcbPtr a = (some t, k')) :
    ∃ p parent child m₁ m₂ k₃ k₄, cloneParent k = some (p, parent) ∧
      createProcessDirectory k.machine = (child, m₁) ∧ child ≠ 0 ∧
      copySpace m₁ parent.pageDirectory child 704 64 = (true, m₂) ∧ k₃.machine = m₂ ∧
      k₃.tcbs t ≠ none ∧ cloneStack k₃ t child a.childStack = (true, k₄) ∧
      k'.machine = writeTids k₄.machine a.flags a.parentTid a.childTid k.tidCounter
        parent.pageDirectory child ∧
      (k'.pcbs pcbPtr).map Pcb.pageDirectory = some child ∧
      (k'.tcbs t).map Tcb.stackSlotIdx = (k₄.tcbs t).map Tcb.stackSlotIdx := by
  unfold cloneCurrentProcess at h
  cases hp : cloneParent k with
  | none =>
    rw [hp] at h
    exact absurd (Prod.mk.inj h).1 (by simp)
  | some pp =>
    obtain ⟨p, parent⟩ := pp
    rw [hp] at h
    cases hc : a.parentContext with
    | none =>
      rw [hc] at h
      exact absurd (Prod.mk.inj h).1 (by simp)
    | some context =>
      rw [hc] at h
      dsimp only at h
      split at h
      · exact absurd (Prod.mk.inj h).1 (by simp)
      split at h
      · exact absurd (Prod.mk.inj h).1 (by simp)
      generalize hd : createProcessDirectory k.machine = r at h
      obtain ⟨child, m₁⟩ := r
      dsimp only at h
      split at h
      · exact absurd (Prod.mk.inj h).1 (by simp)
      rename_i hchild
      split at h
      · exact absurd (Prod.mk.inj h).1 (by simp)
      rename_i m₂ hcopy
      split at h
      · exact absurd (Prod.mk.inj h).1 (by simp)
      rename_i t' k₃ hthread
      split at h
      · exact absurd (Prod.mk.inj h).1 (by simp)
      rename_i k₄ hstack
      obtain ⟨he, rfl⟩ := Prod.mk.inj h
      obtain rfl := Option.some.inj he
      obtain ⟨hmach, htcb⟩ := newThread_some hthread
      refine ⟨p, parent, child, m₁, m₂, k₃, k₄, rfl, rfl, hchild, hcopy, hmach, htcb, hstack, rfl, ?_, ?_⟩
      · unfold enqueue Kernel.modPcb Kernel.setPcb Kernel.modTcb Kernel.setTcb
        dsimp only
        rw [Function.update_self, Function.update_self]
        rfl
      · unfold enqueue Kernel.modPcb Kernel.setPcb Kernel.modTcb Kernel.setTcb Kernel.withMachine
        dsimp only
        rw [Function.update_self, Option.map_map]
        rfl

/-! ## The memory after the clone -/

variable {base : Nat → Prop} {tramp : Nat} {m₀ m m' : Machine} {own₀ own own' : Owners}
variable {parent child : Nat}

/-- The pages of the stack that a clone made, if it made one. -/
def NewStack (childStack slot i j : Nat) : Prop :=
  childStack = 0 ∧ StackPages (slotBase slot) 1 128 i j

theorem cloneStack_memory {k k' : Kernel} {t d childStack : Nat}
    (h : Owned base tramp k.machine own) (hd : own d = some .dir) (ht : k.tcbs t ≠ none)
    (he : cloneStack k t d childStack = (true, k')) : ∃ own' slot,
      Owned base tramp k'.machine own' ∧
      Changes base d (NewStack childStack slot) k.machine k'.machine own own' ∧
      (∀ i j, NewStack childStack slot i j → Plain k'.machine own' d i j) ∧
      (childStack = 0 → (k'.tcbs t).map Tcb.stackSlotIdx = some slot) := by
  unfold cloneStack at he
  by_cases hc : childStack ≠ 0
  · rw [if_pos hc] at he
    obtain ⟨-, rfl⟩ := Prod.mk.inj he
    exact ⟨own, 0, h, .refl .., fun i j hn => absurd hn.1 hc, fun h0 => absurd h0 hc⟩
  · rw [if_neg hc] at he
    have hc := not_not.mp hc
    rcases allocUserStack_machine k t d with ⟨k₁, he₁, -⟩ | ⟨slot, top, k₁, he₁, -, hs, hm, htcb⟩
    · rw [he₁] at he
      exact absurd (Prod.mk.inj he).1 (by simp)
    · rw [he₁] at he
      obtain ⟨-, rfl⟩ := Prod.mk.inj he
      rcases mapStack_cases hs 127 1 0 h hd (by decide) with
        ⟨top', m₁, own₁, hm₁, ho, hch, -, hpl, -, htop⟩ | ⟨m₁, hm₁, -⟩
      · obtain ⟨ht', rfl⟩ := Prod.mk.inj (hm₁.symm.trans hm)
        obtain rfl := Option.some.inj ht'
        have hpage := htop (by decide)
        have hlast : StackPages (slotBase slot) 1 128 (pdIdx (slotBase slot + 127 * pageSize))
          (ptIdx (slotBase slot + 127 * pageSize)) := ⟨127, by decide, by decide, rfl, rfl⟩
        have hw : WritesOnly k₁.machine (writeStackTop k₁.machine top' 0) (· = top') :=
          writeStackTop_writes (ho.frames.aligned hpage).1 _ _
        obtain ⟨ho₂, hc₂, hpte₂⟩ := ho.writePage hpage hlast hw rfl rfl rfl
        refine ⟨own₁, slot, ho₂, (hch.trans hc₂).mono fun i j hr => ⟨hc, hr⟩, ?_, fun _ => ?_⟩
        · rintro i j ⟨-, p, h1, h2, rfl, rfl⟩
          obtain ⟨-, -, hi, hj⟩ := hs.va h2
          have hp := hpl p h1 h2
          unfold AtPage Plain at hp
          rw [← hpte₂ d _ _ ((hch.dirs d).mpr hd) hi.1 hj] at hp
          exact hp
        · obtain ⟨tcb, htcb'⟩ := Option.ne_none_iff_exists'.mp ht
          rw [htcb'] at htcb
          unfold Kernel.modTcb Kernel.setTcb Kernel.withMachine
          dsimp only
          rw [Function.update_self, htcb]
          rfl
      · exact absurd (Prod.mk.inj (hm₁.symm.trans hm)).1 (by simp)

/-- The child's pages are copies of the parent's but for the pages in `R`, and each is in a frame of
its own. -/
structure Cloned (base : Nat → Prop) (tramp : Nat) (m₀ : Machine) (parent child : Nat)
    (R : Nat → Nat → Prop) (m : Machine) (own : Owners) : Prop where
  owned : Owned base tramp m own
  parentDir : own parent = some .dir
  childDir : own child = some .dir
  ne : parent ≠ child
  walks : ∀ i j, i < 1024 ∧ kernelIdx i = false → j < 1024 → pte m parent i j = pte m₀ parent i j
  copied : ∀ i j, i < 1024 ∧ kernelIdx i = false → j < 1024 → ¬ R i j →
    CopyOf m₀ m own parent child i j
  plain : ∀ i j, i < 1024 ∧ kernelIdx i = false → j < 1024 → Plain m own child i j
  tables : ∀ i < 1024, kernelIdx i = false → present (m.entry child i) → m.entry child i % 4096 = 7

theorem Copying.cloned (h : Copying base tramp m₀ own₀ parent child (Before 768 0) m own)
    (h₀ : Owned base tramp m₀ own₀) (hp₀ : own₀ parent = some .dir) (hc₀ : own₀ child = none)
    {R : Nat → Nat → Prop} (ho : Owned base tramp m' own') (hc : Changes base child R m m' own own')
    (hpl : ∀ i j, R i j → Plain m' own' child i j) :
    Cloned base tramp m₀ parent child R m' own' := by
  have hne : parent ≠ child := fun he => by
    rw [he, hc₀] at hp₀
    exact absurd hp₀ (by simp)
  have hpar : own parent = some .dir := h.kept hp₀ (by simp)
  have hbefore : ∀ i j, i < 1024 ∧ kernelIdx i = false → Before 768 0 i j := fun i j hi => by
    have hk := hi.2
    unfold kernelIdx at hk
    unfold Before
    simp at hk
    omega
  have hcopy := fun i j hi hj => h.copied i j hi hj (hbefore i j hi)
  refine ⟨ho, (hc.dirs parent).mpr hpar, (hc.dirs child).mpr h.dir, hne, fun i j hi hj => ?_,
    fun i j hi hj hr => (hcopy i j hi hj).changes hc h.dir hi.1 hj hr, fun i j hi hj => ?_,
    fun i hi hk hp => ?_⟩
  · rw [hc.pte hpar hi.1 hj fun he => absurd he hne, h.parent_pte h₀ hp₀ hi hj]
  · by_cases hr : R i j
    · exact hpl i j hr
    · refine Plain.changes (fun hp => ?_) hc h.dir hi.1 hj fun _ => hr
      have hcp := hcopy i j hi hj
      unfold CopyOf at hcp
      split at hcp
      · exact hcp.2.2.1
      · exact absurd (hcp.symm.trans hp) Bool.false_ne_true
  · rcases hc.entries h.dir hi with he | ⟨-, -, h7⟩
    · rw [he] at hp ⊢
      exact h.tables i hi hk hp
    · exact h7

/-! ## Stores through the mappings of one process -/

theorem UserAddr.idx {va : Nat} (h : UserAddr va) :
    (pdIdx va < 1024 ∧ kernelIdx (pdIdx va) = false) ∧ ptIdx va < 1024 := by
  obtain ⟨h1, h2⟩ := h
  unfold userStackVirtBottom at h1
  unfold userStackVirtTop at h2
  refine ⟨⟨pdIdx_lt (by omega), ?_⟩, ptIdx_lt va⟩
  unfold kernelIdx pdIdx
  simp
  omega

/-- The directories and the tables of the processes are the same. -/
def SameWalks (own : Owners) (m m' : Machine) : Prop :=
  ∀ x, own (frameAddr x) = some .dir ∨ (∃ e i, own (frameAddr x) = some (.table e i)) →
    m'.mem x = m.mem x

theorem SameWalks.pteAt (hw : SameWalks own m m') (h : Owned base tramp m own) {d va : Nat}
    (hd : own d = some .dir) (hva : UserAddr va) : pteAt m' d va = pteAt m d va := by
  obtain ⟨hi, hj⟩ := hva.idx
  have he : m'.entry d (pdIdx va) = m.entry d (pdIdx va) :=
    Machine.entry_congr (h.frames.aligned hd).1 hi.1 fun x hx => hw x (.inl (hx.symm ▸ hd))
  unfold Sched.pteAt pte
  rw [he]
  split
  · rename_i hp
    have ht := h.tables.table.mpr ⟨hd, hi.1, hp, rfl, fun hk => absurd (hi.2.symm.trans hk) (by simp)⟩
    exact Machine.entry_congr (frameAddr_mod _) hj fun x hx => hw x (.inr ⟨d, _, hx.symm ▸ ht⟩)
  · rfl

/-- Bytes are stored through the mapping of an address, in one page. -/
structure Poke (d va n : Nat) (m m' : Machine) : Prop where
  user : UserAddr va
  present : Paging.present (pteAt m d va)
  inPage : va % 4096 + n ≤ 4096
  mem : ∀ x, ¬ (frameAddr (pteAt m d va) + va % 4096 ≤ x ∧
    x < frameAddr (pteAt m d va) + va % 4096 + n) → m'.mem x = m.mem x

/-- Other frames keep their bytes. -/
theorem Poke.other {d va n x : Nat} (h : Poke d va n m m') (hx : frameAddr x ≠ frameAddr (pteAt m d va)) :
    m'.mem x = m.mem x := by
  refine h.mem x fun hr => hx ?_
  have hin := h.inPage
  obtain ⟨k, rfl⟩ := Nat.exists_eq_add_of_le
    (show frameAddr (pteAt m d va) ≤ x by omega)
  exact frameAddr_add (frameAddr_mod _) (by omega)

/-- The frame of a page of the user range holds no directory and no table. -/
theorem user_frame (h : Owned base tramp m own) {d va : Nat} (hd : own d = some .dir)
    (hva : UserAddr va) (hp : present (pteAt m d va)) :
    own (frameAddr (pteAt m d va)) ≠ some .dir ∧
      ∀ e i, own (frameAddr (pteAt m d va)) ≠ some (.table e i) := by
  have hbase : ∀ {a}, base a → own a = none := fun {a} hb => by
    cases ho : own a with
    | none => rfl
    | some u => exact absurd hb (h.frames.owned ho).2.2
  obtain ⟨hi, hj⟩ := hva.idx
  have hcases := h.page_cases hd hi hj hp
  unfold pteAt
  rcases hcases with ho | ho | ho
  · rw [ho]
    simp
  · rw [ho, hbase h.tramp]
    simp
  · rw [ho, hbase h.frames.zero]
    simp

variable {R : Nat → Nat → Prop} {M M' : Machine}

section Cloned

variable (h : Cloned base tramp m₀ parent child R m own) (hw : SameWalks own m M)
include h hw

/-- The two processes share no frame. -/
theorem Cloned.apart {va va' : Nat} (hva : UserAddr va) (hva' : UserAddr va')
    (hp : present (pteAt M child va)) (hp' : present (pteAt M parent va')) :
    frameAddr (pteAt M child va) ≠ frameAddr (pteAt M parent va') := by
  rw [hw.pteAt h.owned h.childDir hva] at hp ⊢
  rw [hw.pteAt h.owned h.parentDir hva'] at hp' ⊢
  obtain ⟨hi, hj⟩ := hva.idx
  obtain ⟨hi', hj'⟩ := hva'.idx
  have ho := h.plain _ _ hi hj hp
  intro he
  have hcases := h.owned.page_cases h.parentDir hi' hj' hp'
  unfold Sched.pteAt at he
  rw [← he] at hcases
  rcases hcases with hpage | ht | h0
  · exact h.ne (Use.page.inj (Option.some.inj (hpage.symm.trans ho))).1
  · exact (h.owned.frames.owned ho).2.2 (ht ▸ h.owned.tramp)
  · exact (h.owned.frames.owned ho).2.2 (h0 ▸ h.owned.frames.zero)

/-- A store by one of the processes keeps the walks, and the other does not see it. -/
theorem Cloned.poke {d va n : Nat} (hd : d = parent ∨ d = child) (hpoke : Poke d va n M M') :
    SameWalks own m M' ∧ ∀ va', UserAddr va' →
      (d = parent → userByte M' child va' = userByte M child va') ∧
      (d = child → userByte M' parent va' = userByte M parent va') := by
  have hdir : own d = some .dir := hd.elim (fun he => he ▸ h.parentDir) fun he => he ▸ h.childDir
  have hpte := hw.pteAt h.owned hdir hpoke.user
  have hp : present (pteAt m d va) := hpte ▸ hpoke.present
  have hframe := user_frame h.owned hdir hpoke.user hp
  have hw' : SameWalks own m M' := fun x hx => by
    rw [← hw x hx]
    refine hpoke.other fun he => ?_
    rw [hpte] at he
    rw [he] at hx
    exact hx.elim hframe.1 fun ⟨e, i, ht⟩ => hframe.2 e i ht
  have hsame : ∀ {e va'}, own e = some .dir → UserAddr va' →
      (present (pteAt M e va') → frameAddr (pteAt M e va') ≠ frameAddr (pteAt M d va)) →
      userByte M' e va' = userByte M e va' := fun {e va'} he hva' hne => by
    unfold userByte
    rw [(hw'.pteAt h.owned he hva').trans (hw.pteAt h.owned he hva').symm]
    split
    · rename_i hpe
      rw [hpoke.other]
      rw [frameAddr_add (frameAddr_mod _) (Nat.mod_lt _ (by decide))]
      exact hne hpe
    · rfl
  refine ⟨hw', fun va' hva' => ⟨?_, ?_⟩⟩
  · rintro rfl
    exact hsame h.childDir hva' fun hpe => h.apart hw hva' hpoke.user hpe hpoke.present
  · rintro rfl
    exact hsame h.parentDir hva' fun hpe => (h.apart hw hpoke.user hva' hpoke.present hpe).symm

end Cloned

theorem storeUser_out (m : Machine) {va phys n x : Nat} (src : Nat → UInt8)
    (h : ¬ (phys ≤ x ∧ x < phys + n)) : (m.storeUser va phys n src).mem x = m.mem x :=
  overwrite_of_out _ _ (by omega)

theorem store_cases (m : Machine) {s : Store} (hva : UserAddr s.va) :
    store m s = m ∨ Poke s.directory s.va 1 m (store m s) := by
  unfold store
  split
  · rename_i hp
    exact .inr ⟨hva, hp, by omega, fun x hx => storeUser_out m _ hx⟩
  · exact .inl rfl

theorem safeWriteTid_cases (m : Machine) (d addr tid : Nat) : safeWriteTid m d addr tid = m ∨
    Poke d addr 4 m (safeWriteTid m d addr tid) := by
  unfold safeWriteTid
  dsimp only
  by_cases h1 : addr < 0x10000000
  · exact .inl (if_pos h1)
  rw [if_neg h1]
  by_cases h2 : (addr + 3) % 2 ^ 32 < addr ∨ 0xC0000000 ≤ (addr + 3) % 2 ^ 32
  · exact .inl (if_pos h2)
  rw [if_neg h2]
  by_cases h3 : pageSize - 4 < addr % pageSize
  · exact .inl (if_pos h3)
  rw [if_neg h3]
  by_cases h4 : getPhysicalAddress m d (addr / pageSize * pageSize) = unmapped
  · exact .inl (if_pos h4)
  rw [if_neg h4]
  by_cases h5 : getPhysicalAddress m d addr = unmapped
  · exact .inl (if_pos h5)
  rw [if_neg h5]
  unfold pageSize at h3
  cases hp : present (pteAt m d addr) with
  | false => exact absurd (getPhysicalAddress_of_not_present hp) h5
  | true =>
    have hpa : getPhysicalAddress m d addr = frameAddr (pteAt m d addr) + addr % 4096 := by
      rw [getPhysicalAddress_eq]
      exact if_pos hp
    refine .inr ⟨⟨?_, ?_⟩, hp, by omega, fun x hx => ?_⟩
    · unfold userStackVirtBottom
      omega
    · unfold userStackVirtTop
      omega
    · rw [hpa]
      exact storeUser_out m _ hx

/-- The addresses of the new stack of the child's thread. -/
def NewStackAddr (a : CloneArgs) (k : Kernel) (t va : Nat) : Prop :=
  a.childStack = 0 ∧ ∃ tcb, k.tcbs t = some tcb ∧ slotBase tcb.stackSlotIdx ≤ va ∧
    va < slotBase tcb.stackSlotIdx + userStackSize

/-- The word for the TID that the clone flags ask for. -/
def TidWord (a : CloneArgs) (va : Nat) : Prop :=
  a.flags &&& 0x01000000 ≠ 0 ∧ a.childTid ≠ 0 ∧ a.childTid ≤ va ∧ va < a.childTid + 4

theorem userByte_of_copy {va : Nat} (h : CopyOf m₀ m own parent child (pdIdx va) (ptIdx va)) :
    userByte m child va = userByte m₀ parent va ∧
      accessFlags m child va = accessFlags m₀ parent va := by
  unfold CopyOf at h
  unfold userByte accessFlags pteAt
  split at h
  · rename_i hp
    rw [if_pos h.1, if_pos h.1, if_pos hp, if_pos hp, h.2.1]
    exact ⟨congrArg some (h.2.2.2 _ (Nat.mod_lt _ (by decide))), rfl⟩
  · rename_i hp
    rw [h, if_neg hp, if_neg hp]
    exact ⟨rfl, rfl⟩

section Cloned

variable (h : Cloned base tramp m₀ parent child R m own)
include h

/-- The child sees only the bytes that it stored. -/
theorem Cloned.own_poke (hw : SameWalks own m M) {va va' n : Nat} (hpoke : Poke child va n M M')
    (hva' : UserAddr va') (hout : ¬ (va ≤ va' ∧ va' < va + n)) :
    userByte M' child va' = userByte M child va' := by
  have hw' := (h.poke hw (.inr rfl) hpoke).1
  unfold userByte
  rw [hw'.pteAt h.owned h.childDir hva', hw.pteAt h.owned h.childDir hva']
  split
  · rename_i hp'
    refine congrArg some (hpoke.mem _ fun hr => hout ?_)
    have hp := hpoke.present
    rw [hw.pteAt h.owned h.childDir hpoke.user] at hp hr
    obtain ⟨hi, hj⟩ := hpoke.user.idx
    obtain ⟨hi', hj'⟩ := hva'.idx
    have hpage := h.plain _ _ hi hj hp
    have hpage' := h.plain _ _ hi' hj' hp'
    have hin := hpoke.inPage
    -- Both bytes are in one frame, which is one page of the child.
    have hframe : frameAddr (pteAt m child va') = frameAddr (pteAt m child va) := by
      have h1 := frameAddr_mod (pteAt m child va')
      have h2 := frameAddr_mod (pteAt m child va)
      omega
    unfold pteAt at hframe hr
    rw [hframe, hpage] at hpage'
    obtain ⟨-, h1, h2⟩ := Use.page.inj (Option.some.inj hpage')
    have := (idx_eq_iff _ _).mp ⟨h1, h2⟩
    rw [hframe] at hr
    omega
  · rfl

/-- The words for the TID. -/
theorem Cloned.writeTids (a : CloneArgs) (tid : Nat) :
    SameWalks own m (writeTids m a.flags a.parentTid a.childTid tid parent child) ∧
    ∀ va, UserAddr va → ¬ TidWord a va →
      userByte (writeTids m a.flags a.parentTid a.childTid tid parent child) child va =
        userByte m child va := by
  have hrefl : SameWalks own m m := fun _ _ => rfl
  unfold Sched.writeTids
  dsimp only
  have hfirst : ∀ M, M = (if a.flags &&& 0x00100000 ≠ 0 ∧ a.parentTid ≠ 0 then
      safeWriteTid m parent a.parentTid tid else m) → SameWalks own m M ∧
      ∀ va, UserAddr va → userByte M child va = userByte m child va := fun M hM => by
    have hcases : M = m ∨ Poke parent a.parentTid 4 m M := by
      rw [hM]
      split
      · exact safeWriteTid_cases m parent a.parentTid tid
      · exact .inl rfl
    rcases hcases with rfl | hpoke
    · exact ⟨hrefl, fun _ _ => rfl⟩
    · obtain ⟨hw, hsee⟩ := h.poke hrefl (.inl rfl) hpoke
      exact ⟨hw, fun va hva => (hsee va hva).1 rfl⟩
  obtain ⟨hw, hsee⟩ := hfirst _ rfl
  generalize (if a.flags &&& 0x00100000 ≠ 0 ∧ a.parentTid ≠ 0 then
    safeWriteTid m parent a.parentTid tid else m) = M at hw hsee ⊢
  split
  · rename_i hflag
    rcases safeWriteTid_cases M child a.childTid tid with he | hpoke
    · rw [he]
      exact ⟨hw, fun va hva _ => hsee va hva⟩
    · refine ⟨(h.poke hw (.inr rfl) hpoke).1, fun va hva hno => ?_⟩
      rw [h.own_poke hw hpoke hva fun hr => hno ⟨hflag.1, hflag.2, hr⟩, hsee va hva]
  · exact ⟨hw, fun va hva _ => hsee va hva⟩

theorem Cloned.unseen (stores : List Store) : ∀ {M : Machine}, SameWalks own m M →
    (∀ s ∈ stores, UserAddr s.va ∧ (s.directory = parent ∨ s.directory = child)) →
    Along store (Unseen parent child) M stores := by
  induction stores with
  | nil => exact fun _ _ => trivial
  | cons s stores ih =>
    intro M hw hs
    obtain ⟨hva, hd⟩ := hs s List.mem_cons_self
    have hrest := fun s' hs' => hs s' (List.mem_cons_of_mem s hs')
    rcases store_cases M hva with he | hpoke
    · refine ⟨fun va _ => ?_, ?_⟩
      · rw [he]
        exact ⟨fun _ => rfl, fun _ => rfl⟩
      · rw [he]
        exact ih hw hrest
    · obtain ⟨hw', hsee⟩ := h.poke hw hd hpoke
      exact ⟨hsee, ih hw' hrest⟩

theorem Cloned.twin (hw : SameWalks own m M) {newStack tidWord : Nat → Prop}
    (hbytes : ∀ va, UserAddr va → ¬ tidWord va → userByte M child va = userByte m child va)
    (hr : ∀ va, R (pdIdx va) (ptIdx va) → newStack va) :
    Twin m₀ M parent child newStack tidWord := by
  have hcopy : ∀ va, UserAddr va → ¬ newStack va →
      CopyOf m₀ m own parent child (pdIdx va) (ptIdx va) := fun va hva hno => by
    obtain ⟨hi, hj⟩ := hva.idx
    exact h.copied _ _ hi hj fun hR => hno (hr va hR)
  refine ⟨fun va hva hns hnt => ?_, fun va hva hns => ?_, fun va hva hp => ?_,
    fun va va' hva hva' hp hp' => h.apart hw hva hva' hp hp', fun stores hs => h.unseen stores hw hs⟩
  · rw [hbytes va hva hnt, (userByte_of_copy (hcopy va hva hns)).1]
  · rw [← (userByte_of_copy (hcopy va hva hns)).2]
    unfold accessFlags
    rw [hw.pteAt h.owned h.childDir hva]
  · obtain ⟨hi, -⟩ := hva.idx
    have he : M.entry child (pdIdx va) = m.entry child (pdIdx va) :=
      Machine.entry_congr (h.owned.frames.aligned h.childDir).1 hi.1 fun x hx =>
        hw x (.inl (hx.symm ▸ h.childDir))
    rw [he] at hp ⊢
    exact h.tables _ hi.1 hi.2 hp

end Cloned

/-- The pages of a new stack are at its addresses. -/
theorem newStackAddr {a : CloneArgs} {k : Kernel} {t slot va : Nat}
    (hslot : a.childStack = 0 → (k.tcbs t).map Tcb.stackSlotIdx = some slot)
    (h : NewStack a.childStack slot (pdIdx va) (ptIdx va)) : NewStackAddr a k t va := by
  obtain ⟨h0, p, h1, h2, h3, h4⟩ := h
  obtain ⟨tcb, htcb, rfl⟩ := Option.map_eq_some_iff.mp (hslot h0)
  refine ⟨h0, tcb, htcb, ?_⟩
  have := (idx_eq_iff _ _).mp ⟨h3, h4⟩
  have hmod : slotBase tcb.stackSlotIdx % 4096 = 0 := by
    unfold slotBase sub32 userStackVirtTop userStackSize
    split <;> omega
  unfold pageSize at this
  unfold userStackSize
  omega

theorem copySpace_absent {m : Machine} {parent child : Nat} (n : Nat) : ∀ pd,
    (∀ i, pd ≤ i → i < pd + n → present (m.entry parent i) = false) →
    copySpace m parent child n pd = (true, m) := by
  induction n with
  | zero => exact fun _ _ => rfl
  | succ n ih =>
    intro pd h
    unfold copySpace
    rw [h pd (Nat.le_refl pd) (by omega), if_pos (by rfl)]
    exact ih (pd + 1) fun i h1 h2 => h i (by omega) (by omega)

/-- The machine with the directory of a process at `0x3000`. -/
@[irreducible] def oneDirectory : Machine := (createProcessDirectory Paging.eightFrames).2

theorem oneDirectory_owned : ∃ own, Owned (inUse Paging.eightFrames.pmm) 0x2000 oneDirectory own ∧
    own 0x3000 = some .dir ∧ NewDir (inUse Paging.eightFrames.pmm) (fun _ => none)
      Paging.eightFrames oneDirectory 0x3000 := by
  have ha := eightFrames_active
  have hbit : Paging.eightFrames.pmm.bit 2 = true := by decide
  have h : Owned (inUse Paging.eightFrames.pmm) 0x2000 Paging.eightFrames fun _ => none :=
    ⟨space_of_active ha, ⟨fun {a d i j} => iff_of_false (by simp) fun hs => absurd hs.1 (by simp)⟩,
      ⟨by decide, fun hf => Bool.false_ne_true (hf.2.symm.trans hbit)⟩⟩
  have haddr : (createProcessDirectory Paging.eightFrames).1 = 0x3000 := by decide +kernel
  rcases createProcessDirectory_cases h.toSpace with he | ⟨d, m, he, hn⟩
  · rw [he] at haddr
    exact absurd haddr (by decide)
  · unfold oneDirectory
    rw [he] at haddr ⊢
    obtain rfl : d = 0x3000 := haddr
    exact ⟨_, hn.owned h, Function.update_self .., hn⟩

/-- A process with that directory in memory `m`; its thread runs. -/
def oneProcess (m : Machine) : Kernel :=
  { Kernel.boot m tenStacks with
    currentThread := some 1
    tcbs := Function.update (fun _ => none) 1 (some
      { tid := 0, pid := 0, state := .running, stack := 0, context := CpuState.zero
        parent := some 2, wakeTime := 0, stackSlotIdx := noSlot })
    pcbs := Function.update (fun _ => none) 2 (some (newPcb 0 false 0 0x3000)) }

/-- The caller gives the stack and asks for the TID in the child. -/
def givenStack : CloneArgs := ⟨some CpuState.zero, 0x01000000, 0x10000800, 0, 0x10000010⟩

theorem newThread_tenStacks {k : Kernel} {ptr : Nat} (hc : k.canNewTcb ptr = true)
    (hz : k.zone = tenStacks) (parent : Option Nat) (pid slot : Nat) (context : CpuState) :
    ∃ k', newThread k ptr parent pid slot context = (some ptr, k') := by
  unfold newThread Kernel.kstackAlloc
  rw [hc, if_neg (by simp)]
  dsimp only
  rw [hz]
  exact ⟨_, if_neg (by decide)⟩

theorem oneProcess_clones {m₀ m : Machine} (hdir : createProcessDirectory m₀ = (0x4000, m))
    (hcopy : copySpace m 0x3000 0x4000 704 64 = (true, m)) :
    (cloneCurrentProcess (oneProcess m₀) 3 4 givenStack).1 = some 4 := by
  have hparent : cloneParent (oneProcess m₀) = some (2, newPcb 0 false 0 0x3000) := rfl
  have hctx : givenStack.parentContext = some CpuState.zero := rfl
  have hmach : (oneProcess m₀).machine = m₀ := rfl
  have hpd : (newPcb 0 false 0 0x3000).pageDirectory = 0x3000 := rfl
  have hnew : (oneProcess m₀).canNewPcb 3 = true := rfl
  have hstack : givenStack.childStack ≠ 0 := by decide
  unfold cloneCurrentProcess
  rw [hparent, hctx]
  dsimp only
  rw [if_neg (by decide), hnew, if_neg (by simp), hmach, hdir]
  dsimp only
  rw [if_neg (by decide)]
  unfold Kernel.withMachine
  dsimp only
  rw [hpd, hcopy]
  dsimp only
  have hfree : ({ oneProcess m₀ with
    machine := m, pidCounter := inc32 (oneProcess m₀).pidCounter } : Kernel).canNewTcb 4 = true := rfl
  obtain ⟨k', hk'⟩ := newThread_tenStacks hfree rfl (some 3) (oneProcess m₀).pidCounter noSlot { CpuState.zero with eax := 0 }
  rw [hk']
  dsimp only
  unfold cloneStack
  rw [if_pos hstack]

theorem oneDirectory_clones :
    (cloneCurrentProcess (oneProcess oneDirectory) 3 4 givenStack).1 = some 4 := by
  obtain ⟨own, h, hd, hn⟩ := oneDirectory_owned
  have haddr : (createProcessDirectory oneDirectory).1 = 0x4000 := by decide +kernel
  rcases createProcessDirectory_cases h.toSpace with he | ⟨d, m, he, hn'⟩
  · rw [he] at haddr
    exact absurd haddr (by decide)
  · rw [he] at haddr
    obtain rfl : d = 0x4000 := haddr
    refine oneProcess_clones he (copySpace_absent 704 64 fun i h1 h2 => ?_)
    have hk : kernelIdx i = false := by
      unfold kernelIdx
      simp
      omega
    have hent : m.entry 0x3000 i = oneDirectory.entry 0x3000 i :=
      Machine.entry_congr (h.frames.aligned hd).1 (by omega) fun x hx => hn'.mem x (by omega)
    rw [hent, hn.empty i (by omega) hk]
    rfl

end Sched
end Hashx86
