import Hashx86.Elf.Defs
import Hashx86.Sched.Stays

/-!
# The pages of a segment

* `mapSegment_spec`: each page of a segment gets a frame of its own, or the loader gives up.
* `Written`: the loader stores bytes at addresses of the process. Nothing outside its address space
  changes, no page moves, and the process sees the bytes where they were stored (`poke_written`).
-/

namespace Hashx86
namespace Elf

open Lib Paging Sched

variable {base : Nat → Prop} {tramp d : Nat} {m m₁ m' : Machine} {own own₁ own' : Owners}

/-! ## The mapping -/

/-- Entry `j` of table `i` is that of one of the `n` pages from `addr` on. -/
def PagesFrom (addr n i j : Nat) : Prop :=
  ∃ q < n, pdIdx (addr + q * pageSize) = i ∧ ptIdx (addr + q * pageSize) = j

theorem PagesFrom.head (addr n : Nat) : PagesFrom addr (n + 1) (pdIdx addr) (ptIdx addr) :=
  ⟨0, by omega, by rw [Nat.zero_mul]; exact ⟨rfl, rfl⟩⟩

theorem PagesFrom.tail {addr n i j : Nat} (h : PagesFrom (addr + pageSize) n i j) :
    PagesFrom addr (n + 1) i j := by
  obtain ⟨q, hq, hij⟩ := h
  refine ⟨q + 1, by omega, ?_⟩
  rwa [show addr + (q + 1) * pageSize = addr + pageSize + q * pageSize by unfold pageSize; omega]

/-- The first page is not one of the others. -/
theorem not_pagesFrom_next {addr n : Nat} (hend : addr + (n + 1) * pageSize ≤ 2 ^ 32) :
    ¬ PagesFrom (addr + pageSize) n (pdIdx addr) (ptIdx addr) := by
  rintro ⟨q, hq, hij⟩
  have := (idx_eq_iff _ _).mp hij
  unfold pageSize at this hend
  omega

/-- The pages are mapped to frames of their own, for the program to read and write. -/
def Backed (m : Machine) (own : Owners) (d addr n : Nat) : Prop :=
  ∀ q < n, kernelIdx (pdIdx (addr + q * pageSize)) = false ∧
    ∃ a, own a = some (.page d (pdIdx (addr + q * pageSize)) (ptIdx (addr + q * pageSize))) ∧
      pteAt m d (addr + q * pageSize) % 4096 = userFlags

/-- No frame without a page is left, but for the pages that were mapped before. -/
def HeldIn (own own' : Owners) (d addr n : Nat) : Prop :=
  ∀ b, own' b = some .held → own b = some .held ∨
    ∃ i j, PagesFrom addr n i j ∧ own b = some (.page d i j)

theorem mapSegment_spec (n : Nat) : ∀ (addr : Nat) {m : Machine} {own : Owners},
    Owned base tramp m own → own d = some .dir → addr + n * pageSize ≤ 2 ^ 32 → ∃ own',
      Owned base tramp (mapSegment d n addr m).2 own' ∧
      Changes base d (PagesFrom addr n) m (mapSegment d n addr m).2 own own' ∧
      ((mapSegment d n addr m).1 = true →
        Backed (mapSegment d n addr m).2 own' d addr n ∧ HeldIn own own' d addr n) := by
  induction n with
  | zero =>
    exact fun addr {m own} h _ _ => ⟨own, h, .refl .., fun _ => ⟨fun q hq => absurd hq (by omega),
      fun b hb => .inl hb⟩⟩
  | succ n ih =>
    intro addr m own h hd hend
    have hnext : addr + pageSize + n * pageSize ≤ 2 ^ 32 ∧ addr < 2 ^ 32 := by
      unfold pageSize at hend ⊢
      omega
    have hfail : ∀ {m' : Machine} {own' : Owners}, Owned base tramp m' own' →
        Changes base d (PagesFrom addr (n + 1)) m m' own own' → ∃ own',
          Owned base tramp (false, m').2 own' ∧
          Changes base d (PagesFrom addr (n + 1)) m (false, m').2 own own' ∧
          ((false, m').1 = true → Backed m' own' d addr (n + 1) ∧ HeldIn own own' d addr (n + 1)) :=
      fun ho hc => ⟨_, ho, hc, fun hf => absurd hf Bool.false_ne_true⟩
    unfold mapSegment
    rcases h.alloc with he | ⟨a, m₁, he, ht⟩
    · rw [he]
      exact hfail h (.refl ..)
    rw [he]
    dsimp only
    rw [if_neg ht.fresh.2.2]
    have hc₁ := ht.changes d (PagesFrom addr (n + 1))
    rcases ht.owned.mapPage (ht.other hd) ht.held hnext.2 (show present userFlags by decide)
      (show userFlags < 4096 by decide) with hm | ⟨m₂, own₂, hm, hk, hput⟩
    · rw [hm]
      exact hfail ht.owned hc₁
    rw [hm]
    dsimp only
    rw [if_neg (by simp)]
    have hmod := (ht.owned.frames.aligned ht.held).1
    have hi : pdIdx addr < 1024 := pdIdx_lt hnext.2
    have hc₂ : Changes base d (PagesFrom addr (n + 1)) m m₂ own own₂ :=
      hc₁.trans (hput.changes.mono fun i j hij => by
        obtain ⟨rfl, rfl⟩ := hij
        exact .head addr n)
    obtain ⟨own', ho', hc', hok⟩ := ih (addr + pageSize) hput.owned ((hc₂.dirs d).mpr hd) hnext.1
    refine ⟨own', ho', hc₂.trans (hc'.mono fun i j hij => hij.tail), fun hf => ?_⟩
    obtain ⟨hback, hheld⟩ := hok hf
    refine ⟨fun q hq => ?_, fun b hb => ?_⟩
    · cases q with
      | zero =>
        rw [Nat.zero_mul, Nat.add_zero]
        have hno := not_pagesFrom_next hend
        refine ⟨hk, a, hc'.kept (hput.page ht.held) (by simp) fun i j he => ?_, ?_⟩
        · obtain ⟨-, rfl, rfl⟩ := Use.page.inj he
          exact hno
        · unfold pteAt
          rw [hc'.pte ((hc₂.dirs d).mpr hd) hi (ptIdx_lt addr) fun _ => hno, hput.pte, or_mod hmod]
          rfl
      | succ q =>
        rw [show addr + (q + 1) * pageSize = addr + pageSize + q * pageSize by
          unfold pageSize; omega]
        exact hback q (by omega)
    · -- a frame lost its page in the step, or in the rest of the loop
      have hstep : ∀ b, own₂ b = some .held → own b = some .held ∨
          ∃ i j, PagesFrom addr (n + 1) i j ∧ own b = some (.page d i j) := fun b hb => by
        rcases hput.held b hb with ⟨hb, hba⟩ | hb
        · exact .inl ((ht.held_iff hba).mp hb)
        · refine .inr ⟨_, _, .head addr n, (ht.held_iff fun hba => ?_).mp hb⟩
          rw [hba, ht.held] at hb
          exact absurd (Option.some.inj hb) (by simp)
      rcases hheld b hb with hb | ⟨i, j, hij, hb⟩
      · exact hstep b hb
      · refine .inr ⟨i, j, hij.tail, (ht.held_iff fun hba => ?_).mp
          ((hput.changes.page_iff ht.owned hput.owned (fun _ hs => ?_) b).mp hb)⟩
        · rw [hba, hput.page ht.held] at hb
          obtain ⟨-, rfl, rfl⟩ := Use.page.inj (Option.some.inj hb)
          exact not_pagesFrom_next hend hij
        · obtain ⟨rfl, rfl⟩ := hs
          exact not_pagesFrom_next hend hij

/-! ## Stores -/

/-- Different pages of an address space are in different frames. -/
theorem frame_inj (h : Lives base tramp d m own) {va va' : Nat} (hva : UserAddr va)
    (hva' : UserAddr va') (hp : present (pteAt m d va)) (hp' : present (pteAt m d va'))
    (he : frameAddr (pteAt m d va) = frameAddr (pteAt m d va')) : va / 4096 = va' / 4096 := by
  have htramp : own tramp = none := by
    cases ho : own tramp with
    | none => rfl
    | some u => exact absurd h.owned.tramp (h.owned.frames.owned ho).2.2
  -- a page is in a frame of its own, or in the frame of the exit trampoline
  have hpage : ∀ {va}, UserAddr va → present (pteAt m d va) →
      own (frameAddr (pteAt m d va)) = some (.page d (pdIdx va) (ptIdx va)) ∨
      frameAddr (pteAt m d va) = tramp ∧ AtTrampoline (pdIdx va) (ptIdx va) := fun {va} hva hp => by
    obtain ⟨hi, hj⟩ := hva.idx
    have hprop := h.priv _ _ hi hj
    rcases h.owned.page_cases h.dir hi hj hp with ho | ht | h0
    · exact .inl ho
    · refine .inr ⟨ht, ?_⟩
      by_contra hat
      have ho := hprop.plain hat hp
      rw [ht, htramp] at ho
      exact nomatch ho
    · exact absurd h0 (hprop hp).1
  refine (idx_eq_iff _ _).mp ?_
  rcases hpage hva hp with ho | ⟨ht, hat⟩ <;> rcases hpage hva' hp' with ho' | ⟨ht', hat'⟩
  · rw [he, ho'] at ho
    obtain ⟨-, h1, h2⟩ := Use.page.inj (Option.some.inj ho)
    exact ⟨h1.symm, h2.symm⟩
  · rw [he, ht', htramp] at ho
    exact nomatch ho
  · rw [← he, ht, htramp] at ho'
    exact nomatch ho'
  · exact ⟨hat.1.trans hat'.1.symm, hat.2.trans hat'.2.symm⟩

/-- Bytes were stored through the mappings of `d` at the addresses from `lo` up to `hi`. -/
structure Written (base : Nat → Prop) (tramp d lo hi : Nat) (m m' : Machine) (own : Owners) :
    Prop where
  stays : Stays base tramp d True m m' own own
  pte : ∀ va, UserAddr va → pteAt m' d va = pteAt m d va
  others : ∀ va, UserAddr va → ¬ (lo ≤ va ∧ va < hi) → userByte m' d va = userByte m d va

theorem Written.refl (h : Lives base tramp d m own) (lo hi : Nat) :
    Written base tramp d lo hi m m own := ⟨.refl h, fun _ _ => rfl, fun _ _ _ => rfl⟩

theorem Written.trans {lo mid hi : Nat} (h : Written base tramp d lo mid m m₁ own)
    (h₁ : Written base tramp d mid hi m₁ m' own) (hlo : lo ≤ mid) (hhi : mid ≤ hi) :
    Written base tramp d lo hi m m' own where
  stays := h.stays.trans h₁.stays
  pte va hva := (h₁.pte va hva).trans (h.pte va hva)
  others va hva hout := (h₁.others va hva (by omega)).trans (h.others va hva (by omega))

/-- The `n` addresses from `va` on are mapped. -/
def Ready (m : Machine) (d va n : Nat) : Prop :=
  ∀ x < n, UserAddr (va + x) ∧ present (pteAt m d (va + x))

theorem Ready.written {lo hi va n : Nat} (h : Ready m d va n) (hw : Written base tramp d lo hi m m' own) :
    Ready m' d va n := fun x hx => by
  obtain ⟨hva, hp⟩ := h x hx
  exact ⟨hva, hw.pte _ hva ▸ hp⟩

theorem Ready.drop {va n : Nat} (h : Ready m d va n) (k : Nat) : Ready m d (va + k) (n - k) :=
  fun x hx => by
    rw [Nat.add_assoc]
    exact h (k + x) (by omega)

/-- Bytes that fit in the page are stored at a mapped address. -/
theorem store_written (h : Lives base tramp d m own) {va n : Nat} (hva : UserAddr va)
    (hp : present (pteAt m d va)) (hin : va % 4096 + n ≤ 4096) (src : Nat → UInt8) :
    Written base tramp d va (va + n) m (m.store (getPhysicalAddress m d va) n src) own ∧
      ∀ x < n, UserAddr (va + x) →
        userByte (m.store (getPhysicalAddress m d va) n src) d (va + x) = some (src x) := by
  have haddr : getPhysicalAddress m d va = frameAddr (pteAt m d va) + va % 4096 := by
    rw [getPhysicalAddress_eq]
    exact if_pos hp
  rw [haddr]
  have hpoke : Poke d va n m (m.store (frameAddr (pteAt m d va) + va % 4096) n src) :=
    ⟨hva, hp, hin, fun x hx => overwrite_of_out _ _ (by omega)⟩
  generalize hm' : m.store (frameAddr (pteAt m d va) + va % 4096) n src = m' at hpoke ⊢
  have hsame : SameFrames base m m' := hm' ▸ ⟨rfl, rfl, id⟩
  obtain ⟨hi, hj⟩ := hva.idx
  obtain ⟨-, -, hpte⟩ := h.owned.poke h.apart (h.userFrame hi hj hp) (fun x hx => hpoke.other hx)
    hsame.pmm hsame.kernelDir hsame.frees
  have hpte' : ∀ va, UserAddr va → pteAt m' d va = pteAt m d va := fun va hva =>
    hpte d _ _ h.dir hva.idx.1.1 hva.idx.2
  refine ⟨⟨hpoke.stays h hsame, hpte', fun va' hva' hout => ?_⟩, fun x hx hvx => ?_⟩
  · unfold userByte
    rw [hpte' va' hva']
    split
    · rename_i hp'
      refine congrArg some (hpoke.mem _ fun hr => hout ?_)
      -- both bytes are in one frame, which is that of one page
      have hframe : frameAddr (pteAt m d va) = frameAddr (pteAt m d va') := by
        have h1 := frameAddr_mod (pteAt m d va')
        have h2 := frameAddr_mod (pteAt m d va)
        omega
      have := frame_inj h hva hva' hp hp' hframe
      rw [← hframe] at hr
      omega
    · rfl
  · have hpage : pteAt m d (va + x) = pteAt m d va := by
      unfold pteAt
      have := (idx_eq_iff va (va + x)).mpr (by omega)
      rw [this.1, this.2]
    unfold userByte
    rw [hpte' _ hvx, hpage, if_pos hp, ← hm']
    exact congrArg some ((overwrite_of_in _ _ (by omega) (by omega)).trans
      (congrArg src (by omega)))

end Elf
end Hashx86
