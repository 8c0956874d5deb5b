import Hashx86.Syscalls.UserCopy

/-!
# Copies between kernel buffers and user memory (`core/syscalls.cpp`)

`UserCopy` says what a successful copy yields; here are the calls with their buffers, whatever they
return. A kernel buffer is a function from offsets to bytes. A caller's buffer is never `NULL`.

* `copyFromUserTo`, `copyToUser`, `copyUserStringTo`: the calls.
* `isUserRange_iff`: the range check, with the wrap of the last address.
* `Copyable`: the ranges that the copies accept. `copyFromUserTo_spec`, `copyToUser_spec`: the
  copies succeed on these alone, and what they change.
* `user_copies`: both. `copied_byte_replaced`: a frame that is mapped at two addresses.
* `copyUserString_result`: what `CopyUserString` returns, writes and loads.
-/

namespace Hashx86

open Lib Paging

namespace UserCopy

/-! ## The calls -/

/-- The loop of `CopyFromUser` after `out` bytes. -/
def copyInLoop (m : Machine) (d : Nat) :
    (rounds userAddr remaining out : Nat) → (Nat → UInt8) → Bool × (Nat → UInt8)
  | 0, _, remaining, _, dst => (remaining = 0, dst)
  | rounds + 1, userAddr, remaining, out, dst =>
    if remaining = 0 then (true, dst)
    else
      let phys := getPhysicalAddress m d userAddr
      if phys = unmapped then (false, dst)
      else
        let chunk := min (pageSize - userAddr % pageSize) remaining
        copyInLoop m d rounds (userAddr + chunk) (remaining - chunk) (out + chunk)
          (overwrite dst out chunk fun i => m.mem (phys + i))

/-- `CopyFromUser` with its result and what it leaves in `dst`. -/
def copyFromUserTo (m : Machine) (d : Nat) (dst : Nat → UInt8) (srcUser size : Nat) :
    Bool × (Nat → UInt8) :=
  if srcUser = 0 || size = 0 then (false, dst)
  else if !isUserRange m d srcUser size then (false, dst)
  else copyInLoop m d size srcUser size 0 dst

/-- The loop of `CopyToUser` after `done` bytes. -/
def copyOutLoop (d : Nat) (src : Nat → UInt8) :
    (rounds userAddr remaining done : Nat) → Machine → Bool × Machine
  | 0, _, remaining, _, m => (remaining = 0, m)
  | rounds + 1, userAddr, remaining, done, m =>
    if remaining = 0 then (true, m)
    else
      let phys := getPhysicalAddress m d userAddr
      if phys = unmapped then (false, m)
      else
        let chunk := min (pageSize - userAddr % pageSize) remaining
        copyOutLoop d src rounds (userAddr + chunk) (remaining - chunk) (done + chunk)
          (m.storeUser userAddr phys chunk fun i => src (done + i))

/-- `CopyToUser`. -/
def copyToUser (m : Machine) (d dstUser : Nat) (src : Nat → UInt8) (size : Nat) : Bool × Machine :=
  if dstUser = 0 || size = 0 then (false, m)
  else if !isUserRange m d dstUser size then (false, m)
  else copyOutLoop d src size dstUser size 0 m

/-! ## Mapped bytes -/

variable {m m' : Machine} {d : Nat}

/-- The page of `a` is mapped. -/
def Mapped (m : Machine) (d a : Nat) : Prop := present (pte m d (pdIdx a) (ptIdx a)) = true

instance (m : Machine) (d a : Nat) : Decidable (Mapped m d a) :=
  inferInstanceAs (Decidable (_ = true))

/-- Where the byte at `a` is, if its page is mapped. -/
def physOf (m : Machine) (d a : Nat) : Nat := frameAddr (pte m d (pdIdx a) (ptIdx a)) + a % pageSize

theorem userByte_eq (m : Machine) (d a : Nat) : userByte m d a = m.mem (physOf m d a) := rfl

theorem pte_page {a b : Nat} (h : a / pageSize = b / pageSize) :
    pte m d (pdIdx a) (ptIdx a) = pte m d (pdIdx b) (ptIdx b) := by
  obtain ⟨hpd, hpt⟩ := (idx_eq_iff b a).mpr h
  rw [hpd, hpt]

theorem mapped_page {a b : Nat} (h : a / pageSize = b / pageSize) : Mapped m d a ↔ Mapped m d b := by
  unfold Mapped
  rw [pte_page h]

theorem physOf_add {a i : Nat} (h : i < pageSize - a % pageSize) :
    physOf m d (a + i) = physOf m d a + i := by
  unfold pageSize at h
  have hpage : (a + i) / pageSize = a / pageSize := by
    unfold pageSize
    omega
  have hmod : (a + i) % pageSize = a % pageSize + i := by
    unfold pageSize
    omega
  rw [physOf, physOf, pte_page hpage, hmod, Nat.add_assoc]

/-- `GetPhysicalAddress` finds a byte unless its page is not mapped, or it is the last byte of the
last frame, whose address is the value for a page that is not mapped. -/
theorem getPhysicalAddress_ne_iff {a : Nat} :
    getPhysicalAddress m d a ≠ unmapped ↔ Mapped m d a ∧ physOf m d a ≠ unmapped := by
  rw [getPhysicalAddress_eq, resolved]
  by_cases hp : present (pte m d (pdIdx a) (ptIdx a)) = true
  · rw [if_pos hp]
    exact (and_iff_right hp).symm
  · rw [if_neg hp]
    exact iff_of_false (fun h => h rfl) fun h => hp h.1

theorem getPhysicalAddress_mapped {a : Nat} (h : Mapped m d a) :
    getPhysicalAddress m d a = physOf m d a := by
  rw [getPhysicalAddress_eq]
  exact if_pos h

/-- The first byte of a page is never the last one of a frame. -/
theorem physOf_ne_unmapped {a : Nat} (h : a % pageSize = 0) : physOf m d a ≠ unmapped := by
  unfold physOf frameAddr unmapped
  omega

theorem getPhysicalAddress_page {a : Nat} (h : a % pageSize = 0) :
    getPhysicalAddress m d a ≠ unmapped ↔ Mapped m d a := by
  rw [getPhysicalAddress_ne_iff]
  exact and_iff_left (physOf_ne_unmapped h)

/-! ## The range check -/

/-- The range `[a, a + n)` lies in user space. -/
def InRange (a n : Nat) : Prop := userLowerBound ≤ a ∧ a + n ≤ userUpperBound

instance (a n : Nat) : Decidable (InRange a n) := inferInstanceAs (Decidable (_ ∧ _))

theorem pagesMapped_iff {n page : Nat} (hp : page % pageSize = 0) :
    pagesMapped m d n page = true ↔ ∀ j < n, Mapped m d (page + j * pageSize) := by
  induction n generalizing page with
  | zero => simp [pagesMapped]
  | succ n ih =>
    have hnext : (page + pageSize) % pageSize = 0 := by
      rw [Nat.add_mod_right]
      exact hp
    have hstep : ∀ j, page + pageSize + j * pageSize = page + (j + 1) * pageSize := fun j => by
      rw [Nat.succ_mul]
      omega
    unfold pagesMapped
    by_cases h : getPhysicalAddress m d page = unmapped
    · rw [if_pos h]
      refine iff_of_false Bool.false_ne_true fun hall => ?_
      have h0 := hall 0 (Nat.succ_pos n)
      rw [Nat.zero_mul, Nat.add_zero] at h0
      exact (getPhysicalAddress_page hp).mpr h0 h
    · rw [if_neg h, ih hnext]
      refine ⟨fun hall j hj => ?_, fun hall j hj => ?_⟩
      · cases j with
        | zero =>
          rw [Nat.zero_mul, Nat.add_zero]
          exact (getPhysicalAddress_page hp).mp h
        | succ j =>
          rw [← hstep]
          exact hall j (Nat.lt_of_succ_lt_succ hj)
      · rw [hstep]
        exact hall (j + 1) (Nat.succ_lt_succ hj)

/-- The pages that a range touches are mapped when the pages of its bytes are. -/
theorem pages_iff {a n : Nat} (hn : 0 < n) :
    (∀ j < (a + n - 1) / pageSize - a / pageSize + 1,
        Mapped m d (a / pageSize * pageSize + j * pageSize)) ↔ ∀ i < n, Mapped m d (a + i) := by
  unfold pageSize
  refine ⟨fun h i hi => ?_, fun h j hj => ?_⟩
  · refine (mapped_page ?_).mp (h ((a + i) / 4096 - a / 4096) (by omega))
    unfold pageSize
    omega
  · -- The first byte of the range in page `j`.
    refine (mapped_page ?_).mp (h (a / 4096 * 4096 + j * 4096 - a) (by omega))
    unfold pageSize
    omega

/-- `IsUserRange` checks the range and each of its pages. The last address wraps to one below the
first, or the range ends where it should. -/
theorem isUserRange_iff {a n : Nat} (ha : a < 2 ^ 32) (hn : n < 2 ^ 32) :
    isUserRange m d a n = true ↔ 0 < n ∧ InRange a n ∧ ∀ i < n, Mapped m d (a + i) := by
  unfold isUserRange InRange
  by_cases h0 : n = 0
  · rw [if_pos h0]
    exact iff_of_false Bool.false_ne_true fun h => by omega
  rw [if_neg h0]
  by_cases hlow : a < userLowerBound
  · rw [if_pos hlow]
    exact iff_of_false Bool.false_ne_true fun h => by omega
  rw [if_neg hlow]
  by_cases hhigh : a + n ≤ userUpperBound
  · have hlast : (a + n - 1) % 0x100000000 = a + n - 1 := by
      unfold userUpperBound at hhigh
      omega
    rw [hlast]
    dsimp only
    rw [if_neg (by simp; omega), pagesMapped_iff (Nat.mul_mod_left _ _), pages_iff (by omega)]
    exact ⟨fun h => ⟨by omega, ⟨by omega, hhigh⟩, h⟩, fun h => h.2.2⟩
  · unfold userUpperBound at hhigh ⊢
    dsimp only
    rw [if_pos (by simp; omega)]
    exact iff_of_false Bool.false_ne_true fun h => hhigh h.2.1.2

/-- The ranges that the copies accept: not empty, in user space, mapped, and not beginning in the
last byte of the last frame. -/
structure Copyable (m : Machine) (d a n : Nat) : Prop where
  pos : 0 < n
  inRange : InRange a n
  mapped : ∀ i < n, Mapped m d (a + i)
  first : physOf m d a ≠ unmapped

variable {a n : Nat} {buf : Nat → UInt8}

/-- The translation that a round of a copy begins with. -/
theorem Copyable.start (h : Copyable m d a n) {k : Nat} (hk : k < n)
    (hpage : k = 0 ∨ (a + k) % pageSize = 0) : getPhysicalAddress m d (a + k) ≠ unmapped := by
  refine getPhysicalAddress_ne_iff.mpr ⟨h.mapped k hk, ?_⟩
  rcases hpage with rfl | hpage
  · exact h.first
  · exact physOf_ne_unmapped hpage

/-- The check and the first translation tell which ranges are good. -/
theorem copyable_iff (ha : a < 2 ^ 32) (hn : n < 2 ^ 32) :
    Copyable m d a n ↔ isUserRange m d a n = true ∧ physOf m d a ≠ unmapped := by
  rw [isUserRange_iff ha hn]
  exact ⟨fun h => ⟨⟨h.pos, h.inRange, h.mapped⟩, h.first⟩,
    fun ⟨⟨hpos, hin, hmapped⟩, hfirst⟩ => ⟨hpos, hin, hmapped, hfirst⟩⟩

theorem Copyable.checked (h : Copyable m d a n) : isUserRange m d a n = true := by
  have hin := h.inRange
  unfold InRange userLowerBound userUpperBound at hin
  exact ((copyable_iff (by omega) (by omega)).mp h).1

/-- A range that is no good fails at the check or in the first round. -/
theorem not_copyable (ha : a < 2 ^ 32) (hn : n < 2 ^ 32) (h : ¬ Copyable m d a n)
    (hr : isUserRange m d a n = true) : 0 < n ∧ getPhysicalAddress m d a = unmapped := by
  obtain ⟨hpos, -, hmapped⟩ := (isUserRange_iff ha hn).mp hr
  refine ⟨hpos, ?_⟩
  rw [getPhysicalAddress_mapped (a := a) (hmapped 0 hpos)]
  by_contra hne
  exact h ((copyable_iff ha hn).mpr ⟨hr, hne⟩)

/-! ## From user memory -/

/-- The round that begins after `k` bytes, and those after it. -/
theorem copyInLoop_spec (h : Copyable m d a n) (rounds k : Nat) (hr : n - k ≤ rounds) (hk : k ≤ n)
    (hpage : k = 0 ∨ (a + k) % pageSize = 0 ∨ k = n) (dst : Nat → UInt8) :
    copyInLoop m d rounds (a + k) (n - k) k dst =
      (true, overwrite dst k (n - k) fun i => userByte m d (a + k + i)) := by
  induction rounds generalizing k dst with
  | zero =>
    have hz : n - k = 0 := by omega
    rw [copyInLoop, hz, overwrite_zero]
    rfl
  | succ rounds ih =>
    unfold copyInLoop
    by_cases hz : n - k = 0
    · rw [if_pos hz, hz, overwrite_zero]
    have hp := h.start (k := k) (by omega) (by omega)
    rw [if_neg hz]
    dsimp only
    rw [if_neg hp]
    obtain ⟨c, hc⟩ : ∃ c, c = min (pageSize - (a + k) % pageSize) (n - k) := ⟨_, rfl⟩
    have hc0 : 0 < c := by
      have := Nat.mod_lt (a + k) (show 0 < pageSize by decide)
      omega
    have hbytes : ∀ i < c, m.mem (getPhysicalAddress m d (a + k) + i) =
        userByte m d (a + k + i) := fun i hi => userByte_add hp (by omega)
    -- The chunk ends at the end of the range or of the page.
    have hnext : k + c = 0 ∨ (a + (k + c)) % pageSize = 0 ∨ k + c = n := by
      unfold pageSize at hc ⊢
      omega
    rw [← hc, Nat.add_assoc a k c, Nat.sub_sub, overwrite_congr _ hbytes,
      ih (k + c) (by omega) (by omega) hnext]
    have hsplit : n - k = c + (n - (k + c)) := by omega
    rw [hsplit, ← overwrite_next dst k c (n - (k + c)) fun i => userByte m d (a + k + i)]
    simp only [Nat.add_assoc]

/-- `CopyFromUser` succeeds on the good ranges, and then its bytes are what the process sees. -/
theorem copyFromUserTo_of_copyable (h : Copyable m d a n) (dst : Nat → UInt8) :
    copyFromUserTo m d dst a n = (true, overwrite dst 0 n fun i => userByte m d (a + i)) := by
  have hpos := h.pos
  have hlow := h.inRange.1
  unfold userLowerBound at hlow
  have hloop := copyInLoop_spec h n 0 (by omega) (by omega) (.inl rfl) dst
  unfold copyFromUserTo
  rw [if_neg (by simp; omega), h.checked]
  exact hloop

theorem copyFromUserTo_of_not (ha : a < 2 ^ 32) (hn : n < 2 ^ 32) (h : ¬ Copyable m d a n)
    (dst : Nat → UInt8) : copyFromUserTo m d dst a n = (false, dst) := by
  unfold copyFromUserTo
  by_cases h0 : (decide (a = 0) || decide (n = 0)) = true
  · rw [if_pos h0]
  rw [if_neg h0]
  cases hr : isUserRange m d a n with
  | false => rfl
  | true =>
    obtain ⟨hpos, hp⟩ := not_copyable ha hn h hr
    obtain ⟨rounds, rfl⟩ := Nat.exists_eq_succ_of_ne_zero (show n ≠ 0 by omega)
    show copyInLoop m d (rounds + 1) a (rounds + 1) 0 dst = _
    unfold copyInLoop
    rw [if_neg (Nat.succ_ne_zero rounds)]
    dsimp only
    rw [if_pos hp]

theorem copyLoop_isSome (rounds userAddr remaining out : Nat) (dst : Nat → UInt8) :
    (copyLoop m d rounds userAddr remaining).isSome =
      (copyInLoop m d rounds userAddr remaining out dst).1 := by
  induction rounds generalizing userAddr remaining out dst with
  | zero =>
    unfold copyLoop copyInLoop
    by_cases hz : remaining = 0 <;> simp [hz]
  | succ rounds ih =>
    unfold copyLoop copyInLoop
    by_cases hz : remaining = 0
    · rw [if_pos hz, if_pos hz]
      rfl
    rw [if_neg hz, if_neg hz]
    dsimp only
    by_cases hp : getPhysicalAddress m d userAddr = unmapped
    · rw [if_pos hp, if_pos hp]
      rfl
    · rw [if_neg hp, if_neg hp, Option.isSome_map]
      exact ih _ _ _ _

/-- `copyFromUser` is the same call without its buffer. -/
theorem copyFromUser_isSome (a n : Nat) (dst : Nat → UInt8) :
    (copyFromUser m d a n).isSome = (copyFromUserTo m d dst a n).1 := by
  unfold copyFromUser copyFromUserTo
  by_cases h0 : (decide (a = 0) || decide (n = 0)) = true
  · rw [if_pos h0, if_pos h0]
    rfl
  rw [if_neg h0, if_neg h0]
  cases isUserRange m d a n with
  | false => rfl
  | true => exact copyLoop_isSome n a n 0 dst

/-! ## To user memory -/

/-- `x` is a byte of one of the two entries that a walk for `a` reads. -/
def WalkByte (m : Machine) (d a x : Nat) : Prop :=
  (d + 4 * pdIdx a ≤ x ∧ x < d + 4 * pdIdx a + 4) ∨
    (frameAddr (m.entry d (pdIdx a)) + 4 * ptIdx a ≤ x ∧
      x < frameAddr (m.entry d (pdIdx a)) + 4 * ptIdx a + 4)

instance (m : Machine) (d a x : Nat) : Decidable (WalkByte m d a x) :=
  inferInstanceAs (Decidable (_ ∨ _))

/-- No byte of the range is in an entry that maps the range. -/
def KeepsWalks (m : Machine) (d a n : Nat) : Prop :=
  ∀ i < n, ∀ j < n, ¬ WalkByte m d (a + i) (physOf m d (a + j))

instance (m : Machine) (d a n : Nat) : Decidable (KeepsWalks m d a n) :=
  inferInstanceAs (Decidable (∀ i < n, ∀ j < n, _))

theorem pte_congr (h : ∀ x, WalkByte m d a x → m'.mem x = m.mem x) :
    pte m' d (pdIdx a) (ptIdx a) = pte m d (pdIdx a) (ptIdx a) := by
  have hdir : m'.entry d (pdIdx a) = m.entry d (pdIdx a) :=
    read32_congr fun x h1 h2 => h x (.inl ⟨h1, h2⟩)
  have htable : m'.entry (frameAddr (m.entry d (pdIdx a))) (ptIdx a) =
      m.entry (frameAddr (m.entry d (pdIdx a))) (ptIdx a) :=
    read32_congr fun x h1 h2 => h x (.inr ⟨h1, h2⟩)
  rw [pte, pte, hdir, htable]

/-- The memory after `k` bytes of a copy to `a`. -/
def copied (m : Machine) (d a : Nat) (src : Nat → UInt8) (k : Nat) : Nat → UInt8 :=
  scatter m.mem (fun i => physOf m d (a + i)) src k

theorem KeepsWalks.pte_copied (h : KeepsWalks m d a n) {k i : Nat} (hk : k ≤ n) (hi : i < n)
    (hm : m'.mem = copied m d a buf k) :
    pte m' d (pdIdx (a + i)) (ptIdx (a + i)) = pte m d (pdIdx (a + i)) (ptIdx (a + i)) := by
  refine pte_congr fun x hx => ?_
  rw [hm]
  exact scatter_of_out _ _ _ fun j hj he => h i hi j (by omega) (he ▸ hx)

theorem copyOutLoop_spec (h : Copyable m d a n) (hw : KeepsWalks m d a n) (rounds k : Nat)
    (hr : n - k ≤ rounds) (hk : k ≤ n) (hpage : k = 0 ∨ (a + k) % pageSize = 0 ∨ k = n)
    (log : List Event) :
    ∃ log', copyOutLoop d buf rounds (a + k) (n - k) k
        { m with mem := copied m d a buf k, log := log } =
      (true, { m with mem := copied m d a buf n, log := log' }) := by
  induction rounds generalizing k log with
  | zero =>
    obtain rfl : k = n := by omega
    exact ⟨log, by simp [copyOutLoop]⟩
  | succ rounds ih =>
    unfold copyOutLoop
    by_cases hz : n - k = 0
    · obtain rfl : k = n := by omega
      exact ⟨log, by rw [if_pos hz]⟩
    obtain ⟨s, hs⟩ : ∃ s, s = { m with mem := copied m d a buf k, log := log } := ⟨_, rfl⟩
    have hwalk : getPhysicalAddress s d (a + k) = getPhysicalAddress m d (a + k) := by
      rw [getPhysicalAddress_eq, getPhysicalAddress_eq,
        hw.pte_copied hk (by omega) (congrArg Machine.mem hs)]
    have hp := h.start (k := k) (by omega) (by omega)
    rw [if_neg hz, ← hs]
    dsimp only
    rw [hwalk, if_neg hp, getPhysicalAddress_mapped (h.mapped k (by omega))]
    obtain ⟨c, hc⟩ : ∃ c, c = min (pageSize - (a + k) % pageSize) (n - k) := ⟨_, rfl⟩
    have hc0 : 0 < c := by
      have := Nat.mod_lt (a + k) (show 0 < pageSize by decide)
      omega
    have hnext : k + c = 0 ∨ (a + (k + c)) % pageSize = 0 ∨ k + c = n := by
      unfold pageSize at hc ⊢
      omega
    -- One chunk is one store, since the bytes of a page follow one another in its frame.
    have hstore : overwrite s.mem (physOf m d (a + k)) c (fun i => buf (k + i)) =
        copied m d a buf (k + c) := by
      rw [hs]
      refine (scatter_add m.mem (fun i => physOf m d (a + i)) buf fun i hi => ?_).symm
      rw [← Nat.add_assoc]
      exact physOf_add (by omega)
    rw [← hc, Machine.storeUser, hstore, hs, Nat.add_assoc a k c, Nat.sub_sub]
    exact ih (k + c) (by omega) (by omega) hnext _

/-- `CopyToUser` puts the bytes, one after the other, where the process sees its range. -/
theorem copyToUser_of_copyable (h : Copyable m d a n) (hw : KeepsWalks m d a n)
    (buf : Nat → UInt8) :
    ∃ log, copyToUser m d a buf n = (true, { m with mem := copied m d a buf n, log := log }) := by
  have hpos := h.pos
  have hlow := h.inRange.1
  unfold userLowerBound at hlow
  obtain ⟨log, hloop⟩ := copyOutLoop_spec h hw n 0 (by omega) (by omega) (.inl rfl) m.log
  refine ⟨log, ?_⟩
  unfold copyToUser
  rw [if_neg (by simp; omega), h.checked]
  exact hloop

theorem copyToUser_of_not (ha : a < 2 ^ 32) (hn : n < 2 ^ 32) (h : ¬ Copyable m d a n) :
    copyToUser m d a buf n = (false, m) := by
  unfold copyToUser
  by_cases h0 : (decide (a = 0) || decide (n = 0)) = true
  · rw [if_pos h0]
  rw [if_neg h0]
  cases hr : isUserRange m d a n with
  | false => rfl
  | true =>
    obtain ⟨hpos, hp⟩ := not_copyable ha hn h hr
    obtain ⟨rounds, rfl⟩ := Nat.exists_eq_succ_of_ne_zero (show n ≠ 0 by omega)
    show copyOutLoop d buf (rounds + 1) a (rounds + 1) 0 m = _
    unfold copyOutLoop
    rw [if_neg (Nat.succ_ne_zero rounds)]
    dsimp only
    rw [if_pos hp]

/-- Two user pages from `0x10000000` on: the first is in the frame `0x3000`, `second` is the entry
of the other. -/
def twoPages (second : Nat) : Machine :=
  { pmm := Pmm.init (fun _ => 0) 0x9000 0x20000000
    mem := words fun k =>
      if k = 0x440 then 0x2007 else if k = 0x800 then 0x3007 else if k = 0x801 then second else 0
    kernelPageDirectory := 0x1000, log := [] }

/-- What `CopyUserString` returns, what it leaves in `dst`, and the physical addresses that it
loads. -/
structure StringCopy where
  ok : Bool
  dst : Nat → UInt8
  reads : List Nat

/-- `dst[i] = c`. -/
def put (dst : Nat → UInt8) (i : Nat) (c : UInt8) : Nat → UInt8 := overwrite dst i 1 fun _ => c

/-- The loop of `CopyUserString` at `i`, with `n` bytes left before the last one of `dst`. -/
def stringLoopTo (m : Machine) (d dstSize : Nat) :
    (n i userAddr : Nat) → (Nat → UInt8) → StringCopy
  | 0, _, _, dst => { ok := true, dst := put dst (dstSize - 1) 0, reads := [] }
  | n + 1, i, userAddr, dst =>
    if userUpperBound ≤ userAddr then { ok := false, dst := put dst 0 0, reads := [] }
    else
      let phys := getPhysicalAddress m d userAddr
      if phys = unmapped then { ok := false, dst := put dst 0 0, reads := [] }
      else
        let c := m.mem phys
        let dst := put dst i c
        if c = 0 then { ok := true, dst, reads := [phys] }
        else
          let r := stringLoopTo m d dstSize n (i + 1) (userAddr + 1) dst
          { r with reads := phys :: r.reads }

/-- `CopyUserString`. -/
def copyUserStringTo (m : Machine) (d srcUser : Nat) (dst : Nat → UInt8) (dstSize : Nat) :
    StringCopy :=
  if dstSize = 0 then { ok := false, dst, reads := [] }
  else if srcUser = 0 then { ok := true, dst := put dst 0 0, reads := [] }
  else if srcUser < userLowerBound || decide (userUpperBound ≤ srcUser) then
    { ok := false, dst := put dst 0 0, reads := [] }
  else stringLoopTo m d dstSize (dstSize - 1) 0 srcUser dst

/-- The kernel can load the user's byte at `a`: it is below the end of user space, its page is
mapped, and it is not the last byte of the last frame. -/
def Loadable (m : Machine) (d a : Nat) : Prop :=
  a < userUpperBound ∧ Mapped m d a ∧ physOf m d a ≠ unmapped

theorem not_loadable {a : Nat} :
    userUpperBound ≤ a ∨ getPhysicalAddress m d a = unmapped ↔ ¬ Loadable m d a := by
  have hp : getPhysicalAddress m d a = unmapped ↔ ¬ (Mapped m d a ∧ physOf m d a ≠ unmapped) := by
    rw [← getPhysicalAddress_ne_iff, not_not]
  rw [hp, ← Nat.not_lt, ← not_and_or]
  rfl

/-- A round of the loop. -/
theorem stringLoopTo_succ (m : Machine) (d dstSize n i a : Nat) (dst : Nat → UInt8) :
    stringLoopTo m d dstSize (n + 1) i a dst = { ok := false, dst := put dst 0 0, reads := [] } ∧
        ¬ Loadable m d a ∨
      Loadable m d a ∧ userByte m d a = 0 ∧ stringLoopTo m d dstSize (n + 1) i a dst =
        { ok := true, dst := put dst i 0, reads := [physOf m d a] } ∨
      Loadable m d a ∧ userByte m d a ≠ 0 ∧ stringLoopTo m d dstSize (n + 1) i a dst =
        { stringLoopTo m d dstSize n (i + 1) (a + 1) (put dst i (userByte m d a)) with
          reads := physOf m d a ::
            (stringLoopTo m d dstSize n (i + 1) (a + 1) (put dst i (userByte m d a))).reads } := by
  rw [stringLoopTo]
  by_cases hu : userUpperBound ≤ a
  · exact .inl ⟨if_pos hu, not_loadable.mp (.inl hu)⟩
  rw [if_neg hu]
  dsimp only
  by_cases hp : getPhysicalAddress m d a = unmapped
  · exact .inl ⟨if_pos hp, not_loadable.mp (.inr hp)⟩
  obtain ⟨hmapped, hphys⟩ := getPhysicalAddress_ne_iff.mp hp
  have hload : Loadable m d a := ⟨by omega, hmapped, hphys⟩
  rw [if_neg hp, getPhysicalAddress_mapped hmapped, ← userByte_eq]
  by_cases hc : userByte m d a = 0
  · rw [if_pos hc, hc]
    exact .inr (.inl ⟨hload, rfl, rfl⟩)
  · rw [if_neg hc]
    exact .inr (.inr ⟨hload, hc, rfl⟩)

section String

variable {p dstSize : Nat}

/-- The loop looks at the byte at `p + j` and at the bytes before it. -/
def EachLoadable (m : Machine) (d p i n : Nat) : Prop :=
  EachReached (· ≠ 0) (fun j => userByte m d (p + j)) (fun j => Loadable m d (p + j)) i n

/-- The bytes at `p + i`, `p + (i + 1)`, … before the first NUL, `n` of them at most. -/
def textFrom (m : Machine) (d p i n : Nat) : List UInt8 :=
  scan (· ≠ 0) (fun j => userByte m d (p + j)) i n

/-- The string `s` with its NUL is in `dst` from `i` on. -/
def putString (dst : Nat → UInt8) (i : Nat) (s : List UInt8) : Nat → UInt8 :=
  overwrite dst i (s.length + 1) fun j => s.getD j 0

theorem putString_nil (dst : Nat → UInt8) (i : Nat) : putString dst i [] = put dst i 0 := rfl

theorem putString_cons (dst : Nat → UInt8) (i : Nat) (c : UInt8) (s : List UInt8) :
    putString dst i (c :: s) = putString (put dst i c) (i + 1) s := by
  have h := overwrite_next dst i 1 (s.length + 1) fun j => (c :: s).getD j 0
  have hput : overwrite dst i 1 (fun j => (c :: s).getD j 0) = put dst i c :=
    overwrite_congr dst fun j hj => by
      obtain rfl : j = 0 := by omega
      rfl
  rw [hput] at h
  rw [putString, List.length_cons, Nat.add_comm (s.length + 1) 1, ← h]
  refine overwrite_congr _ fun j _ => ?_
  rw [Nat.add_comm 1 j]
  rfl

/-- The loop copies the string if it can load every byte that it looks at, else it leaves the empty
string. -/
theorem stringLoopTo_spec (p n i : Nat) (dst : Nat → UInt8) (h : i + n + 1 = dstSize) :
    EachLoadable m d p i n ∧ (stringLoopTo m d dstSize n i (p + i) dst).ok = true ∧
        (stringLoopTo m d dstSize n i (p + i) dst).dst = putString dst i (textFrom m d p i n) ∨
      ¬ EachLoadable m d p i n ∧ (stringLoopTo m d dstSize n i (p + i) dst).ok = false ∧
        (stringLoopTo m d dstSize n i (p + i) dst).dst 0 = 0 := by
  unfold EachLoadable textFrom
  induction n generalizing i dst with
  | zero =>
    have hlast : dstSize - 1 = i := by omega
    refine .inl ⟨eachReached_zero, rfl, ?_⟩
    rw [stringLoopTo, hlast]
    rfl
  | succ n ih =>
    rw [eachReached_succ]
    rcases stringLoopTo_succ m d dstSize n i (p + i) dst with
      ⟨hr, hload⟩ | ⟨hload, hc, hr⟩ | ⟨hload, hc, hr⟩
    · rw [hr]
      exact .inr ⟨fun hall => hload hall.1, rfl, rfl⟩
    · rw [hr, scan_succ_stop (by simpa using hc)]
      exact .inl ⟨⟨hload, fun hgo => absurd hc (by simpa using hgo)⟩, rfl, rfl⟩
    · rw [hr, scan_succ_go (by simpa using hc), putString_cons]
      rcases ih (i + 1) (put dst i (userByte m d (p + i))) (by omega) with
        ⟨hall, hok, hdst⟩ | ⟨hnot, hok, hdst⟩
      · exact .inl ⟨⟨hload, fun _ => hall⟩, hok, hdst⟩
      · exact .inr ⟨fun hall => hnot (hall.2 (by simpa using hc)), hok, hdst⟩

/-- The loop loads user bytes that it may load, and nothing else. -/
theorem stringLoopTo_reads (p n i : Nat) (dst : Nat → UInt8) :
    ∀ x ∈ (stringLoopTo m d dstSize n i (p + i) dst).reads,
      ∃ j, Loadable m d (p + j) ∧ x = physOf m d (p + j) := by
  induction n generalizing i dst with
  | zero => exact fun x hx => absurd hx List.not_mem_nil
  | succ n ih =>
    intro x hx
    rcases stringLoopTo_succ m d dstSize n i (p + i) dst with
      ⟨hr, -⟩ | ⟨hload, -, hr⟩ | ⟨hload, -, hr⟩
    · rw [hr] at hx
      exact absurd hx List.not_mem_nil
    · rw [hr] at hx
      exact ⟨i, hload, List.mem_singleton.mp hx⟩
    · rw [hr] at hx
      rcases List.mem_cons.mp hx with rfl | hx
      · exact ⟨i, hload, rfl⟩
      · exact ih (i + 1) _ x hx

/-- The loop writes nothing behind `dst`. -/
theorem stringLoopTo_behind (a n i : Nat) (dst : Nat → UInt8) (h : i + n + 1 = dstSize) {j : Nat}
    (hj : dstSize ≤ j) : (stringLoopTo m d dstSize n i a dst).dst j = dst j := by
  have hput : ∀ (dst : Nat → UInt8) (k : Nat) (c : UInt8), k < dstSize → put dst k c j = dst j :=
    fun _ _ _ hk => overwrite_of_out _ _ (by omega)
  induction n generalizing i a dst with
  | zero => exact hput dst _ 0 (by omega)
  | succ n ih =>
    rcases stringLoopTo_succ m d dstSize n i a dst with ⟨hr, -⟩ | ⟨-, -, hr⟩ | ⟨-, -, hr⟩
    · rw [hr]
      exact hput dst 0 0 (by omega)
    · rw [hr]
      exact hput dst i 0 (by omega)
    · rw [hr]
      show (stringLoopTo m d dstSize n (i + 1) (a + 1) _).dst j = dst j
      rw [ih (a + 1) (i + 1) _ (by omega)]
      exact hput dst i _ (by omega)

/-- `dst` holds `s` and its NUL. -/
def Holds (dst : Nat → UInt8) (s : List UInt8) : Prop := ∀ j ≤ s.length, dst j = s.getD j 0

theorem putString_holds (dst : Nat → UInt8) (s : List UInt8) : Holds (putString dst 0 s) s :=
  fun _ hj => overwrite_of_in _ _ (Nat.zero_le _) (by omega)

/-- The pointer lies in user space. -/
def InUser (p : Nat) : Prop := userLowerBound ≤ p ∧ p < userUpperBound

instance (p : Nat) : Decidable (InUser p) := inferInstanceAs (Decidable (_ ∧ _))

theorem copyUserStringTo_null (dst : Nat → UInt8) (h : 0 < dstSize) :
    copyUserStringTo m d 0 dst dstSize = { ok := true, dst := put dst 0 0, reads := [] } := by
  unfold copyUserStringTo
  rw [if_neg (by omega), if_pos rfl]

theorem copyUserStringTo_outside (dst : Nat → UInt8) (h : 0 < dstSize) (h0 : p ≠ 0)
    (hp : ¬ InUser p) :
    copyUserStringTo m d p dst dstSize = { ok := false, dst := put dst 0 0, reads := [] } := by
  unfold InUser at hp
  unfold copyUserStringTo
  rw [if_neg (by omega), if_neg h0, if_pos (by simp; omega)]

theorem copyUserStringTo_inside (dst : Nat → UInt8) (h : 0 < dstSize) (hp : InUser p) :
    copyUserStringTo m d p dst dstSize = stringLoopTo m d dstSize (dstSize - 1) 0 (p + 0) dst := by
  have hcheck : ¬ (decide (p < userLowerBound) || decide (userUpperBound ≤ p)) = true := by
    simpa [InUser] using hp
  have h0 : p ≠ 0 := by
    have := hp.1
    unfold userLowerBound at this
    omega
  unfold copyUserStringTo
  rw [if_neg (by omega), if_neg h0, if_neg hcheck]
  rfl

theorem stringLoop_isSome (n i a : Nat) (dst : Nat → UInt8) :
    (stringLoop m d n a).isSome = (stringLoopTo m d dstSize n i a dst).ok := by
  induction n generalizing i a dst with
  | zero => rfl
  | succ n ih =>
    unfold stringLoop stringLoopTo
    by_cases hu : userUpperBound ≤ a
    · rw [if_pos hu, if_pos hu]
      rfl
    rw [if_neg hu, if_neg hu]
    dsimp only
    by_cases hp : getPhysicalAddress m d a = unmapped
    · rw [if_pos hp, if_pos hp]
      rfl
    rw [if_neg hp, if_neg hp]
    by_cases hc : m.mem (getPhysicalAddress m d a) = 0
    · rw [if_pos hc, if_pos hc]
      rfl
    · rw [if_neg hc, if_neg hc, Option.isSome_map]
      exact ih (i + 1) (a + 1) _

/-- `copyUserString` is the same call without its buffer. -/
theorem copyUserString_isSome (p dstSize : Nat) (dst : Nat → UInt8) :
    (copyUserString m d p dstSize).isSome = (copyUserStringTo m d p dst dstSize).ok := by
  unfold copyUserString copyUserStringTo
  by_cases hn : dstSize = 0
  · rw [if_pos hn, if_pos hn]
    rfl
  rw [if_neg hn, if_neg hn]
  by_cases h0 : p = 0
  · rw [if_pos h0, if_pos h0]
    rfl
  rw [if_neg h0, if_neg h0]
  by_cases hr : (decide (p < userLowerBound) || decide (userUpperBound ≤ p)) = true
  · rw [if_pos hr, if_pos hr]
    rfl
  · rw [if_neg hr, if_neg hr]
    exact stringLoop_isSome (dstSize - 1) 0 p dst

end String

end UserCopy
end Hashx86
