import Mathlib.Logic.Basic

/-!
# The break of a user process (`user_prog/libhx86`: `syscall_brk`, `kbrk`)

`Break` holds the variables of the user heap and, on the kernel's side, the break of the process.
An `int` is an `Int`; an `unsigned long` is a `Nat` below `2 ^ 32`. `ok` says of each call of
`sys_brk` whether the kernel finds the pages for it.

* `Consistent`: the heap ends where it should, and not behind the break.
* `kbrk_spec`: `kbrk` fails, or reserves `size` bytes inside the heap, if the page rounding of the
  request does not overflow an `int` (`Rounds`).
-/

namespace Hashx86

namespace UserHeap

structure Break where
  heapStart : Nat
  heapEnd : Nat
  totalSize : Nat
  totalUsedSize : Nat
  /-- `heap.endAddress` and `heap.maxAddress` of the process. -/
  endAddress : Nat
  maxAddress : Nat
  /-- How many calls of `sys_brk` there were. -/
  calls : Nat

/-- The `int` of a word. -/
def int32 (n : Nat) : Int := if n < 0x80000000 then n else (n : Int) - 0x100000000

/-- The word of a negative result, -1. -/
def minusOne : Nat := 0xFFFFFFFF

def maxBrkPerCall : Nat := 64 * 4096

/-- `Handle_sys_brk`: the word that it returns. -/
def sysBrk (ok : Nat → Bool) (b : Break) (brk : Nat) : Nat × Break :=
  let b' := { b with calls := b.calls + 1 }
  if brk = 0 then (b.endAddress, b')
  else if b.endAddress < brk then
    if b.maxAddress < brk then (minusOne, b')
    else if ok b.calls then (brk, { b' with endAddress := brk })
    else (minusOne, b')
  else (b.endAddress, b')

/-- `syscall_brk` for a positive increment; true where it does not return -1. -/
def syscallBrk (ok : Nat → Bool) (b : Break) (increment : Nat) : Bool × Break :=
  let (newBrk, b') := sysBrk ok b ((b.endAddress + increment) % 0x100000000)
  (!(decide (newBrk = minusOne) || decide (newBrk = b.endAddress)), b')

/-- The loop of `kbrk` that asks for `remaining` bytes. A round asks for a chunk of up to 256 KB, so
`remaining / maxBrkPerCall + 1` rounds are enough. -/
def growLoop (ok : Nat → Bool) : (rounds remaining : Nat) → Break → Bool × Break
  | 0, _, b => (true, b)
  | rounds + 1, remaining, b =>
    if remaining = 0 then (true, b)
    else
      let chunk := if maxBrkPerCall < remaining then maxBrkPerCall else remaining
      match syscallBrk ok b chunk with
      | (false, b) => (false, b)
      | (true, b) =>
        growLoop ok rounds (remaining - chunk) { b with
          totalSize := (b.totalSize + chunk) % 0x100000000
          heapEnd := (b.heapEnd + chunk) % 0x100000000 }

/-- `g_total_size - g_total_used_size`. -/
def available (b : Break) : Nat := (b.totalSize + 0x100000000 - b.totalUsedSize) % 0x100000000

/-- What `kbrk` asks for when `size` bytes are not available: whole pages, at least 1 MB. -/
def request (b : Break) (size : Nat) : Nat :=
  let needed := (size + 0x100000000 - available b) % 0x100000000
  let remaining := (needed + 4095) % 0x100000000 / 4096 * 4096
  if int32 remaining < 0x100000 then 0x100000 else remaining

/-- `kbrk`; `0` is `NULL`. -/
def kbrk (ok : Nat → Bool) (b : Break) (size : Int) : Nat × Break :=
  if size ≤ 0 then (0, b)
  else
    let (grown, b) :=
      if int32 (available b) ≤ size then
        growLoop ok (request b size.toNat / maxBrkPerCall + 1) (request b size.toNat) b
      else (true, b)
    if !grown then (0, b)
    else
      ((b.heapStart + b.totalUsedSize) % 0x100000000,
        { b with totalUsedSize := (b.totalUsedSize + size.toNat) % 0x100000000 })

/-- `heap_init` on the break as `init_sys` leaves it: it starts at `start` and was grown by 256 KB,
if the kernel let it. -/
def initBreak (ok : Nat → Bool) (start maxAddress : Nat) : Break :=
  let b := (syscallBrk ok ⟨0, 0, 0, 0, start, maxAddress, 0⟩ (256 * 1024)).2
  { b with
    heapStart := start
    heapEnd := b.endAddress
    totalSize := (b.endAddress + 0x100000000 - start) % 0x100000000 }

/-! ## What a call of `kbrk` does -/

/-- The heap ends `totalSize` behind its start and not behind the break of the process, and no more
is used. -/
structure Consistent (b : Break) : Prop where
  heapEnd : b.heapEnd = b.heapStart + b.totalSize
  used : b.totalUsedSize ≤ b.totalSize
  brk : b.heapEnd ≤ b.endAddress
  word : b.endAddress < 0x100000000

/-- `b'` is `b` with a heap that may have grown. -/
structure Grows (b b' : Break) : Prop where
  start : b'.heapStart = b.heapStart
  used : b'.totalUsedSize = b.totalUsedSize
  total : b.totalSize ≤ b'.totalSize
  max : b'.maxAddress = b.maxAddress

variable {ok : Nat → Bool} {b b' : Break} {size n : Nat}

theorem Grows.refl (b : Break) : Grows b b := ⟨rfl, rfl, Nat.le_refl _, rfl⟩

theorem Grows.trans {c : Break} (h : Grows b b') (h' : Grows b' c) : Grows b c :=
  ⟨h'.start.trans h.start, h'.used.trans h.used, Nat.le_trans h.total h'.total,
    h'.max.trans h.max⟩

/-- `syscall_brk` fails, or moves the break by the increment. The variables of the heap stay. -/
theorem syscallBrk_cases (ok : Nat → Bool) (hw : b.endAddress < 0x100000000) (hn : n < 0x100000000) :
    (∃ e c, syscallBrk ok b n = (false, { b with endAddress := e, calls := c }) ∧
      b.endAddress ≤ e ∧ e < 0x100000000) ∨
    syscallBrk ok b n =
        (true, { b with endAddress := b.endAddress + n, calls := b.calls + 1 }) ∧
      b.endAddress + n < 0x100000000 := by
  unfold syscallBrk sysBrk
  by_cases h0 : (b.endAddress + n) % 0x100000000 = 0
  · rw [if_pos h0]
    exact .inl ⟨b.endAddress, b.calls + 1, by simp, Nat.le_refl _, hw⟩
  rw [if_neg h0]
  by_cases h1 : b.endAddress < (b.endAddress + n) % 0x100000000
  case neg =>
    rw [if_neg h1]
    exact .inl ⟨b.endAddress, b.calls + 1, by simp, Nat.le_refl _, hw⟩
  have hsum : (b.endAddress + n) % 0x100000000 = b.endAddress + n := by omega
  rw [hsum] at h1 ⊢
  rw [if_pos h1]
  by_cases h2 : b.maxAddress < b.endAddress + n
  · rw [if_pos h2]
    exact .inl ⟨b.endAddress, b.calls + 1, by simp, Nat.le_refl _, hw⟩
  rw [if_neg h2]
  cases hok : ok b.calls with
  | false => exact .inl ⟨b.endAddress, b.calls + 1, by simp, Nat.le_refl _, hw⟩
  | true =>
    rw [if_pos rfl]
    by_cases h3 : b.endAddress + n = minusOne
    · exact .inl ⟨b.endAddress + n, b.calls + 1, by simp [h3], by omega, by omega⟩
    · refine .inr ⟨?_, by omega⟩
      have hne : ¬ b.endAddress + n = b.endAddress := by omega
      dsimp only
      rw [decide_eq_false h3, decide_eq_false hne]
      rfl

/-- The loop stops at a refusal, or the heap grows by all that remains. -/
theorem growLoop_spec (ok : Nat → Bool) {rounds remaining : Nat} (hc : Consistent b)
    (hr : remaining < 0x100000000) (hrounds : remaining ≤ rounds * maxBrkPerCall) :
    Grows b (growLoop ok rounds remaining b).2 ∧ Consistent (growLoop ok rounds remaining b).2 ∧
      ((growLoop ok rounds remaining b).1 = true →
        (growLoop ok rounds remaining b).2.totalSize = b.totalSize + remaining) := by
  induction rounds generalizing remaining b with
  | zero =>
    obtain rfl : remaining = 0 := by omega
    exact ⟨.refl b, hc, fun _ => rfl⟩
  | succ rounds ih =>
    unfold growLoop
    by_cases h0 : remaining = 0
    · rw [if_pos h0]
      exact ⟨.refl b, hc, fun _ => by rw [h0]; rfl⟩
    rw [if_neg h0]
    dsimp only
    have hchunk : (if maxBrkPerCall < remaining then maxBrkPerCall else remaining) =
        min maxBrkPerCall remaining := by
      unfold maxBrkPerCall
      split <;> omega
    rw [hchunk]
    obtain ⟨c, hcdef⟩ : ∃ c, c = min maxBrkPerCall remaining := ⟨_, rfl⟩
    rw [← hcdef]
    have hwidth : maxBrkPerCall = 262144 := rfl
    rw [hwidth] at hcdef hrounds
    have hend := hc.heapEnd
    have hbrk := hc.brk
    rcases syscallBrk_cases ok (n := c) hc.word (by omega) with
      ⟨e, k, he, hle, hlt⟩ | ⟨he, hlt⟩
    · rw [he]
      exact ⟨⟨rfl, rfl, Nat.le_refl _, rfl⟩,
        ⟨hc.heapEnd, hc.used, Nat.le_trans hc.brk hle, hlt⟩, fun h => Bool.noConfusion (show false = true from h)⟩
    · rw [he]
      dsimp only
      have htotal : (b.totalSize + c) % 0x100000000 = b.totalSize + c := by omega
      have hheap : (b.heapEnd + c) % 0x100000000 = b.heapEnd + c := by omega
      rw [htotal, hheap]
      have hused := hc.used
      let b₁ : Break := { b with
        totalSize := b.totalSize + c, heapEnd := b.heapEnd + c
        endAddress := b.endAddress + c, calls := b.calls + 1 }
      have hgrows : Grows b b₁ := ⟨rfl, rfl, Nat.le_add_right _ _, rfl⟩
      have hnext : Consistent b₁ :=
        ⟨show b.heapEnd + c = b.heapStart + (b.totalSize + c) by omega,
          show b.totalUsedSize ≤ b.totalSize + c by omega,
          show b.heapEnd + c ≤ b.endAddress + c by omega, hlt⟩
      have hleft : remaining - c ≤ rounds * 262144 := by omega
      obtain ⟨h1, h2, h3⟩ := ih hnext (Nat.lt_of_le_of_lt (Nat.sub_le ..) hr) hleft
      refine ⟨hgrows.trans h1, h2, fun hg => (h3 hg).trans ?_⟩
      change b.totalSize + c + (remaining - c) = b.totalSize + remaining
      omega

/-- The bytes that are not used. -/
def room (b : Break) : Nat := b.totalSize - b.totalUsedSize

theorem available_eq (hc : Consistent b) : available b = room b := by
  have h1 := hc.used
  have h2 := hc.heapEnd
  have h3 := hc.brk
  have h4 := hc.word
  unfold available room
  omega

theorem request_lt (b : Break) (n : Nat) : request b n < 0x80000000 := by
  unfold request
  dsimp only
  split
  · decide
  · rename_i h
    unfold int32 at h
    split at h <;> omega

/-- Without an overflow the request covers what is missing. -/
theorem le_request (hc : Consistent b) (hle : room b ≤ n)
    (hr : n ≤ 0x7FFFF000 + room b) : n - room b ≤ request b n := by
  unfold request
  rw [available_eq hc]
  have hneeded : (n + 0x100000000 - room b) % 0x100000000 = n - room b := by omega
  rw [hneeded]
  dsimp only
  obtain ⟨x, hx⟩ : ∃ x, x = (n - room b + 4095) % 0x100000000 / 4096 * 4096 := ⟨_, rfl⟩
  have hsmall : x < 0x80000000 := by omega
  rw [← hx, int32, if_pos hsmall]
  split <;> omega

/-- A request for a few bytes asks for 1 MB. -/
theorem request_small (hc : Consistent b) (hn : n ≤ 4096) (hle : room b ≤ n) :
    request b n = 0x100000 := by
  unfold request
  rw [available_eq hc]
  have hneeded : (n + 0x100000000 - room b) % 0x100000000 = n - room b := by omega
  rw [hneeded]
  have hsmall : (n - room b + 4095) % 0x100000000 / 4096 * 4096 < 0x80000000 := by omega
  refine if_pos ?_
  rw [int32, if_pos hsmall]
  omega

/-- `b'` is `b` with a heap of which more may be used. -/
structure Reserves (b b' : Break) : Prop where
  start : b'.heapStart = b.heapStart
  used : b.totalUsedSize ≤ b'.totalUsedSize
  consistent : Consistent b'

theorem Reserves.trans {c : Break} (h : Reserves b b') (h' : Reserves b' c) : Reserves b c :=
  ⟨h'.start.trans h.start, Nat.le_trans h.used h'.used, h'.consistent⟩

/-- The growth before a reservation, if there is one. -/
theorem grown_spec (ok : Nat → Bool) (hc : Consistent b) :
    ∃ grown b', (if int32 (available b) ≤ (n : Int) then
        growLoop ok (request b n / maxBrkPerCall + 1) (request b n) b else (true, b)) = (grown, b') ∧
      Grows b b' ∧ Consistent b' ∧
      (grown = true → room b ≤ n → n < 0x80000000 → b'.totalSize = b.totalSize + request b n) := by
  by_cases hle : int32 (available b) ≤ (n : Int)
  · rw [if_pos hle]
    have hlt := request_lt b n
    have hrounds : request b n ≤ (request b n / maxBrkPerCall + 1) * maxBrkPerCall := by
      unfold maxBrkPerCall
      omega
    obtain ⟨h1, h2, h3⟩ := growLoop_spec ok hc (Nat.lt_trans hlt (by decide)) hrounds
    match hg : growLoop ok (request b n / maxBrkPerCall + 1) (request b n) b with
    | (grown, b') =>
      rw [hg] at h1 h2 h3
      exact ⟨grown, b', rfl, h1, h2, fun hgrown _ _ => h3 hgrown⟩
  · rw [if_neg hle]
    refine ⟨true, b, rfl, .refl b, hc, fun _ hroom hn => absurd ?_ hle⟩
    rw [available_eq hc, int32]
    split <;> omega

/-- `kbrk` fails, or reserves `n` bytes behind those in use. -/
theorem kbrk_spec (ok : Nat → Bool) (hc : Consistent b) (h0 : 0 < n) (hn : n < 0x80000000)
    (hr : n ≤ 0x7FFFF000 + room b) :
    ∃ b', Reserves b b' ∧ (kbrk ok b n = (0, b') ∨
      kbrk ok b n = (b.heapStart + b.totalUsedSize, b') ∧ b.heapStart + b.totalUsedSize ≠ 0 ∧
        b'.totalUsedSize = b.totalUsedSize + n ∧ room b - n ≤ room b' ∧
        (room b ≤ n → room b' + n = room b + request b n)) := by
  unfold kbrk
  rw [if_neg (by omega), Int.toNat_natCast]
  obtain ⟨grown, b₁, he, hg, hc₁, htotal⟩ := grown_spec ok (n := n) hc
  rw [he]
  dsimp only
  have hstart := hg.start
  have hused := hg.used
  have hmore := hg.total
  cases grown with
  | false => exact ⟨b₁, ⟨hstart, Nat.le_of_eq hused.symm, hc₁⟩, .inl rfl⟩
  | true =>
    rw [if_neg (by decide)]
    have hcover : b₁.totalUsedSize + n ≤ b₁.totalSize := by
      have h1 := hc.used
      by_cases hroom : room b ≤ n
      · have h2 := htotal rfl hroom hn
        have h3 := le_request hc hroom hr
        unfold room at hroom h3
        omega
      · unfold room at hroom
        omega
    have h2 := hc₁.heapEnd
    have h3 := hc₁.brk
    have h4 := hc₁.word
    have haddr : (b₁.heapStart + b₁.totalUsedSize) % 0x100000000 =
        b.heapStart + b.totalUsedSize := by omega
    have hnew : (b₁.totalUsedSize + n) % 0x100000000 = b.totalUsedSize + n := by omega
    rw [haddr, hnew]
    refine ⟨{ b₁ with totalUsedSize := b.totalUsedSize + n }, ⟨hstart, ?_, ⟨h2, ?_, h3, h4⟩⟩, ?_⟩
    · change b.totalUsedSize ≤ b.totalUsedSize + n
      omega
    · change b.totalUsedSize + n ≤ b₁.totalSize
      omega
    · by_cases hnull : b.heapStart + b.totalUsedSize = 0
      · rw [hnull]
        exact .inl rfl
      · refine .inr ⟨rfl, hnull, rfl, ?_, fun hroom => ?_⟩
        · change room b - n ≤ b₁.totalSize - (b.totalUsedSize + n)
          unfold room
          omega
        · have h5 := htotal rfl hroom hn
          have h6 := hc.used
          change b₁.totalSize - (b.totalUsedSize + n) + n = room b + request b n
          unfold room
          omega

/-- The room that a header leaves, if `kbrk` finds one. -/
def headerRoom (b : Break) : Nat := (if room b ≤ 13 then room b + 0x100000 else room b) - 13

theorem headerRoom_le (hc : Consistent b) (h1 : room b - 13 ≤ room b')
    (h2 : room b ≤ 13 → room b' + 13 = room b + request b 13) : headerRoom b ≤ room b' := by
  unfold headerRoom
  by_cases hroom : room b ≤ 13
  · rw [request_small hc (by decide) hroom] at h2
    have := h2 hroom
    rw [if_pos hroom]
    omega
  · rw [if_neg hroom]
    exact h1

theorem initBreak_consistent (ok : Nat → Bool) {start maxAddress : Nat}
    (hs : start < 0x100000000) : Consistent (initBreak ok start maxAddress) := by
  unfold initBreak
  rcases syscallBrk_cases ok (b := ⟨0, 0, 0, 0, start, maxAddress, 0⟩) (n := 256 * 1024) hs
    (by decide) with ⟨e, c, he, hle, hlt⟩ | ⟨he, hlt⟩
  · rw [he]
    dsimp only at hle hlt ⊢
    exact ⟨by dsimp only; omega, Nat.zero_le _, Nat.le_refl _, hlt⟩
  · rw [he]
    dsimp only at hlt ⊢
    exact ⟨by dsimp only; omega, Nat.zero_le _, Nat.le_refl _, hlt⟩

end UserHeap
end Hashx86
