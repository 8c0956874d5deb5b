import Hashx86.Lib.Scan
import Hashx86.Paging.Walk

/-!
# Copies from user memory (`core/syscalls.cpp`)

* `userByte`: the byte that a process sees at an address.
* `isUserRange`, `copyFromUser`, `copyUserString`: the checked copies.
* `copyFromUser_spec`, `copyFromUser_word`: what `CopyFromUser` copies is what the process sees.
* `copyUserString_spec`: a copied string is the user's, cut at the capacity.
-/

namespace Hashx86

open Lib Paging

namespace UserCopy

def userLowerBound : Nat := 0x10000000
def userUpperBound : Nat := 0xC0000000

/-- The address `n` bytes after a user pointer. -/
def addr32 (p n : Nat) : Nat := (p + n) % 0x100000000

/-- The byte that a process with page directory `d` sees at `a`. -/
def userByte (m : Machine) (d a : Nat) : UInt8 :=
  m.mem (frameAddr (pte m d (pdIdx a) (ptIdx a)) + a % pageSize)

/-- The word that it sees at `a`. -/
def userWord (m : Machine) (d a : Nat) : Nat := read32 (userByte m d) a

/-! ## The copies -/

/-- The loop of `IsUserRange`: `n` pages from `page`. -/
def pagesMapped (m : Machine) (d : Nat) : (n page : Nat) → Bool
  | 0, _ => true
  | n + 1, page =>
    if getPhysicalAddress m d page = unmapped then false
    else pagesMapped m d n (page + pageSize)

/-- `IsUserRange` of a process with page directory `d`. -/
def isUserRange (m : Machine) (d addr size : Nat) : Bool :=
  if size = 0 then false
  else if addr < userLowerBound then false
  else
    let last := (addr + size - 1) % 0x100000000
    if last < addr || decide (userUpperBound ≤ last) then false
    else pagesMapped m d (last / pageSize - addr / pageSize + 1) (addr / pageSize * pageSize)

/-- The copying loop of `CopyFromUser`. Each round copies a byte or more, so `rounds` is never
short when it starts as `remaining`. -/
def copyLoop (m : Machine) (d : Nat) : (rounds userAddr remaining : Nat) → Option (List UInt8)
  | 0, _, remaining => if remaining = 0 then some [] else none
  | rounds + 1, userAddr, remaining =>
    if remaining = 0 then some []
    else
      let phys := getPhysicalAddress m d userAddr
      if phys = unmapped then none
      else
        let chunk := min (pageSize - userAddr % pageSize) remaining
        (copyLoop m d rounds (userAddr + chunk) (remaining - chunk)).map
          ((List.range chunk).map (fun i => m.mem (phys + i)) ++ ·)

/-- `CopyFromUser`: the bytes that it puts at `dst`, or nothing when it returns false. -/
def copyFromUser (m : Machine) (d srcUser size : Nat) : Option (List UInt8) :=
  if srcUser = 0 || size = 0 then none
  else if !isUserRange m d srcUser size then none
  else copyLoop m d size srcUser size

/-- The loop of `CopyUserString`: at most `n` more bytes from `userAddr`. -/
def stringLoop (m : Machine) (d : Nat) : (n userAddr : Nat) → Option (List UInt8)
  | 0, _ => some []
  | n + 1, userAddr =>
    if userUpperBound ≤ userAddr then none
    else
      let phys := getPhysicalAddress m d userAddr
      if phys = unmapped then none
      else
        let c := m.mem phys
        if c = 0 then some [] else (stringLoop m d n (userAddr + 1)).map (c :: ·)

/-- `CopyUserString`: the string that it leaves in `dst`, or nothing when it returns false. -/
def copyUserString (m : Machine) (d srcUser dstSize : Nat) : Option (List UInt8) :=
  if dstSize = 0 then none
  else if srcUser = 0 then some []
  else if srcUser < userLowerBound || decide (userUpperBound ≤ srcUser) then none
  else stringLoop m d (dstSize - 1) srcUser

/-! ## What they copy -/

variable {m : Machine} {d : Nat}

theorem getPhysicalAddress_ne {a : Nat} (h : getPhysicalAddress m d a ≠ unmapped) :
    getPhysicalAddress m d a = frameAddr (pte m d (pdIdx a) (ptIdx a)) + a % pageSize := by
  rw [getPhysicalAddress_eq, resolved] at h ⊢
  by_cases hp : present (pte m d (pdIdx a) (ptIdx a)) = true
  · rw [if_pos hp]
    rfl
  · exact absurd (if_neg hp) h

/-- The bytes of a page lie one after another in its frame. -/
theorem userByte_add {a i : Nat} (h : getPhysicalAddress m d a ≠ unmapped)
    (hi : i < pageSize - a % pageSize) :
    m.mem (getPhysicalAddress m d a + i) = userByte m d (a + i) := by
  unfold pageSize at hi
  have hpd : pdIdx (a + i) = pdIdx a := by
    unfold pdIdx
    omega
  have hpt : ptIdx (a + i) = ptIdx a := by
    unfold ptIdx
    omega
  have hmod : (a + i) % 4096 = a % 4096 + i := by omega
  rw [getPhysicalAddress_ne h, userByte, hpd, hpt, Nat.add_assoc]
  exact congrArg (fun x => m.mem (_ + x)) hmod.symm

theorem copyLoop_spec {rounds a n : Nat} {bs : List UInt8} (h : copyLoop m d rounds a n = some bs) :
    bs = (List.range n).map fun i => userByte m d (a + i) := by
  induction rounds generalizing a n bs with
  | zero =>
    unfold copyLoop at h
    by_cases hn : n = 0
    · rw [if_pos hn] at h
      cases h
      rw [hn]
      rfl
    · rw [if_neg hn] at h
      cases h
  | succ rounds ih =>
    unfold copyLoop at h
    by_cases hn : n = 0
    · rw [if_pos hn] at h
      cases h
      rw [hn]
      rfl
    rw [if_neg hn] at h
    by_cases hp : getPhysicalAddress m d a = unmapped
    · rw [if_pos hp] at h
      cases h
    rw [if_neg hp] at h
    obtain ⟨rest, hrest, rfl⟩ := Option.map_eq_some_iff.mp h
    have hsplit : n = min (pageSize - a % pageSize) n + (n - min (pageSize - a % pageSize) n) := by
      omega
    rw [ih hrest]
    conv_rhs => rw [hsplit, List.range_add, List.map_append, List.map_map]
    refine congrArg₂ (· ++ ·) ?_ ?_
    · refine List.map_congr_left fun i hi => userByte_add hp ?_
      have := List.mem_range.mp hi
      omega
    · exact List.map_congr_left fun i _ => by rw [Function.comp_apply, Nat.add_assoc]

/-- What `CopyFromUser` copies is what the process sees. -/
theorem copyFromUser_spec {a n : Nat} {bs : List UInt8} (h : copyFromUser m d a n = some bs) :
    bs = (List.range n).map fun i => userByte m d (a + i) := by
  unfold copyFromUser at h
  by_cases h0 : (decide (a = 0) || decide (n = 0)) = true
  · rw [if_pos h0] at h
    cases h
  rw [if_neg h0] at h
  by_cases hr : (!isUserRange m d a n) = true
  · rw [if_pos hr] at h
    cases h
  rw [if_neg hr] at h
  exact copyLoop_spec h

/-- The pointer in four copied bytes. -/
def wordOf (bs : List UInt8) : Nat := read32 (fun i => bs.getD i 0) 0

theorem copyFromUser_word {a : Nat} {bs : List UInt8} (h : copyFromUser m d a 4 = some bs) :
    wordOf bs = userWord m d a := by
  rw [copyFromUser_spec h]
  refine read32_eq fun i hi => ?_
  rw [Nat.zero_add, List.getD_eq_getElem?_getD, List.getElem?_map, List.getElem?_range hi]
  rfl

/-- The string that a process sees at `p`, cut at `n` bytes. -/
def userString (m : Machine) (d p n : Nat) : List UInt8 :=
  scan (· ≠ 0) (fun j => userByte m d (addr32 p j)) 0 n

theorem copyFromUser_byte {a : Nat} {bs : List UInt8} (h : copyFromUser m d a 1 = some bs) :
    bs.getD 0 0 = userByte m d a := by
  rw [copyFromUser_spec h]
  rfl

theorem stringLoop_spec {p n i : Nat} {s : List UInt8} (h : stringLoop m d n (p + i) = some s) :
    s = scan (· ≠ 0) (fun j => userByte m d (addr32 p j)) i n := by
  induction n generalizing i s with
  | zero =>
    cases h
    rfl
  | succ n ih =>
    unfold stringLoop at h
    by_cases hu : userUpperBound ≤ p + i
    · rw [if_pos hu] at h
      cases h
    rw [if_neg hu] at h
    by_cases hp : getPhysicalAddress m d (p + i) = unmapped
    · rw [if_pos hp] at h
      cases h
    rw [if_neg hp] at h
    have haddr : addr32 p i = p + i := by
      unfold userUpperBound at hu
      exact Nat.mod_eq_of_lt (by omega)
    have hbyte : m.mem (getPhysicalAddress m d (p + i)) = userByte m d (addr32 p i) := by
      rw [haddr, getPhysicalAddress_ne hp]
      rfl
    rw [hbyte] at h
    by_cases hc : userByte m d (addr32 p i) = 0
    · rw [if_pos hc] at h
      cases h
      exact (scan_succ_stop (by simpa using hc) n).symm
    · rw [if_neg hc] at h
      obtain ⟨rest, hrest, rfl⟩ := Option.map_eq_some_iff.mp h
      rw [scan_succ_go (by simpa using hc), ← ih (i := i + 1) hrest]

/-- A copied string is the user's, cut at the capacity. -/
theorem copyUserString_spec {p n : Nat} {s : List UInt8} (hp : p ≠ 0)
    (h : copyUserString m d p n = some s) : s = userString m d p (n - 1) := by
  unfold copyUserString at h
  by_cases hn : n = 0
  · rw [if_pos hn] at h
    cases h
  rw [if_neg hn, if_neg hp] at h
  by_cases hr : (decide (p < userLowerBound) || decide (userUpperBound ≤ p)) = true
  · rw [if_pos hr] at h
    cases h
  rw [if_neg hr] at h
  exact stringLoop_spec (i := 0) h

end UserCopy
end Hashx86
