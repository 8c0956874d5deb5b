import Mathlib.Algebra.Ring.Nat
import Hashx86.Lib.Poll

/-!
# Sector transfers (`core/drivers/ata.cpp`)

`Read28`, `Write28`, `Flush` and the waits that they share. The device is an input: `Answers` are
what the reads of its ports return, in order. A transfer is a list of `Event`s, what the driver does
to the device and to the memory.

* `read28_sector`: `Read28` of a sector fills the buffer exactly when `Reads` holds.
* `write28_sector`: `Write28` of a sector returns true only after the device has taken the bytes.
* `sector_of_mem_read28`, `sector_of_mem_write28`: no other sector is touched.
-/

namespace Hashx86
namespace Ata

open Lib

/-! ## The device -/

structure Answers where
  /-- The reads of `commandPort`. -/
  status : Nat → UInt8
  /-- The reads of `dataPort`. -/
  word : Nat → UInt16

def busy (status : UInt8) : Bool := status &&& 0x80 = 0x80
def drdy (status : UInt8) : Bool := status &&& 0x40 = 0x40
def df (status : UInt8) : Bool := status &&& 0x20 = 0x20
def drq (status : UInt8) : Bool := status &&& 0x08 = 0x08
def err (status : UInt8) : Bool := status &&& 0x01 = 0x01

/-- The registers that select a sector. -/
structure Registers where
  devicePort : Nat
  sectorCountPort : Nat
  lbaLowPort : Nat
  lbaMidPort : Nat
  lbaHiPort : Nat

/-- The sector that the device decodes. -/
def Registers.lba (r : Registers) : Nat :=
  r.devicePort % 16 * 2 ^ 24 + r.lbaHiPort * 2 ^ 16 + r.lbaMidPort * 2 ^ 8 + r.lbaLowPort

/-- The port writes that select `sectorNum`. -/
def select (master : Bool) (sectorNum : Nat) : Registers where
  devicePort := (if master then 0xE0 else 0xF0) ||| (sectorNum &&& 0x0F000000) >>> 24
  sectorCountPort := 1
  lbaLowPort := sectorNum &&& 0x000000FF
  lbaMidPort := (sectorNum &&& 0x0000FF00) >>> 8
  lbaHiPort := (sectorNum &&& 0x00FF0000) >>> 16

inductive Event where
  /-- READ SECTOR (0x20) or WRITE SECTOR (0x30). -/
  | command (r : Registers) (code : Nat)
  /-- `insw`: the bytes are stored at `addr`. -/
  | dataIn (r : Registers) (addr : Nat) (bytes : List UInt8)
  /-- `outsw`. -/
  | dataOut (r : Registers) (bytes : List UInt8)
  /-- FLUSH CACHE (0xE7). -/
  | flush

/-- The sector that an event is about. -/
def Event.sector : Event → Option Nat
  | .command r _ => some r.lba
  | .dataIn r _ _ => some r.lba
  | .dataOut r _ => some r.lba
  | .flush => none

/-- The 256 words that `insw` reads, low byte first. -/
def insw (d : Answers) : List UInt8 :=
  (List.range 512).map fun j =>
    if j % 2 = 0 then (d.word (j / 2)).toUInt8 else (d.word (j / 2) >>> 8).toUInt8

/-- The bytes at `data`. -/
def bytesAt (mem : Nat → UInt8) (data n : Nat) : List UInt8 :=
  (List.range n).map fun j => mem ((data + j) % 2 ^ 32)

/-! ## The driver -/

/-- `bsyWait++ > 1000000` and its like give up after so many further reads. -/
def pollLimit : Nat := 1000001

/-- The status reads of `Read28`: the three after the first are only a delay. -/
def afterDelay (status : Nat → UInt8) (k : Nat) : UInt8 := if k = 0 then status 0 else status (k + 3)

/-- The waits of `Read28`: the read that finds DRQ set. -/
def readWait (status : Nat → UInt8) : Option Nat :=
  match poll (fun s => !busy s) (fun _ => false) status pollLimit 0 with
  | none => none
  | some b =>
    if err (status b) then none
    else poll drq (fun s => err s || df s) status pollLimit b

/-- `AdvancedTechnologyAttachment::Read28`. -/
def read28 (master : Bool) (d : Answers) (sectorNum data : Nat) (count : Int) : List Event :=
  if 0x0FFFFFFF < sectorNum then []
  else if data = 0 ∨ count ≤ 0 then []
  else
    let r := select master sectorNum
    match readWait (afterDelay d.status) with
    | none => [.command r 0x20]
    | some _ =>
      if count = 512 then [.command r 0x20, .dataIn r data (insw d)]
      else
        let safeCount := if 512 < count then 512 else count.toNat
        [.command r 0x20, .dataIn r data ((insw d).take safeCount)]

/-- `ata_wait_drq`: the first read after it, if it returns true. -/
def ataWaitDrq (status : Nat → UInt8) (k : Nat) : Option Nat :=
  match poll (fun s => !busy s) (fun _ => false) status pollLimit k with
  | none => none
  | some b => (poll drq (fun s => err s || df s) status pollLimit b).map (· + 1)

/-- `ata_wait_ready`: the first read after it, if it returns true. -/
def ataWaitReady (status : Nat → UInt8) (k : Nat) : Option Nat :=
  match poll (fun s => !(busy s || drq s)) err status pollLimit k with
  | none => none
  | some m => if err (status m) then none else if df (status m) then none else some (m + 1)

/-- `AdvancedTechnologyAttachment::Flush`. -/
def flush (status : Nat → UInt8) (k : Nat) : Bool :=
  if status k = 0x00 then false
  else match poll (fun s => !busy s) err status 4000001 k with
    | none => false
    | some m =>
      if err (status m) then false
      else if df (status m) then false
      else if drq (status m) then false
      else drdy (status m)

/-- The end of `Write28`. -/
def finishWrite (status : Nat → UInt8) (k : Nat) : Bool × List Event :=
  match ataWaitReady status k with
  | none => (false, [])
  | some k => (flush status k, [.flush])

/-- `AdvancedTechnologyAttachment::Write28`. -/
def write28 (master : Bool) (d : Answers) (mem : Nat → UInt8) (sectorNum data count : Nat) :
    Bool × List Event :=
  if 0x0FFFFFFF < sectorNum then (false, [])
  else if data = 0 ∨ count = 0 then (false, [])
  else
    let count := if 512 < count then 512 else count
    let r := select master sectorNum
    if count = 512 then
      match ataWaitDrq d.status 0 with
      | none => (false, [.command r 0x30])
      | some k =>
        let (ok, tail) := finishWrite d.status k
        (ok, .command r 0x30 :: .dataOut r (bytesAt mem data 512) :: tail)
    else
      match ataWaitDrq d.status 0 with
      | none => (false, [.command r 0x20])
      | some k =>
        let sectorBuffer := bytesAt mem data count ++ (insw d).drop count
        match ataWaitReady d.status k with
        | none => (false, [.command r 0x20])
        | some k =>
          match ataWaitDrq d.status k with
          | none => (false, [.command r 0x20, .command r 0x30])
          | some k =>
            let (ok, tail) := finishWrite d.status k
            (ok, .command r 0x20 :: .command r 0x30 :: .dataOut r sectorBuffer :: tail)

/-! ## The selected sector -/

theorem and_shiftRight_mask (n i k : Nat) : (n &&& ((2 ^ k - 1) <<< i)) >>> i = n / 2 ^ i % 2 ^ k := by
  rw [Nat.shiftRight_and_distrib, Nat.shiftLeft_shiftRight, Nat.and_two_pow_sub_one_eq_mod,
    Nat.shiftRight_eq_div_pow]

theorem lba_select {master : Bool} {n : Nat} (h : n ≤ 0x0FFFFFFF) : (select master n).lba = n := by
  have hdev : (n &&& 0x0F000000) >>> 24 = n / 2 ^ 24 % 2 ^ 4 := and_shiftRight_mask n 24 4
  have hhi : (n &&& 0x00FF0000) >>> 16 = n / 2 ^ 16 % 2 ^ 8 := and_shiftRight_mask n 16 8
  have hmid : (n &&& 0x0000FF00) >>> 8 = n / 2 ^ 8 % 2 ^ 8 := and_shiftRight_mask n 8 8
  have hlow : n &&& 0x000000FF = n % 2 ^ 8 := Nat.and_two_pow_sub_one_eq_mod n 8
  have hor : ∀ x : Nat, ((if master then 0xE0 else 0xF0) ||| x % 2 ^ 4) % 2 ^ 4 = x % 2 ^ 4 := by
    intro x
    rw [Nat.or_mod_two_pow, Nat.mod_mod]
    cases master <;> exact Nat.zero_or _
  unfold select Registers.lba
  dsimp only
  rw [hdev, hhi, hmid, hlow, show (16 : Nat) = 2 ^ 4 from rfl, hor]
  omega

/-! ## `Read28` of a sector -/

/-- The device lets `Read28` reach its transfer: BSY clears, without ERR, within the limit, and then
DRQ comes within the limit, before any ERR or DF. -/
def Reads (d : Answers) : Prop :=
  ∃ b, (FirstDone (fun s => !busy s) (fun _ => false) (afterDelay d.status) 0 b ∧ b ≤ pollLimit) ∧
    err (afterDelay d.status b) = false ∧
    ∃ m, FirstDone drq (fun s => err s || df s) (afterDelay d.status) b m ∧ m ≤ b + pollLimit

theorem reads_iff (d : Answers) : Reads d ↔ ∃ m, readWait (afterDelay d.status) = some m := by
  unfold readWait Reads
  constructor
  · rintro ⟨b, ⟨hb, hlimit⟩, herr, m, hm⟩
    have hpoll := poll_eq_some_iff.mpr ⟨hb, (Nat.zero_add pollLimit).symm ▸ hlimit⟩
    rw [hpoll]
    dsimp only
    rw [if_neg (by rw [herr]; decide)]
    exact ⟨m, poll_eq_some_iff.mpr hm⟩
  · rintro ⟨m, h⟩
    split at h
    · exact absurd h (Option.some_ne_none m).symm
    · rename_i b hb
      obtain ⟨hb, hlimit⟩ := poll_eq_some_iff.mp hb
      rw [Nat.zero_add] at hlimit
      split at h
      · exact absurd h (Option.some_ne_none m).symm
      · rename_i herr
        exact ⟨b, ⟨hb, hlimit⟩, by simpa using herr, m, poll_eq_some_iff.mp h⟩

section Read

variable {master : Bool} {d : Answers} {n data : Nat}

/-- `Read28` touches the sector it is given, if any. -/
theorem sector_of_mem_read28 {count : Int} {e : Event} {l : Nat}
    (he : e ∈ read28 master d n data count) (hl : e.sector = some l) :
    l = n ∧ n ≤ 0x0FFFFFFF ∧ data ≠ 0 := by
  unfold read28 at he
  split at he
  · exact absurd he List.not_mem_nil
  rename_i hlba
  split at he
  · exact absurd he List.not_mem_nil
  rename_i hdata
  have hn : n ≤ 0x0FFFFFFF := by omega
  have hsel : e.sector = some (select master n).lba → l = n := fun hs => by
    rw [hl, lba_select hn] at hs
    exact Option.some.inj hs
  refine ⟨hsel ?_, hn, fun h => hdata (.inl h)⟩
  dsimp only at he
  split at he
  · rw [List.mem_singleton] at he
    exact he ▸ rfl
  · split at he <;> simp only [List.mem_cons, List.not_mem_nil, or_false] at he <;>
      rcases he with rfl | rfl <;> rfl

/-- `Read28` of a sector fills the buffer exactly when the device reads it. -/
theorem read28_sector {r : Registers} {addr : Nat} {bytes : List UInt8} :
    .dataIn r addr bytes ∈ read28 master d n data 512 ↔
      (n ≤ 0x0FFFFFFF ∧ data ≠ 0 ∧ Reads d) ∧
        r = select master n ∧ addr = data ∧ bytes = insw d := by
  unfold read28
  by_cases hlba : 0x0FFFFFFF < n
  · rw [if_pos hlba]
    exact iff_of_false List.not_mem_nil fun h => absurd h.1.1 (by omega)
  rw [if_neg hlba]
  by_cases hdata : data = 0
  · rw [if_pos (.inl hdata)]
    exact iff_of_false List.not_mem_nil fun h => h.1.2.1 hdata
  rw [if_neg (by omega), reads_iff]
  dsimp only
  cases readWait (afterDelay d.status) with
  | none =>
    refine iff_of_false (fun h => ?_) ?_
    · exact Event.noConfusion (List.mem_singleton.mp h)
    · rintro ⟨⟨-, -, m, hm⟩, -⟩
      exact Option.some_ne_none m hm.symm
  | some m =>
    rw [if_pos rfl]
    simp only [List.mem_cons, List.not_mem_nil, or_false]
    constructor
    · rintro (h | h)
      · exact Event.noConfusion h
      · injection h with hr ha hb
        exact ⟨⟨by omega, hdata, m, rfl⟩, hr, ha, hb⟩
    · rintro ⟨-, hr, ha, hb⟩
      rw [hr, ha, hb]
      exact .inr rfl

end Read

/-! ## `Write28` of a sector -/

/-- The device asks for data, and afterwards reports a clean completion. -/
def Acked (d : Answers) : Prop :=
  ∃ t m, t < m ∧ drq (d.status t) = true ∧ busy (d.status m) = false ∧ drq (d.status m) = false ∧
    err (d.status m) = false ∧ df (d.status m) = false ∧ drdy (d.status m) = true

theorem ataWaitDrq_some {status : Nat → UInt8} {k k' : Nat} (h : ataWaitDrq status k = some k') :
    ∃ t, k' = t + 1 ∧ k ≤ t ∧ drq (status t) = true := by
  unfold ataWaitDrq at h
  split at h
  · exact absurd h (Option.some_ne_none k').symm
  · rename_i b hb
    obtain ⟨t, ht, hk⟩ := Option.map_eq_some_iff.mp h
    have hbusy := (poll_eq_some_iff.mp hb).1
    have hdrq := (poll_eq_some_iff.mp ht).1
    exact ⟨t, hk.symm, Nat.le_trans hbusy.le hdrq.le, hdrq.at_end⟩

theorem ataWaitReady_some {status : Nat → UInt8} {k k' : Nat}
    (h : ataWaitReady status k = some k') : k < k' := by
  unfold ataWaitReady at h
  split at h
  · exact absurd h (Option.some_ne_none k').symm
  · rename_i m hm
    have hle := (poll_eq_some_iff.mp hm).1.le
    split at h
    · exact absurd h (Option.some_ne_none k').symm
    · split at h
      · exact absurd h (Option.some_ne_none k').symm
      · have := Option.some.inj h
        omega

theorem flush_true {status : Nat → UInt8} {k : Nat} (h : flush status k = true) :
    ∃ m, k ≤ m ∧ busy (status m) = false ∧ drq (status m) = false ∧ err (status m) = false ∧
      df (status m) = false ∧ drdy (status m) = true := by
  unfold flush at h
  split at h
  · exact absurd h Bool.false_ne_true
  split at h
  · exact absurd h Bool.false_ne_true
  rename_i m hm
  have hidle := (poll_eq_some_iff.mp hm).1
  split at h
  · exact absurd h Bool.false_ne_true
  rename_i herr
  split at h
  · exact absurd h Bool.false_ne_true
  rename_i hdf
  split at h
  · exact absurd h Bool.false_ne_true
  rename_i hdrq
  exact ⟨m, hidle.le, by simpa using hidle.at_end, by simpa using hdrq, by simpa using herr,
    by simpa using hdf, h⟩

theorem mem_finishWrite {status : Nat → UInt8} {k : Nat} {e : Event}
    (he : e ∈ (finishWrite status k).2) : e = .flush := by
  unfold finishWrite at he
  split at he
  · exact absurd he List.not_mem_nil
  · exact List.mem_singleton.mp he

theorem finishWrite_true {d : Answers} {t : Nat} (ht : drq (d.status t) = true)
    (h : (finishWrite d.status (t + 1)).1 = true) : Acked d := by
  unfold finishWrite at h
  split at h
  · exact absurd h Bool.false_ne_true
  · rename_i k hk
    have hlt := ataWaitReady_some hk
    obtain ⟨m, hkm, hclean⟩ := flush_true h
    exact ⟨t, m, by omega, ht, hclean⟩

section Write

variable {master : Bool} {d : Answers} {mem : Nat → UInt8} {n data : Nat}

/-- `Write28` touches the sector it is given, if any. -/
theorem sector_of_mem_write28 {count : Nat} {e : Event} {l : Nat}
    (he : e ∈ (write28 master d mem n data count).2) (hl : e.sector = some l) :
    l = n ∧ n ≤ 0x0FFFFFFF ∧ data ≠ 0 := by
  unfold write28 at he
  split at he
  · exact absurd he List.not_mem_nil
  rename_i hlba
  split at he
  · exact absurd he List.not_mem_nil
  rename_i hdata
  have hn : n ≤ 0x0FFFFFFF := by omega
  have hsel : e.sector = some (select master n).lba → l = n := fun hs => by
    rw [hl, lba_select hn] at hs
    exact Option.some.inj hs
  have htail : ∀ k, e ∉ (finishWrite d.status k).2 := fun k hk => by
    rw [mem_finishWrite hk] at hl
    exact absurd hl (Option.some_ne_none l).symm
  refine ⟨hsel ?_, hn, fun h => hdata (.inl h)⟩
  generalize hr : select master n = r
  dsimp only at he
  rw [hr] at he
  generalize (if 512 < count then 512 else count) = count at he
  -- a full sector, then the read, the merge and the write of a part of one
  split at he
  · split at he
    · rw [List.mem_singleton.mp he]
      rfl
    · rename_i k _
      simp only [List.mem_cons, htail k, or_false] at he
      rcases he with rfl | rfl <;> rfl
  split at he
  · rw [List.mem_singleton.mp he]
    rfl
  split at he
  · rw [List.mem_singleton.mp he]
    rfl
  split at he
  · simp only [List.mem_cons, List.not_mem_nil, or_false] at he
    rcases he with rfl | rfl <;> rfl
  · rename_i k _
    simp only [List.mem_cons, htail k, or_false] at he
    rcases he with rfl | rfl | rfl <;> rfl

/-- `Write28` of a sector returns true only after the device has taken the bytes. -/
theorem write28_sector (h : (write28 master d mem n data 512).1 = true) :
    (n ≤ 0x0FFFFFFF ∧ data ≠ 0) ∧ Acked d ∧
      .dataOut (select master n) (bytesAt mem data 512) ∈ (write28 master d mem n data 512).2 := by
  unfold write28 at h ⊢
  by_cases hlba : 0x0FFFFFFF < n
  · rw [if_pos hlba] at h
    exact absurd h Bool.false_ne_true
  rw [if_neg hlba] at h ⊢
  by_cases hdata : data = 0 ∨ 512 = 0
  · rw [if_pos hdata] at h
    exact absurd h Bool.false_ne_true
  rw [if_neg hdata] at h ⊢
  refine ⟨⟨by omega, by omega⟩, ?_⟩
  dsimp only at h ⊢
  rw [if_pos (by decide)] at h ⊢
  cases hwait : ataWaitDrq d.status 0 with
  | none =>
    rw [hwait] at h
    exact absurd h Bool.false_ne_true
  | some k =>
    rw [hwait] at h
    obtain ⟨t, rfl, -, hdrq⟩ := ataWaitDrq_some hwait
    exact ⟨finishWrite_true hdrq h, List.mem_cons_of_mem _ List.mem_cons_self⟩

/-- A sector that `Write28` can address is touched. -/
theorem command_mem_write28 (master : Bool) (d : Answers) (mem : Nat → UInt8)
    (hn : n ≤ 0x0FFFFFFF) (hdata : data ≠ 0) :
    .command (select master n) 0x30 ∈ (write28 master d mem n data 512).2 := by
  unfold write28
  rw [if_neg (by omega), if_neg (by omega)]
  dsimp only
  rw [if_pos (by decide)]
  cases ataWaitDrq d.status 0 <;> exact List.mem_cons_self

/-- A sector that `Write28` cannot address is refused. -/
theorem write28_refused {count : Nat} (h : 0x0FFFFFFF < n ∨ data = 0) :
    write28 master d mem n data count = (false, []) := by
  unfold write28
  by_cases hlba : 0x0FFFFFFF < n
  · rw [if_pos hlba]
  · rw [if_neg hlba, if_pos (.inl (h.resolve_left hlba))]

end Write

end Ata
end Hashx86
