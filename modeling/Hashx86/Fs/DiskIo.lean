import Hashx86.Drivers.Ata
import Hashx86.Lib.Run

/-!
# Volumes on partitions (`core/filesystem/FatFs/diskio.cpp`)

`fatfs_init` binds a volume to a device and a partition; `disk_read` and `disk_write` transfer
sectors of the volume. `dev i` is how the device answers while sector `i` of a call is transferred.

`Right` says that a call touches only sectors of the partition, and reports `RES_OK` only after it
has transferred every sector. `disk_write` checks what `Write28` returns; `Read28` returns nothing,
so `disk_read` is right only where no `Read28` can give up (`right_read_iff`), and neither checks
that the sum of the partition's start and the sector stays below 2^32. `transfers_run` is the
condition for a run.
-/

namespace Hashx86
namespace DiskIo

open Lib Ata

/-! ## The code -/

inductive Res where
  | ok
  | error
  | parerr

/-- `FF_VOLUMES`. -/
def ffVolumes : Nat := 2

/-- `g_ata`, as the `master` flag of the device, `g_partLBA` and `g_partSize` of a volume. -/
structure Volume where
  ata : Option Bool
  partLBA : Nat
  partSize : Nat

abbrev Volumes := Nat → Volume

def start : Volumes := fun _ => { ata := none, partLBA := 0, partSize := 0 }

def fatfsInit (vols : Volumes) (pdrv : Nat) (ata : Option Bool)
    (partitionStartLBA partitionSizeSectors : Nat) : Volumes :=
  if ffVolumes ≤ pdrv then vols
  else fun p => if p = pdrv then
      { ata := ata, partLBA := partitionStartLBA, partSize := partitionSizeSectors }
    else vols p

/-- The loop of `disk_read`, from sector `i` on. -/
def readLoop (master : Bool) (dev : Nat → Answers) (start buff : Nat) : Nat → Nat → List Event
  | 0, _ => []
  | n + 1, i =>
    read28 master (dev i) ((start + i) % 2 ^ 32) ((buff + i * 512 % 2 ^ 32) % 2 ^ 32) 512 ++
      readLoop master dev start buff n (i + 1)

def diskRead (vols : Volumes) (pdrv buff sector count : Nat) (dev : Nat → Answers) :
    Res × List Event :=
  if ffVolumes ≤ pdrv then (.parerr, [])
  else match (vols pdrv).ata with
    | none => (.parerr, [])
    | some master =>
      if (vols pdrv).partSize ≤ sector ∨ (vols pdrv).partSize - sector < count then (.parerr, [])
      else
        let start := ((vols pdrv).partLBA + sector) % 2 ^ 32
        (.ok, readLoop master dev start buff count 0)

/-- The loop of `disk_write`, from sector `i` on. -/
def writeLoop (master : Bool) (dev : Nat → Answers) (mem : Nat → UInt8) (start buff : Nat) :
    Nat → Nat → Res × List Event
  | 0, _ => (.ok, [])
  | n + 1, i =>
    let (done, events) := write28 master (dev i) mem ((start + i) % 2 ^ 32)
      ((buff + i * 512 % 2 ^ 32) % 2 ^ 32) 512
    if !done then (.error, events)
    else
      let (res, rest) := writeLoop master dev mem start buff n (i + 1)
      (res, events ++ rest)

def diskWrite (vols : Volumes) (pdrv buff sector count : Nat) (mem : Nat → UInt8)
    (dev : Nat → Answers) : Res × List Event :=
  if ffVolumes ≤ pdrv then (.parerr, [])
  else match (vols pdrv).ata with
    | none => (.parerr, [])
    | some master =>
      if (vols pdrv).partSize ≤ sector ∨ (vols pdrv).partSize - sector < count then (.parerr, [])
      else
        let start := ((vols pdrv).partLBA + sector) % 2 ^ 32
        writeLoop master dev mem start buff count 0

/-! ## What the calls should do -/

inductive Op where
  | init (pdrv : UInt8) (ata : Option Bool) (partitionStartLBA partitionSizeSectors : UInt32)
  | read (pdrv : UInt8) (buff sector count : UInt32) (dev : Nat → Answers)
  | write (pdrv : UInt8) (buff sector count : UInt32) (mem : Nat → UInt8) (dev : Nat → Answers)

def dstep (vols : Volumes) : Op → Volumes
  | .init pdrv ata lba size => fatfsInit vols pdrv.toNat ata lba.toNat size.toNat
  | .read .. => vols
  | .write .. => vols

/-- The address of sector `i` of a buffer. -/
def sectorAddr (buff i : Nat) : Nat := (buff + 512 * i) % 2 ^ 32

/-- Every sector that is touched is one of the partition. -/
def Inside (v : Volume) (events : List Event) : Prop :=
  ∀ e ∈ events, ∀ l ∈ e.sector, v.partLBA ≤ l ∧ l < v.partLBA + v.partSize

/-- Every sector of the buffer has been filled with the bytes of its sector of the partition. -/
def Filled (v : Volume) (buff sector count : Nat) (dev : Nat → Answers) (events : List Event) :
    Prop :=
  ∀ i < count, ∃ r, r.lba = v.partLBA + sector + i ∧
    .dataIn r (sectorAddr buff i) (insw (dev i)) ∈ events

/-- Every sector of the buffer has been sent to its sector of the partition, and acknowledged. -/
def Sent (v : Volume) (buff sector count : Nat) (mem : Nat → UInt8) (dev : Nat → Answers)
    (events : List Event) : Prop :=
  ∀ i < count, ∃ r, r.lba = v.partLBA + sector + i ∧
    .dataOut r (bytesAt mem (sectorAddr buff i) 512) ∈ events ∧ Acked (dev i)

/-- A call does what it should. -/
def Right (vols : Volumes) : Op → Prop
  | .init .. => True
  | .read pdrv buff sector count dev =>
    let r := diskRead vols pdrv.toNat buff.toNat sector.toNat count.toNat dev
    Inside (vols pdrv.toNat) r.2 ∧
      (r.1 = .ok → Filled (vols pdrv.toNat) buff.toNat sector.toNat count.toNat dev r.2)
  | .write pdrv buff sector count mem dev =>
    let r := diskWrite vols pdrv.toNat buff.toNat sector.toNat count.toNat mem dev
    Inside (vols pdrv.toNat) r.2 ∧
      (r.1 = .ok → Sent (vols pdrv.toNat) buff.toNat sector.toNat count.toNat mem dev r.2)

/-- The call passes the checks of `disk_read` and `disk_write`. -/
def Accepted (vols : Volumes) (pdrv sector count : Nat) : Prop :=
  pdrv < ffVolumes ∧ (vols pdrv).ata.isSome ∧ sector < (vols pdrv).partSize ∧
    sector + count ≤ (vols pdrv).partSize

/-- The condition on a call. -/
def StepOk (vols : Volumes) : Op → Prop
  | .init .. => True
  | .read pdrv buff sector count dev => Accepted vols pdrv.toNat sector.toNat count.toNat →
    ∀ i < count.toNat, (vols pdrv.toNat).partLBA + sector.toNat + i ≤ 0x0FFFFFFF ∧
      sectorAddr buff.toNat i ≠ 0 ∧ Reads (dev i)
  | .write pdrv buff sector count _ _ => Accepted vols pdrv.toNat sector.toNat count.toNat →
    count.toNat = 0 ∨ buff.toNat = 0 ∨ (vols pdrv.toNat).partLBA + sector.toNat < 2 ^ 32 ∨
      2 ^ 32 + 0x0FFFFFFF < (vols pdrv.toNat).partLBA + sector.toNat

/-! ## The loops -/

theorem sectorAddr_eq (buff i : Nat) : (buff + i * 512 % 2 ^ 32) % 2 ^ 32 = sectorAddr buff i := by
  unfold sectorAddr
  rw [Nat.add_mod_mod, Nat.mul_comm]

section Loops

variable {master : Bool} {dev : Nat → Answers} {mem : Nat → UInt8} {start buff : Nat}

theorem mem_readLoop {e : Event} {n i : Nat} :
    e ∈ readLoop master dev start buff n i ↔ ∃ j, i ≤ j ∧ j < i + n ∧
      e ∈ read28 master (dev j) ((start + j) % 2 ^ 32) (sectorAddr buff j) 512 := by
  induction n generalizing i with
  | zero =>
    refine iff_of_false List.not_mem_nil ?_
    rintro ⟨j, h1, h2, -⟩
    omega
  | succ n ih =>
    unfold readLoop
    rw [List.mem_append, ih, sectorAddr_eq]
    constructor
    · rintro (h | ⟨j, h1, h2, h⟩)
      · exact ⟨i, Nat.le_refl i, by omega, h⟩
      · exact ⟨j, by omega, by omega, h⟩
    · rintro ⟨j, h1, h2, h⟩
      rcases Nat.eq_or_lt_of_le h1 with rfl | h1
      · exact .inl h
      · exact .inr ⟨j, h1, by omega, h⟩

/-- Where the first LBA does not wrap, neither does any that `Write28` accepts. -/
theorem sector_of_mem_writeLoop {e : Event} {l n i : Nat} (hstart : start + i < 2 ^ 32)
    (he : e ∈ (writeLoop master dev mem start buff n i).2) (hl : l ∈ e.sector) :
    start + i ≤ l ∧ l < start + i + n := by
  induction n generalizing i with
  | zero => exact absurd he List.not_mem_nil
  | succ n ih =>
    have hlba := Nat.mod_eq_of_lt hstart
    unfold writeLoop at he
    rw [sectorAddr_eq, hlba] at he
    dsimp only at he
    have hhead : e ∈ (write28 master (dev i) mem (start + i) (sectorAddr buff i) 512).2 →
        start + i ≤ l ∧ l < start + i + (n + 1) := fun hm => by
      obtain ⟨rfl, -⟩ := sector_of_mem_write28 hm hl
      exact ⟨Nat.le_refl _, by omega⟩
    cases hdone : (write28 master (dev i) mem (start + i) (sectorAddr buff i) 512).1 with
    | false =>
      rw [hdone] at he
      exact hhead he
    | true =>
      rw [hdone] at he
      have hn := (write28_sector hdone).1.1
      rcases List.mem_append.mp he with he | he
      · exact hhead he
      · have := ih (by omega) he
        omega

theorem sent_of_writeLoop {n i : Nat} (hstart : start + i < 2 ^ 32)
    (hok : (writeLoop master dev mem start buff n i).1 = .ok) {j : Nat} (hij : i ≤ j)
    (hj : j < i + n) :
    ∃ r, r.lba = start + j ∧ .dataOut r (bytesAt mem (sectorAddr buff j) 512) ∈
      (writeLoop master dev mem start buff n i).2 ∧ Acked (dev j) := by
  induction n generalizing i with
  | zero => omega
  | succ n ih =>
    have hlba := Nat.mod_eq_of_lt hstart
    unfold writeLoop at hok ⊢
    rw [sectorAddr_eq, hlba] at hok ⊢
    dsimp only at hok ⊢
    cases hdone : (write28 master (dev i) mem (start + i) (sectorAddr buff i) 512).1 with
    | false =>
      rw [hdone] at hok
      exact Res.noConfusion hok
    | true =>
      rw [hdone] at hok
      obtain ⟨⟨hn, -⟩, hack, hout⟩ := write28_sector hdone
      rcases Nat.eq_or_lt_of_le hij with rfl | hij
      · exact ⟨_, lba_select hn, List.mem_append_left _ hout, hack⟩
      · obtain ⟨r, hr, hmem, hack⟩ := ih (by omega) hok hij (by omega)
        exact ⟨r, hr, List.mem_append_right _ hmem, hack⟩

end Loops

/-! ## Each call -/

section Calls

variable {vols : Volumes} {pdrv buff sector count : Nat} {dev : Nat → Answers}
  {mem : Nat → UInt8}

/-- The partition table is made of 32-bit numbers. -/
def Inv (vols : Volumes) : Prop := ∀ p, (vols p).partLBA < 2 ^ 32 ∧ (vols p).partSize < 2 ^ 32

theorem inv_dstep (h : Inv vols) (op : Op) : Inv (dstep vols op) := by
  cases op with
  | init pdrv ata lba size =>
    intro p
    dsimp only [dstep]
    unfold fatfsInit
    split
    · exact h p
    · dsimp only
      by_cases hp : p = pdrv.toNat
      · rw [if_pos hp]
        exact ⟨lba.toNat_lt, size.toNat_lt⟩
      · rw [if_neg hp]
        exact h p
  | read => exact h
  | write => exact h

theorem diskRead_of_accepted (buff : Nat) (dev : Nat → Answers) (ha : Accepted vols pdrv sector count) :
    ∃ master, (vols pdrv).ata = some master ∧ diskRead vols pdrv buff sector count dev =
      (.ok, readLoop master dev (((vols pdrv).partLBA + sector) % 2 ^ 32) buff count 0) := by
  obtain ⟨hp, hata, hs, hc⟩ := ha
  obtain ⟨master, hm⟩ := Option.isSome_iff_exists.mp hata
  refine ⟨master, hm, ?_⟩
  unfold diskRead
  rw [if_neg (by omega), hm]
  dsimp only
  rw [if_neg (by omega)]

theorem diskWrite_of_accepted (buff : Nat) (mem : Nat → UInt8) (dev : Nat → Answers)
    (ha : Accepted vols pdrv sector count) :
    ∃ master, (vols pdrv).ata = some master ∧ diskWrite vols pdrv buff sector count mem dev =
      writeLoop master dev mem (((vols pdrv).partLBA + sector) % 2 ^ 32) buff count 0 := by
  obtain ⟨hp, hata, hs, hc⟩ := ha
  obtain ⟨master, hm⟩ := Option.isSome_iff_exists.mp hata
  refine ⟨master, hm, ?_⟩
  unfold diskWrite
  rw [if_neg (by omega), hm]
  dsimp only
  rw [if_neg (by omega)]

theorem diskRead_refused (ha : ¬ Accepted vols pdrv sector count) :
    diskRead vols pdrv buff sector count dev = (.parerr, []) := by
  unfold diskRead
  split
  · rfl
  split
  · rfl
  rename_i hata
  split
  · rfl
  · exact absurd ⟨by omega, by rw [hata]; rfl, by omega, by omega⟩ ha

theorem diskWrite_refused (ha : ¬ Accepted vols pdrv sector count) :
    diskWrite vols pdrv buff sector count mem dev = (.parerr, []) := by
  unfold diskWrite
  split
  · rfl
  split
  · rfl
  rename_i hata
  split
  · rfl
  · exact absurd ⟨by omega, by rw [hata]; rfl, by omega, by omega⟩ ha

end Calls

/-- The accepted sectors of `disk_read`: all are filled exactly when every one can be addressed and
is read by the device. -/
theorem filled_readLoop_iff {v : Volume} (master : Bool) (dev : Nat → Answers) (buff : Nat)
    {sector count : Nat} (hlba : v.partLBA < 2 ^ 32) (hsector : sector < 2 ^ 32)
    (hcount : count < 2 ^ 32) :
    Filled v buff sector count dev
        (readLoop master dev ((v.partLBA + sector) % 2 ^ 32) buff count 0) ↔
      ∀ i < count, v.partLBA + sector + i ≤ 0x0FFFFFFF ∧ sectorAddr buff i ≠ 0 ∧ Reads (dev i) := by
  constructor
  · intro hfill i hi
    obtain ⟨r, hr, hmem⟩ := hfill i hi
    obtain ⟨j, -, hj, hmem⟩ := mem_readLoop.mp hmem
    obtain ⟨⟨hn, hdata, hreads⟩, hsel, haddr, -⟩ := read28_sector.mp hmem
    rw [hsel, lba_select hn, Nat.mod_add_mod] at hr
    rw [Nat.mod_add_mod] at hn
    have hji : j = i := by omega
    subst hji
    exact ⟨by omega, hdata, hreads⟩
  · intro hok i hi
    obtain ⟨hn, hdata, hreads⟩ := hok i hi
    have hmod : ((v.partLBA + sector) % 2 ^ 32 + i) % 2 ^ 32 = v.partLBA + sector + i := by
      rw [Nat.mod_add_mod, Nat.mod_eq_of_lt (by omega)]
    refine ⟨select master (v.partLBA + sector + i), lba_select hn, ?_⟩
    refine mem_readLoop.mpr ⟨i, Nat.zero_le i, by omega, ?_⟩
    rw [hmod]
    exact read28_sector.mpr ⟨⟨hn, hdata, hreads⟩, rfl, rfl, rfl⟩

theorem inside_readLoop {v : Volume} {master : Bool} {dev : Nat → Answers}
    {buff sector count : Nat} (hfit : sector + count ≤ v.partSize)
    (hok : ∀ i < count, v.partLBA + sector + i ≤ 0x0FFFFFFF) :
    Inside v (readLoop master dev ((v.partLBA + sector) % 2 ^ 32) buff count 0) := by
  intro e he l hl
  obtain ⟨j, -, hj, hmem⟩ := mem_readLoop.mp he
  have hn := hok j (by omega)
  obtain ⟨rfl, -⟩ := sector_of_mem_read28 hmem hl
  rw [Nat.mod_add_mod, Nat.mod_eq_of_lt (by omega)]
  omega

theorem right_read_iff {vols : Volumes} (h : Inv vols) (pdrv : UInt8) (buff sector count : UInt32)
    (dev : Nat → Answers) :
    Right vols (.read pdrv buff sector count dev) ↔
      StepOk vols (.read pdrv buff sector count dev) := by
  dsimp only [Right, StepOk]
  by_cases ha : Accepted vols pdrv.toNat sector.toNat count.toNat
  · obtain ⟨master, -, hread⟩ := diskRead_of_accepted buff.toNat dev ha
    have hfilled := filled_readLoop_iff master dev buff.toNat
      (h pdrv.toNat).1 sector.toNat_lt count.toNat_lt
    rw [hread]
    constructor
    · rintro ⟨-, hfill⟩ -
      exact hfilled.mp (hfill rfl)
    · intro hok
      exact ⟨inside_readLoop ha.2.2.2 fun i hi => (hok ha i hi).1, fun _ => hfilled.mpr (hok ha)⟩
  · rw [diskRead_refused ha]
    exact iff_of_true ⟨fun e he => absurd he List.not_mem_nil, fun hr => Res.noConfusion hr⟩
      fun hc => absurd hc ha

/-- `disk_write` starts at an LBA that `Write28` refuses. -/
theorem writeLoop_refused {master : Bool} {dev : Nat → Answers} {mem : Nat → UInt8}
    {start buff n : Nat} (hn : n ≠ 0) (h : 0x0FFFFFFF < start % 2 ^ 32 ∨ sectorAddr buff 0 = 0) :
    writeLoop master dev mem start buff n 0 = (.error, []) := by
  obtain ⟨n, rfl⟩ := Nat.exists_eq_succ_of_ne_zero hn
  unfold writeLoop
  rw [sectorAddr_eq, Nat.add_zero, write28_refused h]
  rfl

theorem command_mem_writeLoop (master : Bool) (dev : Nat → Answers) (mem : Nat → UInt8)
    {start buff n : Nat} (hn : n ≠ 0) (hstart : start ≤ 0x0FFFFFFF) (hb : sectorAddr buff 0 ≠ 0) :
    .command (select master start) 0x30 ∈ (writeLoop master dev mem start buff n 0).2 := by
  obtain ⟨n, rfl⟩ := Nat.exists_eq_succ_of_ne_zero hn
  have hmem := command_mem_write28 master (dev 0) mem hstart hb
  unfold writeLoop
  rw [sectorAddr_eq, Nat.add_zero, Nat.mod_eq_of_lt (by omega)]
  dsimp only
  split
  · exact hmem
  · exact List.mem_append_left _ hmem

/-- `disk_write` is right exactly when the first LBA does not wrap around to a sector that the
device has. -/
theorem right_write_iff {vols : Volumes} (h : Inv vols) (pdrv : UInt8)
    (buff sector count : UInt32) (mem : Nat → UInt8) (dev : Nat → Answers) :
    Right vols (.write pdrv buff sector count mem dev) ↔
      StepOk vols (.write pdrv buff sector count mem dev) := by
  dsimp only [Right, StepOk]
  by_cases ha : Accepted vols pdrv.toNat sector.toNat count.toNat
  · obtain ⟨master, -, hwrite⟩ :=
      diskWrite_of_accepted buff.toNat mem dev ha
    have hlba := (h pdrv.toNat).1
    have hs := sector.toNat_lt
    have hfit := ha.2.2.2
    have haddr : sectorAddr buff.toNat 0 = buff.toNat := Nat.mod_eq_of_lt buff.toNat_lt
    rw [hwrite]
    generalize vols pdrv.toNat = v at *
    by_cases hwrap : v.partLBA + sector.toNat < 2 ^ 32
    · rw [Nat.mod_eq_of_lt hwrap]
      refine iff_of_true ⟨fun e he l hl => ?_, fun hres i hi => ?_⟩ fun _ => .inr (.inr (.inl hwrap))
      · have hin : v.partLBA + sector.toNat ≤ l ∧ l < v.partLBA + sector.toNat + count.toNat :=
          sector_of_mem_writeLoop (i := 0) hwrap he hl
        omega
      · obtain ⟨r, hr, hmem⟩ := sent_of_writeLoop (i := 0) hwrap hres (Nat.zero_le i) (by omega)
        exact ⟨r, hr, hmem⟩
    have hmod : (v.partLBA + sector.toNat) % 2 ^ 32 = v.partLBA + sector.toNat - 2 ^ 32 := by omega
    rw [hmod]
    by_cases hcount : count.toNat = 0
    · rw [hcount]
      refine iff_of_true ⟨fun e he => absurd he List.not_mem_nil, fun _ i hi => ?_⟩
        fun _ => .inl rfl
      exact absurd hi (Nat.not_lt_zero i)
    by_cases hstop : buff.toNat = 0 ∨ 2 ^ 32 + 0x0FFFFFFF < v.partLBA + sector.toNat
    · rw [writeLoop_refused hcount (by rw [haddr]; omega)]
      exact iff_of_true ⟨fun e he => absurd he List.not_mem_nil, fun hr => Res.noConfusion hr⟩
        fun _ => .inr (hstop.imp_right .inr)
    · obtain ⟨hbuff, hlow⟩ := not_or.mp hstop
      refine iff_of_false (fun hr => ?_) fun hok => by have := hok ha; omega
      -- the first sector that is touched is below the partition
      have hmem := command_mem_writeLoop master dev mem hcount
        (show v.partLBA + sector.toNat - 2 ^ 32 ≤ 0x0FFFFFFF by omega) (haddr.symm ▸ hbuff)
      have hin := hr.1 _ hmem _ rfl
      rw [lba_select (by omega)] at hin
      omega
  · rw [diskWrite_refused ha]
    exact iff_of_true ⟨fun e he => absurd he List.not_mem_nil, fun hr => Res.noConfusion hr⟩
      fun hc => absurd hc ha

theorem right_iff {vols : Volumes} (h : Inv vols) (op : Op) : Right vols op ↔ StepOk vols op := by
  cases op with
  | init => exact Iff.rfl
  | read pdrv buff sector count dev => exact right_read_iff h pdrv buff sector count dev
  | write pdrv buff sector count mem dev => exact right_write_iff h pdrv buff sector count mem dev

/-! ## Runs -/

theorem inv_start : Inv start := fun _ => ⟨Nat.two_pow_pos 32, Nat.two_pow_pos 32⟩

/-- The calls of a run do what they should exactly when every one of them meets the condition. -/
theorem transfers_run (ops : List Op) : Along dstep Right start ops ↔ Along dstep StepOk start ops :=
  Along.iff_of_inv (fun _ op h _ => inv_dstep h op) (fun _ op h => right_iff h op)
    inv_start

/-- A device that answers with DRDY, DSC and ERR. -/
def failing : Answers where
  status _ := 0x51
  word _ := 0

/-- A device that answers with DRDY, DSC and DRQ. -/
def willing : Answers where
  status _ := 0x58
  word _ := 0

theorem not_reads_failing : ¬ Reads failing := by
  rintro ⟨b, -, herr, -⟩
  have hst : afterDelay failing.status b = 0x51 := by
    unfold afterDelay
    split <;> rfl
  rw [hst] at herr
  exact absurd herr (by decide)

/-- A read of a failing device reports `RES_OK`, and a write to a partition that ends past 2^32
touches sector 0. -/
theorem silent_read_and_wrapped_write :
    (¬ Along dstep Right start [.init 0 (some true) 63 1000,
      .read 0 0x100000 0 1 fun _ => failing]) ∧
      ¬ Along dstep Right start [.init 0 (some true) 0xFFFFFFFF 2,
        .write 0 0x100000 1 1 (fun _ => 0) fun _ => willing] := by
  constructor
  · rintro ⟨-, h, -⟩
    have h := (right_iff (inv_dstep inv_start _) _).mp h
    exact not_reads_failing (h ⟨by decide, rfl, by decide, by decide⟩ 0 (by decide)).2.2
  · rintro ⟨-, h, -⟩
    have h := (right_iff (inv_dstep inv_start _) _).mp h
    have hc := h ⟨by decide, rfl, by decide, by decide⟩
    revert hc
    decide

end DiskIo
end Hashx86
