import Hashx86.Fs.DiskIo
import Hashx86.Lib.Endian
import Mathlib.Data.Set.Lattice
import Mathlib.Order.CompletePartialOrder
import Mathlib.Order.Interval.Set.Basic

/-!
# The partition table of a disk (`core/filesystem/msdospart.cpp`)

`Initialize` writes a boot record with two partitions and formats both; `ReadPartitions` mounts the
partitions of the record in sector 0. FatFs is an input: the calls of `disk_write` that `f_mkfs`
makes for its volume. `f_mount` reports to the log only, so a volume is in the table whatever it
finds.

* `MasterBootRecord.ofBytes_bytes`: the packed record is read back.
* `mountEntries_two`: two entries whose extents fit are two volumes.
* `Request.inside`: `disk_write` stays in the partition of its volume.
* `Consecutive.laid`: partitions that follow each other up to the end of the disk are disjoint parts
  of it.
* `initializeDisk_eq_ok_iff`: the disks that `Initialize` accepts.
* `initializeDisk_reads`: what it leaves is read as the two volumes that it has formatted.
-/

namespace Hashx86
namespace Msdospart

open Lib Ata DiskIo

/-! ## The record -/

/-- `struct PartitionTableEntry`. -/
structure PartitionTableEntry where
  bootable : UInt8
  startHead : UInt8
  startSector : Fin 64
  startCylinder : Fin 1024
  partitionId : UInt8
  endHead : UInt8
  endSector : Fin 64
  endCylinder : Fin 1024
  startLba : UInt32
  length : UInt32
  deriving DecidableEq

/-- An entry that `memset` has cleared. -/
def PartitionTableEntry.zero : PartitionTableEntry := ⟨0, 0, 0, 0, 0, 0, 0, 0, 0, 0⟩

/-- The 16 bytes of an entry; the bit fields of a sector and a cylinder share two bytes. -/
def PartitionTableEntry.bytes (e : PartitionTableEntry) : List UInt8 :=
  toBytes 1 e.bootable.toNat ++ (toBytes 1 e.startHead.toNat ++
    (toBytes 2 (e.startSector + 64 * e.startCylinder) ++ (toBytes 1 e.partitionId.toNat ++
      (toBytes 1 e.endHead.toNat ++ (toBytes 2 (e.endSector + 64 * e.endCylinder) ++
        (toBytes 4 e.startLba.toNat ++ toBytes 4 e.length.toNat))))))

/-- The entry at an offset. -/
def PartitionTableEntry.ofBytes (bs : List UInt8) (off : Nat) : PartitionTableEntry where
  bootable := UInt8.ofNat (field bs off 1)
  startHead := UInt8.ofNat (field bs (off + 1) 1)
  startSector := Fin.ofNat 64 (field bs (off + 2) 2)
  startCylinder := Fin.ofNat 1024 (field bs (off + 2) 2 / 64)
  partitionId := UInt8.ofNat (field bs (off + 4) 1)
  endHead := UInt8.ofNat (field bs (off + 5) 1)
  endSector := Fin.ofNat 64 (field bs (off + 6) 2)
  endCylinder := Fin.ofNat 1024 (field bs (off + 6) 2 / 64)
  startLba := UInt32.ofNat (field bs (off + 8) 4)
  length := UInt32.ofNat (field bs (off + 12) 4)

/-- `struct MasterBootRecord`. -/
structure MasterBootRecord where
  bootloader : Vector UInt8 440
  signature : UInt32
  unused : UInt16
  primaryPartition : Vector PartitionTableEntry 4
  magicnumber : UInt16
  deriving DecidableEq

def MasterBootRecord.zero : MasterBootRecord where
  bootloader := Vector.replicate 440 0
  signature := 0
  unused := 0
  primaryPartition := Vector.replicate 4 .zero
  magicnumber := 0

def MasterBootRecord.bytes (m : MasterBootRecord) : List UInt8 :=
  m.bootloader.toList ++ (toBytes 4 m.signature.toNat ++ (toBytes 2 m.unused.toNat ++
    (m.primaryPartition.toList.flatMap (·.bytes) ++ toBytes 2 m.magicnumber.toNat)))

def MasterBootRecord.ofBytes (bs : List UInt8) : MasterBootRecord where
  bootloader := Vector.ofFn fun i => bs.getD i 0
  signature := UInt32.ofNat (field bs 440 4)
  unused := UInt16.ofNat (field bs 444 2)
  primaryPartition := Vector.ofFn fun i => .ofBytes bs (446 + 16 * i)
  magicnumber := UInt16.ofNat (field bs 510 2)

/-! ## The disk -/

/-- The sectors of a partition. -/
structure Extent where
  start : UInt32
  length : UInt32
  deriving DecidableEq

def Extent.sectors (e : Extent) : Set Nat :=
  Set.Ico e.start.toNat (e.start.toNat + e.length.toNat)

abbrev Sectors := Nat → List UInt8

/-- A sector with the bytes that are written to it. -/
abbrev SectorWrite := Nat × List UInt8

/-- The disk after some writes. -/
def written (disk : Sectors) (ws : List SectorWrite) : Sectors :=
  ws.foldl (fun d w => Function.update d w.1 w.2) disk

/-- The write of a sector by `outsw`. -/
def sectorWrite : Event → Option SectorWrite
  | .dataOut r bytes => some (r.lba, bytes)
  | _ => none

/-- A call of `disk_write` for some volume. -/
structure Request where
  buff : UInt32
  sector : UInt32
  count : UInt32
  mem : Nat → UInt8
  dev : Nat → Answers

def Request.writes (vols : Volumes) (pdrv : UInt8) (q : Request) : List SectorWrite :=
  (diskWrite vols pdrv.toNat q.buff.toNat q.sector.toNat q.count.toNat q.mem q.dev).2.filterMap
    sectorWrite

/-! ## The code -/

/-- Why `Initialize` or `ReadPartitions` returns early, with the numbers that its message prints. -/
inductive Refusal where
  /-- "Skipping ATAPI device (CD-ROM), no partition table present." -/
  | atapi
  /-- "Error: Could not identify drive size." -/
  | unidentified
  /-- "Error: Disk too small (totalSectors=%u). …" -/
  | diskTooSmall (totalSectors : UInt32)
  /-- "Error: Disk too small (available=%u). Need >= 2 for two non-empty partitions." -/
  | tooFewAvailable (available : UInt32)
  /-- "Error: Partition too small (need >=128 sectors, got %u and %u)." -/
  | partitionTooSmall (p1Size p2Size : UInt32)
  /-- "Error: MBR write failed." -/
  | mbrWrite
  /-- "Error: Invalid MBR signature (got 0x%x, expected 0xAA55)." -/
  | signature (got : UInt16)
  deriving DecidableEq

/-- What `Initialize` meets. -/
structure Device where
  isAtapi : Bool
  master : Bool
  sizeInSectors : UInt32
  /-- Whether the write of the boot record succeeds. -/
  write28 : Bool
  /-- What `f_mkfs` writes to a volume, and whether it returns `FR_OK`. -/
  mkfs : UInt8 → List Request × Bool

/-- What `Initialize` leaves. -/
structure Initialized where
  p1 : Extent
  p2 : Extent
  writes : List SectorWrite
  /-- The volume whose `f_mkfs` fails, if any. -/
  failed : Option UInt8

/-- `fatfs_init` for a partition. -/
def bindVolume (hd : Bool) (vols : Volumes) (pdrv : UInt8) (p : Extent) : Volumes :=
  fatfsInit vols pdrv.toNat (some hd) p.start.toNat p.length.toNat

/-- `fatfs_init` and `f_mkfs`. -/
def formatPartition (ata : Device) (vols : Volumes) (pdrv : UInt8) (p : Extent) :
    Volumes × List SectorWrite × Bool :=
  let vols := bindVolume ata.master vols pdrv p
  (vols, (ata.mkfs pdrv).1.flatMap (·.writes vols pdrv), (ata.mkfs pdrv).2)

/-- The record of `Initialize`. -/
def newRecord (p1 p2 : Extent) : MasterBootRecord :=
  { MasterBootRecord.zero with
    magicnumber := 0xAA55
    primaryPartition :=
      #v[{ PartitionTableEntry.zero with
            bootable := 0x80, partitionId := 0x0C, startLba := p1.start, length := p1.length },
        { PartitionTableEntry.zero with
            bootable := 0x00, partitionId := 0x0C, startLba := p2.start, length := p2.length },
        .zero, .zero] }

/-- The end of `Initialize`, once the record is written. -/
def formatBoth (ata : Device) (vols : Volumes) (p1 p2 : Extent) : Initialized :=
  let mbr : SectorWrite := (0, (newRecord p1 p2).bytes)
  let (vols, w0, ok) := formatPartition ata vols 0 p1
  if ok = false then ⟨p1, p2, mbr :: w0, some 0⟩
  else
    let (_, w1, ok) := formatPartition ata vols 1 p2
    ⟨p1, p2, mbr :: (w0 ++ w1), if ok = false then some 1 else none⟩

/-- `MSDOSPartitionTable::Initialize`. -/
def initializeDisk (ata : Device) (vols : Volumes) : Except Refusal Initialized :=
  if ata.isAtapi then .error .atapi
  else if ata.sizeInSectors = 0 then .error .unidentified
  else if ata.sizeInSectors ≤ 63 then .error (.diskTooSmall ata.sizeInSectors)
  else
    let available := ata.sizeInSectors - 63
    if available < 2 then .error (.tooFewAvailable available)
    else
      let p1Size := available / 2
      let p2Size := available - p1Size
      let p1 : Extent := ⟨63, p1Size⟩
      let p2 : Extent := ⟨63 + p1Size, p2Size⟩
      if p1Size < 128 ∨ p2Size < 128 then .error (.partitionTooSmall p1Size p2Size)
      else if ata.write28 = false then .error .mbrWrite
      else .ok (formatBoth ata vols p1 p2)

/-- A mounted volume. -/
structure FatFsWrapper where
  hd : Bool
  partitionOffset : UInt32
  pdrv : UInt8
  partitionSizeSectors : UInt32
  deriving DecidableEq

/-- The table of partitions, of which `partitionsCounter` is the length, and the volumes of FatFs. -/
structure Mounts where
  partitions : List FatFsWrapper
  vols : Volumes

/-- The constructor of `FatFsWrapper`, and its place in the table. -/
def Mounts.mount (t : Mounts) (hd : Bool) (e : PartitionTableEntry) : Mounts where
  partitions := t.partitions ++ [⟨hd, e.startLba, UInt8.ofNat t.partitions.length, e.length⟩]
  vols := fatfsInit t.vols (t.partitions.length % 256) (some hd) e.startLba.toNat e.length.toNat

/-- The loop of `ReadPartitions`. -/
def mountEntries (hd : Bool) (totalSectors : UInt32) : List PartitionTableEntry → Mounts → Mounts
  | [], t => t
  | e :: es, t =>
    if e.partitionId = 0 then mountEntries hd totalSectors es t
    else if 4 ≤ t.partitions.length then t
    else if e.length = 0 ∨ totalSectors ≤ e.startLba ∨ totalSectors - e.startLba < e.length then
      mountEntries hd totalSectors es t
    else if e.partitionId = 0x0C ∨ e.partitionId = 0x0B then
      if ffVolumes ≤ t.partitions.length then t
      else mountEntries hd totalSectors es (t.mount hd e)
    else mountEntries hd totalSectors es t

/-- `MSDOSPartitionTable::ReadPartitions`, which clears the table first; `read` is what `Read28` puts
in the cleared record, if it does not give up. -/
def readPartitions (hd : Bool) (totalSectors : UInt32) (read : Option (List UInt8))
    (vols : Volumes) : Except Refusal Mounts :=
  if totalSectors = 0 then .error .unidentified
  else if totalSectors ≤ 63 then .error (.diskTooSmall totalSectors)
  else
    let mbr := MasterBootRecord.ofBytes (read.getD (List.replicate 512 0))
    if mbr.magicnumber ≠ 0xAA55 then .error (.signature mbr.magicnumber)
    else .ok (mountEntries hd totalSectors mbr.primaryPartition.toList ⟨[], vols⟩)

/-! ## The record is read back -/

section Bytes

variable {pre : List UInt8} {off : Nat}

@[simp] theorem PartitionTableEntry.length_bytes (e : PartitionTableEntry) :
    e.bytes.length = 16 := by
  simp [bytes]

@[simp] theorem length_entries (v : Vector PartitionTableEntry 4) :
    (v.toList.flatMap (·.bytes)).length = 64 := by
  simp

theorem ofNat_sector (s : Fin 64) (c : Fin 1024) : Fin.ofNat 64 (s + 64 * c) = s := by
  apply Fin.ext
  rw [Fin.val_ofNat]
  omega

theorem ofNat_cylinder (s : Fin 64) (c : Fin 1024) : Fin.ofNat 1024 ((s + 64 * c) / 64) = c := by
  apply Fin.ext
  rw [Fin.val_ofNat]
  omega

/-- An entry is read back, wherever it is stored. -/
theorem PartitionTableEntry.ofBytes_append (e : PartitionTableEntry) (post : List UInt8)
    (h : pre.length = off) : ofBytes (pre ++ (e.bytes ++ post)) off = e := by
  have hf : ∀ k n, field (pre ++ (e.bytes ++ post)) (off + k) n = field (e.bytes ++ post) k n :=
    fun k n => field_add h k n
  have hf0 : field (pre ++ (e.bytes ++ post)) off 1 = field (e.bytes ++ post) 0 1 := hf 0 1
  have hbits : ∀ (s : Fin 64) (c : Fin 1024), ((s : Nat) + 64 * c) % 256 ^ 2 = s + 64 * c :=
    fun s c => Nat.mod_eq_of_lt (by omega)
  unfold ofBytes
  simp only [hf0, hf]
  simp only [bytes, List.append_assoc]
  simp (disch := decide) only [field_skip, field_head, Nat.reduceSub, hbits, ofNat_sector,
    ofNat_cylinder, ofNat_mod_uint8, ofNat_mod_uint32]

/-- Entry `i` of a table that starts at `off`. -/
theorem PartitionTableEntry.ofBytes_table {es : List PartitionTableEntry} (post : List UInt8)
    (h : pre.length = off) {i : Nat} (hi : i < es.length) :
    ofBytes (pre ++ (es.flatMap (·.bytes) ++ post)) (off + 16 * i) = es[i] := by
  induction es generalizing pre off i with
  | nil => exact absurd hi (Nat.not_lt_zero i)
  | cons e es ih =>
    rw [List.flatMap_cons, List.append_assoc]
    cases i with
    | zero => exact ofBytes_append e _ h
    | succ i =>
      have hlen : (pre ++ e.bytes).length = off + 16 := by rw [List.length_append, length_bytes, h]
      have hnext := ih hlen (Nat.lt_of_succ_lt_succ hi)
      rw [List.append_assoc] at hnext
      rw [List.getElem_cons_succ, ← hnext]
      congr 1
      omega

theorem MasterBootRecord.primaryPartition_ofBytes (v : Vector PartitionTableEntry 4)
    (post : List UInt8) (h : pre.length = 446) :
    (ofBytes (pre ++ (v.toList.flatMap (·.bytes) ++ post))).primaryPartition = v := by
  ext i hi
  unfold ofBytes
  rw [Vector.getElem_ofFn, PartitionTableEntry.ofBytes_table post h (by simpa using hi)]
  exact Vector.getElem_toList _

theorem MasterBootRecord.magicnumber_ofBytes (v : Vector PartitionTableEntry 4)
    (post : List UInt8) (h : pre.length = 446) :
    (ofBytes (pre ++ (v.toList.flatMap (·.bytes) ++ post))).magicnumber =
      UInt16.ofNat (field post 0 2) := by
  exact congrArg UInt16.ofNat ((field_add h 64 2).trans (field_add (length_entries v) 0 2))

/-- The packed record is read back. -/
theorem MasterBootRecord.ofBytes_bytes (m : MasterBootRecord) : ofBytes m.bytes = m := by
  have hboot : m.bootloader.toList.length = 440 := m.bootloader.length_toList
  have hpre : (m.bootloader.toList ++ (toBytes 4 m.signature.toNat ++
      toBytes 2 m.unused.toNat)).length = 446 := by simp
  have heq : m.bytes = (m.bootloader.toList ++ (toBytes 4 m.signature.toNat ++
      toBytes 2 m.unused.toNat)) ++ (m.primaryPartition.toList.flatMap (·.bytes) ++
        (toBytes 2 m.magicnumber.toNat ++ [])) := by
    simp only [bytes, List.append_assoc, List.append_nil]
  have hparts : (ofBytes m.bytes).primaryPartition = m.primaryPartition := by
    rw [heq, primaryPartition_ofBytes _ _ hpre]
  have hmagic : (ofBytes m.bytes).magicnumber = m.magicnumber := by
    rw [heq, magicnumber_ofBytes _ _ hpre, field_head, ofNat_mod_uint16]
  have hsignature : (ofBytes m.bytes).signature = m.signature := by
    unfold ofBytes bytes
    rw [field_add hboot 0, field_head, ofNat_mod_uint32]
  have hunused : (ofBytes m.bytes).unused = m.unused := by
    unfold ofBytes bytes
    rw [field_add hboot 4, field_skip (Nat.le_refl 4), field_head, ofNat_mod_uint16]
  have hloader : (ofBytes m.bytes).bootloader = m.bootloader := by
    ext i hi
    unfold ofBytes bytes
    rw [Vector.getElem_ofFn, List.getD_eq_getElem?_getD,
      List.getElem?_append_left (by rw [hboot]; exact hi),
      List.getElem?_eq_getElem (by rw [hboot]; exact hi)]
    exact congrArg UInt8.toNat (Vector.getElem_toList _)
  cases m
  rw [MasterBootRecord.mk.injEq]
  exact ⟨hloader, hsignature, hunused, hparts, hmagic⟩

end Bytes

/-! ## Volumes -/

/-- The extent passes the check of `ReadPartitions`. -/
def Extent.Fits (p : Extent) (totalSectors : UInt32) : Prop :=
  p.length ≠ 0 ∧ p.start < totalSectors ∧ p.length ≤ totalSectors - p.start

/-- An entry for a FAT32 partition. -/
def PartitionTableEntry.Describes (e : PartitionTableEntry) (p : Extent) : Prop :=
  e.partitionId = 0x0C ∧ e.startLba = p.start ∧ e.length = p.length

theorem mountEntries_fits {hd : Bool} {totalSectors : UInt32} {e : PartitionTableEntry}
    {p : Extent} {es : List PartitionTableEntry} {t : Mounts} (he : e.Describes p)
    (hp : p.Fits totalSectors) (ht : t.partitions.length < ffVolumes) :
    mountEntries hd totalSectors (e :: es) t = mountEntries hd totalSectors es (t.mount hd e) := by
  obtain ⟨hid, hstart, hlength⟩ := he
  obtain ⟨hne, hlt, hle⟩ := hp
  have hvol : t.partitions.length < 2 := ht
  have hout : ¬ (e.length = 0 ∨ totalSectors ≤ e.startLba ∨
      totalSectors - e.startLba < e.length) := by
    rw [hstart, hlength]
    rintro (h | h | h)
    · exact hne h
    · exact absurd hlt (UInt32.not_lt.mpr h)
    · exact absurd hle (UInt32.not_le.mpr h)
  rw [mountEntries, if_neg (by rw [hid]; decide), if_neg (by omega), if_neg hout, if_pos (.inl hid),
    if_neg (by unfold ffVolumes; omega)]

theorem mountEntries_zero (hd : Bool) (totalSectors : UInt32) (es : List PartitionTableEntry)
    (t : Mounts) :
    mountEntries hd totalSectors (.zero :: es) t = mountEntries hd totalSectors es t := by
  rw [mountEntries]
  exact if_pos rfl

/-- The volume of a partition. -/
def volume (hd : Bool) (p : Extent) : Volume :=
  { ata := some hd, partLBA := p.start.toNat, partSize := p.length.toNat }

/-- The two partitions are mounted as the volumes 0 and 1, and nothing else is. -/
structure Mounts.Two (t : Mounts) (hd : Bool) (p1 p2 : Extent) : Prop where
  partitions : t.partitions = [⟨hd, p1.start, 0, p1.length⟩, ⟨hd, p2.start, 1, p2.length⟩]
  first : t.vols 0 = volume hd p1
  second : t.vols 1 = volume hd p2

/-- A record with two partitions that fit is read as two volumes. -/
theorem mountEntries_two {hd : Bool} {totalSectors : UInt32} {e1 e2 : PartitionTableEntry}
    {p1 p2 : Extent} (h1 : e1.Describes p1) (h2 : e2.Describes p2) (hp1 : p1.Fits totalSectors)
    (hp2 : p2.Fits totalSectors) (vols : Volumes) :
    (mountEntries hd totalSectors [e1, e2, .zero, .zero] ⟨[], vols⟩).Two hd p1 p2 := by
  rw [mountEntries_fits (t := ⟨[], vols⟩) h1 hp1 Nat.two_pos,
    mountEntries_fits (t := Mounts.mount ⟨[], vols⟩ hd e1) h2 hp2 Nat.one_lt_two,
    mountEntries_zero, mountEntries_zero, mountEntries]
  obtain ⟨-, hs1, hl1⟩ := h1
  obtain ⟨-, hs2, hl2⟩ := h2
  constructor
  · simp only [Mounts.mount, hs1, hl1, hs2, hl2]
    rfl
  · simp only [Mounts.mount, hs1, hl1]
    rfl
  · simp only [Mounts.mount, hs2, hl2]
    rfl

/-- A record that `ReadPartitions` reads as two volumes. -/
theorem readPartitions_two {hd : Bool} {totalSectors : UInt32} {sector : List UInt8}
    {e1 e2 : PartitionTableEntry} {p1 p2 : Extent} (hsize : 63 < totalSectors)
    (hmagic : (MasterBootRecord.ofBytes sector).magicnumber = 0xAA55)
    (hparts : (MasterBootRecord.ofBytes sector).primaryPartition = #v[e1, e2, .zero, .zero])
    (h1 : e1.Describes p1) (h2 : e2.Describes p2) (hp1 : p1.Fits totalSectors)
    (hp2 : p2.Fits totalSectors) (vols : Volumes) :
    ∃ t, readPartitions hd totalSectors (some sector) vols = .ok t ∧ t.Two hd p1 p2 := by
  refine ⟨_, ?_, mountEntries_two h1 h2 hp1 hp2 vols⟩
  have hne : totalSectors ≠ 0 := fun h => absurd hsize (by rw [h]; decide)
  unfold readPartitions
  rw [if_neg hne, if_neg (UInt32.not_le.mpr hsize), Option.getD_some]
  dsimp only
  rw [if_neg (by rw [hmagic, not_not]), hparts]
  rfl

/-! ## The disk -/

/-- A sector that no write is about keeps its bytes. -/
theorem written_of_forall_ne {disk : Sectors} {ws : List SectorWrite} {l : Nat}
    (h : ∀ w ∈ ws, w.1 ≠ l) : written disk ws l = disk l := by
  induction ws generalizing disk with
  | nil => rfl
  | cons w ws ih =>
    obtain ⟨hw, hws⟩ := List.forall_mem_cons.mp h
    exact (ih hws).trans (Function.update_of_ne hw.symm _ _)

theorem written_cons_of_forall_ne {disk : Sectors} {ws : List SectorWrite} {l : Nat}
    {bytes : List UInt8} (h : ∀ w ∈ ws, w.1 ≠ l) : written disk ((l, bytes) :: ws) l = bytes :=
  (written_of_forall_ne h).trans (Function.update_self _ _ _)

/-- `disk_write` stays in the partition of its volume. -/
theorem Request.inside {vols : Volumes} {pdrv : UInt8} {hd : Bool} {p : Extent}
    (hvol : vols pdrv.toNat = volume hd p) (hend : p.start.toNat + p.length.toNat ≤ 2 ^ 32)
    {q : Request} {w : SectorWrite} (hw : w ∈ q.writes vols pdrv) : w.1 ∈ p.sectors := by
  obtain ⟨e, he, hwe⟩ := List.mem_filterMap.mp hw
  have hsector : e.sector = some w.1 := by
    cases e with
    | dataOut r bytes =>
      rw [← Option.some.inj hwe]
      rfl
    | command => cases hwe
    | dataIn => cases hwe
    | flush => cases hwe
  by_cases ha : Accepted vols pdrv.toNat q.sector.toNat q.count.toNat
  · obtain ⟨master, -, hwrite⟩ := diskWrite_of_accepted q.buff.toNat q.mem q.dev ha
    obtain ⟨-, -, hs, hc⟩ := ha
    rw [hwrite] at he
    rw [hvol] at he hs hc
    dsimp only [volume] at he hs hc
    rw [Nat.mod_eq_of_lt (by omega)] at he
    have hin := sector_of_mem_writeLoop (i := 0) (by omega) he hsector
    exact ⟨by omega, by omega⟩
  · rw [diskWrite_refused ha] at he
    exact absurd he List.not_mem_nil

/-- What FatFs asks of a volume stays in the partition that the volume is bound to. -/
theorem writes_bindVolume {hd : Bool} {vols : Volumes} {pdrv : UInt8} {p : Extent}
    (hpdrv : pdrv.toNat < ffVolumes) (hend : p.start.toNat + p.length.toNat ≤ 2 ^ 32)
    {qs : List Request} {w : SectorWrite}
    (hw : w ∈ qs.flatMap (·.writes (bindVolume hd vols pdrv p) pdrv)) : w.1 ∈ p.sectors := by
  obtain ⟨q, -, hq⟩ := List.mem_flatMap.mp hw
  have hvol : bindVolume hd vols pdrv p pdrv.toNat = volume hd p := by
    unfold bindVolume fatfsInit
    rw [if_neg (by omega), if_pos rfl]
    rfl
  exact Request.inside hvol hend hq

/-! ## Layouts -/

/-- Two partitions that are disjoint parts of a disk, and leave its boot sector alone. -/
structure Laid (total : Nat) (p1 p2 : Extent) : Prop where
  nonempty₁ : p1.sectors.Nonempty
  nonempty₂ : p2.sectors.Nonempty
  disjoint : Disjoint p1.sectors p2.sectors
  inside₁ : p1.sectors ⊆ Set.Iio total
  inside₂ : p2.sectors ⊆ Set.Iio total
  boot₁ : 0 ∉ p1.sectors
  boot₂ : 0 ∉ p2.sectors

/-- The second partition starts where the first one ends, and ends with the disk. -/
structure Consecutive (total : UInt32) (p1 p2 : Extent) : Prop where
  start : 0 < p1.start.toNat
  length₁ : 0 < p1.length.toNat
  length₂ : 0 < p2.length.toNat
  next : p1.start.toNat + p1.length.toNat = p2.start.toNat
  last : p2.start.toNat + p2.length.toNat = total.toNat

section Layout

variable {total : UInt32} {p p1 p2 : Extent}

theorem Extent.fits_of_le (hlength : 0 < p.length.toNat)
    (hend : p.start.toNat + p.length.toNat ≤ total.toNat) : p.Fits total := by
  have hlt : p.start < total := UInt32.lt_iff_toNat_lt.mpr (by omega)
  refine ⟨fun h => ?_, hlt, UInt32.le_iff_toNat_le.mpr ?_⟩
  · rw [h] at hlength
    exact absurd hlength (by decide)
  · rw [UInt32.toNat_sub_of_le _ _ (UInt32.le_of_lt hlt)]
    omega

theorem Consecutive.fits (h : Consecutive total p1 p2) : p1.Fits total ∧ p2.Fits total := by
  obtain ⟨hs, hl1, hl2, hn, hl⟩ := h
  exact ⟨Extent.fits_of_le hl1 (by omega), Extent.fits_of_le hl2 (by omega)⟩

theorem Consecutive.laid (h : Consecutive total p1 p2) : Laid total.toNat p1 p2 := by
  obtain ⟨hs, hl1, hl2, hn, hl⟩ := h
  constructor
  · exact ⟨_, Nat.le_refl _, by omega⟩
  · exact ⟨_, Nat.le_refl _, by omega⟩
  · refine Set.disjoint_left.mpr fun l h1 h2 => ?_
    have := h1.2
    have := h2.1
    omega
  · intro l h1
    have := h1.2
    exact Set.mem_Iio.mpr (by omega)
  · intro l h2
    have := h2.2
    exact Set.mem_Iio.mpr (by omega)
  · intro h1
    have := h1.1
    omega
  · intro h2
    have := h2.1
    omega

end Layout

/-! ## `Initialize` -/

variable {ata : Device} {vols : Volumes} {r : Initialized}

theorem describes_newRecord (p1 p2 : Extent) : ∃ e1 e2,
    (newRecord p1 p2).primaryPartition = #v[e1, e2, .zero, .zero] ∧ e1.Describes p1 ∧
      e2.Describes p2 :=
  ⟨_, _, rfl, ⟨rfl, rfl, rfl⟩, rfl, rfl, rfl⟩

/-- The record comes first, and the rest stays in the two partitions. -/
theorem formatBoth_writes (vols : Volumes) {p1 p2 : Extent}
    (h : Consecutive ata.sizeInSectors p1 p2) :
    ∃ ws, (formatBoth ata vols p1 p2).writes = (0, (newRecord p1 p2).bytes) :: ws ∧
      ∀ w ∈ ws, w.1 ∈ p1.sectors ∨ w.1 ∈ p2.sectors := by
  obtain ⟨-, -, -, hn, hl⟩ := h
  have hlt := ata.sizeInSectors.toNat_lt
  have hw0 : ∀ w ∈ (formatPartition ata vols 0 p1).2.1, w.1 ∈ p1.sectors := fun w hw =>
    writes_bindVolume (by decide) (by omega) hw
  unfold formatBoth
  dsimp only
  split
  · exact ⟨_, rfl, fun w hw => .inl (hw0 w hw)⟩
  · refine ⟨_, rfl, fun w hw => (List.mem_append.mp hw).imp (hw0 w) fun hw => ?_⟩
    exact writes_bindVolume (by decide) (by omega) hw

theorem formatBoth_extents (ata : Device) (vols : Volumes) (p1 p2 : Extent) :
    (formatBoth ata vols p1 p2).p1 = p1 ∧ (formatBoth ata vols p1 p2).p2 = p2 := by
  unfold formatBoth
  dsimp only
  split <;> exact ⟨rfl, rfl⟩

/-- The two halves of what follows the first 63 sectors. -/
def firstHalf (total : UInt32) : Extent := ⟨63, (total - 63) / 2⟩

def secondHalf (total : UInt32) : Extent :=
  ⟨63 + (total - 63) / 2, total - 63 - (total - 63) / 2⟩

theorem toNat_halves {total : UInt32} (h : 63 ≤ total.toNat) :
    (total - 63).toNat = total.toNat - 63 ∧
      (firstHalf total).length.toNat = (total.toNat - 63) / 2 ∧
      (secondHalf total).start.toNat = 63 + (total.toNat - 63) / 2 ∧
      (secondHalf total).length.toNat = total.toNat - 63 - (total.toNat - 63) / 2 := by
  have hlt := total.toNat_lt
  have hav : (total - 63).toNat = total.toNat - 63 :=
    UInt32.toNat_sub_of_le _ _ (UInt32.le_iff_toNat_le.mpr h)
  have hhalf : ((total - 63) / 2).toNat = (total.toNat - 63) / 2 := by
    rw [UInt32.toNat_div, hav]
    rfl
  refine ⟨hav, hhalf, ?_, ?_⟩
  · unfold secondHalf
    rw [UInt32.toNat_add, hhalf]
    exact Nat.mod_eq_of_lt (show 63 + (total.toNat - 63) / 2 < 2 ^ 32 by omega)
  · unfold secondHalf
    rw [UInt32.toNat_sub_of_le _ _ (UInt32.le_iff_toNat_le.mpr (by omega)), hav, hhalf]

theorem consecutive_halves {total : UInt32} (h : 319 ≤ total.toNat) :
    Consecutive total (firstHalf total) (secondHalf total) := by
  obtain ⟨-, hl1, hs2, hl2⟩ := toNat_halves (show 63 ≤ total.toNat by omega)
  have hs1 : (firstHalf total).start.toNat = 63 := rfl
  constructor <;> omega

/-- `Initialize` accepts the disks of 319 sectors or more, and leaves the two halves. -/
theorem initializeDisk_eq_ok_iff : initializeDisk ata vols = .ok r ↔
    ata.isAtapi = false ∧ 319 ≤ ata.sizeInSectors.toNat ∧ ata.write28 = true ∧
      formatBoth ata vols (firstHalf ata.sizeInSectors) (secondHalf ata.sizeInSectors) = r := by
  have hsize : 319 ≤ ata.sizeInSectors.toNat ↔ ¬ ata.sizeInSectors ≤ 63 ∧
      ¬ ((firstHalf ata.sizeInSectors).length < 128 ∨ (secondHalf ata.sizeInSectors).length < 128) := by
    rw [UInt32.le_iff_toNat_le, UInt32.lt_iff_toNat_lt, UInt32.lt_iff_toNat_lt]
    by_cases h : 63 ≤ ata.sizeInSectors.toNat
    · obtain ⟨-, hl1, -, hl2⟩ := toNat_halves h
      rw [hl1, hl2]
      show _ ↔ ¬ _ ≤ 63 ∧ ¬ (_ < 128 ∨ _ < 128)
      omega
    · show _ ↔ ¬ _ ≤ 63 ∧ _
      omega
  unfold initializeDisk
  dsimp only
  split_ifs with hatapi hzero h63 hav hsmall hmbr
  · refine iff_of_false nofun fun ⟨h, _⟩ => ?_
    exact Bool.false_ne_true (h.symm.trans hatapi)
  · refine iff_of_false nofun fun ⟨_, h, _⟩ => ?_
    rw [hzero] at h
    exact absurd h (by decide)
  · exact iff_of_false nofun fun ⟨_, h, _⟩ => (hsize.mp h).1 h63
  · refine iff_of_false nofun fun ⟨_, h, _⟩ => ?_
    obtain ⟨hsub, -⟩ := toNat_halves (show 63 ≤ ata.sizeInSectors.toNat by omega)
    have hav : (ata.sizeInSectors - 63).toNat < 2 := UInt32.lt_iff_toNat_lt.mp hav
    omega
  · exact iff_of_false nofun fun ⟨_, h, _⟩ => (hsize.mp h).2 hsmall
  · refine iff_of_false nofun fun ⟨_, _, h, _⟩ => ?_
    exact Bool.false_ne_true (hmbr.symm.trans h)
  · constructor
    · intro h
      exact ⟨Bool.not_eq_true _ ▸ hatapi, hsize.mpr ⟨h63, hsmall⟩, Bool.not_eq_false _ ▸ hmbr,
        Except.ok.inj h⟩
    · rintro ⟨-, -, -, h⟩
      exact congrArg Except.ok h

/-- What `Initialize` leaves is read as the two volumes that it has formatted. -/
theorem initializeDisk_reads (h : initializeDisk ata vols = .ok r) (disk : Sectors)
    (vols' : Volumes) :
    Consecutive ata.sizeInSectors r.p1 r.p2 ∧ ∃ t, readPartitions ata.master ata.sizeInSectors
      (some (written disk r.writes 0)) vols' = .ok t ∧ t.Two ata.master r.p1 r.p2 := by
  obtain ⟨-, hsize, -, rfl⟩ := initializeDisk_eq_ok_iff.mp h
  obtain ⟨hp1, hp2⟩ := formatBoth_extents ata vols (firstHalf ata.sizeInSectors)
    (secondHalf ata.sizeInSectors)
  rw [hp1, hp2]
  have hcons := consecutive_halves hsize
  have hlaid := hcons.laid
  obtain ⟨hfit1, hfit2⟩ := hcons.fits
  obtain ⟨ws, hws, hin⟩ := formatBoth_writes vols hcons
  obtain ⟨e1, e2, hparts, h1, h2⟩ :=
    describes_newRecord (firstHalf ata.sizeInSectors) (secondHalf ata.sizeInSectors)
  have hsector : written disk (formatBoth ata vols (firstHalf ata.sizeInSectors)
      (secondHalf ata.sizeInSectors)).writes 0 =
        (newRecord (firstHalf ata.sizeInSectors) (secondHalf ata.sizeInSectors)).bytes := by
    rw [hws]
    refine written_cons_of_forall_ne fun w hw hzero => ?_
    rcases hin w hw with hw | hw
    · exact hlaid.boot₁ (hzero ▸ hw)
    · exact hlaid.boot₂ (hzero ▸ hw)
  refine ⟨hcons, ?_⟩
  rw [hsector]
  refine readPartitions_two (UInt32.lt_iff_toNat_lt.mpr ?_) ?_ ?_ h1 h2 hfit1 hfit2 vols'
  · show 63 < _
    omega
  · rw [MasterBootRecord.ofBytes_bytes]
    rfl
  · rw [MasterBootRecord.ofBytes_bytes, hparts]

end Msdospart
end Hashx86
