import Hashx86.Fs.Msdospart
import Hashx86.Lib.Checked
import Hashx86.Pak.Defs

/-!
# The partitions of an installation (`tools/installer/main.cpp`)

`installBoot` is `kernelMain` up to the return of `installGRUB`; the rest of it is in
`kernelMain_eq`. The record is made of raw bytes over the boot image of the archive, and is read by
the kernel as a `MasterBootRecord`. The boot image comes from GRUB: `EndsWithSignature` is what is
known of it.

* `partitionTable_eq`: the raw bytes are those of a table of entries.
* `Boot.consecutive`: the partitions follow each other up to the end of the disk.
* `Boot.written_zero`: neither the core image nor FatFs touches the boot record.
* `layouts_read_back`: the layouts of `Initialize` and of the installer are read back.
-/

namespace Hashx86
namespace Pak

open Lib DiskIo Msdospart

/-! ## The first part of the installer -/

/-- What `kernelMain` has once `installGRUB` returns. -/
structure Boot where
  dir : Nat
  n : Nat
  bootImg : Nat
  p1Start : Nat
  p1Size : Nat
  p2Start : Nat
  p2Size : Nat
  mbr : List UInt8
  core : List (List UInt8)

def installBoot (disk : Disk) (pak : List UInt8) : Except Stop Boot := do
  let (dir, n) ← validate pak
  let total ← orHalt disk.drive (.halt "No ATA drive detected")
  haltIf (total ≤ 63) (.halt "Disk too small")
  haltIf (disk.confirm = false) .aborted
  haltIf (total ≤ 3 * 2048) (.halt "Disk too small for aligned partitions")
  let p1Start := 2048
  let p1Size := (total - p1Start) / 2 / 2048 * 2048
  let p2Size := total - p1Start - p1Size
  let im ← findImages pak dir 0 n ⟨none, none⟩
  let (bootImg, bootImgSize) ← orHalt im.boot (.halt "boot.img missing or too small")
  haltIf (bootImgSize < 512) (.halt "boot.img missing or too small")
  let (coreImg, coreImgSize) ← orHalt im.core (.halt "core.img missing")
  haltIf (coreImgSize = 0) (.halt "core.img missing")
  let (mbr, core) ← installGRUB disk pak bootImg coreImg coreImgSize p1Start p1Size
    (p1Start + p1Size) p2Size
  return ⟨dir, n, bootImg, p1Start, p1Size, p1Start + p1Size, p2Size, mbr, core⟩

theorem kernelMain_eq (disk : Disk) (pak : List UInt8) : kernelMain disk pak = (do
    let b ← installBoot disk pak
    haltIf (disk.format 0 = false) (.halt "Format partition 1 failed")
    haltIf (disk.format 1 = false) (.halt "Format partition 2 failed")
    haltIf (disk.mount = false) (.halt "Mount partition 1 failed")
    let files ← extractFiles disk pak b.dir 0 b.n ⟨[], [], 0, 0⟩
    haltIf (0 < files.failed) .aborted
    return ⟨b.mbr, b.core, files⟩) := by
  unfold kernelMain installBoot
  simp only [bind_assoc, pure_bind]

/-! ## What the steps give -/

theorem haltIf_eq_ok {c : Prop} [Decidable c] {stop : Stop} {u : Unit}
    (h : haltIf c stop = .ok u) : ¬ c := by
  intro hc
  rw [haltIf, if_pos hc] at h
  cases h

theorem orHalt_eq_ok {α : Type} {p : Option α} {stop : Stop} {a : α}
    (h : orHalt p stop = .ok a) : p = some a := by
  cases p with
  | none => cases h
  | some b => exact congrArg some (Except.ok.inj h)

theorem bytesAt_eq_ok {pak bs : List UInt8} {i n : Nat} (h : bytesAt pak i n = .ok bs) :
    bs.length = n := by
  unfold bytesAt at h
  split at h
  · rw [← Except.ok.inj h, List.length_take, List.length_drop]
    omega
  · cases h

theorem length_writeCore {disk : Disk} {pak : List UInt8} {coreImg coreImgSize i n : Nat}
    {out core : List (List UInt8)}
    (h : writeCore disk pak coreImg coreImgSize i n out = .ok core) :
    core.length = out.length + n := by
  induction n generalizing i out with
  | zero => rw [← Except.ok.inj h, Nat.add_zero]
  | succ n ih =>
    unfold writeCore at h
    obtain ⟨bytes, -, h⟩ := bind_eq_ok.mp h
    obtain ⟨-, -, h⟩ := bind_eq_ok.mp h
    rw [ih h, List.length_append, List.length_singleton]
    omega

variable {disk : Disk} {pak : List UInt8} {b : Boot}

/-- The boot record is the table over the boot image, and the core image ends before the first
partition. -/
theorem installGRUB_ok {bootImg coreImg coreImgSize p1Start p1Size p2Start p2Size : Nat}
    {mbr : List UInt8} {core : List (List UInt8)}
    (h : installGRUB disk pak bootImg coreImg coreImgSize p1Start p1Size p2Start p2Size =
      .ok (mbr, core)) :
    core.length ≤ p1Start - 1 ∧ ∃ img, bytesAt pak bootImg 512 = .ok img ∧
      mbr = splice img 446 (partitionTable p1Start p1Size p2Start p2Size) := by
  unfold installGRUB at h
  obtain ⟨_, hgap, h⟩ := bind_eq_ok.mp h
  obtain ⟨img, himg, h⟩ := bind_eq_ok.mp h
  obtain ⟨-, -, h⟩ := bind_eq_ok.mp h
  obtain ⟨core', hcore, h⟩ := bind_eq_ok.mp h
  obtain ⟨-, -, h⟩ := bind_eq_ok.mp h
  obtain ⟨rfl, rfl⟩ := Prod.mk.inj (Except.ok.inj h)
  refine ⟨?_, img, himg, rfl⟩
  rw [length_writeCore hcore, List.length_nil, Nat.zero_add]
  exact Nat.le_of_not_lt (haltIf_eq_ok hgap)

theorem installBoot_ok (h : installBoot disk pak = .ok b) :
    ∃ total, disk.drive = some total ∧ 3 * 2048 < total ∧ b.p1Start = 2048 ∧
      b.p1Size = (total - 2048) / 2 / 2048 * 2048 ∧ b.p2Start = 2048 + b.p1Size ∧
      b.p2Size = total - 2048 - b.p1Size ∧ b.core.length < 2048 ∧
      ∃ img, bytesAt pak b.bootImg 512 = .ok img ∧
        b.mbr = splice img 446 (partitionTable b.p1Start b.p1Size b.p2Start b.p2Size) := by
  unfold installBoot at h
  obtain ⟨⟨dir, n⟩, -, h⟩ := bind_eq_ok.mp h
  obtain ⟨total, htotal, h⟩ := bind_eq_ok.mp h
  obtain ⟨-, -, h⟩ := bind_eq_ok.mp h
  obtain ⟨-, -, h⟩ := bind_eq_ok.mp h
  obtain ⟨_, hsize, h⟩ := bind_eq_ok.mp h
  obtain ⟨im, -, h⟩ := bind_eq_ok.mp h
  obtain ⟨⟨bootImg, bootImgSize⟩, -, h⟩ := bind_eq_ok.mp h
  obtain ⟨-, -, h⟩ := bind_eq_ok.mp h
  obtain ⟨⟨coreImg, coreImgSize⟩, -, h⟩ := bind_eq_ok.mp h
  obtain ⟨-, -, h⟩ := bind_eq_ok.mp h
  obtain ⟨⟨mbr, core⟩, hgrub, h⟩ := bind_eq_ok.mp h
  obtain ⟨hcore, hmbr⟩ := installGRUB_ok hgrub
  rw [← Except.ok.inj h]
  exact ⟨total, orHalt_eq_ok htotal, Nat.lt_of_not_le (haltIf_eq_ok hsize), rfl, rfl, rfl, rfl,
    Nat.lt_succ_of_le hcore, hmbr⟩

/-! ## The record of the installer -/

theorem le32_eq (n : Nat) : le32 n = toBytes 4 n := by
  unfold le32
  simp only [toBytes, Nat.div_div_eq_div_mul]

/-- An entry with an extent. -/
def entry (bootable : UInt8) (p : Extent) : PartitionTableEntry :=
  { PartitionTableEntry.zero with
    bootable := bootable, partitionId := 0x0C, startLba := p.start, length := p.length }

def table (p1 p2 : Extent) : Vector PartitionTableEntry 4 :=
  #v[entry 0x80 p1, entry 0x00 p2, .zero, .zero]

theorem partitionTable_eq (p1 p2 : Extent) :
    partitionTable p1.start.toNat p1.length.toNat p2.start.toNat p2.length.toNat =
      (table p1 p2).toList.flatMap (·.bytes) := by
  unfold partitionTable
  simp [le32_eq, table, entry, PartitionTableEntry.zero, PartitionTableEntry.bytes, toBytes,
    List.replicate_succ]

/-! ## The disk after the installer -/

/-- What the installer asks of FatFs: to format the volumes 0 and 1, then to work on volume 0. -/
structure FatFs where
  format : UInt8 → List Request
  extract : List Request

def Boot.p1 (b : Boot) : Extent := ⟨UInt32.ofNat b.p1Start, UInt32.ofNat b.p1Size⟩
def Boot.p2 (b : Boot) : Extent := ⟨UInt32.ofNat b.p2Start, UInt32.ofNat b.p2Size⟩

/-- The sectors of the core image. -/
def Boot.coreWrites (b : Boot) : List SectorWrite := b.core.zipIdx.map fun s => (1 + s.2, s.1)

def Boot.fatfsWrites (b : Boot) (hd : Bool) (f : FatFs) : List SectorWrite :=
  let vols := bindVolume hd DiskIo.start 0 b.p1
  let w0 := (f.format 0).flatMap (·.writes vols 0)
  let vols := bindVolume hd vols 1 b.p2
  let w1 := (f.format 1).flatMap (·.writes vols 1)
  let vols := bindVolume hd vols 0 b.p1
  w0 ++ w1 ++ f.extract.flatMap (·.writes vols 0)

/-- What the installer writes, in order. -/
def Boot.writes (b : Boot) (hd : Bool) (f : FatFs) : List SectorWrite :=
  (0, b.mbr) :: (b.coreWrites ++ b.fatfsWrites hd f)

/-- The boot image ends with the bytes 0x55 and 0xAA, as GRUB builds it. -/
def EndsWithSignature (pak : List UInt8) (bootImg : Nat) : Prop :=
  ∀ img, bytesAt pak bootImg 512 = .ok img → field img 510 2 = 0xAA55

theorem Boot.extents (h : installBoot disk pak = .ok b) {total : UInt32}
    (hdrive : disk.drive = some total.toNat) :
    b.p1.start.toNat = b.p1Start ∧ b.p1.length.toNat = b.p1Size ∧
      b.p2.start.toNat = b.p2Start ∧ b.p2.length.toNat = b.p2Size := by
  obtain ⟨n, hn, hsize, hs1, hl1, hs2, hl2, -, -⟩ := installBoot_ok h
  have hlt := total.toNat_lt
  rw [hdrive] at hn
  have hn := Option.some.inj hn
  have hword : UInt32.size = 2 ^ 32 := rfl
  refine ⟨?_, ?_, ?_, ?_⟩ <;> exact UInt32.toNat_ofNat_of_lt' (by omega)

theorem Boot.consecutive (h : installBoot disk pak = .ok b) {total : UInt32}
    (hdrive : disk.drive = some total.toNat) : Consecutive total b.p1 b.p2 := by
  obtain ⟨e1, e2, e3, e4⟩ := Boot.extents h hdrive
  obtain ⟨n, hn, hsize, hs1, hl1, hs2, hl2, -, -⟩ := installBoot_ok h
  rw [hdrive] at hn
  have hn := Option.some.inj hn
  constructor <;> omega

/-- The core image is between the boot record and the first partition. -/
theorem Boot.sector_of_mem_coreWrites (h : installBoot disk pak = .ok b) {w : SectorWrite}
    (hw : w ∈ b.coreWrites) : 0 < w.1 ∧ w.1 < 2048 := by
  obtain ⟨n, -, -, -, -, -, -, hcore, -⟩ := installBoot_ok h
  obtain ⟨⟨sector, i⟩, hs, rfl⟩ := List.mem_map.mp hw
  have hi := (List.mem_zipIdx hs).2.1
  dsimp only
  omega

theorem Boot.fatfsWrites_inside {total : UInt32} (h : Consecutive total b.p1 b.p2) {hd : Bool}
    {f : FatFs} {w : SectorWrite} (hw : w ∈ b.fatfsWrites hd f) :
    w.1 ∈ b.p1.sectors ∨ w.1 ∈ b.p2.sectors := by
  obtain ⟨-, -, -, hn, hl⟩ := h
  have hlt := total.toNat_lt
  unfold fatfsWrites at hw
  rcases List.mem_append.mp hw with hw | hw
  · rcases List.mem_append.mp hw with hw | hw
    · exact .inl (writes_bindVolume (by decide) (by omega) hw)
    · exact .inr (writes_bindVolume (by decide) (by omega) hw)
  · exact .inl (writes_bindVolume (by decide) (by omega) hw)

/-- The boot record is still in sector 0 at the end. -/
theorem Boot.written_zero (h : installBoot disk pak = .ok b) {total : UInt32}
    (hc : Consecutive total b.p1 b.p2) (before : Sectors) (hd : Bool) (f : FatFs) :
    written before (b.writes hd f) 0 = b.mbr := by
  refine written_cons_of_forall_ne fun w hw hzero => ?_
  rcases List.mem_append.mp hw with hw | hw
  · have := (sector_of_mem_coreWrites h hw).1
    omega
  · rcases fatfsWrites_inside hc hw with hw | hw
    · exact hc.laid.boot₁ (hzero ▸ hw)
    · exact hc.laid.boot₂ (hzero ▸ hw)

/-- The boot record as `ReadPartitions` reads it. -/
theorem Boot.record (h : installBoot disk pak = .ok b) {total : UInt32}
    (hdrive : disk.drive = some total.toNat) (hsig : EndsWithSignature pak b.bootImg) :
    (MasterBootRecord.ofBytes b.mbr).magicnumber = 0xAA55 ∧
      (MasterBootRecord.ofBytes b.mbr).primaryPartition = table b.p1 b.p2 := by
  obtain ⟨e1, e2, e3, e4⟩ := Boot.extents h hdrive
  obtain ⟨-, -, -, -, -, -, -, -, img, himg, hmbr⟩ := installBoot_ok h
  have hlen := bytesAt_eq_ok himg
  have hpre : (img.take 446).length = 446 := by
    rw [List.length_take]
    omega
  rw [← e1, ← e2, ← e3, ← e4, partitionTable_eq, splice, length_entries, List.append_assoc] at hmbr
  rw [hmbr, MasterBootRecord.magicnumber_ofBytes _ _ hpre,
    MasterBootRecord.primaryPartition_ofBytes _ _ hpre]
  refine ⟨?_, rfl⟩
  have hfield : field (img.drop (446 + 64)) 0 2 = field img 510 2 := by
    unfold field
    rw [List.drop_zero]
  rw [hfield, hsig img himg]
  rfl

/-- The layouts of `Initialize` and of the installer are what `ReadPartitions` mounts, and keep
clear of the boot sector and of the core image. -/
theorem layouts_read_back :
    (∀ (ata : Device) (vols vols' : Volumes) (r : Initialized) (disk : Sectors),
      initializeDisk ata vols = .ok r →
      Laid ata.sizeInSectors.toNat r.p1 r.p2 ∧
        ∃ t, readPartitions ata.master ata.sizeInSectors (some (written disk r.writes 0)) vols' =
          .ok t ∧ t.Two ata.master r.p1 r.p2) ∧
    ∀ (disk : Disk) (pak : List UInt8) (total : UInt32) (b : Boot) (hd : Bool) (f : FatFs)
      (vols : Volumes) (before : Sectors),
      installBoot disk pak = .ok b → disk.drive = some total.toNat →
      EndsWithSignature pak b.bootImg →
      Laid total.toNat b.p1 b.p2 ∧
        (∀ w ∈ b.coreWrites, w.1 ∉ b.p1.sectors ∧ w.1 ∉ b.p2.sectors) ∧
        ∃ t, readPartitions hd total (some (written before (b.writes hd f) 0)) vols = .ok t ∧
          t.Two hd b.p1 b.p2 := by
  constructor
  · intro ata vols vols' r disk h
    obtain ⟨hcons, hread⟩ := initializeDisk_reads h disk vols'
    exact ⟨hcons.laid, hread⟩
  · intro disk pak total b hd f vols before h hdrive hsig
    have hcons := Boot.consecutive h hdrive
    obtain ⟨hfit1, hfit2⟩ := hcons.fits
    obtain ⟨e1, -, e3, -⟩ := Boot.extents h hdrive
    obtain ⟨n, hn, hsize, hs1, -, hs2, -, -, -⟩ := installBoot_ok h
    obtain ⟨hmagic, hparts⟩ := Boot.record h hdrive hsig
    refine ⟨hcons.laid, fun w hw => ?_, ?_⟩
    · have hlt := (Boot.sector_of_mem_coreWrites h hw).2
      constructor
      · intro hin
        have := hin.1
        omega
      · intro hin
        have := hin.1
        omega
    · rw [Boot.written_zero h hcons before hd f]
      rw [hdrive] at hn
      have hn := Option.some.inj hn
      have h63 : 63 < total := UInt32.lt_iff_toNat_lt.mpr (show 63 < total.toNat by omega)
      exact readPartitions_two h63 hmagic hparts ⟨rfl, rfl, rfl⟩ ⟨rfl, rfl, rfl⟩ hfit1 hfit2 vols

/-- An empty disk of 319 sectors. -/
def smallDevice : Device where
  isAtapi := false
  master := true
  sizeInSectors := 319
  write28 := true
  mkfs _ := ([], true)

/-- A boot image that is empty but for its signature. -/
def bareImage : List UInt8 := List.replicate 510 0 ++ [0x55, 0xAA]

/-- An archive with a boot image of 512 bytes and a core image of one. -/
def bootArchive : List UInt8 :=
  chars "PACK" ++ le32 525 ++ le32 128 ++ bareImage ++ [1] ++
    (bootName ++ List.replicate 43 0 ++ le32 12 ++ le32 512) ++
    (coreName ++ List.replicate 43 0 ++ le32 524 ++ le32 1)

/-- A disk of 6145 sectors on which nothing fails. -/
def smallDisk : Disk where
  drive := some 6145
  confirm := true
  write28 _ := true
  flush := true
  format _ := true
  mount := true
  fOpen _ := true
  fWrite _ := true

theorem installBoot_small : ∃ b, installBoot smallDisk bootArchive = .ok b ∧ b.bootImg = 12 := by
  have hrun : (installBoot smallDisk bootArchive).map (·.bootImg) = .ok 12 := by decide +kernel
  cases hb : installBoot smallDisk bootArchive with
  | ok b =>
    rw [hb] at hrun
    exact ⟨b, rfl, Except.ok.inj hrun⟩
  | error e =>
    rw [hb] at hrun
    cases hrun

theorem endsWithSignature_small : EndsWithSignature bootArchive 12 := by
  intro img himg
  have himage : bytesAt bootArchive 12 512 = .ok bareImage := by decide +kernel
  rw [himage] at himg
  rw [← Except.ok.inj himg]
  decide +kernel

theorem layouts_read_back_small :
    (∃ r, initializeDisk smallDevice DiskIo.start = .ok r ∧ Laid 319 r.p1 r.p2 ∧
      ∃ t, readPartitions true 319 (some (written (fun _ => []) r.writes 0)) DiskIo.start = .ok t ∧
        t.Two true r.p1 r.p2) ∧
    ∃ b, installBoot smallDisk bootArchive = .ok b ∧ Laid 6145 b.p1 b.p2 ∧
      ∃ t, readPartitions true 6145
          (some (written (fun _ => []) (b.writes true ⟨fun _ => [], []⟩) 0)) DiskIo.start = .ok t ∧
        t.Two true b.p1 b.p2 := by
  constructor
  · have hrun : initializeDisk smallDevice DiskIo.start = .ok _ :=
      initializeDisk_eq_ok_iff.mpr ⟨rfl, Nat.le_refl 319, rfl, rfl⟩
    exact ⟨_, hrun, layouts_read_back.1 smallDevice DiskIo.start DiskIo.start _ (fun _ => []) hrun⟩
  · obtain ⟨b, hrun, himg⟩ := installBoot_small
    obtain ⟨hlaid, -, hread⟩ := layouts_read_back.2 smallDisk bootArchive 6145 b true
      ⟨fun _ => [], []⟩ DiskIo.start (fun _ => []) hrun rfl (himg ▸ endsWithSignature_small)
    exact ⟨b, hrun, hlaid, hread⟩

end Pak
end Hashx86
