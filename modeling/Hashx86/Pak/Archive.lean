import Hashx86.Lib.Checked
import Hashx86.Pak.Defs

/-!
# Archives that are packed and installed

* `kernelMain_inside`: the installer reads no byte outside the archive, whatever its bytes are.
* `packer_spec`: the layout of an archive of the packer; `Packed` says it of the rest of a loop.
* `archive_ok`: such an archive is accepted, and the installer looks up the name and the bytes of
  each file.
-/

namespace Hashx86
namespace Pak

open Lib

/-! ## No read outside the archive -/

/-- A run that reads inside the archive, with a result that satisfies `P`. -/
abbrev Inside {α : Type} (x : Except Stop α) (P : α → Prop) : Prop := Avoids .outside x P

theorem inside_haltIf (c : Prop) [Decidable c] {stop : Stop} (hs : stop ≠ .outside) :
    Inside (haltIf c stop) fun _ => ¬ c := by
  unfold haltIf
  split
  · exact avoids_error _ hs
  · exact avoids_ok ‹_›

theorem inside_halt (c : Prop) [Decidable c] (msg : String) :
    Inside (haltIf c (.halt msg)) fun _ => ¬ c := inside_haltIf c nofun

theorem inside_abort (c : Prop) [Decidable c] : Inside (haltIf c .aborted) fun _ => ¬ c :=
  inside_haltIf c nofun

theorem inside_orHalt {α : Type} (p : Option α) (msg : String) :
    Inside (orHalt p (.halt msg)) fun a => p = some a := by
  cases p with
  | none => exact avoids_error _ nofun
  | some a => exact avoids_ok rfl

theorem inside_byteAt {pak : List UInt8} {i : Nat} (h : i < pak.length) :
    Inside (byteAt pak i) fun b => pak[i]? = some b := by
  unfold byteAt
  rw [List.getElem?_eq_getElem h]
  exact avoids_ok rfl

theorem inside_bytesAt {pak : List UInt8} {i n : Nat} (h : i + n ≤ pak.length) :
    Inside (bytesAt pak i n) fun _ => True := by
  unfold bytesAt
  rw [if_pos h]
  exact avoids_ok trivial

theorem inside_word32At {pak : List UInt8} {i : Nat} (h : i + 4 ≤ pak.length) :
    Inside (word32At pak i) fun _ => True := by
  unfold word32At
  refine (inside_byteAt (by omega)).bind fun _ _ => ?_
  refine (inside_byteAt (by omega)).bind fun _ _ => ?_
  refine (inside_byteAt (by omega)).bind fun _ _ => ?_
  refine (inside_byteAt (by omega)).bind fun _ _ => ?_
  exact avoids_ok trivial

theorem pakSize_le (pak : List UInt8) : pakSize pak ≤ pak.length := Nat.mod_le _ _

theorem inside_readHeader (pak : List UInt8) :
    Inside (readHeader pak) fun r => r.1 + dirEntrySize * r.2 ≤ pak.length := by
  have hle := pakSize_le pak
  unfold readHeader
  refine (inside_halt _ _).bind fun _ hs => ?_
  have hs : 12 ≤ pakSize pak := Nat.le_of_not_lt hs
  refine (inside_bytesAt (by omega)).bind fun magic _ => ?_
  refine (inside_halt _ _).bind fun _ _ => ?_
  refine (inside_word32At (by omega)).bind fun dirOffset _ => ?_
  refine (inside_word32At (by omega)).bind fun dirSize _ => ?_
  refine (inside_halt _ _).bind fun _ hd => avoids_ok ?_
  dsimp only [dirEntrySize] at hd ⊢
  omega

theorem inside_terminated {pak : List UInt8} {i n : Nat} (h : i + n ≤ pak.length) :
    Inside (terminated pak i n) fun t => t = true → ∃ j < n, pak[i + j]? = some 0 := by
  induction n generalizing i with
  | zero => exact avoids_ok nofun
  | succ n ih =>
    unfold terminated
    refine (inside_byteAt (by omega)).bind fun b hb => ?_
    by_cases h0 : b = 0
    · rw [if_pos h0]
      exact avoids_ok fun _ => ⟨0, Nat.succ_pos n, h0 ▸ hb⟩
    · rw [if_neg h0]
      refine (ih (i := i + 1) (by omega)).mono fun t ht hte => ?_
      obtain ⟨j, hj, hz⟩ := ht hte
      exact ⟨j + 1, by omega, by rw [← hz]; congr 1; omega⟩

/-- The entries `i`, …, `i + n - 1` of the directory lie in the archive, with names that end. -/
def NamesEnd (pak : List UInt8) (dir i n : Nat) : Prop :=
  ∀ k, i ≤ k → k < i + n → ∃ j < pakNameLen, pak[dir + dirEntrySize * k + j]? = some 0

theorem inside_checkNames {pak : List UInt8} {dir i n : Nat}
    (h : dir + dirEntrySize * (i + n) ≤ pak.length) :
    Inside (checkNames pak dir i n) fun _ => NamesEnd pak dir i n := by
  dsimp only [dirEntrySize] at h
  induction n generalizing i with
  | zero => exact avoids_ok fun k h1 h2 => absurd h1 (by omega)
  | succ n ih =>
    unfold checkNames
    refine (inside_terminated (by dsimp only [dirEntrySize, pakNameLen]; omega)).bind fun t ht => ?_
    refine (inside_halt _ _).bind fun _ hf => ?_
    refine (ih (i := i + 1) (by omega)).mono fun _ hn k h1 h2 => ?_
    by_cases hk : k = i
    · rw [hk]
      exact ht (Bool.eq_false_iff.not_left.mp hf)
    · exact hn k (by omega) (by omega)

theorem inside_validate (pak : List UInt8) :
    Inside (validate pak) fun r =>
      r.1 + dirEntrySize * r.2 ≤ pak.length ∧ NamesEnd pak r.1 0 r.2 := by
  unfold validate
  refine (inside_readHeader pak).bind fun r hr => ?_
  refine (inside_checkNames (by rwa [Nat.zero_add])).bind fun _ hn => avoids_ok ⟨hr, hn⟩

theorem inside_cstr {bs : List UInt8} (h : (0 : UInt8) ∈ bs) : Inside (cstr bs) fun _ => True := by
  induction bs with
  | nil => exact absurd h (by simp)
  | cons b bs ih =>
    unfold cstr
    by_cases h0 : b = 0
    · rw [if_pos h0]
      exact avoids_ok trivial
    · rw [if_neg h0]
      have hm := ih ((List.mem_cons.mp h).resolve_left fun e => h0 e.symm)
      cases hc : cstr bs with
      | ok s => exact avoids_ok trivial
      | error e =>
        rw [hc] at hm
        exact hm

theorem inside_name {pak : List UInt8} {dir i n k : Nat} (h : NamesEnd pak dir i n) (h1 : i ≤ k)
    (h2 : k < i + n) : Inside (cstrAt pak (dir + dirEntrySize * k)) fun _ => True := by
  obtain ⟨j, -, hj⟩ := h k h1 h2
  refine inside_cstr (List.mem_of_getElem? (i := j) ?_)
  rw [List.getElem?_drop]
  exact hj

theorem inside_entryAt {pak : List UInt8} {dir k : Nat}
    (h : dir + dirEntrySize * (k + 1) ≤ pak.length) :
    Inside (entryAt pak dir k) fun r => r.2.2 = true → r.1 + r.2.1 ≤ pak.length := by
  have hle := pakSize_le pak
  dsimp only [dirEntrySize] at h
  unfold entryAt
  refine (inside_word32At (by dsimp only [dirEntrySize, pakNameLen]; omega)).bind fun o _ => ?_
  refine (inside_word32At (by dsimp only [dirEntrySize, pakNameLen]; omega)).bind fun s _ => ?_
  refine avoids_ok fun hd => ?_
  have hd := of_decide_eq_true hd
  dsimp only
  omega

/-- The images found lie in the archive. -/
def ImagesInside (pak : List UInt8) (im : Images) : Prop :=
  (∀ o s, im.boot = some (o, s) → o + s ≤ pak.length) ∧
    ∀ o s, im.core = some (o, s) → o + s ≤ pak.length

theorem inside_findImages {pak : List UInt8} {dir i n : Nat} {im : Images}
    (h : dir + dirEntrySize * (i + n) ≤ pak.length) (hn : NamesEnd pak dir i n)
    (him : ImagesInside pak im) : Inside (findImages pak dir i n im) (ImagesInside pak) := by
  induction n generalizing i im with
  | zero => exact avoids_ok him
  | succ n ih =>
    have hle : dir + dirEntrySize * (i + 1 + n) ≤ pak.length := by
      rwa [Nat.add_assoc, Nat.add_comm 1 n]
    have hnext : ∀ im, ImagesInside pak im → Inside (findImages pak dir (i + 1) n im)
        (ImagesInside pak) := fun im him =>
      ih hle (fun k h1 h2 => hn k (by omega) (by omega)) him
    unfold findImages
    refine (inside_entryAt (by dsimp only [dirEntrySize] at h ⊢; omega)).bind fun r hr => ?_
    obtain ⟨offset, size, inside⟩ := r
    dsimp only at hr ⊢
    cases inside with
    | false => exact hnext im him
    | true =>
      have hr := hr rfl
      refine (inside_name hn (Nat.le_refl i) (by omega)).bind fun name _ => ?_
      split
      · refine hnext _ ⟨fun o s e => ?_, him.2⟩
        obtain ⟨rfl, rfl⟩ := Prod.mk.inj (Option.some.inj e)
        exact hr
      · split
        · refine hnext _ ⟨him.1, fun o s e => ?_⟩
          obtain ⟨rfl, rfl⟩ := Prod.mk.inj (Option.some.inj e)
          exact hr
        · exact hnext im him

/-- The sectors of the core image lie in it. -/
theorem inside_writeCore {disk : Disk} {pak : List UInt8} {coreImg coreImgSize i n : Nat}
    {out : List (List UInt8)} (h : coreImg + coreImgSize ≤ pak.length)
    (hn : (i + n) * 512 ≤ coreImgSize + 511) :
    Inside (writeCore disk pak coreImg coreImgSize i n out) fun _ => True := by
  induction n generalizing i out with
  | zero => exact avoids_ok trivial
  | succ n ih =>
    unfold writeCore
    refine (inside_bytesAt (by omega)).bind fun bytes _ => ?_
    refine (inside_halt _ _).bind fun _ _ => ih ?_
    rwa [Nat.add_assoc, Nat.add_comm 1 n]

theorem inside_installGRUB {disk : Disk} {pak : List UInt8} {bootImg coreImg coreImgSize : Nat}
    (p1Start p1Size p2Start p2Size : Nat) (hb : bootImg + 512 ≤ pak.length)
    (hc : coreImg + coreImgSize ≤ pak.length) :
    Inside (installGRUB disk pak bootImg coreImg coreImgSize p1Start p1Size p2Start p2Size)
      fun _ => True := by
  unfold installGRUB
  refine (inside_halt _ _).bind fun _ _ => ?_
  refine (inside_bytesAt hb).bind fun img _ => ?_
  refine (inside_halt _ _).bind fun _ _ => ?_
  refine (inside_writeCore hc (by omega)).bind fun core _ => ?_
  refine (inside_halt _ _).bind fun _ _ => avoids_ok trivial

theorem inside_writeFile {disk : Disk} {pak : List UInt8} {i offset size : Nat}
    (path : List UInt8) (x : Extraction) (h : offset + size ≤ pak.length) :
    Inside (writeFile disk pak i path offset size x) fun _ => True := by
  unfold writeFile
  split
  · exact avoids_ok trivial
  · refine (inside_bytesAt h).bind fun data _ => ?_
    split <;> exact avoids_ok trivial

theorem inside_extractFiles {disk : Disk} {pak : List UInt8} {dir i n : Nat} {x : Extraction}
    (h : dir + dirEntrySize * (i + n) ≤ pak.length) (hn : NamesEnd pak dir i n) :
    Inside (extractFiles disk pak dir i n x) fun _ => True := by
  induction n generalizing i x with
  | zero => exact avoids_ok trivial
  | succ n ih =>
    have hle : dir + dirEntrySize * (i + 1 + n) ≤ pak.length := by
      rwa [Nat.add_assoc, Nat.add_comm 1 n]
    have hnext : ∀ x, Inside (extractFiles disk pak dir (i + 1) n x) fun _ => True := fun x =>
      ih hle (fun k h1 h2 => hn k (by omega) (by omega))
    unfold extractFiles
    refine (inside_entryAt (by dsimp only [dirEntrySize] at h ⊢; omega)).bind fun r hr => ?_
    obtain ⟨offset, size, inside⟩ := r
    dsimp only at hr ⊢
    cases inside with
    | false => exact hnext _
    | true =>
      refine (inside_name hn (Nat.le_refl i) (by omega)).bind fun name _ => ?_
      split
      · exact hnext _
      · split
        · exact hnext _
        · exact (inside_writeFile _ _ (hr rfl)).bind fun x _ => hnext x

/-- The installer reads no byte outside the archive. -/
theorem kernelMain_inside (disk : Disk) (pak : List UInt8) :
    Inside (kernelMain disk pak) fun _ => True := by
  unfold kernelMain
  refine (inside_validate pak).bind fun r hr => ?_
  obtain ⟨dir, n⟩ := r
  obtain ⟨hdir, hn⟩ := hr
  have hdir : dir + dirEntrySize * (0 + n) ≤ pak.length := by rwa [Nat.zero_add]
  refine (inside_orHalt _ _).bind fun total _ => ?_
  refine (inside_halt _ _).bind fun _ _ => ?_
  refine (inside_abort _).bind fun _ _ => ?_
  refine (inside_halt _ _).bind fun _ _ => ?_
  have h0 : ImagesInside pak ⟨none, none⟩ := ⟨by simp, by simp⟩
  refine (inside_findImages hdir hn h0).bind fun im him => ?_
  refine (inside_orHalt _ _).bind fun boot hb => ?_
  obtain ⟨bootImg, bootImgSize⟩ := boot
  have hb := him.1 bootImg bootImgSize hb
  refine (inside_halt _ _).bind fun _ h512 => ?_
  refine (inside_orHalt _ _).bind fun core hc => ?_
  obtain ⟨coreImg, coreImgSize⟩ := core
  have hc := him.2 coreImg coreImgSize hc
  refine (inside_halt _ _).bind fun _ _ => ?_
  refine (inside_installGRUB _ _ _ _ (by omega) hc).bind fun r _ => ?_
  refine (inside_halt _ _).bind fun _ _ => ?_
  refine (inside_halt _ _).bind fun _ _ => ?_
  refine (inside_halt _ _).bind fun _ _ => ?_
  refine (inside_extractFiles hdir hn).bind fun files _ => ?_
  exact (inside_abort _).bind fun _ _ => avoids_ok trivial

/-! ## Reading what was packed -/

/-- What follows a prefix at an offset. -/
theorem prefix_drop_add {l s t : List UInt8} {i : Nat} (h : s ++ t <+: l.drop i) :
    t <+: l.drop (i + s.length) := by
  obtain ⟨r, hr⟩ := h
  refine ⟨r, ?_⟩
  rw [← List.drop_drop, ← hr, List.append_assoc, List.drop_left]

theorem byteAt_of_at {pak s : List UInt8} {b : UInt8} {i : Nat} (h : b :: s <+: pak.drop i) :
    byteAt pak i = .ok b := by
  obtain ⟨r, hr⟩ := h
  have hb : pak[i]? = some b := by
    rw [← Nat.add_zero i, ← List.getElem?_drop, ← hr]
    rfl
  rw [byteAt, hb]

theorem bytesAt_of_at {pak s : List UInt8} {i : Nat} (h : s <+: pak.drop i)
    (hi : i ≤ pak.length) : bytesAt pak i s.length = .ok s := by
  have hlen := h.length_le
  rw [List.length_drop] at hlen
  rw [bytesAt, if_pos (by omega), ← List.prefix_iff_eq_take.mp h]

theorem word32At_of_at {pak : List UInt8} {n i : Nat} (h : le32 n <+: pak.drop i)
    (hn : n < 2 ^ 32) : word32At pak i = .ok n := by
  have h1 : byteAt pak (i + 1) = .ok _ :=
    byteAt_of_at (prefix_drop_add (s := [UInt8.ofNat n]) h)
  have h2 : byteAt pak (i + 2) = .ok _ :=
    byteAt_of_at (prefix_drop_add (s := [UInt8.ofNat n, UInt8.ofNat (n / 256)]) h)
  have h3 : byteAt pak (i + 3) = .ok _ := byteAt_of_at (prefix_drop_add
    (s := [UInt8.ofNat n, UInt8.ofNat (n / 256), UInt8.ofNat (n / 65536)]) h)
  unfold word32At
  rw [byteAt_of_at h, h1, h2, h3]
  refine congrArg Except.ok ?_
  simp only [UInt8.toNat_ofNat']
  omega

theorem cstr_of_at {name rest bs : List UInt8} (h : name ++ 0 :: rest <+: bs)
    (h0 : (0 : UInt8) ∉ name) : cstr bs = .ok name := by
  obtain ⟨r, rfl⟩ := h
  induction name with
  | nil => rfl
  | cons b name ih =>
    rw [List.mem_cons, not_or] at h0
    obtain ⟨hb, h0⟩ := h0
    have ih := ih h0
    rw [List.cons_append, List.cons_append, cstr, if_neg fun e => hb e.symm, ih]
    rfl

theorem terminated_of_at {pak name rest : List UInt8} {i n : Nat}
    (h : name ++ 0 :: rest <+: pak.drop i) (hn : name.length < n) :
    terminated pak i n = .ok true := by
  induction name generalizing i n with
  | nil =>
    obtain ⟨n, rfl⟩ := Nat.exists_eq_add_one_of_ne_zero (Nat.ne_of_gt hn)
    rw [terminated, byteAt_of_at h]
    rfl
  | cons b name ih =>
    obtain ⟨n, rfl⟩ := Nat.exists_eq_add_one_of_ne_zero (Nat.ne_of_gt (Nat.zero_lt_of_lt hn))
    have hnext := prefix_drop_add (s := [b]) (t := name ++ 0 :: rest) h
    rw [terminated, byteAt_of_at h]
    by_cases h0 : b = 0
    · exact if_pos h0
    · exact (if_neg h0).trans (ih hnext (by simpa using hn))

/-! ## The archive of the packer -/

/-- The bytes of the files. -/
def bodies (es : List FileEntry) : List UInt8 := es.flatMap (·.data)

/-- The directory of files whose bytes start at `o`. -/
def entriesFrom : Nat → List FileEntry → List PakDirEntry
  | _, [] => []
  | o, e :: es => dirEntry e o :: entriesFrom (o + e.data.length) es

def dirBytes (ds : List PakDirEntry) : List UInt8 := ds.flatMap (·.bytes)

theorem packEntries_spec {es : List FileEntry} {pak : List UInt8} {dir : List PakDirEntry}
    {r : List UInt8 × List PakDirEntry} (h : packEntries es pak dir = some r) :
    r = (pak ++ bodies es, dir ++ entriesFrom pak.length es) ∧
      ∀ e ∈ es, e.name.length < pakNameLen := by
  induction es generalizing pak dir with
  | nil =>
    refine ⟨?_, nofun⟩
    rw [packEntries, Option.some.injEq] at h
    rw [← h]
    simp [bodies, entriesFrom]
  | cons e es ih =>
    unfold packEntries at h
    split_ifs at h with h1 h2 h3
    obtain ⟨hr, hes⟩ := ih h
    refine ⟨?_, List.forall_mem_cons.mpr ⟨Nat.lt_of_not_le h1, hes⟩⟩
    rw [hr]
    simp [bodies, entriesFrom]

@[simp] theorem length_le32 (n : Nat) : (le32 n).length = 4 := rfl

theorem length_header (h : PakHeader) : h.bytes.length = headerSize := rfl

theorem length_entriesFrom (o : Nat) (es : List FileEntry) :
    (entriesFrom o es).length = es.length := by
  induction es generalizing o with
  | nil => rfl
  | cons e es ih => exact congrArg Nat.succ (ih _)

theorem length_dirEntry {e : FileEntry} (h : e.name.length < pakNameLen) (o : Nat) :
    (dirEntry e o).bytes.length = dirEntrySize := by
  simp only [pakNameLen] at h
  simp only [PakDirEntry.bytes, dirEntry, List.length_append, List.length_replicate, length_le32,
    pakNameLen, dirEntrySize]
  omega

theorem length_dirBytes {es : List FileEntry} (h : ∀ e ∈ es, e.name.length < pakNameLen) (o : Nat) :
    (dirBytes (entriesFrom o es)).length = dirEntrySize * es.length := by
  induction es generalizing o with
  | nil => rfl
  | cons e es ih =>
    obtain ⟨he, hes⟩ := List.forall_mem_cons.mp h
    have ih := ih hes (o + e.data.length)
    unfold dirBytes at ih ⊢
    rw [entriesFrom, List.flatMap_cons, List.length_append, ih, length_dirEntry he,
      List.length_cons, Nat.mul_add, Nat.mul_one, Nat.add_comm]

/-- The archive: header, bodies and directory of the sorted files. -/
theorem packer_spec {files : List FileEntry} {pak : List UInt8} (h : packer files = some pak) :
    ∃ es, ∃ hdr : PakHeader, es = files.mergeSort nameLe ∧
      (∀ e ∈ es, e.name.length < pakNameLen) ∧
      hdr.dirOffset = headerSize + (bodies es).length ∧ hdr.dirOffset < 2 ^ 32 ∧
      hdr.dirSize = dirEntrySize * es.length ∧ hdr.dirSize < 2 ^ 32 ∧
      pak = hdr.bytes ++ bodies es ++ dirBytes (entriesFrom headerSize es) := by
  unfold packer at h
  split_ifs at h with hempty
  cases hp : packEntries (files.mergeSort nameLe) (List.replicate headerSize 0) [] with
  | none =>
    rw [hp] at h
    cases h
  | some r =>
    obtain ⟨rfl, hshort⟩ := packEntries_spec hp
    rw [hp] at h
    dsimp only at h
    split_ifs at h with h1 h2
    rw [not_not] at h1
    have hlen := Nat.mod_lt (List.replicate headerSize (0 : UInt8) ++
      bodies (files.mergeSort nameLe)).length (show 0 < 2 ^ 32 by decide)
    rw [h1] at hlen
    rw [List.nil_append, List.length_replicate, length_entriesFrom] at h h2
    refine ⟨_, ⟨headerSize + (bodies (files.mergeSort nameLe)).length,
      dirEntrySize * (files.mergeSort nameLe).length⟩, rfl, hshort, rfl, ?_, rfl, ?_, ?_⟩
    · simpa using hlen
    · dsimp only [uint32Max, dirEntrySize] at h2 ⊢
      omega
    · rw [← Option.some.inj h, h1, Nat.mod_eq_of_lt (by
        dsimp only [uint32Max, dirEntrySize] at h2 ⊢
        omega)]
      rw [splice, Nat.zero_add, length_header, List.take_zero, List.nil_append, List.append_assoc,
        List.append_assoc, List.drop_left' (by rw [List.length_replicate])]
      simp only [List.length_append, List.length_replicate, Nat.mul_comm, dirBytes]

/-- The files `es` are packed in an archive: their bytes from `o` on, their directory entries from
entry `i` on. -/
structure Packed (pak : List UInt8) (dir o i : Nat) (es : List FileEntry) : Prop where
  size : pak.length < 2 ^ 32
  short : ∀ e ∈ es, e.name.length < pakNameLen
  start : o ≤ pak.length
  body : bodies es <+: pak.drop o
  entries : dirBytes (entriesFrom o es) <+: pak.drop (dir + dirEntrySize * i)

namespace Packed

variable {pak : List UInt8} {dir o i : Nat} {e : FileEntry} {es : List FileEntry}

theorem bound (h : Packed pak dir o i (e :: es)) : o + e.data.length ≤ pak.length := by
  have hlen := h.body.length_le
  have hs := h.start
  rw [bodies, List.flatMap_cons, List.length_append, List.length_drop] at hlen
  omega

theorem tail (h : Packed pak dir o i (e :: es)) :
    Packed pak dir (o + e.data.length) (i + 1) es := by
  obtain ⟨he, hes⟩ := List.forall_mem_cons.mp h.short
  refine ⟨h.size, hes, h.bound, prefix_drop_add h.body, ?_⟩
  have hd := prefix_drop_add (s := (dirEntry e o).bytes) h.entries
  rwa [length_dirEntry he] at hd

theorem data (h : Packed pak dir o i (e :: es)) : bytesAt pak o e.data.length = .ok e.data :=
  bytesAt_of_at ((List.prefix_append _ _).trans h.body) h.start

/-- The directory entry of the first file. -/
theorem entry (h : Packed pak dir o i (e :: es)) :
    (dirEntry e o).bytes <+: pak.drop (dir + dirEntrySize * i) :=
  (List.prefix_append _ _).trans h.entries

/-- Its name, with a NUL after it. -/
theorem name (h : Packed pak dir o i (e :: es)) :
    ∃ rest, e.name ++ 0 :: rest <+: pak.drop (dir + dirEntrySize * i) := by
  have hlen := h.short e List.mem_cons_self
  obtain ⟨k, hk⟩ := Nat.exists_eq_add_one_of_ne_zero (Nat.sub_ne_zero_of_lt hlen)
  refine ⟨List.replicate k 0 ++ le32 (dirEntry e o).offset ++ le32 (dirEntry e o).size, ?_⟩
  have he := h.entry
  simpa only [PakDirEntry.bytes, dirEntry, hk, List.replicate_succ, List.append_assoc,
    List.cons_append] using he

theorem entryAt_eq (h : Packed pak dir o i (e :: es)) :
    entryAt pak dir i = .ok (o, e.data.length, true) := by
  have hlen := h.short e List.mem_cons_self
  have hb := h.bound
  have hs := h.size
  have he := h.entry
  rw [PakDirEntry.bytes, List.append_assoc] at he
  have hw := prefix_drop_add he
  have hn : (dirEntry e o).name.length = pakNameLen := by
    simp only [dirEntry, List.length_append, List.length_replicate]
    omega
  rw [hn] at hw
  have ho : word32At pak (dir + dirEntrySize * i + pakNameLen) = .ok o := by
    have := (List.prefix_append _ _).trans hw
    rw [dirEntry, Nat.mod_eq_of_lt (by omega)] at this
    exact word32At_of_at this (by omega)
  have hz : word32At pak (dir + dirEntrySize * i + pakNameLen + 4) = .ok e.data.length := by
    have := prefix_drop_add hw
    rw [dirEntry, Nat.mod_eq_of_lt (a := e.data.length) (by omega)] at this
    exact word32At_of_at this (by omega)
  have hin : o ≤ pakSize pak ∧ e.data.length ≤ pakSize pak - o := by
    rw [pakSize, Nat.mod_eq_of_lt hs]
    omega
  rw [entryAt, ho, hz]
  exact congrArg (fun b => Except.ok (o, e.data.length, b)) (decide_eq_true hin)

theorem cstrAt_eq (h : Packed pak dir o i (e :: es)) :
    cstrAt pak (dir + dirEntrySize * i) = .ok e.name := by
  obtain ⟨rest, hr⟩ := h.name
  exact cstr_of_at hr e.noNul

theorem checkNames_eq (h : Packed pak dir o i es) : checkNames pak dir i es.length = .ok () := by
  induction es generalizing o i with
  | nil => rfl
  | cons e es ih =>
    obtain ⟨rest, hr⟩ := h.name
    rw [List.length_cons, checkNames,
      terminated_of_at hr (h.short e List.mem_cons_self)]
    exact ih h.tail

end Packed

/-- A file that is not a boot image. -/
def plain (e : FileEntry) : Bool := decide (e.name ≠ bootName ∧ e.name ≠ coreName)

/-- The path that a file is extracted to. -/
def path (e : FileEntry) : List UInt8 := chars "0:" ++ e.name

theorem writeFile_ok (disk : Disk) {pak : List UInt8} (i : Nat) (path : List UInt8)
    {offset size : Nat} (x : Extraction) {data : List UInt8}
    (h : bytesAt pak offset size = .ok data) :
    ∃ x', writeFile disk pak i path offset size x = .ok x' ∧ x'.lookups = x.lookups := by
  unfold writeFile
  split
  · exact ⟨_, rfl, rfl⟩
  · rw [h]
    dsimp only [bind, Except.bind]
    split <;> exact ⟨_, rfl, rfl⟩

/-- The extraction looks up the path and the bytes of each file that is not a boot image. -/
theorem Packed.extractFiles_eq {pak : List UInt8} {dir o i : Nat} {es : List FileEntry}
    (disk : Disk) (h : Packed pak dir o i es) (x : Extraction) :
    ∃ x' ls, extractFiles disk pak dir i es.length x = .ok x' ∧ x'.lookups = x.lookups ++ ls ∧
      (ls.map fun l => (l.1, bytesAt pak l.2.1 l.2.2)) =
        (es.filter plain).map fun e => (path e, .ok e.data) := by
  induction es generalizing o i x with
  | nil => exact ⟨x, [], rfl, (List.append_nil _).symm, rfl⟩
  | cons e es ih =>
    have hlen := h.short e List.mem_cons_self
    have hstep : extractFiles disk pak dir i (es.length + 1) x =
        if e.name = bootName ∨ e.name = coreName then
          extractFiles disk pak dir (i + 1) es.length { x with skipped := x.skipped + 1 }
        else
          (writeFile disk pak i (path e) o e.data.length
            { x with lookups := x.lookups ++ [(path e, o, e.data.length)] }) >>=
              extractFiles disk pak dir (i + 1) es.length := by
      rw [extractFiles, h.entryAt_eq]
      dsimp only [bind, Except.bind]
      rw [if_neg (by simp), h.cstrAt_eq]
      have hshort : ¬ 128 < e.name.length + 2 := by
        dsimp only [pakNameLen] at hlen
        omega
      dsimp only
      rw [if_neg hshort]
      rfl
    rw [List.length_cons, hstep]
    by_cases hp : e.name = bootName ∨ e.name = coreName
    · have hpl : plain e = false := decide_eq_false fun hn => hp.elim hn.1 hn.2
      rw [if_pos hp, List.filter_cons_of_neg (Bool.eq_false_iff.mp hpl)]
      exact ih h.tail _
    · have hpl : plain e = true := decide_eq_true ⟨fun hb => hp (.inl hb), fun hc => hp (.inr hc)⟩
      obtain ⟨x1, hx1, hl1⟩ := writeFile_ok disk i (path e)
        { x with lookups := x.lookups ++ [(path e, o, e.data.length)] } h.data
      obtain ⟨x2, ls, hx2, hl2, hm⟩ := ih h.tail x1
      refine ⟨x2, (path e, o, e.data.length) :: ls, ?_, ?_, ?_⟩
      · rw [if_neg hp, hx1]
        exact hx2
      · rw [hl2, hl1, List.append_assoc, List.singleton_append]
      · rw [List.filter_cons_of_pos hpl, List.map_cons, List.map_cons, hm, h.data]

theorem Packed.entryAt_inside {pak : List UInt8} {dir o i : Nat} {es : List FileEntry}
    (h : Packed pak dir o i es) {k : Nat} (h1 : i ≤ k) (h2 : k < i + es.length) :
    ∃ offset size, entryAt pak dir k = .ok (offset, size, true) := by
  induction es generalizing o i with
  | nil => exact absurd h2 (by simp; omega)
  | cons e es ih =>
    by_cases hk : k = i
    · exact ⟨_, _, hk ▸ h.entryAt_eq⟩
    · rw [List.length_cons] at h2
      exact ih h.tail (by omega) (by omega)

theorem haltIf_of_not {c : Prop} [Decidable c] (h : ¬ c) (stop : Stop) : haltIf c stop = .ok () :=
  if_neg h

/-- The archive of the packer, with the sorted files in it. -/
theorem packed_packer {files : List FileEntry} {pak : List UInt8} (h : packer files = some pak)
    (hlt : pak.length < 2 ^ 32) :
    ∃ dir, readHeader pak = .ok (dir, files.length) ∧
      Packed pak dir headerSize 0 (files.mergeSort nameLe) := by
  obtain ⟨es, hdr, rfl, hshort, hoff, hofflt, hsize, hsizelt, hpak⟩ := packer_spec h
  have hlen : pak.length = headerSize + (bodies (files.mergeSort nameLe)).length +
      dirEntrySize * (files.mergeSort nameLe).length := by
    rw [hpak, List.length_append, List.length_append, length_header, length_dirBytes hshort]
  have hheader : hdr.bytes <+: pak.drop 0 := by
    rw [hpak, List.append_assoc]
    exact List.prefix_append _ _
  rw [PakHeader.bytes, List.append_assoc] at hheader
  have hmagic : bytesAt pak 0 4 = .ok (chars "PACK") :=
    bytesAt_of_at ((List.prefix_append _ _).trans hheader) (Nat.zero_le _)
  have hwords := prefix_drop_add hheader
  have ho : word32At pak 4 = .ok hdr.dirOffset :=
    word32At_of_at ((List.prefix_append _ _).trans hwords) hofflt
  have hs : word32At pak 8 = .ok hdr.dirSize :=
    word32At_of_at (prefix_drop_add hwords) hsizelt
  have hps : pakSize pak = pak.length := Nat.mod_eq_of_lt hlt
  refine ⟨hdr.dirOffset, ?_, hlt, hshort, ?_, ?_, ?_⟩
  · have hbig : ¬ pakSize pak < headerSize := by omega
    have hdir : ¬ (pakSize pak < hdr.dirOffset ∨ pakSize pak - hdr.dirOffset < hdr.dirSize ∨
        hdr.dirSize % dirEntrySize ≠ 0) := by
      rw [hsize, Nat.mul_mod_right]
      omega
    rw [readHeader, hmagic, ho, hs, haltIf_of_not hbig]
    dsimp only [bind, Except.bind]
    rw [haltIf_of_not (not_not.mpr rfl)]
    dsimp only
    rw [haltIf_of_not hdir, hsize, Nat.mul_div_cancel_left _ (by decide),
      (List.mergeSort_perm files nameLe).length_eq]
    rfl
  · omega
  · rw [hpak, List.append_assoc, List.drop_left' (length_header hdr)]
    exact List.prefix_append _ _
  · rw [hoff, Nat.mul_zero, Nat.add_zero, hpak,
      List.drop_left' (by rw [List.length_append, length_header])]

/-- An archive of the packer below 4 GiB is accepted, and the paths and bytes that the extraction
looks up are those of the files other than the boot images. Whatever the archive, no byte outside it
is read. -/
theorem archive_ok :
    (∀ files pak, (files.map (·.name)).Nodup → packer files = some pak → pak.length < 2 ^ 32 →
      ∃ dir, validate pak = .ok (dir, files.length) ∧
        (∀ i < files.length, ∃ offset size, entryAt pak dir i = .ok (offset, size, true)) ∧
        ∀ disk, ∃ x, extractFiles disk pak dir 0 files.length ⟨[], [], 0, 0⟩ = .ok x ∧
          (x.lookups.map (·.1)).Nodup ∧
          (x.lookups.map fun l => (l.1, bytesAt pak l.2.1 l.2.2)).Perm
            ((files.filter plain).map fun f => (path f, .ok f.data))) ∧
      ∀ disk pak, kernelMain disk pak ≠ .error .outside := by
  refine ⟨fun files pak hnd hp hlt => ?_, fun disk pak => (kernelMain_inside disk pak).ne⟩
  obtain ⟨dir, hh, hpk⟩ := packed_packer hp hlt
  have hperm := List.mergeSort_perm files nameLe
  have hn : (files.mergeSort nameLe).length = files.length := hperm.length_eq
  refine ⟨dir, ?_, fun i hi => hpk.entryAt_inside (Nat.zero_le i) (by omega), fun disk => ?_⟩
  · rw [validate, hh]
    dsimp only [bind, Except.bind]
    rw [← hn, hpk.checkNames_eq]
    rfl
  · obtain ⟨x, ls, hx, hl, hm⟩ := hpk.extractFiles_eq disk ⟨[], [], 0, 0⟩
    rw [hn] at hx
    rw [List.nil_append] at hl
    refine ⟨x, hx, ?_, ?_⟩
    · have hpaths := congrArg (List.map Prod.fst) hm
      rw [List.map_map, List.map_map] at hpaths
      have hnames := (((hperm.filter plain).map (·.name)).nodup_iff.mpr
        (hnd.sublist (List.filter_sublist.map _))).map (List.append_right_injective (chars "0:"))
      rw [List.map_map] at hnames
      rw [hl]
      exact hpaths ▸ hnames
    · rw [hl, hm]
      exact (hperm.filter plain).map _

/-- One file of two bytes. -/
def oneFile : FileEntry := ⟨chars "a", [1, 2], by decide⟩

theorem packer_oneFile :
    packer [oneFile] = some (chars "PACK" ++ le32 14 ++ le32 64 ++ [1, 2] ++
      (chars "a" ++ List.replicate 55 0 ++ le32 12 ++ le32 2)) := by
  unfold packer
  rw [List.mergeSort_singleton]
  rfl

theorem archive_ok_oneFile :
    ∃ pak dir, validate pak = .ok (dir, 1) ∧ ∀ disk, ∃ x,
      extractFiles disk pak dir 0 1 ⟨[], [], 0, 0⟩ = .ok x ∧
        (x.lookups.map fun l => (l.1, bytesAt pak l.2.1 l.2.2)).Perm
          [(chars "0:a", .ok [1, 2])] := by
  obtain ⟨dir, hv, -, hx⟩ := archive_ok.1 [oneFile] _ (List.nodup_singleton _) packer_oneFile
    (by decide)
  refine ⟨_, dir, hv, fun disk => ?_⟩
  obtain ⟨x, h1, -, h2⟩ := hx disk
  exact ⟨x, h1, h2⟩

end Pak
end Hashx86
