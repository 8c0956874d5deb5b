import Hashx86.Fs.Readdir
import Hashx86.Lib.Run

/-!
# `sys_getdents` (`core/syscalls.cpp`)

The handler reads a buffer of kernel records and repacks them, one by one, into the records of the
caller. `kmalloc` and `CopyToUser` may fail at each of them.

* `getdentsLoop_spec`: the loop delivers the entries of a part of the buffer, and stops at a name
  that does not fit or that a failure hits.
* `Delivered`: the position is behind the entries that were delivered. `getdents_delivers`: each
  call keeps it, and what it returns.
* `getdents_run`: any run of calls lists the entries in order, each once, and returns 0 only at the
  end; a call that meets no failure returns 0 or delivers an entry.
-/

namespace Hashx86
namespace Getdents

open Lib Fs

/-! ## The handler -/

/-- A `linux_dirent` with its name, to a multiple of 4. -/
def userReclen (nameLen : Nat) : Nat := (12 + nameLen + 1 + 3) / 4 * 4

/-- The record for the caller; `d_name` is at offset 10, and what follows the name is zero. -/
def userDirent (dIno dOff : Nat) (name : List UInt8) : List UInt8 :=
  let reclen := userReclen name.length
  toBytes 4 dIno ++ (toBytes 4 dOff ++ (toBytes 2 reclen ++
    (name ++ List.replicate (reclen - (10 + name.length)) 0)))

/-- What `kmalloc` and `CopyToUser` answer for the record at an offset of the buffer. -/
structure Answers where
  kmalloc : Nat → Bool
  copyToUser : Nat → Bool

/-- The test for entries that are not listed. -/
def isSkipped (name : List UInt8) : Bool :=
  name.length = 0 || (name[0]? = some 0x2E && (name.length = 1 ||
    (name[1]? = some 0x2E && name.length = 2)))

/-- The loop of `Handle_sys_getdents`: `rest` is the buffer from `bufOff` on, and `out` the bytes
copied so far. With them comes the offset at which a record was given up, if one was. -/
def getdentsLoop (a : Answers) (count dOff : Nat) (rest : List UInt8) (bufOff : Nat)
    (out : List UInt8) : List UInt8 × Option Nat :=
  if _h : rest.length < 7 then (out, none)
  else
    let reclen := field rest 4 2
    if _h : reclen < 8 ∨ rest.length < reclen then (out, none)
    else
      let payload := (rest.drop 7).take (reclen - 7)
      let name := payload.takeWhile (· ≠ 0)
      if isSkipped name then
        getdentsLoop a count dOff (rest.drop reclen) (bufOff + reclen) out
      else if count < out.length + userReclen name.length then (out, some bufOff)
      else if !a.kmalloc bufOff then (out, some bufOff)
      else if !a.copyToUser bufOff then (out, some bufOff)
      else
        getdentsLoop a count dOff (rest.drop reclen) (bufOff + reclen)
          (out ++ userDirent (field rest 0 4) dOff name)
termination_by rest.length
decreasing_by all_goals rw [List.length_drop]; omega

/-- A call, with what the kernel stack held where the buffer is. -/
structure Call where
  fd : Nat
  dirp : Nat
  count : Nat
  junk : Nat → UInt8
  answers : Answers

/-- `Handle_sys_getdents` on the handle of `fd`: the result, the bytes copied to `dirp`, and the
handle. -/
def handleSysGetdents (f : DirFile) (c : Call) : Int × List UInt8 × DirFile :=
  if c.fd ≤ 2 ∨ c.dirp = 0 ∨ c.count = 0 then (-1, [], f)
  else if f.flags % 2 = 0 then (-1, [], f)
  else
    let (buffer, f) := f.read c.junk 512
    if buffer = [] then (0, [], f)
    else match getdentsLoop c.answers c.count f.position buffer 0 [] with
      | (out, none) => (toInt32 out.length, out, f)
      | (out, some bufOff) =>
        (if out = [] then -1 else toInt32 out.length, out,
          { f with position := sub32 f.position (buffer.length - bufOff) })

/-! ## The records of the caller -/

/-- The names in a sequence of well-formed records: each is within what is left, a multiple of 4
long, and has its name with a NUL behind the header. -/
def parseDirents (bytes : List UInt8) : Option (List (List UInt8)) :=
  if _h : bytes = [] then some []
  else
    let reclen := field bytes 8 2
    if _h : reclen < 12 ∨ bytes.length < reclen ∨ reclen % 4 ≠ 0 then none
    else
      let payload := (bytes.drop 10).take (reclen - 10)
      let name := payload.takeWhile (· ≠ 0)
      if name.length = payload.length then none
      else (parseDirents (bytes.drop reclen)).map (name :: ·)
termination_by bytes.length
decreasing_by
  rw [List.length_drop]
  omega

theorem takeWhile_name {name tail : List UInt8} (h : (0 : UInt8) ∉ name) :
    (name ++ 0 :: tail).takeWhile (· ≠ 0) = name := by
  rw [List.takeWhile_append_of_pos]
  · simp
  · intro b hb
    exact decide_eq_true fun h0 => h (h0 ▸ hb)

variable {name rest : List UInt8} {dIno dOff : Nat}

theorem userReclen_bounds (hfits : name.length ≤ 255) :
    10 + name.length + 1 ≤ userReclen name.length ∧ 12 ≤ userReclen name.length ∧
      userReclen name.length ≤ 268 ∧ userReclen name.length % 4 = 0 := by
  unfold userReclen
  omega

theorem length_userDirent (hfits : name.length ≤ 255) :
    (userDirent dIno dOff name).length = userReclen name.length := by
  have := userReclen_bounds hfits
  simp [userDirent]
  omega

/-- What a reader finds behind a header of `k` bytes. -/
theorem payload_append {header body rest : List UInt8} {k r : Nat} (hk : header.length = k)
    (hr : r = k + body.length) : ((header ++ (body ++ rest)).drop k).take (r - k) = body := by
  rw [List.drop_left' hk, List.take_left' (by omega)]

/-- A record is read back, and the rest after it. -/
theorem parseDirents_cons (hnul : (0 : UInt8) ∉ name) (hfits : name.length ≤ 255) :
    parseDirents (userDirent dIno dOff name ++ rest) = (parseDirents rest).map (name :: ·) := by
  have hbounds := userReclen_bounds hfits
  have hlen : (userDirent dIno dOff name).length = userReclen name.length :=
    length_userDirent hfits
  obtain ⟨r, hr⟩ : ∃ r, r = userReclen name.length := ⟨_, rfl⟩
  obtain ⟨tail, htail⟩ : ∃ tail : List UInt8, List.replicate (r - (10 + name.length)) 0 = 0 :: tail :=
    ⟨List.replicate (r - (10 + name.length) - 1) 0, by
      rw [← List.replicate_succ]
      congr 1
      omega⟩
  have hbytes : userDirent dIno dOff name ++ rest = (toBytes 4 dIno ++ toBytes 4 dOff) ++
      (toBytes 2 r ++ (name ++ 0 :: tail ++ rest)) := by
    unfold userDirent
    dsimp only
    rw [← hr, htail]
    simp only [List.append_assoc]
  have hfield : field (userDirent dIno dOff name ++ rest) 8 2 = r := by
    rw [hbytes]
    exact field_append (by simp) (by omega)
  have hpayload : ((userDirent dIno dOff name ++ rest).drop 10).take (r - 10) = name ++ 0 :: tail := by
    rw [hbytes, ← List.append_assoc _ (toBytes 2 r)]
    refine payload_append (by simp) ?_
    have hcut := congrArg List.length htail
    rw [List.length_replicate, List.length_cons] at hcut
    rw [List.length_append, List.length_cons]
    omega
  have hdrop : (userDirent dIno dOff name ++ rest).drop r = rest := List.drop_left' (hlen.trans hr.symm)
  rw [parseDirents, dif_neg (fun h => by
    have := congrArg List.length h
    rw [List.length_append, hlen, List.length_nil] at this
    omega)]
  dsimp only
  rw [hfield, dif_neg (by rw [List.length_append, hlen]; omega), hpayload, takeWhile_name hnul,
    if_neg (by rw [List.length_append, List.length_cons]; omega), hdrop]

theorem parseDirents_nil : parseDirents [] = some [] := by
  rw [parseDirents]
  exact dif_pos rfl

/-! ## The loop -/

theorem isSkipped_eq (e : FilInfo) : isSkipped e.fname = isDots e.fname := by
  have hne := e.ne_nil
  unfold isSkipped isDots
  match e.fname, hne with
  | [a], _ => simp
  | [a, b], _ => simp
  | _ :: _ :: _ :: _, _ => simp

/-- The entries that are listed. -/
def visible (es : List FilInfo) : List FilInfo := es.filter fun e => !isDots e.fname

/-- The records of entries for the caller. -/
def userRecords (dOff : Nat) (es : List FilInfo) : List UInt8 :=
  (visible es).flatMap fun e => userDirent 0 dOff e.fname

theorem parseDirents_userRecords (dOff : Nat) (es : List FilInfo) :
    parseDirents (userRecords dOff es) = some ((visible es).map FilInfo.fname) := by
  unfold userRecords
  induction visible es with
  | nil => exact parseDirents_nil
  | cons e es ih =>
    rw [List.flatMap_cons, parseDirents_cons e.noNul e.fits, ih]
    rfl

/-- A round of the loop at a record of the buffer. -/
theorem getdentsLoop_record (a : Answers) (count dOff : Nat) (junk : Nat → UInt8) (total : Nat)
    (e : FilInfo) (rest : List UInt8) (bufOff : Nat) (out : List UInt8) :
    getdentsLoop a count dOff (kernelDirent junk total e ++ rest) bufOff out =
      if isDots e.fname then
        getdentsLoop a count dOff rest (bufOff + kernelReclen e.fname.length) out
      else if count < out.length + userReclen e.fname.length ∨ a.kmalloc bufOff = false ∨
          a.copyToUser bufOff = false then (out, some bufOff)
      else getdentsLoop a count dOff rest (bufOff + kernelReclen e.fname.length)
        (out ++ userDirent 0 dOff e.fname) := by
  have hbounds := kernelReclen_bounds e
  have hlen := length_kernelDirent junk total e
  obtain ⟨r, hr⟩ : ∃ r, r = kernelReclen e.fname.length := ⟨_, rfl⟩
  obtain ⟨tail, htail⟩ : ∃ tail : List UInt8,
      tail = (List.range' (total + (7 + e.fname.length + 1)) (r - (7 + e.fname.length + 1))).map junk :=
    ⟨_, rfl⟩
  obtain ⟨type, htype⟩ : ∃ type, type = toBytes 1 (if e.isDir then 1 else 0) := ⟨_, rfl⟩
  have hbytes : kernelDirent junk total e ++ rest =
      toBytes 4 0 ++ (toBytes 2 r ++ (type ++ (e.fname ++ 0 :: tail ++ rest))) := by
    unfold kernelDirent
    dsimp only
    rw [← hr, ← htail, ← htype]
    simp only [List.append_assoc, List.cons_append]
  have hino : field (kernelDirent junk total e ++ rest) 0 4 = 0 := by
    rw [hbytes]
    exact field_head
  have hfield : field (kernelDirent junk total e ++ rest) 4 2 = r := by
    rw [hbytes]
    exact field_append (by simp) (by omega)
  have hpayload : ((kernelDirent junk total e ++ rest).drop 7).take (r - 7) = e.fname ++ 0 :: tail := by
    rw [hbytes, ← List.append_assoc _ type, ← List.append_assoc]
    refine payload_append (by rw [htype]; simp) ?_
    rw [List.length_append, List.length_cons, htail, List.length_map, List.length_range']
    omega
  have hdrop : (kernelDirent junk total e ++ rest).drop r = rest :=
    List.drop_left' (hlen.trans hr.symm)
  have hlenr : (kernelDirent junk total e ++ rest).length = r + rest.length := by
    rw [List.length_append, hlen, hr]
  rw [getdentsLoop, dif_neg (by omega)]
  dsimp only
  rw [hfield, dif_neg (by omega), hpayload, takeWhile_name e.noNul, isSkipped_eq, hdrop, hino, ← hr]
  by_cases hdots : isDots e.fname = true
  · rw [if_pos hdots, if_pos hdots]
  · rw [if_neg hdots, if_neg hdots]
    by_cases hfull : count < out.length + userReclen e.fname.length
    · rw [if_pos hfull, if_pos (Or.inl hfull)]
    rw [if_neg hfull]
    cases hk : a.kmalloc bufOff <;> cases hc : a.copyToUser bufOff <;> simp [hfull]

/-- The record of an entry is given up: it does not fit, or a call fails. -/
def Refused (a : Answers) (count written bufOff : Nat) (e : FilInfo) : Prop :=
  count < written + userReclen e.fname.length ∨ a.kmalloc bufOff = false ∨
    a.copyToUser bufOff = false

theorem userRecords_cons (dOff : Nat) (e : FilInfo) (es : List FilInfo) :
    userRecords dOff (e :: es) =
      if isDots e.fname then userRecords dOff es
      else userDirent 0 dOff e.fname ++ userRecords dOff es := by
  unfold userRecords visible
  cases h : isDots e.fname <;> simp [h]

/-- The loop delivers the entries up to one that it gives up, if there is one. -/
theorem getdentsLoop_spec (a : Answers) (count dOff : Nat) (junk : Nat → UInt8) (es : List FilInfo) :
    ∀ (total bufOff : Nat) (out : List UInt8), ∃ es₁ es₂ stop, es = es₁ ++ es₂ ∧
      getdentsLoop a count dOff (records junk total es) bufOff out =
        (out ++ userRecords dOff es₁, stop) ∧
      (stop = none ∧ es₂ = [] ∨ ∃ e es', es₂ = e :: es' ∧ isDots e.fname = false ∧
        stop = some (bufOff + recordBytes es₁) ∧
        Refused a count (out ++ userRecords dOff es₁).length (bufOff + recordBytes es₁) e) := by
  induction es with
  | nil =>
    intro total bufOff out
    refine ⟨[], [], none, rfl, ?_, .inl ⟨rfl, rfl⟩⟩
    rw [getdentsLoop]
    exact (dif_pos (Nat.succ_pos 6)).trans (Prod.ext (List.append_nil out).symm rfl)
  | cons e es ih =>
    intro total bufOff out
    obtain ⟨total', htotal⟩ : ∃ t, t = total + kernelReclen e.fname.length := ⟨_, rfl⟩
    rw [records, getdentsLoop_record, ← htotal]
    by_cases hdots : isDots e.fname = true
    · rw [if_pos hdots]
      obtain ⟨es₁, es₂, stop, rfl, hrun, hstop⟩ :=
        ih total' (bufOff + kernelReclen e.fname.length) out
      have hsame : userRecords dOff (e :: es₁) = userRecords dOff es₁ := by
        rw [userRecords_cons, if_pos hdots]
      refine ⟨e :: es₁, es₂, stop, rfl, by rw [hrun, hsame], ?_⟩
      rwa [hsame, recordBytes_cons, ← Nat.add_assoc]
    rw [if_neg hdots]
    by_cases href : count < out.length + userReclen e.fname.length ∨ a.kmalloc bufOff = false ∨
        a.copyToUser bufOff = false
    · refine ⟨[], e :: es, some bufOff, rfl, ?_, .inr ⟨e, es, rfl, ?_, rfl, ?_⟩⟩
      · rw [if_pos href]
        exact Prod.ext (List.append_nil out).symm rfl
      · simpa using hdots
      · rw [show userRecords dOff [] = [] from rfl, List.append_nil]
        exact href
    · rw [if_neg href]
      obtain ⟨es₁, es₂, stop, rfl, hrun, hstop⟩ :=
        ih total' (bufOff + kernelReclen e.fname.length) (out ++ userDirent 0 dOff e.fname)
      have hmore : out ++ userRecords dOff (e :: es₁) =
          out ++ userDirent 0 dOff e.fname ++ userRecords dOff es₁ := by
        rw [userRecords_cons, if_neg hdots, List.append_assoc]
      refine ⟨e :: es₁, es₂, stop, rfl, by rw [hrun, hmore], ?_⟩
      rwa [hmore, recordBytes_cons, ← Nat.add_assoc]

/-! ## One call -/

/-- The handle is behind the entries `es`, and `es'` are left. -/
structure Delivered (f : DirFile) (es es' : List FilInfo) : Prop where
  listing : f.listing.entries = es ++ es'
  position : f.position = recordBytes es
  flags : f.flags = 1
  access : f.openFlags = oRdonly

theorem delivered_openListing (l : Listing) : Delivered (openListing l) [] l.entries := ⟨rfl, rfl, rfl, rfl⟩

/-- `File::Read` into the buffer of the handler. -/
theorem read_spec {f : DirFile} {es es' : List FilInfo} (h : Delivered f es es') (junk : Nat → UInt8) :
    ∃ batch later f', es' = batch ++ later ∧ f.read junk 512 = (records junk 0 batch, f') ∧
      Delivered f' (es ++ batch) later ∧ f'.listing = f.listing ∧ recordBytes batch ≤ 512 ∧
      ∀ e es'', later = e :: es'' → 512 < recordBytes batch + kernelReclen e.fname.length := by
  have hlt := f.listing.recordBytes_lt h.listing
  have hskip : skipTo f.position 0 f.listing.entries = es' := by
    rw [h.listing, h.position, ← Nat.zero_add (recordBytes es)]
    exact skipTo_boundary es es' 0 (by omega)
  obtain ⟨batch, later, rfl, hbytes, hle, hnext⟩ := fill_spec junk 512 es' 0 (Nat.zero_le _)
  rw [Nat.zero_add] at hle
  rw [recordBytes_append] at hlt
  have hread : f.isReadable = true := by
    unfold DirFile.isReadable
    rw [h.access]
    decide
  refine ⟨batch, later,
    { f with position := recordBytes (es ++ batch), left := (fill junk 512 0 (batch ++ later)).2 },
    rfl, ?_, ⟨by rw [h.listing, List.append_assoc], rfl, h.flags, h.access⟩, rfl, hle,
    fun e es'' he => ?_⟩
  · unfold DirFile.read DirFile.readStream
    rw [hskip, hread, if_neg (by decide)]
    dsimp only
    rw [hbytes, length_records, h.position, Nat.mod_eq_of_lt (by omega), recordBytes_append]
  · have := hnext e es'' he
    omega

/-- The position is set back behind a part of the entries. -/
theorem Delivered.back {f : DirFile} {es es₁ es₂ later : List FilInfo}
    (h : Delivered f (es ++ (es₁ ++ es₂)) later) :
    Delivered { f with position := sub32 f.position (recordBytes (es₁ ++ es₂) - recordBytes es₁) }
      (es ++ es₁) (es₂ ++ later) := by
  refine ⟨?_, ?_, h.flags, h.access⟩
  · rw [h.listing]
    simp only [List.append_assoc]
  · dsimp only
    rw [h.position]
    simp only [recordBytes_append]
    rw [sub32_eq (by omega)]
    omega

theorem visible_append (es es' : List FilInfo) : visible (es ++ es') = visible es ++ visible es' :=
  List.filter_append ..

/-- The records of the caller are at most twice as long as those of the kernel. -/
theorem length_userRecords_le (dOff : Nat) (es : List FilInfo) :
    (userRecords dOff es).length ≤ 2 * recordBytes es := by
  induction es with
  | nil => exact Nat.le_refl _
  | cons e es ih =>
    have hpos := List.length_pos_of_ne_nil e.ne_nil
    rw [userRecords_cons, recordBytes_cons]
    split
    · omega
    · rw [List.length_append, length_userDirent e.fits]
      unfold userReclen kernelReclen
      omega

theorem userRecords_eq_nil {dOff : Nat} {es : List FilInfo} (h : userRecords dOff es = []) :
    visible es = [] := by
  have hparse := parseDirents_userRecords dOff es
  rw [h, parseDirents_nil] at hparse
  exact List.map_eq_nil_iff.mp (Option.some.inj hparse).symm

/-- At most two entries are not listed. -/
theorem length_le_of_visible (l : Listing) {es es' es'' : List FilInfo}
    (h : l.entries = es ++ (es' ++ es'')) (hv : visible es' = []) : es'.length ≤ 2 := by
  have hall : ∀ e ∈ es', isDots e.fname = true := fun e he => by
    simpa using List.filter_eq_nil_iff.mp hv e he
  have hnodup : ((es'.map FilInfo.fname).filter isDots).Nodup := by
    have hdots := l.dots
    rw [h, List.map_append, List.map_append, List.filter_append, List.filter_append] at hdots
    exact (List.nodup_append.mp (List.nodup_append.mp hdots).2.1).1
  have hkeep : (es'.map FilInfo.fname).filter isDots = es'.map FilInfo.fname :=
    List.filter_eq_self.mpr fun name hname => by
      obtain ⟨e, he, rfl⟩ := List.mem_map.mp hname
      exact hall e he
  rw [hkeep] at hnodup
  have hsub : es'.map FilInfo.fname ⊆ [[0x2E], [0x2E, 0x2E]] := fun name hname => by
    obtain ⟨e, he, rfl⟩ := List.mem_map.mp hname
    simpa [isDots] using hall e he
  have := (List.subperm_of_subset hnodup hsub).length_le
  rwa [List.length_map] at this

/-- Entries that are not listed have the shortest records. -/
theorem recordBytes_of_visible {es : List FilInfo} (h : visible es = []) :
    recordBytes es = 12 * es.length := by
  induction es with
  | nil => rfl
  | cons e es ih =>
    have hall := List.filter_eq_nil_iff.mp h
    have hdots : isDots e.fname = true := by simpa using hall e List.mem_cons_self
    have hlen : kernelReclen e.fname.length = 12 := by
      rcases of_decide_eq_true hdots with hname | hname <;> rw [hname] <;> rfl
    rw [recordBytes_cons, hlen, ih (List.filter_eq_nil_iff.mpr fun x hx =>
      hall x (List.mem_cons_of_mem _ hx)), List.length_cons]
    omega

/-- A call that meets no failure, with room for each entry. -/
structure Met (l : Listing) (c : Call) : Prop where
  valid : 2 < c.fd ∧ c.dirp ≠ 0 ∧ c.count ≠ 0
  room : ∀ e ∈ visible l.entries, userReclen e.fname.length ≤ c.count
  kmalloc : ∀ bufOff, c.answers.kmalloc bufOff = true
  copyToUser : ∀ bufOff, c.answers.copyToUser bufOff = true

/-- A call with the result `r` delivers the entries `es₁`, with `es` before it and `es₂` left after
it. -/
structure Step (l : Listing) (c : Call) (r : Int × List UInt8 × DirFile) (es es₁ es₂ : List FilInfo) :
    Prop where
  delivered : Delivered r.2.2 (es ++ es₁) es₂
  listing : r.2.2.listing = l
  records : parseDirents r.2.1 = some ((visible es₁).map FilInfo.fname)
  length : r.1 = -1 ∧ r.2.1 = [] ∨ r.1 = r.2.1.length
  zero : r.1 = 0 → visible (es₁ ++ es₂) = []
  progress : Met l c → r.1 = 0 ∨ 0 < r.1 ∧ visible es₁ ≠ []

theorem step_refused {f : DirFile} {es rest : List FilInfo} (h : Delivered f es rest) {c : Call}
    (hm : ¬ Met f.listing c) : Step f.listing c (-1, [], f) es [] rest where
  delivered := by rwa [List.append_nil]
  listing := rfl
  records := parseDirents_nil
  length := .inl ⟨rfl, rfl⟩
  zero := nofun
  progress hmet := absurd hmet hm

/-- A buffer without a record: nothing is left. -/
theorem step_end {l : Listing} {f : DirFile} {es : List FilInfo} (h : Delivered f es [])
    (hl : f.listing = l) (c : Call) : Step l c (0, [], f) es [] [] where
  delivered := by rwa [List.append_nil]
  listing := hl
  records := parseDirents_nil
  length := .inr rfl
  zero _ := rfl
  progress _ := .inl rfl

/-- Every record of the buffer was delivered. -/
theorem step_all {l : Listing} {f : DirFile} {es batch later : List FilInfo} (c : Call) (dOff : Nat)
    (h : Delivered f (es ++ batch) later) (hl : f.listing = l) (hle : recordBytes batch ≤ 512)
    (hnext : ∀ e es'', later = e :: es'' → 512 < recordBytes batch + kernelReclen e.fname.length) :
    Step l c (toInt32 (userRecords dOff batch).length, userRecords dOff batch, f) es batch
      later := by
  have hlen := length_userRecords_le dOff batch
  rw [toInt32_of_lt (by omega)]
  subst hl
  refine ⟨h, rfl, parseDirents_userRecords dOff batch, .inr rfl, fun h0 => ?_, fun _ => ?_⟩
  · have hnone := userRecords_eq_nil (List.eq_nil_of_length_eq_zero (Int.ofNat_eq_zero.mp h0))
    have htwo := length_le_of_visible f.listing (by rw [h.listing, List.append_assoc]) hnone
    -- After two short records any other fits as well.
    have hlater : later = [] := by
      cases later with
      | nil => rfl
      | cons e es'' =>
        have hbig := hnext e es'' rfl
        have hbounds := kernelReclen_bounds e
        rw [recordBytes_of_visible hnone] at hbig
        omega
    rw [hlater, List.append_nil, hnone]
  · by_cases hnone : userRecords dOff batch = []
    · exact .inl (by rw [hnone]; rfl)
    · refine .inr ⟨Int.natCast_pos.mpr (List.length_pos_of_ne_nil hnone), fun hv => hnone ?_⟩
      unfold userRecords
      rw [hv]
      rfl

/-- A record was given up, and the position is set back to it. -/
theorem step_part {l : Listing} {f : DirFile} {es es₁ es' later : List FilInfo} {e : FilInfo}
    {c : Call} (dOff : Nat) (h : Delivered f (es ++ es₁) (e :: es' ++ later)) (hl : f.listing = l)
    (hle : recordBytes es₁ ≤ 512) {bufOff : Nat}
    (hdots : isDots e.fname = false)
    (href : Refused c.answers c.count (userRecords dOff es₁).length bufOff e) :
    Step l c (if userRecords dOff es₁ = [] then -1
      else toInt32 (userRecords dOff es₁).length, userRecords dOff es₁, f) es es₁
      (e :: es' ++ later) := by
  have hlen := length_userRecords_le dOff es₁
  rw [toInt32_of_lt (by omega)]
  subst hl
  refine ⟨h, rfl, parseDirents_userRecords dOff es₁, ?_, fun h0 => ?_, fun hm => ?_⟩
  · by_cases hnone : userRecords dOff es₁ = []
    · exact .inl ⟨if_pos hnone, hnone⟩
    · exact .inr (if_neg hnone)
  · by_cases hnone : userRecords dOff es₁ = []
    · rw [if_pos hnone] at h0
      cases h0
    · rw [if_neg hnone] at h0
      exact absurd (List.eq_nil_of_length_eq_zero (Int.ofNat_eq_zero.mp h0)) hnone
  · -- The first record has room and meets no failure.
    have hsome : userRecords dOff es₁ ≠ [] := fun hnone => by
      have hmem : e ∈ visible f.listing.entries := by
        rw [h.listing]
        exact List.mem_filter.mpr ⟨by simp, by simp [hdots]⟩
      rw [hnone] at href
      rcases href with hfull | hk | hc
      · have := hm.room e hmem
        rw [List.length_nil] at hfull
        omega
      · rw [hm.kmalloc] at hk
        cases hk
      · rw [hm.copyToUser] at hc
        cases hc
    rw [if_neg hsome]
    refine .inr ⟨Int.natCast_pos.mpr (List.length_pos_of_ne_nil hsome), fun hv => hsome ?_⟩
    unfold userRecords
    rw [hv]
    rfl

/-- A call leaves the handle behind the entries that it delivers. -/
theorem getdents_delivers {f : DirFile} {es rest : List FilInfo} (h : Delivered f es rest) (c : Call) :
    ∃ es₁ es₂, rest = es₁ ++ es₂ ∧ Step f.listing c (handleSysGetdents f c) es es₁ es₂ := by
  unfold handleSysGetdents
  by_cases hargs : c.fd ≤ 2 ∨ c.dirp = 0 ∨ c.count = 0
  · rw [if_pos hargs]
    refine ⟨[], rest, rfl, step_refused h fun hm => ?_⟩
    obtain ⟨h1, h2, h3⟩ := hm.valid
    rcases hargs with hfd | hdirp | hcount
    · omega
    · exact h2 hdirp
    · exact h3 hcount
  rw [if_neg hargs, h.flags, if_neg (by decide)]
  obtain ⟨batch, later, f', rfl, hread, h', hl, hle, hnext⟩ := read_spec h c.junk
  rw [hread]
  dsimp only
  by_cases hbatch : batch = []
  · subst hbatch
    rw [List.append_nil] at h'
    rw [if_pos (show records c.junk 0 [] = [] from rfl)]
    cases later with
    | nil => exact ⟨[], [], rfl, step_end h' hl c⟩
    | cons e es'' =>
      have hbig := hnext e es'' rfl
      have hbounds := kernelReclen_bounds e
      rw [recordBytes_nil] at hbig
      omega
  have hne : records c.junk 0 batch ≠ [] := fun hnil => by
    obtain ⟨e, es', rfl⟩ := List.exists_cons_of_ne_nil hbatch
    have hlen := length_records c.junk (e :: es') 0
    have hbounds := kernelReclen_bounds e
    rw [hnil, recordBytes_cons, List.length_nil] at hlen
    omega
  rw [if_neg hne]
  obtain ⟨es₁, es₂, stop, rfl, hrun, hstop⟩ :=
    getdentsLoop_spec c.answers c.count f'.position c.junk batch 0 0 []
  rw [List.nil_append] at hrun
  rw [hrun]
  rcases hstop with ⟨rfl, rfl⟩ | ⟨e, es', rfl, hdots, rfl, href⟩
  · rw [List.append_nil] at *
    exact ⟨es₁, later, rfl, step_all c _ h' hl hle hnext⟩
  · rw [Nat.zero_add, List.nil_append] at href
    dsimp only
    rw [length_records, Nat.zero_add]
    refine ⟨es₁, e :: es' ++ later, List.append_assoc .., step_part _ h'.back hl ?_ hdots href⟩
    rw [recordBytes_append] at hle
    omega

/-! ## Runs -/

/-- The results of calls on one handle, and the bytes of each. -/
def results (f : DirFile) : List Call → List (Int × List UInt8)
  | [] => []
  | c :: cs =>
    let (ret, out, f) := handleSysGetdents f c
    (ret, out) :: results f cs

/-- What a run from behind some entries shows of the entries that were left. -/
structure Lists (l : Listing) (calls : List Call) (rs : List (Int × List UInt8)) (rest : List FilInfo) :
    Prop where
  inOrder : ∃ es es' names, rest = es ++ es' ∧
    List.Forall₂ (fun r ns => parseDirents r.2 = some ns) rs names ∧
    names.flatten = (visible es).map FilInfo.fname ∧
    ((∃ r ∈ rs, r.1 = 0) → visible es' = [])
  lengths : ∀ r ∈ rs, r.1 = -1 ∧ r.2 = [] ∨ r.1 = r.2.length
  progress : (∀ c ∈ calls, Met l c) → calls.length ≤ (visible rest).length ∨ ∃ r ∈ rs, r.1 = 0

theorem results_list (calls : List Call) : ∀ {f : DirFile} {es rest : List FilInfo},
    Delivered f es rest → Lists f.listing calls (results f calls) rest := by
  induction calls with
  | nil =>
    intro f es rest _
    exact ⟨⟨[], rest, [], rfl, .nil, rfl, nofun⟩, nofun, fun _ => .inl (Nat.zero_le _)⟩
  | cons c cs ih =>
    intro f es rest h
    obtain ⟨es₁, es₂, rfl, hstep⟩ := getdents_delivers h c
    have hres : results f (c :: cs) = ((handleSysGetdents f c).1, (handleSysGetdents f c).2.1) ::
        results (handleSysGetdents f c).2.2 cs := rfl
    rw [hres]
    generalize handleSysGetdents f c = r at hstep
    obtain ⟨ret, out, f'⟩ := r
    have hrest := ih hstep.delivered
    rw [show f'.listing = f.listing from hstep.listing] at hrest
    obtain ⟨es', later, names, rfl, hparse, hnames, hend⟩ := hrest.inOrder
    refine ⟨⟨es₁ ++ es', later, (visible es₁).map FilInfo.fname :: names,
      (List.append_assoc ..).symm, .cons hstep.records hparse, ?_, ?_⟩, ?_, fun hmet => ?_⟩
    · rw [List.flatten_cons, hnames, visible_append, List.map_append]
    · rintro ⟨r, hr, h0⟩
      rcases List.mem_cons.mp hr with rfl | hr
      · have hall := hstep.zero h0
        rw [visible_append, visible_append] at hall
        exact (List.append_eq_nil_iff.mp (List.append_eq_nil_iff.mp hall).2).2
      · exact hend ⟨r, hr, h0⟩
    · exact List.forall_mem_cons.mpr ⟨hstep.length, hrest.lengths⟩
    · -- A call that does not return 0 uses up an entry.
      rcases hstep.progress (hmet c List.mem_cons_self) with h0 | ⟨-, hne⟩
      · exact .inr ⟨_, List.mem_cons_self, h0⟩
      rcases hrest.progress fun c' hc' => hmet c' (List.mem_cons_of_mem _ hc') with hle | ⟨r, hr, h0⟩
      · have := List.length_pos_of_ne_nil hne
        rw [visible_append, List.length_append, List.length_cons]
        exact .inl (by omega)
      · exact .inr ⟨r, List.mem_cons_of_mem _ hr, h0⟩

/-- Any run of calls on a handle lists the entries but the dots in order, each once, in well-formed
records as long as the results say, and returns 0 only when all are listed; calls with room that
meet no failure get there. -/
theorem getdents_run (l : Listing) (calls : List Call) :
    Lists l calls (results (openListing l) calls) l.entries :=
  results_list calls (delivered_openListing l)

end Getdents
end Hashx86
