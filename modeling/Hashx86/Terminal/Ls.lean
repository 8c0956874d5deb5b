import Hashx86.Lib.While
import Hashx86.Syscalls.Getdents
import Hashx86.Terminal.Path

/-!
# Listing a directory (`TerminalApp::CommandLs`)

The records of a directory are read in batches; the offset in a batch is moved at the end of a turn,
which a name that makes the path too long does not reach.

* `entryTurn_entry`: a turn of the inner loop at a record.
* `batch_lists`: a batch is listed in order. `batch_long`: it is never done with when a path does
  not fit.
* `commandLs_iff`: the directory is listed exactly when the paths of its entries fit.
-/

namespace Hashx86
namespace Terminal

open Lib Getdents

/-- What `stat`, `open` and `getdents` answer. -/
structure Files where
  isDirectory : List UInt8 → Bool
  fd : List UInt8 → Option Nat
  batches : List UInt8 → List (List UInt8)

/-- The offset in the batch, and what has been printed. -/
structure LsState where
  offset : Nat
  lines : List (List UInt8)
  listed : Nat

/-- A turn of the loop over the records in a batch. It leaves with `none` if a buffer is overrun. -/
def entryTurn (isDirectory : List UInt8 → Bool) (target batch : List UInt8) (s : LsState) :
    LsState ⊕ Option LsState :=
  if s.offset < batch.length then
    let ent := batch.drop s.offset
    let reclen := field ent 8 2
    let name := (ent.drop 10).takeWhile (· ≠ 0)
    if reclen = 0 then .inr (some s)
    else if name = [] then .inl { s with offset := s.offset + reclen }
    else
      match strcat (maxPathLen + 8) [] name with
      | none => .inr none
      | some line =>
        -- `continue`, with the offset where it is
        if maxPathLen ≤ target.length + 1 + name.length then .inl s
        else
          match childPath maxPathLen target name with
          | none => .inr none
          | some path =>
            match if isDirectory path ∧ line.length + 1 < maxPathLen + 8 then
              strcat (maxPathLen + 8) line [slash] else line with
            | none => .inr none
            | some line => .inl ⟨s.offset + reclen, s.lines ++ [line], s.listed + 1⟩
  else .inr (some s)

/-- The loop over the batches; `none` if it is not done in `fuel` turns for each. -/
def lsLoop (isDirectory : List UInt8 → Bool) (target : List UInt8) (fuel : Nat) :
    List (List UInt8) → LsState → Option (Option LsState)
  | [], s => some (some s)
  | batch :: batches, s =>
    if batch.length = 0 then some (some s)
    else
      match loop (fun _ => entryTurn isDirectory target batch) fuel 0 { s with offset := 0 } with
      | none => none
      | some none => some none
      | some (some s) => lsLoop isDirectory target fuel batches s

/-- The lines that are printed, and the descriptors that are closed. -/
structure LsResult where
  lines : List (List UInt8)
  closed : List Nat

def summary (listed : Nat) : List UInt8 := ascii (toString listed ++ " item(s)")

def commandLs (w : Files) (currentPath args : List UInt8) (fuel : Nat) : Option (Option LsResult) :=
  match if args = [] then some currentPath else resolvePath currentPath args with
  | none => some (some ⟨[ascii "ls: invalid path"], []⟩)
  | some target =>
    if !w.isDirectory target then some (some ⟨[ascii "ls: not a directory"], []⟩)
    else
      match w.fd target with
      | none => some (some ⟨[ascii "ls: failed to open directory"], []⟩)
      | some fd =>
        match lsLoop w.isDirectory target fuel (w.batches target) ⟨0, [], 0⟩ with
        | none => none
        | some none => some none
        | some (some s) => some (some ⟨s.lines ++ [summary s.listed], [fd]⟩)

/-! ## What is asked -/

/-- The line of an entry: its name, with a `/` behind that of a directory. -/
def entryLine (isDirectory : List UInt8 → Bool) (target name : List UInt8) : List UInt8 :=
  if isDirectory (child target name) then name ++ [slash] else name

/-- The lines of a directory; a record without a name is no entry. -/
def listing (isDirectory : List UInt8 → Bool) (target : List UInt8) (names : List (List UInt8)) :
    List (List UInt8) :=
  (names.filter (· ≠ [])).map (entryLine isDirectory target)

/-- The path of an entry fits, whether or not the target ends in `/`. -/
def Fits (target name : List UInt8) : Prop := target.length + 1 + name.length < maxPathLen

/-- The names in the records of well-formed batches. -/
def Content (batches : List (List UInt8)) (names : List (List UInt8)) : Prop :=
  ∃ parts, List.Forall₂ (fun b part => b ≠ [] ∧ parseDirents b = some part) batches parts ∧
    names = parts.flatten

/-- What a listing of the target leaves. -/
def expected (w : Files) (target : List UInt8) (names : List (List UInt8)) : LsResult :=
  if !w.isDirectory target then ⟨[ascii "ls: not a directory"], []⟩
  else
    match w.fd target with
    | none => ⟨[ascii "ls: failed to open directory"], []⟩
    | some fd =>
      let lines := listing w.isDirectory target names
      ⟨lines ++ [summary lines.length], [fd]⟩

/-- The command ends, has printed each entry once and has closed what it opened. -/
def Lists (w : Files) (currentPath args target : List UInt8) (names : List (List UInt8)) : Prop :=
  ∃ fuel, commandLs w currentPath args fuel = some (some (expected w target names))

/-! ## A turn of the inner loop -/

theorem parseDirents_some_nil {bytes : List UInt8} (h : parseDirents bytes = some []) :
    bytes = [] := by
  by_contra hne
  rw [parseDirents, dif_neg hne] at h
  dsimp only at h
  split at h
  · cases h
  · split at h
    · cases h
    · obtain ⟨_, -, hcons⟩ := Option.map_eq_some_iff.mp h
      cases hcons

/-- The first of some well-formed records. -/
theorem parseDirents_some_cons {bytes name : List UInt8} {names : List (List UInt8)}
    (h : parseDirents bytes = some (name :: names)) :
    0 < field bytes 8 2 ∧ field bytes 8 2 ≤ bytes.length ∧
      (bytes.drop 10).takeWhile (· ≠ 0) = name ∧
      parseDirents (bytes.drop (field bytes 8 2)) = some names := by
  rw [parseDirents] at h
  split at h
  · cases h
  dsimp only at h
  split at h
  · cases h
  rename_i hlen
  split at h
  · cases h
  rename_i hnul
  obtain ⟨rest, hrest, hcons⟩ := Option.map_eq_some_iff.mp h
  obtain ⟨rfl, rfl⟩ := List.cons.inj hcons
  refine ⟨by omega, by omega, ?_, hrest⟩
  rw [← List.take_append_drop (field bytes 8 2 - 10) (bytes.drop 10), List.takeWhile_append,
    if_neg hnul, List.take_append_drop]

variable {d : List UInt8 → Bool} {target batch name : List UInt8}
  {names : List (List UInt8)} {s : LsState}

theorem listing_append (names names' : List (List UInt8)) :
    listing d target (names ++ names') =
      listing d target names ++ listing d target names' := by
  unfold listing
  rw [List.filter_append, List.map_append]

theorem entryTurn_end (h : parseDirents (batch.drop s.offset) = some []) :
    entryTurn d target batch s = .inr (some s) := by
  have hdrop := List.drop_eq_nil_iff.mp (parseDirents_some_nil h)
  exact if_neg (by omega)

theorem Fits.child (h : Fits target name) : (child target name).length < maxPathLen :=
  (child_length target name).trans_lt h

/-- A turn at a record prints the line of its entry and goes to the next record. -/
theorem entryTurn_entry (h : parseDirents (batch.drop s.offset) = some (name :: names))
    (hfits : name ≠ [] → Fits target name) :
    ∃ off, parseDirents (batch.drop off) = some names ∧
      entryTurn d target batch s =
        .inl ⟨off, s.lines ++ listing d target [name],
          s.listed + (listing d target [name]).length⟩ := by
  obtain ⟨hpos, hlen, hname, hrest⟩ := parseDirents_some_cons h
  rw [List.length_drop] at hlen
  rw [List.drop_drop] at hrest
  refine ⟨_, hrest, ?_⟩
  unfold entryTurn
  dsimp only
  rw [if_pos (by omega), hname, if_neg (by omega)]
  by_cases hne : name = []
  · rw [if_pos hne, hne]
    simp [listing]
  · have hfit := hfits hne
    have hline : listing d target [name] = [entryLine d target name] := by
      simp [listing, hne]
    rw [if_neg hne, hline, childPath_eq hfit.child]
    unfold Fits maxPathLen at hfit
    unfold maxPathLen entryLine
    rw [strcat_eq (by rw [List.length_nil]; omega), List.nil_append]
    dsimp only
    rw [if_neg (by omega)]
    by_cases hdir : d (child target name) = true
    · rw [if_pos ⟨hdir, by omega⟩, if_pos hdir, strcat_eq (by rw [List.length_singleton]; omega)]
      rfl
    · rw [if_neg fun hand => hdir hand.1, if_neg hdir]
      rfl

/-- A turn at a record whose path is too long does not get past it. -/
theorem entryTurn_long (h : parseDirents (batch.drop s.offset) = some (name :: names))
    (hne : name ≠ []) (hlong : ¬ Fits target name) :
    entryTurn d target batch s = .inl s ∨
      entryTurn d target batch s = .inr none := by
  obtain ⟨hpos, hlen, hname, -⟩ := parseDirents_some_cons h
  rw [List.length_drop] at hlen
  unfold entryTurn
  dsimp only
  rw [if_pos (by omega), hname, if_neg (by omega), if_neg hne]
  cases strcat (maxPathLen + 8) [] name with
  | none => exact .inr rfl
  | some line => exact .inl (if_pos (Nat.not_lt.mp hlong))

/-! ## A batch -/

theorem batch_lists (h : parseDirents (batch.drop s.offset) = some names)
    (hfits : ∀ name ∈ names, name ≠ [] → Fits target name) (k : Nat) :
    ∃ fuel off, loop (fun _ => entryTurn d target batch) fuel k s =
      some (some ⟨off, s.lines ++ listing d target names,
        s.listed + (listing d target names).length⟩) := by
  induction names generalizing s k with
  | nil =>
    refine ⟨1, s.offset, ?_⟩
    rw [loop, entryTurn_end h]
    simp [listing]
  | cons name names ih =>
    obtain ⟨hname, hnames⟩ := List.forall_mem_cons.mp hfits
    obtain ⟨off, hrest, hturn⟩ := entryTurn_entry h hname
    obtain ⟨fuel, off', hloop⟩ := ih (s := ⟨off, _, _⟩) hrest hnames (k + 1)
    refine ⟨fuel + 1, off', ?_⟩
    have hcons : listing d target (name :: names) =
      listing d target [name] ++ listing d target names := listing_append [name] names
    rw [loop, hturn, hcons, List.length_append, ← List.append_assoc, ← Nat.add_assoc]
    exact hloop

/-- A batch that is done with has only entries whose paths fit. -/
theorem batch_long {fuel k : Nat} {s' : LsState}
    (h : parseDirents (batch.drop s.offset) = some names)
    (hloop : loop (fun _ => entryTurn d target batch) fuel k s = some (some s')) :
    ∀ name ∈ names, name ≠ [] → Fits target name := by
  induction names generalizing s k fuel with
  | nil => exact fun name hname => absurd hname List.not_mem_nil
  | cons name names ih =>
    cases fuel with
    | zero => cases hloop
    | succ fuel =>
      have hname : name ≠ [] → Fits target name := by
        intro hne
        by_contra hlong
        rcases entryTurn_long h hne hlong with hturn | hturn
        · rw [loop_stuck hturn] at hloop
          cases hloop
        · rw [loop, hturn] at hloop
          cases hloop
      obtain ⟨off, hrest, hturn⟩ := entryTurn_entry h hname
      rw [loop, hturn] at hloop
      exact List.forall_mem_cons.mpr ⟨hname, ih (s := ⟨off, _, _⟩) hrest hloop⟩

/-! ## The directory -/

theorem lsLoop_mono {batches : List (List UInt8)} {fuel fuel' : Nat} {r : Option LsState}
    (h : lsLoop d target fuel batches s = some r) (hle : fuel ≤ fuel') :
    lsLoop d target fuel' batches s = some r := by
  induction batches generalizing s with
  | nil => exact h
  | cons batch batches ih =>
    unfold lsLoop at h ⊢
    split at h
    · rename_i hempty
      rw [if_pos hempty]
      exact h
    · rename_i hempty
      rw [if_neg hempty]
      cases hloop : loop (fun _ => entryTurn d target batch) fuel 0
        { s with offset := 0 } with
      | none => exact nomatch hloop ▸ h
      | some done =>
        rw [hloop] at h
        rw [loop_mono hloop hle]
        cases done with
        | none => exact h
        | some s' => exact ih h

theorem lsLoop_lists {batches : List (List UInt8)} {parts : List (List (List UInt8))}
    (h : List.Forall₂ (fun b part => b ≠ [] ∧ parseDirents b = some part) batches parts)
    (hfits : ∀ name ∈ parts.flatten, name ≠ [] → Fits target name) :
    ∃ fuel off, lsLoop d target fuel batches s =
      some (some ⟨off, s.lines ++ listing d target parts.flatten,
        s.listed + (listing d target parts.flatten).length⟩) := by
  induction h generalizing s with
  | nil =>
    refine ⟨0, s.offset, ?_⟩
    simp [lsLoop, listing]
  | @cons batch part batches parts hbatch hrest ih =>
    rw [List.flatten_cons, List.forall_mem_append] at hfits
    obtain ⟨fuel₁, off₁, hloop⟩ := batch_lists (d := d)
      (s := { s with offset := 0 }) hbatch.2 hfits.1 0
    obtain ⟨fuel₂, off₂, hls⟩ := ih (s := ⟨off₁, _, _⟩) hfits.2
    refine ⟨max fuel₁ fuel₂, off₂, ?_⟩
    rw [lsLoop, if_neg (mt List.length_eq_zero_iff.mp hbatch.1),
      loop_mono hloop (le_max_left fuel₁ fuel₂), List.flatten_cons, listing_append,
      List.length_append, ← List.append_assoc, ← Nat.add_assoc]
    exact lsLoop_mono hls (le_max_right fuel₁ fuel₂)

theorem lsLoop_fits {batches : List (List UInt8)} {parts : List (List (List UInt8))} {fuel : Nat}
    {s' : LsState}
    (h : List.Forall₂ (fun b part => b ≠ [] ∧ parseDirents b = some part) batches parts)
    (hls : lsLoop d target fuel batches s = some (some s')) :
    ∀ name ∈ parts.flatten, name ≠ [] → Fits target name := by
  induction h generalizing s with
  | nil => exact nofun
  | @cons batch part batches parts hbatch hrest ih =>
    rw [lsLoop, if_neg (mt List.length_eq_zero_iff.mp hbatch.1)] at hls
    split at hls
    · exact nomatch hls
    · exact nomatch hls
    · rename_i s₁ hloop
      rw [List.flatten_cons, List.forall_mem_append]
      exact ⟨batch_long (s := { s with offset := 0 }) hbatch.2 hloop, ih hls⟩

theorem commandLs_open (w : Files) {currentPath args target : List UInt8} {fd : Nat}
    (htarget : (if args = [] then some currentPath else resolvePath currentPath args) = some target)
    (hdir : w.isDirectory target = true) (hfd : w.fd target = some fd)
    {names : List (List UInt8)} (hcontent : Content (w.batches target) names) :
    Lists w currentPath args target names ↔ ∀ name ∈ names, name ≠ [] → Fits target name := by
  obtain ⟨parts, hparts, rfl⟩ := hcontent
  unfold Lists commandLs expected
  rw [htarget]
  simp only [hdir, hfd, Bool.not_true, Bool.false_eq_true, if_false]
  constructor
  · rintro ⟨fuel, hls⟩
    split at hls
    · exact nomatch hls
    · exact nomatch hls
    · rename_i hloop
      exact lsLoop_fits hparts hloop
  · intro hfits
    obtain ⟨fuel, off, hloop⟩ := lsLoop_lists (d := w.isDirectory) (s := ⟨0, [], 0⟩) hparts hfits
    refine ⟨fuel, ?_⟩
    rw [hloop, List.nil_append, Nat.zero_add]

/-- The directory is listed exactly when the paths of its entries fit in the buffer for them. -/
theorem commandLs_iff (w : Files) {currentPath args target : List UInt8}
    (htarget : (if args = [] then some currentPath else resolvePath currentPath args) = some target)
    {names : List (List UInt8)} (hcontent : Content (w.batches target) names) :
    Lists w currentPath args target names ↔
      (w.isDirectory target = true → w.fd target ≠ none →
        ∀ name ∈ names, name ≠ [] → Fits target name) := by
  cases hdir : w.isDirectory target with
  | false =>
    refine iff_of_true ⟨0, ?_⟩ nofun
    rw [commandLs, htarget, expected]
    simp only [hdir, Bool.not_false, if_true]
  | true =>
    cases hfd : w.fd target with
    | none =>
      refine iff_of_true ⟨0, ?_⟩ fun _ h => absurd rfl h
      rw [commandLs, htarget, expected]
      simp only [hdir, hfd, Bool.not_true, Bool.false_eq_true, if_false]
    | some fd =>
      rw [imp_iff_right rfl, imp_iff_right (Option.some_ne_none fd)]
      exact commandLs_open w htarget hdir hfd hcontent

/-- A directory at `target` with one entry. -/
def oneEntry (target name : List UInt8) : Files :=
  ⟨fun p => decide (p = target), fun _ => some 3, fun _ => [userDirent 0 0 name]⟩

theorem isDirectory_oneEntry (target name : List UInt8) :
    (oneEntry target name).isDirectory target = true := decide_eq_true rfl

theorem content_oneEntry {target name : List UInt8} (hnul : (0 : UInt8) ∉ name)
    (hfits : name.length ≤ 255) : Content ((oneEntry target name).batches target) [name] := by
  refine ⟨[[name]], .cons ⟨fun hnil => ?_, ?_⟩ .nil, rfl⟩
  · have hlen := congrArg List.length hnil
    rw [length_userDirent hfits, List.length_nil] at hlen
    have hbounds := userReclen_bounds hfits
    omega
  · rw [← List.append_nil (userDirent 0 0 name), parseDirents_cons hnul hfits, parseDirents_nil]
    rfl

/-- The root with a file `a`. -/
theorem lists_root : Lists (oneEntry [slash] [0x61]) [slash] [] [slash] [[0x61]] :=
  (commandLs_iff (oneEntry [slash] [0x61]) rfl (content_oneEntry (by decide) (by decide))).mpr
    fun _ _ => by unfold Fits; decide

/-- A directory with a path of 252 bytes. -/
def deep : List (List UInt8) := [List.replicate 125 0x61, List.replicate 125 0x61]

/-- A file with a name of three bytes in it is never got past. -/
theorem not_lists_deep : resolvePath [slash] (path.render deep) = some (path.render deep) ∧
    Content ((oneEntry (path.render deep) [0x62, 0x62, 0x62]).batches (path.render deep))
      [[0x62, 0x62, 0x62]] ∧
    ¬ Lists (oneEntry (path.render deep) [0x62, 0x62, 0x62]) [slash] (path.render deep)
      (path.render deep) [[0x62, 0x62, 0x62]] := by
  have hlen : (path.render deep).length = 252 := by
    rw [PathForm.render, deep, if_neg (List.cons_ne_nil _ _), List.flatMap_cons,
      List.flatMap_singleton, List.length_append, List.length_cons, List.length_replicate]
  have hproper : ∀ s ∈ deep, path.Proper s := by
    have ha : path.Proper (List.replicate 125 0x61) := ⟨by decide, by decide, by decide, by decide⟩
    exact List.forall_mem_cons.mpr ⟨ha, List.forall_mem_singleton.mpr ha⟩
  have hshort : deep.map shorten = deep := by
    rw [map_shorten_eq_self]
    have ha : (List.replicate 125 (0x61 : UInt8)).length < maxShellToken := by
      rw [List.length_replicate]
      decide
    exact List.forall_mem_cons.mpr ⟨ha, List.forall_mem_singleton.mpr ha⟩
  have hresolve : resolvePath [slash] (path.render deep) = some (path.render deep) :=
    resolvePath_self hproper hshort (by rw [hlen]; decide) [slash]
  have hcontent : Content ((oneEntry (path.render deep) [0x62, 0x62, 0x62]).batches
      (path.render deep)) [[0x62, 0x62, 0x62]] := content_oneEntry (by decide) (by decide)
  refine ⟨hresolve, hcontent, fun h => ?_⟩
  have hne : path.render deep ≠ [] := List.ne_nil_of_length_pos (by rw [hlen]; decide)
  rw [commandLs_open _ (by rw [if_neg hne]; exact hresolve)
    (isDirectory_oneEntry _ _) rfl hcontent] at h
  have hfit := h _ (List.mem_singleton_self _) nofun
  rw [Fits, hlen] at hfit
  exact absurd hfit (by decide)

end Terminal
end Hashx86
