import Hashx86.Lib.Run
import Hashx86.Lib.SlashPath
import Mathlib.Data.Nat.Digits.Lemmas

/-!
# The file manager (`user_prog/Explorer`)

Paths are put together in buffers of 256 bytes, a name is cut to the 63 bytes of a list cell, and what
is said of a file goes into a buffer of 64 bytes.

* `Browser`: a directory, by the names that lead to it, and the names that are shown of it.
* `loadDirectory_shows`: what is loaded of a directory. `step_shows`: what an action does.
* `explore_shows`: over any run the Explorer does what the browser does, if the names and paths fit.
-/

namespace Hashx86
namespace Explorer

open Lib

def maxPath : Nat := 256
def maxEntries : Nat := 64
def cellSize : Nat := 64

/-- `st_size` and `st_mode`. -/
structure Stat where
  size : UInt32
  mode : UInt32

/-- The names that `getdents` gives for a path, batch by batch, and what `stat` gives. -/
structure Fs where
  openDir : List UInt8 → Option (List (List (List UInt8)))
  stat : List UInt8 → Option Stat
  proper : ∀ p batches, openDir p = some batches → ∀ n ∈ batches.flatten, n ≠ [] → path.Proper n

/-- `0`, `1` and `2` of `ListViewItemData::type`. -/
inductive ItemType where
  | file
  | directory
  | executable
  deriving DecidableEq

/-- The cells of the name and of the size. -/
structure Item where
  name : List UInt8
  size : List UInt8
  type : ItemType

/-! ## Cells -/

def digits (value : Nat) : List UInt8 :=
  if value = 0 then [0x30] else (Nat.digits 10 value).reverse.map fun d => 0x30 + d.toUInt8

/-- `<DIR>`, or the size with ` KB` or ` B` behind it. -/
def sizeText (size : UInt32) (type : ItemType) : List UInt8 :=
  if type = .directory then [0x3C, 0x44, 0x49, 0x52, 0x3E]
  else if 1024 ≤ size.toNat then digits (size.toNat / 1024) ++ [0x20, 0x4B, 0x42]
  else digits size.toNat ++ [0x20, 0x42]

/-- The digits go through `tmp[16]`. -/
def formatSizeCell (size : UInt32) (type : ItemType) : Option (List UInt8) :=
  if type ≠ .directory ∧
      16 < (digits (if 1024 ≤ size.toNat then size.toNat / 1024 else size.toNat)).length then none
  else strcat cellSize [] (sizeText size type)

/-- Whether a name ends in `.BIN`. -/
def isExecutable (name : List UInt8) : Bool :=
  let len := name.length
  decide (5 ≤ len) && name.getD (len - 4) 0 = 0x2E && name.getD (len - 3) 0 ||| 0x20 = 0x62 &&
    name.getD (len - 2) 0 ||| 0x20 = 0x69 && name.getD (len - 1) 0 ||| 0x20 = 0x6E

/-- The size and the type of the entry at a path. -/
def statEntry (fs : Fs) (fullpath name : List UInt8) : UInt32 × ItemType :=
  match fs.stat fullpath with
  | none => (0, .file)
  | some st =>
    (st.size, if st.mode &&& 0x4000 ≠ 0 then .directory
      else if isExecutable name then .executable else .file)

/-! ## `loadDirectory` -/

/-- The name as it is copied into a cell. -/
def cut (name : List UInt8) : List UInt8 := name.take (cellSize - 1)

def loadEntry (fs : Fs) (dir name : List UInt8) : Option Item := do
  let fullpath ← childPath maxPath dir (cut name)
  let st := statEntry fs fullpath (cut name)
  let size ← formatSizeCell st.1 st.2
  some ⟨cut name, size, st.2⟩

/-- The loop over the records in a batch. -/
def loadBatch (fs : Fs) (dir : List UInt8) : List (List UInt8) → List Item → Option (List Item)
  | [], items => some items
  | name :: names, items =>
    if maxEntries ≤ items.length then some items
    else if name = [] then loadBatch fs dir names items
    else
      match loadEntry fs dir name with
      | none => none
      | some item => loadBatch fs dir names (items ++ [item])

def loadBatches (fs : Fs) (dir : List UInt8) :
    List (List (List UInt8)) → List Item → Option (List Item)
  | [], items => some items
  | batch :: batches, items =>
    if maxEntries ≤ items.length then some items
    else
      match loadBatch fs dir batch items with
      | none => none
      | some items => loadBatches fs dir batches items

/-! ## `ExplorerApp` -/

/-- The state of the program, the text of the status label and the paths of the programs that were
launched. -/
structure State where
  currentPath : List UInt8
  dirEntries : List Item
  status : List UInt8
  launched : List (List UInt8)

/-- What is shown behind a number of entries and behind the name of a file. -/
def itemsText : List UInt8 := [0x20, 0x69, 0x74, 0x65, 0x6D, 0x73]
def selectedText : List UInt8 := [0x20, 0x73, 0x65, 0x6C, 0x65, 0x63, 0x74, 0x65, 0x64]

def refreshDirectory (fs : Fs) (s : State) : Option State :=
  match fs.openDir s.currentPath with
  | none => some { s with dirEntries := [], status := ascii "Failed to open directory" }
  | some batches => do
    let items ← loadBatches fs s.currentPath batches []
    let statusMsg ← strcat 64 (digits items.length) itemsText
    some { s with dirEntries := items, status := statusMsg }

/-- The index of the last `/`. -/
def lastSlash (p : List UInt8) : Nat := (p.rdropWhile fun b => !isSlash b).length - 1

def navigateUp (fs : Fs) (s : State) : Option State :=
  if s.currentPath.length ≤ 1 then some s
  else
    let p := if s.currentPath.getLast? = some slash then s.currentPath.dropLast else s.currentPath
    refreshDirectory fs
      { s with currentPath := if lastSlash p = 0 then [slash] else p.take (lastSlash p) }

/-- The entry at the selected index of the list. -/
def selected {α : Type} (entries : List α) (sel : Int) : Option α :=
  if sel < 0 ∨ (entries.length : Int) ≤ sel then none else entries[sel.toNat]?

/-- The name of a directory is put behind the current path. -/
def enterPath (currentPath name : List UInt8) : Option (List UInt8) :=
  if 1 < currentPath.length then do
    let p ← strcat maxPath currentPath [slash]
    strcat maxPath p name
  else strcat maxPath currentPath name

/-- `started` says that `execve` gave a process. -/
def openSelected (fs : Fs) (s : State) (sel : Int) (started : Bool) : Option State :=
  match selected s.dirEntries sel with
  | none => some { s with status := ascii "No item selected" }
  | some item =>
    match item.type with
    | .directory => do
      let p ← enterPath s.currentPath item.name
      refreshDirectory fs { s with currentPath := p }
    | .executable => do
      let fullpath ← childPath maxPath s.currentPath item.name
      some { s with
        launched := s.launched ++ [fullpath]
        status := if started then ascii "Launched!" else ascii "Launch failed" }
    | .file => do
      let info ← strcat 64 [] item.name
      let info ← strcat 64 info selectedText
      some { s with status := info }

def onListClick (s : State) (sel : Int) : Option State :=
  match selected s.dirEntries sel with
  | none => some s
  | some item => do
    let info ← strcat 64 [] item.name
    some { s with status := info }

inductive Action where
  | up
  | refresh
  | openItem (sel : Int) (started : Bool)
  | click (sel : Int)

def step (fs : Fs) (s : State) : Action → Option State
  | .up => navigateUp fs s
  | .refresh => refreshDirectory fs s
  | .openItem sel started => openSelected fs s sel started
  | .click sel => onListClick s sel

/-- The program from its start on, through some actions; `none` if a buffer is overrun. -/
def explore (fs : Fs) (actions : List Action) : Option State := do
  let s ← refreshDirectory fs ⟨[slash], [], [], []⟩
  actions.foldlM (step fs) s

/-! ## What is asked -/

/-- What the program is for: a directory, by the names that lead to it from the root, and the names
that are shown of it. -/
structure Browser where
  dir : List (List UInt8)
  shown : List (List UInt8)
  status : List UInt8
  launched : List (List UInt8)

/-- The entries of a directory that are shown: the first 64. -/
def listed (batches : List (List (List UInt8))) : List (List UInt8) :=
  (batches.flatten.filter (· ≠ [])).take maxEntries

/-- The type of the entry of a directory with its full name. -/
def typeOf (fs : Fs) (dir : List (List UInt8)) (name : List UInt8) : ItemType :=
  (statEntry fs (path.render (dir ++ [name])) name).2

namespace Browser

def refresh (fs : Fs) (b : Browser) : Browser :=
  match fs.openDir (path.render b.dir) with
  | none => { b with shown := [], status := ascii "Failed to open directory" }
  | some batches =>
    { b with shown := listed batches, status := digits (listed batches).length ++ itemsText }

/-- An entry is entered, launched or named, by its full name. -/
def act (fs : Fs) (b : Browser) (name : List UInt8) (started : Bool) : Browser :=
  match typeOf fs b.dir name with
  | .directory => refresh fs { b with dir := b.dir ++ [name] }
  | .executable =>
    { b with
      launched := b.launched ++ [path.render (b.dir ++ [name])]
      status := if started then ascii "Launched!" else ascii "Launch failed" }
  | .file => { b with status := name ++ selectedText }

def step (fs : Fs) (b : Browser) : Action → Browser
  | .up => if b.dir = [] then b else refresh fs { b with dir := b.dir.dropLast }
  | .refresh => refresh fs b
  | .openItem sel started =>
    match selected b.shown sel with
    | none => { b with status := ascii "No item selected" }
    | some name => act fs b name started
  | .click sel =>
    match selected b.shown sel with
    | none => b
    | some name => { b with status := cut name }

def start (fs : Fs) : Browser := refresh fs ⟨[], [], [], []⟩

end Browser

/-- The paths of the entries that are shown of a directory, with their names cut, fit. -/
def LoadFits (fs : Fs) (dir : List (List UInt8)) : Prop :=
  ∀ batches, fs.openDir (path.render dir) = some batches →
    ∀ name ∈ listed batches, (path.render (dir ++ [cut name])).length < maxPath

/-- The name of an entry that is opened fits in a cell; with what is said of a file, in 64 bytes. -/
def OpenFits (fs : Fs) (dir : List (List UInt8)) (name : List UInt8) : Prop :=
  name.length < cellSize ∧
    match typeOf fs dir name with
    | .directory => LoadFits fs (dir ++ [name])
    | .executable => True
    | .file => name.length + 9 < 64

def ActionFits (fs : Fs) (b : Browser) : Action → Prop
  | .up => b.dir ≠ [] → LoadFits fs b.dir.dropLast
  | .refresh => LoadFits fs b.dir
  | .openItem sel _ => ∀ name, selected b.shown sel = some name → OpenFits fs b.dir name
  | .click _ => True

/-- The item of an entry. -/
def itemOf (fs : Fs) (dir : List (List UInt8)) (name : List UInt8) : Item :=
  let st := statEntry fs (path.render (dir ++ [cut name])) (cut name)
  ⟨cut name, sizeText st.1 st.2, st.2⟩

/-- The program is at the directory of the browser, and its items are the entries of that. -/
structure Shows (fs : Fs) (s : State) (b : Browser) : Prop where
  proper : ∀ n ∈ b.dir, path.Proper n
  names : ∀ n ∈ b.shown, path.Proper n ∧ (path.render (b.dir ++ [cut n])).length < maxPath
  currentPath : s.currentPath = path.render b.dir
  entries : s.dirEntries = b.shown.map (itemOf fs b.dir)
  status : s.status = b.status
  launched : s.launched = b.launched

/-! ## Cells -/

theorem digits_length {v : Nat} (h : v < 2 ^ 32) : (digits v).length ≤ 10 := by
  unfold digits
  split
  · decide
  · rw [List.length_map, List.length_reverse, Nat.digits_length_le_iff (by decide)]
    omega

theorem formatSizeCell_eq (size : UInt32) (type : ItemType) :
    formatSizeCell size type = some (sizeText size type) := by
  have hsize : size.toNat < 2 ^ 32 := size.toNat_lt
  have hkb := digits_length (v := size.toNat / 1024) (by omega)
  have hb := digits_length hsize
  have htext : (sizeText size type).length < cellSize := by
    unfold sizeText cellSize
    split
    · decide
    · split
      · rw [List.length_append, List.length_cons, List.length_cons, List.length_singleton]
        omega
      · rw [List.length_append, List.length_cons, List.length_singleton]
        omega
  have htmp : ¬(type ≠ .directory ∧
      16 < (digits (if 1024 ≤ size.toNat then size.toNat / 1024 else size.toNat)).length) := by
    rintro ⟨-, hlt⟩
    split at hlt <;> omega
  unfold formatSizeCell
  rw [if_neg htmp, strcat_eq (by rwa [List.length_nil, Nat.zero_add]), List.nil_append]

theorem cut_length (name : List UInt8) : (cut name).length < cellSize := by
  unfold cut cellSize
  rw [List.length_take]
  omega

theorem cut_eq {name : List UInt8} (h : name.length < cellSize) : cut name = name :=
  List.take_of_length_le (Nat.le_sub_one_of_lt h)

/-! ## A directory -/

variable {fs : Fs} {dir : List (List UInt8)}

theorem loadEntry_eq (hdir : ∀ n ∈ dir, path.Proper n) {name : List UInt8}
    (hfits : (path.render (dir ++ [cut name])).length < maxPath) :
    loadEntry fs (path.render dir) name = some (itemOf fs dir name) := by
  have hchild := child_render hdir (cut name)
  unfold loadEntry itemOf
  rw [childPath_eq (by rwa [hchild]), hchild, Option.bind_eq_bind, Option.bind_some]
  dsimp only
  rw [formatSizeCell_eq]
  rfl

theorem take_take_append {α : Type} (n : Nat) (l r : List α) :
    (l.take n ++ r).take n = (l ++ r).take n := by
  rw [List.take_append, List.take_append, List.take_take, min_self, List.length_take]
  congr 2
  omega

/-- The entries of a batch are put behind those that are loaded, up to 64. -/
theorem loadBatch_eq (hdir : ∀ n ∈ dir, path.Proper n) (names loaded : List (List UInt8))
    (hloaded : loaded.length ≤ maxEntries)
    (hfits : ∀ n ∈ (loaded ++ names.filter (· ≠ [])).take maxEntries,
      (path.render (dir ++ [cut n])).length < maxPath) :
    loadBatch fs (path.render dir) names (loaded.map (itemOf fs dir)) =
      some (((loaded ++ names.filter (· ≠ [])).take maxEntries).map (itemOf fs dir)) := by
  induction names generalizing loaded with
  | nil =>
    rw [List.filter_nil, List.append_nil, List.take_of_length_le hloaded]
    rfl
  | cons name names ih =>
    unfold loadBatch
    rw [List.length_map]
    by_cases hfull : maxEntries ≤ loaded.length
    · rw [if_pos hfull, List.take_append_of_le_length hfull, List.take_of_length_le hloaded]
    rw [if_neg hfull]
    by_cases hname : name = []
    · have hfilter : (name :: names).filter (· ≠ []) = names.filter (· ≠ []) :=
        List.filter_cons_of_neg (by simp [hname])
      rw [hfilter] at hfits
      rw [if_pos hname, hfilter]
      exact ih loaded hloaded hfits
    · have hfilter : loaded ++ (name :: names).filter (· ≠ []) =
          (loaded ++ [name]) ++ names.filter (· ≠ []) := by
        rw [List.filter_cons_of_pos (by simp [hname]), List.append_assoc, List.singleton_append]
      have hlen : (loaded ++ [name]).length ≤ maxEntries := by
        rw [List.length_append, List.length_singleton]
        omega
      rw [hfilter] at hfits
      have hmem : name ∈ ((loaded ++ [name]) ++ names.filter (· ≠ [])).take maxEntries := by
        rw [List.take_append, List.take_of_length_le hlen]
        exact List.mem_append_left _ (List.mem_append_right _ (List.mem_singleton_self name))
      rw [if_neg hname, loadEntry_eq hdir (hfits name hmem), hfilter]
      have hstep := ih (loaded ++ [name]) hlen hfits
      rwa [List.map_append, List.map_singleton] at hstep

theorem loadBatches_eq (hdir : ∀ n ∈ dir, path.Proper n) (batches : List (List (List UInt8)))
    (loaded : List (List UInt8)) (hloaded : loaded.length ≤ maxEntries)
    (hfits : ∀ n ∈ (loaded ++ batches.flatten.filter (· ≠ [])).take maxEntries,
      (path.render (dir ++ [cut n])).length < maxPath) :
    loadBatches fs (path.render dir) batches (loaded.map (itemOf fs dir)) =
      some (((loaded ++ batches.flatten.filter (· ≠ [])).take maxEntries).map
        (itemOf fs dir)) := by
  induction batches generalizing loaded with
  | nil =>
    rw [List.flatten_nil, List.filter_nil, List.append_nil, List.take_of_length_le hloaded]
    rfl
  | cons batch batches ih =>
    have hassoc : (loaded ++ (batch :: batches).flatten.filter (· ≠ [])).take maxEntries =
        ((loaded ++ batch.filter (· ≠ [])).take maxEntries ++
          batches.flatten.filter (· ≠ [])).take maxEntries := by
      rw [take_take_append, List.flatten_cons, List.filter_append, List.append_assoc]
    unfold loadBatches
    rw [List.length_map]
    by_cases hfull : maxEntries ≤ loaded.length
    · rw [if_pos hfull, List.take_append_of_le_length hfull, List.take_of_length_le hloaded]
    · rw [hassoc] at hfits ⊢
      have hlen : ((loaded ++ batch.filter (· ≠ [])).take maxEntries).length ≤ maxEntries :=
        List.length_take_le _ _
      rw [if_neg hfull, loadBatch_eq hdir batch loaded hloaded fun n hn => hfits n ?_]
      · exact ih _ hlen hfits
      · rw [List.take_append, List.take_take, min_self]
        exact List.mem_append_left _ hn

/-- What a refresh shows. -/
theorem refresh_shows {s : State} {b : Browser} (hproper : ∀ n ∈ b.dir, path.Proper n)
    (hpath : s.currentPath = path.render b.dir) (hlaunched : s.launched = b.launched)
    (hfits : LoadFits fs b.dir) :
    ∃ s', refreshDirectory fs s = some s' ∧ Shows fs s' (b.refresh fs) := by
  unfold refreshDirectory Browser.refresh
  rw [hpath]
  cases hopen : fs.openDir (path.render b.dir) with
  | none => exact ⟨_, rfl, hproper, nofun, rfl, rfl, rfl, hlaunched⟩
  | some batches =>
    have hload : loadBatches fs (path.render b.dir) batches [] =
        some ((listed batches).map (itemOf fs b.dir)) :=
      loadBatches_eq hproper batches [] (Nat.zero_le _) (hfits batches hopen)
    have hlen : (listed batches).length < 2 ^ 32 :=
      (List.length_take_le _ _).trans_lt (by decide)
    have hdigits := digits_length hlen
    have hnames : ∀ n ∈ listed batches, path.Proper n ∧
        (path.render (b.dir ++ [cut n])).length < maxPath := by
      intro n hn
      have hfilter := List.mem_filter.mp (List.mem_of_mem_take hn)
      exact ⟨fs.proper _ _ hopen n hfilter.1 (of_decide_eq_true hfilter.2),
        hfits batches hopen n hn⟩
    refine ⟨⟨path.render b.dir, (listed batches).map (itemOf fs b.dir),
      digits (listed batches).length ++ itemsText, s.launched⟩, ?_, hproper, hnames, rfl, rfl, rfl,
      hlaunched⟩
    dsimp only
    have hstatus : (digits (listed batches).length).length + itemsText.length < 64 := by
      rw [show itemsText.length = 6 from rfl]
      omega
    rw [hload, Option.bind_eq_bind, Option.bind_some, List.length_map, strcat_eq hstatus]
    rfl

/-! ## An action -/

/-- The path of the directory above. -/
theorem lastSlash_render {s : List UInt8} (hdir : ∀ n ∈ dir, path.Proper n) (hs : path.Proper s) :
    (path.render (dir ++ [s])).getLast? ≠ some slash ∧
      (if lastSlash (path.render (dir ++ [s])) = 0 then [slash]
        else (path.render (dir ++ [s])).take (lastSlash (path.render (dir ++ [s])))) =
        path.render dir := by
  have hne : dir ++ [s] ≠ [] := List.append_ne_nil_of_right_ne_nil dir nofun
  have hrender : path.render (dir ++ [s]) = dir.flatMap (slash :: ·) ++ slash :: s :=
    (if_neg hne).trans (flatMap_concat dir s)
  have hlast : lastSlash (path.render (dir ++ [s])) = (dir.flatMap (slash :: ·)).length := by
    rw [lastSlash, hrender, rdropWhile_segment hs.sep, List.length_append, List.length_singleton,
      Nat.add_sub_cancel]
  rw [hlast, hrender]
  refine ⟨getLast_ne_slash hs.ne_nil hs.sep, ?_⟩
  by_cases hnil : dir = []
  · rw [hnil]
    rfl
  · have hlen := (flatMap_gap hdir hnil).2
    rw [if_neg (by omega), List.take_left]
    exact (if_neg hnil).symm

theorem up_shows {s : State} {b : Browser} (h : Shows fs s b)
    (hfits : b.dir ≠ [] → LoadFits fs b.dir.dropLast) :
    ∃ s', navigateUp fs s = some s' ∧ Shows fs s' (b.step fs .up) := by
  obtain ⟨dir, shown, status, launched⟩ := b
  unfold navigateUp Browser.step
  rw [h.currentPath]
  dsimp only at *
  cases dir using List.reverseRecOn with
  | nil => exact ⟨s, if_pos (Nat.le_refl 1), h⟩
  | append_singleton dir n =>
    have hproper := List.forall_mem_append.mp h.proper
    have hn := List.forall_mem_singleton.mp hproper.2
    have hne : dir ++ [n] ≠ [] := List.append_ne_nil_of_right_ne_nil dir nofun
    obtain ⟨hlast, hparent⟩ := lastSlash_render hproper.1 hn
    have hlen := (flatMap_gap h.proper hne).2
    rw [show (dir ++ [n]).flatMap (slash :: ·) = path.render (dir ++ [n]) from (if_neg hne).symm]
      at hlen
    have hload := hfits hne
    rw [List.dropLast_concat] at hload
    rw [if_neg (by omega), if_neg hlast, hparent, if_neg hne, List.dropLast_concat]
    exact refresh_shows hproper.1 rfl h.launched hload

theorem selected_map {α β : Type} (f : α → β) (l : List α) (sel : Int) :
    selected (l.map f) sel = (selected l sel).map f := by
  unfold selected
  rw [List.length_map, List.getElem?_map]
  split <;> rfl

theorem Shows.selected_eq {s : State} {b : Browser} (h : Shows fs s b) (sel : Int) :
    selected s.dirEntries sel = (selected b.shown sel).map (itemOf fs b.dir) := by
  rw [h.entries, selected_map]

theorem selected_mem {α : Type} {l : List α} {sel : Int} {a : α} (h : selected l sel = some a) :
    a ∈ l := by
  unfold selected at h
  split at h
  · exact nomatch h
  · exact List.mem_of_getElem? h

/-- The name of an entry behind the current path. -/
theorem enter_eq (hdir : ∀ n ∈ dir, path.Proper n) {name : List UInt8}
    (hfits : (path.render (dir ++ [name])).length < maxPath) :
    enterPath (path.render dir) name = some (path.render (dir ++ [name])) := by
  have hne : dir ++ [name] ≠ [] := List.append_ne_nil_of_right_ne_nil dir nofun
  have hrender : path.render (dir ++ [name]) = dir.flatMap (slash :: ·) ++ slash :: name :=
    (if_neg hne).trans (flatMap_concat dir name)
  rw [hrender, List.length_append, List.length_cons] at hfits
  rw [hrender, enterPath]
  by_cases hnil : dir = []
  · rw [hnil] at hfits ⊢
    refine (if_neg (Nat.lt_irrefl 1)).trans ?_
    rw [List.flatMap_nil, List.length_nil] at hfits
    exact strcat_eq (by rw [show (path.render []).length = 1 from rfl]; omega)
  · have hflat : path.render dir = dir.flatMap (slash :: ·) := if_neg hnil
    rw [hflat, if_pos (flatMap_gap hdir hnil).2, strcat_eq (by rw [List.length_singleton]; omega)]
    refine (strcat_eq ?_).trans ?_
    · rw [List.length_append, List.length_singleton]
      omega
    · rw [List.append_assoc, List.singleton_append]

theorem open_shows {s : State} {b : Browser} (h : Shows fs s b) {sel : Int} {started : Bool}
    (hfits : ∀ name, selected b.shown sel = some name → OpenFits fs b.dir name) :
    ∃ s', openSelected fs s sel started = some s' ∧
      Shows fs s' (b.step fs (.openItem sel started)) := by
  unfold openSelected Browser.step
  rw [h.selected_eq]
  dsimp only
  cases hsel : selected b.shown sel with
  | none => exact ⟨_, rfl, { h with status := rfl }⟩
  | some name =>
    obtain ⟨hlen, htype⟩ := hfits name hsel
    obtain ⟨hname, hpath⟩ := h.names name (selected_mem hsel)
    have hitem : (itemOf fs b.dir name).name = name ∧
        (itemOf fs b.dir name).type = typeOf fs b.dir name := by
      unfold itemOf typeOf
      rw [cut_eq hlen]
      exact ⟨rfl, rfl⟩
    rw [cut_eq hlen] at hpath
    rw [Option.map_some]
    dsimp only
    rw [hitem.1, hitem.2, h.currentPath, Browser.act]
    cases hkind : typeOf fs b.dir name with
    | directory =>
      rw [hkind] at htype
      have hproper : ∀ n ∈ b.dir ++ [name], path.Proper n :=
        List.forall_mem_append.mpr ⟨h.proper, List.forall_mem_singleton.mpr hname⟩
      dsimp only
      rw [enter_eq h.proper hpath]
      exact refresh_shows hproper rfl h.launched htype
    | executable =>
      have hchild := child_render h.proper name
      dsimp only
      rw [childPath_eq (by rwa [hchild]), hchild]
      exact ⟨_, rfl, { h with
        currentPath := rfl
        status := rfl
        launched := congrArg (· ++ _) h.launched }⟩
    | file =>
      rw [hkind] at htype
      dsimp only
      have hstatus : name.length + selectedText.length < 64 := htype
      rw [strcat_eq (by rw [List.length_nil]; omega), Option.bind_eq_bind, Option.bind_some,
        List.nil_append, strcat_eq hstatus]
      exact ⟨_, rfl, { h with currentPath := rfl, status := rfl }⟩

theorem click_shows {s : State} {b : Browser} (h : Shows fs s b) (sel : Int) :
    ∃ s', onListClick s sel = some s' ∧ Shows fs s' (b.step fs (.click sel)) := by
  unfold onListClick Browser.step
  rw [h.selected_eq]
  dsimp only
  cases selected b.shown sel with
  | none => exact ⟨s, rfl, h⟩
  | some name =>
    have hcut := cut_length name
    refine ⟨{ s with status := cut name }, ?_, { h with status := rfl }⟩
    rw [Option.map_some]
    dsimp only [itemOf]
    rw [strcat_eq (by rw [List.length_nil, Nat.zero_add]; exact hcut), List.nil_append]
    rfl

/-! ## Runs -/

/-- An action of the program is that of the browser. -/
theorem step_shows {s : State} {b : Browser} (h : Shows fs s b) (a : Action)
    (hfits : ActionFits fs b a) : ∃ s', step fs s a = some s' ∧ Shows fs s' (b.step fs a) := by
  cases a with
  | up => exact up_shows h hfits
  | refresh => exact refresh_shows h.proper h.currentPath h.launched hfits
  | openItem sel started => exact open_shows h hfits
  | click sel => exact click_shows h sel

theorem run_shows (actions : List Action) {s : State} {b : Browser} (h : Shows fs s b)
    (hfits : Along (Browser.step fs) (ActionFits fs) b actions) :
    ∃ s', actions.foldlM (step fs) s = some s' ∧
      Shows fs s' (run (Browser.step fs) b actions) := by
  induction actions generalizing s b with
  | nil => exact ⟨s, rfl, h⟩
  | cons a actions ih =>
    obtain ⟨s₁, hstep, h₁⟩ := step_shows h a hfits.1
    obtain ⟨s', hrun, h'⟩ := ih h₁ hfits.2
    refine ⟨s', ?_, h'⟩
    rw [List.foldlM_cons, hstep]
    exact hrun

/-- Over any run of actions the Explorer overruns no buffer and is at the directory of the browser,
where the names and the paths that it comes to fit. -/
theorem explore_shows (fs : Fs) (actions : List Action) (hroot : LoadFits fs [])
    (hfits : Along (Browser.step fs) (ActionFits fs) (Browser.start fs) actions) :
    ∃ s, explore fs actions = some s ∧
      Shows fs s (run (Browser.step fs) (Browser.start fs) actions) := by
  obtain ⟨s₀, hstart, h₀⟩ : ∃ s₀, refreshDirectory fs ⟨[slash], [], [], []⟩ = some s₀ ∧
      Shows fs s₀ (Browser.start fs) := refresh_shows nofun rfl rfl hroot
  obtain ⟨s, hrun, h⟩ := run_shows actions h₀ hfits
  refine ⟨s, ?_, h⟩
  rw [explore, hstart]
  exact hrun

/-- A file system with one file, at the root. -/
def oneFile (name : List UInt8) (hname : path.Proper name) : Fs where
  openDir p := if p = [slash] then some [[name]] else none
  stat _ := some ⟨1, 0x8000⟩
  proper p batches hopen := by
    split at hopen
    · obtain rfl := Option.some.inj hopen
      exact List.forall_mem_singleton.mpr fun _ => hname
    · exact nomatch hopen

theorem proper_replicate {n : Nat} (h : 2 < n) : path.Proper (List.replicate n 0x61) where
  ne_nil hnil := by
    have hlen := congrArg List.length hnil
    rw [List.length_replicate, List.length_nil] at hlen
    omega
  ne_here hhere := by
    have hlen := congrArg List.length hhere
    rw [List.length_replicate] at hlen
    exact absurd (hlen.trans (show path.here.length = 1 from rfl)) (by omega)
  ne_up hup := by
    have hlen := congrArg List.length hup
    rw [List.length_replicate] at hlen
    exact absurd (hlen.trans (show path.up.length = 2 from rfl)) (by omega)
  sep hmem := absurd (List.eq_of_mem_replicate hmem) (by decide)

/-- A file with a name of three characters is opened. -/
theorem explore_aaa : ∃ s,
    explore (oneFile (List.replicate 3 0x61) (proper_replicate (by decide))) [.openItem 0 false] =
        some s ∧
      Shows (oneFile (List.replicate 3 0x61) (proper_replicate (by decide))) s
        (run (Browser.step (oneFile (List.replicate 3 0x61) (proper_replicate (by decide))))
          (Browser.start (oneFile (List.replicate 3 0x61) (proper_replicate (by decide))))
          [.openItem 0 false]) := by
  refine explore_shows _ _ (fun batches hopen => ?_) ⟨fun name hname => ?_, trivial⟩
  · obtain rfl := Option.some.inj hopen
    decide
  · obtain rfl := Option.some.inj hname
    exact ⟨by decide, show (List.replicate 3 (0x61 : UInt8)).length + 9 < 64 by decide⟩

/-- A file whose name has 55 characters: with what is said of it, 64, and the NUL is one too many. -/
theorem explore_overrun :
    explore (oneFile (List.replicate 55 0x61) (proper_replicate (by decide)))
      [.openItem 0 false] = none := by
  rw [← Option.isNone_iff_eq_none]
  decide +kernel

end Explorer
end Hashx86
