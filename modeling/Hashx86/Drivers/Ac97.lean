import Hashx86.Lib.Ring
import Hashx86.Lib.Run
import Mathlib.Algebra.Ring.Nat
import Mathlib.Logic.Function.Basic

/-!
# The AC97 driver (`drivers/ac97.cpp`)

`writeData` and `onInterrupt` as the source has them, against an engine that plays the descriptors
in ring order up to the last index written to `AC97_PO_LVI` and raises an interrupt at each one
that asks for it (`State`). A page is named by its physical address, and the descriptor list is
apart from the pages. The engine has nothing to play before the first write.

* `inv_step`: `activeHalf`, `sw_lvi` and `buffersOccupied` agree with what is left to play.
* `stores_apart`: no write touches a page or a descriptor of a half that is still to be played.
* `Right`: what a call says it queued is what the engine plays next after all that was queued
  before. `queued_along_iff`: along a run this holds exactly when every accepted size is even, as
  a descriptor counts words and the last byte of an odd size is in none.
-/

namespace Hashx86

namespace Ac97

open Lib

abbrev Byte := BitVec 8

/-! ## The driver -/

/-- `AC97_BDL_Entry`. -/
structure Entry where
  addr : Nat
  length : Nat
  flags : Nat

/-- `DynamicAC97Driver`: its pages and its three counters. -/
structure Driver where
  physPages : Nat → Nat
  physBdlAddr : Nat
  swLvi : Nat
  activeHalf : Nat
  buffersOccupied : Nat

/-- `AC97_HALF_SIZE`. -/
def halfSize : Nat := 0x8000

/-- `AC97_BUF_PAGES / 2`. -/
def halfPages : Nat := 8

/-- `AC97_BDL_ENTRIES`. -/
def bdlEntries : Nat := 32

/-- What one round of the copying loop stores: `data` at the start of the page, and the descriptor
of the index, with the interrupt asked for if it is the last. -/
structure Store where
  index : Nat
  page : Nat
  data : List Byte
  last : Bool

/-- The descriptor that the round writes. -/
def Store.entry (st : Store) : Entry where
  addr := st.page
  length := st.data.length / 2 % 0x10000
  flags := if st.last then 0x8000 else 0

theorem Store.entry_flags (st : Store) : st.entry.flags = 0x8000 ↔ st.last = true := by
  unfold Store.entry
  cases st.last <;> simp

/-- The copying loop of `WriteData` from round `p` on; `rest` is what is left to copy. -/
def stores (d : Driver) : Nat → Nat → List Byte → List Store
  | 0, _, _ => []
  | rounds + 1, p, rest =>
    if rest = [] then []
    else
      { index := (d.swLvi + p) % bdlEntries
        page := d.physPages (d.activeHalf * halfPages + p)
        data := rest.take 4096
        last := decide (rest.drop 4096 = []) } :: stores d rounds (p + 1) (rest.drop 4096)

/-- What `WriteData` returns and does. -/
structure Write where
  result : Nat
  driver : Driver
  stores : List Store
  /-- What is written to `AC97_PO_LVI`. -/
  lvi : Option Nat

/-- The pages of a write of `size` bytes. -/
def pagesUsed (size : Nat) : Nat :=
  if (size + 4095) / 4096 > halfPages then halfPages else (size + 4095) / 4096

/-- `WriteData`, of a buffer of `size` bytes. -/
def writeData (d : Driver) (buffer : List Byte) : Write :=
  let refused : Write := { result := 0, driver := d, stores := [], lvi := none }
  if buffer.length = 0 then refused
  else if d.physBdlAddr = 0 ∨ d.physPages 0 = 0 then refused
  else
    let size := if buffer.length > halfSize then halfSize else buffer.length
    if d.buffersOccupied ≥ 2 then refused
    else
      let used := pagesUsed size
      let written := stores d used 0 (buffer.take size)
      if used > 0 then
        { result := size
          driver := { d with
            swLvi := (d.swLvi + used) % bdlEntries
            activeHalf := 1 - d.activeHalf
            buffersOccupied := d.buffersOccupied + 1 }
          stores := written
          lvi := some ((d.swLvi + used - 1) % bdlEntries) }
      else { result := size, driver := d, stores := written, lvi := none }

/-- `AC97_SR_BCIS` and `AC97_SR_LVBCI`. -/
def bufferComplete : BitVec 16 := 0x28

/-- `OnInterrupt`, with what the status register says; whether the interrupt is acknowledged. -/
def onInterrupt (d : Driver) (sr : BitVec 16) : Driver × Bool :=
  if sr &&& 0x08 ≠ 0 ∨ sr &&& 0x20 ≠ 0 then
    (if d.buffersOccupied > 0 then { d with buffersOccupied := d.buffersOccupied - 1 } else d, true)
  else (d, false)

/-! ## The engine -/

/-- The pages, by address, and the descriptor list. -/
structure Memory where
  pages : Nat → List Byte
  bdl : Nat → Entry

/-- A round stores its data over the start of the page. -/
def Memory.apply (m : Memory) (st : Store) : Memory where
  pages := Function.update m.pages st.page (st.data ++ (m.pages st.page).drop st.data.length)
  bdl := Function.update m.bdl st.index st.entry

def Memory.applyAll (m : Memory) (ss : List Store) : Memory := ss.foldl Memory.apply m

/-- The bus master: the index of the next descriptor to finish, how many are left up to the last
valid one, and the interrupts raised and not acknowledged. -/
structure Engine where
  next : Nat
  left : Nat
  pending : Nat

/-- A new last valid index. -/
def Engine.setLvi (e : Engine) (lvi : Nat) : Engine :=
  { e with left := (lvi + bdlEntries + 1 - e.next) % bdlEntries }

/-- A half that was queued: its first index and its pages, one for each descriptor. -/
structure Half where
  first : Nat
  pages : List Nat

/-- The driver, the memory and the engine; `unfinished` are the halves queued and not yet played to
the end. -/
structure State where
  driver : Driver
  memory : Memory
  engine : Engine
  unfinished : List Half

/-- The samples that a descriptor describes. -/
def Memory.samples (m : Memory) (e : Entry) : List Byte := (m.pages e.addr).take (2 * e.length)

/-- What the engine plays from now on, if nothing more is queued. -/
def State.toPlay (s : State) : List Byte :=
  (window bdlEntries s.memory.bdl s.engine.next s.engine.left).flatMap s.memory.samples

inductive Op where
  /-- A call of `WriteData`. -/
  | write (buffer : List Byte)
  /-- The engine finishes a descriptor. -/
  | finish
  /-- An interrupt is delivered; the other bits of the status register are `other`. -/
  | interrupt (other : BitVec 16)

/-- The engine's status: buffer completion is set while an interrupt is pending. -/
def Engine.status (e : Engine) (other : BitVec 16) : BitVec 16 :=
  if e.pending > 0 then other ||| 0x08 else other &&& ~~~bufferComplete

def write (s : State) (buffer : List Byte) : State :=
  let w := writeData s.driver buffer
  { driver := w.driver
    memory := s.memory.applyAll w.stores
    engine := match w.lvi with
      | none => s.engine
      | some lvi => s.engine.setLvi lvi
    unfinished := match w.lvi with
      | none => s.unfinished
      | some _ => s.unfinished ++ [{ first := s.driver.swLvi, pages := w.stores.map (·.page) }] }

def finish (s : State) : State :=
  if s.engine.left = 0 then s
  else
    let e : Engine := { s.engine with
      next := (s.engine.next + 1) % bdlEntries
      left := s.engine.left - 1 }
    if (s.memory.bdl s.engine.next).flags = 0x8000 then
      { s with engine := { e with pending := e.pending + 1 }, unfinished := s.unfinished.tail }
    else { s with engine := e }

def interrupt (s : State) (other : BitVec 16) : State :=
  let (d, acknowledged) := onInterrupt s.driver (s.engine.status other)
  { s with
    driver := d
    engine := if acknowledged then { s.engine with pending := s.engine.pending - 1 } else s.engine }

def step (s : State) : Op → State
  | .write buffer => write s buffer
  | .finish => finish s
  | .interrupt other => interrupt s other

/-! ## The stores of a write -/

theorem stores_nil (d : Driver) (rounds p : Nat) : stores d rounds p [] = [] := by
  cases rounds <;> rfl

theorem length_stores (d : Driver) : ∀ (rounds p : Nat) (rest : List Byte),
    rest.length ≤ 4096 * rounds → (stores d rounds p rest).length = (rest.length + 4095) / 4096
  | 0, _, rest, h => by
    have hnil : rest = [] := List.eq_nil_of_length_eq_zero (by omega)
    rw [stores, hnil]
    rfl
  | rounds + 1, p, rest, h => by
    rw [stores]
    by_cases hnil : rest = []
    · rw [if_pos hnil, hnil]
      rfl
    · have hpos := List.length_pos_of_ne_nil hnil
      rw [if_neg hnil, List.length_cons, length_stores d rounds _ _ (by
        rw [List.length_drop]; omega), List.length_drop]
      omega

/-- The round `k` of the loop. -/
theorem stores_getElem (d : Driver) : ∀ (rounds p : Nat) (rest : List Byte) (k : Nat) (st : Store),
    (stores d rounds p rest)[k]? = some st →
    st.index = (d.swLvi + (p + k)) % bdlEntries ∧
      st.page = d.physPages (d.activeHalf * halfPages + (p + k)) ∧ st.data.length ≤ 4096 ∧
      (rest.length ≤ 4096 * rounds → (st.last = true ↔ k + 1 = (stores d rounds p rest).length))
  | 0, _, _, _, _, h => by cases h
  | rounds + 1, p, rest, k, st, h => by
    rw [stores] at h ⊢
    by_cases hnil : rest = []
    · rw [if_pos hnil] at h
      cases h
    rw [if_neg hnil] at h ⊢
    cases k with
    | zero =>
      cases h
      refine ⟨rfl, rfl, ?_, fun hlen => ?_⟩
      · exact List.length_take_le ..
      · have hrest : (rest.drop 4096).length ≤ 4096 * rounds := by rw [List.length_drop]; omega
        rw [List.length_cons, length_stores d rounds _ _ hrest, decide_eq_true_iff,
          List.drop_eq_nil_iff, List.length_drop]
        omega
    | succ k =>
      rw [List.getElem?_cons_succ] at h
      obtain ⟨hindex, hpage, hle, hlast⟩ := stores_getElem d rounds (p + 1) _ k st h
      have hk : p + 1 + k = p + (k + 1) := by omega
      rw [hk] at hindex hpage
      refine ⟨hindex, hpage, hle, fun hlen => ?_⟩
      rw [hlast (by rw [List.length_drop]; omega), List.length_cons]
      omega

/-- The bytes of a round that its descriptor describes, which counts words. -/
def Store.heard (st : Store) : List Byte := st.data.take (2 * (st.data.length / 2))

/-- All rounds together describe the data but for the last byte of an odd number. -/
theorem stores_heard (d : Driver) : ∀ (rounds p : Nat) (rest : List Byte),
    rest.length ≤ 4096 * rounds →
    (stores d rounds p rest).flatMap Store.heard = rest.take (2 * (rest.length / 2))
  | 0, _, rest, h => by
    have hnil : rest = [] := List.eq_nil_of_length_eq_zero (by omega)
    rw [stores, hnil]
    rfl
  | rounds + 1, p, rest, h => by
    rw [stores]
    by_cases hnil : rest = []
    · rw [if_pos hnil, hnil]
      rfl
    rw [if_neg hnil, List.flatMap_cons, stores_heard d rounds _ _ (by rw [List.length_drop]; omega),
      Store.heard, List.length_take, List.length_drop]
    rcases Nat.le_total rest.length 4096 with hle | hle
    · rw [Nat.min_eq_right hle, List.take_of_length_le hle, Nat.sub_eq_zero_of_le hle,
        List.take_zero, List.append_nil]
    · have hsplit : 2 * (rest.length / 2) = 4096 + 2 * ((rest.length - 4096) / 2) := by omega
      rw [Nat.min_eq_left hle, hsplit, List.take_add, List.take_take]
      rfl
/-- The driver got its pages, each of them once. -/
structure Driver.Ready (d : Driver) : Prop where
  bdl : d.physBdlAddr ≠ 0
  first : d.physPages 0 ≠ 0
  apart : ∀ p < 16, ∀ q < 16, d.physPages p = d.physPages q → p = q

/-- The bytes of a buffer that a call accepts. -/
def accepted (buffer : List Byte) : List Byte := buffer.take halfSize

/-- A call is refused, or queues as many pages as the accepted bytes need. -/
theorem writeData_cases {d : Driver} (hd : d.Ready) (buffer : List Byte) :
    (writeData d buffer = { result := 0, driver := d, stores := [], lvi := none } ∧
      (buffer = [] ∨ 2 ≤ d.buffersOccupied)) ∨
    (buffer ≠ [] ∧ d.buffersOccupied < 2 ∧ ∃ used, 0 < used ∧ used ≤ halfPages ∧
      used = ((accepted buffer).length + 4095) / 4096 ∧
      writeData d buffer =
        { result := (accepted buffer).length
          driver := { d with
            swLvi := (d.swLvi + used) % bdlEntries
            activeHalf := 1 - d.activeHalf
            buffersOccupied := d.buffersOccupied + 1 }
          stores := stores d used 0 (accepted buffer)
          lvi := some ((d.swLvi + used - 1) % bdlEntries) }) := by
  by_cases hnil : buffer = []
  · left
    subst hnil
    exact ⟨rfl, Or.inl rfl⟩
  have hpos : 0 < buffer.length := List.length_pos_of_ne_nil hnil
  by_cases hfull : d.buffersOccupied ≥ 2
  · left
    simp only [writeData]
    rw [if_neg (by omega), if_neg (not_or.mpr ⟨hd.bdl, hd.first⟩), if_pos hfull]
    exact ⟨rfl, Or.inr hfull⟩
  · right
    have hlen : (accepted buffer).length = min halfSize buffer.length := List.length_take
    have hsize : (if buffer.length > halfSize then halfSize else buffer.length) =
        (accepted buffer).length := by
      rw [hlen]
      split <;> omega
    have hhalf : halfSize = 0x8000 ∧ halfPages = 8 := ⟨rfl, rfl⟩
    have hused : pagesUsed (accepted buffer).length = ((accepted buffer).length + 4095) / 4096 := by
      rw [pagesUsed, if_neg (by omega)]
    refine ⟨hnil, by omega, _, ?_, ?_, rfl, ?_⟩
    · omega
    · omega
    · have htake : buffer.take (accepted buffer).length = accepted buffer := by
        rw [hlen, ← List.take_take, List.take_length]
        rfl
      simp only [writeData]
      rw [if_neg (by omega), if_neg (not_or.mpr ⟨hd.bdl, hd.first⟩), if_neg hfull]
      simp only [hsize, htake, hused]
      rw [if_pos (by omega)]

/-! ## The memory after a write -/

theorem applyAll_bdl_of_ne {i : Nat} : ∀ {ss : List Store} (m : Memory),
    (∀ st ∈ ss, st.index ≠ i) → (m.applyAll ss).bdl i = m.bdl i
  | [], _, _ => rfl
  | st :: ss, m, h => by
    have htail := applyAll_bdl_of_ne (m.apply st) fun st' hmem =>
      h st' (List.mem_cons_of_mem _ hmem)
    exact htail.trans (Function.update_of_ne (h st (List.mem_cons_self ..)).symm ..)

theorem applyAll_pages_of_ne {a : Nat} : ∀ {ss : List Store} (m : Memory),
    (∀ st ∈ ss, st.page ≠ a) → (m.applyAll ss).pages a = m.pages a
  | [], _, _ => rfl
  | st :: ss, m, h => by
    have htail := applyAll_pages_of_ne (m.apply st) fun st' hmem =>
      h st' (List.mem_cons_of_mem _ hmem)
    exact htail.trans (Function.update_of_ne (h st (List.mem_cons_self ..)).symm ..)

/-- The stores of different rounds are at different places. -/
def Apart (st st' : Store) : Prop := st.index ≠ st'.index ∧ st.page ≠ st'.page

/-- Every round's descriptor and data are there in the end. -/
theorem applyAll_mem : ∀ {ss : List Store} (m : Memory), ss.Pairwise Apart → ∀ st ∈ ss,
    (m.applyAll ss).bdl st.index = st.entry ∧
      ∃ old, (m.applyAll ss).pages st.page = st.data ++ old
  | [], _, _, _, hmem => by cases hmem
  | st :: ss, m, h, st', hmem => by
    obtain ⟨hhead, htail⟩ := List.pairwise_cons.mp h
    rcases List.mem_cons.mp hmem with rfl | hmem
    · have hbdl := applyAll_bdl_of_ne (m.apply st') fun s hs => (hhead s hs).1.symm
      have hpages := applyAll_pages_of_ne (m.apply st') fun s hs => (hhead s hs).2.symm
      exact ⟨hbdl.trans (Function.update_self ..), _, hpages.trans (Function.update_self ..)⟩
    · exact applyAll_mem (m.apply st) htail st' hmem

/-- What the engine hears of a round. -/
theorem samples_entry {m : Memory} {st : Store} {old : List Byte} (hlen : st.data.length ≤ 4096)
    (h : m.pages st.page = st.data ++ old) : m.samples st.entry = st.heard := by
  have hwords : st.data.length / 2 % 0x10000 = st.data.length / 2 := Nat.mod_eq_of_lt (by omega)
  have hle : 2 * (st.data.length / 2) ≤ st.data.length := by omega
  rw [Memory.samples, Store.entry, h, hwords]
  exact List.take_append_of_le_length hle

theorem stores_pairwise {d : Driver} (hd : d.Ready) (hactive : d.activeHalf < 2) {used : Nat}
    (hused : used ≤ halfPages) {data : List Byte} (hlen : data.length ≤ 4096 * used) :
    (stores d used 0 data).Pairwise Apart := by
  rw [List.pairwise_iff_getElem]
  intro j k hj hk hjk
  have hhalf : halfPages = 8 ∧ bdlEntries = 32 := ⟨rfl, rfl⟩
  have hcount := length_stores d used 0 data hlen
  obtain ⟨hji, hjp, -⟩ := stores_getElem d used 0 data j _ (List.getElem?_eq_getElem hj)
  obtain ⟨hki, hkp, -⟩ := stores_getElem d used 0 data k _ (List.getElem?_eq_getElem hk)
  refine ⟨fun h => ?_, fun h => ?_⟩
  · rw [hji, hki] at h
    have := index_inj (n := 8) (by omega) (by omega) (by omega) h
    omega
  · rw [hjp, hkp, hhalf.1] at h
    have := hd.apart _ (by omega) _ (by omega) h
    omega

/-! ## What is left to play -/

/-- The half `x` is in the pages of half `h`, its descriptors say so, and only the last one asks for
an interrupt. -/
structure Placed (phys : Nat → Nat) (bdl : Nat → Entry) (x : Half) (h : Nat) : Prop where
  half : h < 2
  pos : 0 < x.pages.length
  le : x.pages.length ≤ halfPages
  pages : ∀ a ∈ x.pages, ∃ p < halfPages, a = phys (h * halfPages + p)
  addr : ∀ p < x.pages.length, (bdl ((x.first + p) % bdlEntries)).addr ∈ x.pages
  flags : ∀ p < x.pages.length,
    (bdl ((x.first + p) % bdlEntries)).flags = 0x8000 ↔ p + 1 = x.pages.length

/-- The halves `xs` are one after the other in the ring and alternate between the two halves of the
buffer, from index `i` and half `h` to index `j` and half `k`. -/
def Queue (phys : Nat → Nat) (bdl : Nat → Entry) : Nat → Nat → List Half → Nat → Nat → Prop
  | i, h, [], j, k => i = j ∧ h = k
  | i, h, x :: xs, j, k => x.first = i ∧ Placed phys bdl x h ∧
    Queue phys bdl ((i + x.pages.length) % bdlEntries) (1 - h) xs j k

/-- The descriptors of the halves. -/
def total (xs : List Half) : Nat := (xs.map (·.pages.length)).sum

section queue

variable {phys : Nat → Nat} {bdl bdl' : Nat → Entry} {x : Half} {xs : List Half}
  {i h j k : Nat}

theorem Placed.frame (hx : Placed phys bdl x h)
    (hframe : ∀ p < x.pages.length,
      bdl' ((x.first + p) % bdlEntries) = bdl ((x.first + p) % bdlEntries)) :
    Placed phys bdl' x h where
  half := hx.half
  pos := hx.pos
  le := hx.le
  pages := hx.pages
  addr p hp := by rw [hframe p hp]; exact hx.addr p hp
  flags p hp := by rw [hframe p hp]; exact hx.flags p hp

theorem Queue.last (hq : Queue phys bdl i h xs j k) (hi : i < bdlEntries) :
    j = (i + total xs) % bdlEntries := by
  induction xs generalizing i h with
  | nil =>
    obtain ⟨rfl, -⟩ := hq
    exact (Nat.mod_eq_of_lt hi).symm
  | cons x xs ih =>
    rw [ih hq.2.2 (Nat.mod_lt _ (by decide)), Nat.mod_add_mod, Nat.add_assoc]
    rfl

theorem Queue.append (hq : Queue phys bdl i h xs j k) (hx : Placed phys bdl x k)
    (hfirst : x.first = j) :
    Queue phys bdl i h (xs ++ [x]) ((j + x.pages.length) % bdlEntries) (1 - k) := by
  induction xs generalizing i h with
  | nil =>
    obtain ⟨rfl, rfl⟩ := hq
    exact ⟨hfirst, hx, rfl, rfl⟩
  | cons y xs ih => exact ⟨hq.1, hq.2.1, ih hq.2.2⟩

end queue

/-- The counters and the engine agree on the halves that are still to be played. -/
structure Inv (s : State) : Prop where
  ready : s.driver.Ready
  active : s.driver.activeHalf < 2
  count : s.driver.buffersOccupied = s.unfinished.length + s.engine.pending
  le : s.driver.buffersOccupied ≤ 2
  /-- The first of them has `played` descriptors behind it. -/
  queue : ∃ i < bdlEntries, ∃ h played,
    Queue s.driver.physPages s.memory.bdl i h s.unfinished s.driver.swLvi s.driver.activeHalf ∧
      s.engine.next = (i + played) % bdlEntries ∧ s.engine.left + played = total s.unfinished ∧
      ∀ x xs, s.unfinished = x :: xs → played < x.pages.length

/-- A write that is accepted finds at most one half, in the other half of the buffer. -/
theorem Inv.other {s : State} (hs : Inv s) (hroom : s.driver.buffersOccupied < 2) :
    (s.unfinished = [] ∧ s.engine.left = 0 ∧ s.engine.next = s.driver.swLvi) ∨
    ∃ x played, s.unfinished = [x] ∧
      Placed s.driver.physPages s.memory.bdl x (1 - s.driver.activeHalf) ∧
      s.driver.swLvi = (x.first + x.pages.length) % bdlEntries ∧
      s.engine.next = (x.first + played) % bdlEntries ∧
      s.engine.left + played = x.pages.length := by
  obtain ⟨i, hi, h, played, hq, hnext, hleft, hplayed⟩ := hs.queue
  have hcount := hs.count
  match hun : s.unfinished with
  | [] =>
    left
    rw [hun] at hq hleft
    obtain ⟨rfl, -⟩ := hq
    have hzero : s.engine.left + played = 0 := hleft
    have hp : played = 0 := by omega
    rw [hp, Nat.add_zero, Nat.mod_eq_of_lt hi] at hnext
    exact ⟨rfl, by omega, hnext⟩
  | [x] =>
    right
    rw [hun] at hq hleft
    obtain ⟨rfl, hx, hj, hk⟩ := hq
    have hhalf : h = 1 - s.driver.activeHalf := by
      have := hx.half
      omega
    exact ⟨x, played, rfl, hhalf ▸ hx, hj.symm, hnext, hleft⟩
  | x :: y :: xs =>
    rw [hun, List.length_cons, List.length_cons] at hcount
    omega

/-- No store of a write is at a page or a descriptor of a half that is still to be played. -/
theorem stores_apart {s : State} (hs : Inv s) (buffer : List Byte) :
    ∀ st ∈ (writeData s.driver buffer).stores, ∀ x ∈ s.unfinished,
      st.page ∉ x.pages ∧ ∀ p < x.pages.length, st.index ≠ (x.first + p) % bdlEntries := by
  intro st hst x hx
  rcases writeData_cases hs.ready buffer with ⟨hw, -⟩ | ⟨-, hroom, used, -, hused, hdata, hw⟩
  · rw [hw] at hst
    cases hst
  rw [hw] at hst
  replace hst : st ∈ stores s.driver used 0 (accepted buffer) := hst
  rcases hs.other hroom with ⟨hun, -⟩ | ⟨y, played, hun, hy, hlvi, -⟩
  · rw [hun] at hx
    cases hx
  rw [hun, List.mem_singleton] at hx
  subst hx
  obtain ⟨k, hk⟩ := List.getElem?_of_mem hst
  have hhalf : halfPages = 8 ∧ bdlEntries = 32 := ⟨rfl, rfl⟩
  have hcount := length_stores s.driver used 0 (accepted buffer) (by omega)
  have hklt : k < used := by
    obtain ⟨hlt, -⟩ := List.getElem?_eq_some_iff.mp hk
    omega
  have hactive := hs.active
  have hle := hy.le
  obtain ⟨hindex, hpage, -⟩ := stores_getElem s.driver used 0 _ k st hk
  refine ⟨fun hmem => ?_, fun p hp h => ?_⟩
  · obtain ⟨p, hp, heq⟩ := hy.pages _ hmem
    rw [hpage, hhalf.1] at heq
    have := hs.ready.apart _ (by omega) _ (by omega) heq
    omega
  · rw [hindex, hlvi, Nat.zero_add] at h
    exact index_ne (by omega) hp hklt h.symm

/-! ## The invariant along a run -/

theorem Queue.frame {phys : Nat → Nat} {bdl : Nat → Entry} {xs : List Half} {i h j k : Nat}
    (hq : Queue phys bdl i h xs j k) (bdl' : Nat → Entry)
    (hframe : ∀ x ∈ xs, ∀ p < x.pages.length,
      bdl' ((x.first + p) % bdlEntries) = bdl ((x.first + p) % bdlEntries)) :
    Queue phys bdl' i h xs j k := by
  induction xs generalizing i h with
  | nil => exact hq
  | cons x xs ih =>
    exact ⟨hq.1, hq.2.1.frame (hframe x (List.mem_cons_self ..)),
      ih hq.2.2 fun y hy => hframe y (List.mem_cons_of_mem _ hy)⟩

theorem total_append (xs : List Half) (x : Half) :
    total (xs ++ [x]) = total xs + x.pages.length := by
  simp [total]

theorem Inv.total_le {s : State} (hs : Inv s) (hroom : s.driver.buffersOccupied < 2) :
    total s.unfinished ≤ halfPages := by
  rcases hs.other hroom with ⟨hun, -⟩ | ⟨x, played, hun, hx, -⟩
  · rw [hun]
    exact Nat.zero_le _
  · rw [hun]
    exact hx.le

/-- The half that a write queues. -/
theorem placed_stores {s : State} (hs : Inv s) {used : Nat} (hpos : 0 < used)
    (hused : used ≤ halfPages) {data : List Byte} (hdata : used = (data.length + 4095) / 4096) :
    Placed s.driver.physPages (s.memory.applyAll (stores s.driver used 0 data)).bdl
      { first := s.driver.swLvi, pages := (stores s.driver used 0 data).map (·.page) }
      s.driver.activeHalf := by
  have hlen : data.length ≤ 4096 * used := by omega
  have hcount := length_stores s.driver used 0 data hlen
  have hpages : ((stores s.driver used 0 data).map (·.page)).length = used := by
    rw [List.length_map]
    omega
  have hpairs := stores_pairwise hs.ready hs.active hused hlen
  have hentry : ∀ p < used, ∃ st, (stores s.driver used 0 data)[p]? = some st ∧
      (s.memory.applyAll (stores s.driver used 0 data)).bdl ((s.driver.swLvi + p) % bdlEntries) =
        st.entry := by
    intro p hp
    have hget := List.getElem?_eq_getElem (l := stores s.driver used 0 data) (i := p) (by omega)
    obtain ⟨hindex, -⟩ := stores_getElem s.driver used 0 data p _ hget
    refine ⟨_, hget, ?_⟩
    rw [Nat.zero_add] at hindex
    rw [← hindex]
    exact (applyAll_mem _ hpairs _ (List.mem_of_getElem? hget)).1
  refine ⟨hs.active, by rw [hpages]; exact hpos, by rw [hpages]; exact hused, ?_, ?_, ?_⟩
  · intro a ha
    obtain ⟨st, hst, rfl⟩ := List.mem_map.mp ha
    obtain ⟨k, hk⟩ := List.getElem?_of_mem hst
    obtain ⟨hlt, -⟩ := List.getElem?_eq_some_iff.mp hk
    refine ⟨k, by omega, ?_⟩
    rw [(stores_getElem s.driver used 0 data k st hk).2.1, Nat.zero_add]
  · intro p hp
    obtain ⟨st, hst, hbdl⟩ := hentry p (hpages ▸ hp)
    rw [hbdl]
    exact List.mem_map_of_mem (List.mem_of_getElem? hst)
  · intro p hp
    obtain ⟨st, hst, hbdl⟩ := hentry p (hpages ▸ hp)
    have hlast := (stores_getElem s.driver used 0 data p st hst).2.2.2 hlen
    rw [hbdl, List.length_map, ← hlast, st.entry_flags]

theorem inv_write {s : State} (hs : Inv s) (buffer : List Byte) : Inv (write s buffer) := by
  have hapart := stores_apart hs buffer
  rcases writeData_cases hs.ready buffer with
    ⟨hw, -⟩ | ⟨-, hroom, used, hpos, hused, hdata, hw⟩
  · rw [write, hw]
    exact hs
  rw [hw] at hapart
  rw [write, hw]
  have hle := hs.total_le hroom
  obtain ⟨i, hi, h, played, hq, hnext, hleft, hplayed⟩ := hs.queue
  have hlvi := hq.last hi
  have hhalf : halfPages = 8 ∧ bdlEntries = 32 := ⟨rfl, rfl⟩
  have hx := placed_stores hs hpos hused hdata
  have hlength : ((stores s.driver used 0 (accepted buffer)).map (·.page)).length = used := by
    rw [List.length_map, length_stores _ _ _ _ (by omega)]
    exact hdata.symm
  refine ⟨⟨hs.ready.bdl, hs.ready.first, hs.ready.apart⟩, ?_, ?_, ?_, i, hi, h, played, ?_, hnext,
    ?_, ?_⟩
  · change 1 - s.driver.activeHalf < 2
    omega
  · have hcount := hs.count
    change s.driver.buffersOccupied + 1 = (s.unfinished ++ [_]).length + s.engine.pending
    rw [List.length_append, List.length_singleton]
    omega
  · exact hroom
  · have hframe := hq.frame (s.memory.applyAll (stores s.driver used 0 (accepted buffer))).bdl
      fun x hx p hp => applyAll_bdl_of_ne _ fun st hst => (hapart st hst x hx).2 p hp
    have happend := hframe.append hx rfl
    rw [hlength] at happend
    exact happend
  · rw [total_append, hlength]
    change ((s.driver.swLvi + used - 1) % bdlEntries + bdlEntries + 1 - s.engine.next) %
      bdlEntries + played = total s.unfinished + used
    rw [hlvi, hnext, hhalf.2]
    rw [hhalf.1] at hle hused
    omega
  · intro x xs hxs
    match hun : s.unfinished with
    | [] =>
      rw [hun] at hxs hleft
      cases hxs
      change played < ((stores s.driver used 0 (accepted buffer)).map (·.page)).length
      have hzero : s.engine.left + played = 0 := hleft
      omega
    | y :: ys =>
      rw [hun] at hxs
      obtain ⟨rfl, -⟩ := List.cons.inj hxs
      exact hplayed _ ys hun

theorem inv_finish {s : State} (hs : Inv s) : Inv (finish s) := by
  rw [finish]
  by_cases hzero : s.engine.left = 0
  · rw [if_pos hzero]
    exact hs
  rw [if_neg hzero]
  obtain ⟨i, hi, h, played, hq, hnext, hleft, hplayed⟩ := hs.queue
  have hcount := hs.count
  have hhalf : bdlEntries = 32 := rfl
  match hun : s.unfinished with
  | [] =>
    rw [hun] at hleft
    change s.engine.left + played = 0 at hleft
    omega
  | x :: xs =>
    have hlt := hplayed x xs hun
    rw [hun] at hq hleft hcount
    obtain ⟨rfl, hx, hrest⟩ := hq
    change s.engine.left + played = x.pages.length + total xs at hleft
    have hflags : (s.memory.bdl s.engine.next).flags = 0x8000 ↔ played + 1 = x.pages.length := by
      rw [hnext]
      exact hx.flags played hlt
    by_cases hlast : played + 1 = x.pages.length
    · dsimp only
      rw [if_pos (hflags.mpr hlast)]
      refine ⟨hs.ready, hs.active, ?_, hs.le, (x.first + x.pages.length) % bdlEntries,
        Nat.mod_lt _ (by decide), 1 - h, 0, hrest, ?_, ?_, ?_⟩
      · rw [List.length_cons] at hcount
        change s.driver.buffersOccupied = xs.length + (s.engine.pending + 1)
        omega
      · change (s.engine.next + 1) % bdlEntries = _
        rw [hnext, ← hlast, hhalf]
        omega
      · change s.engine.left - 1 + 0 = total xs
        omega
      · intro y ys hys
        change xs = y :: ys at hys
        subst hys
        exact hrest.2.1.pos
    · dsimp only
      rw [if_neg fun h => hlast (hflags.mp h)]
      refine ⟨hs.ready, hs.active, ?_, hs.le, x.first, hi, h, played + 1, ⟨rfl, hx, hrest⟩,
        ?_, ?_, ?_⟩
      · exact hcount
      · change (s.engine.next + 1) % bdlEntries = _
        rw [hnext, hhalf]
        omega
      · change s.engine.left - 1 + (played + 1) = x.pages.length + total xs
        omega
      · intro y ys hys
        change x :: xs = y :: ys at hys
        cases hys
        omega

theorem status_pending {e : Engine} (h : 0 < e.pending) (other : BitVec 16) :
    e.status other &&& 0x08 ≠ 0 := by
  intro hzero
  rw [Engine.status, if_pos h] at hzero
  have hbit := congrArg (fun b : BitVec 16 => b.getLsbD 3) hzero
  simp at hbit

theorem status_idle {e : Engine} (h : ¬0 < e.pending) (other : BitVec 16) :
    e.status other &&& 0x08 = 0 ∧ e.status other &&& 0x20 = 0 := by
  rw [Engine.status, if_neg h, BitVec.and_assoc, BitVec.and_assoc]
  have h8 : ~~~bufferComplete &&& 0x08 = 0 := by decide
  have h20 : ~~~bufferComplete &&& 0x20 = 0 := by decide
  rw [h8, h20]
  exact ⟨BitVec.and_zero, BitVec.and_zero⟩

/-- Each interrupt raised frees one slot, and no other interrupt does. -/
theorem interrupt_eq {s : State} (hs : Inv s) (other : BitVec 16) : interrupt s other =
    if 0 < s.engine.pending then { s with
      driver := { s.driver with buffersOccupied := s.driver.buffersOccupied - 1 }
      engine := { s.engine with pending := s.engine.pending - 1 } }
    else s := by
  have hcount := hs.count
  rw [interrupt, onInterrupt]
  by_cases hp : 0 < s.engine.pending
  · rw [if_pos hp, if_pos (Or.inl (status_pending hp other)), if_pos (by omega)]
    rfl
  · obtain ⟨h8, h20⟩ := status_idle hp other
    rw [if_neg hp, if_neg (not_or.mpr ⟨not_not_intro h8, not_not_intro h20⟩)]
    rfl

theorem inv_interrupt {s : State} (hs : Inv s) (other : BitVec 16) : Inv (interrupt s other) := by
  rw [interrupt_eq hs]
  by_cases hp : 0 < s.engine.pending
  · rw [if_pos hp]
    have hcount := hs.count
    have hle := hs.le
    refine ⟨⟨hs.ready.bdl, hs.ready.first, hs.ready.apart⟩, hs.active, ?_, ?_, hs.queue⟩
    · change s.driver.buffersOccupied - 1 = s.unfinished.length + (s.engine.pending - 1)
      omega
    · change s.driver.buffersOccupied - 1 ≤ 2
      omega
  · rw [if_neg hp]
    exact hs

theorem inv_step {s : State} (hs : Inv s) : ∀ op, Inv (step s op)
  | .write buffer => inv_write hs buffer
  | .finish => inv_finish hs
  | .interrupt other => inv_interrupt hs other

/-! ## What the engine plays -/

/-- A write leaves what is still to be played as it is. -/
theorem left_frame {s : State} (hs : Inv s) (buffer : List Byte)
    (hroom : s.driver.buffersOccupied < 2) : ∀ k < s.engine.left,
    (write s buffer).memory.bdl ((s.engine.next + k) % bdlEntries) =
      s.memory.bdl ((s.engine.next + k) % bdlEntries) ∧
    (write s buffer).memory.samples (s.memory.bdl ((s.engine.next + k) % bdlEntries)) =
      s.memory.samples (s.memory.bdl ((s.engine.next + k) % bdlEntries)) := by
  intro k hk
  have hapart := stores_apart hs buffer
  rcases hs.other hroom with ⟨-, hleft, -⟩ | ⟨x, played, hun, hx, -, hnext, hleft⟩
  · omega
  have hmem : x ∈ s.unfinished := by
    rw [hun]
    exact List.mem_singleton_self x
  have hindex : (s.engine.next + k) % bdlEntries = (x.first + (played + k)) % bdlEntries := by
    rw [hnext, Nat.mod_add_mod, Nat.add_assoc]
  have hlt : played + k < x.pages.length := by omega
  rw [hindex]
  refine ⟨applyAll_bdl_of_ne _ fun st hst => (hapart st hst x hmem).2 _ hlt, ?_⟩
  refine congrArg (List.take _) (applyAll_pages_of_ne _ fun st hst heq => ?_)
  exact (hapart st hst x hmem).1 (heq ▸ hx.addr _ hlt)

/-- The descriptors of a write describe the data but for the last byte of an odd number. -/
theorem written_samples {s : State} (hs : Inv s) {used : Nat} (hused : used ≤ halfPages)
    {data : List Byte} (hdata : used = (data.length + 4095) / 4096) :
    (window bdlEntries (s.memory.applyAll (stores s.driver used 0 data)).bdl s.driver.swLvi
      used).flatMap (s.memory.applyAll (stores s.driver used 0 data)).samples =
      data.take (2 * (data.length / 2)) := by
  have hlen : data.length ≤ 4096 * used := by omega
  have hcount := length_stores s.driver used 0 data hlen
  have hpairs := stores_pairwise hs.ready hs.active hused hlen
  have hwindow : window bdlEntries (s.memory.applyAll (stores s.driver used 0 data)).bdl
      s.driver.swLvi used = (stores s.driver used 0 data).map Store.entry := by
    refine List.ext_getElem (by rw [length_window, List.length_map]; omega) fun k hk hk' => ?_
    rw [length_window] at hk
    have hget := List.getElem?_eq_getElem (l := stores s.driver used 0 data) (i := k) (by omega)
    obtain ⟨hindex, -⟩ := stores_getElem s.driver used 0 data k _ hget
    rw [Nat.zero_add] at hindex
    simp only [window, List.getElem_map, List.getElem_range]
    rw [← hindex]
    exact (applyAll_mem _ hpairs _ (List.mem_of_getElem? hget)).1
  rw [hwindow, List.flatMap_map, ← stores_heard s.driver used 0 data hlen]
  refine List.flatMap_congr fun st hst => ?_
  obtain ⟨k, hk⟩ := List.getElem?_of_mem hst
  obtain ⟨old, hold⟩ := (applyAll_mem s.memory hpairs st hst).2
  exact samples_entry (stores_getElem s.driver used 0 data k st hk).2.2.1 hold

/-- A write puts what its descriptors describe behind all that was queued. -/
theorem toPlay_write {s : State} (hs : Inv s) (buffer : List Byte) :
    ((writeData s.driver buffer).result = 0 ∧ (write s buffer).toPlay = s.toPlay ∧
      (buffer = [] ∨ 2 ≤ s.driver.buffersOccupied)) ∨
    ((writeData s.driver buffer).result = (accepted buffer).length ∧
      s.driver.buffersOccupied < 2 ∧
      (write s buffer).toPlay =
        s.toPlay ++ (accepted buffer).take (2 * ((accepted buffer).length / 2))) := by
  rcases writeData_cases hs.ready buffer with
    ⟨hw, hrefused⟩ | ⟨-, hroom, used, hpos, hused, hdata, hw⟩
  · left
    rw [write, hw]
    exact ⟨rfl, rfl, hrefused⟩
  right
  have hframe := left_frame hs buffer hroom
  have hle := hs.total_le hroom
  obtain ⟨i, hi, h, played, hq, hnext, hleft, -⟩ := hs.queue
  have hlvi := hq.last hi
  have hhalf : halfPages = 8 ∧ bdlEntries = 32 := ⟨rfl, rfl⟩
  have hnew := written_samples hs hused hdata
  rw [write, hw] at hframe ⊢
  have hsetLvi : ((s.driver.swLvi + used - 1) % bdlEntries + bdlEntries + 1 - s.engine.next) %
      bdlEntries = s.engine.left + used := by
    rw [hhalf.1] at hle hused
    rw [hlvi, hnext, hhalf.2]
    omega
  have hend : (s.engine.next + s.engine.left) % bdlEntries = s.driver.swLvi := by
    rw [hlvi, hnext, Nat.mod_add_mod]
    exact congrArg (· % bdlEntries) (by omega)
  refine ⟨rfl, hroom, ?_⟩
  rw [State.toPlay]
  dsimp only [Engine.setLvi]
  rw [hsetLvi, window_add, hend, List.flatMap_append, hnew, State.toPlay]
  refine congrArg (· ++ _) ?_
  rw [window_congr fun k hk => (hframe k hk).1]
  refine List.flatMap_congr fun e he => ?_
  obtain ⟨k, hk, rfl⟩ := List.mem_map.mp he
  exact (hframe k (List.mem_range.mp hk)).2

/-- The engine plays from the front. -/
theorem toPlay_finish {s : State} (hs : Inv s) :
    ∃ front, s.toPlay = front ++ (finish s).toPlay := by
  rw [finish]
  by_cases hzero : s.engine.left = 0
  · rw [if_pos hzero]
    exact ⟨[], rfl⟩
  rw [if_neg hzero]
  obtain ⟨i, -, -, played, -, hnext, -⟩ := hs.queue
  have hlt : s.engine.next % bdlEntries = s.engine.next := by
    rw [hnext, Nat.mod_mod]
  obtain ⟨left, hleft⟩ := Nat.exists_eq_succ_of_ne_zero hzero
  refine ⟨s.memory.samples (s.memory.bdl s.engine.next), ?_⟩
  rw [State.toPlay, hleft, window_cons, hlt, List.flatMap_cons]
  dsimp only
  split <;> rfl

theorem toPlay_interrupt {s : State} (hs : Inv s) (other : BitVec 16) :
    (interrupt s other).toPlay = s.toPlay := by
  rw [interrupt_eq hs]
  split <;> rfl

/-- No write touches a half that is still to be played, and the bytes that it says it queued are
played next after all that was queued before. -/
def Right (s : State) : Op → Prop
  | .write buffer =>
    (∀ st ∈ (writeData s.driver buffer).stores, ∀ x ∈ s.unfinished,
      st.page ∉ x.pages ∧ ∀ p < x.pages.length, st.index ≠ (x.first + p) % bdlEntries) ∧
    (step s (.write buffer)).toPlay =
      s.toPlay ++ buffer.take (writeData s.driver buffer).result
  | .finish => ∃ front, s.toPlay = front ++ (step s .finish).toPlay
  | .interrupt other => (step s (.interrupt other)).toPlay = s.toPlay

/-- The call finds no room, or accepts an even number of bytes. -/
def StepOk (s : State) : Op → Prop
  | .write buffer => 2 ≤ s.driver.buffersOccupied ∨ min halfSize buffer.length % 2 = 0
  | _ => True

theorem right_step_iff {s : State} (hs : Inv s) (op : Op) : Right s op ↔ StepOk s op := by
  cases op with
  | finish => exact iff_of_true (toPlay_finish hs) trivial
  | interrupt other => exact iff_of_true (toPlay_interrupt hs other) trivial
  | write buffer =>
    refine (and_iff_right (stores_apart hs buffer)).trans ?_
    have hlen : (accepted buffer).length = min halfSize buffer.length := List.length_take
    rcases toPlay_write hs buffer with ⟨hresult, hplay, hrefused⟩ | ⟨hresult, hroom, hplay⟩
    · refine iff_of_true ?_ (hrefused.symm.imp_right ?_)
      · rw [step, hplay, hresult, List.take_zero, List.append_nil]
      · rintro rfl
        rfl
    · have htake : buffer.take (accepted buffer).length = accepted buffer := by
        rw [hlen, ← List.take_take, List.take_length]
        rfl
      rw [step, hplay, hresult, htake, List.append_cancel_left_eq, StepOk, or_iff_right (by omega),
        ← hlen]
      constructor
      · intro h
        have hl := congrArg List.length h
        rw [List.length_take] at hl
        omega
      · intro h
        exact List.take_of_length_le (by omega)

/-- The state after `Activate`, with the pages and the descriptor list that it got. -/
def activated (physPages : Nat → Nat) (physBdlAddr : Nat) : State where
  driver := {
    physPages := physPages, physBdlAddr := physBdlAddr
    swLvi := 0, activeHalf := 0, buffersOccupied := 0 }
  memory := { pages := fun _ => List.replicate 4096 0, bdl := fun _ => ⟨0, 0, 0⟩ }
  engine := { next := 0, left := 0, pending := 0 }
  unfinished := []

theorem inv_activated {physPages : Nat → Nat} {physBdlAddr : Nat}
    (h : (activated physPages physBdlAddr).driver.Ready) :
    Inv (activated physPages physBdlAddr) where
  ready := h
  active := Nat.zero_lt_two
  count := rfl
  le := Nat.zero_le _
  queue := ⟨0, by decide, 0, 0, ⟨rfl, rfl⟩, rfl, rfl, nofun⟩

/-- Along a run, every call queues what it says exactly when every accepted size is even. -/
theorem queued_along_iff {physPages : Nat → Nat} {physBdlAddr : Nat}
    (h : (activated physPages physBdlAddr).driver.Ready) (ops : List Op) :
    Along step Right (activated physPages physBdlAddr) ops ↔
      Along step StepOk (activated physPages physBdlAddr) ops :=
  Along.iff_of_inv (fun _ op hs _ => inv_step hs op) (fun _ op hs => right_step_iff hs op)
    (inv_activated h)

/-- Sixteen pages one after the other, then the descriptor list. -/
theorem ready_consecutive : (activated (fun p => 0x1000 * (p + 1)) 0x20000).driver.Ready where
  bdl := by decide
  first := by decide
  apart := fun p _ q _ h => by
    change 0x1000 * (p + 1) = 0x1000 * (q + 1) at h
    omega

theorem queued_two_halves : Along step Right (activated (fun p => 0x1000 * (p + 1)) 0x20000)
    [.write [1, 2], .write [3, 4, 5, 6], .finish, .interrupt 0, .write [7, 8]] :=
  (queued_along_iff ready_consecutive _).mpr
    ⟨Or.inr rfl, Or.inr rfl, trivial, trivial, Or.inr rfl, trivial⟩

/-- A single byte is accepted and never played. -/
theorem single_byte_lost : ¬Along step Right (activated (fun p => 0x1000 * (p + 1)) 0x20000)
    [.write [1]] := by
  rintro ⟨hright, -⟩
  rcases (right_step_iff (inv_activated ready_consecutive) _).mp hright with h | h
  · exact absurd h (by decide)
  · exact absurd h (by decide)

end Ac97

end Hashx86
