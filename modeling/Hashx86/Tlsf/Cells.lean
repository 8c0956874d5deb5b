import Hashx86.Tlsf.Defs

/-!
# Blocks of the pool, one behind the other

A `Cell` is a block with what its header says. The headers of a pool are the headers of a list of
cells, of which the last one is the mark at the end of the pool.

* `Tiled`: the cells follow one another.
* `Cells`: the headers in memory, each with the mark of the block before it.
* `Cells.replace`: the rule for every change of the pool. Cells in the middle are replaced by others
  in their place; the memory before them and behind the next header has not changed.
-/

namespace Hashx86

open Lib

namespace Tlsf

/-- A block of the pool. -/
structure Cell where
  addr : Nat
  size : Nat
  free : Bool
  deriving DecidableEq

/-- The next block. -/
def Cell.next (c : Cell) : Nat := c.addr + c.size + 4

/-- What a user of the block may use. -/
def Cell.payload (c : Cell) : Nat := c.addr + 8

/-- A block that is not the mark at the end. -/
structure Cell.Sized (c : Cell) : Prop where
  min : 12 ≤ c.size
  max : c.size < 2 ^ 30
  words : c.size % 4 = 0

/-- The mark at the end of the pool. -/
def last (stop : Nat) : Cell := ⟨stop, 0, false⟩

/-- The size field of a header. -/
def word (size : Nat) (free prev : Bool) : Nat := size + (free.toNat + 2 * prev.toNat)

/-- The cells follow one another from `a` to `e`. -/
def Tiled : Nat → List Cell → Nat → Prop
  | a, [], e => a = e
  | a, c :: cs, e => c.addr = a ∧ Tiled c.next cs e

/-- The header of a block in memory, where `prev` says whether the block before it is free. -/
structure Holds (mem : Nat → UInt8) (c : Cell) (prev : Bool) : Prop where
  size : sizeField mem c.addr = word c.size c.free prev
  link : c.free = true → prevPhysBlock mem c.next = c.addr

/-- The headers of cells that follow one another. -/
def Cells (mem : Nat → UInt8) : Bool → List Cell → Prop
  | _, [] => True
  | prev, c :: cs => Holds mem c prev ∧ Cells mem c.free cs

/-- Whether the last cell is free. -/
def lastFree : Bool → List Cell → Bool
  | prev, [] => prev
  | _, c :: cs => lastFree c.free cs

variable {mem mem' : Nat → UInt8} {a e : Nat} {p : Bool} {c d n : Cell} {cs pre mid mid' post : List Cell}

@[simp] theorem lastFree_append_singleton (p : Bool) (cs : List Cell) (c : Cell) :
    lastFree p (cs ++ [c]) = c.free := by
  induction cs generalizing p with
  | nil => rfl
  | cons d cs ih => exact ih d.free

theorem tiled_append : Tiled a (pre ++ post) e ↔ ∃ b, Tiled a pre b ∧ Tiled b post e := by
  induction pre generalizing a with
  | nil => simp [Tiled]
  | cons c pre ih => simp only [List.cons_append, Tiled, ih, exists_and_left, and_assoc]

theorem cells_append : Cells mem p (pre ++ post) ↔
    Cells mem p pre ∧ Cells mem (lastFree p pre) post := by
  induction pre generalizing p with
  | nil => simp [Cells, lastFree]
  | cons c pre ih => simp only [List.cons_append, Cells, lastFree, ih, and_assoc]

theorem lastFree_append (p : Bool) (pre post : List Cell) :
    lastFree p (pre ++ post) = lastFree (lastFree p pre) post := by
  induction pre generalizing p with
  | nil => rfl
  | cons c pre ih => exact ih c.free

theorem Tiled.le (h : Tiled a cs e) : a ≤ e := by
  induction cs generalizing a with
  | nil => exact Nat.le_of_eq h
  | cons c cs ih =>
    have := ih h.2
    have := h.1
    unfold Cell.next at *
    omega

theorem Tiled.mem_bounds (h : Tiled a cs e) (hc : c ∈ cs) : a ≤ c.addr ∧ c.next ≤ e := by
  induction cs generalizing a with
  | nil => exact absurd hc List.not_mem_nil
  | cons d cs ih =>
    rcases List.mem_cons.mp hc with rfl | hmem
    · exact ⟨Nat.le_of_eq h.1.symm, h.2.le⟩
    · obtain ⟨h1, h2⟩ := ih h.2 hmem
      have := h.1
      unfold Cell.next at h1 ⊢
      exact ⟨by omega, h2⟩

/-- Two cells are one, or one ends before the other starts. -/
theorem Tiled.apart (h : Tiled a cs e) (hc : c ∈ cs) (hd : d ∈ cs) :
    c = d ∨ c.next ≤ d.addr ∨ d.next ≤ c.addr := by
  induction cs generalizing a with
  | nil => exact absurd hc List.not_mem_nil
  | cons b cs ih =>
    rcases List.mem_cons.mp hc with rfl | hc'
    · rcases List.mem_cons.mp hd with rfl | hd'
      · exact .inl rfl
      · exact .inr (.inl (h.2.mem_bounds hd').1)
    · rcases List.mem_cons.mp hd with rfl | hd'
      · exact .inr (.inr (h.2.mem_bounds hc').1)
      · exact ih h.2 hc' hd'

theorem Tiled.eq_of_addr (h : Tiled a cs e) (hc : c ∈ cs) (hd : d ∈ cs) (heq : c.addr = d.addr) :
    c = d := by
  rcases h.apart hc hd with h1 | h1 | h1
  · exact h1
  all_goals unfold Cell.next at h1; omega

theorem Tiled.nodup (h : Tiled a cs e) : cs.Nodup := by
  induction cs generalizing a with
  | nil => exact List.nodup_nil
  | cons c cs ih =>
    refine List.nodup_cons.mpr ⟨fun hc => ?_, ih h.2⟩
    have := (h.2.mem_bounds hc).1
    unfold Cell.next at this
    omega

/-! ## What the headers say -/

theorem Holds.congr (h : Holds mem c p) (hsize : sizeField mem' c.addr = sizeField mem c.addr)
    (hlink : c.free = true → prevPhysBlock mem' c.next = prevPhysBlock mem c.next) : Holds mem' c p :=
  ⟨hsize.trans h.size, fun hf => (hlink hf).trans (h.link hf)⟩

/-- The cells between `a` and `e` have their headers from `a + 4` to `e + 4`. -/
theorem Cells.congr (h : Cells mem p cs) (ht : Tiled a cs e)
    (hm : ∀ x, a + 4 ≤ x → x < e + 4 → mem' x = mem x) : Cells mem' p cs := by
  induction cs generalizing a p with
  | nil => trivial
  | cons c cs ih =>
    obtain ⟨hc, hrest⟩ := h
    have ha := ht.1
    have hle := ht.2.le
    have hstep : a + 4 ≤ c.next ∧ c.addr + 8 ≤ e + 4 := by
      unfold Cell.next at hle ⊢
      omega
    refine ⟨hc.congr (read32_congr fun x h1 h2 => hm x (by omega) (by omega)) fun _ =>
      read32_congr fun x h1 h2 => hm x (by omega) (by omega), ?_⟩
    exact ih hrest ht.2 fun x h1 h2 => hm x (by omega) h2

theorem Cells.replace {b : Nat} (h : Cells mem p (pre ++ mid ++ n :: post)) (hpre : Tiled a pre b)
    (hpost : Tiled n.addr (n :: post) e) (hlow : ∀ x, x < b + 4 → mem' x = mem x)
    (hhigh : ∀ x, n.addr + 8 ≤ x → mem' x = mem x) (hnew : Cells mem' (lastFree p pre) mid')
    (htag : sizeField mem' n.addr = word n.size n.free (lastFree (lastFree p pre) mid'))
    (hn : n.free = true → 4 ≤ n.size) : Cells mem' p (pre ++ mid' ++ n :: post) := by
  rw [cells_append, cells_append] at h ⊢
  obtain ⟨⟨h1, -⟩, h2, h3⟩ := h
  rw [lastFree_append]
  refine ⟨⟨h1.congr hpre fun x _ hx => hlow x hx, hnew⟩, ⟨htag, fun hf => ?_⟩, ?_⟩
  · have := hn hf
    refine (read32_congr fun x hx _ => hhigh x ?_).trans (h2.link hf)
    unfold Cell.next at hx
    omega
  · refine h3.congr hpost.2 fun x hx _ => hhigh x ?_
    unfold Cell.next at hx
    omega

/-! ## Bits of a size field -/

theorem or_low {k b m : Nat} (hb : b < 4) (hm : m < 4) : (4 * k + b) ||| m = 4 * k + (b ||| m) := by
  have h1 := Nat.or_div_two_pow (a := 4 * k + b) (b := m) (n := 2)
  have h2 := Nat.or_mod_two_pow (a := 4 * k + b) (b := m) (n := 2)
  have h3 : (4 * k + b) / 2 ^ 2 = k := by omega
  have h4 : (4 * k + b) % 2 ^ 2 = b := by omega
  have h5 : m / 2 ^ 2 = 0 := by omega
  have h6 : m % 2 ^ 2 = m := by omega
  rw [h3, h5, Nat.or_zero] at h1
  rw [h4, h6] at h2
  omega

theorem and_low {k b m : Nat} (hb : b < 4) (hm : m < 4) : (4 * k + b) &&& m = b &&& m := by
  have h1 := Nat.and_div_two_pow (a := 4 * k + b) (b := m) (n := 2)
  have h2 := Nat.and_mod_two_pow (a := 4 * k + b) (b := m) (n := 2)
  have h4 : (4 * k + b) % 2 ^ 2 = b := by omega
  have h5 : m / 2 ^ 2 = 0 := by omega
  have h6 : m % 2 ^ 2 = m := by omega
  rw [h5, Nat.and_zero] at h1
  rw [h4, h6] at h2
  omega

theorem and_high {k b m : Nat} (hk : k < 2 ^ 30) (hb : b < 4) (hm : m < 4) :
    (4 * k + b) &&& (0xFFFFFFFC + m) = 4 * k + (b &&& m) := by
  have h1 := Nat.and_div_two_pow (a := 4 * k + b) (b := 0xFFFFFFFC + m) (n := 2)
  have h2 := Nat.and_mod_two_pow (a := 4 * k + b) (b := 0xFFFFFFFC + m) (n := 2)
  have h3 : (4 * k + b) / 2 ^ 2 = k := by omega
  have h4 : (4 * k + b) % 2 ^ 2 = b := by omega
  have h5 : (0xFFFFFFFC + m) / 2 ^ 2 = 2 ^ 30 - 1 := by omega
  have h6 : (0xFFFFFFFC + m) % 2 ^ 2 = m := by omega
  rw [h3, h5, Nat.and_two_pow_sub_one_of_lt_two_pow hk] at h1
  rw [h4, h6] at h2
  omega

theorem flags_lt (f q : Bool) : f.toNat + 2 * q.toNat < 4 := by
  cases f <;> cases q <;> decide

theorem exists_flags {w : Nat} (hw : w < 4) : ∃ f q : Bool, w = f.toNat + 2 * q.toNat := by
  have hall : ∀ w < 4, ∃ f q : Bool, w = f.toNat + 2 * q.toNat := by decide
  exact hall w hw

theorem word_lt {size : Nat} (h : size < 2 ^ 30) (f q : Bool) : word size f q < 2 ^ 32 := by
  have := flags_lt f q
  unfold word
  omega

section
variable {size b v x : Nat} {f q : Bool}

theorem word_or (h4 : size % 4 = 0) (m : Nat) (hm : m < 4) :
    word size f q ||| m = size + ((f.toNat + 2 * q.toNat) ||| m) := by
  obtain ⟨k, rfl⟩ := Nat.dvd_of_mod_eq_zero h4
  exact or_low (flags_lt f q) hm

theorem word_and (h4 : size % 4 = 0) (m : Nat) (hm : m < 4) :
    word size f q &&& m = (f.toNat + 2 * q.toNat) &&& m := by
  obtain ⟨k, rfl⟩ := Nat.dvd_of_mod_eq_zero h4
  exact and_low (flags_lt f q) hm

theorem word_and_high (h4 : size % 4 = 0) (h30 : size < 2 ^ 30) (m : Nat) (hm : m < 4) :
    word size f q &&& (0xFFFFFFFC + m) = size + ((f.toNat + 2 * q.toNat) &&& m) := by
  obtain ⟨k, rfl⟩ := Nat.dvd_of_mod_eq_zero h4
  exact and_high (by omega) (flags_lt f q) hm

theorem blockSize_of_word (h : sizeField mem b = word size f q) (h4 : size % 4 = 0)
    (h30 : size < 2 ^ 30) : blockSize mem b = size := by
  unfold blockSize
  rw [h, word_and_high h4 h30 0 (by decide), Nat.and_zero, Nat.add_zero]

theorem blockIsFree_of_word (h : sizeField mem b = word size f q) (h4 : size % 4 = 0) :
    blockIsFree mem b = f := by
  unfold blockIsFree
  rw [h, word_and h4 1 (by decide)]
  cases f <;> cases q <;> rfl

theorem blockIsPrevFree_of_word (h : sizeField mem b = word size f q) (h4 : size % 4 = 0) :
    blockIsPrevFree mem b = q := by
  unfold blockIsPrevFree
  rw [h, word_and h4 2 (by decide)]
  cases f <;> cases q <;> rfl

/-! ## Writes of the fields of a header -/

theorem setSizeField_of_out (h : x < b + 4 ∨ b + 8 ≤ x) : setSizeField mem b v x = mem x :=
  overwrite_of_out _ _ h

theorem setPrevPhysBlock_of_out (h : x < b ∨ b + 4 ≤ x) : setPrevPhysBlock mem b v x = mem x :=
  overwrite_of_out _ _ h

@[simp] theorem sizeField_setPrevPhysBlock_self (mem : Nat → UInt8) (b v : Nat) :
    sizeField (setPrevPhysBlock mem b v) b = sizeField mem b :=
  read32_write32_of_ne _ _ (by omega)

theorem sizeField_setPrevPhysBlock {n : Nat} (h : b + 8 ≤ n ∨ n ≤ b) :
    sizeField (setPrevPhysBlock mem n v) b = sizeField mem b :=
  read32_write32_of_ne _ _ (by omega)

theorem sizeField_setSizeField (hv : v < 2 ^ 32) : sizeField (setSizeField mem b v) b = v :=
  read32_write32 _ _ hv

theorem sizeField_setSizeField_of_ne {n : Nat} (h : b + 4 ≤ n ∨ n + 4 ≤ b) :
    sizeField (setSizeField mem n v) b = sizeField mem b :=
  read32_write32_of_ne _ _ (by omega)

theorem prevPhysBlock_setPrevPhysBlock (hv : v < 2 ^ 32) :
    prevPhysBlock (setPrevPhysBlock mem b v) b = v := read32_write32 _ _ hv

theorem prevPhysBlock_setSizeField {n : Nat} (h : b ≤ n ∨ n + 8 ≤ b) :
    prevPhysBlock (setSizeField mem n v) b = prevPhysBlock mem b :=
  read32_write32_of_ne _ _ (by omega)

theorem setFree_word (h : sizeField mem b = word size f q) (h4 : size % 4 = 0) (h30 : size < 2 ^ 30) :
    sizeField (blockSetFree mem b) b = word size true q := by
  have hw : word size f q ||| 1 = word size true q := by
    rw [word_or h4 1 (by decide)]
    cases f <;> cases q <;> rfl
  unfold blockSetFree
  rw [h, hw, sizeField_setSizeField (word_lt h30 _ _)]

theorem setUsed_word (h : sizeField mem b = word size f q) (h4 : size % 4 = 0) (h30 : size < 2 ^ 30) :
    sizeField (blockSetUsed mem b) b = word size false q := by
  have hw : word size f q &&& 0xFFFFFFFE = word size false q := by
    rw [word_and_high h4 h30 2 (by decide)]
    cases f <;> cases q <;> rfl
  unfold blockSetUsed
  rw [h, hw, sizeField_setSizeField (word_lt h30 _ _)]

theorem setPrevFree_word (h : sizeField mem b = word size f q) (h4 : size % 4 = 0)
    (h30 : size < 2 ^ 30) : sizeField (blockSetPrevFree mem b) b = word size f true := by
  have hw : word size f q ||| 2 = word size f true := by
    rw [word_or h4 2 (by decide)]
    cases f <;> cases q <;> rfl
  unfold blockSetPrevFree
  rw [h, hw, sizeField_setSizeField (word_lt h30 _ _)]

theorem setPrevUsed_word (h : sizeField mem b = word size f q) (h4 : size % 4 = 0)
    (h30 : size < 2 ^ 30) : sizeField (blockSetPrevUsed mem b) b = word size f false := by
  have hw : word size f q &&& 0xFFFFFFFD = word size f false := by
    rw [word_and_high h4 h30 1 (by decide)]
    cases f <;> cases q <;> rfl
  unfold blockSetPrevUsed
  rw [h, hw, sizeField_setSizeField (word_lt h30 _ _)]

theorem setSize_word {new : Nat} (h : sizeField mem b % 4 = f.toNat + 2 * q.toNat) (h4 : new % 4 = 0)
    (h30 : new < 2 ^ 30) : sizeField (blockSetSize mem b new) b = word new f q := by
  have hlow : sizeField mem b &&& 3 = f.toNat + 2 * q.toNat := by
    rw [← h]
    exact Nat.and_two_pow_sub_one_eq_mod _ 2
  have hw : new ||| (f.toNat + 2 * q.toNat) = word new f q := by
    obtain ⟨k, rfl⟩ := Nat.dvd_of_mod_eq_zero h4
    have hor := or_low (k := k) (b := 0) (by decide) (flags_lt f q)
    rw [Nat.add_zero, Nat.zero_or] at hor
    exact hor
  unfold blockSetSize
  rw [hlow, hw, sizeField_setSizeField (word_lt h30 _ _)]

end

end Tlsf
end Hashx86
