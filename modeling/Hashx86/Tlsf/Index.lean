import Hashx86.Lib.Linked
import Hashx86.Tlsf.Cells

/-!
# The free lists and their bitmaps

`Index s lists P` says that the free lists of `s` hold exactly the blocks `P`, each in the list of its
class, and that the bitmaps say which lists are not empty.

* `Index.remove`, `Index.insert`: what `remove_free_block` and `insert_free_block` do to it.
* `Index.search_some`, `Index.search_none`: what `search_suitable_block` finds.
* `LinksOnly`: the two calls write the links of free blocks and of `block_null`, and nothing else.
-/

namespace Hashx86

open Lib

namespace Tlsf

/-! ## Bitmaps -/

theorem getLsbD_bit {i j : Nat} (hi : i < 32) : (bit i).getLsbD j = decide (j = i) := by
  unfold bit
  rw [BitVec.getLsbD_shiftLeft, BitVec.getLsbD_one]
  by_cases h : j = i
  · subst h
    simp [hi]
  · have : ¬ (j < 32 ∧ i ≤ j ∧ j - i = 0) := by omega
    simp only [h, decide_false]
    grind

theorem getLsbD_maskFrom {i j : Nat} (hj : j < 32) : (maskFrom i).getLsbD j = decide (i ≤ j) := by
  unfold maskFrom
  rw [BitVec.getLsbD_shiftLeft, BitVec.getLsbD_allOnes]
  by_cases h : i ≤ j
  · have hlt : j - i < 32 := by omega
    simp [h, hj, hlt]
  · simp [h, Nat.lt_of_not_le h]

theorem getLsbD_clear {w : BitVec 32} {i j : Nat} (hi : i < 32) (hj : j < 32) :
    (w &&& ~~~ bit i).getLsbD j = (w.getLsbD j && !decide (j = i)) := by
  rw [BitVec.getLsbD_and, BitVec.getLsbD_not, getLsbD_bit hi]
  simp [hj]

theorem ne_zero_iff {w : BitVec 32} : w ≠ 0 ↔ ∃ i, i < 32 ∧ w.getLsbD i = true := by
  constructor
  · intro h
    by_contra hn
    refine h (BitVec.eq_of_getLsbD_eq fun i hi => ?_)
    cases hb : w.getLsbD i with
    | false => simp
    | true => exact absurd ⟨i, hi, hb⟩ hn
  · rintro ⟨i, -, hb⟩ rfl
    simp at hb

theorem tlsfFfs_some {w : BitVec 32} {i : Nat} (h : tlsfFfs w = some i) :
    i < 32 ∧ w.getLsbD i = true :=
  ⟨List.mem_range.mp (List.mem_of_find?_eq_some h), List.find?_some h⟩

theorem tlsfFfs_none {w : BitVec 32} (h : tlsfFfs w = none) : w = 0 := by
  by_contra hn
  obtain ⟨i, hi, hb⟩ := ne_zero_iff.mp hn
  exact List.find?_eq_none.mp h i (List.mem_range.mpr hi) hb

/-! ## Links -/

section
variable {mem : Nat → UInt8} {x y z v : Nat}

/-- Two headers are one, or do not overlap. -/
def Spaced (y z : Nat) : Prop := y = z ∨ y + 16 ≤ z ∨ z + 16 ≤ y

theorem nextFree_setNextFree (h : Spaced y z) (hv : v < 2 ^ 32) :
    nextFree (setNextFree mem z v) y = if y = z then v else nextFree mem y := by
  unfold Spaced at h
  by_cases he : y = z
  · rw [if_pos he, he]
    exact read32_write32 _ _ hv
  · rw [if_neg he]
    exact read32_write32_of_ne _ _ (by omega)

theorem prevFree_setPrevFree (h : Spaced y z) (hv : v < 2 ^ 32) :
    prevFree (setPrevFree mem z v) y = if y = z then v else prevFree mem y := by
  unfold Spaced at h
  by_cases he : y = z
  · rw [if_pos he, he]
    exact read32_write32 _ _ hv
  · rw [if_neg he]
    exact read32_write32_of_ne _ _ (by omega)

theorem nextFree_setPrevFree (h : Spaced y z) : nextFree (setPrevFree mem z v) y = nextFree mem y := by
  unfold Spaced at h
  exact read32_write32_of_ne _ _ (by omega)

theorem prevFree_setNextFree (h : Spaced y z) : prevFree (setNextFree mem z v) y = prevFree mem y := by
  unfold Spaced at h
  exact read32_write32_of_ne _ _ (by omega)

theorem setNextFree_of_out (h : x < z + 8 ∨ z + 16 ≤ x) : setNextFree mem z v x = mem x :=
  overwrite_of_out _ _ (by omega)

theorem setPrevFree_of_out (h : x < z + 8 ∨ z + 16 ≤ x) : setPrevFree mem z v x = mem x :=
  overwrite_of_out _ _ (by omega)

end

/-! ## The index -/

/-- `block_null`, or a block of `P`. -/
def Node (control : Nat) (P : Cell → Prop) (y : Nat) : Prop := y = control ∨ ∃ c, P c ∧ c.addr = y

/-- Only links of `block_null` and of blocks of `P` may differ. -/
def LinksOnly (control : Nat) (P : Cell → Prop) (mem mem' : Nat → UInt8) : Prop :=
  ∀ x, (∀ y, Node control P y → x < y + 8 ∨ y + 16 ≤ x) → mem' x = mem x

structure Index (s : State) (lists : Nat → Nat → List Nat) (P : Cell → Prop) : Prop where
  linked : ∀ fl sl, Linked (nextFree s.mem) (prevFree s.mem) s.control s.control (s.blocks fl sl)
    (lists fl sl)
  nodup : ∀ fl sl, (lists fl sl).Nodup
  mem_iff : ∀ fl sl a, a ∈ lists fl sl ↔ ∃ c, P c ∧ c.addr = a ∧ mappingInsert c.size = (fl, sl)
  slBit : ∀ fl sl, sl < 32 → ((s.slBitmap fl).getLsbD sl = true ↔ lists fl sl ≠ [])
  flBit : ∀ fl, fl < 32 → (s.flBitmap.getLsbD fl = true ↔ s.slBitmap fl ≠ 0)
  apart : ∀ c d, P c → P d → c = d ∨ c.addr + 16 ≤ d.addr ∨ d.addr + 16 ≤ c.addr
  above : ∀ c, P c → s.control + 16 ≤ c.addr
  addr : ∀ c, P c → c.addr < 2 ^ 32
  control : s.control < 2 ^ 32
  sized : ∀ c, P c → c.Sized

variable {s : State} {lists : Nat → Nat → List Nat} {P Q : Cell → Prop} {c d : Cell} {fl sl y z : Nat}

theorem Index.congr (h : Index s lists P) (hPQ : ∀ c, P c ↔ Q c) : Index s lists Q := by
  have heq : P = Q := funext fun c => propext (hPQ c)
  exact heq ▸ h

theorem Index.spaced (h : Index s lists P) (hy : Node s.control P y) (hz : Node s.control P z) :
    Spaced y z := by
  unfold Spaced
  rcases hy with rfl | ⟨c, hc, rfl⟩
  · rcases hz with rfl | ⟨d, hd, rfl⟩
    · exact .inl rfl
    · exact .inr (.inl (h.above d hd))
  · rcases hz with rfl | ⟨d, hd, rfl⟩
    · exact .inr (.inr (h.above c hc))
    · rcases h.apart c d hc hd with rfl | hcd
      · exact .inl rfl
      · exact .inr hcd

theorem Index.node_lt (h : Index s lists P) (hy : Node s.control P y) : y < 2 ^ 32 := by
  rcases hy with rfl | ⟨c, hc, rfl⟩
  · exact h.control
  · exact h.addr c hc

theorem Index.node_of_mem (h : Index s lists P) (hy : y ∈ lists fl sl) : Node s.control P y := by
  obtain ⟨c, hc, ha, -⟩ := (h.mem_iff fl sl y).mp hy
  exact .inr ⟨c, hc, ha⟩

/-- Two blocks of `P` at one address are one. -/
theorem Index.eq_of_addr (h : Index s lists P) (hc : P c) (hd : P d) (he : c.addr = d.addr) : c = d := by
  rcases h.apart c d hc hd with h1 | h1
  · exact h1
  · omega

/-- A node is in one list at most. -/
theorem Index.class_unique (h : Index s lists P) {fl' sl' : Nat} (h1 : y ∈ lists fl sl)
    (h2 : y ∈ lists fl' sl') : fl' = fl ∧ sl' = sl := by
  obtain ⟨c, hc, ha, hm⟩ := (h.mem_iff _ _ _).mp h1
  obtain ⟨d, hd, hb, hm'⟩ := (h.mem_iff _ _ _).mp h2
  obtain rfl := h.eq_of_addr hc hd (ha.trans hb.symm)
  exact Prod.mk.inj (hm'.symm.trans hm)

theorem Index.head_node (h : Index s lists P) (fl sl : Nat) : Node s.control P (s.blocks fl sl) := by
  rcases (h.linked fl sl).head with ⟨he, -⟩ | hm
  · exact .inl he
  · exact h.node_of_mem hm

/-! ## Search -/

theorem Index.of_bit (h : Index s lists P) (hsl : sl < 32) (hb : (s.slBitmap fl).getLsbD sl = true) :
    ∃ c, P c ∧ c.addr = s.blocks fl sl ∧ mappingInsert c.size = (fl, sl) := by
  have hne := (h.slBit fl sl hsl).mp hb
  rcases (h.linked fl sl).head with ⟨-, hnil⟩ | hm
  · exact absurd hnil hne
  · exact (h.mem_iff fl sl _).mp hm

theorem Index.bit_of (h : Index s lists P) (hc : P c) :
    (s.slBitmap (mappingInsert c.size).1).getLsbD (mappingInsert c.size).2 = true := by
  have hsl := (mappingInsert_spec c.size).1
  refine (h.slBit _ _ hsl).mpr fun hnil => ?_
  have hm := (h.mem_iff (mappingInsert c.size).1 (mappingInsert c.size).2 c.addr).mpr ⟨c, hc, rfl, rfl⟩
  rw [hnil] at hm
  exact List.not_mem_nil hm

theorem Index.search_some (h : Index s lists P) {b fl' sl' : Nat}
    (hs : searchSuitableBlock s fl sl = some (b, fl', sl')) :
    ∃ c, P c ∧ c.addr = b ∧ mappingInsert c.size = (fl', sl') ∧ ¬ Below (fl', sl') (fl, sl) := by
  unfold searchSuitableBlock at hs
  dsimp only at hs
  by_cases hz : s.slBitmap fl &&& maskFrom sl = 0
  · rw [if_pos hz] at hs
    cases hf : tlsfFfs (s.flBitmap &&& maskFrom (fl + 1)) with
    | none =>
      rw [hf] at hs
      exact absurd hs (by simp)
    | some f =>
      rw [hf] at hs
      obtain ⟨hf32, hfb⟩ := tlsfFfs_some hf
      rw [BitVec.getLsbD_and, getLsbD_maskFrom hf32, Bool.and_eq_true, decide_eq_true_eq] at hfb
      obtain ⟨i, hi, he⟩ := Option.map_eq_some_iff.mp hs
      obtain ⟨rfl, rfl, rfl⟩ : s.blocks f i = b ∧ f = fl' ∧ i = sl' := by simpa using he
      obtain ⟨hi32, hib⟩ := tlsfFfs_some hi
      obtain ⟨c, hc, ha, hm⟩ := h.of_bit hi32 hib
      refine ⟨c, hc, ha, hm, ?_⟩
      unfold Below
      dsimp only
      omega
  · rw [if_neg hz] at hs
    obtain ⟨i, hi, he⟩ := Option.map_eq_some_iff.mp hs
    obtain ⟨rfl, rfl, rfl⟩ : s.blocks fl i = b ∧ fl = fl' ∧ i = sl' := by simpa using he
    obtain ⟨hi32, hib⟩ := tlsfFfs_some hi
    rw [BitVec.getLsbD_and, getLsbD_maskFrom hi32, Bool.and_eq_true, decide_eq_true_eq] at hib
    obtain ⟨c, hc, ha, hm⟩ := h.of_bit hi32 hib.1
    refine ⟨c, hc, ha, hm, ?_⟩
    unfold Below
    dsimp only
    omega

/-- Where nothing is found, every free block is of a class below the one that is searched. -/
theorem Index.search_none (h : Index s lists P) (hs : searchSuitableBlock s fl sl = none) (hc : P c) :
    Below (mappingInsert c.size) (fl, sl) := by
  have hsl := (mappingInsert_spec c.size).1
  have hfl := mappingInsert_fl (h.sized c hc).max
  have hbit := h.bit_of hc
  unfold flIndexCount at hfl
  unfold searchSuitableBlock at hs
  dsimp only at hs
  by_contra hn
  by_cases hz : s.slBitmap fl &&& maskFrom sl = 0
  · rw [if_pos hz] at hs
    by_cases hsame : (mappingInsert c.size).1 = fl
    · have hle : sl ≤ (mappingInsert c.size).2 := by
        unfold Below at hn
        dsimp only at hn
        omega
      refine ne_zero_iff.mpr ⟨(mappingInsert c.size).2, hsl, ?_⟩ hz
      rw [BitVec.getLsbD_and, getLsbD_maskFrom hsl, ← hsame, hbit]
      simpa using hle
    · have hlt : fl + 1 ≤ (mappingInsert c.size).1 := by
        unfold Below at hn
        dsimp only at hn
        omega
      have hsnz : s.slBitmap (mappingInsert c.size).1 ≠ 0 := ne_zero_iff.mpr ⟨_, hsl, hbit⟩
      have hfb := (h.flBit _ (by omega)).mpr hsnz
      cases hf : tlsfFfs (s.flBitmap &&& maskFrom (fl + 1)) with
      | none =>
        refine ne_zero_iff.mpr ⟨(mappingInsert c.size).1, by omega, ?_⟩ (tlsfFfs_none hf)
        rw [BitVec.getLsbD_and, getLsbD_maskFrom (by omega), hfb]
        simpa using hlt
      | some f =>
        rw [hf] at hs
        obtain ⟨hf32, hfb'⟩ := tlsfFfs_some hf
        rw [BitVec.getLsbD_and, Bool.and_eq_true] at hfb'
        exact (h.flBit f hf32).mp hfb'.1 (tlsfFfs_none (Option.map_eq_none_iff.mp hs))
  · rw [if_neg hz] at hs
    exact hz (tlsfFfs_none (Option.map_eq_none_iff.mp hs))

/-! ## Removal and insertion -/

theorem setHead_self (blocks : Nat → Nat → Nat) (fl sl b : Nat) : setHead blocks fl sl b fl sl = b := by
  simp [setHead]

theorem setHead_of_ne {blocks : Nat → Nat → Nat} {fl sl fl' sl' b : Nat} (h : ¬ (fl' = fl ∧ sl' = sl)) :
    setHead blocks fl sl b fl' sl' = blocks fl' sl' := by
  unfold setHead
  by_cases hf : fl' = fl
  · subst hf
    have hs : sl' ≠ sl := fun hs => h ⟨rfl, hs⟩
    simp [hs]
  · simp [hf]

theorem setHead_eq_self {blocks : Nat → Nat → Nat} {fl sl : Nat} :
    setHead blocks fl sl (blocks fl sl) = blocks := by
  unfold setHead
  rw [Function.update_eq_self, Function.update_eq_self]

/-- One list of the index is another one. -/
def setList (lists : Nat → Nat → List Nat) (fl sl : Nat) (l : List Nat) : Nat → Nat → List Nat :=
  fun f i => if f = fl ∧ i = sl then l else lists f i

theorem setList_self (lists : Nat → Nat → List Nat) (fl sl : Nat) (l : List Nat) :
    setList lists fl sl l fl sl = l := if_pos ⟨rfl, rfl⟩

theorem setList_of_ne {fl sl fl' sl' : Nat} {l : List Nat} (h : ¬ (fl' = fl ∧ sl' = sl)) :
    setList lists fl sl l fl' sl' = lists fl' sl' := if_neg h

/-- The bitmaps after a block was taken out, which is the last one of its list if `empty`. -/
def dropBits (s : State) (fl sl : Nat) (empty : Bool) : State := if empty then clearBits s fl sl else s

/-- The state after `remove_free_block`, with the new head of the list and its bits. -/
theorem removeFreeBlock_eq (b : Nat) : removeFreeBlock s b fl sl =
    dropBits
      { s with
        mem := setNextFree (setPrevFree s.mem (nextFree s.mem b) (prevFree s.mem b)) (prevFree s.mem b)
          (nextFree s.mem b)
        blocks := setHead s.blocks fl sl
          (if s.blocks fl sl = b then nextFree s.mem b else s.blocks fl sl) }
      fl sl (decide (s.blocks fl sl = b ∧ nextFree s.mem b = s.control)) := by
  unfold removeFreeBlock dropBits
  dsimp only
  by_cases h1 : s.blocks fl sl = b
  · by_cases h2 : nextFree s.mem b = s.control
    · simp [h1, h2]
    · simp [h1, h2]
  · simp [h1, setHead_eq_self]

theorem dropBits_slBit {empty : Bool} {f i : Nat} (hsl : sl < 32) (hi : i < 32) :
    ((dropBits s fl sl empty).slBitmap f).getLsbD i =
      ((s.slBitmap f).getLsbD i && !(empty && decide (f = fl ∧ i = sl))) := by
  unfold dropBits
  cases empty with
  | false => simp
  | true =>
    unfold clearBits
    rw [if_pos rfl]
    dsimp only
    by_cases hf : f = fl
    · subst hf
      rw [Function.update_self, getLsbD_clear hsl hi]
      simp
    · rw [Function.update_of_ne hf]
      simp [hf]

theorem dropBits_flBit {empty : Bool} {f : Nat} (hfl : fl < 32) (hf : f < 32)
    (hs : ∀ f, f < 32 → (s.flBitmap.getLsbD f = true ↔ s.slBitmap f ≠ 0)) :
    (dropBits s fl sl empty).flBitmap.getLsbD f = true ↔ (dropBits s fl sl empty).slBitmap f ≠ 0 := by
  unfold dropBits
  cases empty with
  | false => exact hs f hf
  | true =>
    unfold clearBits
    rw [if_pos rfl]
    dsimp only
    by_cases hsame : f = fl
    · subst hsame
      rw [Function.update_self]
      by_cases hz : s.slBitmap f &&& ~~~ bit sl = 0
      · rw [if_pos hz, getLsbD_clear hf hf]
        simp [hz]
      · rw [if_neg hz]
        refine iff_of_true ((hs f hf).mpr fun h0 => hz ?_) hz
        rw [h0]
        simp
    · rw [Function.update_of_ne hsame]
      by_cases hz : s.slBitmap fl &&& ~~~ bit sl = 0
      · rw [if_pos hz, getLsbD_clear hfl hf, ← hs f hf]
        simp [hsame]
      · rw [if_neg hz]
        exact hs f hf

@[simp] theorem dropBits_mem (s : State) (fl sl : Nat) (empty : Bool) :
    (dropBits s fl sl empty).mem = s.mem := by
  unfold dropBits
  split <;> rfl

@[simp] theorem dropBits_blocks (s : State) (fl sl : Nat) (empty : Bool) :
    (dropBits s fl sl empty).blocks = s.blocks := by
  unfold dropBits
  split <;> rfl

@[simp] theorem dropBits_control (s : State) (fl sl : Nat) (empty : Bool) :
    (dropBits s fl sl empty).control = s.control := by
  unfold dropBits
  split <;> rfl

theorem Index.remove (h : Index s lists P) (hc : P c) (hm : mappingInsert c.size = (fl, sl)) :
    (∃ lists', Index (removeFreeBlock s c.addr fl sl) lists' fun d => P d ∧ d ≠ c) ∧
      LinksOnly s.control P s.mem (removeFreeBlock s c.addr fl sl).mem ∧
      (removeFreeBlock s c.addr fl sl).control = s.control := by
  have hmem : c.addr ∈ lists fl sl := (h.mem_iff fl sl c.addr).mpr ⟨c, hc, rfl, hm⟩
  obtain ⟨xs, ys, hlist⟩ := List.append_of_mem hmem
  have hlinked := h.linked fl sl
  have hnodup := h.nodup fl sl
  rw [hlist] at hlinked hnodup
  have hsl : sl < 32 := by
    have := (mappingInsert_spec c.size).1
    rwa [hm] at this
  have hfl : fl < 32 := by
    have := mappingInsert_fl (h.sized c hc).max
    rw [hm] at this
    exact Nat.lt_trans this (by decide)
  have hin : ∀ y, y ∈ xs ++ ys → y ∈ lists fl sl := fun y hy => by
    rw [hlist]
    rcases List.mem_append.mp hy with hy | hy
    · exact List.mem_append_left _ hy
    · exact List.mem_append_right _ (List.mem_cons_of_mem _ hy)
  -- the two neighbours
  have hnext : nextFree s.mem c.addr = s.control ∧ ys = [] ∨ nextFree s.mem c.addr ∈ ys := hlinked.next_mem
  have hprev : prevFree s.mem c.addr = s.control ∧ xs = [] ∨ prevFree s.mem c.addr ∈ xs := hlinked.prev_mem
  have hnn : Node s.control P (nextFree s.mem c.addr) := by
    rcases hnext with ⟨he, -⟩ | hy
    · exact .inl he
    · exact h.node_of_mem (hin _ (List.mem_append_right _ hy))
  have hpn : Node s.control P (prevFree s.mem c.addr) := by
    rcases hprev with ⟨he, -⟩ | hx
    · exact .inl he
    · exact h.node_of_mem (hin _ (List.mem_append_left _ hx))
  have hhead : s.blocks fl sl ≠ s.control := fun he => by
    have := hlinked.eq_null_iff.mp he
    simp at this
  rw [removeFreeBlock_eq]
  generalize hN : nextFree s.mem c.addr = N at *
  generalize hV : prevFree s.mem c.addr = V at *
  have hnextFree : ∀ y, Node s.control P y →
      nextFree (setNextFree (setPrevFree s.mem N V) V N) y = if y = V then N else nextFree s.mem y :=
    fun y hy => by
      rw [nextFree_setNextFree (h.spaced hy hpn) (h.node_lt hnn), nextFree_setPrevFree (h.spaced hy hnn)]
  have hprevFree : ∀ y, Node s.control P y →
      prevFree (setNextFree (setPrevFree s.mem N V) V N) y = if y = N then V else prevFree s.mem y :=
    fun y hy => by
      rw [prevFree_setNextFree (h.spaced hy hpn), prevFree_setPrevFree (h.spaced hy hnn) (h.node_lt hpn)]
  have hnull : s.control ∉ xs ++ c.addr :: ys := fun hy => hlinked.ne_null hy rfl
  have hrem : Linked (nextFree (setNextFree (setPrevFree s.mem N V) V N))
      (prevFree (setNextFree (setPrevFree s.mem N V) V N)) s.control s.control
      (if s.blocks fl sl = c.addr then N else s.blocks fl sl) (xs ++ ys) := by
    have hr := hlinked.remove (List.nodup_cons.mpr ⟨hnull, hnodup⟩)
      (fun y hy => (hnextFree y (h.node_of_mem (hin y hy))).trans (by rw [hN, hV]))
      fun y hy => (hprevFree y (h.node_of_mem (hin y hy))).trans (by rw [hN, hV])
    rwa [hN] at hr
  -- the list is empty exactly when the head was the only block
  have hempty : (s.blocks fl sl = c.addr ∧ N = s.control) ↔ xs ++ ys = [] := by
    rw [← hrem.eq_null_iff]
    constructor
    · rintro ⟨h1, h2⟩
      rw [if_pos h1, h2]
    · intro he
      by_cases h1 : s.blocks fl sl = c.addr
      · rw [if_pos h1] at he
        exact ⟨h1, he⟩
      · rw [if_neg h1] at he
        exact absurd he hhead
  have hcnot : c.addr ∉ xs ++ ys := by
    have := (List.nodup_middle.mp hnodup)
    exact (List.nodup_cons.mp this).1
  refine ⟨⟨setList lists fl sl (xs ++ ys), ?_, ?_, ?_, ?_, ?_, ?_, ?_, ?_, ?_, ?_⟩, ?_, ?_⟩
  · intro f i
    rw [dropBits_mem, dropBits_blocks, dropBits_control]
    dsimp only
    by_cases hfi : f = fl ∧ i = sl
    · obtain ⟨rfl, rfl⟩ := hfi
      rw [setList_self, setHead_self]
      exact hrem
    · rw [setList_of_ne hfi, setHead_of_ne hfi]
      refine (h.linked f i).congr fun y hy => ?_
      have hother : ∀ z, z = s.control ∨ z ∈ xs ++ ys → y ≠ z := by
        rintro z (rfl | hz) rfl
        · exact (h.linked f i).ne_null hy rfl
        · exact hfi (h.class_unique (hin _ hz) hy)
      have hyV : y ≠ V := hother V (hprev.imp And.left (List.mem_append_left _))
      have hyN : y ≠ N := hother N (hnext.imp And.left (List.mem_append_right _))
      rw [hnextFree y (h.node_of_mem hy), if_neg hyV, hprevFree y (h.node_of_mem hy), if_neg hyN]
      exact ⟨rfl, rfl⟩
  · intro f i
    by_cases hfi : f = fl ∧ i = sl
    · obtain ⟨rfl, rfl⟩ := hfi
      rw [setList_self]
      exact (List.nodup_cons.mp (List.nodup_middle.mp hnodup)).2
    · rw [setList_of_ne hfi]
      exact h.nodup f i
  · intro f i a
    by_cases hfi : f = fl ∧ i = sl
    · obtain ⟨rfl, rfl⟩ := hfi
      rw [setList_self]
      constructor
      · intro ha
        obtain ⟨d, hd, he, hdm⟩ := (h.mem_iff f i a).mp (hin a ha)
        refine ⟨d, ⟨hd, ?_⟩, he, hdm⟩
        rintro rfl
        exact hcnot (he ▸ ha)
      · rintro ⟨d, ⟨hd, hne⟩, rfl, hdm⟩
        have hmem' : d.addr ∈ lists f i := (h.mem_iff f i d.addr).mpr ⟨d, hd, rfl, hdm⟩
        rw [hlist] at hmem'
        rcases List.mem_append.mp hmem' with h1 | h1
        · exact List.mem_append_left _ h1
        · rcases List.mem_cons.mp h1 with h2 | h2
          · exact absurd (h.eq_of_addr hd hc h2) hne
          · exact List.mem_append_right _ h2
    · rw [setList_of_ne hfi, h.mem_iff f i a]
      constructor
      · rintro ⟨d, hd, ha, hdm⟩
        refine ⟨d, ⟨hd, ?_⟩, ha, hdm⟩
        rintro rfl
        exact hfi (Prod.mk.inj (hdm.symm.trans hm))
      · rintro ⟨d, hd, ha, hdm⟩
        exact ⟨d, hd.1, ha, hdm⟩
  · intro f i hi
    rw [dropBits_slBit hsl hi]
    dsimp only
    by_cases hfi : f = fl ∧ i = sl
    · obtain ⟨rfl, rfl⟩ := hfi
      rw [setList_self, ← not_iff_not]
      have hset : (s.slBitmap f).getLsbD i = true := (h.slBit f i hi).mpr (List.ne_nil_of_mem hmem)
      rw [hset, not_not, ← hempty]
      simp
    · rw [setList_of_ne hfi, ← h.slBit f i hi]
      simp [hfi]
  · intro f hf
    exact dropBits_flBit hfl hf h.flBit
  · exact fun d e hd he => h.apart d e hd.1 he.1
  · intro d hd
    rw [dropBits_control]
    exact h.above d hd.1
  · exact fun d hd => h.addr d hd.1
  · rw [dropBits_control]
    exact h.control
  · exact fun d hd => h.sized d hd.1
  · intro x hx
    rw [dropBits_mem]
    exact (setNextFree_of_out (hx V hpn)).trans (setPrevFree_of_out (hx N hnn))
  · exact dropBits_control _ _ _ _

theorem Index.insert (h : Index s lists P) (hc : c.Sized) (hm : mappingInsert c.size = (fl, sl))
    (hnot : ∀ d, P d → c.addr + 16 ≤ d.addr ∨ d.addr + 16 ≤ c.addr) (habove : s.control + 16 ≤ c.addr)
    (haddr : c.addr < 2 ^ 32) :
    (∃ lists', Index (insertFreeBlock s c.addr fl sl) lists' fun d => P d ∨ d = c) ∧
      LinksOnly s.control (fun d => P d ∨ d = c) s.mem (insertFreeBlock s c.addr fl sl).mem ∧
      (insertFreeBlock s c.addr fl sl).control = s.control := by
  have hsl : sl < 32 := by
    have := (mappingInsert_spec c.size).1
    rwa [hm] at this
  have hfl : fl < 32 := by
    have := mappingInsert_fl hc.max
    rw [hm] at this
    exact Nat.lt_trans this (by decide)
  have hhn := h.head_node fl sl
  have hnew : ∀ y, Node s.control P y → y + 16 ≤ c.addr ∨ c.addr + 16 ≤ y := by
    rintro y (rfl | ⟨d, hd, rfl⟩)
    · exact .inl habove
    · exact (hnot d hd).symm
  have hsp : ∀ y, Node s.control P y → Spaced y c.addr := fun y hy => .inr (hnew y hy)
  have hne : ∀ y, Node s.control P y → y ≠ c.addr := fun y hy => by
    have := hnew y hy
    omega
  unfold insertFreeBlock
  generalize hC : s.blocks fl sl = C at *
  have hnextFree : ∀ y, Node s.control P y →
      nextFree (setPrevFree (setPrevFree (setNextFree s.mem c.addr C) c.addr s.control) C c.addr) y =
        nextFree s.mem y := fun y hy => by
    rw [nextFree_setPrevFree (h.spaced hy hhn), nextFree_setPrevFree (hsp y hy),
      nextFree_setNextFree (hsp y hy) (h.node_lt hhn), if_neg (hne y hy)]
  have hprevFree : ∀ y, Node s.control P y →
      prevFree (setPrevFree (setPrevFree (setNextFree s.mem c.addr C) c.addr s.control) C c.addr) y =
        if y = C then c.addr else prevFree s.mem y := fun y hy => by
    rw [prevFree_setPrevFree (h.spaced hy hhn) haddr, prevFree_setPrevFree (hsp y hy) h.control,
      if_neg (hne y hy), prevFree_setNextFree (hsp y hy)]
  have hself : Spaced c.addr C := by
    have := hnew C hhn
    unfold Spaced
    omega
  have hcC : c.addr ≠ C := (hne C hhn).symm
  have hnf : nextFree (setPrevFree (setPrevFree (setNextFree s.mem c.addr C) c.addr s.control) C c.addr)
      c.addr = C := by
    rw [nextFree_setPrevFree hself, nextFree_setPrevFree (.inl rfl),
      nextFree_setNextFree (.inl rfl) (h.node_lt hhn), if_pos rfl]
  have hpf : prevFree (setPrevFree (setPrevFree (setNextFree s.mem c.addr C) c.addr s.control) C c.addr)
      c.addr = s.control := by
    rw [prevFree_setPrevFree hself haddr, if_neg hcC, prevFree_setPrevFree (.inl rfl) h.control, if_pos rfl]
  have hcnot : c.addr ∉ lists fl sl := fun hy => hne _ (h.node_of_mem hy) rfl
  have hlinked := h.linked fl sl
  rw [hC] at hlinked
  refine ⟨⟨setList lists fl sl (c.addr :: lists fl sl), ?_, ?_, ?_, ?_, ?_, ?_, ?_, ?_, ?_, ?_⟩, ?_, rfl⟩
  · intro f i
    dsimp only
    by_cases hfi : f = fl ∧ i = sl
    · obtain ⟨rfl, rfl⟩ := hfi
      rw [setList_self, setHead_self]
      exact hlinked.push (h.nodup f i) (hne _ (.inl rfl)).symm hnf hpf
        (fun y hy => hnextFree y (h.node_of_mem hy)) fun y hy => hprevFree y (h.node_of_mem hy)
    · rw [setList_of_ne hfi, setHead_of_ne hfi]
      refine (h.linked f i).congr fun y hy => ?_
      have hyC : y ≠ C := by
        rintro rfl
        rcases hlinked.head with ⟨he, -⟩ | hin
        · exact (h.linked f i).ne_null hy he
        · exact hfi (h.class_unique hin hy)
      rw [hnextFree y (h.node_of_mem hy), hprevFree y (h.node_of_mem hy), if_neg hyC]
      exact ⟨rfl, rfl⟩
  · intro f i
    by_cases hfi : f = fl ∧ i = sl
    · obtain ⟨rfl, rfl⟩ := hfi
      rw [setList_self]
      exact List.nodup_cons.mpr ⟨hcnot, h.nodup f i⟩
    · rw [setList_of_ne hfi]
      exact h.nodup f i
  · intro f i a
    by_cases hfi : f = fl ∧ i = sl
    · obtain ⟨rfl, rfl⟩ := hfi
      rw [setList_self, List.mem_cons, h.mem_iff f i a]
      constructor
      · rintro (rfl | ⟨d, hd, ha, hdm⟩)
        · exact ⟨c, .inr rfl, rfl, hm⟩
        · exact ⟨d, .inl hd, ha, hdm⟩
      · rintro ⟨d, hd | rfl, ha, hdm⟩
        · exact .inr ⟨d, hd, ha, hdm⟩
        · exact .inl ha.symm
    · rw [setList_of_ne hfi, h.mem_iff f i a]
      constructor
      · rintro ⟨d, hd, ha, hdm⟩
        exact ⟨d, .inl hd, ha, hdm⟩
      · rintro ⟨d, hd | rfl, ha, hdm⟩
        · exact ⟨d, hd, ha, hdm⟩
        · exact absurd (Prod.mk.inj (hdm.symm.trans hm)) hfi
  · intro f i hi
    dsimp only
    by_cases hf : f = fl
    · subst hf
      rw [Function.update_self, BitVec.getLsbD_or, getLsbD_bit hsl]
      by_cases hi' : i = sl
      · subst hi'
        rw [setList_self]
        simp
      · rw [setList_of_ne fun he => hi' he.2, ← h.slBit f i hi]
        simp [hi']
    · rw [Function.update_of_ne hf, setList_of_ne fun he => hf he.1]
      exact h.slBit f i hi
  · intro f hf
    dsimp only
    rw [BitVec.getLsbD_or, getLsbD_bit hfl]
    by_cases hsame : f = fl
    · subst hsame
      rw [Function.update_self]
      refine iff_of_true (by simp) (ne_zero_iff.mpr ⟨sl, hsl, ?_⟩)
      rw [BitVec.getLsbD_or, getLsbD_bit hsl]
      simp
    · rw [Function.update_of_ne hsame, ← h.flBit f hf]
      simp [hsame]
  · rintro d e (hd | rfl) (he | rfl)
    · exact h.apart d e hd he
    · exact .inr (hnot d hd).symm
    · exact .inr (hnot e he)
    · exact .inl rfl
  · rintro d (hd | rfl)
    · exact h.above d hd
    · exact habove
  · rintro d (hd | rfl)
    · exact h.addr d hd
    · exact haddr
  · exact h.control
  · rintro d (hd | rfl)
    · exact h.sized d hd
    · exact hc
  · intro x hx
    have hxC := hx C (hhn.imp id fun ⟨d, hd, he⟩ => ⟨d, .inl hd, he⟩)
    have hxc := hx c.addr (.inr ⟨c, .inr rfl, rfl⟩)
    exact (setPrevFree_of_out hxC).trans ((setPrevFree_of_out hxc).trans (setNextFree_of_out hxc))

end Tlsf
end Hashx86
