import Mathlib.Data.List.Basic
import Mathlib.Logic.Function.Basic

/-!
# Rings

Cells numbered below `cap`, read and written from an index on, around the end.

* `window cap f i n`: the `n` cells from `i` on.
* `window_add`, `window_cons`: a longer window is one window after the other.
* `window_push`: a cell that is written behind a window.
* `RingQueue`: a queue that drops its oldest element when it is full; `list_push`, `list_pop`: what it
  does to its elements.
* `index_ne`: two windows that together fit in the ring, one after the other, share no cell.
-/

namespace Lib

variable {α : Type} {cap : Nat}

/-- The `n` cells from `i` on. -/
def window (cap : Nat) (f : Nat → α) (i n : Nat) : List α :=
  (List.range n).map fun k => f ((i + k) % cap)

theorem window_zero (f : Nat → α) (i : Nat) : window cap f i 0 = [] := rfl

theorem length_window (f : Nat → α) (i n : Nat) : (window cap f i n).length = n := by
  rw [window, List.length_map, List.length_range]

theorem window_congr {f g : Nat → α} {i n : Nat}
    (h : ∀ k < n, f ((i + k) % cap) = g ((i + k) % cap)) : window cap f i n = window cap g i n :=
  List.map_congr_left fun k hk => h k (List.mem_range.mp hk)

theorem window_add (f : Nat → α) (i n m : Nat) :
    window cap f i (n + m) = window cap f i n ++ window cap f ((i + n) % cap) m := by
  rw [window, List.range_add, List.map_append, List.map_map]
  refine congrArg (_ ++ ·) (List.map_congr_left fun k _ => ?_)
  rw [Function.comp_apply, Nat.mod_add_mod, Nat.add_assoc]

theorem window_cons (f : Nat → α) (i n : Nat) :
    window cap f i (n + 1) = f (i % cap) :: window cap f ((i + 1) % cap) n := by
  rw [Nat.add_comm n 1, window_add]
  rfl

/-- An index within one window is not within the next. -/
theorem index_ne {i n m j k : Nat} (hfit : n + m ≤ cap) (hj : j < n) (hk : k < m) :
    (i + j) % cap ≠ ((i + n) % cap + k) % cap := by
  intro h
  rw [Nat.mod_add_mod] at h
  have hzero : (i + n + k - (i + j)) % cap = 0 := Nat.sub_mod_eq_zero_of_mod_eq h.symm
  rw [Nat.mod_eq_of_lt (by omega)] at hzero
  omega

theorem index_inj {i n j k : Nat} (hfit : n ≤ cap) (hj : j < n) (hk : k < n)
    (h : (i + j) % cap = (i + k) % cap) : j = k := by
  rcases Nat.lt_trichotomy j k with hlt | heq | hlt
  · have hzero : (i + k - (i + j)) % cap = 0 := Nat.sub_mod_eq_zero_of_mod_eq h.symm
    rw [Nat.mod_eq_of_lt (by omega)] at hzero
    omega
  · exact heq
  · have hzero : (i + j - (i + k)) % cap = 0 := Nat.sub_mod_eq_zero_of_mod_eq h
    rw [Nat.mod_eq_of_lt (by omega)] at hzero
    omega

/-- A cell is written behind a window that leaves room for it. -/
theorem window_push (f : Nat → α) (c : α) {i n : Nat} (hfit : n < cap) :
    window cap (Function.update f ((i + n) % cap) c) i (n + 1) = window cap f i n ++ [c] := by
  have hsame : window cap (Function.update f ((i + n) % cap) c) i n = window cap f i n :=
    window_congr fun k hk => Function.update_of_ne
      (fun h => absurd (index_inj (Nat.le_of_eq rfl) (show k < cap by omega) hfit h) (by omega)) _ _
  rw [window_add, hsame, window_cons, Nat.mod_mod, Function.update_self]
  rfl

/-! ## Queues in a ring -/

/-- The last `n` elements. -/
def keepLast (n : Nat) (xs : List α) : List α := xs.drop (xs.length - n)

theorem keepLast_of_le {n : Nat} {xs : List α} (h : xs.length ≤ n) : keepLast n xs = xs := by
  rw [keepLast, Nat.sub_eq_zero_of_le h, List.drop_zero]

theorem keepLast_append (n : Nat) (xs : List α) (c : α) :
    keepLast n (keepLast n xs ++ [c]) = keepLast n (xs ++ [c]) := by
  have hdrop : keepLast n xs ++ [c] = (xs ++ [c]).drop (xs.length - n) :=
    (List.drop_append_of_le_length (Nat.sub_le _ _)).symm
  rw [hdrop, keepLast, keepLast, List.drop_drop]
  congr 1
  simp only [List.length_drop, List.length_append, List.length_singleton]
  omega

/-- A queue that is written at the head and read at the tail; one cell is always free. -/
structure RingQueue (α : Type) where
  cells : Nat → α
  head : Nat
  tail : Nat

namespace RingQueue

/-- A full queue drops its oldest element. -/
def push (cap : Nat) (q : RingQueue α) (c : α) : RingQueue α :=
  let nextHead := (q.head + 1) % cap
  { cells := Function.update q.cells q.head c
    head := nextHead
    tail := if nextHead = q.tail then (q.tail + 1) % cap else q.tail }

def pop (cap : Nat) (q : RingQueue α) : Option α × RingQueue α :=
  if q.head = q.tail then (none, q)
  else (some (q.cells q.tail), { q with tail := (q.tail + 1) % cap })

def clear (q : RingQueue α) : RingQueue α := { q with head := 0, tail := 0 }

/-- The number of the elements. -/
def count (cap : Nat) (q : RingQueue α) : Nat := (q.head + cap - q.tail) % cap

/-- The elements, the oldest first. -/
def list (cap : Nat) (q : RingQueue α) : List α := window cap q.cells q.tail (q.count cap)

/-- The head and the tail are indices of the ring. -/
structure Indexed (cap : Nat) (q : RingQueue α) : Prop where
  head : q.head < cap
  tail : q.tail < cap

variable {q : RingQueue α}

theorem Indexed.pos (h : q.Indexed cap) : 0 < cap := Nat.lt_of_le_of_lt (Nat.zero_le _) h.head

theorem Indexed.push (h : q.Indexed cap) (c : α) : (q.push cap c).Indexed cap := by
  refine ⟨Nat.mod_lt _ h.pos, ?_⟩
  unfold RingQueue.push
  dsimp only
  split
  · exact Nat.mod_lt _ h.pos
  · exact h.tail

theorem Indexed.pop (h : q.Indexed cap) : (q.pop cap).2.Indexed cap := by
  unfold RingQueue.pop
  split
  · exact h
  · exact ⟨h.head, Nat.mod_lt _ h.pos⟩

theorem Indexed.clear (h : q.Indexed cap) : q.clear.Indexed cap := ⟨h.pos, h.pos⟩

theorem length_list (q : RingQueue α) : (q.list cap).length = q.count cap := length_window _ _ _

theorem count_lt (h : q.Indexed cap) : q.count cap < cap := Nat.mod_lt _ h.pos

/-- The head is behind the elements. -/
theorem head_eq (h : q.Indexed cap) : q.head = (q.tail + q.count cap) % cap := by
  have hh := h.head
  have ht := h.tail
  rw [count, Nat.add_mod_mod, show q.tail + (q.head + cap - q.tail) = q.head + cap by omega,
    Nat.add_mod_right, Nat.mod_eq_of_lt hh]

theorem count_eq_zero (h : q.Indexed cap) : q.count cap = 0 ↔ q.head = q.tail := by
  have hh := h.head
  have ht := h.tail
  rw [count]
  obtain hlt | hge := Nat.lt_or_ge q.head q.tail
  · rw [Nat.mod_eq_of_lt (by omega)]
    omega
  · rw [show q.head + cap - q.tail = q.head - q.tail + cap by omega, Nat.add_mod_right,
      Nat.mod_eq_of_lt (by omega)]
    omega

theorem count_eq (cells : Nat → α) {t m : Nat} (ht : t < cap) (hm : m < cap) :
    count cap ⟨cells, (t + m) % cap, t⟩ = m := by
  unfold count
  dsimp only
  obtain hlt | hge := Nat.lt_or_ge (t + m) cap
  · rw [Nat.mod_eq_of_lt hlt, show t + m + cap - t = m + cap by omega, Nat.add_mod_right,
      Nat.mod_eq_of_lt hm]
  · have hmod : (t + m) % cap = t + m - cap := by
      rw [Nat.mod_eq_sub_mod hge, Nat.mod_eq_of_lt (by omega)]
    rw [hmod, show t + m - cap + cap - t = m by omega, Nat.mod_eq_of_lt hm]

/-- The head meets the tail where only one cell is free. -/
theorem next_eq_tail (h : q.Indexed cap) : (q.head + 1) % cap = q.tail ↔ q.count cap + 1 = cap := by
  have ht := h.tail
  have hn := count_lt h
  rw [head_eq h, Nat.mod_add_mod, Nat.add_assoc]
  constructor
  · intro heq
    by_contra hne
    have hcount := count_eq q.cells ht (show q.count cap + 1 < cap by omega)
    rw [heq, count, Nat.add_sub_cancel_left, Nat.mod_self] at hcount
    omega
  · intro heq
    rw [heq, Nat.add_mod_right, Nat.mod_eq_of_lt ht]

/-- The elements, with a new one behind them. -/
theorem window_write (h : q.Indexed cap) (c : α) :
    window cap (Function.update q.cells q.head c) q.tail (q.count cap + 1) = q.list cap ++ [c] := by
  have hpush := window_push q.cells c (i := q.tail) (count_lt h)
  rwa [← head_eq h] at hpush

theorem list_push (h : q.Indexed cap) (c : α) :
    (q.push cap c).list cap = keepLast (cap - 1) (q.list cap ++ [c]) := by
  have ht := h.tail
  have hn := count_lt h
  have hwrite := window_write h c
  have hnext : (q.head + 1) % cap = (q.tail + (q.count cap + 1)) % cap := by
    rw [head_eq h, Nat.mod_add_mod, Nat.add_assoc]
  have hlen : (q.list cap ++ [c]).length = q.count cap + 1 := by
    rw [List.length_append, length_list]
    rfl
  unfold push list
  dsimp only
  by_cases hfull : q.count cap + 1 = cap
  · have htail : (q.head + 1) % cap = q.tail := (next_eq_tail h).mpr hfull
    have hcount := count_eq (Function.update q.cells q.head c)
      (Nat.mod_lt (q.tail + 1) h.pos) hn
    rw [Nat.mod_add_mod, show q.tail + 1 + q.count cap = q.tail + cap by omega, Nat.add_mod_right,
      Nat.mod_eq_of_lt ht] at hcount
    rw [if_pos htail, htail, hcount, keepLast, ← list, hlen,
      show q.count cap + 1 - (cap - 1) = 1 by omega, ← hwrite, window_cons]
    rfl
  · have htail : ¬ (q.head + 1) % cap = q.tail := fun heq => hfull ((next_eq_tail h).mp heq)
    have hcount := count_eq (Function.update q.cells q.head c) ht
      (show q.count cap + 1 < cap by omega)
    rw [if_neg htail, hnext, hcount, hwrite, ← list, keepLast_of_le]
    omega

theorem list_pop (h : q.Indexed cap) :
    (q.pop cap).1 = (q.list cap).head? ∧ (q.pop cap).2.list cap = (q.list cap).tail := by
  have ht := h.tail
  have hn := count_lt h
  have hzero := count_eq_zero h
  unfold pop
  by_cases hempty : q.head = q.tail
  · have hnil : q.list cap = [] := by
      rw [list, hzero.mpr hempty]
      rfl
    rw [if_pos hempty]
    exact ⟨by rw [hnil]; rfl, by rw [hnil]; rfl⟩
  · obtain ⟨n, hcount⟩ : ∃ n, q.count cap = n + 1 :=
      Nat.exists_eq_succ_of_ne_zero fun h0 => hempty (hzero.mp h0)
    have hrest : count cap { q with tail := (q.tail + 1) % cap } = n := by
      have hafter := count_eq q.cells (Nat.mod_lt (q.tail + 1) h.pos)
        (show n < cap by omega)
      rwa [Nat.mod_add_mod, show q.tail + 1 + n = q.tail + q.count cap by omega,
        ← head_eq h] at hafter
    have hlist : q.list cap = q.cells q.tail :: window cap q.cells ((q.tail + 1) % cap) n := by
      rw [list, hcount, window_cons, Nat.mod_eq_of_lt ht]
    rw [if_neg hempty, hlist]
    refine ⟨rfl, ?_⟩
    rw [list, hrest]
    rfl

theorem list_clear (h : q.Indexed cap) : q.clear.list cap = [] := by
  rw [list, (count_eq_zero h.clear).mpr rfl]
  rfl

end RingQueue

end Lib
