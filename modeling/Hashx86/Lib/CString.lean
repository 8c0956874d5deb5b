import Hashx86.Lib.Scan
import Mathlib.Data.List.Basic
import Mathlib.Data.List.TakeWhile

/-!
# C strings in a buffer

A buffer has the cells 0 to `size`; a loop over the characters of a string stops at the NUL at the
latest.

* `StringAt buf c t`: from the cursor `c` on, the buffer has the bytes of `t` and then a NUL.
* `scan_string`, `StringAt.skip`: what a loop reads, and where it stops.
* `StringAt.frame`, `StringAt.cut`: a string in another buffer, and a NUL that is written into one.
* `StringAt.move`, `StringAt.rejoin`: a string at another place, and with another end.
-/

namespace Lib

def StringAt (buf : Nat → UInt8) (c : Nat) : List UInt8 → Prop
  | [] => buf c = 0
  | b :: t => buf c = b ∧ b ≠ 0 ∧ StringAt buf (c + 1) t

/-- The bytes from `c` on that a loop goes over. -/
def scanFrom (go : UInt8 → Bool) (buf : Nat → UInt8) (size c : Nat) : List UInt8 :=
  scan go buf c (size - c)

/-- Where the loop stops. -/
def skip (go : UInt8 → Bool) (buf : Nat → UInt8) (size c : Nat) : Nat :=
  c + (scanFrom go buf size c).length

/-- The string at `c`. -/
def stringFrom (buf : Nat → UInt8) (size c : Nat) : List UInt8 :=
  scanFrom (fun b => decide (b ≠ 0)) buf size c

variable {buf buf' : Nat → UInt8} {size c : Nat} {t l r : List UInt8} {b : UInt8}
  {go : UInt8 → Bool}

theorem StringAt.ne_zero (h : StringAt buf c t) : ∀ b ∈ t, b ≠ 0 := by
  induction t generalizing c with
  | nil => exact nofun
  | cons a t ih =>
    intro b hb
    rcases List.mem_cons.mp hb with rfl | hb
    · exact h.2.1
    · exact ih h.2.2 b hb

theorem StringAt.head_eq_zero_iff (h : StringAt buf c t) : buf c = 0 ↔ t = [] := by
  cases t with
  | nil => exact iff_of_true h rfl
  | cons b t => exact iff_of_false (h.1 ▸ h.2.1) (List.cons_ne_nil b t)

theorem StringAt.head_eq_iff (h : StringAt buf c t) (hb : b ≠ 0) :
    buf c = b ↔ ∃ r, t = b :: r ∧ StringAt buf (c + 1) r := by
  cases t with
  | nil => exact ⟨fun hc => absurd (hc.symm.trans h) hb, fun ⟨_, hr, _⟩ => nomatch hr⟩
  | cons a t =>
    constructor
    · intro hc
      obtain rfl : a = b := h.1.symm.trans hc
      exact ⟨t, rfl, h.2.2⟩
    · rintro ⟨r, hr, -⟩
      cases hr
      exact h.1

/-- The buffer of a list of bytes has the string before the first NUL. -/
theorem stringAt_takeWhile (t : List UInt8) (c : Nat) (h : ∀ k, buf (c + k) = t.getD k 0) :
    StringAt buf c (t.takeWhile fun b => decide (b ≠ 0)) := by
  induction t generalizing c with
  | nil => exact h 0
  | cons b t ih =>
    have hb : buf c = b := h 0
    rw [List.takeWhile_cons]
    split
    case isTrue hne =>
      refine ⟨hb, of_decide_eq_true hne, ih (c + 1) fun k => ?_⟩
      rw [Nat.add_assoc, Nat.add_comm 1 k, h (k + 1), List.getD_cons_succ]
    case isFalse hne =>
      have hzero : b = 0 := not_not.mp fun hne' => hne (decide_eq_true hne')
      exact hb.trans hzero

/-- What a loop reads of a string. -/
theorem scan_string (h : StringAt buf c t) (hgo : go 0 = false) (hfit : c + t.length ≤ size) :
    scanFrom go buf size c = t.takeWhile go := by
  unfold scanFrom
  induction t generalizing c with
  | nil =>
    have hstop : ¬ go (buf c) = true := by
      rw [show buf c = 0 from h, hgo]
      exact Bool.false_ne_true
    cases size - c with
    | zero => rfl
    | succ n => exact scan_succ_stop hstop n
  | cons b t ih =>
    obtain ⟨hb, -, ht⟩ := h
    rw [List.length_cons] at hfit
    obtain ⟨n, hn⟩ : ∃ n, size - c = n + 1 := ⟨size - c - 1, by omega⟩
    have hrest := ih ht (by omega)
    rw [show size - (c + 1) = n by omega] at hrest
    rw [hn, scan_succ, hb, List.takeWhile_cons, hrest]

theorem stringFrom_eq (h : StringAt buf c t) (hfit : c + t.length ≤ size) :
    stringFrom buf size c = t := by
  have hall : ∀ b ∈ t, decide (b ≠ 0) = true := fun b hb => decide_eq_true (h.ne_zero b hb)
  exact (scan_string h (by decide) hfit).trans (List.takeWhile_eq_self_iff.mpr hall)

theorem StringAt.append_iff : StringAt buf c (l ++ r) ↔
    (∀ k < l.length, buf (c + k) = l.getD k 0 ∧ l.getD k 0 ≠ 0) ∧
      StringAt buf (c + l.length) r := by
  induction l generalizing c with
  | nil => exact ⟨fun h => ⟨nofun, h⟩, fun h => h.2⟩
  | cons b l ih =>
    rw [List.cons_append, StringAt, ih, List.length_cons]
    constructor
    · rintro ⟨hb, hne, hl, hr⟩
      refine ⟨fun k hk => ?_, by rwa [Nat.add_right_comm] at hr⟩
      cases k with
      | zero => exact ⟨hb, hne⟩
      | succ k =>
        have hlk := hl k (by omega)
        rwa [Nat.add_right_comm] at hlk
    · rintro ⟨hl, hr⟩
      refine ⟨(hl 0 (by omega)).1, (hl 0 (by omega)).2, fun k hk => ?_, ?_⟩
      · have hlk := hl (k + 1) (by omega)
        rwa [← Nat.add_assoc, Nat.add_right_comm] at hlk
      · rwa [Nat.add_right_comm]

/-- A loop stops in the string, with the rest of it ahead. -/
theorem StringAt.skip (h : StringAt buf c t) (hgo : go 0 = false) (hfit : c + t.length ≤ size) :
    StringAt buf (skip go buf size c) (t.dropWhile go) ∧
      skip go buf size c + (t.dropWhile go).length = c + t.length := by
  have hsplit := List.takeWhile_append_dropWhile (p := go) (l := t)
  have hlen := congrArg List.length hsplit
  rw [List.length_append] at hlen
  unfold Lib.skip
  rw [scan_string h hgo hfit]
  rw [← hsplit] at h
  exact ⟨(StringAt.append_iff.mp h).2, by omega⟩

/-- A string is the same in a buffer with the same cells. -/
theorem StringAt.frame (h : StringAt buf c t)
    (hsame : ∀ i, i < c + t.length ∨ buf i = 0 → buf' i = buf i) : StringAt buf' c t := by
  induction t generalizing c with
  | nil => exact (hsame c (.inr h)).trans h
  | cons b t ih =>
    rw [List.length_cons] at hsame
    refine ⟨(hsame c (.inl (by omega))).trans h.1, h.2.1, ih h.2.2 fun i hi => hsame i ?_⟩
    exact hi.imp_left fun hlt => by omega

/-- A string whose cells, up to the NUL, are also those from another place on. -/
theorem StringAt.move {c' : Nat} (h : StringAt buf c t)
    (hsame : ∀ k ≤ t.length, buf' (c' + k) = buf (c + k)) : StringAt buf' c' t := by
  induction t generalizing c c' with
  | nil => exact (hsame 0 (Nat.zero_le 0)).trans h
  | cons b t ih =>
    rw [List.length_cons] at hsame
    refine ⟨(hsame 0 (by omega)).trans h.1, h.2.1, ih h.2.2 fun k hk => ?_⟩
    have := hsame (k + 1) (by omega)
    rwa [← Nat.add_assoc, ← Nat.add_assoc, Nat.add_right_comm, Nat.add_right_comm c] at this

/-- The beginning of a string stays, and another one follows on it. -/
theorem StringAt.rejoin (h : StringAt buf c (l ++ r)) (hl : ∀ k < l.length, buf' (c + k) = buf (c + k))
    (hr : StringAt buf' (c + l.length) t) : StringAt buf' c (l ++ t) := by
  refine StringAt.append_iff.mpr ⟨fun k hk => ?_, hr⟩
  rw [hl k hk]
  exact (StringAt.append_iff.mp h).1 k hk

/-- A NUL that is written into a string leaves one before it and one behind it. -/
theorem StringAt.cut (h : StringAt buf c (l ++ b :: r)) :
    StringAt (Function.update buf (c + l.length) 0) c l ∧
      StringAt (Function.update buf (c + l.length) 0) (c + l.length + 1) r := by
  obtain ⟨hl, -, -, hr⟩ := StringAt.append_iff.mp h
  constructor
  · have hend : StringAt (Function.update buf (c + l.length) 0) (c + l.length) [] :=
      Function.update_self _ _ _
    rw [← List.append_nil l]
    refine StringAt.append_iff.mpr ⟨fun k hk => ?_, by rwa [List.append_nil]⟩
    rw [Function.update_of_ne (by rw [List.append_nil]; omega)]
    exact hl k hk
  · have hkeep : ∀ (t : List UInt8) (i : Nat), c + l.length < i → StringAt buf i t →
        StringAt (Function.update buf (c + l.length) 0) i t := by
      intro t
      induction t with
      | nil => exact fun i hi ht => (Function.update_of_ne (by omega) _ _).trans ht
      | cons a t ih =>
        exact fun i hi ht => ⟨(Function.update_of_ne (by omega) _ _).trans ht.1, ht.2.1,
          ih (i + 1) (by omega) ht.2.2⟩
    exact hkeep r _ (by omega) hr

end Lib
