import Hashx86.Lib.Endian

/-!
# Checked reads of a byte range

A read outside the range ends with the error `bad`.

* `fieldAt_ok`, `byteAt_ok`, `sliceAt_ok`: a read inside the range gives the bytes.
* `field_succ`, `field_lt`: a number by its lowest byte, and its bound.
-/

namespace Lib

variable {ε : Type}

/-- The byte at an offset. -/
def byteAt (bad : ε) (bs : List UInt8) (off : Nat) : Except ε UInt8 :=
  if off < bs.length then .ok (bs.getD off 0) else .error bad

/-- The number in `n` bytes at an offset. -/
def fieldAt (bad : ε) (bs : List UInt8) (off n : Nat) : Except ε Nat :=
  if off + n ≤ bs.length then .ok (field bs off n) else .error bad

/-- The `n` bytes at an offset. -/
def sliceAt (bad : ε) (bs : List UInt8) (off n : Nat) : Except ε (List UInt8) :=
  if off + n ≤ bs.length then .ok ((bs.drop off).take n) else .error bad

variable {bad : ε} {bs : List UInt8} {off n : Nat}

theorem byteAt_ok (h : off < bs.length) : byteAt bad bs off = .ok (bs.getD off 0) := if_pos h

theorem fieldAt_ok (h : off + n ≤ bs.length) : fieldAt bad bs off n = .ok (field bs off n) :=
  if_pos h

theorem sliceAt_ok (h : off + n ≤ bs.length) :
    sliceAt bad bs off n = .ok ((bs.drop off).take n) := if_pos h

theorem field_zero (bs : List UInt8) (off : Nat) : field bs off 0 = 0 := by
  unfold field
  rw [List.take_zero]
  rfl

/-- A field starts with its lowest byte. -/
theorem field_succ (h : off < bs.length) (n : Nat) :
    field bs off (n + 1) = (bs.getD off 0).toNat + 256 * field bs (off + 1) n := by
  unfold field
  rw [List.drop_eq_getElem_cons h, List.take_succ_cons, ofBytes, List.getD_eq_getElem?_getD,
    List.getElem?_eq_getElem h]
  rfl

theorem field_lt (bs : List UInt8) (off n : Nat) : field bs off n < 256 ^ n := by
  unfold field
  generalize bs.drop off = l
  induction n generalizing l with
  | zero => exact Nat.one_pos
  | succ n ih =>
    cases l with
    | nil => exact Nat.pow_pos (by decide)
    | cons b l =>
      have hb := b.toNat_lt
      have hl := ih l
      rw [List.take_succ_cons, ofBytes, pow_succ]
      omega

end Lib
