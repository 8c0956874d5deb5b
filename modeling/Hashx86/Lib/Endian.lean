import Mathlib.Data.UInt

/-!
# Little-endian numbers in byte lists

* `toBytes n v`: the `n` bytes of `v`; `ofBytes`: the number that bytes stand for.
* `field bs off n`: the number in the `n` bytes at offset `off`. `field_append`: a field that was
  written is read back, `field_left` and `field_right`: a field on one side of an append.
* `field_head` and `field_skip` read the fields of a record in order.
-/

namespace Lib

/-- The `n` low bytes of `v`, the lowest first. -/
def toBytes : (n v : Nat) → List UInt8
  | 0, _ => []
  | n + 1, v => UInt8.ofNat v :: toBytes n (v / 256)

/-- The number with these bytes, the lowest first. -/
def ofBytes : List UInt8 → Nat
  | [] => 0
  | b :: bs => b.toNat + 256 * ofBytes bs

/-- The number in `n` bytes at offset `off`. -/
def field (bs : List UInt8) (off n : Nat) : Nat := ofBytes ((bs.drop off).take n)

@[simp] theorem length_toBytes (n v : Nat) : (toBytes n v).length = n := by
  induction n generalizing v with
  | zero => rfl
  | succ n ih => exact congrArg (· + 1) (ih _)

theorem ofBytes_toBytes (n v : Nat) : ofBytes (toBytes n v) = v % 256 ^ n := by
  induction n generalizing v with
  | zero => rw [pow_zero, Nat.mod_one]; rfl
  | succ n ih =>
    unfold toBytes ofBytes
    rw [ih, UInt8.toNat_ofNat', pow_succ' 256 n, Nat.mod_mul]

variable {pre bs post : List UInt8} {off m n v w : Nat}

theorem field_append (hoff : pre.length = off) (hv : v < 256 ^ n) :
    field (pre ++ (toBytes n v ++ post)) off n = v := by
  unfold field
  rw [List.drop_left' hoff, List.take_left' (length_toBytes n v), ofBytes_toBytes,
    Nat.mod_eq_of_lt hv]

theorem field_left (h : off + n ≤ bs.length) : field (bs ++ post) off n = field bs off n := by
  unfold field
  rw [List.drop_append_of_le_length (by omega), List.take_append_of_le_length]
  rw [List.length_drop]
  omega

theorem field_right (h : pre.length ≤ off) : field (pre ++ bs) off n = field bs (off - pre.length) n := by
  unfold field
  rw [List.drop_append, List.drop_eq_nil_of_le h, List.nil_append]

theorem field_head : field (toBytes n v ++ post) 0 n = v % 256 ^ n := by
  unfold field
  rw [List.drop_zero, List.take_left' (length_toBytes n v), ofBytes_toBytes]

theorem field_skip (h : m ≤ off) : field (toBytes m w ++ post) off n = field post (off - m) n := by
  rw [field_right (by rwa [length_toBytes]), length_toBytes]

/-- A field after a part whose length is `m`. -/
theorem field_add (h : pre.length = m) (off n : Nat) :
    field (pre ++ bs) (m + off) n = field bs off n := by
  rw [field_right (by omega), h, Nat.add_sub_cancel_left]

/-! ## Fields of fixed-width numbers -/

theorem ofNat_mod_uint8 (b : UInt8) : UInt8.ofNat (b.toNat % 256 ^ 1) = b := by
  rw [Nat.mod_eq_of_lt (show b.toNat < 256 ^ 1 from b.toNat_lt), UInt8.ofNat_toNat]

theorem ofNat_mod_uint16 (b : UInt16) : UInt16.ofNat (b.toNat % 256 ^ 2) = b := by
  rw [Nat.mod_eq_of_lt (show b.toNat < 256 ^ 2 from b.toNat_lt), UInt16.ofNat_toNat]

theorem ofNat_mod_uint32 (b : UInt32) : UInt32.ofNat (b.toNat % 256 ^ 4) = b := by
  rw [Nat.mod_eq_of_lt (show b.toNat < 256 ^ 4 from b.toNat_lt), UInt32.ofNat_toNat]

end Lib
