import Hashx86.Lib.Word32

/-!
# Restoring long division and proportional scaling

* `two_mul_add_div`, `two_mul_add_mod`: one step of a binary long division: what a further bit does
  to quotient and remainder.
* `longDiv`: the loop over the bits of a 64-bit numerator; `longDiv_eq`: it is the division.
* `Divided`: what the registers hold before and after each turn (`divided_registers`).
* `scale_eq_iff`: a proportion rounded down and scaled back is the same number only if the first
  division was exact.
-/

namespace Lib

/-! ## One bit -/

theorem two_mul_add_div {d : Nat} (m : Nat) {b : Nat} (hd : 0 < d) (hb : b < 2) :
    (2 * m + b) / d = 2 * (m / d) + if d ≤ 2 * (m % d) + b then 1 else 0 := by
  have hlt : m % d < d := Nat.mod_lt m hd
  have hm : 2 * m + b = (2 * (m % d) + b) + d * (2 * (m / d)) := by
    have hdiv := Nat.div_add_mod m d
    grind
  rw [hm, Nat.add_mul_div_left _ _ hd, Nat.add_comm]
  congr 1
  split
  next hle => exact Nat.div_eq_of_lt_le (by omega) (by omega)
  next hle => exact Nat.div_eq_of_lt (by omega)

theorem two_mul_add_mod {d : Nat} (m : Nat) {b : Nat} (hd : 0 < d) (hb : b < 2) :
    (2 * m + b) % d = if d ≤ 2 * (m % d) + b then 2 * (m % d) + b - d else 2 * (m % d) + b := by
  have hlt : m % d < d := Nat.mod_lt m hd
  have hm : 2 * m + b = (2 * (m % d) + b) + d * (2 * (m / d)) := by
    have hdiv := Nat.div_add_mod m d
    grind
  rw [hm, Nat.add_mul_mod_self_left]
  split
  next hle => rw [Nat.mod_eq_sub_mod hle, Nat.mod_eq_of_lt (by omega)]
  next hle => exact Nat.mod_eq_of_lt (by omega)

theorem div_two_pow_succ (n i : Nat) : n / 2 ^ i = 2 * (n / 2 ^ (i + 1)) + n / 2 ^ i % 2 := by
  rw [Nat.pow_succ, ← Nat.div_div_eq_div_mul]
  omega

/-! ## The loop -/

/-- The bits of `num` from the one below `i` down, into quotient and remainder. -/
def longDiv (num den : UInt64) : Nat → UInt64 × UInt64 → UInt64 × UInt64
  | 0, qr => qr
  | i + 1, (quotient, remainder) =>
    let remainder := remainder <<< 1 ||| (num >>> UInt64.ofNat i &&& 1)
    longDiv num den i <|
      if den ≤ remainder then (quotient ||| 1 <<< UInt64.ofNat i, remainder - den)
      else (quotient, remainder)

/-- A turn of the loop, for the bit `i`. -/
def divTurn (num den : UInt64) (i : Nat) (qr : UInt64 × UInt64) : UInt64 × UInt64 :=
  let remainder := qr.2 <<< 1 ||| (num >>> UInt64.ofNat i &&& 1)
  if den ≤ remainder then (qr.1 ||| 1 <<< UInt64.ofNat i, remainder - den) else (qr.1, remainder)

theorem longDiv_succ (num den : UInt64) (i : Nat) (qr : UInt64 × UInt64) :
    longDiv num den (i + 1) qr = longDiv num den i (divTurn num den i qr) := rfl

theorem toNat_bit (num : UInt64) {i : Nat} (hi : i < 64) :
    (num >>> UInt64.ofNat i &&& 1).toNat = num.toNat / 2 ^ i % 2 := by
  have hof : (UInt64.ofNat i).toNat = i := UInt64.toNat_ofNat_of_lt' (by
    rw [UInt64.size]
    omega)
  rw [UInt64.toNat_and, UInt64.toNat_shiftRight, hof, Nat.mod_eq_of_lt hi, Nat.shiftRight_eq_div_pow]
  exact Nat.and_one_is_mod _

/-- A bit shifted into a remainder that has room for it. -/
theorem toNat_shift_in (r bit : UInt64) (hr : r.toNat < 2 ^ 63) (hb : bit.toNat < 2) :
    (r <<< 1 ||| bit).toNat = 2 * r.toNat + bit.toNat := by
  have hsh : (r <<< 1).toNat = 2 ^ 1 * r.toNat := by
    rw [UInt64.toNat_shiftLeft, show (1 : UInt64).toNat % 64 = 1 from rfl, Nat.shiftLeft_eq,
      Nat.mod_eq_of_lt (by omega)]
    omega
  rw [UInt64.toNat_or, hsh, ← Nat.two_pow_add_eq_or_of_lt (by omega)]

/-- A bit set in a quotient whose bits from `i` down are clear. -/
theorem toNat_set_bit {q : UInt64} {i k : Nat} (hi : i < 64) (hq : q.toNat = 2 ^ (i + 1) * k) :
    (q ||| 1 <<< UInt64.ofNat i).toNat = 2 ^ i * (2 * k + 1) := by
  have hof : (UInt64.ofNat i).toNat = i := UInt64.toNat_ofNat_of_lt' (by
    rw [UInt64.size]
    omega)
  have hlt : 2 ^ i < 2 ^ 64 := Nat.pow_lt_pow_right (by omega) hi
  have hone : (1 <<< UInt64.ofNat i : UInt64).toNat = 2 ^ i := by
    rw [UInt64.toNat_shiftLeft, hof, Nat.mod_eq_of_lt hi, Nat.shiftLeft_eq, UInt64.toNat_one,
      Nat.one_mul, Nat.mod_eq_of_lt hlt]
  rw [UInt64.toNat_or, hone, hq,
    ← Nat.two_pow_add_eq_or_of_lt (Nat.pow_lt_pow_right (by omega) (Nat.lt_succ_self i)),
    Nat.pow_succ]
  grind

/-- The registers hold the division of the bits from `i` on. -/
structure Divided (num den : UInt64) (i : Nat) (qr : UInt64 × UInt64) : Prop where
  quotient : qr.1.toNat = 2 ^ i * (num.toNat / 2 ^ i / den.toNat)
  remainder : qr.2.toNat = num.toNat / 2 ^ i % den.toNat

theorem Divided.start (num den : UInt64) : Divided num den 64 (0, 0) := by
  have hnum : num.toNat / 2 ^ 64 = 0 := Nat.div_eq_of_lt num.toNat_lt
  constructor
  · rw [hnum]
    simp
  · rw [hnum]
    simp

/-- The remainder has room for the next bit. -/
theorem Divided.shift {num den : UInt64} (hd : 0 < den.toNat) (hd' : den.toNat < 2 ^ 63) {i : Nat}
    (hi : i < 64) {qr : UInt64 × UInt64} (h : Divided num den (i + 1) qr) :
    (qr.2 <<< 1 ||| (num >>> UInt64.ofNat i &&& 1)).toNat =
      2 * (num.toNat / 2 ^ (i + 1) % den.toNat) + num.toNat / 2 ^ i % 2 := by
  have hlt : qr.2.toNat < den.toNat := by
    rw [h.remainder]
    exact Nat.mod_lt _ hd
  have hbit := toNat_bit num hi
  have hb : num.toNat / 2 ^ i % 2 < 2 := Nat.mod_lt _ (by omega)
  have hshift := toNat_shift_in qr.2 (num >>> UInt64.ofNat i &&& 1) (by omega) (by omega)
  rwa [h.remainder, hbit] at hshift

theorem Divided.turn {num den : UInt64} (hd : 0 < den.toNat) (hd' : den.toNat < 2 ^ 63) {i : Nat}
    (hi : i < 64) {qr : UInt64 × UInt64} (h : Divided num den (i + 1) qr) :
    Divided num den i (divTurn num den i qr) := by
  have hshift := h.shift hd hd' hi
  have hb : num.toNat / 2 ^ i % 2 < 2 := Nat.mod_lt _ (by omega)
  have hdiv := two_mul_add_div (num.toNat / 2 ^ (i + 1)) hd hb
  have hmod := two_mul_add_mod (num.toNat / 2 ^ (i + 1)) hd hb
  rw [← div_two_pow_succ] at hdiv hmod
  rw [divTurn]
  split
  next hle =>
    have hle' := UInt64.le_iff_toNat_le.mp hle
    rw [hshift] at hle'
    rw [if_pos hle'] at hdiv hmod
    constructor
    · rw [hdiv, toNat_set_bit hi h.quotient]
    · rw [UInt64.toNat_sub_of_le _ _ hle, hshift, hmod]
  next hle =>
    have hle' : ¬ den.toNat ≤ 2 * (num.toNat / 2 ^ (i + 1) % den.toNat) + num.toNat / 2 ^ i % 2 := by
      rw [← hshift]
      exact fun h => hle (UInt64.le_iff_toNat_le.mpr h)
    rw [if_neg hle'] at hdiv hmod
    constructor
    · rw [hdiv, h.quotient, Nat.pow_succ]
      grind
    · rw [hshift, hmod]

/-- The registers before the turn for the bit below `i`. -/
def registers (num den : UInt64) (i : Nat) : UInt64 × UInt64 :=
  (List.range' i (64 - i)).reverse.foldl (fun qr k => divTurn num den k qr) (0, 0)

theorem registers_step (num den : UInt64) {i : Nat} (hi : i < 64) :
    registers num den i = divTurn num den i (registers num den (i + 1)) := by
  rw [registers, show 64 - i = 64 - (i + 1) + 1 by omega, List.range'_succ, List.reverse_cons,
    List.foldl_append]
  rfl

/-- With `i` bits to go, the two registers hold the division of the bits already seen. -/
theorem divided_registers (num : UInt64) {den : UInt64} (hd : 0 < den.toNat)
    (hd' : den.toNat < 2 ^ 63) {i : Nat} (hi : i ≤ 64) : Divided num den i (registers num den i) := by
  generalize hk : 64 - i = k
  induction k generalizing i with
  | zero =>
    obtain rfl : i = 64 := by omega
    exact .start num den
  | succ k ih =>
    rw [registers_step num den (by omega)]
    exact (ih (by omega) (by omega)).turn hd hd' (by omega)

theorem longDiv_registers (num den : UInt64) {i : Nat} (hi : i ≤ 64) :
    longDiv num den i (registers num den i) = registers num den 0 := by
  induction i with
  | zero => rfl
  | succ i ih => rw [longDiv_succ, ← registers_step num den (by omega), ih (by omega)]

/-- The loop over all 64 bits divides. -/
theorem longDiv_eq (num : UInt64) {den : UInt64} (hd : 0 < den.toNat) (hd' : den.toNat < 2 ^ 63) :
    (longDiv num den 64 (0, 0)).1.toNat = num.toNat / den.toNat := by
  have hall : longDiv num den 64 (0, 0) = registers num den 0 :=
    longDiv_registers num den (Nat.le_refl 64)
  have hquotient := (divided_registers num hd hd' (Nat.zero_le 64)).quotient
  rw [hall, hquotient]
  simp

/-! ## Scaling -/

/-- `o` of `s` parts, as a number of `u` parts. -/
theorem scale_le {o s : Nat} (u : Nat) (ho : o ≤ s) : o * u / s ≤ u := by
  obtain hs | hs := Nat.eq_zero_or_pos s
  · simp [hs]
  · apply Nat.div_le_of_le_mul
    exact Nat.mul_le_mul_right u ho

theorem scale_mono {o p : Nat} (u s : Nat) (ho : o ≤ p) : o * u / s ≤ p * u / s :=
  Nat.div_le_div_right (Nat.mul_le_mul_right u ho)

theorem scale_top {s : Nat} (u : Nat) (hs : 0 < s) : s * u / s = u :=
  Nat.mul_div_cancel_left u hs

/-- Scaled down and back up, a part comes out where it was only if it was on a whole pixel. -/
theorem scale_eq_iff {o s u : Nat} (hu : 0 < u) :
    o * u / s * s / u = o ↔ s ∣ o * u := by
  constructor
  · intro h
    have hle : o * u ≤ o * u / s * s := by
      calc o * u = o * u / s * s / u * u := by rw [h]
        _ ≤ o * u / s * s := Nat.div_mul_le_self _ _
    have hge : o * u / s * s ≤ o * u := Nat.div_mul_le_self _ _
    exact Dvd.intro_left _ (Nat.le_antisymm hge hle)
  · intro h
    rw [Nat.div_mul_cancel h, Nat.mul_div_cancel o hu]

end Lib
