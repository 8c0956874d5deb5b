import Hashx86.Lib.CString
import Hashx86.Lib.Cells

/-!
# Strings that are edited in their buffer

* `storeAll`: characters stored one after the other; `storeAll_string`: with a NUL they are a string.
* `stringAt_insert`: a character more, when the cells behind it are one place up.
* `stringAt_eraseIdx`: a character less, when the cells behind it are one place down.
-/

namespace Lib

variable {n i : Nat} {buf : Nat → UInt8} {t : List UInt8} {c : UInt8}

theorem StringAt.nul (h : StringAt buf i t) : buf (i + t.length) = 0 := by
  rw [← List.append_nil t] at h
  exact (StringAt.append_iff.mp h).2

/-- The NUL of a string is stored once more. -/
theorem stringAt_end (h : StringAt buf i t) :
    StringAt (Function.update buf (i + t.length) 0) i t := by
  refine h.frame fun j hj => ?_
  by_cases hend : j = i + t.length
  · rw [hend, Function.update_self, h.nul]
  · exact Function.update_of_ne hend _ _

/-- The characters `t`, from cell `i` on. -/
def storeAll (n : Nat) : (i : Nat) → List UInt8 → (buf : Nat → UInt8) → Except Escape (Nat → UInt8)
  | _, [], buf => .ok buf
  | i, c :: t, buf => do
    let buf ← storeCell n buf i c
    storeAll n (i + 1) t buf

theorem storeAll_string (hfit : i + t.length ≤ n) (ht : ∀ c ∈ t, c ≠ 0) :
    ∃ buf', storeAll n i t buf = .ok buf' ∧ (∀ j < i, buf' j = buf j) ∧
      StringAt (Function.update buf' (i + t.length) 0) i t := by
  induction t generalizing i buf with
  | nil => exact ⟨buf, rfl, fun _ _ => rfl, Function.update_self ..⟩
  | cons c t ih =>
    rw [List.length_cons] at hfit
    obtain ⟨buf', hstore, hsame, hstring⟩ :=
      @ih (i + 1) (Function.update buf i c) (by omega) fun b hb => ht b (by simp [hb])
    refine ⟨buf', ?_, fun j hj => ?_, ?_, ht c (by simp), ?_⟩
    · rw [storeAll, storeCell_inside (by omega), ok_bind, hstore]
    · rw [hsame j (by omega), Function.update_of_ne (by omega)]
    · rw [Function.update_of_ne (by simp), hsame i (by omega), Function.update_self]
    · rwa [List.length_cons, show i + (t.length + 1) = i + 1 + t.length by omega]

theorem insertIdx_eq_take_drop {α : Type} {l : List α} {p : Nat} (a : α) (hp : p ≤ l.length) :
    l.insertIdx p a = l.take p ++ a :: l.drop p := by
  induction p generalizing l with
  | zero => rfl
  | succ p ih =>
    cases l with
    | nil => exact absurd hp (Nat.not_succ_le_zero p)
    | cons b l =>
      rw [List.insertIdx_succ_cons, ih (Nat.le_of_succ_le_succ hp)]
      rfl

/-- The cells from `p` on, all but the NUL at least, are one place up, `c` is stored at `p` and a NUL
behind the string. -/
theorem stringAt_insert (h : StringAt buf 0 t) (hc : c ≠ 0) {p m : Nat} (hp : p ≤ t.length)
    (hm : t.length ≤ p + m) :
    StringAt (Function.update (Function.update (moved (p + 1) p m buf) p c) (t.length + 1) 0) 0
      (t.insertIdx p c) := by
  have hlen : (t.take p).length = p := by rw [List.length_take]; omega
  have hsplit : StringAt buf 0 (t.take p ++ t.drop p) := by rwa [List.take_append_drop]
  rw [insertIdx_eq_take_drop c hp]
  refine hsplit.rejoin (fun k hk => ?_) ⟨?_, hc, ?_⟩
  · rw [Function.update_of_ne (by omega), Function.update_of_ne (by omega), moved_out (by omega)]
  · rw [hlen, Nat.zero_add, Function.update_of_ne (by omega), Function.update_self]
  · refine (StringAt.append_iff.mp hsplit).2.move fun k hk => ?_
    rw [List.length_drop] at hk
    rw [hlen, Nat.zero_add]
    by_cases hend : p + k = t.length
    · have hnul := h.nul
      rw [Nat.zero_add] at hnul
      rw [hend, show p + 1 + k = t.length + 1 by omega, Function.update_self, hnul]
    · rw [Function.update_of_ne (by omega), Function.update_of_ne (by omega), moved_in (by omega)]

/-- The cells behind `p`, the NUL among them, are one place down. -/
theorem stringAt_eraseIdx (h : StringAt buf 0 t) {p : Nat} (hp : p < t.length) :
    StringAt (moved p (p + 1) (t.length - p) buf) 0 (t.eraseIdx p) := by
  have hlen : (t.take p).length = p := by rw [List.length_take]; omega
  have hlen' : (t.take (p + 1)).length = p + 1 := by rw [List.length_take]; omega
  have hsplit : StringAt buf 0 (t.take p ++ t.drop p) := by rwa [List.take_append_drop]
  have hsplit' : StringAt buf 0 (t.take (p + 1) ++ t.drop (p + 1)) := by rwa [List.take_append_drop]
  rw [List.eraseIdx_eq_take_drop_succ]
  refine hsplit.rejoin (fun k hk => moved_out (by omega)) ?_
  refine (StringAt.append_iff.mp hsplit').2.move fun k hk => ?_
  rw [List.length_drop] at hk
  rw [hlen, hlen', Nat.zero_add, Nat.zero_add, moved_in (by omega)]

end Lib
