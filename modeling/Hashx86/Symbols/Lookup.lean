import Hashx86.Lib.Nearest
import Hashx86.Symbols.Load
import Mathlib.Data.List.Induction

/-!
# Looking up an address (`KernelSymbolTable::Lookup`)

* `found_iff`: the lookup gives the nearest of the symbols that were stored.
* `lookup_iff`: it gives the nearest symbol of the text for every address exactly when the symbol
  stored last for each address is the one listed last.
* `storedLine_of_symbolLine`: a line with a symbol is stored as it is.
* `stored_eq_wellFormed`: all of them are stored where there are 20 bytes for each and no other line
  is taken for a symbol.
-/

namespace Hashx86
namespace Symbols

open Lib

/-! ## `Lookup` -/

/-- The loop of `Lookup`: the best address and name so far. -/
def closest (eip : Nat) (symbolIndex : List SymbolEntry) : Nat × Option Nat :=
  symbolIndex.foldl (fun best e =>
    if e.addr ≤ eip then if best.1 ≤ e.addr then (e.addr, some e.name) else best else best) (0, none)

/-- The pointer to the name, and the offset. -/
def Table.lookup (table : Table) (eip : Nat) : Option (Nat × Nat) :=
  if table.symbolIndex.length = 0 then none
  else
    let best := closest eip table.symbolIndex
    match best.2 with
    | none => none
    | some bestName =>
      let localOffset := eip - best.1
      if 0x100000 < localOffset then none else some (bestName, localOffset)

/-- The name that the pointer is to, and the offset. -/
def Table.found (table : Table) (eip : Nat) : Option (List UInt8 × Nat) :=
  (table.lookup eip).map fun (name, offset) =>
    (stringFrom table.fileBuffer table.size name, offset)

/-! ## The symbols of a text -/

def hexValue (digits : List UInt8) : Nat :=
  digits.foldl (fun v c => v * 16 + (hexDigit c).getD 0) 0

/-- The symbol of a line: blanks, `0x`, the digits of the address, blanks and the name. -/
def symbolLine (line : List UInt8) : Option (Nat × List UInt8) :=
  let line := line.dropWhile isBlank
  let digits := (line.drop 2).takeWhile isHex
  let rest := (line.drop 2).dropWhile isHex
  if line.take 2 = [0x30, 0x78] ∧ digits ≠ [] ∧ rest.takeWhile isBlank ≠ [] ∧
      rest.dropWhile isBlank ≠ [] then
    some (hexValue digits, rest.dropWhile isBlank)
  else none

/-- The symbols of a text. -/
def wellFormed (text : List UInt8) : List (Nat × List UInt8) := entries isEol symbolLine text

/-- The name of the nearest symbol and the offset from its address, if that is at most 1 MiB. -/
def Resolves (syms : List (Nat × List UInt8)) (eip : Nat) (r : List UInt8 × Nat) : Prop :=
  ∃ addr, Nearest syms eip (addr, r.1) ∧ r.2 = eip - addr ∧ r.2 ≤ 0x100000

/-- After `Load` every address is resolved by the symbols of the text. -/
def Right (text : List UInt8) (mem : Nat → Bool) : Prop :=
  ∃ table, load text mem = some table ∧
    ∀ eip < 2 ^ 32, ∀ r, table.found eip = some r ↔ Resolves (wellFormed text) eip r

/-! ## The loop of the lookup -/

theorem closest_append (eip : Nat) (l : List SymbolEntry) (e : SymbolEntry) :
    closest eip (l ++ [e]) = if e.addr ≤ eip then
      if (closest eip l).1 ≤ e.addr then (e.addr, some e.name) else closest eip l
      else closest eip l := by
  unfold closest
  rw [List.foldl_append]
  rfl

/-- The best address is the greatest that is not above, or 0. -/
theorem closest_le_iff (eip : Nat) (l : List SymbolEntry) (a : Nat) :
    (closest eip l).1 ≤ a ↔ ∀ e ∈ l, e.addr ≤ eip → e.addr ≤ a := by
  induction l using List.reverseRecOn with
  | nil => exact iff_of_true (Nat.zero_le a) nofun
  | append_singleton l e ih =>
    rw [closest_append, List.forall_mem_append, ← ih]
    simp only [List.forall_mem_singleton]
    split
    case isTrue hle =>
      split
      case isTrue hbest =>
        exact ⟨fun h => ⟨hbest.trans h, fun _ => h⟩, fun h => h.2 hle⟩
      case isFalse hbest =>
        exact ⟨fun h => ⟨h, fun _ => by omega⟩, fun h => h.1⟩
    case isFalse hgt =>
      exact ⟨fun h => ⟨h, fun hle => absurd hle hgt⟩, fun h => h.1⟩

/-- The loop finds the nearest symbol. -/
theorem closest_iff (buf : Nat → UInt8) (size eip : Nat) (l : List SymbolEntry) (addr : Nat)
    (name : List UInt8) :
    ((closest eip l).1 = addr ∧ (closest eip l).2.map (stringFrom buf size) = some name) ↔
      Nearest (l.map (named buf size)) eip (addr, name) := by
  induction l using List.reverseRecOn with
  | nil => exact iff_of_false (fun h => nomatch h.2) not_nearest_nil
  | append_singleton l e ih =>
    rw [List.map_append, List.map_singleton, nearest_append, closest_append]
    have hmax : ((named buf size e).1 ≤ eip ∧
        ∀ p ∈ l.map (named buf size), p.1 ≤ eip → p.1 ≤ (named buf size e).1) ↔
        e.addr ≤ eip ∧ (closest eip l).1 ≤ e.addr := by
      rw [List.forall_mem_map, closest_le_iff]
      rfl
    by_cases hle : e.addr ≤ eip
    · by_cases hbest : (closest eip l).1 ≤ e.addr
      · rw [if_pos hle, if_pos hbest, if_pos (hmax.mpr ⟨hle, hbest⟩), named, Prod.mk.injEq]
        simp only [Option.map_some, Option.some.injEq]
      · rw [if_pos hle, if_neg hbest, if_neg fun h => hbest (hmax.mp h).2, ih]
    · rw [if_neg hle, if_neg fun h => hle (hmax.mp h).1, ih]

theorem found_iff (table : Table) (eip : Nat) (r : List UInt8 × Nat) :
    table.found eip = some r ↔
      Resolves (table.symbolIndex.map (named table.fileBuffer table.size)) eip r := by
  obtain ⟨name, off⟩ := r
  unfold Table.found Table.lookup Resolves
  simp only [← closest_iff]
  by_cases hempty : table.symbolIndex.length = 0
  · rw [if_pos hempty, List.length_eq_zero_iff.mp hempty]
    exact iff_of_false nofun fun ⟨_, h, _⟩ => nomatch h.2
  rw [if_neg hempty]
  generalize closest eip table.symbolIndex = best
  obtain ⟨bestAddr, bestName⟩ := best
  cases bestName with
  | none => exact iff_of_false nofun fun ⟨_, h, _⟩ => nomatch h.2
  | some p =>
    dsimp only
    by_cases hfar : 0x100000 < eip - bestAddr
    · rw [if_pos hfar]
      refine iff_of_false nofun fun ⟨_, ⟨rfl, _⟩, hoff, hle⟩ => ?_
      omega
    · rw [if_neg hfar]
      simp only [Option.map_some, Option.some.injEq, Prod.mk.injEq]
      constructor
      · rintro ⟨rfl, rfl⟩
        exact ⟨bestAddr, ⟨rfl, rfl⟩, rfl, by omega⟩
      · rintro ⟨_, ⟨rfl, hname⟩, rfl, -⟩
        exact ⟨hname, rfl⟩

/-! ## The nearest symbol of the text -/

/-- A symbol is found at its own address. -/
theorem resolves_self_iff {syms : List (Nat × List UInt8)} {addr : Nat} {name : List UInt8} :
    Resolves syms addr (name, 0) ↔ lastAt syms addr = some name := by
  rw [← nearest_self_iff]
  constructor
  · rintro ⟨a, hnear, hoff, -⟩
    have hle := (nearest_iff_lastAt.mp hnear).1
    obtain rfl : a = addr := by
      dsimp only at hoff
      omega
    exact hnear
  · intro h
    exact ⟨addr, h, (Nat.sub_self addr).symm, Nat.zero_le _⟩

/-- Every address is resolved by the symbols of the text exactly when the symbol stored last for an
address is the one listed last. -/
theorem lookup_iff (text : List UInt8) (mem : Nat → Bool) :
    Right text mem ↔ ∀ addr < 2 ^ 32, lastAt (stored text mem) addr = lastAt (wellFormed text) addr := by
  obtain ⟨table, hload, hstored⟩ := load_spec text mem
  have hfound : Right text mem ↔ ∀ eip < 2 ^ 32, ∀ r,
      Resolves (stored text mem) eip r ↔ Resolves (wellFormed text) eip r := by
    unfold Right
    rw [hload]
    simp only [Option.some.injEq, exists_eq_left', found_iff, hstored]
  rw [hfound]
  constructor
  · intro h addr haddr
    refine Option.ext fun name => ?_
    rw [← resolves_self_iff, ← resolves_self_iff]
    exact h addr haddr (name, 0)
  · intro h eip heip r
    refine exists_congr fun addr => and_congr_left fun _ => nearest_congr fun a ha => ?_
    exact h a (ha.trans_lt heip)

/-! ## Lines that are stored as they are -/

theorem hexDigit_lt (c : UInt8) : (hexDigit c).getD 0 < 16 := by
  unfold hexDigit
  have hle : ∀ d : UInt8, c ≤ d → c.toNat ≤ d.toNat := fun d h => h
  split_ifs with h1 h2 h3
  · have := hle _ h1.2
    exact (show c.toNat - 0x30 < 16 by simp at this; omega)
  · have := hle _ h2.2
    exact (show c.toNat - 0x61 + 10 < 16 by simp at this; omega)
  · have := hle _ h3.2
    exact (show c.toNat - 0x41 + 10 < 16 by simp at this; omega)
  · decide

/-- `HexStrToInt` keeps the low 32 bits. -/
theorem hexNumber_eq (digits : List UInt8) : hexNumber digits = hexValue digits % 2 ^ 32 := by
  unfold hexNumber hexValue
  induction digits using List.reverseRecOn with
  | nil => rfl
  | append_singleton digits c ih =>
    have hc := hexDigit_lt c
    rw [List.foldl_append, List.foldl_append, List.foldl_cons, List.foldl_cons, List.foldl_nil,
      List.foldl_nil, ih]
    generalize digits.foldl (fun v c => v * 16 + (hexDigit c).getD 0) 0 = v
    generalize (hexDigit c).getD 0 = d at *
    have hshift : (v % 2 ^ 32) <<< 4 % 2 ^ 32 = (v % 2 ^ 28) <<< 4 := by
      rw [Nat.shiftLeft_eq, Nat.shiftLeft_eq]
      omega
    rw [hshift, ← Nat.shiftLeft_add_eq_or_of_lt (show d < 2 ^ 4 by omega), Nat.shiftLeft_eq]
    omega

theorem isHex_isToken (b : UInt8) (h : isHex b = true) : isToken b = true := by
  by_contra htoken
  have hb : b = 0x20 ∨ b = 0x09 ∨ b = 0x0A ∨ b = 0x0D ∨ b = 0 := by
    unfold isToken isSpace isBlank isEol at htoken
    grind
  rcases hb with rfl | rfl | rfl | rfl | rfl <;> exact absurd h (by decide)

theorem take_two_iff {α : Type} {l : List α} {a b : α} :
    l.take 2 = [a, b] ↔ ∃ r, l = a :: b :: r := by
  constructor
  · intro h
    exact ⟨l.drop 2, by rw [← List.take_append_drop 2 l, h]; rfl⟩
  · rintro ⟨r, rfl⟩
    rfl

/-- A line with a symbol is stored, with the low 32 bits of its address. -/
theorem storedLine_of_symbolLine {line name : List UInt8} {addr : Nat}
    (h : symbolLine line = some (addr, name)) : storedLine line = some (addr % 2 ^ 32, name) := by
  unfold symbolLine at h
  unfold storedLine
  dsimp only at h ⊢
  generalize line.dropWhile isBlank = l at *
  split at h
  case isFalse => exact nomatch h
  case isTrue hline =>
    obtain ⟨htake, -, hblank, hname⟩ := hline
    cases h
    obtain ⟨r, rfl⟩ := take_two_iff.mp htake
    have hdrop : List.drop 2 (0x30 :: 0x78 :: r) = r := rfl
    rw [hdrop] at hblank hname ⊢
    have htoken : (0x30 :: 0x78 :: r).dropWhile isToken = r.dropWhile isHex := by
      have hskip : (0x30 :: 0x78 :: r).dropWhile isToken = r.dropWhile isToken := rfl
      rw [hskip, ← dropWhile_dropWhile isHex_isToken]
      cases hrest : r.dropWhile isHex with
      | nil => rfl
      | cons b rest =>
        -- the digits end at a blank, where the token ends too
        refine List.dropWhile_cons_of_neg fun hb => hblank ?_
        rw [hrest]
        refine List.takeWhile_cons_of_neg fun hb' => ?_
        unfold isToken isSpace at hb
        rw [hb'] at hb
        exact Bool.false_ne_true hb
    rw [htoken, if_pos ⟨htake, hname⟩, hexNumber_eq]

/-- Where each symbol of the text has 20 bytes of it, there is memory, and no other line is taken for
a symbol, all of them are stored. -/
theorem stored_eq_wellFormed {text : List UInt8} {mem : Nat → Bool} (hnul : 0 ∉ text)
    (hbuf : kmalloc mem ((text.length + 1) % 2 ^ 32) = true)
    (hindex : kmalloc mem (text.length / 20 * 8 % 2 ^ 32) = true)
    (hroom : (wellFormed text).length ≤ text.length / 20)
    (hlines : ∀ line ∈ text.splitOnP isEol, storedLine line ≠ none →
      ∃ s, symbolLine line = some s ∧ s.1 < 2 ^ 32) :
    stored text mem = wellFormed text := by
  have hsize : text.length ≠ 0 := by
    intro h
    rw [h] at hindex
    exact absurd hindex (by simp [kmalloc])
  have hline : ∀ line ∈ text.splitOnP isEol, storedLine line = symbolLine line := by
    intro line hmem
    cases hsymbol : symbolLine line with
    | none =>
      by_contra hstored
      obtain ⟨s, hs, -⟩ := hlines line hmem hstored
      exact nomatch hsymbol.symm.trans hs
    | some s =>
      obtain ⟨addr, name⟩ := s
      have hstored := storedLine_of_symbolLine hsymbol
      obtain ⟨s, hs, hlt⟩ := hlines line hmem (by rw [hstored]; exact nofun)
      obtain rfl : (addr, name) = s := Option.some.inj (hsymbol.symm.trans hs)
      rw [hstored, Nat.mod_eq_of_lt hlt]
  have htext : (text.takeWhile fun b => decide (b ≠ 0)) = text :=
    List.takeWhile_eq_self_iff.mpr fun b hb => decide_eq_true fun h => hnul (h ▸ hb)
  have hall : storedLines text = wellFormed text := List.filterMap_congr hline
  have hloads : ¬ (text.length = 0 ∨ kmalloc mem ((text.length + 1) % 2 ^ 32) = false ∨
      kmalloc mem (text.length / 20 * 8 % 2 ^ 32) = false) := by
    rw [hbuf, hindex]
    simp [hsize]
  rw [stored, if_neg hloads, htext, hall, List.take_of_length_le hroom]

/-- The text of one short line. -/
def oneSymbol : List UInt8 := [0x30, 0x78, 0x31, 0x20, 0x61, 0x0A]

/-- A text of fewer than 20 bytes has no symbols for `Lookup`. -/
theorem oneSymbol_lost : ¬ Right oneSymbol fun _ => true := by
  rintro ⟨table, hload, h⟩
  have hempty : load oneSymbol (fun _ => true) = some .empty := rfl
  obtain rfl : Table.empty = table := Option.some.inj (hempty.symm.trans hload)
  have hsymbol : wellFormed oneSymbol = [(1, [0x61])] := by decide
  have hfound := (h 1 (by decide) ([0x61], 0)).mpr
    ⟨1, hsymbol ▸ ⟨[], [], rfl, Nat.le_refl 1, nofun, nofun⟩, rfl, by decide⟩
  exact absurd hfound nofun

end Symbols
end Hashx86
