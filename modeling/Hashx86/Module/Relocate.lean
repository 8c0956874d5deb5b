import Hashx86.Lib.Splice
import Hashx86.Module.Images

/-!
# Symbols and relocations

`relocated` is what a relocation makes of an image, and `symbolAddr` the value of its symbol.
`Shows h secs count img` says that the memory of every image of the table holds the bytes `img`.

* `applyRel_some`, `applyRels_true`: the loops over a table of relocations patch the image of the
  target, and no other.
* `relocate_true`: when the loop over the sections succeeds, every table has been applied.
* `relocate_patched`: in any case only words of targets are stored.
-/

namespace Hashx86
namespace Module

open Lib Fs

/-! ## The symbol table -/

/-- The symbols are those of the first symbol table of the file and the strings of its link. -/
def SymbolsOf (data : List UInt8) (secs : Nat → Section) (count : Nat) (sy : Symbols) : Prop :=
  ∃ i, findSymtab secs count 0 = some i ∧
    sy.bytes = slice data (secs i).offset (secs i).size ∧ sy.count = (secs i).size / 16 ∧
    sy.str = slice data (secs (secs i).link).offset (secs (secs i).link).size

theorem loadSymbols_cases (env : Env) {secs : Nat → Section} (count : Nat) {io : Io}
    (hio : IoOk io) (hoff : ∀ j, (secs j).offset < 2 ^ 32) :
    (∃ io', loadSymbols env secs count io = (none, io') ∧ Moved io io' ∧ Held io io' ∧
      io'.heap.blocks = io.heap.blocks) ∨
    ∃ sy io' n m, loadSymbols env secs count io = (some sy, io') ∧ Moved io io' ∧ Held io io' ∧
      io'.heap.blocks = ⟨sy.strPtr, n⟩ :: ⟨sy.ptr, m⟩ :: io.heap.blocks ∧
      SymbolsOf io.file.fil.data secs count sy := by
  -- the symbol table is dropped again
  have hdrop : ∀ {io₁ : Io} {b : Block}, Moved io io₁ → Held io io₁ →
      io₁.heap.blocks = b :: io.heap.blocks →
      Moved io { io₁ with heap := io₁.heap.kfree b.addr } ∧
        Held io { io₁ with heap := io₁.heap.kfree b.addr } ∧
        (io₁.heap.kfree b.addr).blocks = io.heap.blocks := fun {io₁ b} hm hh hb => by
    have hfree := kfree_head hm.heap hb
    refine ⟨hm.trans (moved_kfree hm.ok (hb ▸ List.mem_cons_self)), ⟨fun c hc x hx => ?_, ?_⟩, ?_⟩
    · dsimp only
      rw [hfree]
      exact hh.bytes c hc x hx
    · dsimp only
      rw [hfree]
      exact hh.words
    · rw [hfree]
  unfold loadSymbols
  cases hfind : findSymtab secs count 0 with
  | none => exact .inl ⟨io, rfl, .refl hio, .refl io, rfl⟩
  | some i =>
    dsimp only
    by_cases hl : Loads io (secs i).size (secs i).offset env.symtab
    · obtain ⟨io₁, he, hm, hh, hb, -⟩ := loadBuf_loads hio (hoff i) hl
      rw [he]
      dsimp only
      by_cases hlink : toInt32 (secs i).link < 0 ∨ count ≤ (secs i).link
      · rw [if_pos hlink]
        exact .inl ⟨_, rfl, hdrop hm hh hb⟩
      rw [if_neg hlink]
      by_cases hl₂ : Loads io₁ (secs (secs i).link).size (secs (secs i).link).offset env.symstr
      · obtain ⟨io₂, he₂, hm₂, hh₂, hb₂, -⟩ := loadBuf_loads hm.ok (hoff (secs i).link) hl₂
        rw [he₂]
        refine .inr ⟨_, io₂, _, _, rfl, hm.trans hm₂, hh.trans ?_ hh₂, hb₂.trans (by rw [hb]),
          i, hfind, rfl, rfl, ?_⟩
        · exact fun b hmem => hb ▸ List.mem_cons_of_mem _ hmem
        · rw [hm.file.data]
      · obtain ⟨io₂, he₂, hm₂, hh₂, hb₂⟩ := loadBuf_fails hm.ok (hoff (secs i).link) hl₂
        rw [he₂]
        exact .inl ⟨_, rfl, hdrop (hm.trans hm₂)
          (hh.trans (fun b hmem => hb ▸ List.mem_cons_of_mem _ hmem) hh₂) (hb₂.trans hb)⟩
    · obtain ⟨io₁, he, hm, hh, hb⟩ := loadBuf_fails hio (hoff i) hl
      rw [he]
      exact .inl ⟨io₁, rfl, hm, hh, hb⟩

/-! ## One relocation -/

/-- The value of a symbol: the address that the kernel has for the name of an undefined one, the
address in the image of its section for any other. -/
def symbolAddr (env : Env) (secs : Nat → Section) (str : List UInt8) (s : Symbol) : Nat :=
  if s.shndx = 0 then (env.lookup ((str.drop s.name).takeWhile (· ≠ 0))).toNat
  else ((secs s.shndx).addr + s.value) % 2 ^ 32

/-- `S + A` for `R_386_32`, `S + A - P` for `R_386_PC32`. -/
def wordAfter (type place symVal word : Nat) : Nat :=
  if type = 1 then (word + symVal) % 2 ^ 32 else (((word + symVal - place : Int)) % 2 ^ 32).toNat

/-- The image with the relocation applied. -/
def relocated (base symVal : Nat) (img : List UInt8) (rel : Rel) : List UInt8 :=
  splice img rel.offset ((List.range 4).map
    (bytes32 (wordAfter rel.type (base + rel.offset) symVal (u32 img rel.offset))))

theorem patched_eq {type place symVal word : Nat} (hp : place < 2 ^ 32) (hs : symVal < 2 ^ 32) :
    patched type place symVal word = wordAfter type place symVal word := by
  unfold patched wordAfter sub32
  split
  · rfl
  · split <;> omega

theorem resolve_some {env : Env} {secs : Nat → Section} {count : Nat} {str : List UInt8}
    {s : Symbol} {v : Nat} (h : resolve env secs count str s = some v) :
    v = symbolAddr env secs str s ∧ v < 2 ^ 32 := by
  unfold resolve at h
  unfold symbolAddr
  by_cases h0 : s.shndx = 0
  · rw [if_pos h0] at h
    rw [if_pos h0]
    split at h
    · exact absurd h (Option.some_ne_none v).symm
    unfold nameAt at h
    dsimp only at h
    by_cases hnul : (0 : UInt8) ∈ str.drop s.name
    · rw [if_pos hnul] at h
      dsimp only at h
      split at h
      · exact absurd h (Option.some_ne_none v).symm
      · obtain rfl := Option.some.inj h
        exact ⟨rfl, UInt32.toNat_lt _⟩
    · rw [if_neg hnul] at h
      exact absurd h (Option.some_ne_none v).symm
  · rw [if_neg h0] at h
    rw [if_neg h0]
    split at h
    · exact absurd h (Option.some_ne_none v).symm
    split at h
    · exact absurd h (Option.some_ne_none v).symm
    split at h
    · exact absurd h (Option.some_ne_none v).symm
    obtain rfl := Option.some.inj h
    exact ⟨rfl, Nat.mod_lt _ (Nat.two_pow_pos 32)⟩

theorem length_relocated {base symVal : Nat} {img : List UInt8} {rel : Rel}
    (h : rel.offset + 4 ≤ img.length) : (relocated base symVal img rel).length = img.length := by
  unfold relocated
  rw [length_splice _ (by omega), List.length_map, List.length_range]
  omega

/-- The bytes of a relocated image are those that the store of the word leaves. -/
theorem relocated_getD {base symVal : Nat} {img : List UInt8} {rel : Rel}
    (h : rel.offset + 4 ≤ img.length) (x : Nat) : (relocated base symVal img rel).getD x 0 =
      write32 (fun i => img.getD i 0) rel.offset
        (wordAfter rel.type (base + rel.offset) symVal (u32 img rel.offset)) x := by
  have hlen : ∀ w, ((List.range 4).map (bytes32 w)).length = 4 := fun w => by
    rw [List.length_map, List.length_range]
  unfold relocated write32
  rw [List.getD_eq_getElem?_getD]
  by_cases hin : rel.offset ≤ x ∧ x < rel.offset + 4
  · rw [overwrite_of_in _ _ hin.1 hin.2]
    obtain ⟨i, rfl⟩ := Nat.exists_eq_add_of_le hin.1
    rw [getElem?_splice_in (by omega) (by rw [hlen]; omega), Nat.add_sub_cancel_left,
      List.getElem?_map, List.getElem?_range (by omega)]
    rfl
  · rw [overwrite_of_out _ _ (by omega), getElem?_splice_out (by omega) (by rw [hlen]; omega),
      List.getD_eq_getElem?_getD]

/-! ## The images in memory -/

/-- The image of a section of the table. -/
def Section.image (s : Section) : Block := ⟨s.addr, s.size⟩

/-- The images are blocks of the call, one for each section. -/
structure Based (h : Heap) (secs : Nat → Section) (count : Nat) : Prop where
  held : ∀ t < count, (secs t).needed → (secs t).image ∈ h.blocks
  apart : ∀ t < count, ∀ u < count, (secs t).needed → (secs u).needed → t ≠ u →
    (secs t).image.Disjoint (secs u).image

theorem Based.of_blocks {h h' : Heap} {secs : Nat → Section} {count : Nat} (hb : Based h secs count)
    (hsub : ∀ b ∈ h.blocks, b ∈ h'.blocks) : Based h' secs count :=
  ⟨fun t ht hn => hsub _ (hb.held t ht hn), hb.apart⟩

/-- The memory of the images holds the bytes `img`. -/
structure Shows (h : Heap) (secs : Nat → Section) (count : Nat) (img : Nat → List UInt8) : Prop where
  length : ∀ t < count, (secs t).needed → (img t).length = (secs t).size
  bytes : ∀ t < count, (secs t).needed → ∀ x < (secs t).size,
    h.mem ((secs t).addr + x) = (img t).getD x 0

theorem Shows.congr {h : Heap} {secs : Nat → Section} {count : Nat} {img img' : Nat → List UInt8}
    (hs : Shows h secs count img) (he : ∀ t < count, (secs t).needed → img' t = img t) :
    Shows h secs count img' where
  length t ht hn := he t ht hn ▸ hs.length t ht hn
  bytes t ht hn := he t ht hn ▸ hs.bytes t ht hn

theorem Shows.of_held {io io' : Io} {secs : Nat → Section} {count : Nat} {img : Nat → List UInt8}
    (hs : Shows io.heap secs count img) (hb : Based io.heap secs count) (hh : Held io io') :
    Shows io'.heap secs count img where
  length := hs.length
  bytes t ht hn x hx := (hh.bytes _ (hb.held t ht hn) _ ⟨Nat.le_add_right _ _,
    Nat.add_lt_add_left hx _⟩).trans (hs.bytes t ht hn x hx)

/-- Only words of the block are stored. -/
structure Patched (h h' : Heap) (b : Block) : Prop where
  blocks : h'.blocks = h.blocks
  given : h'.given = h.given
  wild : h'.wild = h.wild
  mem : ∀ a, ¬ b.Has a → h'.mem a = h.mem a
  words : ∀ p ∈ h'.words, p ∈ h.words ∨ b.addr ≤ p ∧ p + 4 ≤ b.addr + b.size

theorem Patched.refl (h : Heap) (b : Block) : Patched h h b :=
  ⟨rfl, rfl, rfl, fun _ _ => rfl, fun _ hp => .inl hp⟩

theorem Patched.trans {h h₁ h₂ : Heap} {b : Block} (h1 : Patched h h₁ b) (h2 : Patched h₁ h₂ b) :
    Patched h h₂ b where
  blocks := h2.blocks.trans h1.blocks
  given := h2.given.trans h1.given
  wild := h2.wild.trans h1.wild
  mem a ha := (h2.mem a ha).trans (h1.mem a ha)
  words p hp := (h2.words p hp).elim (h1.words p) .inr

/-! ## The loop over one table -/

/-- The relocation with its symbol. -/
def applied (env : Env) (secs : Nat → Section) (sy : Symbols) (base : Nat) (img : List UInt8)
    (rel : Rel) : List UInt8 :=
  relocated base (symbolAddr env secs sy.str (parseSymbol sy.bytes rel.sym)) img rel

section Table

variable {env : Env} {secs : Nat → Section} {count : Nat} {sy : Symbols} {t : Nat}

theorem applyRel_some {h h' : Heap} {img : Nat → List UInt8} {rel : Rel} (hok : HeapOk h)
    (hb : Based h secs count) (hs : Shows h secs count img) (ht : t < count) (hn : (secs t).needed)
    (h4 : 4 ≤ (secs t).size)
    (happly : applyRel env secs count sy (secs t).addr (secs t).size rel h = some h') :
    Patched h h' (secs t).image ∧
      Shows h' secs count (Function.update img t (applied env secs sy (secs t).addr (img t) rel)) := by
  unfold applyRel at happly
  split at happly
  · exact absurd happly (Option.some_ne_none h').symm
  split at happly
  · exact absurd happly (Option.some_ne_none h').symm
  split at happly
  · exact absurd happly (Option.some_ne_none h').symm
  rename_i hoff
  obtain ⟨-, hend⟩ := hok.bound _ (hb.held t ht hn)
  have hlen := hs.length t ht hn
  have hin : rel.offset + 4 ≤ (secs t).size := by omega
  have hplace : ((secs t).addr + rel.offset) % 2 ^ 32 = (secs t).addr + rel.offset :=
    Nat.mod_eq_of_lt (by unfold Section.image at hend; dsimp only at hend; omega)
  dsimp only at happly
  rw [hplace] at happly
  cases hres : resolve env secs count sy.str (parseSymbol sy.bytes rel.sym) with
  | none => rw [hres] at happly; exact absurd happly (Option.some_ne_none h').symm
  | some v =>
    obtain ⟨rfl, hv⟩ := resolve_some hres
    rw [hres] at happly
    obtain rfl := Option.some.inj happly
    have hword : read32 h.mem ((secs t).addr + rel.offset) = u32 (img t) rel.offset :=
      read32_eq fun i hi => by rw [Nat.add_assoc, hs.bytes t ht hn _ (by omega)]
    rw [hword, patched_eq (hplace ▸ Nat.mod_lt _ (Nat.two_pow_pos 32)) hv]
    refine ⟨⟨rfl, rfl, rfl, fun a ha => ?_, fun p hp => ?_⟩, ⟨fun u hu hun => ?_, fun u hu hun x hx => ?_⟩⟩
    · refine overwrite_of_out _ _ ?_
      unfold Block.Has Section.image at ha
      dsimp only at ha
      omega
    · rcases List.mem_cons.mp hp with rfl | hp
      · exact .inr ⟨Nat.le_add_right _ _, by unfold Section.image; dsimp only; omega⟩
      · exact .inl hp
    · by_cases he : u = t
      · subst he
        rw [Function.update_self, applied, length_relocated (by omega), hlen]
      · rw [Function.update_of_ne he, hs.length u hu hun]
    · by_cases he : u = t
      · subst he
        rw [Function.update_self, applied, relocated_getD (by omega)]
        unfold Heap.setWord write32
        dsimp only
        by_cases hx : rel.offset ≤ x ∧ x < rel.offset + 4
        · rw [overwrite_of_in _ _ (by omega) (by omega), overwrite_of_in _ _ hx.1 hx.2,
            Nat.add_sub_add_left]
        · rw [overwrite_of_out _ _ (by omega), overwrite_of_out _ _ (by omega),
            hs.bytes u hu hun x (by omega)]
      · rw [Function.update_of_ne he, ← hs.bytes u hu hun x hx]
        refine overwrite_of_out _ _ ?_
        have hd := hb.apart u hu t ht hun hn he
        unfold Block.Disjoint Section.image at hd
        dsimp only at hd
        omega

/-- The entries `r..` of a table, `n` of them. -/
def entries (table : List UInt8) (r n : Nat) : List Rel := (List.range' r n).map (parseRel table)

theorem applyRels_cases (env : Env) (sy : Symbols) (table : List UInt8) (ht : t < count) (hn : (secs t).needed)
    (h4 : 4 ≤ (secs t).size) (n : Nat) : ∀ {r : Nat} {h : Heap} {img : Nat → List UInt8}, HeapOk h →
      Based h secs count → Shows h secs count img →
    ∃ ok h', applyRels env secs count sy (secs t).addr (secs t).size table n r h = (ok, h') ∧
      Patched h h' (secs t).image ∧ (ok = true → Shows h' secs count (Function.update img t
        ((entries table r n).foldl (applied env secs sy (secs t).addr) (img t)))) := by
  induction n with
  | zero =>
    intro r h img hok hb hs
    refine ⟨true, h, rfl, .refl h _, fun _ => hs.congr fun u _ _ => ?_⟩
    exact congrFun (Function.update_eq_self t img) u
  | succ n ih =>
    intro r h img hok hb hs
    rw [applyRels]
    cases happly : applyRel env secs count sy (secs t).addr (secs t).size (parseRel table r) h with
    | none => exact ⟨false, h, rfl, .refl h _, fun he => absurd he Bool.false_ne_true⟩
    | some h₁ =>
      obtain ⟨hp, hs₁⟩ := applyRel_some hok hb hs ht hn h4 happly
      obtain ⟨ok, h', he, hp', hs'⟩ := ih (r := r + 1) (hok.of_blocks hp.blocks hp.given)
        (hb.of_blocks fun b hm => hp.blocks ▸ hm) hs₁
      refine ⟨ok, h', he, hp.trans hp', fun hok' => (hs' hok').congr fun u _ _ => ?_⟩
      rw [Function.update_idem, Function.update_self]
      rfl

end Table

/-! ## The loop over the sections -/

/-- The entries of section `i`, when it is a table of relocations for `t`. -/
def relocsAt (data : List UInt8) (secs : Nat → Section) (t i : Nat) : List Rel :=
  if (secs i).type = 9 ∧ (secs i).info = t then
    entries (slice data (secs i).offset (secs i).size) 0 ((secs i).size / 8)
  else []

/-- The words that are stored lie in the images of targets. -/
def StoresInTargets (secs : Nat → Section) (count : Nat) (h h' : Heap) : Prop :=
  ∀ p ∈ h'.words, p ∈ h.words ∨ ∃ i < count, (secs i).type = 9 ∧ (secs i).info < count ∧
    (secs (secs i).info).needed ∧ (secs (secs i).info).addr ≤ p ∧
    p + 4 ≤ (secs (secs i).info).addr + (secs (secs i).info).size

theorem StoresInTargets.of_words {secs : Nat → Section} {count : Nat} {h h' : Heap}
    (hw : h'.words = h.words) : StoresInTargets secs count h h' := fun _ hp => .inl (hw ▸ hp)

theorem StoresInTargets.trans {secs : Nat → Section} {count : Nat} {h h₁ h₂ : Heap}
    (h1 : StoresInTargets secs count h h₁) (h2 : StoresInTargets secs count h₁ h₂) :
    StoresInTargets secs count h h₂ := fun p hp => (h2 p hp).elim (h1 p) .inr

/-- Words of an image are stored. -/
theorem Patched.moved {io : Io} {h' : Heap} {b : Block} (hio : IoOk io) (hp : Patched io.heap h' b)
    (hb : b ∈ io.heap.blocks) : Moved io { io with heap := h' } :=
  ⟨.refl hio.file, hio.heap.of_blocks hp.blocks hp.given, hp.wild, fun _ hc => hp.given ▸ hc,
    fun a ha => hp.mem a (ha b (hp.given ▸ hio.heap.given b hb))⟩

section Loop

variable {env : Env} {secs : Nat → Section} {count : Nat} {symbols : Option Symbols}

theorem relocateSection_cases (env : Env) (symbols : Option Symbols) {io : Io} {i : Nat} {img : Nat → List UInt8} (hio : IoOk io)
    (hb : Based io.heap secs count) (hs : Shows io.heap secs count img) (hi : i < count)
    (htype : (secs i).type = 9) (hoff : ∀ j, (secs j).offset < 2 ^ 32) :
    ∃ ok io', relocateSection env secs count symbols i io = (ok, io') ∧ Moved io io' ∧
      io'.heap.blocks = io.heap.blocks ∧ StoresInTargets secs count io.heap io'.heap ∧
      (∀ sy, symbols = some sy → ok = true → Shows io'.heap secs count fun t =>
        (relocsAt io.file.fil.data secs t i).foldl (applied env secs sy (secs t).addr) (img t)) := by
  have hstop : Moved io io ∧ io.heap.blocks = io.heap.blocks ∧
      StoresInTargets secs count io.heap io.heap ∧ (∀ sy, symbols = some sy → false = true →
        Shows io.heap secs count fun t => (relocsAt io.file.fil.data secs t i).foldl
          (applied env secs sy (secs t).addr) (img t)) :=
    ⟨.refl hio, rfl, .of_words rfl, fun _ _ he => absurd he Bool.false_ne_true⟩
  unfold relocateSection
  dsimp only
  by_cases hent : (secs i).entSize ≠ 8
  · rw [if_pos hent]
    exact ⟨false, io, rfl, hstop⟩
  rw [if_neg hent]
  by_cases hsize : (secs i).size / (secs i).entSize = 0 ∨ (secs i).size % (secs i).entSize ≠ 0
  · rw [if_pos hsize]
    exact ⟨false, io, rfl, hstop⟩
  rw [if_neg hsize]
  cases symbols with
  | none => exact ⟨false, io, rfl, hstop⟩
  | some sy =>
    dsimp only
    by_cases hcount : sy.count = 0
    · rw [if_pos hcount]
      exact ⟨false, io, rfl, hstop⟩
    rw [if_neg hcount]
    by_cases hl : Loads io (secs i).size (secs i).offset (env.rels i)
    · obtain ⟨io₁, he, hm, hh, hblocks, -⟩ := loadBuf_loads hio (hoff i) hl
      rw [he]
      dsimp only
      have hfree := kfree_head hm.heap hblocks
      have hmoved := hm.trans (moved_kfree hm.ok (hblocks ▸ List.mem_cons_self))
      have hs₁ := hs.of_held hb hh
      -- the table is dropped and nothing is patched
      have hdrop : ∀ ok, (ok = true → ∀ t < count, (secs t).needed → (secs i).info ≠ t) →
          ∃ ok' io', (ok, ({ io₁ with heap := io₁.heap.kfree (env.rels i).ptr } : Io)) = (ok', io') ∧
            Moved io io' ∧ io'.heap.blocks = io.heap.blocks ∧
            StoresInTargets secs count io.heap io'.heap ∧
            (∀ sy', some sy = some sy' → ok' = true → Shows io'.heap secs count fun t =>
              (relocsAt io.file.fil.data secs t i).foldl (applied env secs sy' (secs t).addr)
                (img t)) := fun ok hno => by
        refine ⟨ok, _, rfl, hmoved, ?_, .of_words ?_, fun sy' _ hok => ?_⟩ <;> dsimp only <;> rw [hfree]
        · exact hh.words
        · refine Shows.congr ⟨hs₁.length, hs₁.bytes⟩ fun t ht hn => ?_
          unfold relocsAt
          rw [if_neg fun h => hno hok t ht hn h.2]
          rfl
      by_cases hinfo : count ≤ (secs i).info
      · rw [if_pos hinfo]
        exact hdrop false fun h => absurd h Bool.false_ne_true
      rw [if_neg hinfo]
      by_cases halloc : (secs (secs i).info).alloc = true
      · rw [halloc, if_neg (by simp)]
        by_cases haddr : (secs (secs i).info).addr = 0 ∨ (secs (secs i).info).size = 0
        · rw [if_pos haddr]
          exact hdrop false fun h => absurd h Bool.false_ne_true
        rw [if_neg haddr]
        by_cases h4 : (secs (secs i).info).size < 4
        · rw [if_pos h4]
          exact hdrop false fun h => absurd h Bool.false_ne_true
        rw [if_neg h4]
        have ht : (secs i).info < count := by omega
        have hn : (secs (secs i).info).needed := ⟨halloc, fun h => haddr (.inr h)⟩
        obtain ⟨ok, h', happly, hp, hshow⟩ := applyRels_cases env sy
          (slice io.file.fil.data (secs i).offset (secs i).size) ht hn (by omega)
          ((secs i).size / (secs i).entSize) (r := 0) hm.heap
          (hb.of_blocks fun b hmem => hblocks ▸ List.mem_cons_of_mem _ hmem) hs₁
        have himage : (secs (secs i).info).image ∈ io₁.heap.blocks :=
          hblocks ▸ List.mem_cons_of_mem _ (hb.held _ ht hn)
        have hm' := hp.moved hm.ok himage
        have hfree' := kfree_head hm'.heap (hp.blocks.trans hblocks)
        rw [happly]
        have hmem : (⟨(env.rels i).ptr, (secs i).size⟩ : Block) ∈ h'.blocks :=
          (hp.blocks.trans hblocks) ▸ List.mem_cons_self
        refine ⟨ok, _, rfl, (hm.trans hm').trans (moved_kfree hm'.ok hmem), ?_, fun p hpw => ?_,
          fun sy' hsy hok => ?_⟩
        · dsimp only
          rw [hfree']
        · dsimp only at hpw
          rw [hfree'] at hpw
          rcases hp.words p hpw with hpw | ⟨h1, h2⟩
          · exact .inl (hh.words ▸ hpw)
          · exact .inr ⟨i, hi, htype, ht, hn, h1, h2⟩
        · obtain rfl := Option.some.inj hsy
          dsimp only
          rw [hfree']
          refine Shows.congr ⟨(hshow hok).length, (hshow hok).bytes⟩ fun t _ _ => ?_
          have hdiv : (secs i).size / (secs i).entSize = (secs i).size / 8 := by
            rw [show (secs i).entSize = 8 by omega]
          unfold relocsAt
          by_cases he : (secs i).info = t
          · subst he
            rw [if_pos ⟨htype, rfl⟩, Function.update_self, hdiv]
          · rw [if_neg fun h => he h.2, Function.update_of_ne fun h => he h.symm]
            rfl
      · rw [Bool.eq_false_iff.mpr halloc, if_pos (by simp)]
        exact hdrop true fun _ t _ hn he => halloc (he ▸ hn.1)
    · obtain ⟨io₁, he, hm, hh, hblocks⟩ := loadBuf_fails hio (hoff i) hl
      rw [he]
      exact ⟨false, io₁, rfl, hm, hblocks, .of_words hh.words,
        fun _ _ he => absurd he Bool.false_ne_true⟩

/-- A table without symbols is an error. -/
theorem relocateSection_none {io : Io} {i : Nat} :
    relocateSection env secs count none i io = (false, io) := by
  unfold relocateSection
  dsimp only
  split
  · rfl
  · split <;> rfl

/-- The relocations for `t` of the sections `i..`, `n` of them. -/
def relocsFrom (data : List UInt8) (secs : Nat → Section) (t i n : Nat) : List Rel :=
  (List.range' i n).flatMap (relocsAt data secs t)

theorem relocate_cases (env : Env) (symbols : Option Symbols)
    (hoff : ∀ j, (secs j).offset < 2 ^ 32) (n : Nat) :
    ∀ {i : Nat} {io : Io} {img : Nat → List UInt8}, i + n ≤ count → IoOk io →
      Based io.heap secs count → Shows io.heap secs count img →
    ∃ ok io', relocate env secs count symbols n i io = (ok, io') ∧ Moved io io' ∧
      io'.heap.blocks = io.heap.blocks ∧ StoresInTargets secs count io.heap io'.heap ∧
      (∀ sy, symbols = some sy → ok = true → Shows io'.heap secs count fun t =>
        (relocsFrom io.file.fil.data secs t i n).foldl (applied env secs sy (secs t).addr)
          (img t)) := by
  induction n with
  | zero =>
    intro i io img hle hio hb hs
    exact ⟨true, io, rfl, .refl hio, rfl, .of_words rfl, fun _ _ _ => hs⟩
  | succ n ih =>
    intro i io img hle hio hb hs
    have hsplit : ∀ t, relocsFrom io.file.fil.data secs t i (n + 1) =
        relocsAt io.file.fil.data secs t i ++ relocsFrom io.file.fil.data secs t (i + 1) n :=
      fun t => rfl
    rw [relocate]
    by_cases htype : (secs i).type ≠ 9
    · rw [if_pos htype]
      obtain ⟨ok, io', he, hm, hblocks, hst, hshow⟩ := ih (i := i + 1) (by omega) hio hb hs
      refine ⟨ok, io', he, hm, hblocks, hst, fun sy hsy hok => (hshow sy hsy hok).congr ?_⟩
      intro t _ _
      rw [hsplit, relocsAt, if_neg fun h => htype h.1]
      rfl
    · rw [if_neg htype]
      obtain ⟨ok, io₁, he, hm, hblocks, hst, hshow⟩ := relocateSection_cases env symbols
        (i := i) hio hb hs (by omega) (not_not.mp htype) hoff
      rw [he]
      cases ok with
      | false => exact ⟨false, io₁, rfl, hm, hblocks, hst, fun _ _ h => absurd h Bool.false_ne_true⟩
      | true =>
        dsimp only
        cases symbols with
        | none =>
          rw [relocateSection_none] at he
          exact absurd (congrArg Prod.fst he) Bool.false_ne_true
        | some sy =>
          obtain ⟨ok, io', he', hm', hblocks', hst', hshow'⟩ := ih (i := i + 1) (by omega) hm.ok
            (hb.of_blocks fun b hmem => hblocks ▸ hmem) (hshow sy rfl rfl)
          refine ⟨ok, io', he', hm.trans hm', hblocks'.trans hblocks, hst.trans hst', ?_⟩
          rintro sy' hsy hok
          obtain rfl := Option.some.inj hsy
          refine (hshow' sy rfl hok).congr fun t _ _ => ?_
          rw [hsplit, List.foldl_append, hm.file.data]

end Loop

end Module
end Hashx86
