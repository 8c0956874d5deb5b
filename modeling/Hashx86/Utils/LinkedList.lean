import Hashx86.Lib.Run
import Hashx86.Lib.Segment
import Mathlib.Data.List.Perm.Subperm
import Mathlib.Logic.Function.Basic

/-!
# Linked lists (`include/utils/linkedList.h`)

The nodes of all lists are in one heap, and a node is named by its address; `0` is `nullptr`. What is
read, written or freed must be a node that is in use, anything else is a fault.

* `Owns`: a list object whose chain is made of the nodes `as`; `Moves`: what an operation on it does
  to the heap; `Leaves`: the list it leaves.
* `add_spec`, `pushBack_spec`, `unlink_spec`, `popFront_spec`, `clear_spec`, `copy_spec`,
  `assign_spec`: what each operation leaves of the nodes of its list.
-/

namespace Hashx86
namespace Utils

open Lib

variable {T : Type}

structure Node (T : Type) where
  data : T
  next : Nat

/-- A read or a write outside the nodes in use, a node that is freed twice, a loop that does not end,
and no memory for a node. -/
inductive Fault
  | access
  | free
  | endless
  | memory

/-- The nodes in use, and how many were made and freed so far. -/
structure Heap (T : Type) where
  node : Nat → Node T
  live : List Nat
  made : Nat
  freed : Nat

/-- `new`: the address for a node, if there is memory for one, by the number of nodes made before and
those in use. -/
structure Allocator where
  place : Nat → List Nat → Option Nat
  fresh : ∀ made live a, place made live = some a → a ≠ 0 ∧ a ∉ live

/-- The run has ended because there was no memory for a node. -/
def Allocator.Exhausted (m : Allocator) (e : Fault) : Prop :=
  e = .memory ∧ ∃ made live, m.place made live = none

namespace Heap

def read (h : Heap T) (a : Nat) : Except Fault (Node T) :=
  if a ∈ h.live then .ok (h.node a) else .error .access

/-- `a->next = next` -/
def setNext (h : Heap T) (a next : Nat) : Except Fault (Heap T) :=
  if a ∈ h.live then
    .ok { h with node := Function.update h.node a { h.node a with next := next } }
  else .error .access

/-- `new Node(item)` -/
def new (m : Allocator) (h : Heap T) (item : T) : Except Fault (Nat × Heap T) :=
  match m.place h.made h.live with
  | none => .error .memory
  | some a =>
    .ok (a, { h with
      node := Function.update h.node a ⟨item, 0⟩
      live := a :: h.live
      made := h.made + 1 })

/-- `delete a` -/
def delete (h : Heap T) (a : Nat) : Except Fault (Heap T) :=
  if a ∈ h.live then .ok { h with live := h.live.erase a, freed := h.freed + 1 }
  else .error .free

end Heap

/-- `LinkedList`; memory has no room for `2 ^ 32` nodes, so the size does not wrap. -/
structure LinkedList where
  head : Nat
  tail : Nat
  size : Nat

namespace LinkedList

/-! ## The operations -/

def new : LinkedList := ⟨0, 0, 0⟩

def add (m : Allocator) (item : T) (h : Heap T) (l : LinkedList) :
    Except Fault (Heap T × LinkedList) := do
  let (newNode, h) ← h.new m item
  let h ← h.setNext newNode l.head
  let l := { l with head := newNode }
  let l := if l.tail = 0 then { l with tail := l.head } else l
  return (h, { l with size := l.size + 1 })

def pushBack (m : Allocator) (item : T) (h : Heap T) (l : LinkedList) :
    Except Fault (Heap T × LinkedList) := do
  let (newNode, h) ← h.new m item
  if l.tail = 0 then return (h, { l with head := newNode, tail := newNode, size := l.size + 1 })
  else
    let h ← h.setNext l.tail newNode
    return (h, { l with tail := newNode, size := l.size + 1 })

/-- The node after `prev`, or the first one, is now `next`. -/
def linkPast (prev next : Nat) (h : Heap T) (l : LinkedList) : Except Fault (Heap T × LinkedList) :=
  if prev ≠ 0 then do
    let h ← h.setNext prev next
    return (h, l)
  else .ok (h, { l with head := next })

/-- The node `current`, which has been read, leaves the list; `prev` is the one before it. -/
def unlinkNode (prev current : Nat) (n : Node T) (h : Heap T) (l : LinkedList) :
    Except Fault (Heap T × LinkedList) := do
  let (h, l) ← linkPast prev n.next h l
  let l := if current = l.tail then { l with tail := prev } else l
  let h ← h.delete current
  return (h, { l with size := l.size - 1 })

/-- The loop of `Remove` and `Take`: the first element that satisfies the condition leaves. -/
def unlinkLoop (condition : T → Bool) (h : Heap T) (l : LinkedList) :
    (fuel prev current : Nat) → Except Fault (Option T × Heap T × LinkedList)
  | 0, _, _ => .error .endless
  | fuel + 1, prev, current =>
    if current = 0 then .ok (none, h, l)
    else do
      let n ← h.read current
      if condition n.data then
        let (h, l) ← unlinkNode prev current n h l
        return (some n.data, h, l)
      else unlinkLoop condition h l fuel current n.next

def unlink (condition : T → Bool) (h : Heap T) (l : LinkedList) :
    Except Fault (Option T × Heap T × LinkedList) :=
  unlinkLoop condition h l (h.live.length + 1) 0 l.head

def remove (condition : T → Bool) (h : Heap T) (l : LinkedList) :
    Except Fault (Bool × Heap T × LinkedList) := do
  let (found, h, l) ← unlink condition h l
  return (found.isSome, h, l)

def take [Inhabited T] (condition : T → Bool) (h : Heap T) (l : LinkedList) :
    Except Fault (T × Heap T × LinkedList) := do
  let (found, h, l) ← unlink condition h l
  return (found.getD default, h, l)

def popFront [Inhabited T] (h : Heap T) (l : LinkedList) :
    Except Fault (T × Heap T × LinkedList) :=
  if l.head = 0 then .ok (default, h, l)
  else do
    let temp := l.head
    let n ← h.read l.head
    let l := { l with head := n.next }
    let l := if l.head = 0 then { l with tail := 0 } else l
    let h ← h.delete temp
    return (n.data, h, { l with size := l.size - 1 })

/-- The loop of `Clear`. -/
def clearLoop (h : Heap T) : (fuel current : Nat) → Except Fault (Heap T)
  | 0, _ => .error .endless
  | fuel + 1, current =>
    if current = 0 then .ok h
    else do
      let n ← h.read current
      let h ← h.delete current
      clearLoop h fuel n.next

def clear (h : Heap T) (l : LinkedList) : Except Fault (Heap T × LinkedList) := do
  let h ← clearLoop h (h.live.length + 1) l.head
  return (h, ⟨0, 0, 0⟩)

/-- The loop of `CopyFrom`. -/
def copyLoop (m : Allocator) :
    (fuel current : Nat) → (h : Heap T) → (l : LinkedList) → Except Fault (Heap T × LinkedList)
  | 0, _, _, _ => .error .endless
  | fuel + 1, current, h, l =>
    if current = 0 then .ok (h, l)
    else do
      let n ← h.read current
      let (h, l) ← pushBack m n.data h l
      let n ← h.read current
      copyLoop m fuel n.next h l

def copyFrom (m : Allocator) (other : LinkedList) (h : Heap T) (l : LinkedList) :
    Except Fault (Heap T × LinkedList) :=
  copyLoop m (h.live.length + 1) other.head h l

/-- The copy constructor. -/
def copy (m : Allocator) (other : LinkedList) (h : Heap T) : Except Fault (Heap T × LinkedList) :=
  copyFrom m other h ⟨0, 0, 0⟩

/-- `operator=` of two lists that are not the same. -/
def assign (m : Allocator) (other : LinkedList) (h : Heap T) (l : LinkedList) :
    Except Fault (Heap T × LinkedList) := do
  let (h, l) ← clear h l
  copyFrom m other h l

end LinkedList

/-! ## The nodes of a list -/

namespace Heap

def next (h : Heap T) (a : Nat) : Nat := (h.node a).next

/-- The elements in the nodes `as`. -/
def items (h : Heap T) (as : List Nat) : List T := as.map fun a => (h.node a).data

/-- No node is in use twice, none is `nullptr`, and each that was made is in use or was freed. -/
structure Sound (h : Heap T) : Prop where
  nodup : h.live.Nodup
  nonzero : 0 ∉ h.live
  count : h.made = h.freed + h.live.length

variable {m : Allocator} {h : Heap T} {a b : Nat} {as bs : List Nat} {x : T}

@[simp] theorem items_nil (h : Heap T) : h.items [] = [] := rfl

@[simp] theorem items_cons (h : Heap T) (a : Nat) (as : List Nat) :
    h.items (a :: as) = (h.node a).data :: h.items as := rfl

@[simp] theorem items_append (h : Heap T) (as bs : List Nat) :
    h.items (as ++ bs) = h.items as ++ h.items bs :=
  List.map_append

theorem items_congr {h' : Heap T} (hd : ∀ a ∈ as, (h'.node a).data = (h.node a).data) :
    h'.items as = h.items as :=
  List.map_congr_left hd

theorem Sound.ne_zero (hs : h.Sound) (ha : a ∈ h.live) : a ≠ 0 :=
  fun h0 => hs.nonzero (h0 ▸ ha)

theorem read_live (ha : a ∈ h.live) : h.read a = .ok (h.node a) := if_pos ha

theorem setNext_live (ha : a ∈ h.live) (next : Nat) :
    h.setNext a next =
      .ok { h with node := Function.update h.node a { h.node a with next := next } } :=
  if_pos ha

theorem delete_live (ha : a ∈ h.live) :
    h.delete a = .ok { h with live := h.live.erase a, freed := h.freed + 1 } :=
  if_pos ha

theorem new_spec (hs : h.Sound) (x : T) :
    Unless m.Exhausted (h.new m x) fun r =>
      r.1 ∉ h.live ∧ r.2.Sound ∧ r.2.live = r.1 :: h.live ∧
        r.2.node = Function.update h.node r.1 ⟨x, 0⟩ := by
  rw [new]
  split
  · rename_i hplace
    exact unless_error _ ⟨rfl, _, _, hplace⟩
  · rename_i a hplace
    obtain ⟨hzero, hfresh⟩ := m.fresh _ _ _ hplace
    refine unless_ok ⟨hfresh, ⟨?_, ?_, ?_⟩, rfl, rfl⟩
    · exact List.nodup_cons.mpr ⟨hfresh, hs.nodup⟩
    · exact fun h0 => (List.mem_cons.mp h0).elim (fun h0 => hzero h0.symm) hs.nonzero
    · have := hs.count
      simp only [List.length_cons]
      omega

/-- What a node is linked to has no part in which nodes are in use. -/
theorem Sound.relink (hs : h.Sound) (node : Nat → Node T) : Sound { h with node := node } :=
  ⟨hs.nodup, hs.nonzero, hs.count⟩

theorem Sound.erase (hs : h.Sound) (ha : a ∈ h.live) :
    Sound { h with live := h.live.erase a, freed := h.freed + 1 } := by
  refine ⟨hs.nodup.erase a, fun h0 => hs.nonzero (List.mem_of_mem_erase h0), ?_⟩
  have hpos := List.length_pos_of_mem ha
  have := hs.count
  simp only [List.length_erase_of_mem ha]
  omega

end Heap

/-- The list object `l` has the nodes `as`. -/
structure Owns (h : Heap T) (l : LinkedList) (as : List Nat) : Prop where
  chain : Segment h.next l.head as 0
  tail : l.tail = as.getLastD 0
  size : l.size = as.length
  live : ∀ a ∈ as, a ∈ h.live
  nodup : as.Nodup

/-- An operation on the list with the nodes `as` leaves it with the nodes `as'`: those that are not
among `as` are as before, and those that it made were not in use. -/
structure Moves (h : Heap T) (as : List Nat) (h' : Heap T) (as' : List Nat) : Prop where
  sound : h'.Sound
  live : ∀ a, a ∈ h'.live ↔ a ∈ h.live ∧ a ∉ as ∨ a ∈ as'
  others : ∀ a ∈ h.live, a ∉ as → h'.node a = h.node a
  fresh : ∀ a ∈ as', a ∈ as ∨ a ∉ h.live

/-- The list has the elements `xs` after an operation on it. -/
def Leaves (h : Heap T) (as : List Nat) (xs : List T) (h' : Heap T) (l' : LinkedList) : Prop :=
  ∃ as', Owns h' l' as' ∧ h'.items as' = xs ∧ Moves h as h' as'

section Nodes

variable {h h' h'' : Heap T} {l l' : LinkedList} {as as' as'' bs : List Nat} {xs : List T}

theorem Owns.head_eq_zero (ho : Owns h l as) (hs : h.Sound) : l.head = 0 ↔ as = [] :=
  (ho.chain.eq_nil_iff fun h0 => hs.nonzero (ho.live 0 h0)).symm

theorem Owns.tail_eq_zero (ho : Owns h l as) (hs : h.Sound) : l.tail = 0 ↔ as = [] := by
  rw [ho.tail]
  rcases List.eq_nil_or_concat' as with rfl | ⟨bs, b, rfl⟩
  · simp
  · have hb : b ≠ 0 := hs.ne_zero (ho.live b (by simp))
    simp [hb]

theorem owns_new : Owns h .new [] :=
  ⟨rfl, rfl, rfl, by simp, List.nodup_nil⟩

theorem Owns.length_le (ho : Owns h l as) : as.length ≤ h.live.length :=
  (List.Nodup.subperm ho.nodup ho.live).length_le

theorem Moves.refl (hs : h.Sound) (ho : Owns h l as) : Moves h as h as where
  sound := hs
  live a := by
    have := ho.live a
    tauto
  others _ _ _ := rfl
  fresh _ ha := .inl ha

theorem Moves.trans (h1 : Moves h as h' as') (h2 : Moves h' as' h'' as'') : Moves h as h'' as'' where
  sound := h2.sound
  live a := by
    have hlive := h1.live a
    have hfresh := h1.fresh a
    rw [h2.live, hlive]
    tauto
  others a ha hout := by
    have hout' : a ∉ as' := fun h => (h1.fresh a h).elim hout fun hn => hn ha
    rw [h2.others a ((h1.live a).mpr (.inl ⟨ha, hout⟩)) hout', h1.others a ha hout]
  fresh a ha := by
    have hlive := h1.live a
    have hfresh := h1.fresh a
    have := h2.fresh a ha
    tauto

/-- A list none of whose nodes takes part in the operation. -/
theorem Moves.owns (hm : Moves h as h' as') (ho : Owns h l bs) (hd : as.Disjoint bs) :
    Owns h' l bs ∧ h'.items bs = h.items bs ∧ as'.Disjoint bs := by
  have hsame : ∀ a ∈ bs, h'.node a = h.node a := fun a ha =>
    hm.others a (ho.live a ha) fun hin => hd hin ha
  refine ⟨⟨?_, ho.tail, ho.size, ?_, ho.nodup⟩, ?_, ?_⟩
  · refine ho.chain.congr fun a ha => ?_
    rw [Heap.next, hsame a ha, Heap.next]
  · exact fun a ha => (hm.live a).mpr (.inl ⟨ho.live a ha, fun hin => hd hin ha⟩)
  · exact Heap.items_congr fun a ha => by rw [hsame a ha]
  · intro a ha' ha
    exact (hm.fresh a ha').elim (fun hin => hd hin ha) fun hn => hn (ho.live a ha)

theorem Leaves.trans (h2 : Leaves h' as' xs h'' l') (hm : Moves h as h' as') :
    Leaves h as xs h'' l' := by
  obtain ⟨as'', ho, hx, hm'⟩ := h2
  exact ⟨as'', ho, hx, hm.trans hm'⟩

end Nodes

/-- One more node, `a`, for the list with the nodes `as`. -/
theorem Moves.of_new {h h' : Heap T} {as as' : List Nat} {a : Nat} (hs : h'.Sound)
    (hlive : h'.live = a :: h.live) (hfresh : a ∉ h.live) (hsub : ∀ b ∈ as, b ∈ h.live)
    (hmem : ∀ b, b ∈ as' ↔ b = a ∨ b ∈ as)
    (hothers : ∀ b ∈ h.live, b ∉ as → h'.node b = h.node b) : Moves h as h' as' where
  sound := hs
  live b := by
    have := hsub b
    rw [hlive, List.mem_cons, hmem]
    tauto
  others := hothers
  fresh b hb := by
    rcases (hmem b).mp hb with rfl | hb
    · exact .inr hfresh
    · exact .inl hb

/-- The node `c` leaves the list with the nodes `as`. -/
theorem Moves.of_delete {h h' : Heap T} {as as' : List Nat} {c : Nat} (hs : h'.Sound)
    (hnodup : h.live.Nodup) (hlive : h'.live = h.live.erase c) (hsub : ∀ b ∈ as, b ∈ h.live)
    (hc : c ∈ as) (hmem : ∀ b, b ∈ as' ↔ b ∈ as ∧ b ≠ c)
    (hothers : ∀ b ∈ h.live, b ∉ as → h'.node b = h.node b) : Moves h as h' as' where
  sound := hs
  live b := by
    have := hsub b
    have : b = c → b ∈ as := fun hbc => hbc ▸ hc
    rw [hlive, hnodup.mem_erase_iff, hmem]
    tauto
  others := hothers
  fresh b hb := .inl ((hmem b).mp hb).1

/-! ## What the operations do -/

namespace LinkedList

variable {m : Allocator} {E : Fault → Prop} {h : Heap T} {l : LinkedList} {as bs : List Nat}

theorem add_spec (ho : Owns h l as) (hs : h.Sound) (x : T) :
    Unless m.Exhausted (add m x h l) fun r => Leaves h as (x :: h.items as) r.1 r.2 := by
  refine (Heap.new_spec hs x).bind ?_
  rintro ⟨a, h1⟩ ⟨hfresh, hsound, hlive, hnode⟩
  dsimp only at hfresh hlive hnode ⊢
  have hsame : ∀ b ∈ h.live, b ≠ a := fun b hb hba => hfresh (hba ▸ hb)
  rw [Heap.setNext_live (by simp [hlive]), ok_bind]
  refine unless_ok ⟨a :: as, ⟨⟨by split <;> rfl, ?_⟩, ?_, ?_, ?_, ?_⟩, ?_,
    .of_new (hsound.relink _) hlive hfresh ho.live (by simp) ?_⟩
  · simp only [Heap.next, Function.update_self, hnode]
    refine ho.chain.congr fun b hb => ?_
    simp [Heap.next, hsame b (ho.live b hb)]
  · -- the tail is the new node only when there was none
    by_cases hzero : l.tail = 0
    · obtain rfl := (ho.tail_eq_zero hs).mp hzero
      simp [hzero]
    · have hne : as ≠ [] := fun h0 => hzero ((ho.tail_eq_zero hs).mpr h0)
      obtain ⟨bs, b, rfl⟩ := (List.eq_nil_or_concat' as).resolve_left hne
      rw [← List.cons_append, List.getLastD_concat, if_neg hzero]
      exact ho.tail.trans (List.getLastD_concat ..)
  · split <;> simp [ho.size]
  · intro b hb
    rw [hlive]
    exact List.mem_cons.mpr ((List.mem_cons.mp hb).imp_right (ho.live b))
  · exact List.nodup_cons.mpr ⟨fun ha => hfresh (ho.live a ha), ho.nodup⟩
  · simp only [Heap.items_cons, Function.update_self, hnode]
    congr 1
    exact Heap.items_congr fun b hb => by simp [hsame b (ho.live b hb)]
  · intro b hb _
    simp [hnode, hsame b hb]

theorem pushBack_spec (ho : Owns h l as) (hs : h.Sound) (x : T) :
    Unless m.Exhausted (pushBack m x h l) fun r => Leaves h as (h.items as ++ [x]) r.1 r.2 := by
  refine (Heap.new_spec hs x).bind ?_
  rintro ⟨a, h1⟩ ⟨hfresh, hsound, hlive, hnode⟩
  dsimp only at hfresh hlive hnode ⊢
  have hsame : ∀ b ∈ h.live, b ≠ a := fun b hb hba => hfresh (hba ▸ hb)
  rcases List.eq_nil_or_concat' as with rfl | ⟨bs, b, rfl⟩
  · rw [if_pos (show l.tail = 0 from ho.tail)]
    refine unless_ok ⟨[a], ⟨⟨rfl, ?_⟩, rfl, ?_, ?_, ?_⟩, ?_,
      .of_new hsound hlive hfresh ho.live (by simp) ?_⟩
    · simp [Heap.next, hnode]
    · simp [ho.size]
    · simp [hlive]
    · simp
    · simp [Heap.items, hnode]
    · intro b hb _
      simp [hnode, hsame b hb]
  · have htail : l.tail = b := by simp [ho.tail]
    have hb : b ∈ h.live := ho.live b (by simp)
    obtain ⟨-, -, hout⟩ := List.nodup_append.mp ho.nodup
    have hab : a ≠ b := (hsame b hb).symm
    rw [if_neg (htail ▸ hs.ne_zero hb), htail, Heap.setNext_live (by simp [hlive, hb]), ok_bind]
    refine unless_ok ⟨bs ++ [b] ++ [a], ⟨?_, ?_, ?_, ?_, ?_⟩, ?_,
      .of_new (hsound.relink _) hlive hfresh ho.live (by simp; tauto) ?_⟩
    · refine (ho.chain.relink fun c hc => ?_).append ⟨?_, ?_⟩
      · have hc' : c ∈ h.live := ho.live c (by simp [hc])
        simp [Heap.next, hnode, hsame c hc', hout c hc b]
      · simp [Heap.next]
      · simp [Heap.next, hnode, hab]
    · exact (List.getLastD_concat ..).symm
    · simp [ho.size]
    · intro c hc
      rcases List.mem_append.mp hc with hc | hc
      · simp [hlive, ho.live c hc]
      · simp_all
    · refine List.nodup_append.mpr ⟨ho.nodup, by simp, ?_⟩
      rintro c hc _ hd rfl
      exact hsame c (ho.live c hc) (List.mem_singleton.mp hd)
    · rw [Heap.items_append]
      congr 1
      · refine Heap.items_congr fun c hc => ?_
        by_cases hcb : c = b
        · simp [hcb, hnode, hsame b hb]
        · simp [hcb, hnode, hsame c (ho.live c hc)]
      · simp [hab, hnode]
    · intro c hc hout'
      have hcb : c ≠ b := fun hcb => hout' (by simp [hcb])
      simp [hcb, hnode, hsame c hc]

/-- Past the node `c`: the others are linked, and only links have changed. -/
theorem linkPast_spec {before after : List Nat} {c : Nat} (ho : Owns h l (before ++ c :: after))
    (hs : h.Sound) :
    Unless E (linkPast (before.getLastD 0) (h.next c) h l) fun r =>
      r.1.Sound ∧ r.1.live = h.live ∧ Segment r.1.next r.2.head (before ++ after) 0 ∧
        r.2.tail = l.tail ∧ r.2.size = l.size ∧ (∀ b, (r.1.node b).data = (h.node b).data) ∧
        ∀ b, b ∉ before → r.1.node b = h.node b := by
  obtain ⟨q, hfirst, rfl, hlast⟩ := segment_append.mp ho.chain
  obtain ⟨-, -, hapart⟩ := List.nodup_append.mp ho.nodup
  rcases List.eq_nil_or_concat' before with rfl | ⟨bs, b, rfl⟩
  · exact unless_ok ⟨hs, rfl, hlast, rfl, rfl, fun _ => rfl, fun _ _ => rfl⟩
  · have hb : b ∈ h.live := ho.live b (by simp)
    obtain ⟨-, -, hbs⟩ := List.nodup_append.mp (List.nodup_append.mp ho.nodup).1
    rw [List.getLastD_concat, linkPast, if_pos (hs.ne_zero hb), Heap.setNext_live hb, ok_bind]
    refine unless_ok ⟨hs.relink _, rfl, ?_, rfl, rfl, fun a => ?_, fun a ha => ?_⟩
    · refine (hfirst.relink fun a ha => ?_).append ?_
      · simp [Heap.next, hbs a ha b]
      · simp only [Heap.next, Function.update_self]
        refine hlast.congr fun a ha => ?_
        have hab : a ≠ b := fun h => hapart b (by simp) a (by simp [ha]) h.symm
        simp [Heap.next, hab]
    · by_cases hab : a = b
      · simp [hab]
      · simp [hab]
    · have hab : a ≠ b := fun h => ha (by simp [h])
      simp [hab]

/-- The node `c` leaves, the others are linked past it. -/
theorem unlinkNode_spec {before after : List Nat} {c : Nat} (ho : Owns h l (before ++ c :: after))
    (hs : h.Sound) :
    Unless E (unlinkNode (before.getLastD 0) c (h.node c) h l) fun r =>
      Leaves h (before ++ c :: after) (h.items before ++ h.items after) r.1 r.2 := by
  have hc : c ∈ h.live := ho.live c (by simp)
  obtain ⟨hbefore, hafter, hapart⟩ := List.nodup_append.mp ho.nodup
  obtain ⟨hcafter, hafter⟩ := List.nodup_cons.mp hafter
  have hcbefore : c ∉ before := fun h => hapart c h c (by simp) rfl
  have hmem : ∀ b, b ∈ before ++ after ↔ b ∈ before ++ c :: after ∧ b ≠ c := by
    intro b
    have : b ∈ before → b ≠ c := fun h1 h2 => hcbefore (h2 ▸ h1)
    have : b ∈ after → b ≠ c := fun h1 h2 => hcafter (h2 ▸ h1)
    simp only [List.mem_append, List.mem_cons]
    tauto
  have hnodup : (before ++ after).Nodup :=
    List.nodup_append.mpr ⟨hbefore, hafter, fun a ha b hb => hapart a ha b (by simp [hb])⟩
  have htail : (if c = l.tail then before.getLastD 0 else l.tail) = (before ++ after).getLastD 0 := by
    rw [ho.tail]
    rcases List.eq_nil_or_concat' after with rfl | ⟨bs, b, rfl⟩
    · simp
    · have hbc : c ≠ b := fun h => hcafter (by simp [h])
      rw [← List.cons_append, ← List.append_assoc, ← List.append_assoc, List.getLastD_concat,
        List.getLastD_concat, if_neg hbc]
  refine (linkPast_spec ho hs).bind ?_
  rintro ⟨h1, l1⟩ ⟨hs1, hlive, hchain, htail1, hsize, hdata, hnode⟩
  dsimp only at hs1 hlive hchain htail1 hsize hdata hnode ⊢
  rw [Heap.delete_live (hlive ▸ hc), ok_bind]
  refine unless_ok ⟨before ++ after, ⟨?_, ?_, ?_, ?_, hnodup⟩, ?_,
    .of_delete (hs1.erase (hlive ▸ hc)) hs.nodup (congrArg (List.erase · c) hlive) ho.live (by simp)
      hmem fun b _ hb => hnode b fun hb' => hb (by simp [hb'])⟩
  · split <;> exact hchain
  · rw [← htail, ← htail1]
    split <;> rfl
  · have := ho.size
    split <;> simp_all
  · intro b hb
    obtain ⟨hb, hbc⟩ := (hmem b).mp hb
    simp only [hlive]
    exact (hs.nodup.mem_erase_iff).mpr ⟨hbc, ho.live b hb⟩
  · rw [Heap.items_append]
    congr 1
    · exact Heap.items_congr fun b _ => hdata b
    · exact Heap.items_congr fun b _ => hdata b

/-- The elements before the node `current` have not been the one that is looked for. -/
theorem unlinkLoop_spec (condition : T → Bool) {before rest : List Nat} {fuel : Nat}
    (hfuel : rest.length < fuel) {current : Nat} (ho : Owns h l (before ++ rest)) (hs : h.Sound)
    (hcurrent : Segment h.next current rest 0) :
    Unless E (unlinkLoop condition h l fuel (before.getLastD 0) current) fun r =>
      r.1 = (h.items rest).find? condition ∧
        Leaves h (before ++ rest) (h.items before ++ (h.items rest).eraseP condition) r.2.1 r.2.2 := by
  induction rest generalizing before current fuel with
  | nil =>
    obtain ⟨fuel, rfl⟩ := Nat.exists_eq_add_one_of_ne_zero (Nat.ne_zero_of_lt hfuel)
    rw [unlinkLoop, if_pos (show current = 0 from hcurrent)]
    exact unless_ok ⟨rfl, before ++ [], ho, by simp, .refl hs ho⟩
  | cons c after ih =>
    obtain ⟨fuel, rfl⟩ := Nat.exists_eq_add_one_of_ne_zero (Nat.ne_zero_of_lt hfuel)
    obtain ⟨rfl, hnext⟩ := hcurrent
    have hc : current ∈ h.live := ho.live current (by simp)
    rw [unlinkLoop, if_neg (hs.ne_zero hc), Heap.read_live hc, ok_bind]
    cases hfound : condition (h.node current).data with
    | true =>
      simp only [if_true]
      refine (unlinkNode_spec ho hs).bind fun r hr => unless_ok ?_
      rw [Heap.items_cons, List.find?_cons_of_pos hfound, List.eraseP_cons_of_pos hfound]
      exact ⟨rfl, hr⟩
    | false =>
      have ho' : Owns h l (before ++ [current] ++ after) := by simpa using ho
      have hstep := ih (Nat.lt_of_succ_lt_succ hfuel) ho' hnext
      simpa [hfound, Heap.next] using hstep

theorem unlink_spec (condition : T → Bool) (ho : Owns h l as) (hs : h.Sound) :
    Unless E (unlink condition h l) fun r =>
      r.1 = (h.items as).find? condition ∧
        Leaves h as ((h.items as).eraseP condition) r.2.1 r.2.2 := by
  have hfuel : as.length < h.live.length + 1 := Nat.lt_succ_of_le (ho.length_le)
  exact unlinkLoop_spec condition hfuel (show Owns h l ([] ++ as) from ho) hs ho.chain

theorem popFront_spec [Inhabited T] (ho : Owns h l as) (hs : h.Sound) :
    Unless E (popFront h l) fun r =>
      r.1 = (h.items as).head?.getD default ∧ Leaves h as (h.items as).tail r.2.1 r.2.2 := by
  cases as with
  | nil =>
    rw [popFront, if_pos (show l.head = 0 from ho.chain)]
    exact unless_ok ⟨rfl, [], ho, rfl, .refl hs ho⟩
  | cons a as =>
    have ha : a ∈ h.live := ho.live a (by simp)
    obtain ⟨hhead, hchain⟩ := ho.chain
    obtain ⟨haas, hnodup⟩ := List.nodup_cons.mp ho.nodup
    have hzero : 0 ∉ as := fun h0 => hs.nonzero (ho.live 0 (by simp [h0]))
    rw [popFront, hhead, if_neg (hs.ne_zero ha), Heap.read_live ha, ok_bind, Heap.delete_live ha,
      ok_bind]
    refine unless_ok ⟨rfl, as, ⟨?_, ?_, ?_, ?_, hnodup⟩, rfl,
      .of_delete (hs.erase ha) hs.nodup rfl ho.live (by simp) ?_ fun _ _ _ => rfl⟩
    · split <;> exact hchain
    · -- the tail goes with the last node
      rcases List.eq_nil_or_concat' as with rfl | ⟨bs, b, rfl⟩
      · rw [if_pos (show (h.node a).next = 0 from hchain)]
        rfl
      · have hnext : (h.node a).next ≠ 0 := fun h0 => by simpa using (hchain.eq_nil_iff hzero).mpr h0
        have htail := ho.tail
        rw [← List.cons_append, List.getLastD_concat] at htail
        rw [if_neg hnext, List.getLastD_concat]
        exact htail
    · have := ho.size
      split <;> simp_all
    · intro b hb
      exact hs.nodup.mem_erase_iff.mpr ⟨fun hba => haas (hba ▸ hb), ho.live b (by simp [hb])⟩
    · intro b
      have : b ∈ as → b ≠ a := fun hb hba => haas (hba ▸ hb)
      simp only [List.mem_cons]
      tauto

/-- The nodes from `current` on are freed. -/
theorem clearLoop_spec {fuel current : Nat} (hfuel : as.length < fuel) (hs : h.Sound)
    (hchain : Segment h.next current as 0) (hlive : ∀ a ∈ as, a ∈ h.live) (hnodup : as.Nodup) :
    Unless E (clearLoop h fuel current) fun h' => Moves h as h' [] := by
  induction as generalizing h fuel current with
  | nil =>
    obtain ⟨fuel, rfl⟩ := Nat.exists_eq_add_one_of_ne_zero (Nat.ne_zero_of_lt hfuel)
    rw [clearLoop, if_pos (show current = 0 from hchain)]
    exact unless_ok ⟨hs, by simp, fun _ _ _ => rfl, by simp⟩
  | cons a as ih =>
    obtain ⟨fuel, rfl⟩ := Nat.exists_eq_add_one_of_ne_zero (Nat.ne_zero_of_lt hfuel)
    obtain ⟨rfl, hnext⟩ := hchain
    have hc : current ∈ h.live := hlive current (by simp)
    obtain ⟨hout, hnodup⟩ := List.nodup_cons.mp hnodup
    rw [clearLoop, if_neg (hs.ne_zero hc), Heap.read_live hc, ok_bind, Heap.delete_live hc, ok_bind]
    have hfreed : Moves h [current] { h with live := h.live.erase current, freed := h.freed + 1 } [] :=
      .of_delete (hs.erase hc) hs.nodup rfl (by simpa using hc) (by simp) (by simp) fun _ _ _ => rfl
    have hlive' : ∀ a ∈ as, a ∈ h.live.erase current := fun a ha =>
      hs.nodup.mem_erase_iff.mpr ⟨fun h => hout (h ▸ ha), hlive a (by simp [ha])⟩
    refine (ih (Nat.lt_of_succ_lt_succ hfuel) hfreed.sound hnext hlive' hnodup).mono fun h' hm => ?_
    refine ⟨hm.sound, fun b => ?_, fun b hb hb' => ?_, by simp⟩
    · rw [hm.live, hs.nodup.mem_erase_iff]
      simp only [List.mem_cons]
      tauto
    · obtain ⟨hba, hb'⟩ := not_or.mp (List.mem_cons.not.mp hb')
      exact hm.others b (hs.nodup.mem_erase_iff.mpr ⟨hba, hb⟩) hb'

theorem clear_spec (ho : Owns h l as) (hs : h.Sound) :
    Unless E (clear h l) fun r => r.2 = new ∧ Moves h as r.1 [] := by
  have hfuel : as.length < h.live.length + 1 := Nat.lt_succ_of_le ho.length_le
  exact (clearLoop_spec hfuel hs ho.chain ho.live ho.nodup).bind fun h' hm => unless_ok ⟨rfl, hm⟩

/-- The elements from `current` on, in the nodes `rest` of another list, are appended one by one. -/
theorem copyLoop_spec {rest : List Nat} {fuel current : Nat} (hfuel : rest.length < fuel)
    (ho : Owns h l as) (hs : h.Sound) (hchain : Segment h.next current rest 0)
    (hlive : ∀ a ∈ rest, a ∈ h.live) (hapart : as.Disjoint rest) :
    Unless m.Exhausted (copyLoop m fuel current h l) fun r =>
      Leaves h as (h.items as ++ h.items rest) r.1 r.2 := by
  induction rest generalizing h l as fuel current with
  | nil =>
    obtain ⟨fuel, rfl⟩ := Nat.exists_eq_add_one_of_ne_zero (Nat.ne_zero_of_lt hfuel)
    rw [copyLoop, if_pos (show current = 0 from hchain)]
    exact unless_ok ⟨as, ho, by simp, .refl hs ho⟩
  | cons c rest ih =>
    obtain ⟨fuel, rfl⟩ := Nat.exists_eq_add_one_of_ne_zero (Nat.ne_zero_of_lt hfuel)
    obtain ⟨rfl, hnext⟩ := hchain
    have hc : current ∈ h.live := hlive current (by simp)
    rw [copyLoop, if_neg (hs.ne_zero hc), Heap.read_live hc, ok_bind]
    refine (pushBack_spec ho hs _).bind ?_
    rintro ⟨h1, l1⟩ ⟨as1, ho1, hitems, hm⟩
    have hsame : ∀ a ∈ current :: rest, h1.node a = h.node a := fun a ha =>
      hm.others a (hlive a ha) fun hin => hapart hin ha
    have hlive1 : ∀ a ∈ current :: rest, a ∈ h1.live := fun a ha =>
      (hm.live a).mpr (.inl ⟨hlive a ha, fun hin => hapart hin ha⟩)
    have hapart1 : as1.Disjoint (current :: rest) := fun a ha1 ha =>
      (hm.fresh a ha1).elim (fun hin => hapart hin ha) fun hn => hn (hlive a ha)
    dsimp only at ho1 hitems hm hsame hlive1 ⊢
    rw [Heap.read_live (hlive1 current (by simp)), ok_bind, hsame current (by simp)]
    have hchain1 : Segment h1.next (h.next current) rest 0 :=
      hnext.congr fun a ha => by rw [Heap.next, hsame a (by simp [ha]), Heap.next]
    refine (ih (Nat.lt_of_succ_lt_succ hfuel) ho1 hm.sound hchain1 (fun a ha => hlive1 a (by simp [ha]))
      fun a ha1 ha => hapart1 ha1 (by simp [ha])).mono fun r hr => ?_
    have hrest : h1.items rest = h.items rest :=
      Heap.items_congr fun a ha => by rw [hsame a (by simp [ha])]
    rw [hitems, hrest, List.append_assoc] at hr
    exact hr.trans hm

theorem copyFrom_spec {other : LinkedList} (ho : Owns h l as) (hs : h.Sound) (hother : Owns h other bs)
    (hapart : as.Disjoint bs) :
    Unless m.Exhausted (copyFrom m other h l) fun r => Leaves h as (h.items as ++ h.items bs) r.1 r.2 :=
  copyLoop_spec (Nat.lt_succ_of_le hother.length_le) ho hs hother.chain hother.live hapart

theorem copy_spec {other : LinkedList} (hs : h.Sound) (hother : Owns h other bs) :
    Unless m.Exhausted (copy m other h) fun r => Leaves h [] (h.items bs) r.1 r.2 :=
  copyFrom_spec owns_new hs hother (List.disjoint_nil_left bs)

theorem assign_spec {other : LinkedList} (ho : Owns h l as) (hs : h.Sound) (hother : Owns h other bs)
    (hapart : as.Disjoint bs) :
    Unless m.Exhausted (assign m other h l) fun r => Leaves h as (h.items bs) r.1 r.2 := by
  refine (clear_spec ho hs).bind ?_
  rintro ⟨h1, _⟩ ⟨rfl, hm⟩
  obtain ⟨hother1, hitems, -⟩ := hm.owns hother hapart
  refine (copyFrom_spec owns_new hm.sound hother1 (List.disjoint_nil_left bs)).mono fun r hr => ?_
  rw [Heap.items_nil, List.nil_append, hitems] at hr
  exact hr.trans hm

end LinkedList

end Utils
end Hashx86
