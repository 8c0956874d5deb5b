import Hashx86.Utils.LinkedList

/-!
# Many linked lists

List objects, by number, whose nodes are in one heap, and the sequences that they stand for.

* `step`: construction, copies, assignments and destruction of list objects, and the operations on
  one of them; `Sequences.step`: the same for sequences.
* `Represents`: each list owns its nodes, no two share one, and no other node is in use.
* `lists_refine`: over every run, the lists answer and end like the sequences.
-/

namespace Hashx86
namespace Utils

open Lib

variable {T : Type}

/-- An operation on one list. -/
inductive ListOp (T : Type)
  | add (item : T)
  | pushBack (item : T)
  | remove (condition : T → Bool)
  | take (condition : T → Bool)
  | popFront
  | clear

inductive Op (T : Type)
  | construct (i : Nat)
  | copy (i j : Nat)
  | assign (i j : Nat)
  | destroy (i : Nat)
  | on (i : Nat) (op : ListOp T)

/-- What an operation returns. -/
inductive Out (T : Type)
  | done
  | removed (found : Bool)
  | item (x : T)

/-! ## Sequences -/

namespace Sequences

def apply [Inhabited T] (xs : List T) : ListOp T → Out T × List T
  | .add x => (.done, x :: xs)
  | .pushBack x => (.done, xs ++ [x])
  | .remove condition => (.removed (xs.find? condition).isSome, xs.eraseP condition)
  | .take condition => (.item ((xs.find? condition).getD default), xs.eraseP condition)
  | .popFront => (.item (xs.head?.getD default), xs.tail)
  | .clear => (.done, [])

/-- An operation on an object that there is not, or that there is already, does nothing. -/
def step [Inhabited T] (s : Nat → Option (List T)) : Op T → Out T × (Nat → Option (List T))
  | .construct i => match s i with
    | none => (.done, Function.update s i (some []))
    | some _ => (.done, s)
  | .copy i j => match s i, s j with
    | none, some ys => (.done, Function.update s i (some ys))
    | _, _ => (.done, s)
  | .assign i j => match s i, s j with
    | some _, some ys => (.done, Function.update s i (some ys))
    | _, _ => (.done, s)
  | .destroy i => (.done, Function.update s i none)
  | .on i op => match s i with
    | none => (.done, s)
    | some xs => ((apply xs op).1, Function.update s i (some (apply xs op).2))

end Sequences

/-! ## List objects -/

def LinkedList.apply [Inhabited T] (m : Allocator) (h : Heap T) (l : LinkedList) :
    ListOp T → Except Fault (Out T × Heap T × LinkedList)
  | .add x => do
    let (h, l) ← add m x h l
    return (.done, h, l)
  | .pushBack x => do
    let (h, l) ← pushBack m x h l
    return (.done, h, l)
  | .remove condition => do
    let (found, h, l) ← remove condition h l
    return (.removed found, h, l)
  | .take condition => do
    let (x, h, l) ← take condition h l
    return (.item x, h, l)
  | .popFront => do
    let (x, h, l) ← popFront h l
    return (.item x, h, l)
  | .clear => do
    let (h, l) ← clear h l
    return (.done, h, l)

structure State (T : Type) where
  heap : Heap T
  lists : Nat → Option LinkedList

def State.set (s : State T) (i : Nat) (h : Heap T) (l : Option LinkedList) : State T :=
  ⟨h, Function.update s.lists i l⟩

/-- No list, and no node in use; `node` is what memory holds. -/
def State.start (node : Nat → Node T) : State T := ⟨⟨node, [], 0, 0⟩, fun _ => none⟩

def step [Inhabited T] (m : Allocator) (s : State T) : Op T → Except Fault (Out T × State T)
  | .construct i => match s.lists i with
    | none => .ok (.done, s.set i s.heap (some .new))
    | some _ => .ok (.done, s)
  | .copy i j => match s.lists i, s.lists j with
    | none, some other => do
      let (h, l) ← LinkedList.copy m other s.heap
      return (.done, s.set i h (some l))
    | _, _ => .ok (.done, s)
  | .assign i j => match s.lists i, s.lists j with
    | some l, some other =>
      if i = j then .ok (.done, s)
      else do
        let (h, l) ← LinkedList.assign m other s.heap l
        return (.done, s.set i h (some l))
    | _, _ => .ok (.done, s)
  | .destroy i => match s.lists i with
    | none => .ok (.done, s)
    | some l => do
      let (h, _) ← LinkedList.clear s.heap l
      return (.done, s.set i h none)
  | .on i op => match s.lists i with
    | none => .ok (.done, s)
    | some l => do
      let (out, h, l) ← LinkedList.apply m s.heap l op
      return (out, s.set i h (some l))

/-! ## The lists represent the sequences -/

/-- There is no object, or a list with the nodes `as` and the elements `xs`. -/
def Stands (h : Heap T) : Option LinkedList → List Nat → Option (List T) → Prop
  | none, as, xs => as = [] ∧ xs = none
  | some l, as, xs => Owns h l as ∧ xs = some (h.items as)

structure Represents (s : State T) (xs : Nat → Option (List T)) (nodes : Nat → List Nat) : Prop where
  sound : s.heap.Sound
  stands : ∀ i, Stands s.heap (s.lists i) (nodes i) (xs i)
  live : ∀ a, a ∈ s.heap.live ↔ ∃ i, a ∈ nodes i
  apart : ∀ i j, i ≠ j → (nodes i).Disjoint (nodes j)

section Steps

variable {m : Allocator} {s : State T} {xs : Nat → Option (List T)} {nodes : Nat → List Nat}

theorem Moves.stands {h h' : Heap T} {as as' bs : List Nat} {o : Option LinkedList}
    {x : Option (List T)} (hm : Moves h as h' as') (ho : Stands h o bs x) (hd : as.Disjoint bs) :
    Stands h' o bs x ∧ as'.Disjoint bs := by
  cases o with
  | none =>
    obtain ⟨rfl, rfl⟩ := ho
    exact ⟨⟨rfl, rfl⟩, List.disjoint_nil_right as'⟩
  | some l =>
    obtain ⟨hl, rfl⟩ := ho
    obtain ⟨hl', hitems, hd'⟩ := hm.owns hl hd
    exact ⟨⟨hl', by rw [hitems]⟩, hd'⟩

theorem Represents.object (hr : Represents s xs nodes) (i : Nat) :
    (s.lists i = none ∧ nodes i = [] ∧ xs i = none) ∨
      ∃ l, s.lists i = some l ∧ Owns s.heap l (nodes i) ∧ xs i = some (s.heap.items (nodes i)) := by
  have hi := hr.stands i
  cases hl : s.lists i with
  | none =>
    rw [hl] at hi
    exact .inl ⟨rfl, hi⟩
  | some l =>
    rw [hl] at hi
    exact .inr ⟨l, rfl, hi⟩

/-- The object `i` is replaced; the others stand for what they stood for. -/
theorem Represents.set (hr : Represents s xs nodes) {i : Nat} {h' : Heap T} {as' : List Nat}
    {o : Option LinkedList} {x : Option (List T)} (hm : Moves s.heap (nodes i) h' as')
    (ho : Stands h' o as' x) :
    Represents (s.set i h' o) (Function.update xs i x) (Function.update nodes i as') where
  sound := hm.sound
  stands j := by
    by_cases hji : j = i
    · subst hji
      simpa [State.set] using ho
    · have := (hm.stands (hr.stands j) (hr.apart i j fun h => hji h.symm)).1
      simpa [State.set, hji] using this
  live a := by
    rw [State.set, hm.live, hr.live]
    constructor
    · rintro (⟨⟨j, hj⟩, hout⟩ | ha)
      · have hji : j ≠ i := fun h => hout (h ▸ hj)
        exact ⟨j, by simpa [hji] using hj⟩
      · exact ⟨i, by simpa using ha⟩
    · rintro ⟨j, hj⟩
      by_cases hji : j = i
      · subst hji
        exact .inr (by simpa using hj)
      · rw [Function.update_of_ne hji] at hj
        exact .inl ⟨⟨j, hj⟩, hr.apart j i hji hj⟩
  apart j k hjk := by
    by_cases hji : j = i
    · subst hji
      have hkj : k ≠ j := fun h => hjk h.symm
      simpa [hkj] using (hm.stands (hr.stands k) (hr.apart j k hjk)).2
    · by_cases hki : k = i
      · subst hki
        have hd := (hm.stands (hr.stands j) (hr.apart k j fun h => hjk h.symm)).2
        simpa [hji] using List.disjoint_comm.mp hd
      · simpa [hji, hki] using hr.apart j k hjk

/-- An object that is replaced by a list that an operation leaves. -/
theorem Represents.leaves (hr : Represents s xs nodes) {i : Nat} {h' : Heap T} {l' : LinkedList}
    {ys : List T} (hl : Leaves s.heap (nodes i) ys h' l') :
    ∃ nodes', Represents (s.set i h' (some l')) (Function.update xs i (some ys)) nodes' := by
  obtain ⟨as', ho, rfl, hm⟩ := hl
  exact ⟨_, hr.set hm ⟨ho, rfl⟩⟩

theorem apply_spec [Inhabited T] {h : Heap T} {l : LinkedList} {as : List Nat} (ho : Owns h l as)
    (hs : h.Sound) (op : ListOp T) :
    Unless m.Exhausted (LinkedList.apply m h l op) fun r =>
      r.1 = (Sequences.apply (h.items as) op).1 ∧
        Leaves h as (Sequences.apply (h.items as) op).2 r.2.1 r.2.2 := by
  cases op with
  | add x => exact (LinkedList.add_spec ho hs x).bind fun r hr => unless_ok ⟨rfl, hr⟩
  | pushBack x => exact (LinkedList.pushBack_spec ho hs x).bind fun r hr => unless_ok ⟨rfl, hr⟩
  | remove condition =>
    have hfound : Unless m.Exhausted (LinkedList.remove condition h l) fun r =>
        r.1 = ((h.items as).find? condition).isSome ∧
          Leaves h as ((h.items as).eraseP condition) r.2.1 r.2.2 :=
      (LinkedList.unlink_spec condition ho hs).bind fun r hr =>
        unless_ok ⟨congrArg Option.isSome hr.1, hr.2⟩
    exact hfound.bind fun r hr => unless_ok ⟨congrArg Out.removed hr.1, hr.2⟩
  | take condition =>
    have hfound : Unless m.Exhausted (LinkedList.take condition h l) fun r =>
        r.1 = ((h.items as).find? condition).getD default ∧
          Leaves h as ((h.items as).eraseP condition) r.2.1 r.2.2 :=
      (LinkedList.unlink_spec condition ho hs).bind fun r hr =>
        unless_ok ⟨congrArg (Option.getD · default) hr.1, hr.2⟩
    exact hfound.bind fun r hr => unless_ok ⟨congrArg Out.item hr.1, hr.2⟩
  | popFront =>
    exact (LinkedList.popFront_spec ho hs).bind fun r hr => unless_ok ⟨congrArg Out.item hr.1, hr.2⟩
  | clear =>
    refine (LinkedList.clear_spec ho hs).bind ?_
    rintro ⟨h', _⟩ ⟨rfl, hm⟩
    exact unless_ok ⟨rfl, [], owns_new, rfl, hm⟩

theorem step_spec [Inhabited T] (hr : ∃ nodes, Represents s xs nodes) (op : Op T) :
    Unless m.Exhausted (step m s op) fun r =>
      r.1 = (Sequences.step xs op).1 ∧ ∃ nodes, Represents r.2 (Sequences.step xs op).2 nodes := by
  obtain ⟨nodes, hr⟩ := hr
  cases op with
  | construct i =>
    rw [step, Sequences.step]
    rcases hr.object i with ⟨hl, hi, hx⟩ | ⟨l, hl, -, hx⟩
    · rw [hl, hx]
      have hm : Moves s.heap (nodes i) s.heap [] := by
        rw [hi]
        exact .refl hr.sound owns_new
      exact unless_ok ⟨rfl, _, hr.set hm ⟨owns_new, rfl⟩⟩
    · rw [hl, hx]
      exact unless_ok ⟨rfl, _, hr⟩
  | copy i j =>
    rw [step, Sequences.step]
    rcases hr.object i with ⟨hl, hi, hx⟩ | ⟨l, hl, -, hx⟩
    · rcases hr.object j with ⟨hl', -, hx'⟩ | ⟨other, hl', ho', hx'⟩
      · rw [hl, hx, hl', hx']
        exact unless_ok ⟨rfl, _, hr⟩
      · rw [hl, hx, hl', hx']
        refine (LinkedList.copy_spec hr.sound ho').bind fun r hleaves => unless_ok ⟨rfl, ?_⟩
        exact hr.leaves (hi ▸ hleaves)
    · rw [hl, hx]
      exact unless_ok ⟨rfl, _, hr⟩
  | assign i j =>
    rw [step, Sequences.step]
    rcases hr.object i with ⟨hl, -, hx⟩ | ⟨l, hl, ho, hx⟩
    · rw [hl, hx]
      exact unless_ok ⟨rfl, _, hr⟩
    · rcases hr.object j with ⟨hl', -, hx'⟩ | ⟨other, hl', ho', hx'⟩
      · rw [hl, hx, hl', hx']
        exact unless_ok ⟨rfl, _, hr⟩
      · by_cases hij : i = j
        · -- self-assignment
          subst hij
          rw [hl, hx]
          simp only [if_true]
          rw [← hx, Function.update_eq_self]
          exact unless_ok ⟨rfl, _, hr⟩
        · rw [hl, hx, hl', hx']
          simp only [hij, if_false]
          refine (LinkedList.assign_spec ho hr.sound ho' (hr.apart i j hij)).bind fun r hleaves => ?_
          exact unless_ok ⟨rfl, hr.leaves hleaves⟩
  | destroy i =>
    rw [step, Sequences.step]
    rcases hr.object i with ⟨hl, hi, hx⟩ | ⟨l, hl, ho, -⟩
    · rw [hl, ← hx, Function.update_eq_self]
      exact unless_ok ⟨rfl, _, hr⟩
    · rw [hl]
      refine (LinkedList.clear_spec ho hr.sound).bind fun r hclear => unless_ok ⟨rfl, ?_⟩
      exact ⟨_, hr.set hclear.2 ⟨rfl, rfl⟩⟩
  | on i op =>
    rw [step, Sequences.step]
    rcases hr.object i with ⟨hl, -, hx⟩ | ⟨l, hl, ho, hx⟩
    · rw [hl, hx]
      exact unless_ok ⟨rfl, _, hr⟩
    · rw [hl, hx]
      refine (apply_spec ho hr.sound op).bind fun r happly => unless_ok ⟨happly.1, ?_⟩
      exact hr.leaves happly.2

end Steps

theorem represents_start (node : Nat → Node T) :
    Represents (.start node) (fun _ => none) fun _ => [] where
  sound := ⟨List.nodup_nil, by simp [State.start], rfl⟩
  stands _ := ⟨rfl, rfl⟩
  live := by simp [State.start]
  apart := by simp

end Utils
end Hashx86
