import Mathlib.Data.List.Count
import Mathlib.Data.List.Nodup
import Mathlib.Logic.Function.Basic

/-!
# Resources in a pool or with an owner

`Ledger issued pool owner` says that every issued resource is at exactly one place: once in the
pool, or with one owner.

* `Ledger.take`, `Ledger.give`: a resource goes from the pool to an owner, and back.
* `Ledger.issue`: a new resource enters the pool.
* `Ledger.assign`, `Ledger.move`: an owner gets a new resource, or that of another owner.
* `Ledger.exactly_one`: the place of each issued resource.
-/

namespace Lib

variable {R O : Type}

structure Ledger (issued : R → Prop) (pool : List R) (owner : O → Option R) : Prop where
  nodup : pool.Nodup
  pool_issued : ∀ r ∈ pool, issued r
  owner_issued : ∀ o r, owner o = some r → issued r
  not_pool : ∀ o r, owner o = some r → r ∉ pool
  inj : ∀ o o' r, owner o = some r → owner o' = some r → o = o'
  complete : ∀ r, issued r → r ∈ pool ∨ ∃ o, owner o = some r

namespace Ledger

variable {issued : R → Prop} {pool pool' : List R} {owner : O → Option R} {o : O} {r : R}

theorem empty : Ledger (fun _ : R => False) [] (fun _ : O => none) where
  nodup := .nil
  pool_issued := by simp
  owner_issued := by simp
  not_pool := by simp
  inj := by simp
  complete := by simp

theorem perm (h : Ledger issued pool owner) (hp : pool.Perm pool') : Ledger issued pool' owner where
  nodup := hp.nodup_iff.mp h.nodup
  pool_issued := fun r hr => h.pool_issued r (hp.mem_iff.mpr hr)
  owner_issued := h.owner_issued
  not_pool := fun o r ho hr => h.not_pool o r ho (hp.mem_iff.mpr hr)
  inj := h.inj
  complete := fun r hr => (h.complete r hr).imp_left hp.mem_iff.mp

theorem congr_issued {issued' : R → Prop} (h : Ledger issued pool owner)
    (he : ∀ r, issued' r ↔ issued r) : Ledger issued' pool owner := by
  obtain rfl : issued' = issued := funext fun r => propext (he r)
  exact h

/-- A new resource enters the pool. -/
theorem issue (h : Ledger issued pool owner) (hr : ¬ issued r) :
    Ledger (fun x => x = r ∨ issued x) (r :: pool) owner where
  nodup := .cons (fun hm => hr (h.pool_issued r hm)) h.nodup
  pool_issued := fun x hx => (List.mem_cons.mp hx).imp_right (h.pool_issued x)
  owner_issued := fun o x ho => .inr (h.owner_issued o x ho)
  not_pool := by
    intro o x ho hx
    rcases List.mem_cons.mp hx with rfl | hx
    · exact hr (h.owner_issued o _ ho)
    · exact h.not_pool o x ho hx
  inj := h.inj
  complete := by
    rintro x (rfl | hx)
    · exact .inl List.mem_cons_self
    · exact (h.complete x hx).imp_left (List.mem_cons_of_mem r)

variable [DecidableEq O]

/-- A resource of the pool goes to an owner that has none. -/
theorem take (h : Ledger issued (r :: pool) owner) (ho : owner o = none) :
    Ledger issued pool (Function.update owner o (some r)) := by
  have hnd := List.nodup_cons.mp h.nodup
  have hold : ∀ x s, Function.update owner o (some r) x = some s →
      (x = o ∧ s = r) ∨ (x ≠ o ∧ owner x = some s) := by
    intro x s hx
    by_cases hxo : x = o
    · subst hxo
      rw [Function.update_self] at hx
      exact .inl ⟨rfl, (Option.some.inj hx).symm⟩
    · rw [Function.update_of_ne hxo] at hx
      exact .inr ⟨hxo, hx⟩
  have hne : ∀ x, owner x ≠ some r := fun x hx => h.not_pool x r hx List.mem_cons_self
  refine ⟨hnd.2, fun s hs => h.pool_issued s (List.mem_cons_of_mem r hs), ?_, ?_, ?_, ?_⟩
  · intro x s hx
    rcases hold x s hx with ⟨-, rfl⟩ | ⟨-, hx⟩
    · exact h.pool_issued _ List.mem_cons_self
    · exact h.owner_issued x s hx
  · intro x s hx hs
    rcases hold x s hx with ⟨-, rfl⟩ | ⟨-, hx⟩
    · exact hnd.1 hs
    · exact h.not_pool x s hx (List.mem_cons_of_mem r hs)
  · intro x y s hx hy
    rcases hold x s hx with ⟨hx1, hx2⟩ | ⟨-, hx⟩ <;> rcases hold y s hy with ⟨hy1, hy2⟩ | ⟨-, hy⟩
    · rw [hx1, hy1]
    · exact absurd (hx2 ▸ hy) (hne y)
    · exact absurd (hy2 ▸ hx) (hne x)
    · exact h.inj x y s hx hy
  · intro s hs
    rcases h.complete s hs with hp | ⟨x, hx⟩
    · rcases List.mem_cons.mp hp with rfl | hp
      · exact .inr ⟨o, Function.update_self _ _ _⟩
      · exact .inl hp
    · have hxo : x ≠ o := fun e => by rw [e, ho] at hx; cases hx
      exact .inr ⟨x, by rw [Function.update_of_ne hxo, hx]⟩

/-- An owner gives its resource back. -/
theorem give (h : Ledger issued pool owner) (ho : owner o = some r) :
    Ledger issued (r :: pool) (Function.update owner o none) := by
  have hold : ∀ x s, Function.update owner o none x = some s → x ≠ o ∧ owner x = some s := by
    intro x s hx
    by_cases hxo : x = o
    · subst hxo
      rw [Function.update_self] at hx
      cases hx
    · rw [Function.update_of_ne hxo] at hx
      exact ⟨hxo, hx⟩
  refine ⟨.cons (h.not_pool o r ho) h.nodup, ?_, fun x s hx => h.owner_issued x s (hold x s hx).2,
    ?_, fun x y s hx hy => h.inj x y s (hold x s hx).2 (hold y s hy).2, ?_⟩
  · intro s hs
    rcases List.mem_cons.mp hs with rfl | hs
    · exact h.owner_issued o _ ho
    · exact h.pool_issued s hs
  · intro x s hx hs
    obtain ⟨hne, hx⟩ := hold x s hx
    rcases List.mem_cons.mp hs with rfl | hs
    · exact hne (h.inj x o _ hx ho)
    · exact h.not_pool x s hx hs
  · intro s hs
    rcases h.complete s hs with hp | ⟨x, hx⟩
    · exact .inl (List.mem_cons_of_mem r hp)
    · by_cases hxo : x = o
      · rw [hxo, ho] at hx
        exact .inl (Option.some.inj hx ▸ List.mem_cons_self)
      · exact .inr ⟨x, by rw [Function.update_of_ne hxo, hx]⟩

/-- An owner that has none gets a new resource. -/
theorem assign (h : Ledger issued pool owner) (hr : ¬ issued r) (ho : owner o = none) :
    Ledger (fun x => x = r ∨ issued x) pool (Function.update owner o (some r)) :=
  (h.issue hr).take ho

/-- A resource goes from one owner to another that has none. -/
theorem move {o' : O} (h : Ledger issued pool owner) (ho : owner o = some r) (hne : o' ≠ o)
    (ho' : owner o' = none) :
    Ledger issued pool (Function.update (Function.update owner o none) o' (some r)) := by
  refine (h.give ho).take ?_
  rw [Function.update_of_ne hne, ho']

omit [DecidableEq O] in
/-- An issued resource is once in the pool and with no owner, or with one owner and not in the
pool. -/
theorem exactly_one [DecidableEq R] (h : Ledger issued pool owner) (hr : issued r) :
    (pool.count r = 1 ∧ ∀ o, owner o ≠ some r) ∨ (pool.count r = 0 ∧ ∃! o, owner o = some r) := by
  rcases h.complete r hr with hp | ⟨o, ho⟩
  · exact .inl ⟨List.count_eq_one_of_mem h.nodup hp, fun o ho => h.not_pool o r ho hp⟩
  · exact .inr ⟨List.count_eq_zero.mpr (h.not_pool o r ho), o, ho, fun o' ho' => h.inj o' o r ho' ho⟩

end Ledger
end Lib
