import Mathlib.Data.List.Nodup

/-!
# Doubly linked lists

`next` and `prev` are the links of the nodes and `null` stands behind the last node. The links may
come from a memory: the rules ask only what the links of the nodes of the list are.

* `Linked next prev null p a bs`: the list from `a` on is `bs`, and its first node points back to `p`.
* `Linked.push`: a node put before the first one.
* `Linked.remove`: a node taken out of the middle.
-/

namespace Lib

variable {α : Type} {next prev next' prev' : α → α} {null p a b : α} {bs xs ys : List α}

def Linked (next prev : α → α) (null : α) : α → α → List α → Prop
  | _, a, [] => a = null
  | p, a, b :: bs => a = b ∧ b ≠ null ∧ prev b = p ∧ Linked next prev null b (next b) bs

theorem Linked.congr (h : Linked next prev null p a bs)
    (hl : ∀ b ∈ bs, next' b = next b ∧ prev' b = prev b) : Linked next' prev' null p a bs := by
  induction bs generalizing p a with
  | nil => exact h
  | cons b bs ih =>
    obtain ⟨ha, hb, hp, hrest⟩ := h
    obtain ⟨hn, hv⟩ := hl b List.mem_cons_self
    refine ⟨ha, hb, hv.trans hp, ?_⟩
    rw [hn]
    exact ih hrest fun c hc => hl c (List.mem_cons_of_mem b hc)

theorem Linked.ne_null (h : Linked next prev null p a bs) (hb : b ∈ bs) : b ≠ null := by
  induction bs generalizing p a with
  | nil => exact absurd hb List.not_mem_nil
  | cons c bs ih =>
    obtain ⟨-, hc, -, hrest⟩ := h
    rcases List.mem_cons.mp hb with rfl | hmem
    · exact hc
    · exact ih hrest hmem

theorem Linked.head (h : Linked next prev null p a bs) : a = null ∧ bs = [] ∨ a ∈ bs := by
  cases bs with
  | nil => exact .inl ⟨h, rfl⟩
  | cons b bs => exact .inr (h.1 ▸ List.mem_cons_self)

theorem Linked.eq_null_iff (h : Linked next prev null p a bs) : a = null ↔ bs = [] := by
  rcases h.head with ⟨ha, hbs⟩ | ha
  · exact ⟨fun _ => hbs, fun _ => ha⟩
  · exact ⟨fun he => absurd he (h.ne_null ha), fun he => absurd (he ▸ ha) List.not_mem_nil⟩

/-- What stands behind a node. -/
theorem Linked.next_mem (h : Linked next prev null p a (xs ++ b :: ys)) :
    next b = null ∧ ys = [] ∨ next b ∈ ys := by
  induction xs generalizing p a with
  | nil => exact h.2.2.2.head
  | cons x xs ih => exact ih h.2.2.2

/-- What stands before a node. -/
theorem Linked.prev_mem (h : Linked next prev null p a (xs ++ b :: ys)) :
    prev b = p ∧ xs = [] ∨ prev b ∈ xs := by
  induction xs generalizing p a with
  | nil => exact .inl ⟨h.2.2.1, rfl⟩
  | cons x xs ih =>
    rcases ih h.2.2.2 with ⟨hp, -⟩ | hp
    · exact .inr (hp ▸ List.mem_cons_self)
    · exact .inr (List.mem_cons_of_mem x hp)

variable [DecidableEq α]

theorem Linked.push (h : Linked next prev null p a bs) (hn : bs.Nodup) (hb : b ≠ null)
    (hnb : next' b = a) (hpb : prev' b = p) (hnext : ∀ x ∈ bs, next' x = next x)
    (hprev : ∀ x ∈ bs, prev' x = if x = a then b else prev x) :
    Linked next' prev' null p b (b :: bs) := by
  refine ⟨rfl, hb, hpb, ?_⟩
  rw [hnb]
  cases bs with
  | nil => exact h
  | cons c bs =>
    obtain ⟨rfl, hc, -, hrest⟩ := h
    refine ⟨rfl, hc, ?_, ?_⟩
    · rw [hprev a List.mem_cons_self, if_pos rfl]
    · rw [hnext a List.mem_cons_self]
      refine hrest.congr fun x hx => ⟨hnext x (List.mem_cons_of_mem a hx), ?_⟩
      have hne : x ≠ a := fun he => (List.nodup_cons.mp hn).1 (he ▸ hx)
      rw [hprev x (List.mem_cons_of_mem a hx), if_neg hne]

theorem Linked.remove (h : Linked next prev null p a (xs ++ b :: ys))
    (hn : (p :: (xs ++ b :: ys)).Nodup)
    (hnext : ∀ x ∈ xs ++ ys, next' x = if x = prev b then next b else next x)
    (hprev : ∀ x ∈ xs ++ ys, prev' x = if x = next b then prev b else prev x) :
    Linked next' prev' null p (if a = b then next b else a) (xs ++ ys) := by
  induction xs generalizing p a with
  | nil =>
    obtain ⟨rfl, -, hp, hrest⟩ := h
    rw [if_pos rfl]
    rw [List.nil_append] at hn hnext hprev ⊢
    have hp' : p ∉ ys := fun hm => (List.nodup_cons.mp hn).1 (List.mem_cons_of_mem a hm)
    cases ys with
    | nil => exact hrest
    | cons y ys =>
      obtain ⟨hy, hnull, -, htail⟩ := hrest
      have hy' : y ≠ prev a := fun he => hp' (hp ▸ he ▸ List.mem_cons_self)
      refine ⟨hy, hnull, ?_, ?_⟩
      · rw [hprev y List.mem_cons_self, if_pos hy.symm, hp]
      · rw [hnext y List.mem_cons_self, if_neg hy']
        refine htail.congr fun x hx => ?_
        have hmem : x ∈ y :: ys := List.mem_cons_of_mem y hx
        have hyx : y ≠ x := by
          rintro rfl
          exact (List.nodup_cons.mp (List.nodup_cons.mp (List.nodup_cons.mp hn).2).2).1 hx
        have hxp : x ≠ prev a := fun he => hp' (hp ▸ he ▸ hmem)
        have hxn : x ≠ next a := fun he => hyx (hy.symm.trans he.symm)
        exact ⟨(hnext x hmem).trans (if_neg hxp), (hprev x hmem).trans (if_neg hxn)⟩
  | cons x xs ih =>
    obtain ⟨rfl, hnull, hp, hrest⟩ := h
    obtain ⟨hpn, hn'⟩ := List.nodup_cons.mp hn
    have ha : a ∉ xs ++ b :: ys := (List.nodup_cons.mp hn').1
    have hab : a ≠ b := fun he => ha (he ▸ List.mem_append_right xs List.mem_cons_self)
    have hrec := ih hrest hn' (fun y hy => hnext y (List.mem_cons_of_mem a hy))
      fun y hy => hprev y (List.mem_cons_of_mem a hy)
    have hanext : a ≠ next b := by
      rcases hrest.next_mem with ⟨he, -⟩ | he
      · exact fun h => hnull (h.trans he)
      · exact fun h => ha (h ▸ List.mem_append_right xs (List.mem_cons_of_mem b he))
    rw [if_neg hab]
    refine ⟨rfl, hnull, ?_, ?_⟩
    · rw [hprev a List.mem_cons_self, if_neg hanext, hp]
    · rw [hnext a List.mem_cons_self]
      -- The node before `b` is `a` exactly when `b` comes right behind it.
      have hiff : a = prev b ↔ next a = b := by
        cases xs with
        | nil => exact ⟨fun _ => hrest.1, fun _ => hrest.2.2.1.symm⟩
        | cons y xs =>
          constructor
          · intro he
            rcases hrest.prev_mem with ⟨-, hnil⟩ | hmem
            · exact absurd hnil (List.cons_ne_nil y xs)
            · exact absurd (List.mem_append_left _ (he ▸ hmem)) ha
          · intro he
            have hyb : y = b := hrest.1.symm.trans he
            have hy := (List.nodup_cons.mp (List.nodup_cons.mp hn').2).1
            exact absurd (hyb ▸ List.mem_append_right xs List.mem_cons_self) hy
      rw [if_congr hiff rfl rfl]
      exact hrec

end Lib
