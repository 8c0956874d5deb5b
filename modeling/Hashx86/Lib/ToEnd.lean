import Mathlib.Data.List.Flatten
import Mathlib.Data.List.Nodup

/-!
# Moving part of a list to its end

* `toEnd p l`: the elements with `p` go to the end, both parts in their order.
* `fork x y`: the shortest prefix of `x` that is no prefix of `y`.
* `exists_not_visited`: a list of paths where each time the last but one, with all that lie below
  its fork from the last, goes to the end. Of three paths or more one never comes to the end.
-/

namespace Lib

variable {α β : Type}

def toEnd (p : α → Prop) [DecidablePred p] (l : List α) : List α :=
  l.filter (¬ p ·) ++ l.filter (p ·)

section

variable {p : α → Prop} [DecidablePred p]

theorem filter_eq_nil {l : List α} (h : ∀ a ∈ l, ¬ p a) : l.filter (p ·) = [] :=
  List.filter_eq_nil_iff.mpr fun a ha => by simpa using h a ha

theorem filter_not_eq_nil {l : List α} (h : ∀ a ∈ l, p a) : l.filter (¬ p ·) = [] :=
  List.filter_eq_nil_iff.mpr fun a ha => by simpa using h a ha

theorem filter_eq_self {l : List α} (h : ∀ a ∈ l, p a) : l.filter (p ·) = l :=
  List.filter_eq_self.mpr fun a ha => by simpa using h a ha

theorem filter_not_eq_self {l : List α} (h : ∀ a ∈ l, ¬ p a) : l.filter (¬ p ·) = l :=
  List.filter_eq_self.mpr fun a ha => by simpa using h a ha

theorem toEnd_perm (l : List α) : (toEnd p l).Perm l := by
  have h := List.filter_append_perm (fun a => decide (p a)) l
  refine List.Perm.trans (List.perm_append_comm.trans (.of_eq ?_)) h
  simp

theorem mem_toEnd {l : List α} {a : α} : a ∈ toEnd p l ↔ a ∈ l := (toEnd_perm l).mem_iff

/-- What has `p` is at the end already. -/
theorem toEnd_append {l r : List α} (hl : ∀ a ∈ l, ¬ p a) (hr : ∀ a ∈ r, p a) :
    toEnd p (l ++ r) = l ++ r := by
  rw [toEnd, List.filter_append, List.filter_append, filter_not_eq_self hl, filter_not_eq_nil hr,
    filter_eq_nil hl, filter_eq_self hr, List.append_nil, List.nil_append]

theorem toEnd_append_left {l : List α} (hl : ∀ a ∈ l, ¬ p a) (r : List α) :
    toEnd p (l ++ r) = l ++ toEnd p r := by
  rw [toEnd, toEnd, List.filter_append, List.filter_append, filter_not_eq_self hl,
    filter_eq_nil hl, List.append_assoc, List.nil_append]

theorem toEnd_map (f : β → α) (l : List β) [DecidablePred fun b => p (f b)] :
    toEnd p (l.map f) = (toEnd (fun b => p (f b)) l).map f := by
  rw [toEnd, toEnd, List.map_append, List.filter_map, List.filter_map]
  congr 2 <;> exact List.filter_congr fun b _ => by simp

/-- The elements of a block have `p` all or none. -/
theorem filter_flatMap {q : β → Prop} [DecidablePred q] {f : β → List α} {l : List β}
    (h : ∀ b ∈ l, ∀ a ∈ f b, p a ↔ q b) :
    (l.flatMap f).filter (p ·) = (l.filter (q ·)).flatMap f := by
  induction l with
  | nil => rfl
  | cons b l ih =>
    obtain ⟨hb, hl⟩ := List.forall_mem_cons.mp h
    rw [List.flatMap_cons, List.filter_append, ih hl]
    by_cases hq : q b
    · rw [List.filter_cons_of_pos (p := fun b => decide (q b)) (decide_eq_true hq),
        List.flatMap_cons, filter_eq_self fun a ha => (hb a ha).mpr hq]
    · rw [List.filter_cons_of_neg (p := fun b => decide (q b)) (by simpa using hq),
        filter_eq_nil fun a ha hp => hq ((hb a ha).mp hp), List.nil_append]

theorem toEnd_flatMap {q : β → Prop} [DecidablePred q] {f : β → List α} {l : List β}
    (h : ∀ b ∈ l, ∀ a ∈ f b, p a ↔ q b) :
    toEnd p (l.flatMap f) = (toEnd q l).flatMap f := by
  rw [toEnd, toEnd, List.flatMap_append, filter_flatMap h,
    filter_flatMap (p := fun a => ¬ p a) fun b hb a ha => not_congr (h b hb a ha)]

end

/-! ## Forks -/

variable [DecidableEq α]

def fork : List α → List α → List α
  | [], _ => []
  | a :: _, [] => [a]
  | a :: x, b :: y => if a = b then a :: fork x y else [a]

theorem fork_isPrefix (x y : List α) : fork x y <+: x := by
  induction x generalizing y with
  | nil => exact List.prefix_rfl
  | cons a x ih =>
    cases y with
    | nil => exact ⟨x, rfl⟩
    | cons b y =>
      rw [fork]
      split
      · exact (List.prefix_cons_inj a).mpr (ih y)
      · exact ⟨x, rfl⟩

theorem not_fork_isPrefix {x y : List α} (h : ¬ x <+: y) : ¬ fork x y <+: y := by
  induction x generalizing y with
  | nil => exact absurd List.nil_prefix h
  | cons a x ih =>
    cases y with
    | nil => exact fun hp => List.cons_ne_nil a [] (List.prefix_nil.mp hp)
    | cons b y =>
      rw [fork]
      split
      · rename_i hab
        subst hab
        rw [List.prefix_cons_inj] at h ⊢
        exact ih h
      · rename_i hab
        exact fun hp => hab (List.cons_prefix_cons.mp hp).1

/-- Paths with a common prefix fork below it. -/
theorem prefix_fork {ρ x y : List α} (hx : ρ <+: x) (hy : ρ <+: y) : ρ <+: fork x y := by
  induction ρ generalizing x y with
  | nil => exact List.nil_prefix
  | cons a ρ ih =>
    obtain ⟨x, rfl⟩ := hx
    obtain ⟨y, rfl⟩ := hy
    rw [List.cons_append, List.cons_append, fork, if_pos rfl, List.prefix_cons_inj]
    exact ih (List.prefix_append ρ x) (List.prefix_append ρ y)

/-! ## Going backwards -/

section

variable {L A : Nat → List (List α)} {f : Nat → List α}

/-- Nothing else lies below the forks of the last two, which take turns. -/
theorem turns (hL : ∀ k, L k = A k ++ [f (k + 1), f k])
    (hstep : ∀ k, L (k + 1) = toEnd (fork (f (k + 1)) (f k) <+: ·) (L k))
    {a : List (List α)} {x y : List α} (hxy : ¬ x <+: y) (hyx : ¬ y <+: x)
    (hx : ∀ z ∈ a, ¬ fork x y <+: z) (hy : ∀ z ∈ a, ¬ fork y x <+: z)
    (h0 : L 0 = a ++ [x, y]) (k : Nat) : L k = a ++ [x, y] ∨ L k = a ++ [y, x] := by
  -- one turn from either order
  have hturn : ∀ x y : List α, ¬ x <+: y → (∀ z ∈ a, ¬ fork x y <+: z) →
      ∀ k, L k = a ++ [x, y] → L (k + 1) = a ++ [y, x] := by
    intro x y hxy hx k hk
    obtain ⟨-, hlast⟩ := List.append_inj' ((hL k).symm.trans hk) rfl
    obtain ⟨hfx, hfy⟩ := List.cons.inj hlast
    rw [hstep, hfx, List.cons.inj hfy |>.1, hk, toEnd_append_left hx, toEnd]
    simp [fork_isPrefix x y, not_fork_isPrefix hxy]
  induction k with
  | zero => exact .inl h0
  | succ k ih =>
    rcases ih with hk | hk
    · exact .inr (hturn x y hxy hx k hk)
    · exact .inl (hturn y x hyx hy k hk)

/-- The last two stay below a path. -/
theorem below (hL : ∀ k, L k = A k ++ [f (k + 1), f k])
    (hstep : ∀ k, L (k + 1) = toEnd (fork (f (k + 1)) (f k) <+: ·) (L k)) {ρ : List α}
    (h0 : ∃ d g, L 0 = d ++ g ∧ (∀ z ∈ g, ρ <+: z) ∧ 2 ≤ g.length) (k : Nat) : ρ <+: f k := by
  have hlast : ∀ k, (∃ d g, L k = d ++ g ∧ (∀ z ∈ g, ρ <+: z) ∧ 2 ≤ g.length) →
      ρ <+: f (k + 1) ∧ ρ <+: f k := by
    rintro k ⟨d, g, hk, hg, hlen⟩
    have hsuffix : [f (k + 1), f k] <:+ g :=
      List.suffix_of_suffix_length_le ⟨A k, (hL k).symm⟩ ⟨d, hk.symm⟩ hlen
    exact ⟨hg _ (hsuffix.subset (by simp)), hg _ (hsuffix.subset (by simp))⟩
  have hinv : ∀ k, ∃ d g, L k = d ++ g ∧ (∀ z ∈ g, ρ <+: z) ∧ 2 ≤ g.length := by
    intro k
    induction k with
    | zero => exact h0
    | succ k ih =>
      obtain ⟨hnext, hnow⟩ := hlast k ih
      have hfork : ∀ z, fork (f (k + 1)) (f k) <+: z → ρ <+: z :=
        fun z => (prefix_fork hnext hnow).trans
      obtain ⟨d, g, hk, hg, hlen⟩ := ih
      refine ⟨d.filter (¬ fork (f (k + 1)) (f k) <+: ·), g.filter (¬ fork (f (k + 1)) (f k) <+: ·) ++
        (d ++ g).filter (fork (f (k + 1)) (f k) <+: ·), ?_, ?_, ?_⟩
      · rw [hstep, hk, toEnd, List.filter_append, List.append_assoc]
      · intro z hz
        rcases List.mem_append.mp hz with hz | hz
        · exact hg z (List.mem_of_mem_filter hz)
        · exact hfork z (of_decide_eq_true (List.mem_filter.mp hz).2)
      · have hparts := (toEnd_perm (p := (fork (f (k + 1)) (f k) <+: ·)) g).length_eq
        rw [toEnd, List.length_append] at hparts
        rw [List.filter_append, List.length_append, List.length_append]
        omega
  exact (hlast k (hinv k)).2

/-- Of three paths or more one is never the last again. -/
theorem exists_not_visited (hL : ∀ k, L k = A k ++ [f (k + 1), f k])
    (hstep : ∀ k, L (k + 1) = toEnd (fork (f (k + 1)) (f k) <+: ·) (L k))
    (hnodup : (L 0).Nodup) (hfree : ∀ x ∈ L 0, ∀ y ∈ L 0, x <+: y → x = y)
    (halone : ∀ z ∈ A 0, ¬ fork (f 0) (f 1) <+: z) (hA : A 0 ≠ []) :
    ∃ p ∈ L 0, ∀ k, f (k + 1) ≠ p := by
  have h1 : f 1 ∈ L 0 := by simp [hL 0]
  have h0 : f 0 ∈ L 0 := by simp [hL 0]
  rw [hL 0, List.nodup_append] at hnodup
  obtain ⟨-, hpair, hdisjoint⟩ := hnodup
  have hne : f 1 ≠ f 0 := by simpa using hpair
  have h10 : ¬ f 1 <+: f 0 := fun h => hne (hfree _ h1 _ h0 h)
  have h01 : ¬ f 0 <+: f 1 := fun h => hne.symm (hfree _ h0 _ h1 h)
  by_cases hx : ∀ z ∈ A 0, ¬ fork (f 1) (f 0) <+: z
  · obtain ⟨p, hp⟩ := List.exists_mem_of_ne_nil _ hA
    refine ⟨p, by simp [hL 0, hp], fun k hk => ?_⟩
    have hend : f (k + 1) = f 0 ∨ f (k + 1) = f 1 := by
      rcases turns hL hstep h10 h01 hx halone (hL 0) (k + 1) with heq | heq
      · have hlast := (List.append_inj' ((hL (k + 1)).symm.trans heq) rfl).2
        exact .inl (List.cons.inj (List.cons.inj hlast).2).1
      · have hlast := (List.append_inj' ((hL (k + 1)).symm.trans heq) rfl).2
        exact .inr (List.cons.inj (List.cons.inj hlast).2).1
    rcases hend with heq | heq
    · exact hdisjoint p hp (f 0) (by simp) (hk.symm.trans heq)
    · exact hdisjoint p hp (f 1) (by simp) (hk.symm.trans heq)
  · push Not at hx
    obtain ⟨z, hz, hzf⟩ := hx
    refine ⟨f 0, h0, fun k hk => not_fork_isPrefix h10 ?_⟩
    -- from the first step on, two paths below the fork are at the end
    suffices hbelow : fork (f 1) (f 0) <+: f (k + 1) by rwa [hk] at hbelow
    refine below (L := fun k => L (k + 1)) (A := fun k => A (k + 1)) (f := fun k => f (k + 1))
      (fun k => hL (k + 1)) (fun k => hstep (k + 1))
      ⟨(L 0).filter (¬ fork (f 1) (f 0) <+: ·), (L 0).filter (fork (f 1) (f 0) <+: ·), hstep 0,
        fun w hw => of_decide_eq_true (List.mem_filter.mp hw).2, ?_⟩ k
    have hmem : z ∈ (A 0).filter (fork (f 1) (f 0) <+: ·) :=
      List.mem_filter.mpr ⟨hz, decide_eq_true hzf⟩
    have hnext : f 1 ∈ [f (0 + 1), f 0].filter (fork (f 1) (f 0) <+: ·) :=
      List.mem_filter.mpr ⟨List.mem_cons_self, decide_eq_true (fork_isPrefix (f 1) (f 0))⟩
    have hpos := List.length_pos_of_mem hmem
    have hpos' := List.length_pos_of_mem hnext
    rw [hL 0, List.filter_append, List.length_append]
    omega

end

end Lib
