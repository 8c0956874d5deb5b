import Hashx86.Lib.Checked
import Hashx86.Lib.While
import Mathlib.Algebra.Order.Ring.Int
import Mathlib.Algebra.Ring.Nat
import Mathlib.Tactic.SplitIfs

/-!
# Programs that draw

A picture has a colour in each column of each row. A program that draws gives the picture after it,
or fails (`Except ε`). The pixels are in memory row by row, and are read and written by their place
there.

* `Draws A g m`: the program `m` does not fail; it makes of each pixel of the area `A` what `g` makes
  of it, and leaves the others.
* `Draws.seq`, `Draws.forInts`: programs one after the other draw the union of their areas, if what
  is drawn twice stays the same.
* `poke_draws`, `peek_eq`: a place in memory as a pixel.
* `Paints A c m`: the program paints the area with the colour `c`, however often; `Paints.iff`: there
  is one such area.
* `drawLoop`, `Paints.drawLoop`: a loop over a state of its own paints the areas of the states that it
  `Passes`; `drawLoop_ne_ok`: a loop that does not leave.
-/

namespace Lib

/-- The colours by column and row. -/
abbrev Picture (w h : Nat) (α : Type) := Fin w → Fin h → α

variable {w h : Nat} {α ε : Type} {A B : Int → Int → Prop} {g : Int → Int → α → α}
  {m n : Picture w h α → Except ε (Picture w h α)} {f f' f'' : Picture w h α}

/-! ## Areas -/

/-- `f'` is `f` with the pixels of the area changed by `g`. -/
def Drawn (A : Int → Int → Prop) (g : Int → Int → α → α) (f f' : Picture w h α) : Prop :=
  ∀ (i : Fin w) (j : Fin h), (A i j → f' i j = g i j (f i j)) ∧ (¬ A i j → f' i j = f i j)

def Draws (A : Int → Int → Prop) (g : Int → Int → α → α)
    (m : Picture w h α → Except ε (Picture w h α)) : Prop :=
  ∀ f, ∃ f', m f = .ok f' ∧ Drawn A g f f'

/-- What is drawn twice stays the same on the pixels of both areas. -/
def Settles (A B : Int → Int → Prop) (g : Int → Int → α → α) : Prop :=
  ∀ i j, A i j → B i j → ∀ c, g i j (g i j c) = g i j c

theorem Drawn.none (hA : ∀ (i : Fin w) (j : Fin h), ¬ A i j) (f : Picture w h α) :
    Drawn A g f f := fun i j => ⟨fun ha => absurd ha (hA i j), fun _ => rfl⟩

theorem Drawn.congr (hd : Drawn A g f f') (hab : ∀ (i : Fin w) (j : Fin h), A i j ↔ B i j) :
    Drawn B g f f' := fun i j =>
  ⟨fun hb => (hd i j).1 ((hab i j).mpr hb), fun hb => (hd i j).2 fun ha => hb ((hab i j).mp ha)⟩

theorem Drawn.trans (hd : Drawn A g f f') (hd' : Drawn B g f' f'') (hg : Settles A B g) :
    Drawn (fun i j => A i j ∨ B i j) g f f'' := by
  intro i j
  obtain ⟨hin, hout⟩ := hd i j
  obtain ⟨hin', hout'⟩ := hd' i j
  by_cases ha : A i j
  · refine ⟨fun _ => ?_, fun hn => absurd (Or.inl ha) hn⟩
    by_cases hb : B i j
    · rw [hin' hb, hin ha, hg i j ha hb]
    · rw [hout' hb, hin ha]
  · by_cases hb : B i j
    · exact ⟨fun _ => by rw [hin' hb, hout ha], fun hn => absurd (Or.inr hb) hn⟩
    · refine ⟨fun hab => absurd hab (by simp [ha, hb]), fun _ => ?_⟩
      rw [hout' hb, hout ha]

/-- Two programs that draw the same end in the same picture. -/
theorem Drawn.unique (hd : Drawn A g f f') (hd' : Drawn A g f f'') : f' = f'' := by
  funext i j
  by_cases ha : A i j
  · rw [(hd i j).1 ha, (hd' i j).1 ha]
  · rw [(hd i j).2 ha, (hd' i j).2 ha]

theorem Draws.skip (hA : ∀ (i : Fin w) (j : Fin h), ¬ A i j) :
    Draws A g (fun f : Picture w h α => (.ok f : Except ε _)) := fun f => ⟨f, rfl, Drawn.none hA f⟩

theorem Draws.congr (hm : Draws A g m) (hab : ∀ (i : Fin w) (j : Fin h), A i j ↔ B i j) :
    Draws B g m := by
  intro f
  obtain ⟨f', hf', hd⟩ := hm f
  exact ⟨f', hf', hd.congr hab⟩

/-- What `g` does matters on the area only. -/
theorem Draws.congr_of {g' : Int → Int → α → α} (hm : Draws A g m)
    (hg : ∀ i j c, A i j → g i j c = g' i j c) : Draws A g' m := by
  intro f
  obtain ⟨f', hf', hd⟩ := hm f
  exact ⟨f', hf', fun i j => ⟨fun ha => by rw [← hg i j _ ha]; exact (hd i j).1 ha, (hd i j).2⟩⟩

/-- Nothing is to be done where `g` changes nothing. -/
theorem Draws.keep (hg : ∀ i j c, A i j → g i j c = c) :
    Draws A g (fun f : Picture w h α => (.ok f : Except ε _)) :=
  fun f => ⟨f, rfl, fun i j => ⟨fun ha => (hg i j (f i j) ha).symm, fun _ => rfl⟩⟩

theorem Draws.seq (hm : Draws A g m) (hn : Draws B g n) (hg : Settles A B g) :
    Draws (fun i j => A i j ∨ B i j) g (fun f => m f >>= n) := by
  intro f
  obtain ⟨f', hf', hd⟩ := hm f
  obtain ⟨f'', hf'', hd'⟩ := hn f'
  refine ⟨f'', ?_, hd.trans hd' hg⟩
  show m f >>= n = .ok f''
  rw [hf']
  exact hf''

/-- A program that draws only under a condition on its own data. -/
theorem Draws.ite {p : Prop} [Decidable p] (hm : p → Draws A g m) :
    Draws (fun i j => p ∧ A i j) g (fun f => if p then m f else .ok f) := by
  by_cases hp : p
  · simp only [if_pos hp]
    exact (hm hp).congr fun i j => by simp [hp]
  · simp only [if_neg hp]
    exact Draws.skip fun i j ha => hp ha.1

/-! ## Loops -/

/-- The loop `for (X = a; X < b; ++X)`. -/
def forInts {σ : Type} (a b : Int) (body : Int → σ → Except ε σ) (s : σ) : Except ε σ :=
  (List.range (b - a).toNat).foldlM (fun s (k : Nat) => body (a + k) s) s

theorem draws_foldlM {body : Nat → Picture w h α → Except ε (Picture w h α)}
    (area : Nat → Int → Int → Prop) (count : Nat)
    (hbody : ∀ k < count, Draws (area k) g (body k))
    (hg : ∀ k l, k < l → l < count → Settles (area k) (area l) g) :
    Draws (fun i j => ∃ k < count, area k i j) g
      (fun f => (List.range count).foldlM (fun f k => body k f) f) := by
  induction count with
  | zero => exact Draws.skip fun i j ⟨k, hk, _⟩ => absurd hk (Nat.not_lt_zero k)
  | succ count ih =>
    have hinit := ih (fun k hk => hbody k (by omega)) (fun k l hkl hl => hg k l hkl (by omega))
    have hlast := hbody count (Nat.lt_succ_self count)
    have hseq := hinit.seq hlast
      (fun i j ⟨k, hk, ha⟩ hb => hg k count hk (Nat.lt_succ_self count) i j ha hb)
    intro f
    obtain ⟨f', hf', hd⟩ := hseq f
    refine ⟨f', ?_, hd.congr fun i j => ?_⟩
    · show (List.range (count + 1)).foldlM _ f = _
      rw [List.range_succ, List.foldlM_append]
      simpa using hf'
    · constructor
      · rintro (⟨k, hk, ha⟩ | ha)
        · exact ⟨k, by omega, ha⟩
        · exact ⟨count, Nat.lt_succ_self count, ha⟩
      · rintro ⟨k, hk, ha⟩
        obtain hlt | rfl := Nat.lt_succ_iff_lt_or_eq.mp hk
        · exact Or.inl ⟨k, hlt, ha⟩
        · exact Or.inr ha

theorem Draws.forInts {a b : Int} {body : Int → Picture w h α → Except ε (Picture w h α)}
    {area : Int → Int → Int → Prop} (hbody : ∀ X, a ≤ X → X < b → Draws (area X) g (body X))
    (hg : ∀ X Y, a ≤ X → X < Y → Y < b → Settles (area X) (area Y) g) :
    Draws (fun i j => ∃ X, a ≤ X ∧ X < b ∧ area X i j) g (Lib.forInts a b body) := by
  refine (draws_foldlM (fun k => area (a + k)) (b - a).toNat ?_ ?_).congr ?_
  · exact fun k hk => hbody (a + k) (by omega) (by omega)
  · exact fun k l hkl hl => hg (a + k) (a + l) (by omega) (by omega) (by omega)
  · intro i j
    constructor
    · rintro ⟨k, hk, ha⟩
      exact ⟨a + k, by omega, by omega, ha⟩
    · rintro ⟨X, hlow, hhigh, ha⟩
      refine ⟨(X - a).toNat, by omega, ?_⟩
      rw [show a + ((X - a).toNat : Int) = X by omega]
      exact ha

/-- The loop `for (; test; step) body` over a state beside the picture; `endless` if it does not leave
in `fuel` turns. -/
def drawLoop {σ : Type} (test : σ → Except ε Bool)
    (body : σ → Picture w h α → Except ε (Picture w h α)) (step : σ → Except ε σ) (endless : ε)
    (fuel : Nat) (s : σ) (f : Picture w h α) : Except ε (Picture w h α) :=
  whileLoop (fun (s, f) => test s >>= fun more =>
    if more then body s f >>= fun f => step s >>= fun s => .ok (some (s, f)) else .ok none)
    endless fuel (s, f) >>= fun p => .ok p.2

/-- A loop that goes on in some states, from `s` to `next s`, goes on in `t`. -/
inductive Passes {σ : Type} (next : σ → σ) (goes : σ → Prop) : σ → σ → Prop
  | here {s} : goes s → Passes next goes s s
  | later {s t} : goes s → Passes next goes (next s) t → Passes next goes s t

theorem Passes.inv {σ : Type} {next : σ → σ} {goes : σ → Prop} (inv : σ → Prop)
    (hnext : ∀ s, inv s → goes s → inv (next s)) {s t : σ} (hp : Passes next goes s t) (hs : inv s) :
    inv t ∧ goes t := by
  induction hp with
  | here hg => exact ⟨hs, hg⟩
  | later hg _ ih => exact ih (hnext _ hs hg)

theorem passes_upTo {a b t : Int} : Passes (· + 1) (· ≤ b) a t ↔ a ≤ t ∧ t ≤ b := by
  constructor
  · intro hp
    exact hp.inv (fun s => a ≤ s) (fun s hs _ => by omega) (Int.le_refl a)
  · rintro ⟨hlow, hhigh⟩
    generalize hn : (t - a).toNat = n
    induction n generalizing a with
    | zero =>
      obtain rfl : a = t := by omega
      exact .here hhigh
    | succ n ih => exact .later (show a ≤ b by omega) (ih (a := a + 1) (by omega) (by omega))

section Loop

variable {σ : Type} {test : σ → Except ε Bool} {step : σ → Except ε σ} {endless : ε}
  {body : σ → Picture w h α → Except ε (Picture w h α)}

theorem drawLoop_succ (fuel : Nat) (s : σ) (f : Picture w h α) :
    drawLoop test body step endless (fuel + 1) s f = (test s >>= fun more =>
      if more then body s f >>= fun f => step s >>= fun s => drawLoop test body step endless fuel s f
      else .ok f) := by
  simp only [drawLoop, whileLoop]
  cases test s with
  | error e => rfl
  | ok more =>
    cases more with
    | false => rfl
    | true =>
      cases body s f with
      | error e => rfl
      | ok f₁ =>
        cases step s with
        | error e => rfl
        | ok s' => rfl

/-- A loop that goes on from the states of `inv` to states of `inv`, or fails, does not leave. -/
theorem drawLoop_ne_ok (inv : σ → Prop) (htest : ∀ s, inv s → test s ≠ .ok false)
    (hkeep : ∀ s s' f f', inv s → body s f = .ok f' → step s = .ok s' → inv s') {fuel : Nat} {s : σ}
    (hs : inv s) (f f' : Picture w h α) : drawLoop test body step endless fuel s f ≠ .ok f' := by
  induction fuel generalizing s f with
  | zero => exact nofun
  | succ fuel ih =>
    intro hok
    rw [drawLoop_succ] at hok
    obtain ⟨more, ht, hok⟩ := bind_eq_ok.mp hok
    cases more with
    | false => exact htest s hs ht
    | true =>
      obtain ⟨f₁, hb, hok⟩ := bind_eq_ok.mp hok
      obtain ⟨s', hs', hok⟩ := bind_eq_ok.mp hok
      exact ih (hkeep s s' f f₁ hs hb hs') f₁ hok

end Loop

/-! ## Places in memory -/

/-- The pixel at a place is changed; there is none outside the memory of the picture. -/
def poke (e : ε) (place : Int) (g : α → α) (f : Picture w h α) : Except ε (Picture w h α) :=
  if 0 ≤ place ∧ place < w * h then
    .ok fun i j => if (j * w + i : Int) = place then g (f i j) else f i j
  else .error e

/-- A pixel, or `d` off the picture. -/
def pixelD (d : α) (f : Picture w h α) (x y : Int) : α :=
  if hp : 0 ≤ x ∧ x < w ∧ 0 ≤ y ∧ y < h then f ⟨x.toNat, by omega⟩ ⟨y.toNat, by omega⟩ else d

/-- The pixel at a place. -/
def peek (e : ε) (d : α) (place : Int) (f : Picture w h α) : Except ε α :=
  if 0 ≤ place ∧ place < w * h then .ok (pixelD d f (place % w) (place / w)) else .error e

/-- Two pixels at one place are the same. -/
theorem place_inj {i x : Int} {j y : Int} (hi : 0 ≤ i) (hi' : i < w) (hx : 0 ≤ x) (hx' : x < w) :
    j * w + i = y * w + x ↔ i = x ∧ j = y := by
  constructor
  · intro heq
    have hj : j = y := by
      have hdiv := congrArg (· / (w : Int)) heq
      simp only [Int.add_comm (_ * _)] at hdiv
      rwa [Int.add_mul_ediv_right _ _ (by omega), Int.add_mul_ediv_right _ _ (by omega),
        Int.ediv_eq_zero_of_lt hi hi', Int.ediv_eq_zero_of_lt hx hx', Int.zero_add,
        Int.zero_add] at hdiv
    subst hj
    exact ⟨by omega, rfl⟩
  · rintro ⟨rfl, rfl⟩
    rfl

/-- The place of a pixel is in the memory of the picture. -/
theorem place_lt {x y : Int} (hx : 0 ≤ x) (hx' : x < w) (hy : 0 ≤ y) (hy' : y < h) :
    0 ≤ y * w + x ∧ y * w + x < w * h := by
  have hnn : 0 ≤ y * (w : Int) := Int.mul_nonneg hy (Int.natCast_nonneg w)
  have hle : (y + 1) * (w : Int) ≤ h * w :=
    Int.mul_le_mul_of_nonneg_right (by omega) (Int.natCast_nonneg w)
  rw [Int.add_mul, Int.one_mul] at hle
  rw [Int.mul_comm (w : Int)]
  omega

theorem poke_draws (e : ε) {x y : Int} (hx : 0 ≤ x) (hx' : x < w) (hy : 0 ≤ y) (hy' : y < h)
    {place : Int} (hp : place = y * w + x) :
    Draws (fun i j => i = x ∧ j = y) g (poke e place (g x y) : Picture w h α → _) := by
  have hlt := place_lt (w := w) (h := h) hx hx' hy hy'
  intro f
  refine ⟨_, by rw [poke, if_pos (by omega)], fun i j => ?_⟩
  have hinj := place_inj (i := i) (j := j) (x := x) (y := y) (by omega) (by omega) hx hx'
  rw [hp]
  constructor
  · rintro ⟨hi, hj⟩
    simp only [hi, hj, if_true]
  · intro hne
    simp only [hinj, hne, if_false]

theorem peek_eq (e : ε) (d : α) (f : Picture w h α) {x y : Int} (hx : 0 ≤ x) (hx' : x < w)
    (hy : 0 ≤ y) (hy' : y < h) {place : Int} (hp : place = y * w + x) :
    peek e d place f = .ok (pixelD d f x y) := by
  have hlt := place_lt (w := w) (h := h) hx hx' hy hy'
  have hw : (w : Int) ≠ 0 := by omega
  have hmod : place % w = x := by
    rw [hp, Int.add_comm, Int.add_mul_emod_self_right, Int.emod_eq_of_lt hx hx']
  have hdiv : place / w = y := by
    rw [hp, Int.add_comm, Int.add_mul_ediv_right _ _ hw, Int.ediv_eq_zero_of_lt hx hx', Int.zero_add]
  rw [peek, if_pos (by omega), hmod, hdiv]

/-! ## One colour -/

/-- The program paints the area with one colour. -/
abbrev Paints (A : Int → Int → Prop) (c : α) (m : Picture w h α → Except ε (Picture w h α)) : Prop :=
  Draws A (fun _ _ _ => c) m

variable {c : α}

theorem Paints.seq (hm : Paints A c m) (hn : Paints B c n) :
    Paints (fun i j => A i j ∨ B i j) c (fun f => m f >>= n) :=
  Draws.seq hm hn fun _ _ _ _ _ => rfl

theorem Paints.ite {p : Prop} [Decidable p] (hm : p → Paints A c m) :
    Paints (fun i j => p ∧ A i j) c (fun f => if p then m f else .ok f) :=
  Draws.ite hm

theorem Paints.forInts {a b : Int} {body : Int → Picture w h α → Except ε (Picture w h α)}
    {area : Int → Int → Int → Prop} (hbody : ∀ X, a ≤ X → X < b → Paints (area X) c (body X)) :
    Paints (fun i j => ∃ X, a ≤ X ∧ X < b ∧ area X i j) c (Lib.forInts a b body) :=
  Draws.forInts hbody fun _ _ _ _ _ _ _ _ _ _ => rfl

/-- A loop that is in `inv`, and whose body paints there, paints the areas of the states it passes. -/
theorem Paints.drawLoop {σ : Type} {test : σ → Except ε Bool} {step : σ → Except ε σ} {endless : ε}
    {body : σ → Picture w h α → Except ε (Picture w h α)} {next : σ → σ} {goes : σ → Prop}
    {area : σ → Int → Int → Prop} (inv : σ → Prop) (m : σ → Nat)
    (hgo : ∀ s, inv s → goes s → test s = .ok true ∧ step s = .ok (next s) ∧ inv (next s) ∧
      m (next s) < m s)
    (hbody : ∀ s, inv s → goes s → Paints (area s) c (body s))
    (hleave : ∀ s, inv s → ¬ goes s → test s = .ok false) {fuel : Nat} {s : σ} (hs : inv s)
    (hf : m s < fuel) :
    Paints (fun i j => ∃ t, Passes next goes s t ∧ area t i j) c
      (Lib.drawLoop test body step endless fuel s) := by
  induction fuel generalizing s with
  | zero => exact absurd hf (Nat.not_lt_zero _)
  | succ fuel ih =>
    by_cases hg : goes s
    · obtain ⟨ht, hstep, hinv, hlt⟩ := hgo s hs hg
      have hseq := (hbody s hs hg).seq (ih hinv (by omega))
      have hturn : (fun f => body s f >>= Lib.drawLoop test body step endless fuel (next s)) =
          Lib.drawLoop test body step endless (fuel + 1) s := by
        funext f
        rw [drawLoop_succ, ht, hstep]
        rfl
      rw [hturn] at hseq
      refine hseq.congr fun i j => ?_
      constructor
      · rintro (ha | ⟨t, hp, ha⟩)
        · exact ⟨s, .here hg, ha⟩
        · exact ⟨t, .later hg hp, ha⟩
      · rintro ⟨t, hp, ha⟩
        cases hp with
        | here => exact Or.inl ha
        | later _ hp => exact Or.inr ⟨t, hp, ha⟩
    · intro f
      refine ⟨f, ?_, Drawn.none (fun i j ⟨t, hp, _⟩ => ?_) f⟩
      · rw [drawLoop_succ, hleave s hs hg]
        rfl
      · cases hp with
        | here hg' => exact hg hg'
        | later hg' => exact hg hg'

/-- Programs that paint the same area with the same colour do the same. -/
theorem Paints.eq (hm : Paints A c m) (hn : Paints A c n) (f : Picture w h α) : m f = n f := by
  obtain ⟨f', hf', hd⟩ := hm f
  obtain ⟨f'', hf'', hd'⟩ := hn f
  rw [hf', hf'', hd.unique hd']

/-- A program paints one area only. -/
theorem Paints.iff [Nontrivial α] (hm : Paints A c m) (hm' : Paints B c m) (i : Fin w) (j : Fin h) :
    A i j ↔ B i j := by
  obtain ⟨c', hc'⟩ := exists_ne c
  obtain ⟨f', hf', hd⟩ := hm fun _ _ => c'
  obtain ⟨f'', hf'', hd'⟩ := hm' fun _ _ => c'
  obtain rfl : f' = f'' := Except.ok.inj (hf'.symm.trans hf'')
  by_cases ha : A i j
  · refine iff_of_true ha (Classical.byContradiction fun hb => hc' ?_)
    exact ((hd' i j).2 hb).symm.trans ((hd i j).1 ha)
  · refine iff_of_false ha fun hb => hc' ?_
    exact ((hd i j).2 ha).symm.trans ((hd' i j).1 hb)

end Lib
