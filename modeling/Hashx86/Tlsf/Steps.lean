import Hashx86.Tlsf.Index
import Hashx86.Tlsf.Pool

/-!
# Blocks in work

While a call runs, one free block is in no list. `Open s start pre w post stop` is the heap with the
block `w` in work, between `pre` and `post`; `Sound` is the heap between two calls.

* `Open.mergePrev`, `Open.mergeNext`, `Open.trimFree`: the steps that keep a block in work.
* `Sound.markFree`, `Sound.locate`: how a block comes into work.
* `Sound.trimUsed`, `Sound.grow`: how a block in use gets smaller and larger.
* `Open.insert`, `Open.markUsed`: how the work ends.
* `Kept`: what lies in the blocks in use stays.
-/

namespace Hashx86

open Lib

namespace Tlsf

/-- The blocks in use. -/
def used (cs : List Cell) : List Cell := cs.filter fun c => !c.free

/-- No two free blocks are neighbours. -/
def Merged : Bool → List Cell → Prop
  | _, [] => True
  | prev, c :: cs => ¬ (prev = true ∧ c.free = true) ∧ Merged c.free cs

/-- What lies in the blocks stays. -/
def Kept (us : List Cell) (mem mem' : Nat → UInt8) : Prop :=
  ∀ d ∈ us, ∀ x, d.addr + 8 ≤ x → x < d.next + 4 → mem' x = mem x

/-- The blocks are in the pool, and those of `P` in the free lists. -/
structure Working (s : State) (start : Nat) (body : List Cell) (stop : Nat) (P : Cell → Prop) : Prop where
  pool : Pool s.mem start body stop
  index : ∃ lists, Index s lists P
  listed : ∀ c, P c → c ∈ body ∧ c.free = true
  above : s.control + 16 ≤ start

structure Open (s : State) (start : Nat) (pre : List Cell) (w : Cell) (post : List Cell) (stop : Nat) :
    Prop where
  work : Working s start (pre ++ w :: post) stop fun d => (d ∈ pre ∨ d ∈ post) ∧ d.free = true
  free : w.free = true
  before : Merged false pre
  behind : Merged false post

/-- The heap between two calls. -/
structure Sound (s : State) (start : Nat) (body : List Cell) (stop : Nat) : Prop where
  work : Working s start body stop fun d => d ∈ body ∧ d.free = true
  merged : Merged false body

variable {s : State} {mem mem' : Nat → UInt8} {start stop b e : Nat} {c d w p n : Cell}
  {cs body pre mid mid' post us : List Cell} {P : Cell → Prop} {prev : Bool}

/-! ## Lists of blocks -/

@[simp] theorem used_append (xs ys : List Cell) : used (xs ++ ys) = used xs ++ used ys :=
  List.filter_append ..

theorem used_cons_free (h : c.free = true) : used (c :: cs) = used cs := by
  simp [used, h]

theorem used_cons_used (h : c.free = false) : used (c :: cs) = c :: used cs := by
  simp [used, h]

theorem mem_used : c ∈ used cs ↔ c ∈ cs ∧ c.free = false := by
  simp [used]

theorem merged_append : Merged prev (pre ++ post) ↔ Merged prev pre ∧ Merged (lastFree prev pre) post := by
  induction pre generalizing prev with
  | nil => simp [Merged, lastFree]
  | cons c pre ih => simp only [List.cons_append, Merged, lastFree, ih, and_assoc]

theorem Merged.weaken (h : Merged prev cs) : Merged false cs := by
  cases cs with
  | nil => trivial
  | cons c cs => exact ⟨fun hf => Bool.noConfusion hf.1, h.2⟩

theorem Kept.refl (us : List Cell) (mem : Nat → UInt8) : Kept us mem mem := fun _ _ _ _ _ => rfl

theorem Kept.trans {mem₂ : Nat → UInt8} (h : Kept us mem mem') (h' : Kept us mem' mem₂) :
    Kept us mem mem₂ := fun d hd x h1 h2 => (h' d hd x h1 h2).trans (h d hd x h1 h2)

theorem Kept.mono {vs : List Cell} (h : Kept us mem mem') (hs : ∀ d ∈ vs, d ∈ us) : Kept vs mem mem' :=
  fun d hd => h d (hs d hd)

/-- A change between `b + 4` and `e + 8` does not reach the blocks before `b` and from `e` on. -/
theorem Outside.kept (h : Outside mem mem' (b + 4) (e + 8)) (hpre : Tiled start pre b)
    (hpost : Tiled e post stop) : Kept (pre ++ post) mem mem' := by
  intro d hd x h1 h2
  rcases List.mem_append.mp hd with hd | hd
  · have := (hpre.mem_bounds hd).2
    exact h x (.inl (by omega))
  · have := (hpost.mem_bounds hd).1
    exact h x (.inr (by omega))

/-! ## Steps on the free lists -/

theorem Cells.congr_fields (h : Cells mem prev cs)
    (hs : ∀ c ∈ cs, sizeField mem' c.addr = sizeField mem c.addr)
    (hl : ∀ c ∈ cs, c.free = true → prevPhysBlock mem' c.next = prevPhysBlock mem c.next) :
    Cells mem' prev cs := by
  induction cs generalizing prev with
  | nil => trivial
  | cons c cs ih =>
    exact ⟨h.1.congr (hs c List.mem_cons_self) (hl c List.mem_cons_self),
      ih h.2 (fun d hd => hs d (List.mem_cons_of_mem c hd)) fun d hd => hl d (List.mem_cons_of_mem c hd)⟩

/-- The free blocks `P` of the pool, above the control structure. -/
structure Listed (control : Nat) (body : List Cell) (start : Nat) (P : Cell → Prop) : Prop where
  mem : ∀ c, P c → c ∈ body
  free : ∀ c, P c → c.free = true
  above : control + 16 ≤ start

/-- A byte of the pool that is no link of a free block is no link at all. -/
theorem Listed.off_links {control x : Nat} (h : Listed control body start P) (hx : start ≤ x)
    (hd : ∀ d ∈ body, d.free = true → x < d.addr + 8 ∨ d.addr + 16 ≤ x) :
    ∀ y, Node control P y → x < y + 8 ∨ y + 16 ≤ x := by
  have habove := h.above
  rintro y (rfl | ⟨d, hP, rfl⟩)
  · exact .inr (by omega)
  · exact hd d (h.mem d hP) (h.free d hP)

theorem Pool.of_links {control : Nat} (hp : Pool mem start body stop) (h : Listed control body start P)
    (hl : LinksOnly control P mem mem') : Pool mem' start body stop := by
  refine ⟨hp.tiled, hp.sized, hp.cells.congr_fields (fun c hc => ?_) (fun c hc hf => ?_), hp.small, hp.word⟩
  · refine read32_congr fun x h1 h2 => hl x (h.off_links ?_ fun d hd hfree => ?_)
    · rcases List.mem_append.mp hc with hc | hc
      · have := (hp.tiled.mem_bounds hc).1
        omega
      · obtain rfl := List.mem_singleton.mp hc
        have := hp.tiled.le
        unfold last at h1
        dsimp only at h1
        omega
    · have hmin := (hp.sized d hd).min
      rcases List.mem_append.mp hc with hc | hc
      · rcases hp.tiled.apart hc hd with rfl | hcd | hcd
        · omega
        all_goals unfold Cell.next at hcd; omega
      · obtain rfl := List.mem_singleton.mp hc
        have hb := (hp.tiled.mem_bounds hd).2
        unfold Cell.next at hb
        unfold last at h1
        dsimp only at h1
        omega
  · rcases List.mem_append.mp hc with hc | hc
    · have hc12 := (hp.sized c hc).min
      have hlow := (hp.tiled.mem_bounds hc).1
      refine read32_congr fun x h1 h2 => hl x (h.off_links ?_ fun d hd _ => ?_)
      · unfold Cell.next at h1
        omega
      · have hmin := (hp.sized d hd).min
        rcases hp.tiled.apart hc hd with rfl | hcd | hcd
        · unfold Cell.next at h1
          omega
        · omega
        · unfold Cell.next at h1 hcd
          omega
    · obtain rfl := List.mem_singleton.mp hc
      exact Bool.noConfusion hf

theorem Pool.kept_of_links {control : Nat} (hp : Pool mem start body stop)
    (h : Listed control body start P) (hl : LinksOnly control P mem mem') : Kept (used body) mem mem' := by
  intro u hu x h1 h2
  obtain ⟨hu, hused⟩ := mem_used.mp hu
  have hlow := (hp.tiled.mem_bounds hu).1
  refine hl x (h.off_links (by omega) fun d hd hf => ?_)
  have hmin := (hp.sized d hd).min
  rcases hp.tiled.apart hu hd with rfl | hud | hud
  · rw [hused] at hf
    exact Bool.noConfusion hf
  · omega
  · unfold Cell.next at hud
    omega

theorem Working.remove (h : Working s start body stop P) (hc : P c) :
    Working (blockRemove s c.addr) start body stop (fun d => P d ∧ d ≠ c) ∧
      Kept (used body) s.mem (blockRemove s c.addr).mem := by
  obtain ⟨lists, hi⟩ := h.index
  have hcb := (h.listed c hc).1
  obtain ⟨pre, post, rfl⟩ := List.append_of_mem hcb
  have hsize := h.pool.at.blockSize
  obtain ⟨hi', hl, hcontrol⟩ := hi.remove hc (Prod.mk.eta (p := mappingInsert c.size)).symm
  unfold blockRemove
  rw [hsize]
  dsimp only
  have hlisted : Listed s.control (pre ++ c :: post) start P :=
    ⟨fun d hd => (h.listed d hd).1, fun d hd => (h.listed d hd).2, h.above⟩
  refine ⟨⟨h.pool.of_links hlisted hl, hi', fun d hd => h.listed d hd.1, ?_⟩,
    h.pool.kept_of_links hlisted hl⟩
  rw [hcontrol]
  exact h.above

theorem Working.insert (h : Working s start body stop P) (hc : c ∈ body) (hf : c.free = true)
    (hn : ¬ P c) : Working (blockInsert s c.addr) start body stop (fun d => P d ∨ d = c) ∧
      Kept (used body) s.mem (blockInsert s c.addr).mem := by
  obtain ⟨lists, hi⟩ := h.index
  obtain ⟨pre, post, rfl⟩ := List.append_of_mem hc
  have ha := h.pool.at
  have hlow := ha.low
  have habove := h.above
  have hword := ha.word
  have hmin := ha.sized.min
  have hspaced : ∀ d, P d → c.addr + 16 ≤ d.addr ∨ d.addr + 16 ≤ c.addr := fun d hd => by
    have hdb := (h.listed d hd).1
    have hdmin := (h.pool.sized d hdb).min
    rcases h.pool.tiled.apart hc hdb with rfl | hcd | hcd
    · exact absurd hd hn
    all_goals unfold Cell.next at hcd; omega
  have hnext : c.addr < 2 ^ 32 := by
    unfold Cell.next at hword
    omega
  obtain ⟨hi', hl, hcontrol⟩ := hi.insert ha.sized (Prod.mk.eta (p := mappingInsert c.size)).symm hspaced
    (by omega) hnext
  have hlisted : Listed s.control (pre ++ c :: post) start fun d => P d ∨ d = c :=
    ⟨fun d hd => hd.elim (fun hd => (h.listed d hd).1) fun he => he ▸ hc,
      fun d hd => hd.elim (fun hd => (h.listed d hd).2) fun he => he ▸ hf, habove⟩
  unfold blockInsert
  rw [ha.blockSize]
  dsimp only
  refine ⟨⟨h.pool.of_links hlisted hl, hi', fun d hd => ⟨hlisted.mem d hd, hlisted.free d hd⟩, ?_⟩,
    h.pool.kept_of_links hlisted hl⟩
  rw [hcontrol]
  exact habove

/-! ## Steps on the headers -/

/-- A change of the memory off the links of the free blocks. -/
theorem Index.congr_mem {lists : Nat → Nat → List Nat} (h : Index s lists P)
    (hm : ∀ y, Node s.control P y → ∀ x, y + 8 ≤ x → x < y + 16 → mem' x = s.mem x) :
    Index { s with mem := mem' } lists P := by
  refine ⟨fun fl sl => (h.linked fl sl).congr fun y hy => ?_, h.nodup, h.mem_iff, h.slBit, h.flBit, h.apart,
    h.above, h.addr, h.control, h.sized⟩
  have hy := h.node_of_mem hy
  exact ⟨read32_congr fun x h1 h2 => hm y hy x (by omega) (by omega),
    read32_congr fun x h1 h2 => hm y hy x (by omega) (by omega)⟩

/-- A change of headers between blocks that no list holds. -/
theorem Working.change (h : Working s start body stop P) {body' : List Cell}
    (hpool : Pool mem' start body' stop) (hout : Outside s.mem mem' (b + 4) (e + 8)) (hb : start ≤ b)
    (hP : ∀ d, P d → d ∈ body' ∧ (d.addr + 16 ≤ b ∨ e ≤ d.addr)) :
    Working { s with mem := mem' } start body' stop P := by
  obtain ⟨lists, hi⟩ := h.index
  have habove := h.above
  refine ⟨hpool, ⟨lists, hi.congr_mem ?_⟩, fun d hd => ⟨(hP d hd).1, (h.listed d hd).2⟩, habove⟩
  rintro y (rfl | ⟨d, hd, rfl⟩) x h1 h2
  · exact hout x (.inl (by omega))
  · rcases (hP d hd).2 with hlt | hlt
    · exact hout x (.inl (by omega))
    · exact hout x (.inr (by omega))

/-- Where the other blocks of a pool lie. -/
theorem At.others (h : At mem start pre c post stop) (hp : Pool mem start (pre ++ c :: post) stop)
    (hd : d ∈ pre ∨ d ∈ post) : d.addr + 16 ≤ c.addr ∨ c.next ≤ d.addr := by
  rcases hd with hd | hd
  · have hmin := (hp.sized d (List.mem_append_left _ hd)).min
    have := (h.before.mem_bounds hd).2
    unfold Cell.next at this
    exact .inl (by omega)
  · exact .inr (h.behind.mem_bounds hd).1

/-- The two parts of a pool around a block and what is used in them. -/
theorem used_around : ∀ d ∈ used pre ++ used post, d ∈ pre ++ post := fun d hd => by
  rcases List.mem_append.mp hd with hd | hd
  · exact List.mem_append_left _ (mem_used.mp hd).1
  · exact List.mem_append_right _ (mem_used.mp hd).1

theorem Working.congr {Q : Cell → Prop} (h : Working s start body stop P) (hPQ : ∀ c, P c ↔ Q c) :
    Working s start body stop Q := by
  have heq : P = Q := funext fun c => propext (hPQ c)
  exact heq ▸ h

theorem mem_around (hd : d ∈ pre ∨ d ∈ post) : d ∈ pre ++ c :: post :=
  hd.elim (List.mem_append_left _) fun hd => List.mem_append_right _ (List.mem_cons_of_mem _ hd)

/-- The free blocks around a block in use. -/
theorem around_free (hc : c.free = false) (hd : d ∈ pre ++ c :: post ∧ d.free = true) : d ∈ pre ∨ d ∈ post := by
  rcases List.mem_append.mp hd.1 with hmem | hmem
  · exact .inl hmem
  · rcases List.mem_cons.mp hmem with rfl | hmem
    · rw [hc] at hd
      exact Bool.noConfusion hd.2
    · exact .inr hmem

/-- The block that a call frees comes into work. -/
theorem Sound.markFree (h : Sound s start (pre ++ c :: post) stop) (hc : c.free = false) :
    Open { s with mem := blockMarkAsFree s.mem c.addr } start pre { c with free := true } post stop ∧
      Kept (used pre ++ used post) s.mem (blockMarkAsFree s.mem c.addr) := by
  have hp := h.work.pool
  have ha := hp.at
  obtain ⟨hpool, hout⟩ := hp.markFree
  obtain ⟨hm1, -, hm2⟩ := merged_append.mp h.merged
  have hw := h.work.change hpool hout ha.low fun d hd =>
    ⟨mem_around (around_free hc hd), ha.others hp (around_free hc hd)⟩
  exact ⟨⟨hw.congr fun d => ⟨fun hd => ⟨around_free hc hd, hd.2⟩, fun hd => ⟨mem_around hd.1, hd.2⟩⟩, rfl, hm1,
    hm2.weaken⟩, (hout.kept ha.before ha.behind).mono used_around⟩

theorem not_mem_around (h : Tiled start (pre ++ c :: post) stop) : c ∉ pre ∧ c ∉ post := by
  have hn := (List.nodup_cons.mp (List.nodup_middle.mp h.nodup)).1
  exact ⟨fun hc => hn (List.mem_append_left _ hc), fun hc => hn (List.mem_append_right _ hc)⟩

/-- A free block in no list takes in the free block behind it. -/
theorem Working.absorb
    (h : Working s start (pre ++ p :: c :: post) stop fun d => (d ∈ pre ∨ d ∈ post) ∧ d.free = true)
    (hp : p.free = true) (hc : c.free = true) (hm : Merged false pre) (hm' : Merged false post) :
    Open { s with mem := blockAbsorb s.mem p.addr c.addr } start pre
        ⟨p.addr, p.size + (c.size + 4), true⟩ post stop ∧
      Kept (used pre ++ used post) s.mem (blockAbsorb s.mem p.addr c.addr) := by
  have hap := h.pool.at
  have hac : At s.mem start (pre ++ [p]) c post stop := by
    have hpool := h.pool
    rw [List.append_cons] at hpool
    exact hpool.at
  obtain ⟨hpool, hout⟩ := h.pool.absorb hp hc
  refine ⟨⟨h.change hpool hout hap.low fun d hd => ⟨mem_around hd.1, ?_⟩, rfl, hm, hm'⟩,
    (hout.kept hap.before hac.behind).mono used_around⟩
  rcases hd.1 with hd | hd
  · have hmin := (h.pool.sized d (List.mem_append_left _ hd)).min
    have := (hap.before.mem_bounds hd).2
    unfold Cell.next at this
    exact .inl (by omega)
  · exact .inr (hac.behind.mem_bounds hd).1

theorem Open.mergePrev (h : Open s start pre w post stop) : ∃ pre' w',
    Open (blockMergePrev s w.addr).2 start pre' w' post stop ∧ (blockMergePrev s w.addr).1 = w'.addr ∧
      used pre' = used pre ∧ lastFree false pre' = false ∧
      Kept (used pre ++ used post) s.mem (blockMergePrev s w.addr).2.mem := by
  have ha := h.work.pool.at
  have hprev := blockIsPrevFree_of_word ha.holds.size ha.sized.words
  unfold blockMergePrev
  rw [hprev]
  rcases List.eq_nil_or_concat pre with rfl | ⟨pre', p, rfl⟩
  · exact ⟨[], w, h, rfl, rfl, rfl, .refl _ _⟩
  · rw [List.concat_eq_append] at h ha ⊢
    rw [lastFree_append_singleton]
    obtain ⟨hm, hmp, -⟩ := merged_append.mp h.before
    cases hp : p.free with
    | false =>
      refine ⟨pre' ++ [p], w, h, rfl, rfl, ?_, .refl _ _⟩
      rw [lastFree_append_singleton, hp]
    | true =>
      have happ : pre' ++ [p] ++ w :: post = pre' ++ p :: w :: post := by simp
      have hwork := h.work
      rw [happ] at hwork
      have hap := hwork.pool.at
      have hlink : blockPrev s.mem w.addr = p.addr := by
        have hnext : w.addr = p.next := hap.behind.1
        rw [hnext]
        exact hap.holds.link hp
      rw [if_pos rfl]
      dsimp only
      rw [hlink]
      obtain ⟨hrem, hk⟩ := hwork.remove (c := p)
        ⟨.inl (List.mem_append_right _ List.mem_cons_self), hp⟩
      have hnot := not_mem_around hwork.pool.tiled
      have hrem' := hrem.congr (Q := fun d => (d ∈ pre' ∨ d ∈ post) ∧ d.free = true) fun d => by
        constructor
        · rintro ⟨⟨hd | hd, hf⟩, hne⟩
          · rcases List.mem_append.mp hd with hd | hd
            · exact ⟨.inl hd, hf⟩
            · exact absurd (List.mem_singleton.mp hd) hne
          · exact ⟨.inr hd, hf⟩
        · rintro ⟨hd | hd, hf⟩
          · exact ⟨⟨.inl (List.mem_append_left _ hd), hf⟩, fun he => hnot.1 (he ▸ hd)⟩
          · exact ⟨⟨.inr hd, hf⟩, fun he => hnot.2 (he ▸ List.mem_cons_of_mem w hd)⟩
      obtain ⟨hopen, hk'⟩ := hrem'.absorb hp h.free hm h.behind
      have hused : used (pre' ++ [p]) = used pre' := by
        rw [used_append, used_cons_free hp]
        exact List.append_nil _
      have hbody : used (pre' ++ p :: w :: post) = used pre' ++ used post := by
        rw [used_append, used_cons_free hp, used_cons_free h.free]
      rw [hused]
      rw [hbody] at hk
      refine ⟨pre', _, hopen, rfl, rfl, ?_, hk.trans hk'⟩
      cases hl : lastFree false pre' with
      | false => rfl
      | true => exact absurd ⟨hl, hp⟩ hmp

theorem Open.mergeNext (h : Open s start pre w post stop) : ∃ w' post',
    Open (blockMergeNext s w.addr) start pre w' post' stop ∧ w'.addr = w.addr ∧ w.size ≤ w'.size ∧
      used post' = used post ∧ Merged true post' ∧
      Kept (used pre ++ used post) s.mem (blockMergeNext s w.addr).mem := by
  have ha := h.work.pool.at
  have hn := ha.next.size
  rw [ha.nextAddr] at hn
  have hfree := blockIsFree_of_word hn ha.nextWords
  unfold blockMergeNext
  dsimp only
  rw [ha.blockNext, hfree]
  cases post with
  | nil => exact ⟨w, [], h, rfl, Nat.le_refl _, rfl, trivial, .refl _ _⟩
  | cons n post =>
    have hf : (following (n :: post) stop).free = n.free := rfl
    rw [hf]
    cases hnf : n.free with
    | false =>
      refine ⟨w, n :: post, h, rfl, Nat.le_refl _, rfl, ⟨fun hm => ?_, h.behind.2⟩, .refl _ _⟩
      rw [hnf] at hm
      exact Bool.noConfusion hm.2
    | true =>
      rw [if_pos rfl]
      have hnaddr : w.next = n.addr := ha.behind.1.symm
      rw [hnaddr]
      obtain ⟨hrem, hk⟩ := h.work.remove (c := n) ⟨.inr List.mem_cons_self, hnf⟩
      have happ : pre ++ w :: n :: post = (pre ++ [w]) ++ n :: post := by simp
      have hnot := not_mem_around (happ ▸ h.work.pool.tiled)
      have hrem' := hrem.congr (Q := fun d => (d ∈ pre ∨ d ∈ post) ∧ d.free = true) fun d => by
        constructor
        · rintro ⟨⟨hd | hd, hf⟩, hne⟩
          · exact ⟨.inl hd, hf⟩
          · rcases List.mem_cons.mp hd with hd | hd
            · exact absurd hd hne
            · exact ⟨.inr hd, hf⟩
        · rintro ⟨hd | hd, hf⟩
          · exact ⟨⟨.inl hd, hf⟩, fun he => hnot.1 (he ▸ List.mem_append_left _ hd)⟩
          · exact ⟨⟨.inr (List.mem_cons_of_mem n hd), hf⟩, fun he => hnot.2 (he ▸ hd)⟩
      obtain ⟨hm1, hm2⟩ := h.behind
      rw [hnf] at hm2
      obtain ⟨hopen, hk'⟩ := hrem'.absorb h.free hnf h.before hm2.weaken
      have hbody : used (pre ++ w :: n :: post) = used pre ++ used post := by
        rw [used_append, used_cons_free h.free, used_cons_free hnf]
      rw [hbody] at hk
      rw [used_cons_free hnf]
      exact ⟨_, post, hopen, rfl, Nat.le_add_right _ _, rfl, hm2, hk.trans hk'⟩

/-- The block in work goes into the free lists. -/
theorem Open.insert (h : Open s start pre w post stop) (hpre : lastFree false pre = false)
    (hpost : Merged true post) : Sound (blockInsert s w.addr) start (pre ++ w :: post) stop ∧
      Kept (used pre ++ used post) s.mem (blockInsert s w.addr).mem := by
  have hnot := not_mem_around h.work.pool.tiled
  obtain ⟨hins, hk⟩ := h.work.insert (List.mem_append_right _ List.mem_cons_self) h.free fun hP =>
    hP.1.elim hnot.1 hnot.2
  have hbody : used (pre ++ w :: post) = used pre ++ used post := by
    rw [used_append, used_cons_free h.free]
  rw [hbody] at hk
  refine ⟨⟨hins.congr fun d => ?_, merged_append.mpr ⟨h.before, fun hm => ?_, ?_⟩⟩, hk⟩
  · constructor
    · rintro (⟨hd, hf⟩ | rfl)
      · exact ⟨mem_around hd, hf⟩
      · exact ⟨List.mem_append_right _ List.mem_cons_self, h.free⟩
    · rintro ⟨hd, hf⟩
      rcases List.mem_append.mp hd with hd | hd
      · exact .inl ⟨.inl hd, hf⟩
      · rcases List.mem_cons.mp hd with hd | hd
        · exact .inr hd
        · exact .inl ⟨.inr hd, hf⟩
  · rw [hpre] at hm
    exact Bool.noConfusion hm.1
  · rw [h.free]
    exact hpost

/-- The block in work is given to the caller. -/
theorem Open.markUsed (h : Open s start pre w post stop) :
    Sound { s with mem := blockMarkAsUsed s.mem w.addr } start
        (pre ++ { w with free := false } :: post) stop ∧
      Kept (used pre ++ used post) s.mem (blockMarkAsUsed s.mem w.addr) := by
  have hp := h.work.pool
  have ha := hp.at
  obtain ⟨hpool, hout⟩ := hp.markUsed
  have hw := h.work.change hpool hout ha.low fun d hd => ⟨mem_around hd.1, ha.others hp hd.1⟩
  exact ⟨⟨hw.congr fun d => ⟨fun hd => ⟨mem_around hd.1, hd.2⟩, fun hd => ⟨around_free rfl hd, hd.2⟩⟩,
    merged_append.mpr ⟨h.before, fun hm => Bool.noConfusion hm.2, h.behind⟩⟩,
    (hout.kept ha.before ha.behind).mono used_around⟩

/-- What a block is too large by becomes a free block of its own. -/
theorem Open.trimFree {size : Nat} (h : Open s start pre w post stop) (h12 : 12 ≤ size)
    (h4 : size % 4 = 0) (hle : size ≤ w.size) (hpost : Merged true post) : ∃ w' post',
    Open (blockTrimFree s w.addr size) start pre w' post' stop ∧ w'.addr = w.addr ∧ size ≤ w'.size ∧
      used post' = used post ∧
      Kept (used pre ++ used post) s.mem (blockTrimFree s w.addr size).mem := by
  have hp := h.work.pool
  have ha := hp.at
  have hword := ha.word
  unfold blockTrimFree blockCanSplit
  rw [ha.blockSize]
  by_cases hfit : headerSize + size ≤ w.size
  · rw [if_pos (decide_eq_true hfit)]
    obtain ⟨h1, h2, -, hsplit⟩ := hp.split h12 h4 hfit
    rw [h.free] at hsplit
    unfold headerSize at hfit
    dsimp only
    unfold blockLinkNext
    rw [h1, h2]
    generalize (blockSplit s.mem w.addr size).2 = m at *
    unfold Cell.next at hword
    have hr4 : (w.size - (size + 4)) % 4 = 0 := by
      have := ha.sized.words
      omega
    have hr30 : w.size - (size + 4) < 2 ^ 30 := by
      have := ha.sized.max
      omega
    obtain ⟨hpool, hout⟩ := hsplit
      (blockSetPrevFree (setPrevPhysBlock m (w.addr + size + 4) w.addr) (w.addr + size + 4))
      (fun x hx => by
        unfold blockSetPrevFree
        rw [setSizeField_of_out (by omega), setPrevPhysBlock_of_out (by omega)])
      (fun _ => by
        unfold blockSetPrevFree
        rw [prevPhysBlock_setSizeField (.inl (Nat.le_refl _)), prevPhysBlock_setPrevPhysBlock (by omega)])
      (fun f q hs => setPrevFree_word (by rw [sizeField_setPrevPhysBlock_self, hs]) hr4 hr30)
    generalize blockSetPrevFree (setPrevPhysBlock m (w.addr + size + 4) w.addr) (w.addr + size + 4) = m' at *
    have hw := h.work.change hpool hout ha.low fun d hd =>
      ⟨hd.1.elim (fun hd => List.mem_append_left _ hd) fun hd => List.mem_append_right _
        (List.mem_cons_of_mem _ (List.mem_cons_of_mem _ hd)), ha.others hp hd.1⟩
    have happ : pre ++ ⟨w.addr, size, true⟩ :: ⟨w.addr + size + 4, w.size - (size + 4), true⟩ :: post =
        (pre ++ [⟨w.addr, size, true⟩]) ++ ⟨w.addr + size + 4, w.size - (size + 4), true⟩ :: post := by simp
    have hnot := not_mem_around (happ ▸ hpool.tiled)
    have hmem : (⟨w.addr + size + 4, w.size - (size + 4), true⟩ : Cell) ∈
        pre ++ ⟨w.addr, size, true⟩ :: ⟨w.addr + size + 4, w.size - (size + 4), true⟩ :: post :=
      List.mem_append_right _ (List.mem_cons_of_mem _ List.mem_cons_self)
    obtain ⟨hins, hk⟩ := hw.insert hmem rfl fun hP =>
      hP.1.elim (fun hd => hnot.1 (List.mem_append_left _ hd)) hnot.2
    have hbody : used (pre ++ ⟨w.addr, size, true⟩ ::
        ⟨w.addr + size + 4, w.size - (size + 4), true⟩ :: post) = used pre ++ used post := by
      rw [used_append, used_cons_free rfl, used_cons_free rfl]
    rw [hbody] at hk
    refine ⟨⟨w.addr, size, true⟩, ⟨w.addr + size + 4, w.size - (size + 4), true⟩ :: post,
      ⟨hins.congr fun d => ?_, rfl, h.before, fun hm => Bool.noConfusion hm.1, hpost⟩, rfl, Nat.le_refl _,
      used_cons_free rfl, ((hout.kept ha.before ha.behind).mono used_around).trans hk⟩
    constructor
    · rintro (⟨hd | hd, hf⟩ | rfl)
      · exact ⟨.inl hd, hf⟩
      · exact ⟨.inr (List.mem_cons_of_mem _ hd), hf⟩
      · exact ⟨.inr List.mem_cons_self, rfl⟩
    · rintro ⟨hd | hd, hf⟩
      · exact .inl ⟨.inl hd, hf⟩
      · rcases List.mem_cons.mp hd with hd | hd
        · exact .inr hd
        · exact .inl ⟨.inr hd, hf⟩
  · rw [if_neg (by simpa using hfit)]
    exact ⟨w, post, h, rfl, hle, rfl, .refl _ _⟩

/-- What a block in use is too large by becomes free. -/
theorem Sound.trimUsed {size : Nat} (h : Sound s start (pre ++ c :: post) stop) (hc : c.free = false)
    (h12 : 12 ≤ size) (h4 : size % 4 = 0) (hle : size ≤ c.size) : ∃ d body',
    Sound (blockTrimUsed s c.addr size) start body' stop ∧ d.addr = c.addr ∧ size ≤ d.size ∧
      used body' = used pre ++ d :: used post ∧
      Kept (used pre ++ used post) s.mem (blockTrimUsed s c.addr size).mem ∧
      ∀ x, c.addr + 8 ≤ x → x < c.addr + size + 8 → (blockTrimUsed s c.addr size).mem x = s.mem x := by
  have hp := h.work.pool
  have ha := hp.at
  have hword := ha.word
  unfold blockTrimUsed blockCanSplit
  rw [ha.blockSize]
  by_cases hfit : headerSize + size ≤ c.size
  · rw [if_pos (decide_eq_true hfit)]
    obtain ⟨h1, -, hdata, hsplit⟩ := hp.split h12 h4 hfit
    rw [hc] at hsplit
    unfold headerSize at hfit
    dsimp only
    rw [h1]
    generalize (blockSplit s.mem c.addr size).2 = m at *
    unfold Cell.next at hword
    have hr4 : (c.size - (size + 4)) % 4 = 0 := by
      have := ha.sized.words
      omega
    have hr30 : c.size - (size + 4) < 2 ^ 30 := by
      have := ha.sized.max
      omega
    obtain ⟨hpool, hout⟩ := hsplit (blockSetPrevUsed m (c.addr + size + 4))
      (fun x hx => setSizeField_of_out (by omega)) (fun hf => Bool.noConfusion hf)
      (fun f q hs => setPrevUsed_word hs hr4 hr30)
    have hdata' : ∀ x, c.addr + 8 ≤ x → x < c.addr + size + 8 →
        blockSetPrevUsed m (c.addr + size + 4) x = s.mem x := fun x h1 h2 =>
      (setSizeField_of_out (by omega)).trans (hdata x h1 h2)
    generalize blockSetPrevUsed m (c.addr + size + 4) = m' at *
    have hw := h.work.change hpool hout ha.low fun d hd =>
      ⟨(around_free hc hd).elim (fun hd => List.mem_append_left _ hd) fun hd => List.mem_append_right _
        (List.mem_cons_of_mem _ (List.mem_cons_of_mem _ hd)), ha.others hp (around_free hc hd)⟩
    have happ : pre ++ ⟨c.addr, size, false⟩ :: ⟨c.addr + size + 4, c.size - (size + 4), true⟩ :: post =
        (pre ++ [⟨c.addr, size, false⟩]) ++ ⟨c.addr + size + 4, c.size - (size + 4), true⟩ :: post := by simp
    rw [happ] at hw
    obtain ⟨hm1, -, hm2⟩ := merged_append.mp h.merged
    rw [hc] at hm2
    have hopen : Open { s with mem := m' } start (pre ++ [⟨c.addr, size, false⟩])
        ⟨c.addr + size + 4, c.size - (size + 4), true⟩ post stop := by
      refine ⟨hw.congr fun d => ?_, rfl,
        merged_append.mpr ⟨hm1, fun hm => Bool.noConfusion hm.2, trivial⟩, hm2⟩
      constructor
      · intro hd
        exact ⟨(around_free hc hd).imp_left (List.mem_append_left _), hd.2⟩
      · rintro ⟨hd | hd, hf⟩
        · rcases List.mem_append.mp hd with hd | hd
          · exact ⟨List.mem_append_left _ hd, hf⟩
          · obtain rfl := List.mem_singleton.mp hd
            exact Bool.noConfusion hf
        · exact ⟨List.mem_append_right _ (List.mem_cons_of_mem _ hd), hf⟩
    obtain ⟨w', post', hopen', haddr', -, hused', hpost', hk'⟩ := hopen.mergeNext
    have hlast : lastFree false (pre ++ [(⟨c.addr, size, false⟩ : Cell)]) = false :=
      lastFree_append_singleton _ _ _
    obtain ⟨hsound, hk''⟩ := hopen'.insert hlast hpost'
    rw [haddr'] at hsound hk''
    rw [hused'] at hk''
    have hpre : used (pre ++ [(⟨c.addr, size, false⟩ : Cell)]) = used pre ++ [⟨c.addr, size, false⟩] := by
      rw [used_append, used_cons_used rfl]
      rfl
    have hkept := hk'.trans hk''
    rw [hpre] at hkept
    refine ⟨⟨c.addr, size, false⟩, _, hsound, rfl, Nat.le_refl _, ?_, ?_, fun x h1 h2 => ?_⟩
    · rw [used_append, used_cons_free hopen'.free, hpre, hused', List.append_assoc]
      rfl
    · refine ((hout.kept ha.before ha.behind).mono used_around).trans (hkept.mono fun d hd => ?_)
      rcases List.mem_append.mp hd with hd | hd
      · exact List.mem_append_left _ (List.mem_append_left _ hd)
      · exact List.mem_append_right _ hd
    · refine (hkept ⟨c.addr, size, false⟩ ?_ x h1 ?_).trans (hdata' x h1 h2)
      · exact List.mem_append_left _ (List.mem_append_right _ List.mem_cons_self)
      · unfold Cell.next
        dsimp only
        omega
  · rw [if_neg (by simpa using hfit)]
    refine ⟨c, _, h, rfl, hle, ?_, .refl _ _, fun _ _ _ => rfl⟩
    rw [used_append, used_cons_used hc]

/-- A block in use takes in the free block behind it. -/
theorem Sound.grow (h : Sound s start (pre ++ c :: n :: post) stop) (hc : c.free = false)
    (hn : n.free = true) :
    Sound { blockMergeNext s c.addr with mem := blockMarkAsUsed (blockMergeNext s c.addr).mem c.addr } start
        (pre ++ ⟨c.addr, c.size + (n.size + 4), false⟩ :: post) stop ∧
      Kept (used pre ++ c :: used post) s.mem (blockMarkAsUsed (blockMergeNext s c.addr).mem c.addr) := by
  have ha := h.work.pool.at
  have hfol := ha.next.size
  rw [ha.nextAddr] at hfol
  have hfree := blockIsFree_of_word hfol ha.nextWords
  have hnaddr : c.next = n.addr := ha.behind.1.symm
  have hfn : (following (n :: post) stop).free = true := hn
  unfold blockMergeNext
  dsimp only
  rw [ha.blockNext, hfree, hfn, if_pos rfl, hnaddr]
  have hnbody : n ∈ pre ++ c :: n :: post := List.mem_append_right _ (List.mem_cons_of_mem _ List.mem_cons_self)
  obtain ⟨hrem, hk⟩ := h.work.remove (c := n) ⟨hnbody, hn⟩
  have hbody : used (pre ++ c :: n :: post) = used pre ++ c :: used post := by
    rw [used_append, used_cons_used hc, used_cons_free hn]
  rw [hbody] at hk
  have hac := hrem.pool.at
  have han : At (blockRemove s n.addr).mem start (pre ++ [c]) n post stop := by
    have hpool := hrem.pool
    rw [List.append_cons] at hpool
    exact hpool.at
  have hcmin := hac.sized.min
  have hnmin := han.sized.min
  obtain ⟨hpool, hsame⟩ := hrem.pool.grow hc hn
  have hmem : ∀ d, (d ∈ pre ++ c :: n :: post ∧ d.free = true) ∧ d ≠ n → d ∈ pre ∨ d ∈ post := by
    rintro d ⟨hd, hne⟩
    rcases around_free hc hd with hd | hd
    · exact .inl hd
    · exact .inr ((List.mem_cons.mp hd).resolve_left hne)
  have hout : Outside (blockRemove s n.addr).mem
      (blockMarkAsUsed (blockAbsorb (blockRemove s n.addr).mem c.addr n.addr) c.addr) (c.addr + 4)
      (n.next + 8) := fun x hx => hsame x (by omega)
  have hnot : n ∉ pre ∧ n ∉ post := by
    have happ : pre ++ c :: n :: post = (pre ++ [c]) ++ n :: post := by simp
    have hnot := not_mem_around (happ ▸ h.work.pool.tiled)
    exact ⟨fun hd => hnot.1 (List.mem_append_left _ hd), hnot.2⟩
  have hw := hrem.change hpool hout hac.low fun d hd => ⟨mem_around (hmem d hd), by
    rcases hmem d hd with hd | hd
    · have hmin := (hrem.pool.sized d (List.mem_append_left _ hd)).min
      have := (hac.before.mem_bounds hd).2
      unfold Cell.next at this
      exact .inl (by omega)
    · exact .inr (han.behind.mem_bounds hd).1⟩
  obtain ⟨hm1, -, -, hm2⟩ := merged_append.mp h.merged
  refine ⟨⟨hw.congr fun d => ?_, merged_append.mpr ⟨hm1, fun hm => Bool.noConfusion hm.2, hm2.weaken⟩⟩,
    hk.trans fun d hd x h1 h2 => hsame x ?_⟩
  · constructor
    · exact fun hd => ⟨mem_around (hmem d hd), hd.1.2⟩
    · intro hd
      have hd' := around_free rfl hd
      refine ⟨⟨?_, hd.2⟩, ?_⟩
      · exact hd'.elim (List.mem_append_left _) fun hd => List.mem_append_right _
          (List.mem_cons_of_mem _ (List.mem_cons_of_mem _ hd))
      · rintro rfl
        exact hd'.elim hnot.1 hnot.2
  · have hcn : c.next + 16 ≤ n.next := by
      unfold Cell.next at hnaddr ⊢
      omega
    rcases List.mem_append.mp hd with hd | hd
    · have := (hac.before.mem_bounds (mem_used.mp hd).1).2
      exact .inl (by omega)
    · rcases List.mem_cons.mp hd with rfl | hd
      · exact .inr (.inl (by omega))
      · have := (han.behind.mem_bounds (mem_used.mp hd).1).1
        exact .inr (.inr (by omega))

/-- The search for a free block. Where it fails, no free block reaches the class of the request. -/
theorem Sound.locate {size : Nat} (h : Sound s start body stop) (h0 : size ≠ 0) (h4 : size % 4 = 0) :
    (blockLocateFree s size = (none, s) ∧
      ∀ c ∈ body, c.free = true → c.size < lower (mappingSearch size)) ∨
    ∃ pre w post, body = pre ++ w :: post ∧ (blockLocateFree s size).1 = some w.addr ∧ size ≤ w.size ∧
      Open (blockLocateFree s size).2 start pre w post stop ∧ lastFree false pre = false ∧
      Merged true post ∧ Kept (used pre ++ used post) s.mem (blockLocateFree s size).2.mem := by
  obtain ⟨lists, hi⟩ := h.work.index
  obtain ⟨hsl, -, -⟩ := lower_mappingSearch h4
  have hsmall : ∀ c : Cell, Below (mappingInsert c.size) (mappingSearch size) →
      c.size < lower (mappingSearch size) :=
    fun c hb => Nat.lt_of_not_le fun hle => (lower_le_iff hsl).mp hle hb
  unfold blockLocateFree
  rw [if_neg h0]
  dsimp only
  by_cases hfl : (mappingSearch size).1 < flIndexCount
  · rw [if_pos hfl]
    cases hs : searchSuitableBlock s (mappingSearch size).1 (mappingSearch size).2 with
    | none => exact .inl ⟨rfl, fun c hc hf => hsmall c (hi.search_none hs ⟨hc, hf⟩)⟩
    | some r =>
      obtain ⟨block, fl, sl⟩ := r
      obtain ⟨w, hP, rfl, hmap, hnot⟩ := hi.search_some hs
      obtain ⟨pre, post, rfl⟩ := List.append_of_mem hP.1
      have ha := h.work.pool.at
      have hrem := h.work.remove hP
      have hsame : blockRemove s w.addr = removeFreeBlock s w.addr fl sl := by
        unfold blockRemove
        rw [ha.blockSize, hmap]
      rw [hsame] at hrem
      have hle : size ≤ w.size := le_of_not_below h4 (by rw [hmap]; exact hnot)
      have hn := not_mem_around h.work.pool.tiled
      obtain ⟨hm1, hm, hm2⟩ := merged_append.mp h.merged
      rw [hP.2] at hm2
      have hbody : used (pre ++ w :: post) = used pre ++ used post := by
        rw [used_append, used_cons_free hP.2]
      rw [hbody] at hrem
      refine .inr ⟨pre, w, post, rfl, rfl, hle, ⟨hrem.1.congr fun d => ?_, hP.2, hm1, hm2.weaken⟩,
        Bool.eq_false_iff.mpr fun hl => hm ⟨hl, hP.2⟩, hm2, hrem.2⟩
      constructor
      · rintro ⟨⟨hd, hf⟩, hne⟩
        rcases List.mem_append.mp hd with hd | hd
        · exact ⟨.inl hd, hf⟩
        · rcases List.mem_cons.mp hd with hd | hd
          · exact absurd hd hne
          · exact ⟨.inr hd, hf⟩
      · rintro ⟨hd, hf⟩
        refine ⟨⟨mem_around hd, hf⟩, ?_⟩
        rintro rfl
        exact hd.elim hn.1 hn.2
  · rw [if_neg hfl]
    refine .inl ⟨rfl, fun c hc _ => hsmall c (.inl ?_)⟩
    have := mappingInsert_fl (h.work.pool.sized c hc).max
    omega

end Tlsf
end Hashx86
