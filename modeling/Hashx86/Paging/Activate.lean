import Hashx86.Paging.Directories

/-!
# The kernel's page directory (`Paging::Activate`)

`activate` builds the directory that all others share: the low 256 MB and the last gigabyte are
mapped to themselves. `none` is a machine that halts because it is out of frames.

* `KernelMap m table`: the tables of the kernel directory are frames of their own, and the other
  entries of the directory are empty.
* `Identity m table`: every page of the tables is mapped to itself.
* `activate_spec`: `activate` establishes both, and what the directories of the processes rely on
  (`Active`).
-/

namespace Hashx86
namespace Paging

open Lib Pmm

/-! ## The code -/

/-- `phys_addr | PAGE_PRESENT | PAGE_RW` for page `j` of table `i`. -/
def identityEntry (i j : Nat) : Nat := (i * 1024 + j) * 4096 ||| (pagePresent ||| pageRW)

/-- The inner loops of `Activate`: entries `j..` of table `i`, `n` of them left. -/
def fillTable (m : Machine) (table i : Nat) : (n j : Nat) → Machine
  | 0, _ => m
  | n + 1, j => fillTable (m.setEntry table j (identityEntry i j)) table i n (j + 1)

/-- The outer loops of `Activate`: directory entries `i..`, `n` of them left. -/
def mapTables (m : Machine) (directory : Nat) : (n i : Nat) → Option Machine
  | 0, _ => some m
  | n + 1, i =>
    let (table, m) := m.allocBlockLow
    if table = 0 then none
    else
      let m := fillTable (m.zero table 4096) table i 1024 0
      mapTables (m.setEntry directory i (table ||| (pagePresent ||| pageRW))) directory n (i + 1)

/-- `Activate`. -/
def activate (m : Machine) : Option Machine :=
  let (directory, m) := m.allocBlockLow
  if directory = 0 ∨ directory % 4096 ≠ 0 then none
  else
    let m := { m with kernelPageDirectory := directory }.zero directory 4096
    match mapTables m directory 64 0 with
    | none => none
    | some m => mapTables m directory 256 768

/-! ## What it builds -/

/-- Entry `i` of the kernel directory leads to the frame `table i`, where the kernel has a table. -/
structure KernelMap (m : Machine) (table : Nat → Nat) : Prop where
  dir : m.kernelPageDirectory ≠ 0 ∧ m.kernelPageDirectory % 4096 = 0
  entry : ∀ i < 1024, kernelIdx i →
    m.entry m.kernelPageDirectory i = table i ||| (pagePresent ||| pageRW)
  aligned : ∀ i < 1024, kernelIdx i → table i % 4096 = 0
  notDir : ∀ i < 1024, kernelIdx i → table i ≠ m.kernelPageDirectory
  inj : ∀ i < 1024, kernelIdx i → ∀ k < 1024, kernelIdx k → table i = table k → i = k
  empty : ∀ i < 1024, kernelIdx i = false → m.entry m.kernelPageDirectory i = 0

/-- The pages of the kernel's tables are mapped to themselves. -/
def Identity (m : Machine) (table : Nat → Nat) : Prop :=
  ∀ i < 1024, kernelIdx i → ∀ j < 1024, m.entry (table i) j = identityEntry i j

theorem identityEntry_spec {i : Nat} (j : Nat) (hi : i < 1024) (hj : j < 1024) :
    identityEntry i j < 2 ^ 32 ∧ present (identityEntry i j) = true ∧
      frameAddr (identityEntry i j) = (i * 1024 + j) * 4096 := by
  have hmod : (i * 1024 + j) * 4096 % 4096 = 0 := Nat.mul_mod_left _ _
  refine ⟨Nat.or_lt_two_pow (by omega) (by decide), (present_or hmod).trans rfl, ?_⟩
  exact frameAddr_or hmod (by decide)

section KernelMap

variable {m : Machine} {table : Nat → Nat} {i j : Nat}

theorem KernelMap.frameAddr_entry (h : KernelMap m table) (hi : i < 1024) (hk : kernelIdx i) :
    frameAddr (m.entry m.kernelPageDirectory i) = table i := by
  rw [h.entry i hi hk, frameAddr_or (h.aligned i hi hk) (by decide)]

theorem KernelMap.present_entry (h : KernelMap m table) (hi : i < 1024) (hk : kernelIdx i) :
    present (m.entry m.kernelPageDirectory i) = true := by
  rw [h.entry i hi hk, present_or (h.aligned i hi hk)]
  rfl

/-- A walk from the kernel directory ends in its table. -/
theorem KernelMap.pte (h : KernelMap m table) (hi : i < 1024) (j : Nat) :
    pte m m.kernelPageDirectory i j = if kernelIdx i then m.entry (table i) j else 0 := by
  cases hk : kernelIdx i with
  | true => rw [if_pos rfl, pte_of_present (h.present_entry hi hk), h.frameAddr_entry hi hk]
  | false =>
    rw [if_neg Bool.false_ne_true, pte_of_not_present]
    rw [h.empty i hi hk]
    rfl

end KernelMap

/-! ## The loops -/

theorem fillTable_spec {t i : Nat} (ht : t % 4096 = 0) (hi : i < 1024) (n : Nat) :
    ∀ (m : Machine) (j : Nat), j + n ≤ 1024 →
      (fillTable m t i n j).pmm = m.pmm ∧
      (fillTable m t i n j).kernelPageDirectory = m.kernelPageDirectory ∧
      (∀ x, frameAddr x ≠ t → (fillTable m t i n j).mem x = m.mem x) ∧
      ∀ k < 1024, (fillTable m t i n j).entry t k =
        if j ≤ k ∧ k < j + n then identityEntry i k else m.entry t k := by
  induction n with
  | zero => exact fun m j _ => ⟨rfl, rfl, fun _ _ => rfl, fun k _ => (if_neg (by omega)).symm⟩
  | succ n ih =>
    intro m j hj
    obtain ⟨h1, h2, h3, h4⟩ := ih (m.setEntry t j (identityEntry i j)) (j + 1) (by omega)
    refine ⟨h1, h2, fun x hx => ?_, fun k hk => ?_⟩
    · exact (h3 x hx).trans (Machine.mem_setEntry_of_ne ht (by omega) hx)
    · rw [fillTable, h4 k hk, Machine.entry_setEntry (identityEntry_spec j hi (by omega)).1 ht ht
        (by omega) hk]
      by_cases hkj : k = j
      · subst hkj
        simp
      · rw [if_neg (show ¬ (t = t ∧ k = j) by tauto)]
        exact if_congr (by omega) rfl rfl

/-- The tables that the loops have built so far, those of the indices in `done`. -/
structure Building (own : Owners) (m : Machine) (d : Nat) (table : Nat → Nat)
    (done : Nat → Prop) : Prop where
  frames : ∃ base, Frames base m.pmm own
  dir : own d = some .dir
  owned : ∀ i < 1024, done i → own (table i) = some (.table d i)
  entry : ∀ i < 1024, done i → m.entry d i = table i ||| (pagePresent ||| pageRW)
  identity : ∀ i < 1024, done i → ∀ j < 1024, m.entry (table i) j = identityEntry i j
  empty : ∀ i < 1024, ¬ done i → m.entry d i = 0

/-- One more table. -/
theorem Building.step {own : Owners} {m : Machine} {d t i : Nat} {table : Nat → Nat}
    {done : Nat → Prop} (h : Building own m d table done) (m₁ : Machine) (hi : i < 1024)
    (ht : t % 4096 = 0) (hlt : t < 2 ^ 32) (hnone : own t = none)
    (hf : ∃ base, Frames base m₁.pmm (Function.update own t (some .held))) (hmem : m₁.mem = m.mem) :
    Building (Function.update own t (some (.table d i)))
      ((fillTable (m₁.zero t 4096) t i 1024 0).setEntry d i (t ||| (pagePresent ||| pageRW))) d
      (Function.update table i t) fun k => done k ∨ k = i := by
  obtain ⟨base, hframes⟩ := h.frames
  obtain ⟨base₁, hf₁⟩ := hf
  have hd := (hframes.aligned h.dir).1
  have hdt : d ≠ t := fun he => by rw [← he, h.dir] at hnone; exact nomatch hnone
  obtain ⟨m₂, hm₂⟩ : ∃ m₂, m₂ = fillTable (m₁.zero t 4096) t i 1024 0 := ⟨_, rfl⟩
  obtain ⟨hpmm, -, hother, hself⟩ := fillTable_spec ht hi 1024 (m₁.zero t 4096) 0 (by omega)
  rw [← hm₂] at hpmm hother hself ⊢
  have hv : t ||| (pagePresent ||| pageRW) < 2 ^ 32 := Nat.or_lt_two_pow hlt (by decide)
  -- The frames other than the new one are as before the allocation.
  have hkept : ∀ {u k}, u % 4096 = 0 → k < 1024 → u ≠ t → m₂.entry u k = m.entry u k :=
    fun {u k} hu hk hne => Machine.entry_congr hu hk fun x hx => by
      rw [hother x (hx ▸ hne), Machine.zero, Machine.mem_store_of_ne _ ht (hx ▸ hne), hmem]
  have hset : ∀ {u k}, u % 4096 = 0 → k < 1024 →
      (m₂.setEntry d i (t ||| (pagePresent ||| pageRW))).entry u k =
        if u = d ∧ k = i then t ||| (pagePresent ||| pageRW) else m₂.entry u k :=
    fun hu hk => Machine.entry_setEntry hv hd hu hi hk
  have htable : ∀ {k}, k < 1024 → done k → table k ≠ t ∧ table k ≠ d ∧ table k % 4096 = 0 :=
    fun {k} hk hdone => by
      have ho := h.owned k hk hdone
      refine ⟨fun he => ?_, fun he => ?_, (hframes.aligned ho).1⟩
      · rw [he, hnone] at ho
        exact nomatch ho
      · rw [he, h.dir] at ho
        exact absurd ho (by simp)
  refine ⟨⟨base₁, ?_⟩, ?_, fun k hk hdone => ?_, fun k hk hdone => ?_, fun k hk hdone j hj => ?_,
    fun k hk hdone => ?_⟩
  · have he : Function.update (Function.update own t (some .held)) t (some (.table d i)) =
        Function.update own t (some (.table d i)) := Function.update_idem ..
    rw [← he]
    show Frames base₁ m₂.pmm _
    rw [hpmm]
    exact hf₁.reown (Function.update_self ..) _
  · rw [Function.update_of_ne hdt]
    exact h.dir
  · by_cases hki : k = i
    · rw [hki, Function.update_self, Function.update_self]
    · have hdone := hdone.resolve_right hki
      rw [Function.update_of_ne hki, Function.update_of_ne (htable hk hdone).1]
      exact h.owned k hk hdone
  · rw [hset hd hk]
    by_cases hki : k = i
    · rw [if_pos ⟨rfl, hki⟩, hki, Function.update_self]
    · rw [if_neg (fun h => hki h.2), Function.update_of_ne hki, hkept hd hk hdt]
      exact h.entry k hk (hdone.resolve_right hki)
  · by_cases hki : k = i
    · rw [hki, Function.update_self, hset ht hj, if_neg (fun h => hdt h.1.symm), hself j hj,
        if_pos (by omega)]
    · have hdone := hdone.resolve_right hki
      obtain ⟨h1, h2, h3⟩ := htable hk hdone
      rw [Function.update_of_ne hki, hset h3 hj, if_neg (fun h => h2 h.1), hkept h3 hj h1]
      exact h.identity k hk hdone j hj
  · obtain ⟨hdone, hki⟩ := not_or.mp hdone
    rw [hset hd hk, if_neg (fun h => hki h.2), hkept hd hk hdt]
    exact h.empty k hk hdone

/-- The loop builds the tables of its entries. -/
theorem mapTables_spec {d : Nat} (n : Nat) : ∀ {own : Owners} {m m' : Machine} {table : Nat → Nat}
    {done : Nat → Prop} (i : Nat), Building own m d table done → i + n ≤ 1024 →
    mapTables m d n i = some m' →
    ∃ own' table', Building own' m' d table' (fun k => done k ∨ (i ≤ k ∧ k < i + n)) ∧
      m'.kernelPageDirectory = m.kernelPageDirectory := by
  induction n with
  | zero =>
    intro own m m' table done i h _ hm
    cases hm
    refine ⟨own, table, ?_, rfl⟩
    have he : (fun k => done k ∨ (i ≤ k ∧ k < i + 0)) = done := by
      funext k
      simp
    rw [he]
    exact h
  | succ n ih =>
    intro own m m' table done i h hi hm
    obtain ⟨base, hframes⟩ := h.frames
    unfold mapTables Machine.allocBlockLow at hm
    rcases hframes.alloc with he | ⟨t, p', he, h0, hmod, hnone, -, hf, -⟩
    · simp [he] at hm
    · have hlt : t < 2 ^ 32 := by
        have := (hf.aligned (Function.update_self t (some Use.held) own)).2.2
        unfold lowLimit at this
        omega
      rw [he] at hm
      dsimp only at hm
      rw [if_neg h0] at hm
      obtain ⟨own', table', hb, hk⟩ := ih (i + 1) (h.step { m with
          pmm := p', log := if t = 0 then m.log else .alloc t :: m.log } (by omega)
          hmod hlt hnone ⟨base, hf⟩ rfl) (by omega) hm
      refine ⟨own', table', ?_, ?_⟩
      · have he : (fun k => (done k ∨ k = i) ∨ (i + 1 ≤ k ∧ k < i + 1 + n)) =
            fun k => done k ∨ (i ≤ k ∧ k < i + (n + 1)) := by
          funext k
          simp only [or_assoc]
          congr 1
          rw [eq_iff_iff]
          omega
        rwa [he] at hb
      · have hfill := fun m => (fillTable_spec hmod (show i < 1024 by omega) 1024 m 0 (by omega)).2.1
        rw [hk, Machine.setEntry]
        dsimp only
        rw [hfill]
        rfl

/-- `activate` maps the low memory and the last gigabyte to themselves. -/
theorem activate_spec {m m' : Machine} (hwf : Wf m.pmm) (h0 : ¬ Free m.pmm 0)
    (h : activate m = some m') : Active m' ∧ ∃ table, KernelMap m' table ∧ Identity m' table := by
  have hframes : Frames (inUse m.pmm) m.pmm fun _ => none :=
    ⟨hwf, nofun, nofun, fun a ha => ha, rfl, h0⟩
  unfold activate Machine.allocBlockLow at h
  rcases hframes.alloc with he | ⟨d, p', he, hd0, hmod, -, -, hf, -⟩
  · simp [he] at h
  rw [he] at h
  dsimp only at h
  rw [if_neg (by omega)] at h
  obtain ⟨m₀, hm₀⟩ : ∃ m₀, m₀ = Machine.zero { m with
      pmm := p', log := if d = 0 then m.log else .alloc d :: m.log, kernelPageDirectory := d } d
        4096 := ⟨_, rfl⟩
  rw [← hm₀] at h
  have hstart : Building (Function.update (fun _ => none) d (some .dir)) m₀ d (fun _ => 0)
      fun _ => False := by
    refine ⟨⟨inUse m.pmm, ?_⟩, Function.update_self .., nofun, nofun, nofun, fun i hi _ => ?_⟩
    · have hdir := hf.reown (Function.update_self ..) .dir
      rw [Function.update_idem] at hdir
      rw [hm₀]
      exact hdir
    · rw [hm₀]
      exact Machine.entry_zero _ d hi
  cases hlow : mapTables m₀ d 64 0 with
  | none => simp [hlow] at h
  | some m₁ =>
    rw [hlow] at h
    obtain ⟨own₁, table₁, hb₁, hk₁⟩ := mapTables_spec 64 0 hstart (by omega) hlow
    obtain ⟨own₂, table, hb, hk₂⟩ := mapTables_spec 256 768 hb₁ (by omega) h
    have hdir : m'.kernelPageDirectory = d := hk₂.trans (hk₁.trans (by rw [hm₀]; rfl))
    have hdone : ∀ i < 1024, ((False ∨ (0 ≤ i ∧ i < 0 + 64)) ∨ (768 ≤ i ∧ i < 768 + 256)) ↔
        kernelIdx i = true := fun i hi => by
      unfold kernelIdx
      simp
    obtain ⟨base, hframes⟩ := hb.frames
    have htable : ∀ i < 1024, kernelIdx i → own₂ (table i) = some (.table d i) := fun i hi hk =>
      hb.owned i hi ((hdone i hi).mpr hk)
    have hmap : KernelMap m' table := by
      refine ⟨hdir ▸ ⟨hd0, hmod⟩, fun i hi hk => ?_, fun i hi hk => ?_, fun i hi hk he => ?_,
        fun i hi hki k hk hkk he => ?_, fun i hi hk => ?_⟩
      · rw [hdir]
        exact hb.entry i hi ((hdone i hi).mpr hk)
      · exact (hframes.aligned (htable i hi hk)).1
      · have := htable i hi hk
        rw [he, hdir, hb.dir] at this
        exact absurd this (by simp)
      · have := htable i hi hki
        rw [he, htable k hk hkk] at this
        exact (Use.table.inj (Option.some.inj this)).2.symm
      · rw [hdir]
        exact hb.empty i hi fun h => Bool.noConfusion (hk.symm.trans ((hdone i hi).mp h))
    refine ⟨⟨hframes.wf, ?_, ?_, fun i hi hk => ⟨hmap.present_entry hi hk, ?_⟩⟩, table, hmap,
      fun i hi hk => hb.identity i hi ((hdone i hi).mpr hk)⟩
    · exact (hframes.used 0 hframes.zero).2
    · rw [hdir]
      exact ⟨hmod, (hframes.owned hb.dir).2.1⟩
    · have hused := (hframes.owned (htable i hi hk)).2.1
      rw [← hmap.frameAddr_entry hi hk] at hused
      unfold frameAddr at hused
      rwa [Nat.mul_div_cancel _ (by decide)] at hused

end Paging
end Hashx86
