import Hashx86.Lib.Buffers
import Hashx86.Lib.Run
import Hashx86.Tlsf.Kernel

/-!
# The kernel on its heap

`Client` is the heap with a ghost: `live` are the blocks that the kernel has, with the sizes that it
asked for.

* `Held`: each of these starts where a block in use of the pool does, and there are no other blocks
  in use.
* `calls_served`: every call of a run serves the kernel.
* `kmalloc_all_freed`: a heap whose blocks were all given back is whole again.
* `totals_run`: the totals account for the whole heap, and `kmalloc` refuses only what is larger than
  the largest free block less some room.
-/

namespace Hashx86

open Lib

namespace Tlsf

structure Client where
  heap : State
  live : List Block

inductive Call where
  | kmalloc (size : Nat)
  | alignedKmalloc (size alignment : Nat)
  | kcalloc (n size : Int)
  | krealloc (ptr size : Nat)
  | kfree (ptr : Nat)
  | store (addr : Nat) (byte : UInt8)

/-- What the address that a call returns is a multiple of. -/
def Call.alignment : Call → Nat
  | .alignedKmalloc _ alignment => alignment
  | _ => alignSize

namespace Client

/-- The block that a call returned belongs to the kernel. -/
def take (p : Client) (r : Nat × State) (size : Nat) : Nat × Client :=
  (r.1, { heap := r.2, live := if r.1 = 0 then p.live else ⟨r.1, size⟩ :: p.live })

/-- The block that `krealloc` returned is in the place of the one at `ptr`. -/
def swap (p : Client) (r : Nat × State) (ptr size : Nat) : Nat × Client :=
  (r.1, { heap := r.2, live := if r.1 = 0 then p.live else ⟨r.1, size⟩ :: release p.live ptr })

/-- A call of the kernel: the address that it returns, and the heap then. -/
def step (p : Client) : Call → Nat × Client
  | .kmalloc size => p.take (kmalloc p.heap size) size
  | .alignedKmalloc size alignment => p.take (alignedKmalloc p.heap size alignment) size
  | .kcalloc n size => p.take (kcalloc p.heap n size) (n * size).toNat
  | .krealloc ptr size =>
    let r := krealloc p.heap ptr size
    if ptr = 0 then p.take r size
    else if size = 0 then (r.1, { heap := r.2, live := release p.live ptr })
    else p.swap r ptr size
  | .kfree ptr => (0, { heap := kfree p.heap ptr, live := release p.live ptr })
  | .store addr byte =>
    (0, { p with heap := { p.heap with mem := overwrite p.heap.mem addr 1 fun _ => byte } })

def next (p : Client) (c : Call) : Client := (p.step c).2

/-- The kernel resizes, gives back and writes only blocks that it has. For the four sizes up to
`block_size_max`, `tlsf_realloc` would cut the block to nothing. -/
def Allowed (p : Client) : Call → Prop
  | .krealloc ptr size =>
    ptr = 0 ∨ (∃ l ∈ p.live, l.addr = ptr) ∧ ¬ (blockSizeMax - 4 < size ∧ size ≤ blockSizeMax)
  | .kfree ptr => ptr = 0 ∨ ∃ l ∈ p.live, l.addr = ptr
  | .store addr _ => ∃ l ∈ p.live, l.Has addr
  | _ => True

/-- What the kernel asks for by a call. -/
def request : Call → HeapRequest
  | .kmalloc size => .alloc size
  | .alignedKmalloc size _ => .alloc size
  | .kcalloc n size => .zeroed (n * size).toNat
  | .krealloc ptr size => if ptr = 0 then .alloc size else if size = 0 then .free ptr else .resize ptr size
  | .kfree ptr => .free ptr
  | .store addr byte => .store addr byte

/-- What the kernel has in its blocks. -/
def buffers (p : Client) : List Buffer := images p.heap.mem p.live

end Client

/-- The block of the pool in which `l` lies. -/
structure Backs (c : Cell) (l : Block) : Prop where
  addr : l.addr = c.payload
  size : l.size ≤ c.size

structure Held (start stop : Nat) (p : Client) (body : List Cell) : Prop where
  sound : Sound p.heap start body stop
  apart : Apart p.live
  backed : ∀ l ∈ p.live, ∃ c ∈ used body, Backs c l
  taken : ∀ c ∈ used body, ∃ l ∈ p.live, Backs c l

variable {p : Client} {start stop n : Nat} {c d : Cell} {l l' : Block} {us vs body body' : List Cell}
  {s : State} {mem : Nat → UInt8} {r : Nat × State}

/-! ## The blocks of the kernel -/

/-- A block of the kernel lies in the payload. -/
theorem Backs.bounds {x : Nat} (h : Backs c l) (hx : l.Has x) : c.addr + 8 ≤ x ∧ x < c.next + 4 := by
  have haddr := h.addr
  have hsize := h.size
  unfold Block.Has at hx
  unfold Cell.payload at haddr
  unfold Cell.next
  omega

/-- A write into a block of the kernel. -/
theorem Held.write (h : Held start stop p body) (hl : l ∈ p.live)
    (hm : ∀ x, ¬ l.Has x → mem x = p.heap.mem x) :
    Held start stop { p with heap := { p.heap with mem := mem } } body := by
  obtain ⟨c, hc, hcl⟩ := h.backed l hl
  refine ⟨h.sound.write hc fun x hx => hm x fun hin => ?_, h.apart, h.backed, h.taken⟩
  have hb := hcl.bounds hin
  omega

/-- Two blocks in use are one, or their payloads do not meet. -/
theorem Sound.payloads_apart (h : Sound s start body stop) (hc : c ∈ used body) (hd : d ∈ used body)
    (hne : c ≠ d) (hcl : Backs c l) (hdl : Backs d l') : l.Disjoint l' := by
  have h1 := hcl.addr
  have h2 := hcl.size
  have h3 := hdl.addr
  have h4 := hdl.size
  have hapart := (h.work.pool.tiled.apart (mem_used.mp hc).1 (mem_used.mp hd).1).resolve_left hne
  unfold Cell.payload at h1 h3
  unfold Cell.next at hapart
  unfold Block.Disjoint
  omega

/-- What the kernel has in its blocks, after a change outside the blocks in use. -/
theorem Held.images (h : Held start stop p body) (hk : Kept (used body) p.heap.mem mem) :
    Lib.images mem p.live = p.buffers := by
  refine images_congr fun l hl x hx => ?_
  obtain ⟨c, hc, hcl⟩ := h.backed l hl
  obtain ⟨h1, h2⟩ := hcl.bounds hx
  exact hk c hc x h1 h2

/-- The kernel gets a block. -/
theorem Held.alloc (h : Held start stop p body) (hused : used body = us ++ vs)
    (hg : Gives p.heap start us vs stop d body' r) (hpos : 0 < n) (hn : n ≤ d.size) :
    Held start stop { heap := r.2, live := ⟨r.1, n⟩ :: p.live } body' := by
  have hback : Backs d ⟨r.1, n⟩ := ⟨hg.answer, hn⟩
  have hold : ∀ c, c ∈ used body' ↔ c = d ∨ c ∈ used body := fun c => hused ▸ hg.mem_used c
  have hnew : d ∉ used body := hused ▸ hg.fresh
  refine ⟨hg.sound, h.apart.cons hpos fun l hl => ?_, fun l hl => ?_, fun c hc => ?_⟩
  · obtain ⟨c, hc, hcl⟩ := h.backed l hl
    exact hg.sound.payloads_apart ((hold d).mpr (.inl rfl)) ((hold c).mpr (.inr hc))
      (fun he => hnew (he ▸ hc)) hback hcl
  · rcases List.mem_cons.mp hl with rfl | hl
    · exact ⟨d, (hold d).mpr (.inl rfl), hback⟩
    · obtain ⟨c, hc, hcl⟩ := h.backed l hl
      exact ⟨c, (hold c).mpr (.inr hc), hcl⟩
  · rcases (hold c).mp hc with rfl | hc
    · exact ⟨_, List.mem_cons_self, hback⟩
    · obtain ⟨l, hl, hcl⟩ := h.taken c hc
      exact ⟨l, List.mem_cons_of_mem _ hl, hcl⟩

/-- The other blocks of the kernel lie in the other blocks in use. -/
theorem Held.backed_rest (h : Held start stop p body) (hcl : Backs c l) :
    ∀ l' ∈ release p.live l.addr, ∃ e ∈ used body, e ≠ c ∧ Backs e l' := fun l' hl' => by
  obtain ⟨hl', hne⟩ := (mem_release h.apart).mp hl'
  obtain ⟨e, he, hel⟩ := h.backed l' hl'
  refine ⟨e, he, ?_, hel⟩
  rintro rfl
  exact hne (hel.addr.trans hcl.addr.symm)

theorem Held.taken_rest (h : Held start stop p body) (hc : c ∈ used body) (hcl : Backs c l) :
    ∀ e ∈ used body, e ≠ c → ∃ l' ∈ release p.live l.addr, Backs e l' := fun e he hne => by
  obtain ⟨l', hl', hel⟩ := h.taken e he
  refine ⟨l', (mem_release h.apart).mpr ⟨hl', fun haddr => hne (h.sound.used_eq hc he ?_)⟩, hel⟩
  have h1 := hel.addr
  have h2 := hcl.addr
  unfold Cell.payload at h1 h2
  omega

/-- What the kernel has in its other blocks, after a change outside them. -/
theorem Held.images_rest (h : Held start stop p body) (hcl : Backs c l)
    (hk : ∀ e ∈ used body, e ≠ c → Kept [e] p.heap.mem mem) :
    Lib.images mem (release p.live l.addr) = dropAt p.buffers l.addr := by
  unfold Client.buffers
  rw [← images_release]
  refine images_congr fun l' hl' x hx => ?_
  obtain ⟨e, he, hne, hel⟩ := h.backed_rest hcl l' hl'
  obtain ⟨h1, h2⟩ := hel.bounds hx
  exact hk e he hne e List.mem_cons_self x h1 h2

/-- The kernel gives a block back. -/
theorem Held.free (h : Held start stop p body) (hl : l ∈ p.live) : ∃ body',
    Held start stop { heap := tlsfFree p.heap l.addr, live := release p.live l.addr } body' ∧
      Lib.images (tlsfFree p.heap l.addr).mem (release p.live l.addr) = dropAt p.buffers l.addr := by
  obtain ⟨c, hc, hcl⟩ := h.backed l hl
  obtain ⟨body', hsound, hold, hk⟩ := h.sound.release hc
  rw [← hcl.addr] at hsound hk
  refine ⟨body', ⟨hsound, h.apart.release _, fun l' hl' => ?_, fun e he => ?_⟩, ?_⟩
  · obtain ⟨e, he, hne, hel⟩ := h.backed_rest hcl l' hl'
    exact ⟨e, (hold e).mpr ⟨he, hne⟩, hel⟩
  · obtain ⟨he, hne⟩ := (hold e).mp he
    exact h.taken_rest hc hcl e he hne
  · refine h.images_rest hcl fun e he hne => hk.mono fun e' he' => ?_
    rw [List.mem_singleton.mp he']
    exact (hold e).mpr ⟨he, hne⟩

/-- The kernel gets another size of a block. -/
theorem Held.resize (h : Held start stop p body) (hc : c ∈ used body) (hcl : Backs c l)
    (hr : Resizes p.heap start body stop c n d body' r) (hpos : 0 < n) :
    Held start stop { heap := r.2, live := ⟨r.1, n⟩ :: release p.live l.addr } body' := by
  have hback : Backs d ⟨r.1, n⟩ := ⟨hr.answer, hr.room⟩
  have hd : d ∈ used body' := (hr.used d).mpr (.inl rfl)
  refine ⟨hr.sound, (h.apart.release _).cons hpos fun l' hl' => ?_, fun l' hl' => ?_, fun e he => ?_⟩
  · obtain ⟨e, he, hne, hel⟩ := h.backed_rest hcl l' hl'
    exact hr.sound.payloads_apart hd ((hr.used e).mpr (.inr ⟨he, hne⟩)) (hr.other e he hne).symm hback hel
  · rcases List.mem_cons.mp hl' with rfl | hl'
    · exact ⟨d, hd, hback⟩
    · obtain ⟨e, he, hne, hel⟩ := h.backed_rest hcl l' hl'
      exact ⟨e, (hr.used e).mpr (.inr ⟨he, hne⟩), hel⟩
  · rcases (hr.used e).mp he with rfl | ⟨he, hne⟩
    · exact ⟨_, List.mem_cons_self, hback⟩
    · obtain ⟨l', hl', hel⟩ := h.taken_rest hc hcl e he hne
      exact ⟨l', List.mem_cons_of_mem _ hl', hel⟩

/-! ## The calls -/

/-- A call keeps the heap, and serves the kernel. -/
structure Good (start stop : Nat) (p : Client) (c : Call) (r : Nat × Client) : Prop where
  held : ∃ body, Held start stop r.2 body
  serves : Serves p.buffers (Client.request c) r.1 r.2.buffers
  aligned : c.alignment ∣ r.1

variable {call : Call} {size alignment : Nat}

/-- A request that may be refused was. -/
theorem good_refused (h : Held start stop p body) (hreq : Serves p.buffers (Client.request call) 0 p.buffers)
    (n : Nat) : Good start stop p call (p.take (0, p.heap) n) := by
  have htake : p.take (0, p.heap) n = (0, p) := rfl
  rw [htake]
  exact ⟨⟨body, h⟩, hreq, Nat.dvd_zero _⟩

theorem Sound.four_dvd (h : Sound s start body stop) (hstart : start % 4 = 0) (hd : d ∈ used body) :
    alignSize ∣ d.payload := by
  obtain ⟨pre, post, rfl⟩ := List.append_of_mem (mem_used.mp hd).1
  have hmod := h.work.pool.addr_mod hstart
  unfold Cell.payload
  exact Nat.dvd_of_mod_eq_zero (by unfold alignSize; omega)

theorem Gives.four_dvd (hg : Gives s start us vs stop d body r) (hstart : start % 4 = 0) :
    alignSize ∣ r.1 := by
  rw [hg.answer]
  exact hg.sound.four_dvd hstart ((hg.mem_used d).mpr (.inl rfl))

theorem take_block (p : Client) (h0 : r.1 ≠ 0) (n : Nat) :
    p.take r n = (r.1, { heap := r.2, live := ⟨r.1, n⟩ :: p.live }) := by
  unfold Client.take
  rw [if_neg h0]

theorem serves_alloc {bs : List Buffer} {a : Nat} {bytes : List UInt8} (ha : a ≠ 0)
    (hn : bytes.length = n) : Serves bs (.alloc n) a (⟨a, bytes⟩ :: bs) := hn ▸ .alloc ha

/-- The kernel got a block that it asked for. -/
theorem good_alloc (h : Held start stop p body) (hused : used body = us ++ vs)
    (hg : Gives p.heap start us vs stop d body' r) (hpos : 0 < n) (hn : n ≤ d.size)
    (hreq : Client.request call = .alloc n) (halign : call.alignment ∣ r.1) :
    Good start stop p call (p.take r n) := by
  have hk := hg.kept
  rw [← hused] at hk
  rw [take_block p hg.ne_zero]
  refine ⟨⟨body', h.alloc hused hg hpos hn⟩, ?_, halign⟩
  unfold Client.buffers
  dsimp only
  rw [hreq, images_cons, h.images hk]
  exact serves_alloc hg.ne_zero (length_bytesOf _ _)

/-- A call that is answered by `tlsf_malloc`. -/
theorem good_tlsfMalloc (h : Held start stop p body) (hstart : start % 4 = 0) (hsize : size < 2 ^ 31)
    (hreq : Client.request call = .alloc size) (halign : call.alignment = alignSize) :
    Good start stop p call (p.take (tlsfMalloc p.heap size) size) := by
  rcases tlsfMalloc_spec h.sound hsize with ⟨hnone, -⟩ | ⟨us, vs, d, body', hused, hpos, hd, hg⟩
  · rw [hnone]
    exact good_refused h (hreq ▸ .noAlloc _) _
  · exact good_alloc h hused hg hpos hd hreq (halign ▸ hg.four_dvd hstart)

theorem good_kmalloc (h : Held start stop p body) (hstart : start % 4 = 0) (size : Nat) :
    Good start stop p (.kmalloc size) (p.step (.kmalloc size)) := by
  unfold Client.step kmalloc
  dsimp only
  by_cases hz : size = 0 ∨ 0x7FFFFFFF < size
  · rw [if_pos hz]
    exact good_refused h (.noAlloc _) _
  · rw [if_neg hz]
    exact good_tlsfMalloc h hstart (by omega) rfl rfl

/-- The requests that `tlsf_request_valid` lets through. -/
theorem tlsfRequestValid_spec {k : Nat} (hpos : 0 < size) (hv : tlsfRequestValid size (2 ^ k) = true) :
    size ≤ 2 ^ 30 ∧ k ≤ 29 := by
  unfold tlsfRequestValid blockSizeMax blockSizeMin blockHeaderOverhead at hv
  rw [if_neg (by omega)] at hv
  by_cases h1 : 2 ^ 30 < size
  · rw [if_pos h1] at hv
    exact Bool.noConfusion hv
  rw [if_neg h1, if_neg (Nat.two_pow_pos k).ne'] at hv
  by_cases h2 : 2 ^ 30 < 2 ^ k
  · rw [if_pos h2] at hv
    exact Bool.noConfusion hv
  have hk : k ≤ 30 := by
    by_contra hn
    have : 2 ^ 31 ≤ 2 ^ k := Nat.pow_le_pow_right (by decide) (by omega)
    omega
  have hk0 : 0 < 2 ^ k := Nat.two_pow_pos k
  have hlt : size + 2 ^ k + (12 + 4) < 2 ^ 32 := by omega
  rw [if_neg h2] at hv
  dsimp only at hv
  rw [Nat.mod_eq_of_lt hlt, if_neg (by omega)] at hv
  obtain ⟨-, hle, -⟩ := alignUp_spec (x := size + 2 ^ k + (12 + 4)) (k := k) (by omega) (by omega)
  have hmax := of_decide_eq_true hv
  refine ⟨by omega, ?_⟩
  by_contra hn
  have : 2 ^ 30 ≤ 2 ^ k := Nat.pow_le_pow_right (by decide) (by omega)
  omega

theorem good_alignedKmalloc (h : Held start stop p body) (hstart : start % 4 = 0) (hstop : stop < 2 ^ 31)
    (size alignment : Nat) :
    Good start stop p (.alignedKmalloc size alignment) (p.step (.alignedKmalloc size alignment)) := by
  unfold Client.step alignedKmalloc
  dsimp only
  by_cases hbad : alignment = 0 ∨ alignment &&& (alignment - 1) ≠ 0
  · rw [if_pos hbad]
    exact good_refused h (.noAlloc _) _
  · rw [if_neg hbad]
    obtain ⟨hne, hand⟩ := not_or.mp hbad
    obtain ⟨k, rfl⟩ := Nat.ne_zero_and_sub_one_eq_zero_iff_isPowerOfTwo.mp ⟨hne, not_not.mp hand⟩
    cases hv : tlsfRequestValid size (2 ^ k) with
    | false => exact good_refused h (.noAlloc _) _
    | true =>
      rw [if_pos rfl]
      by_cases hz : size = 0
      · subst hz
        exact good_refused h (.noAlloc _) _
      · obtain ⟨hsize, hk⟩ := tlsfRequestValid_spec (Nat.pos_of_ne_zero hz) hv
        have hlt : size < 2 ^ 31 := by omega
        rcases tlsfMemalign_spec h.sound hstart hk hlt hstop with
          ⟨hnone, -⟩ | ⟨us, vs, d, body', hused, hpos, hd, hdvd, hg⟩
        · rw [hnone]
          exact good_refused h (.noAlloc _) _
        · refine good_alloc h hused hg hpos hd rfl ?_
          rw [hg.answer]
          exact hdvd

/-- The product that `kcalloc` allocates did not wrap. -/
theorem no_wrap {n m : Nat} (h : n * m % 2 ^ 32 / m = n) : n * m % 2 ^ 32 = n * m := by
  refine Nat.le_antisymm (Nat.mod_le _ _) ?_
  have hle := Nat.div_mul_le_self (n * m % 2 ^ 32) m
  rwa [h] at hle

theorem good_kcalloc (h : Held start stop p body) (hstart : start % 4 = 0) (n size : Int) :
    Good start stop p (.kcalloc n size) (p.step (.kcalloc n size)) := by
  unfold Client.step kcalloc
  dsimp only
  by_cases hz : n ≤ 0 ∨ size ≤ 0
  · rw [if_pos hz]
    exact good_refused h (.noZeroed _) _
  rw [if_neg hz]
  by_cases hw : n.toNat * size.toNat % 2 ^ 32 / size.toNat ≠ n.toNat
  · rw [if_pos hw]
    exact good_refused h (.noZeroed _) _
  rw [if_neg hw, no_wrap (not_not.mp hw)]
  have htotal : n.toNat * size.toNat = (n * size).toNat := by
    obtain ⟨n, rfl⟩ := Int.eq_ofNat_of_zero_le (by omega : 0 ≤ n)
    obtain ⟨size, rfl⟩ := Int.eq_ofNat_of_zero_le (by omega : 0 ≤ size)
    rfl
  rw [htotal]
  have hreq : Client.request (.kcalloc n size) = .zeroed (n * size).toNat := rfl
  generalize (n * size).toNat = total at *
  by_cases hbig : 0x7FFFFFFF < total
  · rw [if_pos hbig]
    exact good_refused h (hreq ▸ .noZeroed _) _
  rw [if_neg hbig]
  have hlt : total < 2 ^ 31 := by omega
  rcases tlsfMalloc_spec h.sound hlt with ⟨hnone, -⟩ | ⟨us, vs, d, body', hused, hpos, hd, hg⟩
  · rw [hnone, if_pos rfl]
    exact good_refused h (hreq ▸ .noZeroed _) _
  · have h0 := hg.ne_zero
    have hk := hg.kept
    rw [← hused] at hk
    have htake := fun t : State => take_block (r := ((tlsfMalloc p.heap total).1, t)) p h0 total
    rw [if_neg h0, htake]
    have hheld := h.alloc hused hg hpos hd
    have hzero : ∀ x, (⟨(tlsfMalloc p.heap total).1, total⟩ : Block).Has x →
        overwrite (tlsfMalloc p.heap total).2.mem (tlsfMalloc p.heap total).1 total (fun _ => 0) x = 0 :=
      fun x hx => overwrite_of_in _ _ hx.1 hx.2
    have hrest : ∀ l ∈ p.live, ∀ x, l.Has x →
        overwrite (tlsfMalloc p.heap total).2.mem (tlsfMalloc p.heap total).1 total (fun _ => 0) x =
          (tlsfMalloc p.heap total).2.mem x := fun l hl x hx => by
      have hdisj := (List.pairwise_cons.mp hheld.apart.disjoint).1 l hl
      have hnot := hdisj.symm.not_has hx
      unfold Block.Has at hnot
      dsimp only at hnot
      exact overwrite_of_out _ _ (by omega)
    refine ⟨⟨body', hheld.write List.mem_cons_self fun x hx => overwrite_of_out _ _ ?_⟩, ?_,
      hg.four_dvd hstart⟩
    · unfold Block.Has at hx
      dsimp only at hx
      omega
    · unfold Client.buffers
      dsimp only
      rw [hreq, images_cons, images_congr hrest, h.images hk]
      unfold image
      rw [bytesOf_const hzero]
      exact .zeroed h0

/-- `adjust_request_size` has no words for the sizes that `krealloc` lets through all the same: it
returns a block that is too small. -/
theorem krealloc_near_max (h : Sound s start body stop) (hc : c ∈ used body) (hlo : blockSizeMax - 4 < size)
    (hhi : size ≤ blockSizeMax) : (krealloc s c.payload size).1 = c.payload ∧ c.size < size := by
  obtain ⟨hmem, -⟩ := mem_used.mp hc
  have hs := h.work.pool.sized c hmem
  have hmax := hs.max
  have hwords := hs.words
  unfold blockSizeMax at hlo hhi
  have hvalid : tlsfRequestValid size 0 = true := by
    unfold tlsfRequestValid blockSizeMax
    rw [if_neg (by omega), if_neg (by omega), if_pos rfl]
  have hadj : adjustRequestSize size alignSize = 0 := by
    obtain ⟨hdvd, hle, -⟩ := alignUp_spec (x := size) (k := 2) (by decide) (by omega)
    unfold adjustRequestSize
    rw [if_neg (by omega)]
    refine if_neg ?_
    unfold blockSizeMax
    change ¬ alignUp size (2 ^ 2) < _
    omega
  have hne : c.payload ≠ 0 := Nat.succ_ne_zero _
  unfold krealloc tlsfRealloc
  rw [if_pos hvalid, if_neg (by omega), if_neg hne]
  dsimp only
  rw [hadj, if_neg (by omega)]
  exact ⟨rfl, by omega⟩

theorem good_kfree (h : Held start stop p body) {ptr : Nat} (ha : p.Allowed (.kfree ptr)) :
    Good start stop p (.kfree ptr) (p.step (.kfree ptr)) := by
  unfold Client.step kfree
  dsimp only
  by_cases h0 : ptr = 0
  · subst h0
    have hne : ∀ l ∈ p.live, ¬ decide (l.addr = 0) = true := fun l hl he => by
      obtain ⟨c, -, hcl⟩ := h.backed l hl
      have h1 := hcl.addr
      have h2 := of_decide_eq_true he
      unfold Cell.payload at h1
      omega
    have hlive : release p.live 0 = p.live := List.eraseP_of_forall_not hne
    refine ⟨⟨body, ?_⟩, ?_, Nat.dvd_zero _⟩
    · rw [if_pos rfl, hlive]
      exact h
    · have hbuf : dropAt p.buffers 0 = p.buffers := by
        unfold Client.buffers
        rw [← images_release, hlive]
      have hserves : Serves p.buffers (.free 0) 0 (dropAt p.buffers 0) := .free 0
      rw [hbuf] at hserves
      rw [if_pos rfl, hlive]
      exact hserves
  · rw [if_neg h0]
    obtain ⟨l, hl, rfl⟩ := ha.resolve_left h0
    obtain ⟨body', hheld, himages⟩ := h.free hl
    refine ⟨⟨body', hheld⟩, ?_, Nat.dvd_zero _⟩
    unfold Client.buffers
    dsimp only
    rw [himages]
    exact .free _

theorem serves_resize {bs : List Buffer} {a ptr : Nat} {old bytes : List UInt8} (ha : a ≠ 0)
    (hn : bytes.length = n) (hold : ⟨ptr, old⟩ ∈ bs)
    (hkept : ∀ i, i < old.length → i < bytes.length → bytes[i]? = old[i]?) :
    Serves bs (.resize ptr n) a (⟨a, bytes⟩ :: dropAt bs ptr) := hn ▸ .resize ha hold hkept

/-- The words that `adjust_request_size` makes of a size. -/
theorem adjust_word (hpos : 0 < size) (hle : size ≤ blockSizeMax - 4) :
    adjustRequestSize size alignSize = max (alignUp size (2 ^ 2)) blockSizeMin := by
  unfold blockSizeMax at hle
  obtain ⟨-, -, hup⟩ := alignUp_spec (x := size) (k := 2) (by decide) (by omega)
  unfold adjustRequestSize
  rw [if_neg (by omega)]
  refine if_pos ?_
  unfold blockSizeMax
  change alignUp size (2 ^ 2) < _
  omega

theorem good_krealloc_block (h : Held start stop p body) (hstart : start % 4 = 0) (hl : l ∈ p.live)
    (hpos : 0 < size) (hmax : ¬ (blockSizeMax - 4 < size ∧ size ≤ blockSizeMax))
    (hreq : Client.request call = .resize l.addr size) (halign : call.alignment = alignSize) :
    Good start stop p call (p.swap (krealloc p.heap l.addr size) l.addr size) := by
  have hnone : Good start stop p call (p.swap (0, p.heap) l.addr size) := by
    have hswap : p.swap (0, p.heap) l.addr size = (0, p) := rfl
    rw [hswap]
    exact ⟨⟨body, h⟩, hreq ▸ .noResize _ _, Nat.dvd_zero _⟩
  unfold krealloc tlsfRequestValid
  rw [if_neg (by omega : ¬ size = 0)]
  by_cases hbig : blockSizeMax < size
  · rw [if_pos hbig]
    exact hnone
  rw [if_neg hbig, if_pos rfl, if_pos rfl]
  have hle : size ≤ blockSizeMax - 4 := by omega
  have hadj0 : adjustRequestSize size alignSize ≠ 0 := by
    rw [adjust_word hpos hle]
    unfold blockSizeMin
    omega
  have hlt : size < 2 ^ 31 := by
    unfold blockSizeMax at hle
    omega
  obtain ⟨c, hc, hcl⟩ := h.backed l hl
  rw [hcl.addr]
  rcases tlsfRealloc_spec h.sound hc hlt hadj0 with hrefused | ⟨d, body', hr⟩
  · rw [hrefused, ← hcl.addr]
    exact hnone
  · have h0 : (tlsfRealloc p.heap c.payload size).1 ≠ 0 := by
      rw [hr.answer]
      exact Nat.succ_ne_zero _
    unfold Client.swap
    rw [if_neg h0, ← hcl.addr]
    rw [← hcl.addr] at hr h0
    refine ⟨⟨body', h.resize hc hcl hr hpos⟩, ?_, ?_⟩
    · have hbuf := h.images_rest hcl hr.kept
      unfold Client.buffers at hbuf ⊢
      dsimp only
      rw [hreq, images_cons, hbuf]
      refine serves_resize h0 (length_bytesOf _ _) (List.mem_map.mpr ⟨l, hl, rfl⟩) fun i hi hi' => ?_
      rw [length_bytesOf] at hi hi'
      have hsize := hcl.size
      have hdata := hr.data i (by omega) hi'
      rw [← hr.answer, ← hcl.addr] at hdata
      rw [getElem?_bytesOf hi', getElem?_bytesOf hi]
      exact congrArg some hdata
    · rw [halign]
      dsimp only
      rw [hr.answer]
      exact hr.sound.four_dvd hstart ((hr.used d).mpr (.inl rfl))

theorem good_krealloc (h : Held start stop p body) (hstart : start % 4 = 0) {ptr : Nat}
    (ha : p.Allowed (.krealloc ptr size)) :
    Good start stop p (.krealloc ptr size) (p.step (.krealloc ptr size)) := by
  unfold Client.step
  dsimp only
  by_cases h0 : ptr = 0
  · subst h0
    rw [if_pos rfl]
    have hreq : Client.request (.krealloc 0 size) = .alloc size := rfl
    unfold krealloc
    cases hv : tlsfRequestValid size 0 with
    | false => exact good_refused h (hreq ▸ .noAlloc _) _
    | true =>
      have hle : size ≤ 2 ^ 30 := by
        by_contra hn
        unfold tlsfRequestValid blockSizeMax at hv
        rw [if_neg (by omega), if_pos (by omega)] at hv
        exact Bool.noConfusion hv
      have hmalloc : tlsfRealloc p.heap 0 size = tlsfMalloc p.heap size := rfl
      rw [if_pos rfl, hmalloc]
      exact good_tlsfMalloc h hstart (by omega) hreq rfl
  · rw [if_neg h0]
    obtain ⟨⟨l, hl, rfl⟩, hmax⟩ := ha.resolve_left h0
    by_cases hz : size = 0
    · subst hz
      rw [if_pos rfl]
      have hfree : krealloc p.heap l.addr 0 = (0, tlsfFree p.heap l.addr) := by
        have hvalid : tlsfRequestValid 0 0 = true := rfl
        unfold krealloc tlsfRealloc
        rw [if_pos hvalid, if_pos ⟨h0, rfl⟩]
      have hreq : Client.request (.krealloc l.addr 0) = .free l.addr := (if_neg h0).trans (if_pos rfl)
      obtain ⟨body', hheld, himages⟩ := h.free hl
      rw [hfree]
      refine ⟨⟨body', hheld⟩, ?_, Nat.dvd_zero _⟩
      rw [hreq]
      unfold Client.buffers at himages ⊢
      dsimp only
      rw [himages]
      exact .free _
    · rw [if_neg hz]
      have hreq : Client.request (.krealloc l.addr size) = .resize l.addr size :=
        (if_neg h0).trans (if_neg hz)
      exact good_krealloc_block h hstart hl (Nat.pos_of_ne_zero hz) hmax hreq rfl

theorem good_store (h : Held start stop p body) {addr : Nat} {byte : UInt8}
    (ha : p.Allowed (.store addr byte)) :
    Good start stop p (.store addr byte) (p.step (.store addr byte)) := by
  obtain ⟨l, hl, hin⟩ := ha
  refine ⟨⟨body, h.write hl fun x hx => overwrite_of_out _ _ ?_⟩, ?_, Nat.dvd_zero _⟩
  · by_contra hn
    have hxa : x = addr := by omega
    exact hx (hxa ▸ hin)
  · unfold Client.buffers Client.step
    dsimp only
    rw [images_store]
    exact .store _ _

/-- Every call keeps the heap, and serves the kernel. -/
theorem step_good (h : Held start stop p body) (hstart : start % 4 = 0) (hstop : stop < 2 ^ 31)
    (ha : p.Allowed call) : Good start stop p call (p.step call) := by
  cases call with
  | kmalloc size => exact good_kmalloc h hstart size
  | alignedKmalloc size alignment => exact good_alignedKmalloc h hstart hstop size alignment
  | kcalloc n size => exact good_kcalloc h hstart n size
  | krealloc ptr size => exact good_krealloc h hstart ha
  | kfree ptr => exact good_kfree h ha
  | store addr byte => exact good_store h ha

/-! ## Runs -/

/-- The blocks of the kernel, in a heap from `startAddr` to `endAddr`. -/
structure Laid (startAddr endAddr : Nat) (p : Client) : Prop where
  apart : Apart p.live
  inside : ∀ l ∈ p.live, startAddr + tlsfSize < l.addr ∧ l.addr + l.size ≤ endAddr

/-- The heap in a pool that `kheap_init` made. -/
def Ready (startAddr endAddr : Nat) (p : Client) : Prop := ∃ stop body,
  Held (startAddr + tlsfSize - 4) stop p body ∧ startAddr % 4 = 0 ∧ stop + 8 ≤ endAddr ∧
    endAddr < stop + 12

variable {startAddr endAddr : Nat} {calls : List Call}

theorem Ready.laid (h : Ready startAddr endAddr p) : Laid startAddr endAddr p := by
  obtain ⟨stop, body, h, -, hstop, -⟩ := h
  refine ⟨h.apart, fun l hl => ?_⟩
  obtain ⟨c, hc, hcl⟩ := h.backed l hl
  have h1 := hcl.addr
  have h2 := hcl.size
  have h3 := h.sound.work.pool.tiled.mem_bounds (mem_used.mp hc).1
  unfold Cell.payload at h1
  unfold Cell.next at h3
  omega

theorem ready_next (h : Ready startAddr endAddr p) (hend : endAddr ≤ 2 ^ 31) (ha : p.Allowed call) :
    Ready startAddr endAddr (p.next call) ∧
      Serves p.buffers (Client.request call) (p.step call).1 (p.next call).buffers ∧
      call.alignment ∣ (p.step call).1 := by
  obtain ⟨stop, body, h, hstart, hlow, hhigh⟩ := h
  have hcontrol : tlsfSize = 3188 := rfl
  have hgood := step_good h (by omega) (by omega) ha
  obtain ⟨body', hheld⟩ := hgood.held
  exact ⟨⟨stop, body', hheld, hstart, hlow, hhigh⟩, hgood.serves, hgood.aligned⟩

theorem kheapInit_ready (h30 : endAddr ≤ startAddr + 2 ^ 30) (hend : endAddr ≤ 2 ^ 31)
    (hs : kheapInit mem startAddr endAddr = some s) : Ready startAddr endAddr ⟨s, []⟩ := by
  obtain ⟨hboots, hinit⟩ := kheapInit_spec mem h30 (by omega)
  obtain ⟨size, hsound, hlow, hhigh⟩ := hinit s hs
  refine ⟨_, _, ⟨hsound, .nil, fun l hl => absurd hl List.not_mem_nil, fun c hc => ?_⟩, ?_, hlow, hhigh⟩
  · rw [used_cons_free rfl] at hc
    exact absurd hc List.not_mem_nil
  · have hsome : (kheapInit mem startAddr endAddr).isSome = true := by
      rw [hs]
      rfl
    exact (hboots.mp hsome).1

/-- Every call of every run serves the kernel, and its blocks do not meet. -/
theorem calls_served (mem : Nat → UInt8) (h30 : endAddr ≤ startAddr + 2 ^ 30) (hend : endAddr ≤ 2 ^ 31)
    (hs : kheapInit mem startAddr endAddr = some s) (calls : List Call)
    (hr : Along Client.next Client.Allowed ⟨s, []⟩ calls) :
    Along Client.next (fun p c =>
      Serves p.buffers (Client.request c) (p.step c).1 (p.next c).buffers ∧
        c.alignment ∣ (p.step c).1 ∧ Laid startAddr endAddr (p.next c)) ⟨s, []⟩ calls :=
  Along.of_inv (I := Ready startAddr endAddr)
    (fun _ _ h ha =>
      have hn := ready_next h hend ha
      ⟨hn.1, hn.2.1, hn.2.2, hn.1.laid⟩)
    (kheapInit_ready h30 hend hs) hr

theorem once_allowed (s : State) (size : Nat) :
    Along Client.next Client.Allowed ⟨s, []⟩ [.kmalloc size, .kfree (kmalloc s size).1] := by
  refine ⟨trivial, ?_, trivial⟩
  by_cases h0 : (kmalloc s size).1 = 0
  · exact .inl h0
  · refine .inr ⟨⟨(kmalloc s size).1, size⟩, ?_, rfl⟩
    have htake := take_block (r := kmalloc s size) ⟨s, []⟩ h0 size
    have hlive := congrArg (fun q => q.2.live) htake
    exact hlive ▸ List.mem_cons_self

theorem once_live (s : State) (size : Nat) :
    (run Client.next ⟨s, []⟩ [.kmalloc size, .kfree (kmalloc s size).1]).live = [] := by
  change release (Client.take ⟨s, []⟩ (kmalloc s size) size).2.live (kmalloc s size).1 = []
  unfold Client.take release
  dsimp only
  split
  · rfl
  · exact List.eraseP_cons_of_pos (decide_eq_true rfl)

theorem kheapInit_megabyte : ∃ s, kheapInit (fun _ => 0) 0x100000 0x200000 = some s :=
  Option.isSome_iff_exists.mp ((kheapInit_spec (fun _ => 0) (by decide) (by decide)).1.mpr (by decide))

theorem calls_served_once : ∃ s, kheapInit (fun _ => 0) 0x100000 0x200000 = some s ∧
    Along Client.next (fun p c =>
      Serves p.buffers (Client.request c) (p.step c).1 (p.next c).buffers ∧
        c.alignment ∣ (p.step c).1 ∧ Laid 0x100000 0x200000 (p.next c)) ⟨s, []⟩
      [.kmalloc 100, .kfree (kmalloc s 100).1] := by
  obtain ⟨s, hs⟩ := kheapInit_megabyte
  exact ⟨s, hs, calls_served (fun _ => 0) (by decide) (by decide) hs _ (once_allowed s 100)⟩

/-! ## Room -/

/-- A free block with some room more than a request is found. -/
theorem kmalloc_ne_zero (h : Sound s start body stop) (hc : c ∈ body) (hf : c.free = true) (hpos : 0 < size)
    (hroom : size + size / 32 + 12 ≤ c.size) : (kmalloc s size).1 ≠ 0 := by
  have hmax := (h.work.pool.sized c hc).max
  have hlt : size < 2 ^ 31 := by omega
  unfold kmalloc
  rw [if_neg (by omega)]
  rcases tlsfMalloc_spec h hlt with ⟨-, hnone⟩ | ⟨us, vs, d, body', -, -, -, hg⟩
  · obtain ⟨-, -, hup⟩ := alignUp_spec (x := size) (k := 2) (by decide) (by omega)
    have hadj := adjust_word hpos (by unfold blockSizeMax; omega)
    have hadj0 : adjustRequestSize size alignSize ≠ 0 := by
      rw [hadj]
      unfold blockSizeMin
      omega
    obtain ⟨-, -, h4, -, -⟩ := adjust_aligned hlt hadj0
    obtain ⟨-, -, hlower⟩ := lower_mappingSearch h4
    have hsmall := hnone.resolve_left hadj0 c hc hf
    unfold blockSizeMin at hadj
    omega
  · exact hg.ne_zero

theorem run_ready {calls : List Call} (h30 : endAddr ≤ startAddr + 2 ^ 30) (hend : endAddr ≤ 2 ^ 31)
    (hs : kheapInit mem startAddr endAddr = some s)
    (hr : Along Client.next Client.Allowed ⟨s, []⟩ calls) :
    Ready startAddr endAddr (run Client.next ⟨s, []⟩ calls) :=
  run_inv (I := Ready startAddr endAddr) (fun _ _ h ha => (ready_next h hend ha).1)
    (kheapInit_ready h30 hend hs) hr

/-- When the kernel has given every block back, the heap is whole again. -/
theorem kmalloc_all_freed (mem : Nat → UInt8) (h30 : endAddr ≤ startAddr + 2 ^ 30) (hend : endAddr ≤ 2 ^ 31)
    (hs : kheapInit mem startAddr endAddr = some s) (calls : List Call)
    (hr : Along Client.next Client.Allowed ⟨s, []⟩ calls) (hlive : (run Client.next ⟨s, []⟩ calls).live = [])
    (hpos : 0 < size) (hroom : size + size / 32 + tlsfSize + 24 ≤ endAddr - startAddr) :
    (kmalloc (run Client.next ⟨s, []⟩ calls).heap size).1 ≠ 0 := by
  obtain ⟨stop, body, h, -, -, hhigh⟩ := run_ready h30 hend hs hr
  have hused : used body = [] := List.eq_nil_iff_forall_not_mem.mpr fun c hc => by
    obtain ⟨l, hl, -⟩ := h.taken c hc
    rw [hlive] at hl
    exact List.not_mem_nil hl
  have hcontrol : tlsfSize = 3188 := rfl
  have hone := h.sound.all_free hused (by omega)
  refine kmalloc_ne_zero h.sound (c := ⟨startAddr + tlsfSize - 4, stop - (startAddr + tlsfSize - 4) - 4, true⟩)
    ?_ rfl hpos ?_
  · rw [hone]
    exact List.mem_cons_self
  · dsimp only
    omega

theorem kmalloc_all_freed_once : ∃ s, kheapInit (fun _ => 0) 0x100000 0x200000 = some s ∧
    (kmalloc (run Client.next ⟨s, []⟩ [.kmalloc 100, .kfree (kmalloc s 100).1]).heap 1000000).1 ≠ 0 := by
  obtain ⟨s, hs⟩ := kheapInit_megabyte
  exact ⟨s, hs, kmalloc_all_freed (fun _ => 0) (by decide) (by decide) hs _ (once_allowed s 100)
    (once_live s 100) (by decide) (by decide)⟩

/-! ## The totals along a run -/

/-- The totals are those of the blocks of the pool, and what `kmalloc` refuses does not fit the largest
free block. -/
theorem totals_run (mem : Nat → UInt8) (h30 : endAddr ≤ startAddr + 2 ^ 30) (hend : endAddr ≤ 2 ^ 31)
    (hs : kheapInit mem startAddr endAddr = some s) (calls : List Call)
    (hr : Along Client.next Client.Allowed ⟨s, []⟩ calls) :
    ∃ blocks t, walkPool (run Client.next ⟨s, []⟩ calls).heap.mem (endAddr - startAddr)
        (startAddr + tlsfSize - blockHeaderOverhead) = some blocks ∧
      heapTotals (run Client.next ⟨s, []⟩ calls).heap.mem startAddr (endAddr - startAddr) = some t ∧
      (t.used + t.free + 4 * blocks.length + tlsfSize + 4 ≤ endAddr - startAddr ∧
        endAddr - startAddr < t.used + t.free + 4 * blocks.length + tlsfSize + 8) ∧
      ∀ size, 0 < size → (kmalloc (run Client.next ⟨s, []⟩ calls).heap size).1 = 0 →
        t.largestFree < size + size / 32 + 12 := by
  obtain ⟨stop, body, h, -, hlow, hhigh⟩ := run_ready h30 hend hs hr
  generalize run Client.next ⟨s, []⟩ calls = p at *
  have hp := h.sound.work.pool
  have hcontrol : tlsfSize = 3188 := rfl
  have hfit : ∀ u f n, u + f + 4 * n + (startAddr + tlsfSize - 4) = 0 + 0 + stop → n < endAddr - startAddr ∧
      u + f + 4 * n + tlsfSize + 4 ≤ endAddr - startAddr ∧
      endAddr - startAddr < u + f + 4 * n + tlsfSize + 8 := fun u f n hsum => by omega
  obtain ⟨hsum, -, -, hlargest⟩ := totals_spec hp.tiled ⟨0, 0, 0⟩
  generalize ht : (body.map Cell.report).foldl tallyBlock ⟨0, 0, 0⟩ = t at *
  obtain ⟨hlen, hlo, hhi⟩ := hfit _ _ _ hsum
  have hwalk : walkPool p.heap.mem (endAddr - startAddr) (startAddr + tlsfSize - blockHeaderOverhead) =
      some (body.map Cell.report) :=
    walkPool_spec (by unfold blockHeaderOverhead; omega) hp.tiled hp.sized hp.cells hlen
  refine ⟨body.map Cell.report, t, hwalk, ?_, ?_, fun size hpos hrefused => ?_⟩
  · unfold heapTotals
    rw [hwalk]
    exact congrArg some ht
  · rw [List.length_map]
    exact ⟨hlo, hhi⟩
  · by_contra hroom
    rcases hlargest with hzero | ⟨c, hc, hf, hsize⟩
    · exact hroom (hzero ▸ Nat.succ_pos _)
    · exact kmalloc_ne_zero h.sound hc hf hpos (by omega) hrefused

theorem totals_run_once : ∃ s, kheapInit (fun _ => 0) 0x100000 0x200000 = some s ∧
    ∃ blocks t, walkPool (run Client.next ⟨s, []⟩ [.kmalloc 100, .kfree (kmalloc s 100).1]).heap.mem
        (0x200000 - 0x100000) (0x100000 + tlsfSize - blockHeaderOverhead) = some blocks ∧
      heapTotals (run Client.next ⟨s, []⟩ [.kmalloc 100, .kfree (kmalloc s 100).1]).heap.mem 0x100000
        (0x200000 - 0x100000) = some t ∧
      (t.used + t.free + 4 * blocks.length + tlsfSize + 4 ≤ 0x200000 - 0x100000 ∧
        0x200000 - 0x100000 < t.used + t.free + 4 * blocks.length + tlsfSize + 8) ∧
      ∀ size, 0 < size →
        (kmalloc (run Client.next ⟨s, []⟩ [.kmalloc 100, .kfree (kmalloc s 100).1]).heap size).1 = 0 →
        t.largestFree < size + size / 32 + 12 := by
  obtain ⟨s, hs⟩ := kheapInit_megabyte
  exact ⟨s, hs, totals_run (fun _ => 0) (by decide) (by decide) hs _ (once_allowed s 100)⟩

end Tlsf
end Hashx86
