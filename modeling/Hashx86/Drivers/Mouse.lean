import Hashx86.Lib.Run
import Mathlib.Algebra.Ring.Int.Defs

/-!
# The PS/2 mouse (`core/drivers/mouse.cpp`)

`handleInterrupt` is `MouseDriver::HandleInterrupt`: one interrupt, with what the status and the
data port say then. A packet is three bytes, or four with a wheel; other interrupts may come between
its bytes (`Arrival`).

* `handle_packet`: what the driver reports of a packet.
* `Right`: the movement, the buttons and the wheel of a stream are reported as the packets encode
  them. `reports_stream_iff`: they are if and only if every movement fits in eight bits, as the
  driver does not read the ninth ones, the signs in byte 0.
-/

namespace Hashx86
namespace Mouse

open Lib

abbrev Byte := BitVec 8

/-- The calls of the event handler. -/
inductive Report where
  | move (dx dy : Int)
  | down (button : Nat)
  | up (button : Nat)
  | wheel (delta : Int)
  deriving DecidableEq

/-- `MouseDriver`; `eventHandler` says that there is one. -/
structure Driver where
  eventHandler : Bool
  buffer : Nat → Byte
  offset : Nat
  buttons : Byte
  hasWheel : Bool
  accumDX : BitVec 32
  accumDY : BitVec 32

structure Interrupt where
  status : Byte
  data : Byte

/-! ## The driver -/

def Driver.packetSize (d : Driver) : Nat := if d.hasWheel then 4 else 3

/-- `dx` and `dy` -/
def moved (buffer : Nat → Byte) : Int × Int :=
  (if (buffer 0).getLsbD 6 then 0 else (buffer 1).toInt,
    if (buffer 0).getLsbD 7 then 0 else -(buffer 2).toInt)

/-- The loop over the buttons, round `i`. -/
def buttonReport (buttons btnState : Byte) (i : Nat) : List Report :=
  if btnState.getLsbD i ≠ buttons.getLsbD i then
    if buttons.getLsbD i then [.up (i + 1)] else [.down (i + 1)]
  else []

/-- `(int8_t)(buffer[3] << 4) >> 4` -/
def wheelDelta (b : Byte) : Int := ((b <<< 4).sshiftRight 4).toInt

/-- What is done when the packet is complete. -/
def Driver.complete (d : Driver) : Driver × List Report :=
  let still := d.buffer 1 = 0 ∧ d.buffer 2 = 0
  let (dx, dy) := moved d.buffer
  let btnState := d.buffer 0 &&& 0x7
  let z := wheelDelta (d.buffer 3)
  ({ d with
      accumDX := if still then d.accumDX else d.accumDX + BitVec.ofInt 32 dx
      accumDY := if still then d.accumDY else d.accumDY + BitVec.ofInt 32 dy
      buttons := btnState },
    (if still then [] else [.move dx dy]) ++
      (List.range 3).flatMap (buttonReport d.buttons btnState) ++
      if d.hasWheel ∧ z ≠ 0 then [.wheel z] else [])

/-- `buffer[offset] = data; offset = (offset + 1) % packetSize` -/
def Driver.store (d : Driver) (data : Byte) : Driver :=
  { d with
    buffer := fun k => if k = d.offset then data else d.buffer k
    offset := (d.offset + 1) % d.packetSize }

def handleInterrupt (d : Driver) (i : Interrupt) : Driver × List Report :=
  if i.status &&& 0x21 ≠ 0x21 then (d, [])
  else if !d.eventHandler then (d, [])
  -- Byte 0 of a packet has bit 3 set.
  else if d.offset = 0 ∧ !i.data.getLsbD 3 then (d, [])
  else
    let d := d.store i.data
    if d.offset = 0 then d.complete else (d, [])

/-- Interrupts one after the other, and all that is reported. -/
def handle (d : Driver) : List Interrupt → Driver × List Report
  | [] => (d, [])
  | i :: is => ((handle (handleInterrupt d i).1 is).1,
      (handleInterrupt d i).2 ++ (handle (handleInterrupt d i).1 is).2)

/-! ## Packets -/

/-- A packet as the mouse sends it. Byte 3 is there with a wheel only. -/
structure Packet where
  b0 : Byte
  b1 : Byte
  b2 : Byte
  b3 : Byte
  start : b0.getLsbD 3 = true

/-- The data bytes of the mouse among what the interrupts read. -/
def accepted (is : List Interrupt) : List Byte :=
  is.filterMap fun i => if i.status &&& 0x21 = 0x21 then some i.data else none

namespace Packet

variable (p : Packet)

def bytes (hasWheel : Bool) : List Byte :=
  if hasWheel then [p.b0, p.b1, p.b2, p.b3] else [p.b0, p.b1, p.b2]

/-- A two's-complement value of nine bits. -/
def nineBit (sign : Bool) (low : Byte) : Int := (BitVec.ofBool sign ++ low).toInt

/-- The movement that the packet encodes: to the right, and down. -/
def movement : Int × Int :=
  (if p.b0.getLsbD 6 then 0 else nineBit (p.b0.getLsbD 4) p.b1,
    if p.b0.getLsbD 7 then 0 else -nineBit (p.b0.getLsbD 5) p.b2)

/-- The wheel is a two's-complement value of four bits. -/
def wheel : Int := (p.b3.extractLsb' 0 4).toInt

/-- On each axis the value overflows, or the ninth bit repeats the eighth. -/
def Fits : Prop :=
  (p.b0.getLsbD 6 = true ∨ p.b0.getLsbD 4 = p.b1.msb) ∧
    (p.b0.getLsbD 7 = true ∨ p.b0.getLsbD 5 = p.b2.msb)

instance : Decidable p.Fits := inferInstanceAs (Decidable (_ ∧ _))

end Packet

/-- A packet with the interrupts that bring it. -/
structure Arrival (hasWheel : Bool) where
  packet : Packet
  interrupts : List Interrupt
  delivers : accepted interrupts = packet.bytes hasWheel

/-! ## One packet -/

/-- The driver waits for byte 0, with a handler. -/
structure Driver.Ready (d : Driver) (hasWheel : Bool) : Prop where
  handler : d.eventHandler = true
  start : d.offset = 0
  wheel : d.hasWheel = hasWheel

theorem handleInterrupt_ignored (d : Driver) {i : Interrupt} (h : i.status &&& 0x21 ≠ 0x21) :
    handleInterrupt d i = (d, []) := if_pos h

theorem mouse_ready : ¬ ((0x21 : Byte) &&& 0x21 ≠ 0x21) := by decide

theorem handleInterrupt_status (d : Driver) {i : Interrupt} (h : i.status &&& 0x21 = 0x21) :
    handleInterrupt d i = handleInterrupt d ⟨0x21, i.data⟩ := by
  unfold handleInterrupt
  rw [if_neg (not_not_intro h), if_neg mouse_ready]

/-- Only the accepted bytes matter. -/
theorem handle_accepted (is : List Interrupt) : ∀ d : Driver,
    handle d is = handle d ((accepted is).map fun b => ⟨0x21, b⟩) := by
  induction is with
  | nil => exact fun _ => rfl
  | cons i is ih =>
    intro d
    by_cases h : i.status &&& 0x21 = 0x21
    · have hacc : accepted (i :: is) = i.data :: accepted is := by
        rw [accepted, List.filterMap_cons, if_pos h]
        rfl
      rw [hacc, List.map_cons, handle, handle, handleInterrupt_status d h, ih]
    · have hacc : accepted (i :: is) = accepted is := by
        rw [accepted, List.filterMap_cons, if_neg h]
        rfl
      rw [hacc, handle, handleInterrupt_ignored d h, ih]
      rfl

/-- What is reported of a packet. -/
def Packet.reports (p : Packet) (d : Driver) : List Report :=
  (if p.b1 = 0 ∧ p.b2 = 0 then [] else
      [.move (if p.b0.getLsbD 6 then 0 else p.b1.toInt)
        (if p.b0.getLsbD 7 then 0 else -p.b2.toInt)]) ++
    (List.range 3).flatMap (buttonReport d.buttons (p.b0 &&& 0x7)) ++
    if d.hasWheel ∧ wheelDelta p.b3 ≠ 0 then [.wheel (wheelDelta p.b3)] else []

theorem handleInterrupt_byte {d : Driver} {b : Byte} (hh : d.eventHandler = true)
    (hs : d.offset = 0 → b.getLsbD 3 = true) : handleInterrupt d ⟨0x21, b⟩ =
      if (d.store b).offset = 0 then (d.store b).complete else (d.store b, []) := by
  have hsync : ¬ (d.offset = 0 ∧ (!b.getLsbD 3) = true) := fun hn => by
    rw [hs hn.1] at hn
    exact Bool.false_ne_true hn.2
  unfold handleInterrupt
  rw [if_neg mouse_ready, hh, if_neg (by decide), if_neg hsync]

/-- A byte that does not complete the packet. -/
theorem handle_store {d : Driver} {b : Byte} (hh : d.eventHandler = true)
    (hs : d.offset = 0 → b.getLsbD 3 = true) (hn : (d.store b).offset ≠ 0) (is : List Interrupt) :
    handle d (⟨0x21, b⟩ :: is) = handle (d.store b) is := by
  rw [handle, handleInterrupt_byte hh hs, if_neg hn]
  rfl

/-- The byte that completes the packet. -/
theorem handle_last {d : Driver} {b : Byte} (hh : d.eventHandler = true) (ho : d.offset ≠ 0)
    (hn : (d.store b).offset = 0) : handle d [⟨0x21, b⟩] = (d.store b).complete := by
  rw [handle, handleInterrupt_byte hh fun h => absurd h ho, if_pos hn, handle, List.append_nil]

section Store

variable (d : Driver) (b : Byte)

theorem Driver.store_offset : (d.store b).offset = (d.offset + 1) % d.packetSize := rfl

theorem Driver.store_packetSize : (d.store b).packetSize = d.packetSize := rfl

theorem Driver.store_buffer (k : Nat) :
    (d.store b).buffer k = if k = d.offset then b else d.buffer k := rfl

end Store

/-- The reports of a packet whose bytes are in the buffer. -/
theorem complete_reports {d d' : Driver} {p : Packet} (h0 : d'.buffer 0 = p.b0)
    (h1 : d'.buffer 1 = p.b1) (h2 : d'.buffer 2 = p.b2)
    (h3 : d.hasWheel = true → d'.buffer 3 = p.b3) (hw : d'.hasWheel = d.hasWheel)
    (hb : d'.buttons = d.buttons) : d'.complete.2 = p.reports d := by
  unfold Driver.complete Packet.reports moved
  dsimp only
  rw [h0, h1, h2, hw, hb]
  cases hwheel : d.hasWheel with
  | true => rw [h3 hwheel]
  | false =>
    have hno : ∀ z : Int, ¬ (false = true ∧ z ≠ 0) := fun _ h => Bool.false_ne_true h.1
    rw [if_neg (hno (wheelDelta (d'.buffer 3))), if_neg (hno (wheelDelta p.b3))]

theorem handle_packet {d : Driver} {w : Bool} (hd : d.Ready w) (a : Arrival w) :
    (handle d a.interrupts).2 = a.packet.reports d ∧ (handle d a.interrupts).1.Ready w ∧
      (handle d a.interrupts).1.buttons = a.packet.b0 &&& 0x7 := by
  obtain ⟨p, is, hdel⟩ := a
  obtain ⟨hh, h0, rfl⟩ := hd
  rw [handle_accepted, hdel, Packet.bytes]
  by_cases hw : d.hasWheel = true
  · have hp : d.packetSize = 4 := if_pos hw
    have h1 : (d.store p.b0).offset = 1 := by rw [Driver.store_offset, h0, hp]
    have h2 : ((d.store p.b0).store p.b1).offset = 2 := by
      rw [Driver.store_offset, h1, Driver.store_packetSize, hp]
    have h3 : (((d.store p.b0).store p.b1).store p.b2).offset = 3 := by
      rw [Driver.store_offset, h2, Driver.store_packetSize, Driver.store_packetSize, hp]
    have h4 : ((((d.store p.b0).store p.b1).store p.b2).store p.b3).offset = 0 := by
      rw [Driver.store_offset, h3, Driver.store_packetSize, Driver.store_packetSize,
        Driver.store_packetSize, hp]
    have hrun : handle d ([p.b0, p.b1, p.b2, p.b3].map fun b => ⟨0x21, b⟩) =
        ((((d.store p.b0).store p.b1).store p.b2).store p.b3).complete := by
      rw [List.map_cons, handle_store hh (fun _ => p.start) (by omega), List.map_cons,
        handle_store (d := d.store p.b0) hh (by omega) (by omega), List.map_cons,
        handle_store (d := (d.store p.b0).store p.b1) hh (by omega) (by omega), List.map_cons,
        List.map_nil, handle_last (d := ((d.store p.b0).store p.b1).store p.b2) hh (by omega) h4]
    have hb0 : ((((d.store p.b0).store p.b1).store p.b2).store p.b3).buffer 0 = p.b0 := by
      simp [Driver.store_buffer, h0, h1, h2, h3]
    rw [if_pos hw, hrun]
    refine ⟨complete_reports hb0 ?_ ?_ (fun _ => ?_) rfl rfl, ⟨hh, h4, rfl⟩, ?_⟩
    · simp [Driver.store_buffer, h1, h2, h3]
    · simp [Driver.store_buffer, h2, h3]
    · simp [Driver.store_buffer, h3]
    · exact congrArg (· &&& 0x7) hb0
  · have hp : d.packetSize = 3 := if_neg hw
    have h1 : (d.store p.b0).offset = 1 := by rw [Driver.store_offset, h0, hp]
    have h2 : ((d.store p.b0).store p.b1).offset = 2 := by
      rw [Driver.store_offset, h1, Driver.store_packetSize, hp]
    have h3 : (((d.store p.b0).store p.b1).store p.b2).offset = 0 := by
      rw [Driver.store_offset, h2, Driver.store_packetSize, Driver.store_packetSize, hp]
    have hrun : handle d ([p.b0, p.b1, p.b2].map fun b => ⟨0x21, b⟩) =
        (((d.store p.b0).store p.b1).store p.b2).complete := by
      rw [List.map_cons, handle_store hh (fun _ => p.start) (by omega), List.map_cons,
        handle_store (d := d.store p.b0) hh (by omega) (by omega), List.map_cons, List.map_nil,
        handle_last (d := (d.store p.b0).store p.b1) hh (by omega) h3]
    have hb0 : (((d.store p.b0).store p.b1).store p.b2).buffer 0 = p.b0 := by
      simp [Driver.store_buffer, h0, h1, h2]
    rw [if_neg hw, hrun]
    refine ⟨complete_reports hb0 ?_ ?_ (fun h => absurd h hw) rfl rfl, ⟨hh, h3, rfl⟩, ?_⟩
    · simp [Driver.store_buffer, h1, h2]
    · simp [Driver.store_buffer, h2]
    · exact congrArg (· &&& 0x7) hb0

/-! ## What the reports say -/

/-- The movement that a report adds. -/
def Report.delta : Report → Int × Int
  | .move dx dy => (dx, dy)
  | _ => (0, 0)

/-- The sum of the movements. -/
def moves : List Report → Int × Int
  | [] => (0, 0)
  | r :: rs => (r.delta.1 + (moves rs).1, r.delta.2 + (moves rs).2)

/-- Button `i` went down (`true`) or up. -/
def Report.edge (i : Nat) : Report → Option Bool
  | .down button => if button = i + 1 then some true else none
  | .up button => if button = i + 1 then some false else none
  | _ => none

/-- The events of button `i`. -/
def edges (i : Nat) (rs : List Report) : List Bool := rs.filterMap (Report.edge i)

def Report.turn : Report → Option Int
  | .wheel delta => some delta
  | _ => none

/-- The events of the wheel. -/
def turns (rs : List Report) : List Int := rs.filterMap Report.turn

/-- The changes of a bit, from `prev` on. -/
def changes (prev : Bool) : List Bool → List Bool
  | [] => []
  | b :: bs => (if b ≠ prev then [b] else []) ++ changes b bs

/-- `first`, then the other value, and so on. -/
def Alternates (first : Bool) : List Bool → Prop
  | [] => True
  | b :: bs => b = first ∧ Alternates (!first) bs

theorem alternates_changes (bs : List Bool) : ∀ prev, Alternates (!prev) (changes prev bs) := by
  induction bs with
  | nil => exact fun _ => trivial
  | cons b bs ih =>
    intro prev
    rw [changes]
    by_cases h : b = prev
    · rw [if_neg (not_not_intro h), List.nil_append, ← h]
      exact ih b
    · have hb : b = !prev := by
        cases b <;> cases prev <;> simp_all
      rw [if_pos h, List.singleton_append]
      exact ⟨hb, hb ▸ ih b⟩

theorem moves_append (rs ss : List Report) :
    moves (rs ++ ss) = ((moves rs).1 + (moves ss).1, (moves rs).2 + (moves ss).2) := by
  induction rs with
  | nil => simp [moves]
  | cons r rs ih =>
    rw [List.cons_append, moves, ih, moves]
    dsimp only
    rw [Int.add_assoc, Int.add_assoc]

theorem moves_eq_zero {rs : List Report} (h : ∀ r ∈ rs, r.delta = (0, 0)) : moves rs = (0, 0) := by
  induction rs with
  | nil => rfl
  | cons r rs ih =>
    rw [moves, h r List.mem_cons_self, ih fun r hr => h r (List.mem_cons_of_mem _ hr)]
    rfl

theorem delta_buttonReport (b n : Byte) (i : Nat) : ∀ r ∈ buttonReport b n i, r.delta = (0, 0) := by
  intro r hr
  unfold buttonReport at hr
  split at hr
  · split at hr
    · rw [List.mem_singleton.mp hr]
      rfl
    · rw [List.mem_singleton.mp hr]
      rfl
  · exact nomatch hr

theorem turns_buttonReport (b n : Byte) (i : Nat) : turns (buttonReport b n i) = [] := by
  unfold buttonReport
  split
  · split <;> rfl
  · rfl

theorem edges_buttonReport (b n : Byte) (i k : Nat) : edges i (buttonReport b n k) =
    if k = i ∧ n.getLsbD k ≠ b.getLsbD k then [n.getLsbD k] else [] := by
  unfold buttonReport edges
  by_cases hk : k = i
  · subst hk
    cases n.getLsbD k <;> cases b.getLsbD k <;> simp [Report.edge]
  · have hr : ¬ (k = i ∧ n.getLsbD k ≠ b.getLsbD k) := fun h => hk h.1
    rw [if_neg hr]
    split
    · split <;> simp [Report.edge, hk]
    · rfl

/-! ## One packet against its bytes -/

theorem wheelDelta_eq : ∀ b : Byte, wheelDelta b = (b.extractLsb' 0 4).toInt := by decide

/-- What is reported of an axis, against the nine bits. -/
theorem axis_iff : ∀ (b : Byte) (overflow sign : Bool),
    (if overflow then 0 else b.toInt) = (if overflow then 0 else Packet.nineBit sign b) ↔
      (overflow = true ∨ sign = b.msb) := by decide

theorem moves_reports (p : Packet) (d : Driver) : moves (p.reports d) =
    (if p.b0.getLsbD 6 then 0 else p.b1.toInt, if p.b0.getLsbD 7 then 0 else -p.b2.toInt) := by
  have hbuttons : moves ((List.range 3).flatMap (buttonReport d.buttons (p.b0 &&& 0x7))) = (0, 0) :=
    moves_eq_zero fun r hr => by
      obtain ⟨i, -, hr⟩ := List.mem_flatMap.mp hr
      exact delta_buttonReport _ _ i r hr
  have hwheel : moves
      (if d.hasWheel ∧ wheelDelta p.b3 ≠ 0 then [.wheel (wheelDelta p.b3)] else []) = (0, 0) := by
    split <;> rfl
  rw [Packet.reports, moves_append, moves_append, hbuttons, hwheel]
  by_cases h : p.b1 = 0 ∧ p.b2 = 0
  · rw [if_pos h, h.1, h.2]
    simp [moves]
  · rw [if_neg h]
    simp [moves, Report.delta]

theorem moves_iff (p : Packet) (d : Driver) : moves (p.reports d) = p.movement ↔ p.Fits := by
  rw [moves_reports, Packet.movement, Prod.mk.injEq]
  refine and_congr (axis_iff _ _ _) ?_
  rw [← axis_iff]
  cases p.b0.getLsbD 7 with
  | true => exact iff_of_true rfl rfl
  | false => exact Int.neg_inj

theorem edges_reports (p : Packet) (d : Driver) {i : Nat} (hi : i < 3) : edges i (p.reports d) =
    if p.b0.getLsbD i ≠ d.buttons.getLsbD i then [p.b0.getLsbD i] else [] := by
  have hmove : edges i (if p.b1 = 0 ∧ p.b2 = 0 then [] else
      [.move (if p.b0.getLsbD 6 then 0 else p.b1.toInt)
        (if p.b0.getLsbD 7 then 0 else -p.b2.toInt)]) = [] := by
    split <;> rfl
  have hwheel : edges i
      (if d.hasWheel ∧ wheelDelta p.b3 ≠ 0 then [.wheel (wheelDelta p.b3)] else []) = [] := by
    split <;> rfl
  have hbit : (p.b0 &&& 0x7).getLsbD i = p.b0.getLsbD i := by
    have h7 : ∀ i < 3, (0x7 : Byte).getLsbD i = true := by decide
    rw [BitVec.getLsbD_and, h7 i hi, Bool.and_true]
  have hbuttons : edges i ((List.range 3).flatMap (buttonReport d.buttons (p.b0 &&& 0x7))) =
      (List.range 3).flatMap fun k => edges i (buttonReport d.buttons (p.b0 &&& 0x7) k) :=
    List.filterMap_flatMap ..
  unfold Packet.reports
  rw [edges, List.filterMap_append, List.filterMap_append]
  change edges i _ ++ edges i _ ++ edges i _ = _
  rw [hmove, hwheel, hbuttons, List.nil_append, List.append_nil, ← hbit]
  simp only [edges_buttonReport]
  match i, hi with
  | 0, _ => simp [List.range_succ]
  | 1, _ => simp [List.range_succ]
  | 2, _ => simp [List.range_succ]

theorem turns_reports (p : Packet) (d : Driver) : turns (p.reports d) =
    if d.hasWheel ∧ p.wheel ≠ 0 then [p.wheel] else [] := by
  have hmove : turns (if p.b1 = 0 ∧ p.b2 = 0 then [] else
      [.move (if p.b0.getLsbD 6 then 0 else p.b1.toInt)
        (if p.b0.getLsbD 7 then 0 else -p.b2.toInt)]) = [] := by
    split <;> rfl
  have hbuttons : turns ((List.range 3).flatMap (buttonReport d.buttons (p.b0 &&& 0x7))) = [] := by
    rw [turns, List.filterMap_flatMap]
    exact List.flatMap_eq_nil_iff.mpr fun k _ => turns_buttonReport _ _ k
  unfold Packet.reports
  rw [turns, List.filterMap_append, List.filterMap_append]
  change turns _ ++ turns _ ++ turns _ = _
  rw [hmove, hbuttons, List.nil_append, List.nil_append, wheelDelta_eq, Packet.wheel]
  split <;> rfl

/-! ## Streams -/

section Stream

variable {w : Bool}

def step (d : Driver) (a : Arrival w) : Driver := (handle d a.interrupts).1

def reported (d : Driver) (a : Arrival w) : List Report := (handle d a.interrupts).2

/-- All that is reported of a stream. -/
def allReported (d : Driver) (as : List (Arrival w)) : List Report :=
  (handle d (as.flatMap Arrival.interrupts)).2

theorem handle_append (is js : List Interrupt) : ∀ d : Driver, handle d (is ++ js) =
    ((handle (handle d is).1 js).1, (handle d is).2 ++ (handle (handle d is).1 js).2) := by
  induction is with
  | nil => exact fun _ => rfl
  | cons i is ih =>
    intro d
    rw [List.cons_append, handle, ih, handle, List.append_assoc]

theorem allReported_cons (d : Driver) (a : Arrival w) (as : List (Arrival w)) :
    allReported d (a :: as) = reported d a ++ allReported (step d a) as := by
  rw [allReported, List.flatMap_cons, handle_append]
  rfl

/-- The stream is reported as its packets encode it: the movement of each packet, and so their sum;
the changes of each button, down first; the turns of the wheel. -/
structure Right (d : Driver) (as : List (Arrival w)) : Prop where
  moved : Along step (fun d a => moves (reported d a) = a.packet.movement) d as
  sum : moves (allReported d as) =
    ((as.map fun a => a.packet.movement.1).sum, (as.map fun a => a.packet.movement.2).sum)
  buttons : ∀ i < 3, Alternates true (edges i (allReported d as)) ∧
    edges i (allReported d as) = changes false (as.map fun a => a.packet.b0.getLsbD i)
  wheel : Along step
    (fun d a => turns (reported d a) = if w ∧ a.packet.wheel ≠ 0 then [a.packet.wheel] else []) d as

theorem Driver.Ready.step {d : Driver} (hd : d.Ready w) (a : Arrival w) : (step d a).Ready w :=
  (handle_packet hd a).2.1

/-- A property of the packets alone holds of all of them exactly when it holds along the run. -/
theorem along_packets {P : Driver → Arrival w → Prop} {Q : Packet → Prop}
    (h : ∀ d a, Driver.Ready d w → (P d a ↔ Q a.packet)) (as : List (Arrival w)) :
    ∀ {d : Driver}, d.Ready w → (Along Mouse.step P d as ↔ ∀ a ∈ as, Q a.packet) := by
  induction as with
  | nil => exact fun _ => iff_of_true trivial nofun
  | cons a as ih =>
    intro d hd
    rw [along_cons, h d a hd, ih (hd.step a), List.forall_mem_cons]

theorem sum_moves (as : List (Arrival w)) : ∀ {d : Driver}, d.Ready w →
    Along step (fun d a => moves (reported d a) = a.packet.movement) d as →
    moves (allReported d as) =
      ((as.map fun a => a.packet.movement.1).sum, (as.map fun a => a.packet.movement.2).sum) := by
  induction as with
  | nil => exact fun _ _ => rfl
  | cons a as ih =>
    intro d hd hmoved
    rw [allReported_cons, moves_append, hmoved.1, ih (hd.step a) hmoved.2]
    rfl

theorem edges_stream {i : Nat} (hi : i < 3) (as : List (Arrival w)) : ∀ {d : Driver}, d.Ready w →
    edges i (allReported d as) =
      changes (d.buttons.getLsbD i) (as.map fun a => a.packet.b0.getLsbD i) := by
  induction as with
  | nil => exact fun _ => rfl
  | cons a as ih =>
    intro d hd
    obtain ⟨hreports, hnext, hbuttons⟩ := handle_packet hd a
    have h7 : ∀ i < 3, (0x7 : Byte).getLsbD i = true := by decide
    have hbit : (step d a).buttons.getLsbD i = a.packet.b0.getLsbD i := by
      rw [step, hbuttons, BitVec.getLsbD_and, h7 i hi, Bool.and_true]
    rw [allReported_cons, edges, List.filterMap_append]
    change edges i _ ++ edges i _ = _
    rw [reported, hreports, edges_reports _ _ hi, ih (hd.step a), hbit]
    rfl

/-- The reports are right exactly when every packet fits eight bits and a sign. -/
theorem reports_stream_iff {d : Driver} (hd : d.Ready w) (hb : d.buttons = 0)
    (as : List (Arrival w)) : Right d as ↔ ∀ a ∈ as, a.packet.Fits := by
  have hmoved : Along step (fun d a => moves (reported d a) = a.packet.movement) d as ↔
      ∀ a ∈ as, a.packet.Fits :=
    along_packets (fun d a hd => by rw [reported, (handle_packet hd a).1, moves_iff]) as hd
  refine ⟨fun h => hmoved.mp h.moved, fun h => ?_⟩
  have hfirst : ∀ i, d.buttons.getLsbD i = false := fun i => by rw [hb]; exact BitVec.getLsbD_zero
  refine ⟨hmoved.mpr h, sum_moves as hd (hmoved.mpr h), fun i hi => ?_, ?_⟩
  · rw [edges_stream hi as hd, hfirst]
    exact ⟨alternates_changes _ false, rfl⟩
  · refine (along_packets (Q := fun _ => True) (fun d a hd => ?_) as hd).mpr fun _ _ => trivial
    rw [reported, (handle_packet hd a).1, turns_reports, hd.wheel]
    exact iff_of_true rfl trivial

end Stream

/-- A driver after boot, with a handler. -/
def fresh (hasWheel : Bool) : Driver := ⟨true, fun _ => 0, 0, 0, hasWheel, 0, 0⟩

/-- A packet of a mouse with a wheel, an interrupt of the keyboard between its bytes. -/
def arrival (p : Packet) : Arrival true where
  packet := p
  interrupts := [⟨0x21, p.b0⟩, ⟨0x01, 0x1E⟩, ⟨0x21, p.b1⟩, ⟨0x21, p.b2⟩, ⟨0x21, p.b3⟩]
  delivers := by simp [accepted, Packet.bytes]

/-- The left button is pressed while the mouse moves left and up, then it is let go and the wheel
turned. -/
theorem right_slow : Right (fresh true)
    [arrival ⟨0x19, 0xFB, 0x03, 0, rfl⟩, arrival ⟨0x08, 0, 0, 0x0F, rfl⟩] :=
  (reports_stream_iff (w := true) ⟨rfl, rfl, rfl⟩ rfl _).mpr <| List.forall_mem_cons.mpr
    ⟨show Packet.Fits ⟨0x19, 0xFB, 0x03, 0, rfl⟩ by decide, List.forall_mem_singleton.mpr <|
      show Packet.Fits ⟨0x08, 0, 0, 0x0F, rfl⟩ by decide⟩

/-- 200 to the right is reported as 56 to the left. -/
theorem fast_move_turns : ¬ Right (fresh true) [arrival ⟨0x08, 200, 0, 0, rfl⟩] := by
  intro h
  have hmoved := h.moved.1
  have hready : (fresh true).Ready true := ⟨rfl, rfl, rfl⟩
  dsimp only at hmoved
  rw [reported, (handle_packet hready _).1, moves_iff] at hmoved
  exact absurd hmoved (show ¬ Packet.Fits ⟨0x08, 200, 0, 0, rfl⟩ by decide)

end Mouse
end Hashx86
