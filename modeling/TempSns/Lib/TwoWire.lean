import Mathlib.Data.List.Basic
import Mathlib.Tactic

/-!
# The bit rules of a two-wire bus

The master of a two-wire bus drives a clock and a data line and samples the data line. While the clock is
high, a falling data line is a start and a rising one is a stop. A high phase of the clock in which the
data line keeps its level is a bit. Bytes go most significant bit first, and a ninth bit acknowledges
them: it is low for an acknowledge.
-/

namespace TwoWire

/-- What the master does to the lines: it sets the data line or the clock, or it samples the data line. -/
inductive Event
  | sda (level : Bool)
  | scl (level : Bool)
  | sample (level : Bool)
  deriving DecidableEq, Repr

/-- What is sent over the lines. -/
inductive Symbol
  | start
  | stop
  | bit (b : Bool)
  deriving DecidableEq, Repr

/-- The levels the master drives, the bit of the present high phase of the clock if there is one, and the
symbols so far. -/
structure Decoder where
  sda : Bool
  scl : Bool
  bit : Option Bool
  out : List Symbol
  deriving DecidableEq, Repr

namespace Decoder

/-- Both lines are released. -/
def idle : Decoder := ⟨true, true, none, []⟩

/-- One event. The lines are wired-and, so that a bit the master samples is low if either side pulls the
data line low. -/
def step (d : Decoder) : Event → Decoder
  | .sda b =>
    if d.scl = true ∧ b ≠ d.sda then
      { d with sda := b, bit := none, out := d.out ++ [if b then .stop else .start] }
    else { d with sda := b }
  | .scl true => if d.scl then d else { d with scl := true, bit := some d.sda }
  | .scl false =>
    if d.scl then { d with scl := false, bit := none, out := d.out ++ d.bit.toList.map .bit } else d
  | .sample b => { d with bit := d.bit.map (· && b) }

end Decoder

/-- The events of a master, oldest first. -/
abbrev Trace := List Event

def decode (t : Trace) : Decoder := t.foldl Decoder.step Decoder.idle

/-- The clock is low after `t`, the master drives the data line to `s`, and `t` decodes to `out`. -/
def Low (t : Trace) (s : Bool) (out : List Symbol) : Prop := decode t = ⟨s, false, none, out⟩

/-- Both lines are released after `t`, and `t` decodes to `out`. -/
def Idle (t : Trace) (out : List Symbol) : Prop := decode t = ⟨true, true, none, out⟩

/-- `t` decodes to `out` once the clock falls. -/
def Settled (t : Trace) (out : List Symbol) : Prop := ∃ s, Low (t ++ [.scl false]) s out

variable {t : Trace} {s : Bool} {out : List Symbol}

lemma decode_append (t es : Trace) : decode (t ++ es) = es.foldl Decoder.step (decode t) :=
  List.foldl_append

lemma idle_nil : Idle [] [] := rfl

lemma Low.settled (h : Low t s out) : Settled t out := by
  refine ⟨s, ?_⟩
  rw [Low, decode_append, h]
  rfl

/-- The master moves the data line while the clock is low. -/
lemma Low.sda (h : Low t s out) (b : Bool) : Low (t ++ [.sda b]) b out := by
  rw [Low, decode_append, h]
  rfl

lemma Low.send (h : Low t s out) : Low (t ++ [.scl true] ++ [.scl false]) s (out ++ [.bit s]) := by
  rw [Low, decode_append, decode_append, h]
  rfl

/-- The master samples a bit while it leaves the data line released. -/
lemma Low.sample (h : Low t true out) (b : Bool) :
    Low (t ++ [.scl true] ++ [.sample b, .scl false]) true (out ++ [.bit b]) := by
  rw [Low, decode_append, decode_append, h]
  cases b <;> rfl

lemma Idle.start (h : Idle t out) : Low (t ++ [.sda false, .scl false]) false (out ++ [.start]) := by
  rw [Low, decode_append, h]
  simp [Decoder.step]

lemma Low.restart (h : Low t true out) :
    Low (t ++ [.scl true] ++ [.sda false, .scl false]) false (out ++ [.start]) := by
  rw [Low, decode_append, decode_append, h]
  simp [Decoder.step]

/-- The data line is pulled low, the clock is released, and the data line rises. -/
lemma Low.stop (h : Low t false out) :
    Idle (t ++ [.scl true] ++ [.sda true]) (out ++ [.stop]) := by
  rw [Idle, decode_append, decode_append, h]
  rfl

/-! ## Bytes -/

/-- The `n` low bits of a byte, the most significant one first. -/
def lowBits (b : UInt8) : ℕ → List Bool
  | 0 => []
  | n + 1 => b.toNat.testBit n :: lowBits b n

/-- A bit is shifted into a byte from below. -/
def shiftIn (b : UInt8) (x : Bool) : UInt8 := (b <<< 1) ||| (if x then 1 else 0)

/-- A byte on the bus with its ninth bit: the master sends it and `ack` comes from the other side, or the
master receives it and sends `ack`. -/
inductive Frame
  | start
  | stop
  | send (b : UInt8) (ack : Bool)
  | receive (b : UInt8) (ack : Bool)
  deriving DecidableEq, Repr

namespace Frame

def symbols : Frame → List Symbol
  | .start => [.start]
  | .stop => [.stop]
  | .send b ack | .receive b ack => (lowBits b 8).map .bit ++ [.bit !ack]

end Frame

def symbols (fs : List Frame) : List Symbol := fs.flatMap Frame.symbols

@[simp] lemma symbols_nil : symbols [] = [] := rfl

@[simp] lemma symbols_cons (f : Frame) (fs : List Frame) :
    symbols (f :: fs) = f.symbols ++ symbols fs := List.flatMap_cons

@[simp] lemma symbols_append (fs fs' : List Frame) :
    symbols (fs ++ fs') = symbols fs ++ symbols fs' := List.flatMap_append

lemma lowBits_shiftIn (b7 b6 b5 b4 b3 b2 b1 b0 : Bool) :
    lowBits ([b7, b6, b5, b4, b3, b2, b1, b0].foldl shiftIn 0) 8 =
      [b7, b6, b5, b4, b3, b2, b1, b0] := by
  revert b7 b6 b5 b4 b3 b2 b1 b0
  decide +kernel

lemma lowBits_foldl_shiftIn {l : List Bool} (h : l.length = 8) :
    lowBits (l.foldl shiftIn 0) 8 = l := by
  match l, h with
  | [b7, b6, b5, b4, b3, b2, b1, b0], _ => exact lowBits_shiftIn b7 b6 b5 b4 b3 b2 b1 b0

end TwoWire
