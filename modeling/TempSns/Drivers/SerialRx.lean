import TempSns.Lib.RingBuffer
import TempSns.Lib.Transition

/-!
# The receive FIFO of a serial device

Embedding of the interrupt mode of `components/drivers/serial/serial.c`: the receive part of
`rt_hw_serial_isr` and `_serial_int_rx`. Both work in short critical sections, one for each byte, so a
step of the machine is one such section, and the interrupt and any number of readers interleave
freely.

The same machine runs over the FIFO of the device and over a queue that drops its oldest byte when more
than `bufsz - 1` bytes would be stored (`Fifo`).
-/

namespace Drivers

open RingBuffer

structure SerialRxFifo where
  buffer : ℕ → UInt8
  putIndex : ℕ
  getIndex : ℕ
  isFull : Bool

/-- An index after `index += 1` and the test against the size of the buffer. -/
def nextIndex (bufsz index : ℕ) : ℕ :=
  if (index + 1) % 2 ^ 16 ≥ bufsz then 0 else (index + 1) % 2 ^ 16

/-- The critical section of `rt_hw_serial_isr` that stores a byte. -/
def rtHwSerialIsrPut (bufsz : ℕ) (fifo : SerialRxFifo) (ch : UInt8) : SerialRxFifo :=
  let putIndex := nextIndex bufsz fifo.putIndex
  let buffer := Function.update fifo.buffer fifo.putIndex ch
  -- if the next position is read index, discard this 'read char'
  if putIndex = fifo.getIndex then ⟨buffer, putIndex, nextIndex bufsz fifo.getIndex, true⟩
  else ⟨buffer, putIndex, fifo.getIndex, fifo.isFull⟩

/-- `rx_length` of `rt_hw_serial_isr`. -/
def rxLength (bufsz : ℕ) (fifo : SerialRxFifo) : ℕ :=
  if fifo.putIndex ≥ fifo.getIndex then fifo.putIndex - fifo.getIndex
  else bufsz - (fifo.getIndex - fifo.putIndex)

/-- The critical section of `_serial_int_rx`: the next byte, if there is data. -/
def serialIntRxByte (bufsz : ℕ) (fifo : SerialRxFifo) : Option (UInt8 × SerialRxFifo) :=
  if fifo.getIndex = fifo.putIndex ∧ fifo.isFull = false then none
  else some (fifo.buffer fifo.getIndex,
    { fifo with getIndex := nextIndex bufsz fifo.getIndex, isFull := false })

def serialFifoCalcRecvedLen (bufsz : ℕ) (fifo : SerialRxFifo) : ℕ :=
  if fifo.putIndex = fifo.getIndex then if fifo.isFull = false then 0 else bufsz
  else if fifo.putIndex > fifo.getIndex then fifo.putIndex - fifo.getIndex
  else bufsz - (fifo.getIndex - fifo.putIndex)

namespace SerialRx

/-- What the interrupt and the readers do to a store of bytes. -/
structure Store (F : Type) where
  /-- A byte is received. -/
  put : F → UInt8 → F
  /-- The next byte is taken out, if there is one. -/
  take : F → Option (UInt8 × F)
  /-- The length that is passed to `rx_indicate`. -/
  length : F → ℕ

def device (bufsz : ℕ) : Store SerialRxFifo where
  put := rtHwSerialIsrPut bufsz
  take := serialIntRxByte bufsz
  length := rxLength bufsz

/-- The queue: the oldest byte is dropped when more than `bufsz - 1` bytes would be stored. -/
def queue (bufsz : ℕ) : Store (List UInt8) where
  put q ch := if (q ++ [ch]).length > bufsz - 1 then (q ++ [ch]).tail else q ++ [ch]
  take
    | [] => none
    | ch :: q => some (ch, q)
  length := List.length

/-- What can be seen of the device: the reads in progress with the number of bytes that are missing and
the bytes read so far, the reads that returned, and the lengths passed to `rx_indicate`. -/
structure View (T : Type) where
  reading : T → Option (ℕ × List UInt8)
  /-- The reads that returned, with their bytes. -/
  returned : List (T × List UInt8)
  indicated : List ℕ

/-- A store with its readers. -/
structure Machine (F T : Type) where
  fifo : F
  view : View T

inductive Act (T : Type) where
  /-- The interrupt handler stores a byte. -/
  | receive (ch : UInt8)
  /-- The interrupt handler comes to its end and calls `rx_indicate`. -/
  | indicate
  /-- A thread calls `_serial_int_rx`. -/
  | read (t : T) (length : ℕ)
  /-- A round of the loop of `_serial_int_rx`. -/
  | round (t : T)

variable {F G T : Type} [DecidableEq T]

def View.setReading (v : View T) (t : T) (reading : Option (ℕ × List UInt8)) : View T :=
  { v with reading := Function.update v.reading t reading }

/-- The read of `t` returns. -/
def View.finish (v : View T) (t : T) (data : List UInt8) : View T :=
  { v.setReading t none with returned := v.returned ++ [(t, data)] }

def step (S : Store F) (m : Machine F T) : Act T → Option (Machine F T)
  | .receive ch => some { m with fifo := S.put m.fifo ch }
  | .indicate =>
    -- the callback is called with a length that is not 0
    if S.length m.fifo = 0 then some m
    else some { m with
      view := { m.view with indicated := m.view.indicated ++ [S.length m.fifo] } }
  | .read t length =>
    match m.view.reading t with
    | some _ => none
    | none => some { m with view := m.view.setReading t (some (length, [])) }
  | .round t =>
    match m.view.reading t with
    | none => none
    | some (0, data) => some { m with view := m.view.finish t data }
    | some (length + 1, data) =>
      match S.take m.fifo with
      -- no data
      | none => some { m with view := m.view.finish t data }
      | some (ch, fifo) =>
        some ⟨fifo, m.view.setReading t (some (length, data ++ [ch]))⟩

def run (S : Store F) (m : Machine F T) (acts : List (Act T)) : Option (Machine F T) :=
  Transition.run (step S) (fun _ _ => true) m acts

/-! ## Simulation -/

/-- `R` relates the states of two stores that cannot be distinguished. -/
structure Simulates (S : Store F) (S' : Store G) (R : F → G → Prop) : Prop where
  put : ∀ {f g} ch, R f g → R (S.put f ch) (S'.put g ch)
  length : ∀ {f g}, R f g → S.length f = S'.length g
  take_none : ∀ {f g}, R f g → S'.take g = none → S.take f = none
  take_some : ∀ {f g ch g'}, R f g → S'.take g = some (ch, g') →
    ∃ f', S.take f = some (ch, f') ∧ R f' g'

variable {S : Store F} {S' : Store G} {R : F → G → Prop} {m : Machine F T} {m' : Machine G T}

/-- Two machines that cannot be distinguished. -/
structure Same (R : F → G → Prop) (m : Machine F T) (m' : Machine G T) : Prop where
  fifo : R m.fifo m'.fifo
  view : m.view = m'.view

/-- Both machines can take the same steps, and cannot be distinguished afterwards. -/
lemma Simulates.step (h : Simulates S S' R) (hm : Same R m m') (a : Act T) :
    (step S m a = none ∧ step S' m' a = none) ∨
      ∃ n n', step S m a = some n ∧ step S' m' a = some n' ∧ Same R n n' := by
  obtain ⟨hfifo, hview⟩ := hm
  cases a with
  | receive ch => exact .inr ⟨_, _, rfl, rfl, h.put ch hfifo, hview⟩
  | indicate =>
    simp only [SerialRx.step, h.length hfifo, hview]
    split
    · exact .inr ⟨_, _, rfl, rfl, hfifo, hview⟩
    · exact .inr ⟨_, _, rfl, rfl, hfifo, rfl⟩
  | read t length =>
    simp only [SerialRx.step, hview]
    cases m'.view.reading t with
    | some _ => exact .inl ⟨rfl, rfl⟩
    | none => exact .inr ⟨_, _, rfl, rfl, hfifo, rfl⟩
  | round t =>
    simp only [SerialRx.step, hview]
    rcases m'.view.reading t with _ | ⟨_ | length, data⟩
    · exact .inl ⟨rfl, rfl⟩
    · exact .inr ⟨_, _, rfl, rfl, hfifo, rfl⟩
    · cases htake : S'.take m'.fifo with
      | none =>
        rw [h.take_none hfifo htake]
        exact .inr ⟨_, _, rfl, rfl, hfifo, rfl⟩
      | some next =>
        obtain ⟨ch, fifo'⟩ := next
        obtain ⟨fifo, htake', hnext⟩ := h.take_some hfifo htake
        rw [htake']
        exact .inr ⟨_, _, rfl, rfl, hnext, rfl⟩

lemma Simulates.run (h : Simulates S S' R) (hm : Same R m m') (acts : List (Act T)) :
    (run S m acts = none ∧ run S' m' acts = none) ∨
      ∃ n n', run S m acts = some n ∧ run S' m' acts = some n' ∧ Same R n n' := by
  induction acts generalizing m m' with
  | nil => exact .inr ⟨m, m', rfl, rfl, hm⟩
  | cons a acts ih =>
    simp only [SerialRx.run, Transition.run, if_true]
    rcases h.step hm a with ⟨hnone, hnone'⟩ | ⟨n, n', hn, hn', hsame⟩
    · rw [hnone, hnone']
      exact .inl ⟨rfl, rfl⟩
    · rw [hn, hn']
      exact ih hsame

/-! ## The FIFO of the device -/

variable {bufsz : ℕ} {fifo : SerialRxFifo} {q : List UInt8}

/-- The FIFO holds the bytes `q`. One cell stays free, and the flag is set only while there is
data. -/
structure Stores (bufsz : ℕ) (fifo : SerialRxFifo) (q : List UInt8) : Prop where
  ring : Holds bufsz fifo.buffer fifo.getIndex fifo.putIndex q
  length_lt : q.length < bufsz
  isFull : fifo.isFull = true → q ≠ []

lemma nextIndex_eq {index : ℕ} (hsize : bufsz < 2 ^ 16) (hindex : index < bufsz) :
    nextIndex bufsz index = next bufsz index := by
  rw [nextIndex, next, Nat.mod_eq_of_lt (by omega)]

namespace Stores

section

variable (h : Stores bufsz fifo q)

include h

lemma index_eq_iff : fifo.putIndex = fifo.getIndex ↔ q = [] := by
  have hinp := h.ring.inp_eq
  have hout := h.ring.out_lt
  have hlt := h.length_lt
  rw [hinp, ← List.length_eq_zero_iff]
  by_cases hwrap : fifo.getIndex + q.length < bufsz
  · rw [Nat.mod_eq_of_lt hwrap]
    omega
  · rw [Nat.mod_eq_sub_mod (by omega), Nat.mod_eq_of_lt (by omega)]
    omega

lemma put (hlo : 2 ≤ bufsz) (hhi : bufsz < 2 ^ 16) (ch : UInt8) :
    Stores bufsz (rtHwSerialIsrPut bufsz fifo ch) ((queue bufsz).put q ch) := by
  have hout := h.ring.out_lt
  have hput := nextIndex_eq hhi h.ring.inp_lt
  have hlt := h.length_lt
  have hpush := h.ring.push (x := ch) hlt
  have hlength : (q ++ [ch]).length = q.length + 1 := by simp
  -- the put index reaches the get index if the byte fills the ring
  have htest : next bufsz fifo.putIndex = fifo.getIndex ↔ q.length + 1 = bufsz := by
    rw [hpush.inp_eq, hlength]
    by_cases hwrap : fifo.getIndex + (q.length + 1) < bufsz
    · rw [Nat.mod_eq_of_lt hwrap]
      omega
    · rw [Nat.mod_eq_sub_mod (by omega), Nat.mod_eq_of_lt (by omega)]
      omega
  simp only [rtHwSerialIsrPut, queue, hput, hlength]
  by_cases hfull : q.length + 1 = bufsz
  · rw [if_pos (htest.mpr hfull), if_pos (by omega)]
    obtain ⟨x, rest, hcons⟩ := List.exists_cons_of_ne_nil
      (List.append_ne_nil_of_right_ne_nil q (List.cons_ne_nil ch []))
    rw [hcons, List.length_cons] at hlength
    rw [hcons] at hpush
    rw [hcons, List.tail_cons]
    refine ⟨?_, by omega, fun _ => List.ne_nil_of_length_pos (by omega)⟩
    rw [nextIndex_eq hhi hout]
    exact hpush.pop.2
  · rw [if_neg (mt htest.mp hfull), if_neg (by omega)]
    exact ⟨hpush, by omega, fun _ => List.append_ne_nil_of_right_ne_nil q (List.cons_ne_nil ch [])⟩

lemma rxLength_eq : rxLength bufsz fifo = q.length := by
  have hinp := h.ring.inp_eq
  have hout := h.ring.out_lt
  have hlt := h.length_lt
  unfold rxLength
  by_cases hwrap : fifo.getIndex + q.length < bufsz
  · rw [Nat.mod_eq_of_lt hwrap] at hinp
    rw [if_pos (by omega)]
    omega
  · rw [Nat.mod_eq_sub_mod (by omega), Nat.mod_eq_of_lt (by omega)] at hinp
    rw [if_neg (by omega)]
    omega

/-- The length that the other interfaces of the device report is the same. -/
lemma serialFifoCalcRecvedLen_eq : serialFifoCalcRecvedLen bufsz fifo = q.length := by
  have hlength := h.rxLength_eq
  unfold serialFifoCalcRecvedLen
  unfold rxLength at hlength
  by_cases heq : fifo.putIndex = fifo.getIndex
  · have hnil := h.index_eq_iff.mp heq
    have hflag : fifo.isFull = false := by
      cases hfull : fifo.isFull with
      | false => rfl
      | true => exact absurd hnil (h.isFull hfull)
    rw [if_pos heq, if_pos hflag, hnil]
    rfl
  · rw [if_neg heq]
    split <;> split at hlength <;> omega

end

lemma take_nil (h : Stores bufsz fifo []) : serialIntRxByte bufsz fifo = none := by
  have hflag : fifo.isFull = false := by
    cases hfull : fifo.isFull with
    | false => rfl
    | true => exact absurd rfl (h.isFull hfull)
  exact if_pos ⟨(h.index_eq_iff.mpr rfl).symm, hflag⟩

lemma take_cons {ch : UInt8} (h : Stores bufsz fifo (ch :: q)) (hhi : bufsz < 2 ^ 16) :
    ∃ fifo', serialIntRxByte bufsz fifo = some (ch, fifo') ∧ Stores bufsz fifo' q := by
  have hlt := h.length_lt
  rw [List.length_cons] at hlt
  have hne : ¬ (fifo.getIndex = fifo.putIndex ∧ fifo.isFull = false) :=
    fun hempty => List.cons_ne_nil ch q (h.index_eq_iff.mp hempty.1.symm)
  obtain ⟨hbyte, hring⟩ := h.ring.pop
  rw [← nextIndex_eq hhi h.ring.out_lt] at hring
  exact ⟨{ fifo with getIndex := nextIndex bufsz fifo.getIndex, isFull := false },
    by rw [serialIntRxByte, if_neg hne, hbyte], hring, by omega, nofun⟩

end Stores

lemma simulates (hlo : 2 ≤ bufsz) (hhi : bufsz < 2 ^ 16) :
    Simulates (device bufsz) (queue bufsz) (Stores bufsz) where
  put ch h := h.put hlo hhi ch
  length h := h.rxLength_eq
  take_none := by
    rintro fifo (_ | ⟨ch, q⟩) h htake
    · exact h.take_nil
    · cases htake
  take_some := by
    rintro fifo (_ | ⟨ch, q⟩) ch' q' h htake
    · cases htake
    · cases htake
      exact h.take_cons hhi

def opened (buffer : ℕ → UInt8) : Machine SerialRxFifo T :=
  ⟨⟨buffer, 0, 0, false⟩, ⟨fun _ => none, [], []⟩⟩

def emptyQueue : Machine (List UInt8) T := ⟨[], ⟨fun _ => none, [], []⟩⟩

/-- In every interleaving of the interrupt and the readers the device does what the queue does: the
same steps are possible, the readers get the same bytes, `rx_indicate` gets the same lengths, and the
length of the queue is the length of the data in the FIFO. -/
theorem run_refines_queue (hlo : 2 ≤ bufsz) (hhi : bufsz < 2 ^ 16) (buffer : ℕ → UInt8)
    (acts : List (Act T)) :
    ((run (device bufsz) (opened buffer) acts).map Machine.view =
      (run (queue bufsz) emptyQueue acts).map Machine.view) ∧
    ((run (device bufsz) (opened buffer) acts).map fun m => rxLength bufsz m.fifo) =
      (run (queue bufsz) emptyQueue acts).map fun m => m.fifo.length := by
  have hsame : Same (Stores bufsz) (opened buffer : Machine SerialRxFifo T) emptyQueue :=
    ⟨⟨Holds.init (by omega), show 0 < bufsz by omega, nofun⟩, rfl⟩
  rcases (simulates hlo hhi).run hsame acts with ⟨hnone, hnone'⟩ | ⟨n, n', hn, hn', hfifo, hview⟩
  · rw [hnone, hnone']
    exact ⟨rfl, rfl⟩
  · rw [hn, hn', Option.map_some, Option.map_some, Option.map_some, Option.map_some, hview,
      hfifo.rxLength_eq]
    exact ⟨rfl, rfl⟩

/-- Three bytes arrive at a device with a buffer of three bytes: the first one is dropped. -/
theorem run_refines_queue_three :
    (run (device 3) (opened fun _ => 0) [.receive 1, .receive 2, .receive 3, .indicate,
        .read () 5, .round (), .round (), .round ()]).map (fun m => (m.view.returned,
          m.view.indicated)) = some ([((), [2, 3])], [2]) := by
  have hlo : 2 ≤ 3 := by decide
  have h := (run_refines_queue hlo (by decide) (fun _ => 0)
    [.receive 1, .receive 2, .receive 3, .indicate, .read () 5, .round (), .round (), .round ()]).1
  have hq := congrArg (Option.map fun v : View Unit => (v.returned, v.indicated)) h
  rw [Option.map_map, Option.map_map] at hq
  exact hq.trans (by decide +kernel)

/-- In every interleaving, `_serial_fifo_calc_recved_len` counts the bytes that are not read yet. -/
theorem serialFifoCalcRecvedLen_run (hlo : 2 ≤ bufsz) (hhi : bufsz < 2 ^ 16) (buffer : ℕ → UInt8)
    (acts : List (Act T)) :
    ((run (device bufsz) (opened buffer) acts).map fun m => serialFifoCalcRecvedLen bufsz m.fifo) =
      (run (queue bufsz) emptyQueue acts).map fun m => m.fifo.length := by
  have hsame : Same (Stores bufsz) (opened buffer : Machine SerialRxFifo T) emptyQueue :=
    ⟨⟨Holds.init (by omega), show 0 < bufsz by omega, nofun⟩, rfl⟩
  rcases (simulates hlo hhi).run hsame acts with ⟨hnone, hnone'⟩ | ⟨n, n', hn, hn', hfifo, -⟩
  · rw [hnone, hnone']
    rfl
  · rw [hn, hn', Option.map_some, Option.map_some, hfifo.serialFifoCalcRecvedLen_eq]

theorem serialFifoCalcRecvedLen_run_two : ((run (device 3) (opened (T := Unit) fun _ => 0)
    [.receive 1, .receive 2, .receive 3]).map fun m => serialFifoCalcRecvedLen 3 m.fifo) = some 2 :=
  (serialFifoCalcRecvedLen_run (by decide) (by decide) _ _).trans (by decide)

end SerialRx

end Drivers
