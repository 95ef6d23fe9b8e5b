import Mathlib.Data.List.DropRight
import TempSns.Lib.RingBuffer
import TempSns.Lib.Word32

/-!
# Ring buffers with mirror bits

Embedding of `components/drivers/src/ringbuffer.c`. Each of the two indices has a mirror bit that
flips when the index passes the end of the buffer. If the indices are equal, the buffer is empty if
the mirror bits are equal, and full otherwise.

`Stores rb q` relates a ring buffer to the bytes it holds, oldest first. The functions refine the
operations of a bounded queue of bytes (`Fifo`). The exception is `rt_ringbuffer_put_force`, which
flips the mirror bit of the read index also when the read index does not pass the end.

A pointer and a length are a list of bytes. The indices are bit fields of 15 bits.
-/

namespace Drivers

open RingBuffer Function Word32 List Nat

structure Ringbuffer where
  /-- The bytes at `buffer_ptr`. -/
  buffer : ℕ → UInt8
  /-- Flips when `read_index` wraps. -/
  readMirror : Bool
  readIndex : ℕ
  /-- Flips when `write_index` wraps. -/
  writeMirror : Bool
  writeIndex : ℕ
  bufferSize : ℕ

inductive RingbufferState where
  | empty
  | full
  | halffull
  deriving DecidableEq, Repr

def rtRingbufferStatus (rb : Ringbuffer) : RingbufferState :=
  if rb.readIndex = rb.writeIndex then
    if rb.readMirror = rb.writeMirror then .empty else .full
  else .halffull

def rtRingbufferInit (pool : ℕ → UInt8) (size : ℕ) : Ringbuffer where
  buffer := pool
  readMirror := false
  readIndex := 0
  writeMirror := false
  writeIndex := 0
  bufferSize := alignDown size 4

def rtRingbufferDataLen (rb : Ringbuffer) : ℕ :=
  match rtRingbufferStatus rb with
  | .empty => 0
  | .full => rb.bufferSize
  | .halffull =>
    if rb.writeIndex > rb.readIndex then rb.writeIndex - rb.readIndex
    else rb.bufferSize - (rb.readIndex - rb.writeIndex)

def rtRingbufferSpaceLen (rb : Ringbuffer) : ℕ := rb.bufferSize - rtRingbufferDataLen rb

/-- The copying of `rt_ringbuffer_put` and `rt_ringbuffer_put_force`, and the step of the write
index. -/
def Ringbuffer.copyIn (rb : Ringbuffer) (data : List UInt8) : Ringbuffer :=
  if rb.bufferSize - rb.writeIndex > data.length then
    { rb with
      buffer := blit rb.buffer rb.writeIndex data
      writeIndex := (rb.writeIndex + data.length) % 2 ^ 15 }
  else
    { rb with
      buffer := blit (blit rb.buffer rb.writeIndex (data.take (rb.bufferSize - rb.writeIndex))) 0
        (data.drop (rb.bufferSize - rb.writeIndex))
      -- we are going into the other side of the mirror
      writeMirror := !rb.writeMirror
      writeIndex := (data.length - (rb.bufferSize - rb.writeIndex)) % 2 ^ 15 }

/-- `rt_ringbuffer_put`, with its result. -/
def rtRingbufferPut (rb : Ringbuffer) (data : List UInt8) : Ringbuffer × ℕ :=
  let size := rtRingbufferSpaceLen rb
  -- no space
  if size = 0 then (rb, 0)
  else
    -- drop some data
    let length := if size < data.length then size else data.length
    (rb.copyIn (data.take length), length)

/-- `rt_ringbuffer_put_force`, with its result. -/
def rtRingbufferPutForce (rb : Ringbuffer) (data : List UInt8) : Ringbuffer × ℕ :=
  let spaceLength := rtRingbufferSpaceLen rb
  let data := if data.length > rb.bufferSize then data.drop (data.length - rb.bufferSize) else data
  let rb' := rb.copyIn data
  if data.length > spaceLength then
    if rb.bufferSize - rb.writeIndex > data.length then
      ({ rb' with readIndex := rb'.writeIndex }, data.length)
    else
      ({ rb' with readMirror := !rb'.readMirror, readIndex := rb'.writeIndex }, data.length)
  else (rb', data.length)

/-- `rt_ringbuffer_get`, with the bytes that it copies; the result is their number. -/
def rtRingbufferGet (rb : Ringbuffer) (length : ℕ) : Ringbuffer × List UInt8 :=
  let size := rtRingbufferDataLen rb
  -- no data
  if size = 0 then (rb, [])
  else
    -- less data
    let length := if size < length then size else length
    if rb.bufferSize - rb.readIndex > length then
      ({ rb with readIndex := (rb.readIndex + length) % 2 ^ 15 },
        slice rb.buffer rb.readIndex length)
    else
      -- we are going into the other side of the mirror
      ({ rb with
          readMirror := !rb.readMirror
          readIndex := (length - (rb.bufferSize - rb.readIndex)) % 2 ^ 15 },
        slice rb.buffer rb.readIndex (rb.bufferSize - rb.readIndex) ++
          slice rb.buffer 0 (length - (rb.bufferSize - rb.readIndex)))

def Ringbuffer.stepWrite (rb : Ringbuffer) : Ringbuffer :=
  if rb.writeIndex = rb.bufferSize - 1 then
    { rb with writeMirror := !rb.writeMirror, writeIndex := 0 }
  else { rb with writeIndex := (rb.writeIndex + 1) % 2 ^ 15 }

/-- `rt_ringbuffer_putchar`, with its result. -/
def rtRingbufferPutchar (rb : Ringbuffer) (ch : UInt8) : Ringbuffer × ℕ :=
  if rtRingbufferSpaceLen rb = 0 then (rb, 0)
  else
    (({ rb with buffer := update rb.buffer rb.writeIndex ch } : Ringbuffer).stepWrite, 1)

/-- `rt_ringbuffer_putchar_force`, with its result. -/
def rtRingbufferPutcharForce (rb : Ringbuffer) (ch : UInt8) : Ringbuffer × ℕ :=
  let oldState := rtRingbufferStatus rb
  let rb' := ({ rb with buffer := update rb.buffer rb.writeIndex ch } : Ringbuffer).stepWrite
  if oldState = .full then
    if rb.writeIndex = rb.bufferSize - 1 then
      ({ rb' with readMirror := !rb'.readMirror, readIndex := rb'.writeIndex }, 1)
    else ({ rb' with readIndex := rb'.writeIndex }, 1)
  else (rb', 1)

/-- `rt_ringbuffer_getchar`, with the byte that it stores; the result is the number of bytes. -/
def rtRingbufferGetchar (rb : Ringbuffer) : Ringbuffer × List UInt8 :=
  if rtRingbufferDataLen rb = 0 then (rb, [])
  else
    let ch := rb.buffer rb.readIndex
    if rb.readIndex = rb.bufferSize - 1 then
      ({ rb with readMirror := !rb.readMirror, readIndex := 0 }, [ch])
    else ({ rb with readIndex := (rb.readIndex + 1) % 2 ^ 15 }, [ch])

def rtRingbufferReset (rb : Ringbuffer) : Ringbuffer :=
  { rb with readMirror := false, readIndex := 0, writeMirror := false, writeIndex := 0 }

/-! ## Stored bytes -/

namespace Ringbuffer

variable {rb : Ringbuffer} {q data : List UInt8} {ch : UInt8} {n : ℕ}

/-- The distance that the mirror bits add to the write index. -/
def lead (rb : Ringbuffer) : ℕ := if rb.readMirror = rb.writeMirror then 0 else rb.bufferSize

/-- The ring buffer holds the bytes `q`. -/
structure Stores (rb : Ringbuffer) (q : List UInt8) : Prop where
  holds : Holds rb.bufferSize rb.buffer rb.readIndex rb.writeIndex q
  size_lt : rb.bufferSize < 2 ^ 15
  index_eq : rb.readIndex + q.length = rb.writeIndex + rb.lead

lemma lead_eq_zero_or (rb : Ringbuffer) : rb.lead = 0 ∨ rb.lead = rb.bufferSize := by
  unfold lead
  split
  · exact .inl rfl
  · exact .inr rfl

lemma lead_add_lead {rb' : Ringbuffer} (hsize : rb'.bufferSize = rb.bufferSize)
    (hflip : (rb'.readMirror = rb'.writeMirror) ↔ ¬ rb.readMirror = rb.writeMirror) :
    rb'.lead + rb.lead = rb.bufferSize := by
  unfold lead
  by_cases hm : rb.readMirror = rb.writeMirror
  · rw [if_neg (mt hflip.mp (not_not.mpr hm)), if_pos hm, hsize, add_zero]
  · rw [if_pos (hflip.mpr hm), if_neg hm, zero_add]

namespace Stores

lemma rtRingbufferStatus_eq (h : Stores rb q) : rtRingbufferStatus rb =
    if q = [] then .empty else if q.length = rb.bufferSize then .full else .halffull := by
  have hindex := h.index_eq
  have hread := h.holds.out_lt
  have hwrite := h.holds.inp_lt
  unfold rtRingbufferStatus
  by_cases heq : rb.readIndex = rb.writeIndex
  · -- the length is the lead of the mirror bits
    rw [if_pos heq]
    unfold lead at hindex
    split at hindex
    case isTrue hm =>
      have hnil : q = [] := eq_nil_of_length_eq_zero (by omega)
      rw [if_pos hm, if_pos hnil]
    case isFalse hm =>
      have hne : q ≠ [] := ne_nil_of_length_pos (by omega)
      rw [if_neg hm, if_neg hne, if_pos (by omega)]
  · have hlead := rb.lead_eq_zero_or
    have hne : q ≠ [] := by
      rintro rfl
      rw [length_nil] at hindex
      omega
    rw [if_neg heq, if_neg hne, if_neg (by omega)]

lemma rtRingbufferDataLen_eq (h : Stores rb q) : rtRingbufferDataLen rb = q.length := by
  have hindex := h.index_eq
  have hlength := h.holds.length_le
  rw [rtRingbufferDataLen, h.rtRingbufferStatus_eq]
  by_cases hnil : q = []
  · rw [if_pos hnil, hnil]
    rfl
  · rw [if_neg hnil]
    by_cases hfull : q.length = rb.bufferSize
    · rw [if_pos hfull]
      exact hfull.symm
    · -- the write index is behind the read index if the mirror bits are different
      have hpos : 0 < q.length := length_pos_iff.mpr hnil
      have hlead := rb.lead_eq_zero_or
      rw [if_neg hfull]
      dsimp only
      split <;> omega

lemma rtRingbufferSpaceLen_eq (h : Stores rb q) :
    rtRingbufferSpaceLen rb = rb.bufferSize - q.length := by
  rw [rtRingbufferSpaceLen, h.rtRingbufferDataLen_eq]

/-! ### Writing -/

lemma copyIn_ring (h : Stores rb q) (hdata : data.length ≤ rb.bufferSize) :
    (rb.copyIn data).buffer = writeFrom rb.bufferSize rb.buffer rb.writeIndex data ∧
      (rb.copyIn data).writeIndex = (rb.writeIndex + data.length) % rb.bufferSize ∧
      (rb.copyIn data).bufferSize = rb.bufferSize ∧
      (rb.copyIn data).readIndex = rb.readIndex ∧ (rb.copyIn data).readMirror = rb.readMirror := by
  have hwrite := h.holds.inp_lt
  have hsize := h.size_lt
  unfold copyIn
  split
  case isTrue hlt =>
    refine ⟨(writeFrom_eq_blit (by omega)).symm, ?_, rfl, rfl, rfl⟩
    change (rb.writeIndex + data.length) % 2 ^ 15 = _
    rw [mod_eq_of_lt (by omega), mod_eq_of_lt (by omega)]
  case isFalse hge =>
    refine ⟨rfl, ?_, rfl, rfl, rfl⟩
    change (data.length - (rb.bufferSize - rb.writeIndex)) % 2 ^ 15 = _
    rw [mod_eq_of_lt (by omega), mod_eq_sub_mod (by omega), mod_eq_of_lt (by omega)]
    omega

lemma copyIn_writeMirror (rb : Ringbuffer) (data : List UInt8) : (rb.copyIn data).writeMirror =
    if rb.bufferSize - rb.writeIndex > data.length then rb.writeMirror else !rb.writeMirror := by
  unfold copyIn
  split <;> rfl

section

variable (h : Stores rb q)

include h

lemma copyIn_index (hdata : data.length ≤ rb.bufferSize) : (rb.copyIn data).writeIndex +
        (if rb.bufferSize - rb.writeIndex > data.length then 0 else rb.bufferSize) =
      rb.writeIndex + data.length := by
  have hwrite := h.holds.inp_lt
  rw [(h.copyIn_ring hdata).2.1]
  split
  case isTrue hlt => rw [mod_eq_of_lt (by omega), add_zero]
  case isFalse hge =>
    rw [mod_eq_sub_mod (by omega), mod_eq_of_lt (by omega)]
    omega

/-- Bytes that fit are appended. -/
lemma copyIn (hroom : q.length + data.length ≤ rb.bufferSize) :
    Stores (rb.copyIn data) (q ++ data) := by
  have hdata : data.length ≤ rb.bufferSize := by omega
  obtain ⟨hbuffer, hwi, hsize, hri, hrm⟩ := h.copyIn_ring hdata
  have hmove := h.copyIn_index hdata
  have hindex := h.index_eq
  refine ⟨?_, ?_, ?_⟩
  · rw [hbuffer, hwi, hsize, hri]
    exact h.holds.append hroom
  · rw [hsize]
    exact h.size_lt
  · have hread := h.holds.out_lt
    rw [hri, length_append]
    by_cases hlt : rb.bufferSize - rb.writeIndex > data.length
    · have hlead : (rb.copyIn data).lead = rb.lead := by
        rw [lead, hrm, hsize, copyIn_writeMirror, if_pos hlt]
        rfl
      rw [if_pos hlt] at hmove
      omega
    · have hlead : (rb.copyIn data).lead + rb.lead = rb.bufferSize := by
        refine lead_add_lead hsize ?_
        rw [hrm, copyIn_writeMirror, if_neg hlt]
        cases rb.readMirror <;> cases rb.writeMirror <;> decide
      have hold := rb.lead_eq_zero_or
      rw [if_neg hlt] at hmove
      omega

lemma rtRingbufferPut (data : List UInt8) :
    (rtRingbufferPut rb data).2 = (data.take (rb.bufferSize - q.length)).length ∧
      Stores (rtRingbufferPut rb data).1 (q ++ data.take (rb.bufferSize - q.length)) := by
  simp only [Drivers.rtRingbufferPut, h.rtRingbufferSpaceLen_eq]
  by_cases hfull : rb.bufferSize - q.length = 0
  · rw [if_pos hfull, hfull, take_zero, append_nil]
    exact ⟨rfl, h⟩
  · have htake : data.take (if rb.bufferSize - q.length < data.length then rb.bufferSize - q.length
        else data.length) = data.take (rb.bufferSize - q.length) := by
      split
      case isTrue => rfl
      case isFalse hle => rw [take_length, take_of_length_le (by omega)]
    rw [if_neg hfull, htake]
    refine ⟨?_, h.copyIn ?_⟩
    · rw [length_take]
      dsimp only
      split <;> omega
    · rw [length_take]
      omega

lemma stepWrite_eq (ch : UInt8) :
    ({ rb with buffer := update rb.buffer rb.writeIndex ch } : Ringbuffer).stepWrite =
      rb.copyIn [ch] := by
  have hwrite := h.holds.inp_lt
  have hupdate : blit rb.buffer rb.writeIndex [ch] = update rb.buffer rb.writeIndex ch := by
    funext j
    by_cases hj : j = rb.writeIndex
    · subst hj
      simp [blit]
    · rw [update_of_ne hj, blit, dif_neg (by rw [length_singleton]; omega)]
  unfold stepWrite Ringbuffer.copyIn
  by_cases hlast : rb.writeIndex = rb.bufferSize - 1
  · -- the second part is empty
    have hone : rb.bufferSize - rb.writeIndex = 1 := by omega
    rw [if_pos hlast, if_neg (by rw [length_singleton]; omega), hone, take_succ_cons,
      take_zero, drop_one, tail_cons, blit_nil, hupdate]
    rfl
  · rw [if_neg hlast, if_pos (by rw [length_singleton]; omega), hupdate]
    rfl

lemma rtRingbufferPutchar (ch : UInt8) :
    (rtRingbufferPutchar rb ch).2 = (if q.length < rb.bufferSize then 1 else 0) ∧
      Stores (rtRingbufferPutchar rb ch).1 (if q.length < rb.bufferSize then q ++ [ch] else q) := by
  simp only [Drivers.rtRingbufferPutchar, h.rtRingbufferSpaceLen_eq]
  by_cases hroom : q.length < rb.bufferSize
  · rw [if_neg (by omega), if_pos hroom, if_pos hroom, h.stepWrite_eq]
    exact ⟨rfl, h.copyIn (by rw [length_singleton]; omega)⟩
  · rw [if_pos (by omega), if_neg hroom, if_neg hroom]
    exact ⟨rfl, h⟩

/-- Bytes that do not fit overwrite the oldest ones. The read index follows the write index, and the
mirror bits must be different. -/
lemma overwrite (hdata : data.length ≤ rb.bufferSize)
    (hover : rb.bufferSize ≤ q.length + data.length) {m : Bool}
    (hm : m ≠ (rb.copyIn data).writeMirror) :
    Stores { rb.copyIn data with readMirror := m, readIndex := (rb.copyIn data).writeIndex }
      ((q ++ data).drop (q.length + data.length - rb.bufferSize)) := by
  obtain ⟨hbuffer, hwi, hsize, -, -⟩ := h.copyIn_ring hdata
  refine ⟨?_, ?_, ?_⟩
  · change Holds (rb.copyIn data).bufferSize (rb.copyIn data).buffer (rb.copyIn data).writeIndex
      (rb.copyIn data).writeIndex _
    rw [hbuffer, hwi, hsize]
    exact h.holds.overwrite hdata hover
  · change (rb.copyIn data).bufferSize < 2 ^ 15
    rw [hsize]
    exact h.size_lt
  · -- the buffer is full
    rw [lead, if_neg hm, length_drop, length_append]
    change (rb.copyIn data).writeIndex + _ = (rb.copyIn data).writeIndex + (rb.copyIn data).bufferSize
    rw [hsize]
    omega

lemma rtRingbufferPutcharForce (ch : UInt8) :
    (rtRingbufferPutcharForce rb ch).2 = 1 ∧ Stores (rtRingbufferPutcharForce rb ch).1
      ((if q.length < rb.bufferSize then q else q.tail) ++ [ch]) := by
  have hlength := h.holds.length_le
  have hwrite := h.holds.inp_lt
  simp only [Drivers.rtRingbufferPutcharForce, h.rtRingbufferStatus_eq, h.stepWrite_eq]
  by_cases hroom : q.length < rb.bufferSize
  · have hstate : (if q = [] then RingbufferState.empty else
        if q.length = rb.bufferSize then .full else .halffull) ≠ .full := by
      split
      case isTrue => decide
      case isFalse => rw [if_neg (by omega)]; decide
    rw [if_neg hstate, if_pos hroom]
    exact ⟨rfl, h.copyIn (by rw [length_singleton]; omega)⟩
  · -- the buffer is full, so the mirror bits are different
    have hfull : q.length = rb.bufferSize := by omega
    have hne : q ≠ [] := ne_nil_of_length_pos (by omega)
    have hmirror : rb.readMirror ≠ rb.writeMirror := by
      intro hm
      have hindex := h.index_eq
      rw [lead, if_pos hm] at hindex
      omega
    have htail : (q ++ [ch]).drop (q.length + [ch].length - rb.bufferSize) = q.tail ++ [ch] := by
      rw [hfull, length_singleton, Nat.add_sub_cancel_left, drop_one, tail_append_of_ne_nil hne]
    have hone : [ch].length ≤ rb.bufferSize := by rw [length_singleton]; omega
    have hover : ∀ m, m ≠ (rb.copyIn [ch]).writeMirror →
        Stores { rb.copyIn [ch] with readMirror := m, readIndex := (rb.copyIn [ch]).writeIndex }
          (q.tail ++ [ch]) := by
      intro m hm
      have hstores := h.overwrite hone (by rw [length_singleton]; omega) hm
      rwa [htail] at hstores
    obtain ⟨-, -, -, -, hrm⟩ := h.copyIn_ring hone
    rw [if_neg hne, if_pos hfull, if_pos rfl, if_neg hroom]
    by_cases hlast : rb.writeIndex = rb.bufferSize - 1
    · rw [if_pos hlast]
      refine ⟨rfl, hover _ ?_⟩
      rw [copyIn_writeMirror, if_neg (by rw [length_singleton]; omega), hrm]
      exact fun heq => hmirror (Bool.not_inj heq)
    · rw [if_neg hlast]
      refine ⟨rfl, hover _ ?_⟩
      rw [copyIn_writeMirror, if_pos (by rw [length_singleton]; omega), hrm]
      exact hmirror

/-! ### Reading -/

lemma moveRead (hn : n ≤ q.length) {rb' : Ringbuffer}
    (hbuffer : rb'.buffer = rb.buffer) (hsize : rb'.bufferSize = rb.bufferSize)
    (hwrite : rb'.writeIndex = rb.writeIndex) (hread : rb'.readIndex = (rb.readIndex + n) % rb.bufferSize)
    (hlead : rb'.readIndex + rb.lead = rb.readIndex + n + rb'.lead) :
    Stores rb' (q.drop n) := by
  refine ⟨?_, ?_, ?_⟩
  · rw [hbuffer, hsize, hwrite, hread]
    exact h.holds.drop hn
  · rw [hsize]
    exact h.size_lt
  · have hindex := h.index_eq
    rw [hwrite, length_drop]
    omega

lemma moveRead_lt (hn : n ≤ q.length) (hlt : rb.readIndex + n < rb.bufferSize) :
    Stores { rb with readIndex := (rb.readIndex + n) % 2 ^ 15 } (q.drop n) := by
  have hsize := h.size_lt
  have hmod : (rb.readIndex + n) % 2 ^ 15 = rb.readIndex + n := mod_eq_of_lt (by omega)
  refine h.moveRead hn rfl rfl rfl ?_ ?_
  · change (rb.readIndex + n) % 2 ^ 15 = _
    rw [hmod, mod_eq_of_lt hlt]
  · change (rb.readIndex + n) % 2 ^ 15 + rb.lead = rb.readIndex + n + rb.lead
    rw [hmod]

lemma moveRead_ge (hn : n ≤ q.length) (hge : rb.bufferSize ≤ rb.readIndex + n) : Stores { rb with
      readMirror := !rb.readMirror
      readIndex := (n - (rb.bufferSize - rb.readIndex)) % 2 ^ 15 } (q.drop n) := by
  have hsize := h.size_lt
  have hread := h.holds.out_lt
  have hwrite := h.holds.inp_lt
  have hlength := h.holds.length_le
  have hindex := h.index_eq
  have hmod : (n - (rb.bufferSize - rb.readIndex)) % 2 ^ 15 = rb.readIndex + n - rb.bufferSize := by
    rw [mod_eq_of_lt (by omega)]
    omega
  refine h.moveRead hn rfl rfl rfl ?_ ?_
  · change (n - (rb.bufferSize - rb.readIndex)) % 2 ^ 15 = _
    rw [hmod, mod_eq_sub_mod hge, mod_eq_of_lt (by omega)]
  · -- the mirror bits were different, since the data reaches the end of the buffer
    have hflip : lead { rb with
        readMirror := !rb.readMirror
        readIndex := (n - (rb.bufferSize - rb.readIndex)) % 2 ^ 15 } + rb.lead = rb.bufferSize := by
      refine lead_add_lead rfl ?_
      change (!rb.readMirror) = rb.writeMirror ↔ ¬ rb.readMirror = rb.writeMirror
      cases rb.readMirror <;> cases rb.writeMirror <;> decide
    have hold := rb.lead_eq_zero_or
    change (n - (rb.bufferSize - rb.readIndex)) % 2 ^ 15 + rb.lead = _
    rw [hmod] at hflip ⊢
    omega

lemma rtRingbufferGet (n : ℕ) :
    (rtRingbufferGet rb n).2 = q.take n ∧ Stores (rtRingbufferGet rb n).1 (q.drop n) := by
  simp only [Drivers.rtRingbufferGet, h.rtRingbufferDataLen_eq]
  by_cases hnil : q.length = 0
  · obtain rfl := eq_nil_of_length_eq_zero hnil
    rw [if_pos hnil, take_nil, drop_nil]
    exact ⟨rfl, h⟩
  · rw [if_neg hnil]
    -- the number of bytes that are read
    obtain ⟨k, hk, hkle, htake, hdrop⟩ : ∃ k, (if q.length < n then q.length else n) = k ∧
        k ≤ q.length ∧ q.take n = q.take k ∧ q.drop n = q.drop k := by
      refine ⟨_, rfl, ?_⟩
      split
      case isTrue hlt =>
        exact ⟨le_rfl, by rw [take_length, take_of_length_le hlt.le],
          by rw [drop_length, drop_of_length_le hlt.le]⟩
      case isFalse hge => exact ⟨by omega, rfl, rfl⟩
    rw [hk, htake, hdrop]
    split
    case isTrue hlt =>
      refine ⟨?_, h.moveRead_lt hkle (by omega)⟩
      dsimp only
      rw [← readFrom_eq_slice (by omega : k ≤ rb.bufferSize - rb.readIndex), h.holds.readFrom_eq hkle]
    case isFalse hge =>
      refine ⟨?_, h.moveRead_ge hkle (by omega)⟩
      dsimp only
      rw [← h.holds.readFrom_eq hkle, readFrom, min_eq_right (by omega)]

lemma rtRingbufferGetchar_eq : rtRingbufferGetchar rb = Drivers.rtRingbufferGet rb 1 := by
  have hread := h.holds.out_lt
  have hslice : slice rb.buffer rb.readIndex 1 = [rb.buffer rb.readIndex] := by simp [slice]
  simp only [rtRingbufferGetchar, Drivers.rtRingbufferGet, h.rtRingbufferDataLen_eq]
  by_cases hnil : q.length = 0
  · rw [if_pos hnil, if_pos hnil]
  · rw [if_neg hnil, if_neg hnil, if_neg (by omega : ¬ q.length < 1)]
    by_cases hlast : rb.readIndex = rb.bufferSize - 1
    · have hone : rb.bufferSize - rb.readIndex = 1 := by omega
      rw [if_pos hlast, if_neg (by omega), hone, hslice]
      rfl
    · rw [if_neg hlast, if_pos (by omega), hslice]

end

lemma init {pool : ℕ → UInt8} {size : ℕ} (hlo : 0 < alignDown size 4)
    (hhi : alignDown size 4 < 2 ^ 15) : Stores (rtRingbufferInit pool size) [] :=
  ⟨Holds.init hlo, hhi, rfl⟩

lemma rtRingbufferReset (h : Stores rb q) : Stores (rtRingbufferReset rb) [] :=
  ⟨Holds.init (zero_lt_of_lt h.holds.out_lt), h.size_lt, rfl⟩

end Stores

end Ringbuffer

/-! ## Bounded queue of bytes -/

/-- The calls that read and write a ring buffer. -/
inductive RingbufferOp where
  | put (data : List UInt8)
  | get (length : ℕ)
  | putchar (ch : UInt8)
  | getchar
  | putcharForce (ch : UInt8)
  | reset

/-- What a call gives back: its result, and the bytes that it stores for the caller. -/
abbrev RingbufferOut := ℕ × List UInt8

def Ringbuffer.call (rb : Ringbuffer) : RingbufferOp → Ringbuffer × RingbufferOut
  | .put data => ((rtRingbufferPut rb data).1, (rtRingbufferPut rb data).2, [])
  | .get length =>
    ((rtRingbufferGet rb length).1, (rtRingbufferGet rb length).2.length,
      (rtRingbufferGet rb length).2)
  | .putchar ch => ((rtRingbufferPutchar rb ch).1, (rtRingbufferPutchar rb ch).2, [])
  | .getchar =>
    ((rtRingbufferGetchar rb).1, (rtRingbufferGetchar rb).2.length, (rtRingbufferGetchar rb).2)
  | .putcharForce ch => ((rtRingbufferPutcharForce rb ch).1, (rtRingbufferPutcharForce rb ch).2, [])
  | .reset => (rtRingbufferReset rb, 0, [])

/-- A sequence of calls, with what each of them gives back. -/
def Ringbuffer.calls (rb : Ringbuffer) : List RingbufferOp → Ringbuffer × List RingbufferOut
  | [] => (rb, [])
  | op :: ops => (((rb.call op).1.calls ops).1, (rb.call op).2 :: ((rb.call op).1.calls ops).2)

namespace Fifo

/-- The same calls on a queue of at most `size` bytes. -/
def call (size : ℕ) (q : List UInt8) : RingbufferOp → List UInt8 × RingbufferOut
  | .put data => (q ++ data.take (size - q.length), (data.take (size - q.length)).length, [])
  | .get length => (q.drop length, (q.take length).length, q.take length)
  | .putchar ch => if q.length < size then (q ++ [ch], 1, []) else (q, 0, [])
  | .getchar => (q.drop 1, (q.take 1).length, q.take 1)
  | .putcharForce ch => ((if q.length < size then q else q.tail) ++ [ch], 1, [])
  | .reset => ([], 0, [])

def calls (size : ℕ) (q : List UInt8) : List RingbufferOp → List UInt8 × List RingbufferOut
  | [] => (q, [])
  | op :: ops =>
    ((calls size (call size q op).1 ops).1,
      (call size q op).2 :: (calls size (call size q op).1 ops).2)

def status (size : ℕ) (q : List UInt8) : RingbufferState :=
  if q = [] then .empty else if q.length = size then .full else .halffull

end Fifo

namespace Ringbuffer

variable {rb : Ringbuffer} {q : List UInt8}

lemma bufferSize_call (rb : Ringbuffer) (op : RingbufferOp) :
    (rb.call op).1.bufferSize = rb.bufferSize := by
  have hcopy : ∀ data, (rb.copyIn data).bufferSize = rb.bufferSize := by
    intro data
    unfold Ringbuffer.copyIn
    split <;> rfl
  have hstep : ∀ rb : Ringbuffer, rb.stepWrite.bufferSize = rb.bufferSize := by
    intro rb
    unfold Ringbuffer.stepWrite
    split <;> rfl
  have hget : ∀ n, (Drivers.rtRingbufferGet rb n).1.bufferSize = rb.bufferSize := by
    intro n
    simp only [rtRingbufferGet]
    split
    · rfl
    · split <;> split <;> rfl
  cases op with
  | put data =>
    simp only [call, rtRingbufferPut]
    split
    · rfl
    · exact hcopy _
  | get length => exact hget length
  | putchar ch =>
    simp only [call, rtRingbufferPutchar]
    split
    · rfl
    · exact hstep _
  | getchar =>
    simp only [call, rtRingbufferGetchar]
    split
    · rfl
    · split <;> rfl
  | putcharForce ch =>
    simp only [call, rtRingbufferPutcharForce]
    split
    · split
      · exact hstep _
      · exact hstep _
    · exact hstep _
  | reset => rfl

lemma Stores.call (h : Stores rb q) (op : RingbufferOp) :
    (rb.call op).2 = (Fifo.call rb.bufferSize q op).2 ∧
      Stores (rb.call op).1 (Fifo.call rb.bufferSize q op).1 := by
  cases op with
  | put data =>
    obtain ⟨hcount, hstores⟩ := h.rtRingbufferPut data
    exact ⟨Prod.ext hcount rfl, hstores⟩
  | get length =>
    obtain ⟨hbytes, hstores⟩ := h.rtRingbufferGet length
    exact ⟨Prod.ext (congrArg List.length hbytes) hbytes, hstores⟩
  | putchar ch =>
    obtain ⟨hcount, hstores⟩ := h.rtRingbufferPutchar ch
    simp only [Ringbuffer.call, Fifo.call]
    split
    case isTrue hroom =>
      rw [if_pos hroom] at hcount hstores
      exact ⟨Prod.ext hcount rfl, hstores⟩
    case isFalse hroom =>
      rw [if_neg hroom] at hcount hstores
      exact ⟨Prod.ext hcount rfl, hstores⟩
  | getchar =>
    obtain ⟨hbytes, hstores⟩ := h.rtRingbufferGet 1
    rw [← h.rtRingbufferGetchar_eq] at hbytes hstores
    exact ⟨Prod.ext (congrArg length hbytes) hbytes, hstores⟩
  | putcharForce ch =>
    obtain ⟨hcount, hstores⟩ := h.rtRingbufferPutcharForce ch
    exact ⟨Prod.ext hcount rfl, hstores⟩
  | reset => exact ⟨rfl, h.rtRingbufferReset⟩

/-- A sequence of calls does what it does to the queue. -/
lemma Stores.calls (h : Stores rb q) (ops : List RingbufferOp) :
    (rb.calls ops).2 = (Fifo.calls rb.bufferSize q ops).2 ∧
      Stores (rb.calls ops).1 (Fifo.calls rb.bufferSize q ops).1 ∧
      (rb.calls ops).1.bufferSize = rb.bufferSize := by
  induction ops generalizing rb q with
  | nil => exact ⟨rfl, h, rfl⟩
  | cons op ops ih =>
    obtain ⟨hout, hstores⟩ := h.call op
    obtain ⟨houts, hstores', hsize⟩ := ih hstores
    rw [bufferSize_call] at houts hstores' hsize
    exact ⟨by rw [Ringbuffer.calls, Fifo.calls, hout, houts], hstores', hsize⟩

/-- A ring buffer of `size` bytes is a queue of at most `size` bytes: every sequence of calls gives
back what it gives back on the queue, and the length and the status are those of the queue. -/
theorem calls_refine_fifo (pool : ℕ → UInt8) {size : ℕ} (hdvd : 4 ∣ size) (hlo : 4 ≤ size)
    (hhi : size ≤ 32764) (ops : List RingbufferOp) :
    ((rtRingbufferInit pool size).calls ops).2 = (Fifo.calls size [] ops).2 ∧
      rtRingbufferDataLen ((rtRingbufferInit pool size).calls ops).1 =
        (Fifo.calls size [] ops).1.length ∧
      rtRingbufferStatus ((rtRingbufferInit pool size).calls ops).1 =
        Fifo.status size (Fifo.calls size [] ops).1 ∧
      (Fifo.calls size [] ops).1.length ≤ size := by
  have hsize : alignDown size 4 = size := by
    have halign : alignDown size 4 = size / 4 * 4 :=
      alignDown_two_pow (k := 2) (by omega)
    rw [halign, Nat.div_mul_cancel hdvd]
  have hinit : Stores (rtRingbufferInit pool size) [] :=
    Stores.init (by omega) (by omega)
  have hbuffer : (rtRingbufferInit pool size).bufferSize = size := hsize
  obtain ⟨houts, hstores, hsame⟩ := hinit.calls ops
  rw [hbuffer] at houts hstores hsame
  have hle := hstores.holds.length_le
  have hstatus := hstores.rtRingbufferStatus_eq
  rw [hsame] at hle hstatus
  exact ⟨houts, hstores.rtRingbufferDataLen_eq, hstatus, hle⟩

/-- Three bytes are put, two are read, and a forced byte goes behind the third one. -/
theorem calls_refine_fifo_four :
    ((rtRingbufferInit (fun _ => 0) 4).calls [.put [1, 2, 3], .get 2, .putcharForce 4]).2 =
        [(3, []), (2, [1, 2]), (1, [])] ∧
      rtRingbufferDataLen
        ((rtRingbufferInit (fun _ => 0) 4).calls [.put [1, 2, 3], .get 2, .putcharForce 4]).1 = 2 := by
  have hdvd : 4 ∣ 4 := by decide
  obtain ⟨houts, hlen, -⟩ := calls_refine_fifo (fun _ => 0) hdvd (by decide) (by decide)
    [.put [1, 2, 3], .get 2, .putcharForce 4]
  exact ⟨houts.trans (by decide), hlen.trans (by decide)⟩

/-! ## Forced writes -/

/-- The bytes that the ring buffer holds, oldest first. -/
def contents (rb : Ringbuffer) : List UInt8 :=
  readFrom rb.bufferSize rb.buffer rb.readIndex (rtRingbufferDataLen rb)

/-- The states of a ring buffer: the write index is behind the read index in the same mirror, or
before it in the other one. The size is 0 if less than four bytes were given to
`rt_ringbuffer_init`. -/
structure Valid (rb : Ringbuffer) : Prop where
  size_lt : rb.bufferSize < 2 ^ 15
  readIndex_lt : rb.readIndex < max rb.bufferSize 1
  writeIndex_lt : rb.writeIndex < max rb.bufferSize 1
  order : if rb.readMirror = rb.writeMirror then rb.readIndex ≤ rb.writeIndex
    else rb.writeIndex ≤ rb.readIndex

lemma Stores.contents_eq (h : Stores rb q) : rb.contents = q := by
  rw [contents, h.rtRingbufferDataLen_eq, h.holds.readFrom_eq le_rfl, take_length]

lemma contents_of_size_zero (hzero : rb.bufferSize = 0) (heq : rb.readIndex = rb.writeIndex) :
    rb.contents = [] := by
  have hlen : rtRingbufferDataLen rb = 0 := by
    unfold rtRingbufferDataLen rtRingbufferStatus
    rw [if_pos heq]
    by_cases hm : rb.readMirror = rb.writeMirror
    · rw [if_pos hm]
    · rw [if_neg hm]
      exact hzero
  rw [contents, hlen]
  exact eq_nil_of_length_eq_zero length_readFrom

lemma Valid.stores (h : rb.Valid) (hpos : 0 < rb.bufferSize) : Stores rb rb.contents := by
  obtain ⟨hsize, hread, hwrite, horder⟩ := h
  rw [max_eq_left hpos] at hread hwrite
  have hlen : rb.readIndex + rtRingbufferDataLen rb = rb.writeIndex + rb.lead ∧
      rtRingbufferDataLen rb ≤ rb.bufferSize := by
    unfold rtRingbufferDataLen rtRingbufferStatus lead
    by_cases hm : rb.readMirror = rb.writeMirror
    · rw [if_pos hm] at horder
      rw [if_pos hm, if_pos hm]
      by_cases heq : rb.readIndex = rb.writeIndex
      · rw [if_pos heq]
        exact ⟨by omega, zero_le _⟩
      · rw [if_neg heq]
        dsimp only
        rw [if_pos (by omega)]
        omega
    · rw [if_neg hm] at horder
      rw [if_neg hm, if_neg hm]
      by_cases heq : rb.readIndex = rb.writeIndex
      · rw [if_pos heq]
        dsimp only
        omega
      · rw [if_neg heq]
        dsimp only
        rw [if_neg (by omega)]
        omega
  have hlength : rb.contents.length = rtRingbufferDataLen rb := length_readFrom
  refine ⟨⟨by omega, hread, ?_, fun i hi => ?_⟩, hsize, by omega⟩
  · rw [hlength, hlen.1]
    rcases rb.lead_eq_zero_or with hlead | hlead
    · rw [hlead, add_zero, mod_eq_of_lt hwrite]
    · rw [hlead, add_mod_right, mod_eq_of_lt hwrite]
  · exact (getElem_readFrom hread hlen.2 hi).symm

lemma rtRingbufferPutForce_eq (h : Stores rb q) (data : List UInt8) :
    (rtRingbufferPutForce rb data).1 = (let data := data.drop (data.length - rb.bufferSize)
      if q.length + data.length ≤ rb.bufferSize then rb.copyIn data
      else { rb.copyIn data with
        readMirror :=
          if rb.bufferSize - rb.writeIndex > data.length then rb.readMirror else !rb.readMirror
        readIndex := (rb.copyIn data).writeIndex }) := by
  have hdrop : (if data.length > rb.bufferSize then data.drop (data.length - rb.bufferSize)
      else data) = data.drop (data.length - rb.bufferSize) := by
    split
    case isTrue => rfl
    case isFalse hle => rw [Nat.sub_eq_zero_of_le (by omega), drop_zero]
  have hlength := h.holds.length_le
  simp only [rtRingbufferPutForce, hdrop, h.rtRingbufferSpaceLen_eq]
  have hdata : (data.drop (data.length - rb.bufferSize)).length ≤ rb.bufferSize := by
    rw [length_drop]
    omega
  generalize data.drop (data.length - rb.bufferSize) = data at hdata
  obtain ⟨-, -, -, -, hrm⟩ := h.copyIn_ring hdata
  by_cases hfit : q.length + data.length ≤ rb.bufferSize
  · rw [if_neg (by omega), if_pos hfit]
  · rw [if_pos (by omega), if_neg hfit]
    by_cases hlt : rb.bufferSize - rb.writeIndex > data.length
    · rw [if_pos hlt, if_pos hlt, ← hrm]
    · rw [if_neg hlt, if_neg hlt, hrm]

/-- Dropping the oldest bytes of the input first makes no difference. -/
lemma drop_append_drop (q data : List UInt8) {size : ℕ} (hq : q.length ≤ size) :
    (q ++ data.drop (data.length - size)).drop
        (q.length + (data.drop (data.length - size)).length - size) =
      (q ++ data).rtake (min size (q.length + data.length)) := by
  have hamount : (q ++ data).length - min size (q.length + data.length) =
      q.length + data.length - size := by
    rw [length_append]
    omega
  rw [rtake, hamount, length_drop]
  by_cases hle : data.length ≤ size
  · rw [Nat.sub_eq_zero_of_le hle, drop_zero, Nat.sub_zero]
  · -- nothing of `q` is left
    have hleft : q.length + (data.length - (data.length - size)) - size = q.length := by omega
    have hright : q.length + data.length - size = q.length + (data.length - size) := by omega
    have hnil : q.drop (q.length + (data.length - size)) = [] :=
      drop_of_length_le (le_add_right _ _)
    rw [hleft, hright, drop_left, drop_append, hnil, Nat.add_sub_cancel_left, nil_append]

lemma contents_of_status_empty (h : rtRingbufferStatus rb = .empty) : rb.contents = [] := by
  have hlen : rtRingbufferDataLen rb = 0 := by rw [rtRingbufferDataLen, h]
  rw [contents, hlen]
  exact eq_nil_of_length_eq_zero length_readFrom

lemma contents_rtRingbufferPutForce_of_size_zero (h : rb.Valid) (hzero : rb.bufferSize = 0)
    (data : List UInt8) : (rtRingbufferPutForce rb data).1.contents = [] := by
  have hspace : rtRingbufferSpaceLen rb = 0 := by rw [rtRingbufferSpaceLen, hzero, Nat.zero_sub]
  have hcopied : (if data.length > 0 then data.drop (data.length - 0) else data) = [] := by
    cases data with
    | nil => rfl
    | cons b data => simp
  simp only [rtRingbufferPutForce, hspace, hzero, hcopied]
  obtain ⟨-, hread, hwrite, -⟩ := h
  have hcopy : rb.copyIn [] = { rb with writeMirror := !rb.writeMirror, writeIndex := 0 } := by
    simp [Ringbuffer.copyIn, hzero, blit_nil]
  rw [if_neg (by simp), hcopy]
  refine contents_of_size_zero hzero ?_
  change rb.readIndex = 0
  omega

/-- `rt_ringbuffer_put_force` keeps the last bytes of the old contents and the input, if the mirror
bits are different, or if the buffer is empty or nothing is overwritten. Otherwise the two mirror bits
are equal afterwards, and the buffer appears to be empty. -/
theorem contents_rtRingbufferPutForce_iff (h : rb.Valid) (data : List UInt8) :
    (rtRingbufferPutForce rb data).1.contents =
        (rb.contents ++ data).rtake (min rb.bufferSize (rb.contents.length + data.length)) ↔
      (rb.readMirror = rb.writeMirror → rb.readIndex = rb.writeIndex ∨
        rb.writeIndex - rb.readIndex + data.length ≤ rb.bufferSize) := by
  rcases Nat.eq_zero_or_pos rb.bufferSize with hzero | hpos
  · rw [contents_rtRingbufferPutForce_of_size_zero h hzero, hzero, Nat.zero_min, rtake_zero]
    obtain ⟨-, hread, hwrite, -⟩ := h
    exact iff_of_true rfl fun _ => .inl (by omega)
  · have hstores := h.stores hpos
    have hindex := hstores.index_eq
    have hlength := hstores.holds.length_le
    rw [rtRingbufferPutForce_eq hstores, ← drop_append_drop rb.contents data hlength]
    generalize rb.contents = q at hstores hindex hlength
    have hdata : (data.drop (data.length - rb.bufferSize)).length = min data.length rb.bufferSize := by
      rw [length_drop]
      omega
    dsimp only
    generalize data.drop (data.length - rb.bufferSize) = copied at hdata
    by_cases hfit : q.length + copied.length ≤ rb.bufferSize
    · -- everything fits
      rw [if_pos hfit, (hstores.copyIn hfit).contents_eq, Nat.sub_eq_zero_of_le hfit, drop_zero]
      refine iff_of_true rfl fun hm => ?_
      rw [lead, if_pos hm] at hindex
      omega
    · rw [if_neg hfit]
      have hcopied : copied.length ≤ rb.bufferSize := by omega
      by_cases hm : rb.readMirror = rb.writeMirror
      · -- the mirror bits are equal afterwards
        rw [lead, if_pos hm] at hindex
        have hempty : rtRingbufferStatus { rb.copyIn copied with
            readMirror := if rb.bufferSize - rb.writeIndex > copied.length then rb.readMirror
              else !rb.readMirror
            readIndex := (rb.copyIn copied).writeIndex } = .empty := by
          rw [rtRingbufferStatus, if_pos rfl, if_pos]
          change _ = (rb.copyIn copied).writeMirror
          rw [Stores.copyIn_writeMirror, hm]
        rw [contents_of_status_empty hempty]
        refine iff_of_false (fun hnil => ?_) fun hcond => ?_
        · have hzero := congrArg length hnil
          rw [length_nil, length_drop, length_append] at hzero
          omega
        · have := hcond hm
          omega
      · refine iff_of_true ?_ fun heq => absurd heq hm
        refine (hstores.overwrite hcopied (by omega) ?_).contents_eq
        rw [Stores.copyIn_writeMirror]
        split
        · exact hm
        · exact fun heq => hm (Bool.not_inj heq)

/-- A ring buffer of eight bytes after `rt_ringbuffer_put` of six bytes and `rt_ringbuffer_get` of
`n` bytes. -/
def afterGet (n : ℕ) : Ringbuffer :=
  (rtRingbufferGet (rtRingbufferPut (rtRingbufferInit (fun _ => 0) 8) [1, 2, 3, 4, 5, 6]).1 n).1

/-- Four bytes are left and four new ones fit. -/
theorem contents_rtRingbufferPutForce_fits : (afterGet 2).Valid ∧
    (rtRingbufferPutForce (afterGet 2) [7, 8, 9, 10]).1.contents = [3, 4, 5, 6, 7, 8, 9, 10] := by
  have hvalid : (afterGet 2).Valid :=
    ⟨by decide +kernel, by decide +kernel, by decide +kernel, by decide +kernel⟩
  exact ⟨hvalid, ((contents_rtRingbufferPutForce_iff hvalid [7, 8, 9, 10]).mpr
    fun _ => .inr (by decide +kernel)).trans (by decide +kernel)⟩

/-- Six bytes are stored, and four new ones overwrite two of them: the buffer appears to be empty
afterwards. -/
theorem contents_rtRingbufferPutForce_lost : (afterGet 0).Valid ∧
    (afterGet 0).contents = [1, 2, 3, 4, 5, 6] ∧
      (rtRingbufferPutForce (afterGet 0) [7, 8, 9, 10]).1.contents = [] ∧
      (rtRingbufferPutForce (afterGet 0) [7, 8, 9, 10]).1.contents ≠
        ((afterGet 0).contents ++ [7, 8, 9, 10]).rtake
          (min (afterGet 0).bufferSize ((afterGet 0).contents.length + 4)) :=
  ⟨⟨by decide +kernel, by decide +kernel, by decide +kernel, by decide +kernel⟩,
    by decide +kernel, by decide +kernel, by decide +kernel⟩

end Ringbuffer

end Drivers
