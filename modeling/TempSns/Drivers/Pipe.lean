import TempSns.Drivers.Ringbuffer
import TempSns.Lib.Exec
import TempSns.Lib.Transition

/-!
# Pipes

Embedding of the file operations of `components/drivers/src/pipe.c`, and the machine of one pipe, its
open descriptors and any number of threads that read and write. `pipe->lock` is held from one wait to
the next one, so a step of the machine is one round of the loop of `pipe_fops_read` or
`pipe_fops_write`. A thread that waits in `rt_wqueue_wait` may go on in every state; this covers every
order of the wake-ups.

The functions of the device interface do not wait; their loop is embedded with fuel.
-/

namespace Drivers

open Function List Option Transition

/-- `fd->flags & O_ACCMODE`. -/
inductive AccMode where
  | rdonly
  | wronly
  | rdwr
  deriving DecidableEq, Repr

/-- A descriptor of this mode is counted in `readers`. -/
def AccMode.reads : AccMode → Bool
  | .wronly => false
  | _ => true

/-- A descriptor of this mode is counted in `writers`. -/
def AccMode.writes : AccMode → Bool
  | .rdonly => false
  | _ => true

/-- `struct rt_pipe_device` without its wait queues and its lock. -/
structure Pipe where
  /-- The buffer, while the pipe is open. -/
  fifo : Option Ringbuffer
  /-- The size of the buffer. -/
  bufsz : UInt16
  /-- The number of readers. -/
  readers : UInt8
  /-- The number of writers. -/
  writers : UInt8
  /-- `parent.ref_count`. -/
  refCount : UInt8

/-- The argument `pool` is the memory that `rt_malloc` returns, if any. -/
def rtRingbufferCreate (pool : Option (ℕ → UInt8)) (size : UInt16) :
    Except Fault (Option Ringbuffer) :=
  if size = 0 then .error .assertion
  else
    match pool with
    | none => .ok none
    | some pool =>
      -- the argument of `rt_ringbuffer_init` is signed and must be positive
      if 0 < Word32.alignDown size.toNat 4 ∧ Word32.alignDown size.toNat 4 < 2 ^ 15 then
        .ok (some (rtRingbufferInit pool (Word32.alignDown size.toNat 4)))
      else .error .assertion

/-- The ring buffer after `pipe_fops_open`: the first descriptor creates it. -/
def openFifo (pipe : Pipe) (pool : Option (ℕ → UInt8)) : Except Fault (Option Ringbuffer) :=
  if pipe.refCount = 0 then rtRingbufferCreate pool pipe.bufsz else .ok pipe.fifo

def pipeFopsOpen (pipe : Pipe) (mode : AccMode) (pool : Option (ℕ → UInt8)) : Except Fault Pipe :=
  (openFifo pipe pool).map fun fifo =>
    { pipe with
      fifo := fifo
      readers := if mode.reads then pipe.readers + 1 else pipe.readers
      writers := if mode.writes then pipe.writers + 1 else pipe.writers
      refCount := pipe.refCount + 1 }

def pipeFopsClose (pipe : Pipe) (mode : AccMode) : Except Fault Pipe :=
  let pipe' := { pipe with
    readers := if mode.reads then pipe.readers - 1 else pipe.readers
    writers := if mode.writes then pipe.writers - 1 else pipe.writers
    refCount := pipe.refCount - 1 }
  if pipe.refCount = 1 then
    match pipe.fifo with
    | some _ => .ok { pipe' with fifo := none }
    | none => .error .assertion
  else .ok pipe'

/-- What a round of the loop of `pipe_fops_read` ends with. -/
inductive ReadRound where
  /-- The call returns these bytes. -/
  | bytes (data : List UInt8)
  /-- The call returns 0: end of file. -/
  | eof
  /-- The call returns `-EAGAIN`. -/
  | again
  /-- The thread waits. -/
  | waits
  deriving DecidableEq, Repr

/-- A round of the loop of `pipe_fops_read`. The length of `rt_ringbuffer_get` has 16 bits. -/
def pipeFopsReadRound (pipe : Pipe) (count : ℕ) (nonblock : Bool) :
    Except Fault (Pipe × ReadRound) :=
  if pipe.writers = 0 then .ok (pipe, .eof)
  else
    match pipe.fifo with
    | none => .error .assertion
    | some fifo =>
      let (fifo, data) := rtRingbufferGet fifo (count % 2 ^ 16)
      let pipe := { pipe with fifo := some fifo }
      if 0 < data.length then .ok (pipe, .bytes data)
      else if nonblock then .ok (pipe, .again)
      else .ok (pipe, .waits)

/-- What a round of the loop of `pipe_fops_write` ends with. -/
inductive WriteRound where
  /-- The call returns. -/
  | done
  /-- The thread waits. -/
  | waits
  deriving DecidableEq, Repr

/-- A round of the loop of `pipe_fops_write` with the bytes that are not written yet, and the number
of bytes that it writes. The length of `rt_ringbuffer_put` has 16 bits. -/
def pipeFopsWriteRound (pipe : Pipe) (rest : List UInt8) (nonblock : Bool) :
    Except Fault (Pipe × ℕ × WriteRound) :=
  if pipe.readers = 0 then .ok (pipe, 0, .done)
  else
    match pipe.fifo with
    | none => .error .assertion
    | some fifo =>
      let (fifo, len) := rtRingbufferPut fifo (rest.take (rest.length % 2 ^ 16))
      let pipe := { pipe with fifo := some fifo }
      if len = rest.length then .ok (pipe, len, .done)
      else if nonblock then .ok (pipe, len, .done)
      else .ok (pipe, len, .waits)

namespace Pipe

/-- A call in progress. -/
inductive Call where
  | read (count : ℕ) (nonblock : Bool)
  /-- `pipe_fops_write` with the bytes that are not written yet. -/
  | write (rest : List UInt8) (nonblock : Bool)
  deriving DecidableEq, Repr

/-- Where a thread is. -/
inductive Phase where
  /-- In no call. -/
  | idle
  /-- Before a round of the loop. -/
  | round (c : Call)
  /-- In `rt_wqueue_wait`. -/
  | waiting (c : Call)
  deriving DecidableEq, Repr

/-- A call of `pipe_fops_read` that returned, with what was true when it decided to. -/
structure ReadReturn where
  count : ℕ
  result : ReadRound
  fds : List AccMode
  written : List UInt8
  returned : List UInt8

/-- A pipe with its descriptors, its callers and its history. -/
structure Machine (T : Type) where
  pipe : Pipe
  fds : List AccMode
  phase : T → Phase
  written : List UInt8
  returned : List UInt8
  reads : List ReadReturn

inductive Act (T : Type) where
  /-- A descriptor is opened; `rt_malloc` returns `pool`. -/
  | opens (mode : AccMode) (pool : Option (ℕ → UInt8))
  /-- A descriptor is closed. -/
  | closes (mode : AccMode)
  /-- A thread calls `pipe_fops_read` or `pipe_fops_write`. -/
  | call (t : T) (c : Call)
  /-- A thread takes the lock and executes a round of the loop. -/
  | round (t : T)
  /-- A thread that waits goes on. -/
  | wake (t : T)

variable {T : Type} [DecidableEq T] {pool : Option (ℕ → UInt8)}

def Machine.record (m : Machine T) (t : T) (count : ℕ) (result : ReadRound) : Machine T :=
  { m with
    phase := update m.phase t .idle
    reads := m.reads ++ [⟨count, result, m.fds, m.written, m.returned⟩] }

/-- The test before the loop of `pipe_fops_read` and `pipe_fops_write`. -/
def enter (m : Machine T) (t : T) : Call → Machine T
  | .read count nonblock =>
    -- no process has the pipe open for writing, return end-of-file
    if m.pipe.writers = 0 then m.record t count .eof
    else { m with phase := update m.phase t (.round (.read count nonblock)) }
  | .write rest nonblock =>
    if m.pipe.readers = 0 ∨ rest = [] then m
    else { m with phase := update m.phase t (.round (.write rest nonblock)) }

def round (m : Machine T) (t : T) : Call → Except Fault (Machine T)
  | .read count nonblock => do
    let (pipe, result) ← pipeFopsReadRound m.pipe count nonblock
    match result with
    | .bytes data => .ok { m.record t count result with pipe := pipe, returned := m.returned ++ data }
    | .waits =>
      .ok { m with
        pipe := pipe
        phase := update m.phase t (.waiting (.read count nonblock)) }
    | _ => .ok { m.record t count result with pipe := pipe }
  | .write rest nonblock => do
    let (pipe, len, result) ← pipeFopsWriteRound m.pipe rest nonblock
    match result with
    | .done =>
      .ok { m with
        pipe := pipe
        phase := update m.phase t .idle
        written := m.written ++ rest.take len }
    | .waits =>
      .ok { m with
        pipe := pipe
        phase := update m.phase t (.waiting (.write (rest.drop len) nonblock))
        written := m.written ++ rest.take len }

def step (m : Machine T) : Act T → Option (Machine T)
  | .opens mode pool => (pipeFopsOpen m.pipe mode pool).toOption.map fun pipe =>
      { m with pipe := pipe, fds := mode :: m.fds }
  | .closes mode =>
    if mode ∈ m.fds then (pipeFopsClose m.pipe mode).toOption.map fun pipe =>
      { m with pipe := pipe, fds := m.fds.erase mode }
    else none
  | .call t c => if m.phase t = .idle then some (enter m t c) else none
  | .round t =>
    match m.phase t with
    | .round c => (round m t c).toOption
    | _ => none
  | .wake t =>
    match m.phase t with
    | .waiting c => some { m with phase := update m.phase t (.round c) }
    | _ => none

/-- A pipe that is not open. -/
def Initial (m : Machine T) : Prop :=
  m.pipe.fifo = none ∧ m.pipe.readers = 0 ∧ m.pipe.writers = 0 ∧ m.pipe.refCount = 0 ∧ m.fds = [] ∧
    (∀ t, m.phase t = .idle) ∧ m.written = [] ∧ m.returned = [] ∧ m.reads = []

def openWriters (fds : List AccMode) : ℕ := fds.countP AccMode.writes

/-- A read that returned end of file did so when no descriptor was open for writing and every byte
written before had been returned. -/
def ReadReturn.EofOk (r : ReadReturn) : Prop :=
  0 < r.count → r.result = .eof → (∀ mode ∈ r.fds, mode.writes = false) ∧ r.written = r.returned

/-- The last descriptor for writing is closed only after every byte written has been returned, at most
255 descriptors are open for writing, and a write finds a descriptor open for writing. -/
def Drained (m : Machine T) : Act T → Prop
  | .opens mode _ => mode.writes = true → openWriters m.fds + 1 < 2 ^ 8
  | .closes mode => mode.writes = true → openWriters m.fds = 1 → m.written = m.returned
  | .round t => ∀ rest nonblock, m.phase t = .round (.write rest nonblock) → 0 < openWriters m.fds
  | _ => True

/-! ## End of file -/

variable {m m' : Machine T} {t : T} {pipe pipe' : Pipe} {mode : AccMode}

/-- The counter of the writers is right, and while there is none nothing is left to be read. -/
structure Inv (m : Machine T) : Prop where
  writers : m.pipe.writers.toNat = openWriters m.fds
  drained : openWriters m.fds = 0 → m.written = m.returned
  eof : ∀ r ∈ m.reads, r.EofOk

lemma writers_pipeFopsOpen (hok : pipeFopsOpen pipe mode pool = .ok pipe') :
    pipe'.writers = if mode.writes then pipe.writers + 1 else pipe.writers := by
  obtain ⟨fifo, -, rfl⟩ := map_eq_ok.mp hok
  rfl

lemma writers_pipeFopsClose (hok : pipeFopsClose pipe mode = .ok pipe') :
    pipe'.writers = if mode.writes then pipe.writers - 1 else pipe.writers := by
  simp only [pipeFopsClose] at hok
  split at hok
  · split at hok
    · cases hok
      rfl
    · cases hok
  · cases hok
    rfl

lemma pipeFopsReadRound_cases {count : ℕ} {nonblock : Bool} {result : ReadRound}
    (hok : pipeFopsReadRound pipe count nonblock = .ok (pipe', result)) :
    pipe'.writers = pipe.writers ∧ (result = .eof → pipe.writers = 0) ∧
      (pipe.writers = 0 → result = .eof) := by
  unfold pipeFopsReadRound at hok
  split at hok
  case isTrue hzero =>
    cases hok
    exact ⟨rfl, fun _ => hzero, fun _ => rfl⟩
  case isFalse hpos =>
    split at hok
    case h_1 => cases hok
    case h_2 fifo hfifo =>
      dsimp only at hok
      split at hok
      · cases hok
        exact ⟨rfl, nofun, fun hzero => absurd hzero hpos⟩
      · split at hok
        · cases hok
          exact ⟨rfl, nofun, fun hzero => absurd hzero hpos⟩
        · cases hok
          exact ⟨rfl, nofun, fun hzero => absurd hzero hpos⟩

lemma writers_pipeFopsWriteRound {rest : List UInt8} {nonblock : Bool} {len : ℕ}
    {result : WriteRound} (hok : pipeFopsWriteRound pipe rest nonblock = .ok (pipe', len, result)) :
    pipe'.writers = pipe.writers := by
  unfold pipeFopsWriteRound at hok
  split at hok
  · cases hok
    rfl
  · split at hok
    · cases hok
    · dsimp only at hok
      split at hok
      · cases hok
        rfl
      · split at hok
        · cases hok
          rfl
        · cases hok
          rfl

namespace Inv

section

variable (h : Inv m)

include h

omit [DecidableEq T] in
lemma no_writers : m.pipe.writers = 0 ↔ openWriters m.fds = 0 := by
  rw [← h.writers, ← UInt8.toNat_inj]
  rfl

lemma record (t : T) (count : ℕ) {result : ReadRound}
    (heof : result = .eof → m.pipe.writers = 0) : Inv (m.record t count result) := by
  refine ⟨h.writers, h.drained, fun r hr => ?_⟩
  rcases mem_append.mp hr with hr | hr
  · exact h.eof r hr
  · rw [mem_singleton.mp hr]
    intro _ hresult
    have hnone := h.no_writers.mp (heof hresult)
    refine ⟨fun mode hmode => ?_, h.drained hnone⟩
    have hnot := countP_eq_zero.mp hnone mode hmode
    simpa using hnot

omit [DecidableEq T] in
lemma opens (hfits : mode.writes = true → openWriters m.fds + 1 < 2 ^ 8)
    (hok : pipeFopsOpen m.pipe mode pool = .ok pipe') :
    Inv { m with pipe := pipe', fds := mode :: m.fds } := by
  have hwriters := writers_pipeFopsOpen hok
  by_cases hw : mode.writes = true
  · have hcount : openWriters (mode :: m.fds) = openWriters m.fds + 1 := countP_cons_of_pos hw
    refine ⟨?_, fun hzero => ?_, h.eof⟩
    · change pipe'.writers.toNat = openWriters (mode :: m.fds)
      rw [hwriters, if_pos hw, hcount, UInt8.toNat_add, h.writers]
      exact Nat.mod_eq_of_lt (hfits hw)
    · change openWriters (mode :: m.fds) = 0 at hzero
      omega
  · have hcount : openWriters (mode :: m.fds) = openWriters m.fds := countP_cons_of_neg hw
    refine ⟨?_, fun hzero => ?_, h.eof⟩
    · change pipe'.writers.toNat = openWriters (mode :: m.fds)
      rw [hwriters, if_neg hw, hcount]
      exact h.writers
    · exact h.drained (hcount ▸ hzero)

omit [DecidableEq T] in
lemma closes (hmem : mode ∈ m.fds)
    (hdrained : mode.writes = true → openWriters m.fds = 1 → m.written = m.returned)
    (hok : pipeFopsClose m.pipe mode = .ok pipe') :
    Inv { m with pipe := pipe', fds := m.fds.erase mode } := by
  have hwriters := writers_pipeFopsClose hok
  by_cases hw : mode.writes = true
  · have hpos : 0 < openWriters m.fds := countP_pos_iff.mpr ⟨mode, hmem, hw⟩
    have hcount : openWriters (m.fds.erase mode) = openWriters m.fds - 1 := by
      rw [openWriters, countP_erase, if_pos ⟨hmem, hw⟩]
      rfl
    refine ⟨?_, fun hzero => ?_, h.eof⟩
    · change pipe'.writers.toNat = openWriters (m.fds.erase mode)
      have hone : (1 : UInt8) ≤ m.pipe.writers := by
        rw [UInt8.le_iff_toNat_le, h.writers]
        exact hpos
      rw [hwriters, if_pos hw, hcount, UInt8.toNat_sub_of_le _ _ hone, h.writers]
      rfl
    · change openWriters (m.fds.erase mode) = 0 at hzero
      exact hdrained hw (by omega)
  · have hcount : openWriters (m.fds.erase mode) = openWriters m.fds := by
      rw [openWriters, countP_erase, if_neg fun hand => hw hand.2]
      rfl
    refine ⟨?_, fun hzero => ?_, h.eof⟩
    · change pipe'.writers.toNat = openWriters (m.fds.erase mode)
      rw [hwriters, if_neg hw, hcount]
      exact h.writers
    · exact h.drained (hcount ▸ hzero)

lemma enter (t : T) (c : Call) : Inv (enter m t c) := by
  cases c with
  | read count nonblock =>
    simp only [Pipe.enter]
    split
    case isTrue hzero => exact h.record t count fun _ => hzero
    case isFalse => exact ⟨h.writers, h.drained, h.eof⟩
  | write rest nonblock =>
    simp only [Pipe.enter]
    split
    · exact h
    · exact ⟨h.writers, h.drained, h.eof⟩

lemma round {c : Call} (hopen : ∀ rest nonblock, c = .write rest nonblock → 0 < openWriters m.fds)
    (hok : round m t c = .ok m') : Inv m' := by
  cases c with
  | read count nonblock =>
    obtain ⟨⟨pipe, result⟩, hread, hok⟩ := bind_eq_ok.mp hok
    obtain ⟨hwriters, heof, hzero⟩ := pipeFopsReadRound_cases hread
    have hrecord := h.record t count heof
    cases result with
    | bytes data =>
      cases hok
      -- bytes are returned only while there is a writer
      refine ⟨by rw [hwriters]; exact h.writers, fun hnone => ?_, hrecord.eof⟩
      exact absurd (hzero (h.no_writers.mpr hnone)) nofun
    | eof => cases hok; exact ⟨by rw [hwriters]; exact h.writers, h.drained, hrecord.eof⟩
    | again => cases hok; exact ⟨by rw [hwriters]; exact h.writers, h.drained, hrecord.eof⟩
    | waits => cases hok; exact ⟨by rw [hwriters]; exact h.writers, h.drained, h.eof⟩
  | write rest nonblock =>
    obtain ⟨⟨pipe, len, result⟩, hwrite, hok⟩ := bind_eq_ok.mp hok
    have hwriters := writers_pipeFopsWriteRound hwrite
    have hpos := hopen rest nonblock rfl
    have hnone : openWriters m.fds = 0 → m.written ++ rest.take len = m.returned :=
      fun hzero => absurd hzero hpos.ne'
    cases result with
    | done => cases hok; exact ⟨by rw [hwriters]; exact h.writers, hnone, h.eof⟩
    | waits => cases hok; exact ⟨by rw [hwriters]; exact h.writers, hnone, h.eof⟩

lemma step {a : Act T} (ha : Drained m a) (hok : step m a = some m') : Inv m' := by
  cases a with
  | opens mode pool =>
    obtain ⟨pipe, hopen, rfl⟩ := map_eq_some_iff.mp hok
    exact h.opens ha (toOption_eq_some.mp hopen)
  | closes mode =>
    obtain ⟨hmem, hok⟩ := ite_none_right_eq_some.mp hok
    obtain ⟨pipe, hclose, rfl⟩ := map_eq_some_iff.mp hok
    exact h.closes hmem ha (toOption_eq_some.mp hclose)
  | call t c =>
    obtain ⟨-, hok⟩ := ite_none_right_eq_some.mp hok
    obtain rfl := some.inj hok
    exact h.enter t c
  | round t =>
    simp only [Pipe.step] at hok
    split at hok
    case h_1 c hphase =>
      refine h.round (fun rest nonblock hc => ?_) (toOption_eq_some.mp hok)
      exact ha rest nonblock (hphase.trans (by rw [hc]))
    case h_2 => cases hok
  | wake t =>
    simp only [Pipe.step] at hok
    split at hok
    case h_1 c hphase =>
      obtain rfl := some.inj hok
      exact ⟨h.writers, h.drained, h.eof⟩
    case h_2 => cases hok

end

omit [DecidableEq T] in
lemma init (h : Initial m) : Inv m := by
  obtain ⟨-, -, hwriters, -, hfds, -, hwritten, hreturned, hreads⟩ := h
  refine ⟨?_, fun _ => ?_, fun r hr => ?_⟩
  · rw [hwriters, hfds]
    rfl
  · rw [hwritten, hreturned]
  · rw [hreads] at hr
    exact absurd hr not_mem_nil

end Inv

/-- If the last writer closes the pipe only after everything has been read, no read returns end of file
too early, in every run. -/
theorem eofOk_of_drained (hm : Reach Initial step Drained m) : ∀ r ∈ m.reads, r.EofOk :=
  (hm.invariant (I := Inv) (fun _ => Inv.init) fun _ _ _ h ha hok => h.step ha hok).eof

/-- A pipe that is not open, and two threads. -/
def idle : Machine Bool where
  pipe := ⟨none, 8, 0, 0, 0⟩
  fds := []
  phase := fun _ => .idle
  written := []
  returned := []
  reads := []

lemma initial_idle : Initial idle := ⟨rfl, rfl, rfl, rfl, rfl, fun _ => rfl, rfl, rfl, rfl⟩

def drained (m : Machine T) : Act T → Bool
  | .opens mode _ => !mode.writes || openWriters m.fds + 1 < 2 ^ 8
  | .closes mode => !mode.writes || openWriters m.fds ≠ 1 || m.written = m.returned
  | .round _ => 0 < openWriters m.fds
  | _ => true

omit [DecidableEq T] in
lemma drained_of_test {a : Act T} (h : drained m a = true) : Drained m a := by
  cases a with
  | opens mode pool =>
    intro hw
    simpa [drained, hw] using h
  | closes mode =>
    intro hw hone
    simpa [drained, hw, hone] using h
  | call t c => trivial
  | round t => exact fun _ _ _ => of_decide_eq_true h
  | wake t => trivial

/-- Two bytes are written and read before the writer closes the pipe, and the next read returns end of
file. -/
theorem eofOk_after_drain : ∃ m : Machine Bool,
    m.returned = [1, 2] ∧ m.reads.map (·.result) = [.bytes [1, 2], .eof] ∧
      ∀ r ∈ m.reads, r.EofOk := by
  obtain ⟨m, hreach, hreturned, hreads⟩ : ∃ m : Machine Bool,
      Reach Initial step Drained m ∧ m.returned = [1, 2] ∧
        m.reads.map (·.result) = [.bytes [1, 2], .eof] :=
    exists_of_run (fun _ _ => drained_of_test) initial_idle
      [.opens .rdonly (some fun _ => 0), .opens .wronly none, .call true (.write [1, 2] false),
        .round true, .call false (.read 4 false), .round false, .closes .wronly,
        .call false (.read 4 false)] (by decide +kernel)
  exact ⟨m, hreturned, hreads, eofOk_of_drained hreach⟩

/-- The writer closes the pipe after it has written two bytes. The next read returns end of file,
although the two bytes are in the buffer. -/
theorem not_eofOk_unread : ∃ m : Machine Bool,
    Reach Initial step (fun _ _ => True) m ∧ m.written = [1, 2] ∧ m.returned = [] ∧
      m.reads.map (·.result) = [.eof] ∧ ¬ ∀ r ∈ m.reads, r.EofOk := by
  obtain ⟨m, hreach, hwritten, hreturned, hreads, hbad⟩ : ∃ m : Machine Bool,
      Reach Initial step (fun _ _ => True) m ∧ m.written = [1, 2] ∧ m.returned = [] ∧
        m.reads.map (·.result) = [.eof] ∧ m.reads.any (fun r => decide (0 < r.count ∧
          r.result = .eof ∧ r.written ≠ r.returned)) = true :=
    exists_of_free_run initial_idle [.opens .rdonly (some fun _ => 0), .opens .wronly none,
      .call true (.write [1, 2] false), .round true, .closes .wronly, .call false (.read 4 false)]
      (by decide +kernel)
  refine ⟨m, hreach, hwritten, hreturned, hreads, fun hok => ?_⟩
  obtain ⟨r, hr, hr'⟩ := any_eq_true.mp hbad
  obtain ⟨hcount, hresult, hne⟩ := of_decide_eq_true hr'
  exact hne (hok r hr hcount hresult).2

end Pipe

/-! ## Device interface -/

/-- The loop of `rt_pipe_read` and `rt_pipe_write`, with the bytes that have been transferred. The
length that is passed to the ring buffer has 16 bits. -/
def pipeLoop {σ : Type} (call : σ → (bytes length : ℕ) → σ × ℕ) (count : ℕ) :
    (fuel : ℕ) → σ → (bytes : ℕ) → Except Fault (σ × ℕ)
  | 0, _, _ => .error .diverges
  | fuel + 1, s, bytes =>
    if bytes < count then
      let r := call s bytes ((count - bytes) % 2 ^ 16)
      if r.2 = 0 then .ok (r.1, bytes) else pipeLoop call count fuel r.1 (bytes + r.2)
    else .ok (s, bytes)

/-- `rt_ringbuffer_get` behind the bytes that were read. -/
def getInto (s : Ringbuffer × List UInt8) (_ length : ℕ) : (Ringbuffer × List UInt8) × ℕ :=
  let (fifo, data) := rtRingbufferGet s.1 length
  ((fifo, s.2 ++ data), data.length)

/-- `rt_ringbuffer_put` of the bytes that were not written. -/
def putFrom (buffer : List UInt8) (fifo : Ringbuffer) (bytes length : ℕ) : Ringbuffer × ℕ :=
  rtRingbufferPut fifo ((buffer.drop bytes).take length)

/-- `rt_pipe_read` of a device that is not null, with the bytes that it stores and its result. -/
def rtPipeRead (fuel : ℕ) (pipe : Pipe) (count : ℕ) : Except Fault (Pipe × List UInt8 × ℕ) :=
  if count = 0 then .ok (pipe, [], 0)
  else
    match pipe.fifo with
    | none => .error .assertion
    | some fifo => (pipeLoop getInto count fuel (fifo, []) 0).map fun r =>
        ({ pipe with fifo := some r.1.1 }, r.1.2, r.2)

/-- `rt_pipe_write` of a device that is not null, with its result. -/
def rtPipeWrite (fuel : ℕ) (pipe : Pipe) (buffer : List UInt8) : Except Fault (Pipe × ℕ) :=
  if buffer.length = 0 then .ok (pipe, 0)
  else
    match pipe.fifo with
    | none => .error .assertion
    | some fifo => (pipeLoop (putFrom buffer) buffer.length fuel fifo 0).map fun r =>
        ({ pipe with fifo := some r.1 }, r.2)

namespace Pipe

variable {pipe : Pipe} {q : List UInt8}

/-- The bytes that are stored; a closed pipe has none. -/
def Holds : Option Ringbuffer → List UInt8 → Prop
  | none, q => q = []
  | some fifo, q => fifo.Stores q

/-- The free space; a closed pipe has none. -/
def space (pipe : Pipe) (q : List UInt8) : ℕ :=
  match pipe.fifo with
  | none => 0
  | some fifo => fifo.bufferSize - q.length

/-- `rt_pipe_read` returns, and has taken as many of the bytes `q` as there are and were asked for. -/
def ReadsAll (pipe : Pipe) (q : List UInt8) (count : ℕ) : Prop :=
  ∃ fifo : Option Ringbuffer, Holds fifo (q.drop count) ∧
    Returns (fun fuel => rtPipeRead fuel pipe count)
      ({ pipe with fifo }, q.take count, min count q.length)

/-- `rt_pipe_write` returns, and has appended as many bytes to `q` as there is room for. -/
def WritesAll (pipe : Pipe) (q buffer : List UInt8) : Prop :=
  ∃ fifo : Option Ringbuffer, Holds fifo (q ++ buffer.take (pipe.space q)) ∧
    Returns (fun fuel => rtPipeWrite fuel pipe buffer)
      ({ pipe with fifo }, min buffer.length (pipe.space q))

/-- The first call transfers what the low 16 bits of the count allow, and the second one nothing. -/
lemma pipeLoop_returns {σ : Type} (call : σ → ℕ → ℕ → σ × ℕ) {count n : ℕ} {s : σ} {P : σ → Prop}
    (hcount : count ≠ 0) (hfirst : P (call s 0 (count % 2 ^ 16)).1)
    (hn : (call s 0 (count % 2 ^ 16)).2 = n)
    (hnext : ∀ s, P s → P (call s n ((count - n) % 2 ^ 16)).1 ∧
      (call s n ((count - n) % 2 ^ 16)).2 = 0) :
    ∃ s', P s' ∧ Returns (fun fuel => pipeLoop call count fuel s 0) (s', n) := by
  have hround : ∀ (s : σ) (bytes fuel : ℕ), bytes < count → pipeLoop call count (fuel + 1) s bytes =
        if (call s bytes ((count - bytes) % 2 ^ 16)).2 = 0
        then .ok ((call s bytes ((count - bytes) % 2 ^ 16)).1, bytes)
        else pipeLoop call count fuel (call s bytes ((count - bytes) % 2 ^ 16)).1
          (bytes + (call s bytes ((count - bytes) % 2 ^ 16)).2) :=
    fun s bytes fuel hlt => if_pos hlt
  have hsecond : ∀ s, P s → ∃ s', P s' ∧ ∀ fuel, pipeLoop call count (fuel + 1) s n = .ok (s', n) := by
    intro s hs
    obtain ⟨hP, hzero⟩ := hnext s hs
    by_cases hlt : n < count
    · exact ⟨_, hP, fun fuel => by rw [hround s n fuel hlt, if_pos hzero]⟩
    · exact ⟨s, hs, fun fuel => if_neg hlt⟩
  have hstart := fun fuel => hround s 0 fuel (Nat.pos_of_ne_zero hcount)
  simp only [Nat.sub_zero, Nat.zero_add, hn] at hstart
  by_cases hzero : n = 0
  · refine ⟨_, hfirst, ⟨1, fun fuel hfuel => ?_⟩⟩
    obtain ⟨fuel, rfl⟩ := Nat.exists_eq_add_of_le' hfuel
    exact (hstart fuel).trans (by rw [if_pos hzero, hzero])
  · obtain ⟨s', hs', hend⟩ := hsecond _ hfirst
    refine ⟨s', hs', ⟨2, fun fuel hfuel => ?_⟩⟩
    obtain ⟨fuel, rfl⟩ := Nat.exists_eq_add_of_le' hfuel
    exact (hstart (fuel + 1)).trans (by rw [if_neg hzero, hend])

lemma rtPipeRead_returns {fifo : Ringbuffer} {count : ℕ} (h : fifo.Stores q)
    (hfifo : pipe.fifo = some fifo) (hcount : count ≠ 0) :
    ∃ fifo : Ringbuffer, fifo.Stores (q.drop (count % 2 ^ 16)) ∧
      Returns (fun fuel => rtPipeRead fuel pipe count) ({ pipe with fifo := some fifo },
        q.take (count % 2 ^ 16), min (count % 2 ^ 16) q.length) := by
  obtain ⟨hdata, hstores⟩ := h.rtRingbufferGet (count % 2 ^ 16)
  obtain ⟨⟨fifo', data⟩, ⟨hstores', rfl⟩, hloop⟩ := pipeLoop_returns getInto (s := (fifo, []))
    (n := min (count % 2 ^ 16) q.length)
    (P := fun s => s.1.Stores (q.drop (count % 2 ^ 16)) ∧ s.2 = q.take (count % 2 ^ 16)) hcount
    ⟨hstores, by simp only [getInto, hdata, nil_append]⟩
    (by simp only [getInto, hdata, length_take]) (by
      rintro s ⟨hs, htake⟩
      -- no byte is left, or the rest of the count is a multiple of `2 ^ 16`
      have hnone : (q.drop (count % 2 ^ 16)).take
          ((count - min (count % 2 ^ 16) q.length) % 2 ^ 16) = [] := by
        rw [take_eq_nil_iff, drop_eq_nil_iff]
        omega
      have hall := take_append_drop ((count - min (count % 2 ^ 16) q.length) % 2 ^ 16)
        (q.drop (count % 2 ^ 16))
      obtain ⟨hdata, hstores⟩ := hs.rtRingbufferGet
        ((count - min (count % 2 ^ 16) q.length) % 2 ^ 16)
      rw [hnone] at hdata hall
      rw [nil_append] at hall
      rw [hall] at hstores
      simp only [getInto, hdata, append_nil, length_nil]
      exact ⟨⟨hstores, htake⟩, trivial⟩)
  refine ⟨fifo', hstores', ?_⟩
  simp only [rtPipeRead, if_neg hcount, hfifo]
  exact hloop.map _

lemma rtPipeWrite_returns {fifo : Ringbuffer} {buffer : List UInt8} (h : fifo.Stores q)
    (hfifo : pipe.fifo = some fifo) (hcount : buffer.length ≠ 0) :
    ∃ fifo : Ringbuffer, fifo.Stores
        (q ++ (buffer.take (buffer.length % 2 ^ 16)).take (pipe.space q)) ∧
      Returns (fun fuel => rtPipeWrite fuel pipe buffer) ({ pipe with fifo := some fifo },
        min (buffer.length % 2 ^ 16) (pipe.space q)) := by
  have hspace : pipe.space q = fifo.bufferSize - q.length := by rw [space, hfifo]
  rw [hspace]
  obtain ⟨hlength, hstores⟩ := h.rtRingbufferPut (buffer.take (buffer.length % 2 ^ 16))
  rw [length_take, length_take, Nat.min_comm,
    Nat.min_eq_left (Nat.mod_le buffer.length _)] at hlength
  obtain ⟨fifo', ⟨hstores', -⟩, hloop⟩ := pipeLoop_returns (putFrom buffer) (s := fifo)
    (n := min (buffer.length % 2 ^ 16) (fifo.bufferSize - q.length))
    (P := fun s => s.Stores (q ++ (buffer.take (buffer.length % 2 ^ 16)).take
      (fifo.bufferSize - q.length)) ∧ s.bufferSize = fifo.bufferSize) hcount
    ⟨hstores, Ringbuffer.bufferSize_call fifo (.put _)⟩ hlength (by
      rintro s ⟨hs, hsize⟩
      -- no space is left, or the rest of the count is a multiple of `2 ^ 16`
      have hnone : ((buffer.drop (min (buffer.length % 2 ^ 16) (fifo.bufferSize - q.length))).take
          ((buffer.length - min (buffer.length % 2 ^ 16) (fifo.bufferSize - q.length)) %
            2 ^ 16)).take (s.bufferSize - (q ++ (buffer.take (buffer.length % 2 ^ 16)).take
              (fifo.bufferSize - q.length)).length) = [] := by
        rw [take_take, take_eq_nil_iff, hsize, length_append, length_take, length_take]
        omega
      obtain ⟨hput, hstores⟩ := hs.rtRingbufferPut
        ((buffer.drop (min (buffer.length % 2 ^ 16) (fifo.bufferSize - q.length))).take
          ((buffer.length - min (buffer.length % 2 ^ 16) (fifo.bufferSize - q.length)) % 2 ^ 16))
      rw [hnone] at hput hstores
      rw [append_nil] at hstores
      exact ⟨⟨hstores, (Ringbuffer.bufferSize_call s (.put _)).trans hsize⟩, hput⟩)
  refine ⟨fifo', hstores', ?_⟩
  simp only [rtPipeWrite, if_neg hcount, hfifo]
  exact hloop.map _

/-- The low 16 bits of the count are enough for what there is. -/
lemma min_mod_iff {count n : ℕ} : min (count % 2 ^ 16) n = min count n ↔
    count < 2 ^ 16 ∨ n ≤ count % 2 ^ 16 := by
  omega

/-- `rt_pipe_read` reads all exactly when it has nothing to do, or the pipe is open and the low
16 bits of the count are enough. -/
lemma readsAll_iff (hq : Holds pipe.fifo q) (count : ℕ) : ReadsAll pipe q count ↔
    count = 0 ∨ pipe.fifo.isSome ∧ (count < 2 ^ 16 ∨ q.length ≤ count % 2 ^ 16) := by
  by_cases hcount : count = 0
  · refine iff_of_true ⟨pipe.fifo, ?_, ⟨0, fun fuel _ => ?_⟩⟩ (.inl hcount)
    · rwa [hcount, drop_zero]
    · simp only [rtPipeRead, hcount, if_true, take_zero, Nat.zero_min]
  cases hfifo : pipe.fifo with
  | none =>
    refine iff_of_false ?_ (by simp [hcount])
    rintro ⟨fifo, -, fuel, hret⟩
    simpa [rtPipeRead, hcount, hfifo] using hret fuel le_rfl
  | some fifo =>
    rw [hfifo] at hq
    obtain ⟨fifo', hstores, hret⟩ := rtPipeRead_returns hq hfifo hcount
    simp only [hcount, isSome_some, true_and, false_or, ← min_mod_iff]
    constructor
    · rintro ⟨fifo'', -, hret'⟩
      exact congrArg (fun r => r.2.2) (hret.unique hret')
    · intro hmin
      rw [drop_eq_drop_iff.mpr hmin] at hstores
      rw [take_eq_take_iff.mpr hmin, hmin] at hret
      exact ⟨some fifo', hstores, hret⟩

lemma writesAll_iff (hq : Holds pipe.fifo q) (buffer : List UInt8) : WritesAll pipe q buffer ↔
    buffer.length = 0 ∨
      pipe.fifo.isSome ∧ (buffer.length < 2 ^ 16 ∨ pipe.space q ≤ buffer.length % 2 ^ 16) := by
  by_cases hcount : buffer.length = 0
  · refine iff_of_true ⟨pipe.fifo, ?_, ⟨0, fun fuel _ => ?_⟩⟩ (.inl hcount)
    · rwa [eq_nil_of_length_eq_zero hcount, take_nil, append_nil]
    · simp only [rtPipeWrite, hcount, if_true, Nat.zero_min]
  cases hfifo : pipe.fifo with
  | none =>
    refine iff_of_false ?_ (by simp [hcount])
    rintro ⟨fifo, -, fuel, hret⟩
    simpa [rtPipeWrite, hcount, hfifo] using hret fuel le_rfl
  | some fifo =>
    rw [hfifo] at hq
    obtain ⟨fifo', hstores, hret⟩ := rtPipeWrite_returns hq hfifo hcount
    simp only [hcount, isSome_some, true_and, false_or, ← min_mod_iff]
    constructor
    · rintro ⟨fifo'', -, hret'⟩
      exact congrArg Prod.snd (hret.unique hret')
    · intro hmin
      rw [take_take, Nat.min_comm, hmin, Nat.min_comm, ← take_eq_take_min] at hstores
      rw [hmin] at hret
      exact ⟨some fifo', hstores, hret⟩

/-- `rt_pipe_read` and `rt_pipe_write` transfer all that can be transferred exactly when they have
nothing to do, or the pipe is open and the low 16 bits of the count are enough. -/
theorem transfers_iff (hq : Holds pipe.fifo q) (count : ℕ) (buffer : List UInt8) :
    (ReadsAll pipe q count ↔ count = 0 ∨
      pipe.fifo.isSome ∧ (count < 2 ^ 16 ∨ q.length ≤ count % 2 ^ 16)) ∧
    (WritesAll pipe q buffer ↔ buffer.length = 0 ∨
      pipe.fifo.isSome ∧ (buffer.length < 2 ^ 16 ∨ pipe.space q ≤ buffer.length % 2 ^ 16)) :=
  ⟨readsAll_iff hq count, writesAll_iff hq buffer⟩

/-- A pipe of four bytes that holds two. -/
def half : Pipe where
  fifo := some (rtRingbufferPut (rtRingbufferInit (fun _ => 0) 4) [1, 2]).1
  bufsz := 4
  readers := 1
  writers := 1
  refCount := 2

lemma holds_half : Holds half.fifo [1, 2] := by
  have hinit : (rtRingbufferInit (fun _ => 0) 4).Stores [] := .init (by decide) (by decide)
  exact (hinit.rtRingbufferPut [1, 2]).2

/-- Three bytes are asked for and two are there; there is space for the three bytes but one. -/
theorem transfers_half : Holds half.fifo [1, 2] ∧ ReadsAll half [1, 2] 3 ∧
    WritesAll half [1, 2] [7, 8, 9] :=
  ⟨holds_half, (transfers_iff holds_half 3 []).1.mpr (.inr ⟨rfl, .inl (by decide)⟩),
    (transfers_iff holds_half 0 [7, 8, 9]).2.mpr (.inr ⟨rfl, .inl (by decide)⟩)⟩

/-- Of a count of `2 ^ 16` no byte is transferred. -/
theorem not_transfers_wrap : ∃ (pipe : Pipe) (q buffer : List UInt8), Holds pipe.fifo q ∧
    pipe.fifo.isSome ∧ ¬ ReadsAll pipe q (2 ^ 16) ∧ buffer.length = 2 ^ 16 ∧
    ¬ WritesAll pipe q buffer := by
  refine ⟨half, [1, 2], replicate (2 ^ 16) 0, holds_half, rfl, ?_, length_replicate, ?_⟩
  · rw [readsAll_iff holds_half]
    decide
  · rw [writesAll_iff holds_half, length_replicate]
    decide +kernel

end Pipe

end Drivers
