import Mathlib.Tactic
import TempSns.Ipc.Semaphore

/-!
# Asynchronous output of log lines

Embedding of the end of `do_output` and of `async_output_thread_entry` in
`components/utilities/ulog/ulog.c`. A logging thread puts its block and then sends a notice. The
output thread sets the notices to zero, waits for one and takes out all blocks. A notice between its
last look at the blocks and the reset is lost, and its block then waits for the notice of a later one.
-/

namespace Ulog

open Ipc Waits Transition Option

/-- What the output thread does next. -/
inductive Stage where
  /-- `rt_sem_control` in `ulog_async_waiting_log`. -/
  | reset
  /-- `rt_sem_take` in `ulog_async_waiting_log`. -/
  | take
  /-- `rt_rbb_blk_get` in `ulog_async_output`. -/
  | get
  deriving DecidableEq, Repr

/-- The notices, the blocks and the output thread. -/
structure AsyncOutput where
  /-- `async_notice`, on which only the output thread waits. -/
  notice : Semaphore Unit
  /-- The completed blocks in `async_rbb`, and whether the notice of each is still to come: its logging
  thread is between `rt_rbb_blk_put` and `rt_sem_release`. -/
  stored : List Bool
  /-- The number of blocks that were taken out before their notices. -/
  late : ℕ
  /-- What the output thread does next. -/
  stage : Stage

inductive AsyncAct where
  /-- `rt_rbb_blk_put` of a logging thread. -/
  | put
  /-- `rt_sem_release` of the logging thread of a stored block. -/
  | release (i : ℕ)
  /-- `rt_sem_release` of a logging thread whose block was taken out. -/
  | releaseLate
  /-- The output thread goes on. -/
  | output

/-- `rt_sem_control` with `RT_IPC_CMD_RESET`. -/
def rtSemControl (s : Semaphore Unit) (value : UInt16) : Semaphore Unit :=
  ⟨value, s.waits.resumeAll ()⟩

/-- The next critical section of the output thread. -/
def output (s : AsyncOutput) : Option AsyncOutput :=
  match s.stage, (s.notice.waits.thread ()).phase with
  | .reset, _ => some { s with notice := rtSemControl s.notice 0, stage := .take }
  | .take, .running =>
    let (notice, result) := rtSemTake s.notice () (-1)
    some { s with notice := notice, stage := if result.isSome then .get else .take }
  | .take, .waiting _ _ => none
  | .take, .resumed _ =>
    some { s with notice := { s.notice with waits := s.notice.waits.wake () }, stage := .get }
  | .get, _ =>
    match s.stored with
    | [] => some { s with stage := .reset }
    | owed :: rest => some { s with stored := rest, late := s.late + owed.toNat }

/-- A step of a logging thread or of the output thread. -/
def asyncStep (s : AsyncOutput) : AsyncAct → Option AsyncOutput
  | .put => some { s with stored := s.stored ++ [true] }
  | .release i =>
    if s.stored[i]? = some true then
      some { s with notice := rtSemRelease s.notice, stored := s.stored.set i false }
    else none
  | .releaseLate =>
    if s.late = 0 then none
    else some { s with notice := rtSemRelease s.notice, late := s.late - 1 }
  | .output => output s

/-- The state after `ulog_init`. -/
def asyncInit : AsyncOutput :=
  ⟨⟨0, ⟨fun _ => ⟨0, .eok, .running⟩, fun _ => [], fun _ => .fifo⟩⟩, [], 0, .reset⟩

/-- The output thread waits for a notice. -/
abbrev Blocked (s : AsyncOutput) : Prop := (s.notice.waits.thread ()).phase = .waiting () false

/-- The notice of every stored block is still to come. -/
abbrev AllOwed (s : AsyncOutput) : Prop := ∀ owed ∈ s.stored, owed = true

/-- The notices are reset only if that of every stored block is to come, and they do not wrap. -/
def Timely (s : AsyncOutput) : AsyncAct → Prop
  | .output => s.stage = .reset → AllOwed s
  | .release _ | .releaseLate => s.notice.value ≠ 65535
  | .put => True

instance (s : AsyncOutput) : DecidablePred (Timely s)
  | .output => inferInstanceAs (Decidable (_ → _))
  | .release _ => inferInstanceAs (Decidable (_ ≠ _))
  | .releaseLate => inferInstanceAs (Decidable (_ ≠ _))
  | .put => isTrue trivial

/-- The output thread runs, waits, or has been given a notice. -/
inductive AsyncInv (s : AsyncOutput) : Prop
  | running (hsuspend : s.notice.waits.suspend () = [])
      (hphase : (s.notice.waits.thread ()).phase = .running)
      (howed : s.stage = .take → s.notice.value = 0 → AllOwed s)
  | blocked (hstage : s.stage = .take) (hsuspend : s.notice.waits.suspend () = [()])
      (hphase : Blocked s) (howed : AllOwed s)
  | resumed (hstage : s.stage = .take) (hsuspend : s.notice.waits.suspend () = [])
      (hphase : (s.notice.waits.thread ()).phase = .resumed ())

variable {s s' : AsyncOutput}

/-- The notice goes to the output thread if it waits, and is counted otherwise. -/
lemma AsyncInv.release (h : AsyncInv s) (hwrap : s.notice.value ≠ 65535) (stored : List Bool)
    (late : ℕ) : AsyncInv ⟨rtSemRelease s.notice, stored, late, s.stage⟩ := by
  unfold rtSemRelease
  cases h with
  | running hsuspend hphase =>
    rw [hsuspend]
    refine .running hsuspend hphase fun _ hzero => absurd ?_ hwrap
    exact (UInt16.add_left_inj 1).mp hzero
  | blocked hstage hsuspend hphase =>
    rw [hsuspend]
    have hresume : s.notice.waits.resume () = s.notice.waits.takeOut () () := by
      rw [resume, hphase]
    refine .resumed hstage ?_ ?_
    · simp [hresume, takeOut, hsuspend]
    · simp [hresume]
  | resumed hstage hsuspend hphase =>
    rw [hsuspend]
    exact .resumed hstage hsuspend hphase

lemma AsyncInv.output (h : AsyncInv s) (htimely : s.stage = .reset → AllOwed s)
    (hstep : output s = some s') : AsyncInv s' := by
  unfold Ulog.output at hstep
  cases h with
  | running hsuspend hphase howed =>
    rw [hphase] at hstep
    cases hstage : s.stage <;> rw [hstage] at hstep <;> simp only at hstep
    case reset =>
      obtain rfl := some.inj hstep
      rw [rtSemControl, resumeAll_nil hsuspend]
      exact .running hsuspend hphase fun _ _ => htimely hstage
    case take =>
      by_cases hvalue : s.notice.value = 0
      · rw [rtSemTake, if_neg (by simp [hvalue]), if_neg (by decide)] at hstep
        obtain rfl := some.inj hstep
        refine .blocked rfl ?_ ?_ (howed hstage hvalue)
        · rw [suspend_suspendThread_self, setError, suspend_setThread, hsuspend]
          exact List.perm_singleton.mp (ipcListSuspend_perm _ _ _ _)
        · simp [Blocked]
      · rw [rtSemTake, if_pos (UInt16.pos_iff_ne_zero.mpr hvalue)] at hstep
        obtain rfl := some.inj hstep
        exact .running hsuspend hphase fun hget => by cases hget
    case get =>
      split at hstep
      · obtain rfl := some.inj hstep
        exact .running hsuspend hphase fun hreset => by cases hreset
      · obtain rfl := some.inj hstep
        exact .running hsuspend hphase fun hget => by cases hget
  | blocked hstage hsuspend hphase =>
    rw [hstage, hphase] at hstep
    cases hstep
  | resumed hstage hsuspend hphase =>
    rw [hstage, hphase] at hstep
    obtain rfl := some.inj hstep
    exact .running hsuspend (by simp [wake]) fun hget => by cases hget

/-- A new block has its notice to come. -/
lemma AllOwed.put (h : AllOwed s) : AllOwed { s with stored := s.stored ++ [true] } := by
  intro owed howed
  rcases List.mem_append.mp howed with hold | hnew
  · exact h owed hold
  · exact List.mem_singleton.mp hnew

lemma AsyncInv.step {act : AsyncAct} (h : AsyncInv s) (htimely : Timely s act)
    (hstep : asyncStep s act = some s') : AsyncInv s' := by
  cases act with
  | put =>
    obtain rfl := some.inj hstep
    cases h with
    | running hsuspend hphase howed =>
      exact .running hsuspend hphase fun htake hzero => (howed htake hzero).put
    | blocked hstage hsuspend hphase howed => exact .blocked hstage hsuspend hphase howed.put
    | resumed hstage hsuspend hphase => exact .resumed hstage hsuspend hphase
  | release i =>
    obtain ⟨-, hsome⟩ := ite_none_right_eq_some.mp hstep
    obtain rfl := some.inj hsome
    exact h.release htimely _ _
  | releaseLate =>
    obtain ⟨-, hsome⟩ := ite_none_left_eq_some.mp hstep
    obtain rfl := some.inj hsome
    exact h.release htimely _ _
  | output => exact h.output htimely hstep

/-- While the output thread waits, the notice of every stored block is still to come. So no block waits
for the notice of a later one. -/
theorem allOwed_of_blocked (h : Reach (Eq asyncInit) asyncStep Timely s) (hblocked : Blocked s) :
    AllOwed s := by
  have hinv : AsyncInv s := by
    refine h.invariant ?_ fun _ _ _ hinv htimely hstep => hinv.step htimely hstep
    rintro _ rfl
    exact .running rfl rfl fun htake => by cases htake
  cases hinv with
  | running _ hphase => cases hphase.symm.trans hblocked
  | blocked _ _ _ howed => exact howed
  | resumed _ _ hphase => cases hphase.symm.trans hblocked

/-- A line is output, and the output thread waits again while two logging threads have put blocks. -/
theorem allOwed_two_lines : ∃ s, Blocked s ∧ s.stored = [true, true] ∧ AllOwed s := by
  have hrun : ∃ s, Reach (Eq asyncInit) asyncStep Timely s ∧ Blocked s ∧ s.stored = [true, true] :=
    exists_of_run (fun _ _ => of_decide_eq_true) rfl [.output, .output, .put, .release 0, .output,
      .output, .output, .put, .output, .output, .put] (by decide)
  obtain ⟨s, hs, hblocked, hstored⟩ := hrun
  exact ⟨s, hblocked, hstored, allOwed_of_blocked hs hblocked⟩

/-- A second line is put and its notice is sent between the last look and the reset. -/
theorem exists_blocked_stored : ∃ s, Reach (Eq asyncInit) asyncStep (fun _ _ => True) s ∧
    Blocked s ∧ s.stored = [false] :=
  exists_of_free_run rfl [.output, .output, .put, .release 0, .output, .output, .output, .put,
    .release 0, .output, .output] (by decide)

end Ulog
