import TempSns.Ipc.Event

/-!
# Runs of the events

The machine of all events and threads; a step is one critical section. `seen` records for each thread
the set of the event when the last send examined the thread.

The invariant is that no waiting thread has a condition that the set of its event satisfies. A send
breaks it when it adds flags and restores it thread by thread: `Examined` says which threads the loop
has come to.
-/

namespace Ipc.Event

open Function Waits List Option Except Transition

variable {T E : Type} [DecidableEq T] [DecidableEq E] {set : BitVec 32} {seen : T → BitVec 32}

/-- All events, with a record of the examinations. -/
structure Machine (T E : Type) where
  sys : Events T E
  /-- The set of the event when the thread was last examined by a send. -/
  seen : T → BitVec 32

inductive Act (T E : Type) where
  /-- `rt_event_send` is called. -/
  | send (e : E) (set : BitVec 32)
  /-- A thread calls `rt_event_recv`. -/
  | recv (t : T) (e : E) (set : BitVec 32) (option : BitVec 8) (timeout : ℤ)
  /-- The timer of a waiting thread expires. -/
  | timeout (t : T)
  /-- A thread that was resumed goes on and returns from `rt_event_recv`. -/
  | finish (t : T)
  /-- `rt_event_control` is called. -/
  | control (e : E) (cmd : ℤ)
  /-- The priority of a thread changes. -/
  | setPriority (t : T) (p : UInt8)

/-- The sets that the loop of `rt_event_send` sees. -/
def seenBy (e : E) : Events T E → List T → (T → BitVec 32) → T → BitVec 32
  | _, [], seen => seen
  | s, t :: list, seen => seenBy e (examine e s t) list (update seen t (s.set e))

def step (m : Machine T E) : Act T E → Option (Machine T E)
  | .send e set => some {
      sys := (rtEventSend m.sys e set).1
      seen := if set = 0 then m.seen else
        seenBy e { m.sys with set := update m.sys.set e (m.sys.set e ||| set) }
          (m.sys.waits.suspend e) m.seen }
  | .recv t e set option timeout =>
    if (m.sys.waits.thread t).phase = .running then
      match rtEventRecv m.sys t e set option timeout with
      | .ok (sys, _) => some { m with sys := sys }
      | .error _ => none
    else none
  | .timeout t => (m.sys.waits.timeout t).map fun w => { m with sys := { m.sys with waits := w } }
  | .finish t =>
    match (m.sys.waits.thread t).phase with
    | .resumed _ => some { m with sys := (rtEventRecvEnd m.sys t).1 }
    | _ => none
  | .control e cmd => some { m with sys := (rtEventControl m.sys e cmd).1 }
  | .setPriority t p =>
    some { m with sys := { m.sys with waits := m.sys.waits.setPriority t p } }

/-- No thread waits. -/
def Initial (m : Machine T E) : Prop :=
  (∀ t, (m.sys.waits.thread t).phase = .running) ∧ ∀ e, m.sys.waits.suspend e = []

/-- The thread waits for flags that the event does not have. -/
def Unsatisfied (s : Events T E) (e : E) (t : T) : Prop :=
  satisfies (s.eventInfo t) (s.eventSet t) (s.set e) = false

/-- Every waiting thread has an unsatisfied condition, and will return `RT_EOK` if it is released. -/
structure Inv (s : Events T E) : Prop where
  wf : s.waits.WF
  unsatisfied : ∀ e, ∀ t ∈ s.waits.suspend e, Unsatisfied s e t
  error : ∀ e, ∀ t ∈ s.waits.suspend e, (s.waits.thread t).error = .eok

/-! ## Sets that become smaller -/

variable {s s' : Events T E} {e e' : E} {t x : T}

/-- Flags were only taken out of the set. -/
def Shrinks (set set' : BitVec 32) : Prop := ∃ y, set' = set &&& y

lemma Shrinks.refl (set : BitVec 32) : Shrinks set set :=
  ⟨BitVec.allOnes 32, BitVec.and_allOnes.symm⟩

lemma shrinks_clearSet (option : BitVec 8) (set flags : BitVec 32) :
    Shrinks set (clearSet option set flags) := by
  unfold clearSet
  split
  · exact ⟨~~~flags, rfl⟩
  · exact Shrinks.refl set

omit [DecidableEq T] [DecidableEq E] in
/-- A smaller set does not satisfy what the larger one did not. -/
lemma Unsatisfied.of_shrinks (h : Unsatisfied s e t) (hinfo : s'.eventInfo t = s.eventInfo t)
    (hwant : s'.eventSet t = s.eventSet t) (hset : Shrinks (s.set e) (s'.set e)) :
    Unsatisfied s' e t := by
  obtain ⟨y, hy⟩ := hset
  unfold Unsatisfied at h ⊢
  by_contra hsat
  rw [hinfo, hwant, hy, Bool.not_eq_false] at hsat
  rw [satisfies_antitone hsat] at h
  cases h

/-! ## Loop of a send -/

/-- A round of the loop, for a thread that waits. -/
structure Round (e : E) (t : T) (s s' : Events T E) : Prop where
  wf : s'.waits.WF
  info : s'.eventInfo = s.eventInfo
  eventSet : ∀ x ≠ t, s'.eventSet x = s.eventSet x
  thread : ∀ x ≠ t, s'.waits.thread x = s.waits.thread x
  other : ∀ e' ≠ e, s'.set e' = s.set e'
  shrinks : Shrinks (s.set e) (s'.set e)
  /-- The thread waits as before, or it is released. -/
  result : (s' = s ∧ Unsatisfied s e t) ∨
    (satisfies (s.eventInfo t) (s.eventSet t) (s.set e) = true ∧
      s'.waits.thread t = { s.waits.thread t with phase := .resumed e } ∧
      s'.eventSet t = received (s.eventInfo t) (s.eventSet t) (s.set e))

lemma round_examine (hwf : s.waits.WF) (ht : t ∈ s.waits.suspend e) :
    Round e t s (examine e s t) := by
  obtain ⟨timed, hphase⟩ := (hwf.mem_iff e t).mp ht
  have hresume : s.waits.resume t = s.waits.takeOut e t := by rw [resume, hphase]
  rw [examine_eq]
  split
  case isTrue hsat =>
    rw [hresume]
    exact {
      wf := hwf.takeOut hphase
      info := rfl
      eventSet := fun x hx => update_of_ne hx _ _
      thread := fun x hx => thread_takeOut_of_ne hx
      other := fun e' he => update_of_ne he _ _
      shrinks := by
        simp only [update_self]
        exact shrinks_clearSet _ _ _
      result := .inr ⟨hsat, thread_takeOut_self, update_self _ _ _⟩ }
  case isFalse hsat =>
    exact {
      wf := hwf
      info := rfl
      eventSet := fun _ _ => rfl
      thread := fun _ _ => rfl
      other := fun _ _ => rfl
      shrinks := Shrinks.refl _
      result := .inl ⟨rfl, by simpa [Unsatisfied] using hsat⟩ }

namespace Round

omit [DecidableEq T] [DecidableEq E] in
lemma mem_iff (h : Round e t s s') (hwf : s.waits.WF) (hx : x ≠ t) :
    x ∈ s'.waits.suspend e' ↔ x ∈ s.waits.suspend e' := by
  rw [h.wf.mem_iff, hwf.mem_iff, h.thread x hx]

omit [DecidableEq E] in
lemma mem (h : Round e t s s') (hwf : s.waits.WF) (hx : x ∈ s'.waits.suspend e') :
    x ∈ s.waits.suspend e' ∧ s'.eventSet x = s.eventSet x := by
  by_cases hxt : x = t
  · subst hxt
    rcases h.result with ⟨rfl, -⟩ | ⟨-, hthread, -⟩
    · exact ⟨hx, rfl⟩
    · obtain ⟨timed, hphase⟩ := (h.wf.mem_iff e' x).mp hx
      rw [hthread] at hphase
      cases hphase
  · exact ⟨(h.mem_iff hwf hxt).mp hx, h.eventSet x hxt⟩

omit [DecidableEq T] in
lemma unsatisfied (h : Round e t s s') (hx : s'.eventSet x = s.eventSet x)
    (hun : Unsatisfied s e' x) : Unsatisfied s' e' x := by
  apply hun.of_shrinks (by rw [h.info]) hx
  by_cases he : e' = e
  · rw [he]
    exact h.shrinks
  · rw [h.other e' he]
    exact Shrinks.refl _

end Round

/-- The loop of a send to `e` has still to examine the threads in `list`. -/
structure Examined (e : E) (list : List T) (s : Events T E) : Prop where
  wf : s.waits.WF
  nodup : list.Nodup
  waiting : ∀ t ∈ list, t ∈ s.waits.suspend e
  unsatisfied : ∀ e', ∀ t ∈ s.waits.suspend e', (e' = e ∧ t ∈ list) ∨ Unsatisfied s e' t
  error : ∀ e', ∀ t ∈ s.waits.suspend e', (s.waits.thread t).error = .eok

namespace Examined

variable {list : List T}

lemma round (h : Examined e (t :: list) s) :
    Round e t s (examine e s t) ∧ Examined e list (examine e s t) := by
  have hround := round_examine h.wf (h.waiting t mem_cons_self)
  obtain ⟨hnot, hnodup⟩ := nodup_cons.mp h.nodup
  have hne : ∀ x ∈ list, x ≠ t := by
    rintro x hx rfl
    exact hnot hx
  refine ⟨hround, hround.wf, hnodup, fun x hx => ?_, fun e' x hx => ?_, fun e' x hx => ?_⟩
  · exact (hround.mem_iff h.wf (hne x hx)).mpr (h.waiting x (mem_cons_of_mem t hx))
  · obtain ⟨hbefore, hset⟩ := hround.mem h.wf hx
    rcases h.unsatisfied e' x hbefore with ⟨rfl, hmem⟩ | hun
    · rcases mem_cons.mp hmem with rfl | hmem
      · -- the thread of this round still waits, so its condition was not satisfied
        rcases hround.result with ⟨-, hun⟩ | ⟨-, hthread, -⟩
        · exact .inr (hround.unsatisfied hset hun)
        · obtain ⟨timed, hphase⟩ := (hround.wf.mem_iff _ _).mp hx
          rw [hthread] at hphase
          cases hphase
      · exact .inl ⟨rfl, hmem⟩
    · exact .inr (hround.unsatisfied hset hun)
  · obtain ⟨hbefore, -⟩ := hround.mem h.wf hx
    by_cases hxt : x = t
    · subst hxt
      rcases hround.result with ⟨heq, -⟩ | ⟨-, hthread, -⟩
      · rw [heq]
        exact h.error e' x hbefore
      · rw [hthread]
        exact h.error e' x hbefore
    · rw [hround.thread x hxt]
      exact h.error e' x hbefore

lemma foldl (h : Examined e list s) : Inv (list.foldl (examine e) s) := by
  induction list generalizing s with
  | nil =>
    refine ⟨h.wf, fun e' t ht => ?_, h.error⟩
    exact (h.unsatisfied e' t ht).resolve_left fun hmem => not_mem_nil hmem.2
  | cons t list ih => exact ih h.round.2

lemma foldl_of_not_mem (h : Examined e list s) (hx : x ∉ list) :
    (list.foldl (examine e) s).waits.thread x = s.waits.thread x ∧
      (list.foldl (examine e) s).eventSet x = s.eventSet x := by
  induction list generalizing s with
  | nil => exact ⟨rfl, rfl⟩
  | cons t list ih =>
    obtain ⟨hxt, hx⟩ := not_or.mp (mt mem_cons.mpr hx)
    obtain ⟨hround, hrest⟩ := h.round
    obtain ⟨hthread, hset⟩ := ih hrest hx
    exact ⟨hthread.trans (hround.thread x hxt), hset.trans (hround.eventSet x hxt)⟩

end Examined

lemma seenBy_of_not_mem {list : List T} (hx : x ∉ list) : seenBy e s list seen x = seen x := by
  induction list generalizing s seen with
  | nil => rfl
  | cons t list ih =>
    obtain ⟨hxt, hx⟩ := not_or.mp (mt mem_cons.mpr hx)
    rw [seenBy, ih hx, update_of_ne hxt]

/-- What a send did with a thread that waited for the event. -/
structure Released (e : E) (x : T) (s s' : Events T E) (seen : BitVec 32) : Prop where
  satisfied : satisfies (s.eventInfo x) (s.eventSet x) seen = true
  thread : s'.waits.thread x = { s.waits.thread x with phase := .resumed e }
  flags : s'.eventSet x = received (s.eventInfo x) (s.eventSet x) seen

/-- A thread that the loop released was satisfied by the set that the loop saw for it. -/
lemma Examined.released {list : List T} (h : Examined e list s)
    (hx : x ∈ list) (hgone : x ∉ (list.foldl (examine e) s).waits.suspend e) :
    Released e x s (list.foldl (examine e) s) (seenBy e s list seen x) := by
  induction list generalizing s seen with
  | nil => cases hx
  | cons t list ih =>
    obtain ⟨hround, hrest⟩ := h.round
    have hnot := (nodup_cons.mp h.nodup).1
    rw [foldl_cons] at hgone ⊢
    rw [seenBy]
    by_cases hxt : x = t
    · subst hxt
      obtain ⟨hthread, hset⟩ := hrest.foldl_of_not_mem hnot
      rw [seenBy_of_not_mem hnot, update_self]
      rcases hround.result with ⟨heq, -⟩ | ⟨hsat, hphase, hflags⟩
      · -- it would still wait
        refine absurd ?_ hgone
        rw [hrest.foldl.wf.mem_iff, hthread, heq, ← h.wf.mem_iff]
        exact h.waiting x mem_cons_self
      · exact ⟨hsat, hthread.trans hphase, hset.trans hflags⟩
    · have hmem : x ∈ list := (mem_cons.mp hx).resolve_left hxt
      have hreleased : Released e x (examine e s t) _
          (seenBy e (examine e s t) list (update seen t (s.set e)) x) :=
        ih hrest hmem hgone
      obtain ⟨hsat, hphase, hflags⟩ := hreleased
      rw [hround.info, hround.eventSet x hxt] at hsat hflags
      rw [hround.thread x hxt] at hphase
      exact ⟨hsat, hphase, hflags⟩

/-! ## Steps -/

namespace Inv

section

variable (h : Inv s)

include h

omit [DecidableEq T] in
/-- The flags are added, and the loop has not begun. -/
lemma examined (set : BitVec 32) :
    Examined e (s.waits.suspend e) { s with set := update s.set e (s.set e ||| set) } where
  wf := h.wf
  nodup := h.wf.nodup e
  waiting := fun _ ht => ht
  unsatisfied := by
    intro e' t ht
    by_cases he : e' = e
    · subst he
      exact .inl ⟨rfl, ht⟩
    · refine .inr ((h.unsatisfied e' t ht).of_shrinks rfl rfl ?_)
      simp only [update_of_ne he]
      exact Shrinks.refl _
  error := h.error

lemma send (e : E) (set : BitVec 32) : Inv (rtEventSend s e set).1 := by
  unfold rtEventSend
  split
  · exact h
  · exact (h.examined set).foldl

omit [DecidableEq T] [DecidableEq E] in
/-- A change of the threads and lists in which nobody new waits. -/
lemma setWaits {w : Waits T E} (hwf : w.WF)
    (hkeep : ∀ e, ∀ t ∈ w.suspend e, t ∈ s.waits.suspend e ∧
      (w.thread t).error = (s.waits.thread t).error) : Inv { s with waits := w } where
  wf := hwf
  unsatisfied := fun e t ht => h.unsatisfied e t (hkeep e t ht).1
  error := fun e t ht => (hkeep e t ht).2.trans (h.error e t (hkeep e t ht).1)

omit [DecidableEq E] in
lemma setError (hrun : (s.waits.thread t).phase = .running) (e : RtErr) :
    Inv { s with waits := s.waits.setError t e } := by
  refine h.setWaits (h.wf.setError t e) fun e' x hx => ⟨hx, ?_⟩
  have hne : x ≠ t := by
    rintro rfl
    exact h.wf.not_mem (fun o timed => by simp [hrun]) e' hx
  rw [thread_setError_of_ne hne]

omit [DecidableEq T] in
/-- A receiver that does not wait takes its flags, which can only make the set smaller. -/
lemma clear (option : BitVec 8) (flags : BitVec 32) :
    Inv { s with set := update s.set e (clearSet option (s.set e) flags) } := by
  refine ⟨h.wf, fun e' t ht => ?_, h.error⟩
  refine (h.unsatisfied e' t ht).of_shrinks rfl rfl ?_
  by_cases he : e' = e
  · subst he
    simp only [update_self]
    exact shrinks_clearSet option _ flags
  · simp only [update_of_ne he]
    exact Shrinks.refl _

lemma suspend (hrun : (s.waits.thread t).phase = .running)
    {option : BitVec 8} (hnot : satisfies option set (s.set e) = false) (timeout : ℤ) :
    Inv { s with
      waits := (s.waits.setError t .eok).suspendThread e t timeout
      eventSet := update s.eventSet t set
      eventInfo := update s.eventInfo t option } := by
  have hrun' : ∀ o timed, ((s.waits.setError t .eok).thread t).phase ≠ .waiting o timed := by
    intro o timed
    rw [thread_setError_self, hrun]
    nofun
  refine ⟨(h.wf.setError t .eok).suspendThread hrun' e timeout, fun e' x hx => ?_,
    fun e' x hx => ?_⟩
  · unfold Unsatisfied
    rcases mem_suspend_suspendThread.mp hx with ⟨rfl, rfl⟩ | hx
    · simpa using hnot
    · have hne : x ≠ t := by
        rintro rfl
        exact (h.wf.setError x .eok).not_mem hrun' e' hx
      simp only [update_of_ne hne]
      exact h.unsatisfied e' x hx
  · by_cases hxt : x = t
    · subst hxt
      simp
    · rw [thread_suspendThread_of_ne hxt, thread_setError_of_ne hxt]
      refine h.error e' x ((mem_suspend_suspendThread.mp hx).resolve_left ?_)
      exact fun heq => hxt heq.1

lemma recv (hrun : (s.waits.thread t).phase = .running)
    {option : BitVec 8} {timeout : ℤ} {result : Option (RtErr × Option (BitVec 32))}
    (hok : rtEventRecv s t e set option timeout = .ok (s', result)) : Inv s' := by
  by_cases hset : set = 0
  · simp only [rtEventRecv, hset, if_true, ok.injEq, Prod.mk.injEq] at hok
    exact hok.1 ▸ h
  by_cases hlegal : option &&& rtEventFlagAnd ≠ 0 ∨ option &&& rtEventFlagOr ≠ 0
  case neg =>
    -- the assertion fails
    obtain ⟨hand, hor⟩ := not_or.mp hlegal
    simp only [rtEventRecv, if_neg hset, if_neg hand, if_neg hor] at hok
    cases hok
  rw [rtEventRecv_eq hset hlegal] at hok
  split at hok
  case isTrue =>
    obtain ⟨rfl, -⟩ := Prod.mk.inj (ok.inj hok)
    exact (h.setError hrun .eok).clear option set
  case isFalse hnot =>
    split at hok
    case isTrue =>
      obtain ⟨rfl, -⟩ := Prod.mk.inj (ok.inj hok)
      have hrun' : ((s.waits.setError t .eok).thread t).phase = .running := by
        rw [thread_setError_self, hrun]
      exact (h.setError hrun .eok).setError hrun' .etimeout
    case isFalse =>
      obtain ⟨rfl, -⟩ := Prod.mk.inj (ok.inj hok)
      exact h.suspend hrun (by simpa using hnot) timeout

lemma timeout {w : Waits T E} (hok : s.waits.timeout t = some w) : Inv { s with waits := w } := by
  have hwf := h.wf.timeout hok
  unfold Waits.timeout at hok
  split at hok
  case h_1 o hphase =>
    obtain rfl := some.inj hok
    refine h.setWaits hwf fun e' x hx => ?_
    have hphase' : ((s.waits.setError t .etimeout).thread t).phase = .waiting o true := by
      rw [Waits.thread_setError_self, hphase]
    have hne := (h.wf.setError t .etimeout).ne_of_mem_takeOut hphase' hx
    refine ⟨Waits.mem_of_mem_takeOut hx, ?_⟩
    rw [Waits.thread_takeOut_of_ne hne, Waits.thread_setError_of_ne hne]
  case h_2 => cases hok

omit [DecidableEq E] in
lemma finish {o : E} (hres : (s.waits.thread t).phase = .resumed o) :
    Inv (rtEventRecvEnd s t).1 := by
  refine h.setWaits (h.wf.wake hres) fun e' x hx => ⟨hx, ?_⟩
  have hne : x ≠ t := by
    rintro rfl
    exact h.wf.not_mem (fun o timed => by simp [hres]) e' hx
  rw [wake, thread_setThread_of_ne hne]

/-- A reset leaves nobody waiting for the event. -/
lemma control (e : E) (cmd : ℤ) : Inv (rtEventControl s e cmd).1 := by
  unfold rtEventControl
  split
  case isFalse => exact h
  case isTrue =>
    obtain ⟨hnil, hother, hkeep, -⟩ := h.wf.resumeAll_spec e
    have hne : ∀ e', ∀ x ∈ (s.waits.resumeAll e).suspend e', e' ≠ e := by
      rintro e' x hx rfl
      rw [hnil] at hx
      cases hx
    have hmem : ∀ e', ∀ x ∈ (s.waits.resumeAll e).suspend e', x ∈ s.waits.suspend e' := by
      intro e' x hx
      rwa [← hother e' (hne e' x hx)]
    refine ⟨h.wf.resumeAll e, fun e' x hx => ?_, fun e' x hx => ?_⟩
    · unfold Unsatisfied
      simp only [update_of_ne (hne e' x hx)]
      exact h.unsatisfied e' x (hmem e' x hx)
    · -- a thread waits for one event only
      have hnot : x ∉ s.waits.suspend e := by
        intro hxe
        obtain ⟨_, hphase⟩ := (h.wf.mem_iff e x).mp hxe
        obtain ⟨_, hphase'⟩ := (h.wf.mem_iff e' x).mp (hmem e' x hx)
        rw [hphase] at hphase'
        cases hphase'
        exact hne e x hx rfl
      rw [hkeep x hnot]
      exact h.error e' x (hmem e' x hx)

omit [DecidableEq E] in
lemma setPriority (t : T) (p : UInt8) : Inv { s with waits := s.waits.setPriority t p } := by
  refine h.setWaits (h.wf.setPriority t p) fun e' x hx => ⟨hx, ?_⟩
  exact (sameBut_setPriority s.waits t p).error x

end

lemma step {m m' : Machine T E} {a : Act T E} (h : Inv m.sys) (hok : step m a = some m') :
    Inv m'.sys := by
  cases a with
  | send e set =>
    obtain rfl := some.inj hok
    exact h.send e set
  | recv t e set option timeout =>
    simp only [Event.step] at hok
    split at hok
    case isFalse => cases hok
    case isTrue hrun =>
      split at hok
      case h_1 sys result hrecv =>
        obtain rfl := some.inj hok
        exact h.recv hrun hrecv
      case h_2 => cases hok
  | timeout t =>
    obtain ⟨w, hw, rfl⟩ := map_eq_some_iff.mp hok
    exact h.timeout hw
  | finish t =>
    simp only [Event.step] at hok
    split at hok
    case h_1 o hres =>
      obtain rfl := some.inj hok
      exact h.finish hres
    case h_2 => cases hok
  | control e cmd =>
    obtain rfl := some.inj hok
    exact h.control e cmd
  | setPriority t p =>
    obtain rfl := some.inj hok
    exact h.setPriority t p

end Inv

/-! ## Whole runs -/

/-- No waiting thread is satisfied by the set of its event, and a send releases only threads that
were satisfied by the set at the moment at which it examined them. These return `RT_EOK` and their
flags of that set. -/
structure Settled (m : Machine T E) : Prop where
  waiting : ∀ e, ∀ t ∈ m.sys.waits.suspend e,
    satisfies (m.sys.eventInfo t) (m.sys.eventSet t) (m.sys.set e) = false
  released : ∀ e set m', step m (.send e set) = some m' →
    ∀ t ∈ m.sys.waits.suspend e, t ∉ m'.sys.waits.suspend e →
      satisfies (m.sys.eventInfo t) (m.sys.eventSet t) (m'.seen t) = true ∧
      (rtEventRecvEnd m'.sys t).2 =
        (.eok, some (received (m.sys.eventInfo t) (m.sys.eventSet t) (m'.seen t)))

lemma Inv.released {m m' : Machine T E} (h : Inv m.sys)
    (hok : Event.step m (.send e set) = some m') (ht : t ∈ m.sys.waits.suspend e)
    (hgone : t ∉ m'.sys.waits.suspend e) : Released e t m.sys m'.sys (m'.seen t) := by
  obtain rfl := some.inj hok
  by_cases hset : set = 0
  · -- nothing happens
    simp only [rtEventSend, hset, if_true] at hgone
    exact absurd ht hgone
  · simp only [rtEventSend, if_neg hset] at hgone ⊢
    have hreleased : Released e t { m.sys with set := update m.sys.set e _ } _
        (seenBy e _ (m.sys.waits.suspend e) m.seen t) := (h.examined set).released ht hgone
    exact ⟨hreleased.satisfied, hreleased.thread, hreleased.flags⟩

/-- In every state reached by sends, receives, timeouts and resets, no waiting thread is satisfied,
and a send releases satisfied threads only. -/
theorem settled_of_reach {m : Machine T E} (hm : Reach Initial step (fun _ _ => True) m) :
    Settled m := by
  have inv : Inv m.sys := by
    apply hm.invariant (I := fun m => Inv m.sys)
    · rintro m ⟨hrun, hnil⟩
      refine ⟨⟨fun e t => by simp [hrun, hnil], fun e => ?_⟩, fun e t ht => ?_, fun e t ht => ?_⟩
      · rw [hnil]
        exact nodup_nil
      · rw [hnil] at ht
        cases ht
      · rw [hnil] at ht
        cases ht
    · intro m a m' h _ hok
      exact h.step hok
  refine ⟨inv.unsatisfied, fun e set m' hok t ht hgone => ?_⟩
  obtain ⟨hsat, hthread, hflags⟩ := inv.released hok ht hgone
  refine ⟨hsat, ?_⟩
  have herror := inv.error e t ht
  simp [rtEventRecvEnd, hthread, herror, hflags]

/-- The first thread waits for the flags 1 and 2 and clears them, the second one waits for the flag
2. Two sends release the first thread, and the second one still waits. -/
theorem settled_after_clear : ∃ m : Machine Bool Unit,
    m.sys.waits.suspend () = [true] ∧ m.sys.eventSet false = 3 ∧ m.sys.set () = 0 ∧ Settled m := by
  obtain ⟨m, hreach, hlist, hflags, hset⟩ : ∃ m : Machine Bool Unit,
      Reach Initial step (fun _ _ => True) m ∧ m.sys.waits.suspend () = [true] ∧
        m.sys.eventSet false = 3 ∧ m.sys.set () = 0 :=
    exists_of_free_run (s := ⟨⟨⟨fun _ => ⟨20, .eok, .running⟩, fun _ => [], fun _ => .prio⟩,
        fun _ => 0, fun _ => 0, fun _ => 0⟩, fun _ => 0⟩) ⟨fun _ => rfl, fun _ => rfl⟩
      [.recv false () 3 5 100, .recv true () 2 2 (-1), .send () 1, .send () 2, .finish false]
      (by decide +kernel)
  exact ⟨m, hlist, hflags, hset, settled_of_reach hreach⟩

end Ipc.Event
