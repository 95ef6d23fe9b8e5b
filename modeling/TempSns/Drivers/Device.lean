import TempSns.Lib.Exec
import TempSns.Lib.Transition

/-!
# Opening and closing of a device

`rt_device_open` and `rt_device_close` of `src/device.c`. The callbacks of the driver are not known:
each call of one has a `Reply`, the value that the callback returns and the `open_flag` that it leaves.

The reference count and the bit `RT_DEVICE_OFLAG_OPEN` are changed on different sides of the callbacks.
They agree as long as a failed callback leaves the bit as it was and the driver does not refuse the
last close (`consistent_of_reach`).
-/

namespace Drivers

open Except

/-- The part of `struct rt_device` that open and close use. -/
structure RtDevice where
  flag : BitVec 16
  openFlag : BitVec 16
  refCount : BitVec 8
  /-- Whether the callbacks `init`, `open` and `close` are set. -/
  hasInit : Bool
  hasOpen : Bool
  hasClose : Bool
  deriving DecidableEq, Repr

/-- What a callback of the driver returns, and the `open_flag` after it. -/
structure Reply where
  result : ℤ
  openFlag : BitVec 16
  deriving DecidableEq, Repr

namespace RtDevice

/-- `RT_DEVICE_FLAG_ACTIVATED`. -/
def flagActivated : BitVec 16 := 0x010

/-- `RT_DEVICE_FLAG_STANDALONE`. -/
def flagStandalone : BitVec 16 := 0x008

/-- `RT_DEVICE_OFLAG_OPEN`. -/
def oflagOpen : BitVec 16 := 0x008

/-- `RT_DEVICE_OFLAG_MASK`. -/
def oflagMask : BitVec 16 := 0xf0f

/-- `RT_EOK` or `-RT_ENOSYS`, which open and close take for success. -/
def Succeeds (result : ℤ) : Prop := result = 0 ∨ result = -6

instance (result : ℤ) : Decidable (Succeeds result) :=
  inferInstanceAs (Decidable (_ ∨ _))

/-- The bit `RT_DEVICE_OFLAG_OPEN` is set. -/
def IsOpen (openFlag : BitVec 16) : Prop := openFlag &&& oflagOpen ≠ 0

instance (openFlag : BitVec 16) : Decidable (IsOpen openFlag) :=
  inferInstanceAs (Decidable (_ ≠ _))

/-- The first part of `rt_device_open`: a device that is not activated is initialised. -/
def activate (d : RtDevice) (init : Reply) : ℤ × RtDevice :=
  if d.flag &&& flagActivated = 0 then
    let (result, d) := if d.hasInit then (init.result, { d with openFlag := init.openFlag }) else (0, d)
    if result ≠ 0 then (result, d) else (0, { d with flag := d.flag ||| flagActivated })
  else (0, d)

def callOpen (d : RtDevice) (oflag : BitVec 16) (opened : Reply) : ℤ × RtDevice :=
  if d.hasOpen then (opened.result, { d with openFlag := opened.openFlag })
  else (0, { d with openFlag := oflag &&& oflagMask })

def rtDeviceOpen (d : RtDevice) (oflag : BitVec 16) (init opened : Reply) :
    Except Fault (ℤ × RtDevice) :=
  let (result, d) := d.activate init
  if result ≠ 0 then .ok (result, d)
  else if d.flag &&& flagStandalone ≠ 0 ∧ IsOpen d.openFlag then .ok (-7, d)
  else
    let (result, d) := d.callOpen oflag opened
    if Succeeds result then
      let d := { d with openFlag := d.openFlag ||| oflagOpen, refCount := d.refCount + 1 }
      if d.refCount ≠ 0 then .ok (result, d) else .error .assertion
    else .ok (result, d)

def callClose (d : RtDevice) (closed : Reply) : ℤ × RtDevice :=
  if d.hasClose then (closed.result, { d with openFlag := closed.openFlag }) else (0, d)

def rtDeviceClose (d : RtDevice) (closed : Reply) : ℤ × RtDevice :=
  if d.refCount = 0 then (-1, d)
  else
    let d := { d with refCount := d.refCount - 1 }
    if d.refCount ≠ 0 then (0, d)
    else
      let (result, d) := d.callClose closed
      if Succeeds result then (result, { d with openFlag := 0 }) else (result, d)

/-- The calls on a device, with the replies of the driver. -/
inductive Op where
  | open (oflag : BitVec 16) (init opened : Reply)
  | close (closed : Reply)
  deriving DecidableEq, Repr

def step (d : RtDevice) : Op → Except Fault RtDevice
  | .open oflag init opened => Prod.snd <$> d.rtDeviceOpen oflag init opened
  | .close closed => .ok (d.rtDeviceClose closed).2

/-- The states after `rt_device_register`. -/
def Initial (d : RtDevice) : Prop := d.openFlag = 0 ∧ d.refCount = 0

/-- A device that is not open yet is opened by a driver that accepts it. -/
def CanOpen (d : RtDevice) : Prop :=
  ∀ oflag init opened, init.result = 0 → (IsOpen init.openFlag ↔ IsOpen d.openFlag) →
    Succeeds opened.result →
    ∃ r d', d.rtDeviceOpen oflag init opened = .ok (r, d') ∧ Succeeds r ∧ d'.refCount = 1

/-- The flag and the count agree, and a stand-alone device that nobody uses can be opened. -/
structure Consistent (d : RtDevice) : Prop where
  open_iff : IsOpen d.openFlag ↔ 0 < d.refCount.toNat
  reopen : d.flag &&& flagStandalone ≠ 0 → d.refCount = 0 → d.CanOpen

/-- A callback that fails leaves the bit as it was, and so does `init`; the driver does not refuse the
last close, or clears the bit itself. -/
def Careful (d : RtDevice) : Op → Prop
  | .open _ init opened =>
    (d.hasInit = true → (IsOpen init.openFlag ↔ IsOpen d.openFlag)) ∧
      (d.hasOpen = true → ¬ Succeeds opened.result → (IsOpen opened.openFlag ↔ IsOpen d.openFlag))
  | .close closed =>
    d.hasClose = true → d.refCount = 1 → Succeeds closed.result ∨ ¬ IsOpen closed.openFlag

instance (d : RtDevice) : DecidablePred d.Careful
  | .open .. => inferInstanceAs (Decidable (_ ∧ _))
  | .close _ => inferInstanceAs (Decidable (_ → _))

variable {d d' : RtDevice} {oflag : BitVec 16} {init opened closed : Reply} {result : ℤ}

lemma isOpen_or (f : BitVec 16) : IsOpen (f ||| oflagOpen) := by
  intro hzero
  have hbit := congrArg (fun v : BitVec 16 => v.getLsbD 3) hzero
  simp [oflagOpen] at hbit

lemma not_isOpen_zero : ¬ IsOpen 0 := by decide

/-! ## Two parts of open -/

lemma activate_spec (d : RtDevice) (init : Reply)
    (hinit : d.hasInit = true → (IsOpen init.openFlag ↔ IsOpen d.openFlag)) :
    (d.activate init).2.refCount = d.refCount ∧ (d.activate init).2.hasOpen = d.hasOpen ∧
      (IsOpen (d.activate init).2.openFlag ↔ IsOpen d.openFlag) ∧
      (init.result = 0 → (d.activate init).1 = 0) := by
  unfold activate
  split
  · cases hhas : d.hasInit with
    | false => simp
    | true =>
      by_cases hres : init.result = 0
      · simp [hres, hinit hhas]
      · simp [hres, hinit hhas]
  · exact ⟨rfl, rfl, .rfl, fun _ => rfl⟩

lemma callOpen_spec (d : RtDevice) (oflag : BitVec 16) (opened : Reply) :
    (d.callOpen oflag opened).2.refCount = d.refCount ∧
    (Succeeds opened.result → Succeeds (d.callOpen oflag opened).1) ∧
    (¬ Succeeds (d.callOpen oflag opened).1 → d.hasOpen = true ∧ ¬ Succeeds opened.result ∧
      (d.callOpen oflag opened).2.openFlag = opened.openFlag) := by
  unfold callOpen
  cases hhas : d.hasOpen with
  | false => exact ⟨rfl, fun _ => .inl rfl, fun hfail => absurd (.inl rfl) hfail⟩
  | true => exact ⟨rfl, id, fun hfail => ⟨rfl, hfail, rfl⟩⟩

/-- A call of `rt_device_open` that returns: it counts the user and sets the bit, or leaves both. -/
lemma open_spec (hcare : d.Careful (.open oflag init opened))
    (hok : d.rtDeviceOpen oflag init opened = .ok (result, d')) :
    (IsOpen d'.openFlag ∧ d'.refCount ≠ 0) ∨
      ((IsOpen d'.openFlag ↔ IsOpen d.openFlag) ∧ d'.refCount = d.refCount) := by
  obtain ⟨hinit, hopened⟩ := hcare
  obtain ⟨hcount, hhas, hflag, -⟩ := activate_spec d init hinit
  unfold rtDeviceOpen at hok
  generalize d.activate init = a at hcount hhas hflag hok
  obtain ⟨r, d1⟩ := a
  simp only at hcount hhas hflag hok
  split at hok
  · -- the initialisation failed
    obtain ⟨-, rfl⟩ := Prod.mk.inj (ok.inj hok)
    exact .inr ⟨hflag, hcount⟩
  split at hok
  · -- busy
    obtain ⟨-, rfl⟩ := Prod.mk.inj (ok.inj hok)
    exact .inr ⟨hflag, hcount⟩
  obtain ⟨hcount2, -, hfail⟩ := callOpen_spec d1 oflag opened
  generalize d1.callOpen oflag opened = b at hcount2 hfail hok
  obtain ⟨r2, d2⟩ := b
  simp only at hcount2 hfail hok
  split at hok
  · obtain ⟨hne, hd'⟩ := ite_eq_ok.mp hok
    obtain ⟨-, rfl⟩ := Prod.mk.inj (ok.inj hd')
    exact .inl ⟨isOpen_or _, hne⟩
  · -- the driver failed
    rename_i hbad
    obtain ⟨-, rfl⟩ := Prod.mk.inj (ok.inj hok)
    obtain ⟨hhas1, hbad', hflag'⟩ := hfail hbad
    refine .inr ⟨?_, hcount2.trans hcount⟩
    rw [hflag']
    exact hopened (hhas ▸ hhas1) hbad'

lemma callClose_spec (d : RtDevice) (closed : Reply)
    (hcare : d.hasClose = true → Succeeds closed.result ∨ ¬ IsOpen closed.openFlag) :
    (d.callClose closed).2.refCount = d.refCount ∧
      (Succeeds (d.callClose closed).1 ∨ ¬ IsOpen (d.callClose closed).2.openFlag) := by
  unfold callClose
  split
  · rename_i hhas
    exact ⟨rfl, hcare hhas⟩
  · exact ⟨rfl, .inl (.inl rfl)⟩

/-- A call of `rt_device_close`: another user is left, or the bit and the count are both cleared, or
nothing has been done. -/
lemma close_spec (hcare : d.Careful (.close closed)) (hopen : IsOpen d.openFlag ↔ d.refCount ≠ 0) :
    IsOpen (d.rtDeviceClose closed).2.openFlag ↔ (d.rtDeviceClose closed).2.refCount ≠ 0 := by
  unfold rtDeviceClose
  by_cases hzero : d.refCount = 0
  · rw [if_pos hzero]
    exact hopen
  rw [if_neg hzero]
  by_cases hmore : d.refCount - 1 ≠ 0
  · rw [if_pos hmore]
    exact ⟨fun _ => hmore, fun _ => hopen.mpr hzero⟩
  rw [if_neg hmore]
  have hone : d.refCount = 1 := by
    rw [not_not] at hmore
    bv_omega
  rw [not_not] at hmore
  -- the last user: the driver has the say
  obtain ⟨hcount, hclear⟩ := callClose_spec { d with refCount := d.refCount - 1 } closed
    fun hhas => hcare hhas hone
  generalize callClose _ closed = b at hcount hclear
  obtain ⟨r, d1⟩ := b
  have hcount1 : d1.refCount = 0 := hcount.trans hmore
  simp only at hclear ⊢
  split
  · exact ⟨fun hop => absurd hop not_isOpen_zero, fun hne => absurd hcount1 hne⟩
  · rename_i hfail
    exact ⟨fun hop => absurd hop (hclear.resolve_left hfail), fun hne => absurd hcount1 hne⟩

lemma canOpen_of_not_isOpen (hopen : ¬ IsOpen d.openFlag) (hcount : d.refCount = 0) :
    d.CanOpen := by
  intro oflag init opened hres hflag hok
  obtain ⟨hcount1, hhas, hflag1, hzero⟩ := activate_spec d init fun _ => hflag
  unfold rtDeviceOpen
  generalize d.activate init = a at hcount1 hflag1 hzero
  obtain ⟨r, d1⟩ := a
  simp only at hcount1 hflag1 hzero
  obtain ⟨hcount2, hsucc, -⟩ := callOpen_spec d1 oflag opened
  have hone : (d1.callOpen oflag opened).2.refCount + 1 = 1 := by
    rw [hcount2, hcount1, hcount]
    rfl
  have hne : (d1.callOpen oflag opened).2.refCount + 1 ≠ 0 := by
    rw [hone]
    decide
  simp only
  rw [if_neg (not_not.mpr (hzero hres)), if_neg fun h => hopen (hflag1.mp h.2), if_pos (hsucc hok),
    if_pos hne]
  exact ⟨_, _, rfl, hsucc hok, hone⟩

/-- A further call keeps the bit and the count in agreement. -/
lemma Careful.step {op : Op} (hcare : d.Careful op) (hopen : IsOpen d.openFlag ↔ d.refCount ≠ 0)
    (hok : d.step op = .ok d') : IsOpen d'.openFlag ↔ d'.refCount ≠ 0 := by
  cases op with
  | «open» oflag init opened =>
    obtain ⟨⟨r, d''⟩, hcall, rfl⟩ := map_eq_ok.mp hok
    rcases open_spec hcare hcall with ⟨hflag, hcount⟩ | ⟨hflag, hcount⟩
    · exact ⟨fun _ => hcount, fun _ => hflag⟩
    · rw [hflag, hcount]
      exact hopen
  | close closed =>
    obtain rfl := ok.inj hok
    exact close_spec hcare hopen

lemma consistent_iff : d.Consistent ↔ (IsOpen d.openFlag ↔ d.refCount ≠ 0) := by
  have hpos : 0 < d.refCount.toNat ↔ d.refCount ≠ 0 := by
    rw [Nat.pos_iff_ne_zero, ne_eq, ne_eq, BitVec.toNat_eq]
    rfl
  refine ⟨fun h => h.open_iff.trans hpos, fun h => ⟨h.trans hpos.symm, fun _ hcount => ?_⟩⟩
  exact canOpen_of_not_isOpen (fun hop => h.mp hop hcount) hcount

/-- The states reached by calls in which the driver is careful. -/
abbrev Reach : RtDevice → Prop :=
  Transition.Reach Initial (fun d op => (d.step op).toOption) Careful

/-- In every run in which the driver is careful, the flag and the count agree in every state, and a
stand-alone device that nobody uses can be opened. -/
theorem consistent_of_reach (hd : Reach d) : d.Consistent := by
  apply consistent_iff.mpr
  refine hd.invariant (I := fun d => IsOpen d.openFlag ↔ d.refCount ≠ 0) ?_ ?_
  · rintro d ⟨hflag, hcount⟩
    rw [hflag, hcount]
    decide
  · intro d op d' hopen hcare hok
    exact hcare.step hopen (toOption_eq_some.mp hok)

/-- A stand-alone device whose driver has all callbacks. -/
def standalone : RtDevice := ⟨flagStandalone, 0, 0, true, true, true⟩

/-- The device is opened, closed by its last user and opened again. -/
theorem consistent_reopened : ∃ d, Reach d ∧ d.refCount = 1 ∧ d.Consistent := by
  obtain ⟨d, hd, hcount⟩ : ∃ d, Reach d ∧ d.refCount = 1 :=
    Transition.exists_of_run (fun _ _ => of_decide_eq_true) (s := standalone) ⟨rfl, rfl⟩
      [.open 3 ⟨0, 0⟩ ⟨0, 3⟩, .close ⟨0, 11⟩, .open 3 ⟨0, 0⟩ ⟨0, 3⟩] (by decide)
  exact ⟨d, hd, hcount, consistent_of_reach hd⟩

/-- The device is opened, and the driver refuses to close it: no user is left, and every later open is
refused as busy. -/
theorem not_consistent_refused : ∃ d, Transition.Reach Initial (fun d op => (d.step op).toOption)
    (fun _ _ => True) d ∧ d.refCount = 0 ∧
    (∀ oflag init opened, d.rtDeviceOpen oflag init opened = .ok (-7, d)) ∧ ¬ d.Consistent := by
  obtain ⟨d, hreach, rfl⟩ : ∃ d, Transition.Reach Initial (fun d op => (d.step op).toOption)
      (fun _ _ => True) d ∧ d = ⟨0x018, 11, 0, true, true, true⟩ :=
    Transition.exists_of_free_run (s := standalone) ⟨rfl, rfl⟩
      [.open 3 ⟨0, 0⟩ ⟨0, 3⟩, .close ⟨-8, 11⟩] (by decide)
  refine ⟨_, hreach, rfl, fun oflag init opened => ?_, fun h => ?_⟩
  · have hact : activate ⟨0x018, 11, 0, true, true, true⟩ init = (0, ⟨0x018, 11, 0, true, true, true⟩) :=
      if_neg (by decide)
    rw [rtDeviceOpen, hact]
    exact (if_neg (by decide)).trans (if_pos (by decide))
  · exact absurd (h.open_iff.mp (by decide)) (by decide)
end RtDevice

end Drivers
