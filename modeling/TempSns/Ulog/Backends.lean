import TempSns.Lib.RingBuffer

/-!
# Log lines with colours and the backends

Embedding of `ulog_output_to_all_backend` in `components/utilities/ulog/ulog.c`, with
`ULOG_USING_COLOR` and without `ULOG_USING_SYSLOG`. For a backend without colours the loop moves the
start of the line and reduces its size, and it keeps both for the backends behind it. A backend is
its `support_color`, and the result has the bytes that each backend is given.
-/

namespace Ulog

open RingBuffer List

def csiStart : List UInt8 := [0x1b, 0x5b]

def csiEnd : List UInt8 := [0x1b, 0x5b, 0x30, 0x6d]

/-- `color_output_info`, with its default colours; `none` is `NULL`. -/
def colorOutputInfo : ℕ → Option (List UInt8)
  | 0 => some [0x33, 0x35, 0x6d]
  | 3 => some [0x33, 0x31, 0x6d]
  | 4 => some [0x33, 0x33, 0x6d]
  | 6 => some [0x33, 0x32, 0x6d]
  | _ => none

/-- The loop over the backends; `log` is the distance from the start of the line. There is no result
if the length of `NULL` is asked for. -/
def outputLoop (level : ℕ) (mem : ℕ → UInt8) : List Bool → ℕ → UInt32 → Option (List (List UInt8))
  | [], _, _ => some []
  | true :: backends, log, size =>
    (outputLoop level mem backends log size).map (slice mem log size.toNat :: ·)
  | false :: backends, log, size =>
    (colorOutputInfo level).bind fun info =>
      -- recalculate the log start address and log size when backend not supported color
      let hdr := csiStart.length + info.length
      let (log, size) := if info.length ≠ 0 then
        (log + hdr, size - UInt32.ofNat (hdr + csiEnd.length)) else (log, size)
      (outputLoop level mem backends log size).map (slice mem log size.toNat :: ·)

def ulogOutputToAllBackend (initOk : Bool) (level : ℕ) (mem : ℕ → UInt8) (size : UInt32)
    (backends : List Bool) : Option (List (List UInt8)) :=
  if initOk then outputLoop level mem backends 0 size else some []

def coloured (info text : List UInt8) : List UInt8 := csiStart ++ info ++ text ++ csiEnd

/-- Every backend gets the line that it supports. -/
def Delivered (level : ℕ) (info text : List UInt8) (mem : ℕ → UInt8) (backends : List Bool) : Prop :=
  ulogOutputToAllBackend true level mem (UInt32.ofNat (coloured info text).length) backends =
    some (backends.map fun color => if color then coloured info text else text)

variable {level : ℕ} {info text : List UInt8} {mem : ℕ → UInt8}

lemma length_colorOutputInfo (h : colorOutputInfo level = some info) : info.length = 3 := by
  unfold colorOutputInfo at h
  split at h
  case h_5 => cases h
  all_goals
    obtain rfl := Option.some.inj h
    rfl

lemma length_coloured (h : colorOutputInfo level = some info) :
    (coloured info text).length = text.length + 9 := by
  simp [coloured, csiStart, csiEnd, length_colorOutputInfo h]
  omega

lemma slice_eq {k n m : ℕ} (h : k + n ≤ m) : slice mem k n = ((slice mem 0 m).drop k).take n := by
  refine ext_getElem (by simp; omega) fun i hi _ => ?_
  rw [getElem_slice, getElem_take, getElem_drop, getElem_slice, zero_add]

lemma slice_text (h : colorOutputInfo level = some info)
    (hmem : slice mem 0 (coloured info text).length = coloured info text) :
    slice mem 5 text.length = text := by
  have hhdr : (csiStart ++ info).length = 5 := by simp [csiStart, length_colorOutputInfo h]
  have hle : 5 + text.length ≤ (coloured info text).length := by rw [length_coloured h]; omega
  rw [slice_eq hle, hmem, coloured, append_assoc, ← hhdr, drop_left, take_left]

lemma outputLoop_cons {b : Bool} {bs : List Bool} {log : ℕ} {size : UInt32}
    (h : colorOutputInfo level = some info) : outputLoop level mem (b :: bs) log size =
      (outputLoop level mem bs (if b then log else log + 5) (if b then size else size - 9)).map
        (slice mem (if b then log else log + 5) (if b then size else size - 9).toNat :: ·) := by
  cases b with
  | true => rfl
  | false =>
    simp only [outputLoop, h, Option.bind_some, length_colorOutputInfo h]
    rfl

/-- Every backend gets its line exactly if all of them but the last one support colours. -/
theorem delivered_iff (h : colorOutputInfo level = some info)
    (hmem : slice mem 0 (coloured info text).length = coloured info text)
    (hsize : (coloured info text).length < 2 ^ 32) (backends : List Bool) :
    Delivered level info text mem backends ↔ ∀ color ∈ backends.dropLast, color = true := by
  have hlen : (UInt32.ofNat (coloured info text).length).toNat = (coloured info text).length :=
    UInt32.toNat_ofNat_of_lt' hsize
  have hnine : (coloured info text).length = text.length + 9 := length_coloured h
  have hsub : (UInt32.ofNat (coloured info text).length - 9).toNat = text.length := by
    rw [UInt32.toNat_sub_of_le _ _ (UInt32.le_iff_toNat_le.mpr (by rw [hlen, hnine]; simp)), hlen,
      hnine]
    rfl
  unfold Delivered ulogOutputToAllBackend
  rw [if_pos rfl]
  induction backends with
  | nil => simp [outputLoop]
  | cons b bs ih =>
    rw [outputLoop_cons h]
    cases b with
    | true =>
      -- nothing is changed for the others
      simp only [if_true]
      rw [hlen, hmem, map_cons, if_pos rfl, Option.map_eq_some_iff]
      simp only [cons.injEq, true_and, exists_eq_right, ih]
      cases bs <;> simp
    | false =>
      cases bs with
      | nil => simpa [outputLoop, hsub] using slice_text h hmem
      | cons b' bs' =>
        -- the next backend does not get the number of bytes that it should
        refine iff_of_false (fun hout => ?_) fun hall => absurd (hall false (by simp)) (by decide)
        obtain ⟨rest, hrest, hcons⟩ := Option.map_eq_some_iff.mp hout
        rw [outputLoop_cons h, (cons.inj hcons).2] at hrest
        obtain ⟨_, -, hrest⟩ := Option.map_eq_some_iff.mp hrest
        have hhead := congrArg length (cons.inj hrest).1
        rw [length_slice] at hhead
        cases b' with
        | true =>
          simp only [if_true, Bool.false_eq_true, if_false, hsub] at hhead
          omega
        | false =>
          simp only [Bool.false_eq_true, if_false, UInt32.toNat_sub _ 9] at hhead
          have hnum : (9 : UInt32).toNat = 9 := rfl
          omega

/-- A line of the level `LOG_LVL_INFO` for a backend with colours and one without. -/
theorem delivered_color_plain : Delivered 6 [0x33, 0x32, 0x6d] [0x61]
    (fun i => (coloured [0x33, 0x32, 0x6d] [0x61]).getD i 0) [true, false] :=
  (delivered_iff rfl (by decide) (by decide) [true, false]).mpr (by decide)

/-- The backend without colours is the first one: the other one gets the line without them too. -/
theorem not_delivered_plain_color : ¬ Delivered 6 [0x33, 0x32, 0x6d] [0x61]
    (fun i => (coloured [0x33, 0x32, 0x6d] [0x61]).getD i 0) [false, true] := by
  unfold Delivered
  decide

end Ulog
