import Mathlib.Tactic

/-!
# Common kernel definitions

The error codes of `rtdef.h` that the modelled functions return.
-/

/-- `RT_EOK`, `-RT_ERROR`, `-RT_ETIMEOUT`, `-RT_EFULL` and `-RT_EINTR`. -/
inductive RtErr where
  | eok
  | error
  | etimeout
  | efull
  | eintr
  deriving DecidableEq, Repr
