import Mathlib.Tactic

/-!
# Transition systems

A system given by its initial states and a partial step function `step : S → A → Option S`. The runs
of interest are restricted by a condition `P` on every step. `Reach.invariant` is the induction over
runs: a property of the initial states that every admitted step keeps holds in every state reached.
`run` executes a list of actions and tests the condition on the way, so that a concrete run can be
evaluated (`Reach.run`, `exists_of_run`).
-/

namespace Transition

variable {S A : Type*} {init : S → Prop} {step : S → A → Option S} {P Q : S → A → Prop} {s s' : S}
  {ok : S → A → Bool}

/-- The states reached from `init` by steps that all satisfy `P`. -/
inductive Reach (init : S → Prop) (step : S → A → Option S) (P : S → A → Prop) : S → Prop
  | init {s : S} (hs : init s) : Reach init step P s
  | step {s s' : S} {a : A} (hs : Reach init step P s) (ha : P s a) (hstep : step s a = some s') :
      Reach init step P s'

/-- An invariant holds in every state reached. -/
lemma Reach.invariant {I : S → Prop} (hinit : ∀ s, init s → I s)
    (hstep : ∀ s a s', I s → P s a → step s a = some s' → I s') (hs : Reach init step P s) :
    I s := by
  induction hs with
  | init hs => exact hinit _ hs
  | step _ ha hok ih => exact hstep _ _ _ ih ha hok

/-- The invariant may use what is already known about the states reached. -/
lemma Reach.invariant_of {I J : S → Prop} (hJ : ∀ s, Reach init step P s → J s)
    (hinit : ∀ s, init s → I s)
    (hstep : ∀ s a s', J s → I s → P s a → step s a = some s' → I s')
    (hs : Reach init step P s) : I s := by
  induction hs with
  | init hs => exact hinit _ hs
  | step hs ha hok ih => exact hstep _ _ _ (hJ _ hs) ih ha hok

/-- A sequence of steps that all pass the test `ok`. -/
def run (step : S → A → Option S) (ok : S → A → Bool) : S → List A → Option S
  | s, [] => some s
  | s, a :: as => if ok s a then (step s a).bind fun s => run step ok s as else none

lemma Reach.run (hok : ∀ s a, ok s a = true → P s a) {as : List A}
    (hs : Reach init step P s) (hrun : run step ok s as = some s') : Reach init step P s' := by
  induction as generalizing s with
  | nil =>
    obtain rfl := Option.some.inj hrun
    exact hs
  | cons a as ih =>
    simp only [Transition.run] at hrun
    split at hrun
    case isTrue ha =>
      obtain ⟨s1, hstep, hrest⟩ := Option.bind_eq_some_iff.mp hrun
      exact ih (hs.step (hok s a ha) hstep) hrest
    case isFalse => cases hrun

/-- A run that is executed reaches a state with the properties that its last state is tested for. -/
lemma exists_of_run (hok : ∀ s a, ok s a = true → P s a) (hs : init s)
    (as : List A) {F : S → Prop} [DecidablePred F]
    (hrun : (run step ok s as).any (fun s => decide (F s)) = true) :
    ∃ s, Reach init step P s ∧ F s := by
  obtain ⟨s', hs', hF⟩ := (Option.any_eq_true _ _).mp hrun
  exact ⟨s', (Reach.init hs).run hok hs', of_decide_eq_true hF⟩

lemma exists_of_free_run (hs : init s) (as : List A) {F : S → Prop} [DecidablePred F]
    (hrun : (run step (fun _ _ => true) s as).any (fun s => decide (F s)) = true) :
    ∃ s, Reach init step (fun _ _ => True) s ∧ F s :=
  exists_of_run (fun _ _ _ => trivial) hs as hrun

end Transition
