import Mathlib.Tactic

/-!
# Fallible execution

The ways in which a modelled call can fail to return: a failed assertion, a loop that never ends,
an access outside an array and an access through a bad pointer. A call that returns is
`Except.ok`.

Loops are modelled with fuel. A loop whose only state is one 32-bit variable visits at most
`2 ^ 32` values, so it either ends within `loopFuel` rounds or not at all.
-/

/-- Why a modelled call does not return. -/
inductive Fault where
  /-- An assertion failed; the handler stops the system. -/
  | assertion
  /-- A loop does not end. -/
  | diverges
  /-- An array was indexed outside its bounds. -/
  | badIndex
  /-- A null pointer, or a list head taken for an item of the list, was dereferenced. -/
  | badPointer
  deriving DecidableEq, Repr

/-- Enough rounds for every terminating loop over a single 32-bit variable. -/
@[irreducible]
def loopFuel : ℕ := 2 ^ 32

lemma bind_eq_ok {α β : Type} {x : Except Fault α} {f : α → Except Fault β} {b : β} :
    (x >>= f) = .ok b ↔ ∃ a, x = .ok a ∧ f a = .ok b := by
  cases x with
  | error e => simp [bind, Except.bind]
  | ok a => simp [bind, Except.bind]

@[simp] lemma ok_bind {α β : Type} {a : α} {f : α → Except Fault β} :
    (Except.ok a >>= f) = f a := rfl

@[simp] lemma error_bind {α β : Type} {e : Fault} {f : α → Except Fault β} :
    (Except.error e >>= f) = .error e := rfl

lemma map_eq_ok {α β : Type} {x : Except Fault α} {f : α → β} {b : β} :
    x.map f = .ok b ↔ ∃ a, x = .ok a ∧ f a = b := by
  cases x with
  | error e => simp [Except.map]
  | ok a => simp [Except.map]

lemma toOption_eq_some {α : Type} {x : Except Fault α} {a : α} :
    x.toOption = some a ↔ x = .ok a := by
  cases x <;> simp [Except.toOption]

/-- A checked computation returns only if the check holds. -/
lemma ite_eq_ok {α : Type} {p : Prop} [Decidable p] {x : Except Fault α} {e : Fault} {a : α} :
    (if p then x else .error e) = .ok a ↔ p ∧ x = .ok a := by
  by_cases hp : p <;> simp [hp]

/-- With enough fuel the computation returns `a`. -/
def Returns {α : Type} (f : ℕ → Except Fault α) (a : α) : Prop :=
  ∃ n, ∀ fuel ≥ n, f fuel = .ok a

lemma Returns.const {α : Type} (a : α) : Returns (fun _ => .ok a) a := ⟨0, fun _ _ => rfl⟩

lemma Returns.bind {α β : Type} {f : ℕ → Except Fault α} {g : ℕ → α → Except Fault β} {a : α}
    {b : β} (hf : Returns f a) (hg : Returns (fun fuel => g fuel a) b) :
    Returns (fun fuel => f fuel >>= g fuel) b := by
  obtain ⟨n, hn⟩ := hf
  obtain ⟨n', hn'⟩ := hg
  refine ⟨max n n', fun fuel hfuel => ?_⟩
  show (f fuel >>= g fuel) = .ok b
  rw [hn fuel (le_of_max_le_left hfuel), ok_bind]
  exact hn' fuel (le_of_max_le_right hfuel)

lemma Returns.append {σ τ : Type} {f : ℕ → Except Fault (σ × List τ)}
    {g : ℕ → σ → Except Fault (σ × List τ)} {s s' : σ} {l l' : List τ} (hf : Returns f (s, l))
    (hg : Returns (fun fuel => g fuel s) (s', l')) :
    Returns (fun fuel => do
      let (s, l) ← f fuel
      let (s, l') ← g fuel s
      .ok (s, l ++ l')) (s', l ++ l') :=
  hf.bind (hg.bind (.const _))

lemma Returns.unique {α : Type} {f : ℕ → Except Fault α} {a b : α} (ha : Returns f a)
    (hb : Returns f b) : a = b := by
  obtain ⟨n, hn⟩ := ha
  obtain ⟨m, hm⟩ := hb
  exact Except.ok.inj ((hn (max n m) (le_max_left n m)).symm.trans (hm _ (le_max_right n m)))

lemma Returns.map {α β : Type} {f : ℕ → Except Fault α} {a : α} (hf : Returns f a) (g : α → β) :
    Returns (fun fuel => (f fuel).map g) (g a) :=
  hf.imp fun n hn fuel hfuel => by
    show (f fuel).map g = .ok (g a)
    rw [hn fuel hfuel]
    rfl

/-- The computation returns a value with the property `P`. -/
def okWith {α : Type} (P : α → Prop) [DecidablePred P] : Except Fault α → Bool
  | .ok a => decide (P a)
  | .error _ => false

lemma exists_of_okWith {α : Type} {P : α → Prop} [DecidablePred P] {x : Except Fault α}
    (hok : okWith P x = true) : ∃ a, x = .ok a ∧ P a := by
  cases x with
  | error e => cases hok
  | ok a => exact ⟨a, rfl, of_decide_eq_true hok⟩
