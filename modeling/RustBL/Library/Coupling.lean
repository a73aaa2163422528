import Mathlib.Init

/-!
# Two runs side by side

Two computations with state and errors run from two states. `Alike` says that they end alike: both
return or both stop for the same reason, and the states they end in are related. The values they
return may differ. `Alike.bind` is the rule of sequence, so an induction over a loop shows that two
loops end alike when their bodies do.
-/

set_option autoImplicit false
set_option relaxedAutoImplicit false

namespace RustBL

section Results

variable {ε S S' α α' β β' : Type}

/-- The state a run ends in. -/
def finalState : EStateM.Result ε S α → S
  | .ok _ s => s
  | .error _ s => s

/-- Two runs both return or both stop for the same reason, in related states. -/
def Alike (R : S → S' → Prop) : EStateM.Result ε S α → EStateM.Result ε S' α' → Prop
  | .ok _ s, .ok _ s' => R s s'
  | .error stop s, .error stop' s' => stop = stop' ∧ R s s'
  | _, _ => False

variable {R : S → S' → Prop}

/-- A run ends like itself. -/
theorem Alike.refl (result : EStateM.Result ε S α) : Alike (· = ·) result result := by
  cases result
  · rfl
  · exact ⟨rfl, rfl⟩

/-- Runs that end alike end in related states. -/
theorem Alike.finalState {result : EStateM.Result ε S α} {result' : EStateM.Result ε S' α'}
    (h : Alike R result result') : R (finalState result) (finalState result') := by
  cases result <;> cases result'
  · exact h
  · exact h.elim
  · exact h.elim
  · exact h.2

/-- A run that ends like one that returned has returned. -/
theorem Alike.of_ok {result' : EStateM.Result ε S' α'} {value : α} {s : S}
    (h : Alike R (.ok value s) result') : ∃ value' s', result' = .ok value' s' ∧ R s s' := by
  cases result' with
  | ok value' s' => exact ⟨value', s', rfl, h⟩
  | error stop s' => exact h.elim

/-- A run that ends like one that stopped has stopped for the same reason. -/
theorem Alike.of_error {result' : EStateM.Result ε S' α'} {stop : ε} {s : S}
    (h : Alike (α := α) R (.error stop s) result') : ∃ s', result' = .error stop s' ∧ R s s' := by
  cases result' with
  | ok value' s' => exact h.elim
  | error stop' s' =>
    obtain ⟨rfl, hR⟩ := h
    exact ⟨s', rfl, hR⟩

/-- Two sequences end alike when their first parts do and, if these return, the rest does. -/
theorem Alike.bind {first : EStateM ε S α} {first' : EStateM ε S' α'} {next : α → EStateM ε S β}
    {next' : α' → EStateM ε S' β'} {s : S} {s' : S'} (hfirst : Alike R (first s) (first' s'))
    (hnext : ∀ value t value' t', first s = .ok value t → first' s' = .ok value' t' → R t t' →
      Alike R (next value t) (next' value' t')) :
    Alike R ((first >>= next) s) ((first' >>= next') s') := by
  simp only [Bind.bind, EStateM.bind]
  cases hran : first s with
  | ok value t =>
    rw [hran] at hfirst
    obtain ⟨value', t', hran', hR⟩ := hfirst.of_ok
    rw [hran']
    exact hnext value t value' t' hran hran' hR
  | error stop t =>
    rw [hran] at hfirst
    obtain ⟨t', hran', hR⟩ := hfirst.of_error
    rw [hran']
    exact ⟨rfl, hR⟩

end Results

end RustBL
