import Mathlib.Init

/-!
# Contracts of computations with state and errors

A contract of a computation says what holds of the value and the state when it returns, and for
which reasons it may stop instead. It is a triple with two postconditions: `Contract pre step post
stopped` is about every run of `step` from a state of `pre`.

`Contract.bind` is the rule of sequence, and `Contract.adapt` the rule for a caller that reports the
reason of a callee as its own. `Contract.assume` and `Contract.of_exists` bring what a precondition
says about other things than the state into the context of the proof.
-/

set_option autoImplicit false
set_option relaxedAutoImplicit false

namespace RustBL

/-- From the states of `pre` the computation returns in `post`, or stops for a reason in
`stopped`. -/
structure Contract {ε S α : Type} (pre : S → Prop) (step : EStateM ε S α) (post : α → S → Prop)
    (stopped : ε → Prop) : Prop where
  returns : ∀ s, pre s → ∀ value s', step s = .ok value s' → post value s'
  stops : ∀ s, pre s → ∀ reason s', step s = .error reason s' → stopped reason

namespace Contract

section Rules

variable {ε ε' S α β : Type} {pre pre' : S → Prop} {step : EStateM ε S α}
  {post post' : α → S → Prop} {stopped : ε → Prop}

theorem weaken (h : Contract pre' step post' stopped) (hpre : ∀ s, pre s → pre' s)
    (hpost : ∀ value s, post' value s → post value s) : Contract pre step post stopped where
  returns s hs value s' hran := hpost value s' (h.returns s (hpre s hs) value s' hran)
  stops s hs reason s' hran := h.stops s (hpre s hs) reason s' hran

/-- What a computation returns at once. -/
theorem done {value : α} (h : ∀ s, pre s → post value s) :
    Contract pre (pure value : EStateM ε S α) post stopped where
  returns s hs value' s' hran := by
    injection hran with hvalue hstate
    rw [← hvalue, ← hstate]
    exact h s hs
  stops _ _ _ _ hran := nomatch hran

/-- A sequence: the rest takes over where the first part returns. -/
theorem bind {next : α → EStateM ε S β} {post' : β → S → Prop}
    (h : Contract pre step post stopped)
    (hnext : ∀ value, Contract (post value) (next value) post' stopped) :
    Contract pre (step >>= next) post' stopped := by
  constructor
  · intro s hs result s' hran
    simp only [Bind.bind, EStateM.bind] at hran
    cases hfirst : step s with
    | ok value t =>
      rw [hfirst] at hran
      exact (hnext value).returns t (h.returns s hs value t hfirst) result s' hran
    | error reason t =>
      rw [hfirst] at hran
      exact nomatch hran
  · intro s hs reason s' hran
    simp only [Bind.bind, EStateM.bind] at hran
    cases hfirst : step s with
    | ok value t =>
      rw [hfirst] at hran
      exact (hnext value).stops t (h.returns s hs value t hfirst) reason s' hran
    | error reason' t =>
      rw [hfirst] at hran
      injection hran with hreason
      rw [← hreason]
      exact h.stops s hs reason' t hfirst

/-- A caller that reports the reasons of a callee in its own terms. -/
theorem adapt {report : ε → ε'} {reported : ε' → Prop} (h : Contract pre step post stopped)
    (hreport : ∀ reason, stopped reason → reported (report reason)) :
    Contract pre (EStateM.adaptExcept report step) post reported := by
  constructor
  · intro s hs value s' hran
    unfold EStateM.adaptExcept at hran
    cases hstep : step s with
    | ok value' t =>
      rw [hstep] at hran
      injection hran with hvalue hstate
      rw [← hvalue, ← hstate]
      exact h.returns s hs value' t hstep
    | error reason t =>
      rw [hstep] at hran
      exact nomatch hran
  · intro s hs reason s' hran
    unfold EStateM.adaptExcept at hran
    cases hstep : step s with
    | ok value t =>
      rw [hstep] at hran
      exact nomatch hran
    | error reason' t =>
      rw [hstep] at hran
      injection hran with hreason
      rw [← hreason]
      exact hreport reason' (h.stops s hs reason' t hstep)

/-- A precondition that also says something about other things than the state. -/
theorem assume {P : Prop} (hP : ∀ s, pre s → P) (h : P → Contract pre step post stopped) :
    Contract pre step post stopped where
  returns s hs := (h (hP s hs)).returns s hs
  stops s hs := (h (hP s hs)).stops s hs

/-- A precondition with a witness that the state determines. -/
theorem of_exists {ι : Type} {pre : ι → S → Prop} (h : ∀ i, Contract (pre i) step post stopped) :
    Contract (fun s ↦ ∃ i, pre i s) step post stopped where
  returns := fun s ⟨i, hs⟩ ↦ (h i).returns s hs
  stops := fun s ⟨i, hs⟩ ↦ (h i).stops s hs

end Rules

end Contract

end RustBL
