import RustBL.Library.Interaction
import Mathlib.Logic.Relation

/-!
# Programs that something interferes with

A program runs in an environment whose state something else changes between its requests. `Evolves`
lets the program make its requests and the others make changes that a relation allows, in any order
and number.

`Keeps` is the judgement about such runs. From every state that satisfies a precondition, an
invariant holds at all times, and a postcondition holds of the result at the end. Its rules follow
the program: a request (`Keeps.ask`), a sequence (`Keeps.bind`), a branch, a bounded number of
attempts (`Keeps.spin`). A condition that holds while the program waits for its turn must not be
destroyed by the others: it is `Stable`. `Asks` says what a program may ask for, whatever it is
given.
-/

set_option autoImplicit false
set_option relaxedAutoImplicit false

namespace RustBL

namespace Interaction

variable {Request : Type} {Reply : Request → Type} {α β σ : Type}

/-- One change: another one's, or the request that comes next. -/
inductive Evolve (rely : σ → σ → Prop) (environment : σ → (request : Request) → Reply request × σ) :
    Interaction Request Reply α × σ → Interaction Request Reply α × σ → Prop
  /-- Something else changes the state. -/
  | disturbed (program : Interaction Request Reply α) {state state' : σ} :
      rely state state' → Evolve rely environment (program, state) (program, state')
  /-- The program makes a request. -/
  | asked (request : Request) (next : Reply request → Interaction Request Reply α) (state : σ) :
      Evolve rely environment (.ask request next, state)
        (next (environment state request).1, (environment state request).2)

/-- Any number of changes. -/
def Evolves (rely : σ → σ → Prop) (environment : σ → (request : Request) → Reply request × σ) :
    Interaction Request Reply α × σ → Interaction Request Reply α × σ → Prop :=
  Relation.ReflTransGen (Evolve rely environment)

/-- The others do not destroy a condition. -/
def Stable (rely : σ → σ → Prop) (condition : σ → Prop) : Prop :=
  ∀ state state', rely state state' → condition state → condition state'

/-- From the states that satisfy `pre`, the invariant holds all along a run of the program, and
`post` holds of its result at the end. -/
def Keeps (rely : σ → σ → Prop) (environment : σ → (request : Request) → Reply request × σ)
    (invariant pre : σ → Prop) (program : Interaction Request Reply α) (post : α → σ → Prop) :
    Prop :=
  ∀ state, pre state → ∀ rest state', Evolves rely environment (program, state) (rest, state') →
    invariant state' ∧ ∀ result, rest = .done result → post result state'

/-! ### Runs -/

section Runs

variable {rely : σ → σ → Prop} {environment : σ → (request : Request) → Reply request × σ}
  {program rest : Interaction Request Reply α} {state state' : σ} {result : α}

/-- A run starts with a change by the others, or with the first request. -/
theorem Evolves.cases_head (h : Evolves rely environment (program, state) (rest, state')) :
    (program = rest ∧ state = state') ∨
      (∃ middle, rely state middle ∧ Evolves rely environment (program, middle) (rest, state')) ∨
      ∃ request next, program = .ask request next ∧ Evolves rely environment
        (next (environment state request).1, (environment state request).2) (rest, state') := by
  rcases Relation.ReflTransGen.cases_head h with heq | ⟨middle, hstep, hlater⟩
  · exact .inl (Prod.mk.inj heq)
  · cases hstep with
    | disturbed _ hrely => exact .inr (.inl ⟨_, hrely, hlater⟩)
    | asked request next _ => exact .inr (.inr ⟨request, next, rfl, hlater⟩)

/-- A run of a sequence is within the first program, or past it. -/
theorem Evolves.of_bind {next : α → Interaction Request Reply β}
    {rest : Interaction Request Reply β}
    (h : Evolves rely environment (program >>= next, state) (rest, state')) :
    (∃ program', rest = program' >>= next ∧
        Evolves rely environment (program, state) (program', state')) ∨
      ∃ value middle, Evolves rely environment (program, state) (.done value, middle) ∧
        Evolves rely environment (next value, middle) (rest, state') := by
  -- The induction is on the steps, for whatever is left of the first program.
  generalize hfirst : (program >>= next, state) = first at h
  induction h using Relation.ReflTransGen.head_induction_on generalizing program state with
  | refl =>
    obtain ⟨rfl, rfl⟩ := Prod.mk.inj hfirst
    exact .inl ⟨program, rfl, .refl⟩
  | head hstep hlater ih =>
    cases program with
    | done value =>
      subst hfirst
      exact .inr ⟨value, state, .refl, .head hstep hlater⟩
    | ask request continuation =>
      subst hfirst
      have hcontinue {middle : Interaction Request Reply α × σ}
          (hmiddle : Evolve rely environment (.ask request continuation, state) middle)
          (htail : (∃ program', rest = program' >>= next ∧
              Evolves rely environment middle (program', state')) ∨
            ∃ value later, Evolves rely environment middle (.done value, later) ∧
              Evolves rely environment (next value, later) (rest, state')) :
          (∃ program', rest = program' >>= next ∧
              Evolves rely environment (.ask request continuation, state) (program', state')) ∨
            ∃ value later,
              Evolves rely environment (.ask request continuation, state) (.done value, later) ∧
              Evolves rely environment (next value, later) (rest, state') := by
        rcases htail with ⟨program', hrest, hsteps⟩ | ⟨value, later, hsteps, hthen⟩
        · exact .inl ⟨program', hrest, .head hmiddle hsteps⟩
        · exact .inr ⟨value, later, .head hmiddle hsteps, hthen⟩
      cases hstep with
      | disturbed _ hrely => exact hcontinue (.disturbed _ hrely) (ih rfl)
      | asked _ _ _ => exact hcontinue (.asked request continuation state) (ih rfl)

end Runs

/-! ### The rules -/

section Rules

variable {rely : σ → σ → Prop} {environment : σ → (request : Request) → Reply request × σ}
  {invariant pre pre' : σ → Prop} {program : Interaction Request Reply α}
  {post post' : α → σ → Prop}

/-- A weaker precondition and a stronger postcondition. -/
theorem Keeps.weaken (h : Keeps rely environment invariant pre program post)
    (hpre : ∀ state, pre' state → pre state)
    (hpost : ∀ result state, post result state → post' result state) :
    Keeps rely environment invariant pre' program post' := by
  intro state hstate rest state' hrun
  obtain ⟨hinvariant, hresult⟩ := h state (hpre state hstate) rest state' hrun
  exact ⟨hinvariant, fun result hrest ↦ hpost result state' (hresult result hrest)⟩

/-- A weaker invariant. -/
theorem Keeps.mono {invariant' : σ → Prop} (h : Keeps rely environment invariant pre program post)
    (hinvariant : ∀ state, invariant state → invariant' state) :
    Keeps rely environment invariant' pre program post := by
  intro state hstate rest state' hrun
  obtain ⟨hbefore, hresult⟩ := h state hstate rest state' hrun
  exact ⟨hinvariant _ hbefore, hresult⟩

/-- A program that ends at once. -/
theorem Keeps.done {result : α} (hstable : Stable rely (post result))
    (hinvariant : ∀ state, post result state → invariant state)
    (hpre : ∀ state, pre state → post result state) :
    Keeps rely environment invariant pre (pure result) post := by
  intro state hstate rest state' hrun
  have hpost : rest = .done result ∧ post result state' := by
    generalize hlast : (rest, state') = last at hrun
    induction hrun generalizing rest state' with
    | refl =>
      obtain ⟨rfl, rfl⟩ := Prod.mk.inj hlast
      exact ⟨rfl, hpre _ hstate⟩
    | tail _ hstep ih =>
      subst hlast
      obtain ⟨hdone, hbefore⟩ := ih _ _ rfl
      cases hstep with
      | disturbed _ hrely => exact ⟨hdone, hstable _ _ hrely hbefore⟩
      | asked request next state => cases hdone
  refine ⟨hinvariant _ hpost.2, fun value hvalue ↦ ?_⟩
  obtain rfl : result = value := by
    rw [hpost.1] at hvalue
    exact Interaction.done.inj hvalue
  exact hpost.2

/-- A request: what it needs is stable, and the rest goes on from what it leaves. -/
theorem Keeps.ask {request : Request} {next : Reply request → Interaction Request Reply α}
    (hstable : Stable rely pre) (hinvariant : ∀ state, pre state → invariant state)
    (hnext : ∀ reply, Keeps rely environment invariant
      (fun state' ↦ ∃ state, pre state ∧ environment state request = (reply, state'))
      (next reply) post) :
    Keeps rely environment invariant pre (.ask request next) post := by
  intro state hstate rest state' hrun
  generalize hfirst : ((.ask request next : Interaction Request Reply α), state) = first at hrun
  induction hrun using Relation.ReflTransGen.head_induction_on generalizing state with
  | refl =>
    obtain ⟨rfl, rfl⟩ := Prod.mk.inj hfirst
    refine ⟨hinvariant _ hstate, fun result hrest ↦ ?_⟩
    cases hrest
  | head hstep hlater ih =>
    subst hfirst
    cases hstep with
    | disturbed _ hrely => exact ih _ (hstable _ _ hrely hstate) rfl
    | asked _ _ _ => exact hnext _ _ ⟨state, hstate, rfl⟩ rest state' hlater

/-- One program after the other. -/
theorem Keeps.bind {next : α → Interaction Request Reply β} {post : β → σ → Prop}
    {middle : α → σ → Prop} (hfirst : Keeps rely environment invariant pre program middle)
    (hnext : ∀ value, Keeps rely environment invariant (middle value) (next value) post) :
    Keeps rely environment invariant pre (program >>= next) post := by
  intro state hstate rest state' hrun
  rcases hrun.of_bind with ⟨program', rfl, hsteps⟩ | ⟨value, later, hsteps, hthen⟩
  · obtain ⟨hinvariant, hvalue⟩ := hfirst state hstate program' state' hsteps
    refine ⟨hinvariant, fun result hresult ↦ ?_⟩
    cases program' with
    | done value =>
      exact (hnext value state' (hvalue value rfl) _ _ .refl).2 result hresult
    | ask request continuation => cases hresult
  · exact hnext value later ((hfirst state hstate _ _ hsteps).2 value rfl) rest state' hthen

/-- One request and the rest. -/
theorem Keeps.perform_bind {request : Request} {next : Reply request → Interaction Request Reply α}
    (hstable : Stable rely pre) (hinvariant : ∀ state, pre state → invariant state)
    (hnext : ∀ reply, Keeps rely environment invariant
      (fun state' ↦ ∃ state, pre state ∧ environment state request = (reply, state'))
      (next reply) post) :
    Keeps rely environment invariant pre (perform request >>= next) post :=
  Keeps.ask hstable hinvariant hnext

/-- A bounded number of attempts: each failed one comes back to the precondition. -/
theorem Keeps.spin {attempt : Interaction Request Reply Bool} {post : Bool → σ → Prop}
    (hattempt : Keeps rely environment invariant pre attempt
      fun succeeded state ↦ if succeeded then post true state else pre state)
    (hstable : Stable rely (post true)) (hstable' : Stable rely (post false))
    (hinvariant : ∀ succeeded state, post succeeded state → invariant state)
    (hexhausted : ∀ state, pre state → post false state) (budget : ℕ) :
    Keeps rely environment invariant pre (spin attempt budget) post := by
  induction budget with
  | zero => exact Keeps.done hstable' (hinvariant false) hexhausted
  | succ budget ih =>
    refine Keeps.bind hattempt fun succeeded ↦ ?_
    cases succeeded with
    | true => exact Keeps.done hstable (hinvariant true) fun _ hpost ↦ hpost
    | false => exact ih

end Rules

/-! ### What a program may ask for -/

/-- Whatever the program is given, it makes no request but these. -/
def Asks (allowed : Request → Prop) : Interaction Request Reply α → Prop
  | .done _ => True
  | .ask request next => allowed request ∧ ∀ reply, Asks allowed (next reply)

section Asks

variable {allowed : Request → Prop} {program : Interaction Request Reply α}

theorem Asks.bind {next : α → Interaction Request Reply β} (hprogram : Asks allowed program)
    (hnext : ∀ result, Asks allowed (next result)) : Asks allowed (program >>= next) := by
  induction program with
  | done result => exact hnext result
  | ask request continuation ih => exact ⟨hprogram.1, fun reply ↦ ih reply (hprogram.2 reply)⟩

theorem Asks.spin {attempt : Interaction Request Reply Bool} (hattempt : Asks allowed attempt)
    (budget : ℕ) : Asks allowed (spin attempt budget) := by
  induction budget with
  | zero => exact trivial
  | succ budget ih =>
    refine hattempt.bind fun succeeded ↦ ?_
    cases succeeded with
    | true => exact trivial
    | false => exact ih

end Asks

end Interaction

end RustBL
