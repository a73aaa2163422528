import Mathlib.Data.List.Basic

/-!
# Programs that interact with an environment

An `Interaction` is a finite tree of requests, each with a continuation for every reply it may get.
It fixes no meaning for the requests. Its events are the requests that were made with their replies,
oldest first.

`Runs` says that a program may end with a result after some events, whatever gave the replies: a
statement about every run holds in every environment. `run` follows one environment, a function from
its state and a request to the reply and the next state, and `Answered` says that an environment
gave the replies of some events. `run_runs` and `run_answered` connect the two.

`spin` is a loop that makes a bounded number of attempts and reports whether one succeeded;
`runs_spin` is its induction.
-/

set_option autoImplicit false
set_option relaxedAutoImplicit false

namespace RustBL

/-- A program that makes requests and ends with a result. -/
inductive Interaction (Request : Type) (Reply : Request → Type) (α : Type)
  /-- End with this result. -/
  | done (result : α)
  /-- Make a request and go on with its reply. -/
  | ask (request : Request) (next : Reply request → Interaction Request Reply α)

namespace Interaction

variable {Request : Type} {Reply : Request → Type} {α β σ : Type}

/-- Go on with another program when the first one ends. -/
def bind : Interaction Request Reply α → (α → Interaction Request Reply β) →
    Interaction Request Reply β
  | done result, next => next result
  | ask request rest, next => ask request fun reply ↦ (rest reply).bind next

instance : Monad (Interaction Request Reply) where
  pure := done
  bind := bind

/-- Make one request. -/
def perform (request : Request) : Interaction Request Reply (Reply request) :=
  ask request done

/-- Programs in sequence. -/
theorem bind_assoc {γ : Type} (program : Interaction Request Reply α)
    (next : α → Interaction Request Reply β) (last : β → Interaction Request Reply γ) :
    program >>= next >>= last = program >>= fun result ↦ next result >>= last := by
  induction program with
  | done result => rfl
  | ask request continuation ih => exact congrArg (ask request) (funext fun reply ↦ ih reply)

/-- A request with its reply. -/
abbrev Event (Request : Type) (Reply : Request → Type) := Σ request : Request, Reply request

/-- The program may end with this result after these events. -/
inductive Runs : Interaction Request Reply α → List (Event Request Reply) → α → Prop
  | done (result : α) : Runs (done result) [] result
  | ask {request : Request} {next : Reply request → Interaction Request Reply α}
      {events : List (Event Request Reply)} {result : α} (reply : Reply request) :
      Runs (next reply) events result → Runs (ask request next) (⟨request, reply⟩ :: events) result

/-! ### Runs of programs in sequence -/

section Sequence

variable {program : Interaction Request Reply α} {events : List (Event Request Reply)}
  {result : α}

theorem runs_pure_eq {value : α}
    (h : Runs (pure value : Interaction Request Reply α) events result) :
    events = [] ∧ result = value := by
  cases h
  exact ⟨rfl, rfl⟩

/-- A run of a sequence is a run of its first part and a run of the rest on its result. -/
theorem runs_bind {next : α → Interaction Request Reply β} {result : β} :
    Runs (program >>= next) events result ↔ ∃ first value rest, events = first ++ rest ∧
      Runs program first value ∧ Runs (next value) rest result := by
  constructor
  · intro h
    induction program generalizing events with
    | done value => exact ⟨[], value, events, rfl, .done value, h⟩
    | ask request continuation ih =>
      cases h with
      | ask reply hrest =>
        obtain ⟨first, value, rest, rfl, hfirst, hnext⟩ := ih reply hrest
        exact ⟨⟨request, reply⟩ :: first, value, rest, rfl, .ask reply hfirst, hnext⟩
  · rintro ⟨first, value, rest, rfl, hfirst, hrest⟩
    induction hfirst with
    | done => exact hrest
    | ask reply _ ih => exact .ask reply (ih hrest)

/-- A run of one request and a rest. -/
theorem runs_perform_bind {request : Request} {next : Reply request → Interaction Request Reply β}
    {result : β} : Runs (perform request >>= next) events result ↔
      ∃ reply rest, events = ⟨request, reply⟩ :: rest ∧ Runs (next reply) rest result := by
  constructor
  · intro h
    cases h with
    | ask reply hrest => exact ⟨reply, _, rfl, hrest⟩
  · rintro ⟨reply, rest, rfl, hrest⟩
    exact .ask reply hrest

theorem runs_perform {request : Request} {reply : Reply request} :
    Runs (perform request) events reply ↔ events = [⟨request, reply⟩] := by
  constructor
  · intro h
    cases h with
    | ask reply hrest => cases hrest; rfl
  · rintro rfl
    exact .ask reply (.done reply)

end Sequence

/-! ### Environments -/

/-- What a run in an environment leaves behind. -/
structure Outcome (Request : Type) (Reply : Request → Type) (σ α : Type) where
  /-- The requests with their replies. -/
  events : List (Event Request Reply)
  /-- The result. -/
  result : α
  /-- The state of the environment afterwards. -/
  state : σ

/-- Run a program in an environment. -/
def run (environment : σ → (request : Request) → Reply request × σ) :
    Interaction Request Reply α → σ → Outcome Request Reply σ α
  | done result, state => ⟨[], result, state⟩
  | ask request next, state =>
    let (reply, state) := environment state request
    let outcome := run environment (next reply) state
    { outcome with events := ⟨request, reply⟩ :: outcome.events }

/-- The environment gives the replies of these events, and goes from the first state to the last. -/
inductive Answered (environment : σ → (request : Request) → Reply request × σ) :
    σ → List (Event Request Reply) → σ → Prop
  | nil (state : σ) : Answered environment state [] state
  | cons {state last : σ} {events : List (Event Request Reply)} (request : Request) :
      Answered environment (environment state request).2 events last →
      Answered environment state (⟨request, (environment state request).1⟩ :: events) last

section Environments

variable {environment : σ → (request : Request) → Reply request × σ} {state last : σ}
  {events later : List (Event Request Reply)}

theorem run_runs (environment : σ → (request : Request) → Reply request × σ)
    (program : Interaction Request Reply α) (state : σ) :
    Runs program (program.run environment state).events (program.run environment state).result := by
  induction program generalizing state with
  | done result => exact .done result
  | ask request next ih => exact .ask _ (ih _ _)

theorem run_answered (environment : σ → (request : Request) → Reply request × σ)
    (program : Interaction Request Reply α) (state : σ) :
    Answered environment state (program.run environment state).events
      (program.run environment state).state := by
  induction program generalizing state with
  | done result => exact .nil state
  | ask request next ih => exact .cons request (ih _ _)

theorem answered_append : Answered environment state (events ++ later) last ↔
    ∃ middle, Answered environment state events middle ∧
      Answered environment middle later last := by
  constructor
  · intro h
    induction events generalizing state with
    | nil => exact ⟨state, .nil state, h⟩
    | cons event events ih =>
      cases h with
      | cons request hrest =>
        obtain ⟨middle, hevents, hlater⟩ := ih hrest
        exact ⟨middle, .cons request hevents, hlater⟩
  · rintro ⟨middle, hevents, hlater⟩
    induction hevents with
    | nil => exact hlater
    | cons request _ ih => exact .cons request (ih hlater)

theorem answered_cons {request : Request} {reply : Reply request} :
    Answered environment state (⟨request, reply⟩ :: events) last ↔
      (environment state request).1 = reply ∧
        Answered environment (environment state request).2 events last := by
  constructor
  · intro h
    cases h with
    | cons _ hrest => exact ⟨rfl, hrest⟩
  · rintro ⟨rfl, hrest⟩
    exact .cons request hrest

/-- What holds at first and is kept by every event of a kind holds after events of that kind. -/
theorem Answered.invariant (invariant : σ → Prop) {kind : Event Request Reply → Prop}
    (hstep : ∀ state request, invariant state → kind ⟨request, (environment state request).1⟩ →
      invariant (environment state request).2)
    (h : Answered environment state events last) (hkind : ∀ event ∈ events, kind event)
    (hstart : invariant state) : invariant last := by
  induction h with
  | nil => exact hstart
  | cons request _ ih =>
    rw [List.forall_mem_cons] at hkind
    exact ih hkind.2 (hstep _ _ hstart hkind.1)

end Environments

/-! ### Bounded attempts -/

/-- Make at most `budget` attempts, and report whether one succeeded. -/
def spin (attempt : Interaction Request Reply Bool) : ℕ → Interaction Request Reply Bool
  | 0 => return false
  | budget + 1 => do
    if ← attempt then return true else spin attempt budget

section Spin

variable {attempt : Interaction Request Reply Bool}

/-- The induction of a loop of attempts: a run of it is empty and has failed, or ends with an
attempt that succeeded, or begins with one that failed. -/
theorem runs_spin {motive : ℕ → List (Event Request Reply) → Bool → Prop}
    (exhausted : motive 0 [] false)
    (succeeded : ∀ budget events, Runs attempt events true → motive (budget + 1) events true)
    (failed : ∀ budget events later ready, Runs attempt events false →
      Runs (spin attempt budget) later ready → motive budget later ready →
      motive (budget + 1) (events ++ later) ready)
    {budget : ℕ} {events : List (Event Request Reply)} {ready : Bool}
    (h : Runs (spin attempt budget) events ready) : motive budget events ready := by
  induction budget generalizing events ready with
  | zero =>
    obtain ⟨rfl, rfl⟩ := runs_pure_eq h
    exact exhausted
  | succ budget ih =>
    rw [spin, runs_bind] at h
    obtain ⟨first, value, rest, rfl, hfirst, hrest⟩ := h
    cases value with
    | true =>
      obtain ⟨rfl, rfl⟩ := runs_pure_eq hrest
      rw [List.append_nil]
      exact succeeded budget first hfirst
    | false => exact failed budget first rest ready hfirst hrest (ih hrest)

end Spin

end Interaction

end RustBL
