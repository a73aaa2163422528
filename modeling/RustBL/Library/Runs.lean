import Mathlib.Data.List.Basic

/-!
# Machines and their runs

A `Machine` is a transition relation between states, labelled with the request that was made and the
reply that was given. A `Run` is a finite sequence of steps; its trace lists the requests with their
replies, oldest first.

`Run.invariant` packages the induction of a safety proof: what one step preserves holds after every
run. `Run.simulate` packages the induction of a refinement proof: when every step of one machine is
matched by a step of another with the same request and reply, every run is matched by a run with the
same trace.
-/

set_option autoImplicit false
set_option relaxedAutoImplicit false

namespace RustBL

/-- A transition relation labelled with requests and replies. -/
structure Machine (State Request Reply : Type) where
  /-- Making `request` in the first state may give the reply and lead to the last state. -/
  Step : State → Request → Reply → State → Prop

namespace Machine

variable {State Request Reply State' : Type}

/-- The finite runs of a machine from `start`, with their traces. -/
inductive Run (machine : Machine State Request Reply) (start : State) :
    List (Request × Reply) → State → Prop
  | nil : Run machine start [] start
  | snoc {trace : List (Request × Reply)} {state next : State} {request : Request}
      {reply : Reply} : Run machine start trace state → machine.Step state request reply next →
      Run machine start (trace ++ [(request, reply)]) next

/-- The states some run from `start` ends in. -/
def Reachable (machine : Machine State Request Reply) (start state : State) : Prop :=
  ∃ trace, machine.Run start trace state

theorem Reachable.start (machine : Machine State Request Reply) (start : State) :
    machine.Reachable start start :=
  ⟨[], .nil⟩

theorem Reachable.step {machine : Machine State Request Reply} {start state next : State}
    {request : Request} {reply : Reply} (hstate : machine.Reachable start state)
    (hstep : machine.Step state request reply next) : machine.Reachable start next := by
  obtain ⟨trace, hrun⟩ := hstate
  exact ⟨trace ++ [(request, reply)], hrun.snoc hstep⟩

/-- What holds at the start and is preserved by every step holds after every run. -/
theorem Run.invariant {machine : Machine State Request Reply} {start state : State}
    {trace : List (Request × Reply)} (invariant : State → Prop)
    (hstep : ∀ state request reply next, invariant state →
      machine.Step state request reply next → invariant next)
    (hrun : machine.Run start trace state) (hstart : invariant start) : invariant state := by
  induction hrun with
  | nil => exact hstart
  | snoc _ hlast ih => exact hstep _ _ _ _ ih hlast

theorem Reachable.invariant {machine : Machine State Request Reply} {start state : State}
    (invariant : State → Prop)
    (hstep : ∀ state request reply next, invariant state →
      machine.Step state request reply next → invariant next)
    (hreachable : machine.Reachable start state) (hstart : invariant start) : invariant state := by
  obtain ⟨trace, hrun⟩ := hreachable
  exact hrun.invariant invariant hstep hstart

/-- A run can be continued at its beginning. -/
theorem Run.cons {machine : Machine State Request Reply} {start next state : State}
    {request : Request} {reply : Reply} {trace : List (Request × Reply)}
    (hstep : machine.Step start request reply next) (hrun : machine.Run next trace state) :
    machine.Run start ((request, reply) :: trace) state := by
  induction hrun with
  | nil => exact .snoc .nil hstep
  | snoc _ hlast ih => exact ih.snoc hlast

/-- A run can be continued at its end. -/
theorem Run.append {machine : Machine State Request Reply} {start middle state : State}
    {trace later : List (Request × Reply)} (hrun : machine.Run start trace middle)
    (hlater : machine.Run middle later state) : machine.Run start (trace ++ later) state := by
  induction hlater with
  | nil =>
    rw [List.append_nil]
    exact hrun
  | snoc _ hlast ih =>
    rw [← List.append_assoc]
    exact ih.snoc hlast

/-- Forward simulation: when related states stay related under a step with the same request and
reply, every run of the first machine is matched by a run of the second with the same trace. -/
theorem Run.simulate {machine : Machine State Request Reply}
    {spec : Machine State' Request Reply} {start state : State} {start' : State'}
    {trace : List (Request × Reply)} (related : State → State' → Prop)
    (hstep : ∀ state state' request reply next, related state state' →
      machine.Step state request reply next →
        ∃ next', spec.Step state' request reply next' ∧ related next next')
    (hrun : machine.Run start trace state) (hstart : related start start') :
    ∃ state', spec.Run start' trace state' ∧ related state state' := by
  induction hrun with
  | nil => exact ⟨start', .nil, hstart⟩
  | snoc _ hlast ih =>
    obtain ⟨state', hrun', hrelated⟩ := ih
    obtain ⟨next', hnext', hrelated'⟩ := hstep _ _ _ _ _ hrelated hlast
    exact ⟨next', hrun'.snoc hnext', hrelated'⟩

end Machine

end RustBL
