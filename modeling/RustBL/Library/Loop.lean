import RustBL.Library.Checked

/-!
# Loops with a turn budget

A loop body takes the loop state to a `Turn`: go round again with a new state, or leave the loop
with a result. `loop body fuel` runs at most `fuel` turns and ends in `Fault.diverged` when they are
used up, so a loop that would run forever faults with every budget. `loop_mono` says that a result
does not depend on the budget that reached it.
-/

set_option autoImplicit false
set_option relaxedAutoImplicit false

namespace RustBL

/-- What one turn of a loop decides. -/
inductive Turn (σ ρ : Type)
  /-- Go round again in this state. -/
  | again (state : σ)
  /-- Leave the loop with this result. -/
  | done (result : ρ)

section Loop

variable {σ ρ : Type}

/-- Run a loop for at most `fuel` turns. -/
def loop (body : σ → Checked (Turn σ ρ)) : ℕ → σ → Checked ρ
  | 0, _ => .error .diverged
  | fuel + 1, state => do
    match ← body state with
    | .again next => loop body fuel next
    | .done result => return result

theorem loop_again {body : σ → Checked (Turn σ ρ)} {state next : σ} (fuel : ℕ)
    (hbody : body state = .ok (.again next)) :
    loop body (fuel + 1) state = loop body fuel next := by
  rw [loop, hbody, ok_bind]

theorem loop_done {body : σ → Checked (Turn σ ρ)} {state : σ} {result : ρ} (fuel : ℕ)
    (hbody : body state = .ok (.done result)) :
    loop body (fuel + 1) state = .ok result := by
  rw [loop, hbody, ok_bind]
  rfl

/-- A result is reached with every larger budget, also by a body that succeeds more often. -/
theorem loop_mono {body body' : σ → Checked (Turn σ ρ)}
    (hbody : ∀ state turn, body state = .ok turn → body' state = .ok turn) {fuel fuel' : ℕ}
    (hfuel : fuel ≤ fuel') {state : σ} {result : ρ} (hloop : loop body fuel state = .ok result) :
    loop body' fuel' state = .ok result := by
  induction fuel generalizing fuel' state with
  | zero => simp [loop] at hloop
  | succ fuel ih =>
    obtain ⟨more, rfl⟩ : ∃ more, fuel' = more + 1 := ⟨fuel' - 1, by omega⟩
    cases hturn : body state with
    | error fault => rw [loop, hturn, error_bind] at hloop; cases hloop
    | ok turn =>
      cases turn with
      | again next =>
        rw [loop_again fuel hturn] at hloop
        rw [loop_again more (hbody _ _ hturn)]
        exact ih (by omega) hloop
      | done value =>
        rw [loop_done fuel hturn] at hloop
        rw [loop_done more (hbody _ _ hturn)]
        exact hloop

/-- A fault of the body is met with every larger budget. -/
theorem loop_error_mono {body : σ → Checked (Turn σ ρ)} {fuel fuel' : ℕ} {state : σ} {fault : Fault}
    (hfuel : fuel ≤ fuel') (hfault : fault ≠ .diverged)
    (hloop : loop body fuel state = .error fault) : loop body fuel' state = .error fault := by
  induction fuel generalizing fuel' state with
  | zero => exact absurd (Except.error.inj hloop).symm hfault
  | succ fuel ih =>
    obtain ⟨more, rfl⟩ : ∃ more, fuel' = more + 1 := ⟨fuel' - 1, by omega⟩
    cases hturn : body state with
    | error stopped =>
      rw [loop, hturn, error_bind] at hloop
      rw [loop, hturn, error_bind]
      exact hloop
    | ok turn =>
      cases turn with
      | again next =>
        rw [loop_again fuel hturn] at hloop
        rw [loop_again more hturn]
        exact ih (by omega) hloop
      | done value =>
        rw [loop_done fuel hturn] at hloop
        exact nomatch hloop

/-- Two budgets that both reach a result reach the same one. -/
theorem loop_unique {body : σ → Checked (Turn σ ρ)} {fuel fuel' : ℕ} {state : σ} {left right : ρ}
    (hleft : loop body fuel state = .ok left) (hright : loop body fuel' state = .ok right) :
    left = right := by
  have hmax := loop_mono (fun _ _ h ↦ h) (le_max_left fuel fuel') hleft
  rw [loop_mono (fun _ _ h ↦ h) (le_max_right fuel fuel') hright] at hmax
  exact (Except.ok.inj hmax).symm

end Loop

end RustBL
