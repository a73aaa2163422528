import RustBL.Library.Runs
import Mathlib.Data.Set.Lattice
import Mathlib.Order.CompletePartialOrder

/-!
# Components that share a memory

A `Component` is a part of a program that keeps a state of its own and works on a memory that it
shares with other parts. It refines a machine without a memory, and it has a footprint: how its
state and the memory stand for a state of that machine depends on the footprint only, and a step
writes to the footprint only.

Two components with disjoint footprints can take their steps in any order. Together they are a
component again (`Component.beside`), which refines the two machines side by side, so any number of
components can be put together. `Component.run` is the induction over runs, and
`Machine.beside_reachable` says that in a run of two machines side by side each of them makes a run
by itself.
-/

set_option autoImplicit false
set_option relaxedAutoImplicit false

namespace RustBL

/-! ### Machines side by side -/

section Beside

variable {S S' Request Request' Reply Reply' : Type}

/-- One of two machines takes a step. -/
inductive BesideStep (left : Machine S Request Reply) (right : Machine S' Request' Reply') :
    S × S' → Request ⊕ Request' → Reply ⊕ Reply' → S × S' → Prop
  | left {s next : S} {u : S'} {request : Request} {reply : Reply}
      (step : left.Step s request reply next) :
      BesideStep left right (s, u) (.inl request) (.inl reply) (next, u)
  | right {s : S} {u next : S'} {request : Request'} {reply : Reply'}
      (step : right.Step u request reply next) :
      BesideStep left right (s, u) (.inr request) (.inr reply) (s, next)

/-- Two machines side by side, in any order of steps. -/
def Machine.beside (left : Machine S Request Reply) (right : Machine S' Request' Reply') :
    Machine (S × S') (Request ⊕ Request') (Reply ⊕ Reply') :=
  ⟨BesideStep left right⟩

/-- Side by side each machine makes a run by itself. -/
theorem Machine.beside_reachable {left : Machine S Request Reply}
    {right : Machine S' Request' Reply'} {start state : S × S'}
    (h : (left.beside right).Reachable start state) :
    left.Reachable start.1 state.1 ∧ right.Reachable start.2 state.2 := by
  refine h.invariant (fun state ↦ left.Reachable start.1 state.1 ∧
    right.Reachable start.2 state.2) ?_ ⟨.start _ _, .start _ _⟩
  rintro state request reply next ⟨hleft, hright⟩ hstep
  cases hstep with
  | left step => exact ⟨hleft.step step, hright⟩
  | right step => exact ⟨hleft, hright.step step⟩

end Beside

/-! ### Components -/

/-- A part of a program over a shared memory, with states in `S`, that refines a machine with states
in `T`. -/
structure Component (A V S T Request Reply : Type) where
  /-- A step, with the memory before and after it. -/
  Step : S → (A → V) → Request → Reply → S → (A → V) → Prop
  /-- The machine that is refined. -/
  spec : Machine T Request Reply
  /-- The state and the memory stand for a state of the machine. -/
  Related : S → (A → V) → T → Prop
  /-- The addresses of the component. -/
  footprint : Set A
  related_congr : ∀ {s m m' t}, Related s m t → (∀ a ∈ footprint, m' a = m a) → Related s m' t
  simulates : ∀ {s m t request reply s' m'}, Related s m t → Step s m request reply s' m' →
    ∃ t', spec.Step t request reply t' ∧ Related s' m' t' ∧ ∀ a ∉ footprint, m' a = m a

namespace Component

section Alone

variable {A V S T Request Reply : Type} (component : Component A V S T Request Reply)

/-- The component by itself. -/
def machine : Machine (S × (A → V)) Request Reply :=
  ⟨fun state request reply next ↦ component.Step state.1 state.2 request reply next.1 next.2⟩

variable {component}

/-- A run is one of the machine that is refined, and writes to the footprint only. -/
theorem run {start state : S × (A → V)} {t : T} {trace : List (Request × Reply)}
    (hrun : component.machine.Run start trace state)
    (hstart : component.Related start.1 start.2 t) :
    (∃ t', component.spec.Run t trace t' ∧ component.Related state.1 state.2 t') ∧
      ∀ a ∉ component.footprint, state.2 a = start.2 a := by
  obtain ⟨t', hspec, hrelated, hsame⟩ := hrun.simulate
    (fun state t ↦ component.Related state.1 state.2 t ∧
      ∀ a ∉ component.footprint, state.2 a = start.2 a)
    (fun state t request reply next ⟨hrelated, hsame⟩ hstep ↦ by
      obtain ⟨t', hspec, hnext, hwritten⟩ := component.simulates hrelated hstep
      exact ⟨t', hspec, hnext, fun a ha ↦ (hwritten a ha).trans (hsame a ha)⟩)
    ⟨hstart, fun _ _ ↦ rfl⟩
  exact ⟨⟨t', hspec, hrelated⟩, hsame⟩

end Alone

section Together

variable {A V S S' T T' Request Request' Reply Reply' : Type}

/-- A step of one of two components. -/
inductive Either (left : Component A V S T Request Reply)
    (right : Component A V S' T' Request' Reply') :
    S × S' → (A → V) → Request ⊕ Request' → Reply ⊕ Reply' → S × S' → (A → V) → Prop
  | left {s next : S} {u : S'} {m m' : A → V} {request : Request} {reply : Reply}
      (step : left.Step s m request reply next m') :
      Either left right (s, u) m (.inl request) (.inl reply) (next, u) m'
  | right {s : S} {u next : S'} {m m' : A → V} {request : Request'} {reply : Reply'}
      (step : right.Step u m request reply next m') :
      Either left right (s, u) m (.inr request) (.inr reply) (s, next) m'

/-- Two components with disjoint footprints, in any order of steps. -/
def beside (left : Component A V S T Request Reply)
    (right : Component A V S' T' Request' Reply')
    (hdisjoint : Disjoint left.footprint right.footprint) :
    Component A V (S × S') (T × T') (Request ⊕ Request') (Reply ⊕ Reply') where
  Step := Either left right
  spec := left.spec.beside right.spec
  Related s m t := left.Related s.1 m t.1 ∧ right.Related s.2 m t.2
  footprint := left.footprint ∪ right.footprint
  related_congr h hsame :=
    ⟨left.related_congr h.1 fun a ha ↦ hsame a (Or.inl ha),
      right.related_congr h.2 fun a ha ↦ hsame a (Or.inr ha)⟩
  simulates := by
    rintro s m t request reply s' m' ⟨hleft, hright⟩ hstep
    -- The component that does not step sees no write to its footprint.
    cases hstep with
    | left step =>
      obtain ⟨t', hspec, hrelated, hsame⟩ := left.simulates hleft step
      exact ⟨(t', t.2), .left hspec, ⟨hrelated, right.related_congr hright fun a ha ↦
        hsame a (Set.disjoint_right.mp hdisjoint ha)⟩, fun a ha ↦ hsame a (mt Or.inl ha)⟩
    | right step =>
      obtain ⟨t', hspec, hrelated, hsame⟩ := right.simulates hright step
      exact ⟨(t.1, t'), .right hspec, ⟨left.related_congr hleft fun a ha ↦
        hsame a (Set.disjoint_left.mp hdisjoint ha), hrelated⟩, fun a ha ↦ hsame a (mt Or.inr ha)⟩

end Together

end Component

end RustBL
