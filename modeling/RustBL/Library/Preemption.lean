import RustBL.Library.Interference
import RustBL.Library.Runs

/-!
# Threads on a processor with interrupts

A `Board` is what is around a processor: how the devices answer, what they do by themselves, when
they have an interrupt accepted and with what vector, and the handler of each vector. The processor
runs one thread. While the interrupt flag is set, an interrupt that the board offers may be accepted
between any two instructions: the flag is cleared, the handler runs, and its return restores the
flag. A processor that was halted goes on with the next interrupt.

`Board.machine` has every instruction of every handler as a step of its own, and lets interrupts
nest. `Reachable.collapse` says what it comes to when no handler sets the flag: a run of the thread
alone, with interference by whole handlers, and at most one handler under way.
-/

set_option autoImplicit false
set_option relaxedAutoImplicit false

namespace RustBL

open Interaction

/-! ### Threads -/

/-- What a thread asks for: an access to the devices and the memory, or an instruction. -/
inductive Instruction (Request : Type)
  /-- An access. -/
  | access (request : Request)
  /-- Read the interrupt flag. -/
  | saveFlag
  /-- Clear the interrupt flag. -/
  | disable
  /-- Set the interrupt flag. -/
  | enable
  /-- Wait for an interrupt. -/
  | halt

/-- What it is given. -/
abbrev Instruction.Reply {Request : Type} (Reply : Request → Type) : Instruction Request → Type
  | .access request => Reply request
  | .saveFlag => Bool
  | .disable => Unit
  | .enable => Unit
  | .halt => Unit

/-- The instruction waits for an interrupt. -/
def Instruction.waits {Request : Type} : Instruction Request → Bool
  | .halt => true
  | _ => false

/-- A program of a processor. -/
abbrev Thread (Request : Type) (Reply : Request → Type) :=
  Interaction (Instruction Request) (Instruction.Reply Reply)

namespace Thread

variable {Request : Type} {Reply : Request → Type} {α : Type}

/-- Make an access. -/
def access (request : Request) : Thread Request Reply (Reply request) :=
  perform (Instruction.access request)

/-- Read the interrupt flag. -/
def saveFlag : Thread Request Reply Bool :=
  perform Instruction.saveFlag

/-- Clear the interrupt flag. -/
def disable : Thread Request Reply Unit :=
  perform Instruction.disable

/-- Set the interrupt flag. -/
def enable : Thread Request Reply Unit :=
  perform Instruction.enable

/-- Wait for an interrupt. -/
def halt : Thread Request Reply Unit :=
  perform Instruction.halt

/-- Run a program with interrupts disabled, and restore the flag. -/
def withoutInterrupts (body : Thread Request Reply α) : Thread Request Reply α := do
  let wasEnabled ← saveFlag
  if wasEnabled then disable
  let result ← body
  if wasEnabled then enable
  return result

end Thread

/-! ### The processor -/

/-- How a handler ends. -/
inductive Ending
  /-- It returns to what it interrupted. -/
  | returns
  /-- It never returns. -/
  | hangs
  deriving DecidableEq

/-- What is around the processor. -/
structure Board (σ Request : Type) (Reply : Request → Type) (ι : Type) where
  /-- The answer to an access. -/
  respond : σ → (request : Request) → Reply request × σ
  /-- What the devices do by themselves. -/
  Arrives : σ → σ → Prop
  /-- An interrupt is accepted with this vector. -/
  Accepts : σ → ι → σ → Prop
  /-- The handlers. -/
  handler : ι → Thread Request Reply Ending

/-- The processor with what is around it. -/
structure Preemptible (σ Request : Type) (Reply : Request → Type) (α : Type) where
  /-- The memory and the devices. -/
  shared : σ
  /-- The interrupt flag. -/
  enabled : Bool
  /-- The processor is halted. -/
  waiting : Bool
  /-- What is left of the thread. -/
  main : Thread Request Reply α
  /-- What is left of the handlers under way, the last one first, with the flags they restore. -/
  handlers : List (Thread Request Reply Ending × Bool)

/-- The processor before the first instruction of a thread. -/
def Preemptible.start {σ Request : Type} {Reply : Request → Type} {α : Type} (shared : σ)
    (enabled : Bool) (main : Thread Request Reply α) : Preemptible σ Request Reply α :=
  ⟨shared, enabled, false, main, []⟩

/-- What happens. -/
inductive Occurrence (ι : Type)
  /-- An instruction is executed. -/
  | executes
  /-- A device does something. -/
  | arrives
  /-- An interrupt is accepted. -/
  | accepts (vector : ι)
  /-- A handler returns. -/
  | returns

namespace Board

variable {σ Request : Type} {Reply : Request → Type} {ι α : Type}

/-- The effect of an instruction on the devices and the flag. -/
def perform (board : Board σ Request Reply ι) (state : σ × Bool) :
    (instruction : Instruction Request) → instruction.Reply Reply × (σ × Bool)
  | .access request =>
    ((board.respond state.1 request).1, (board.respond state.1 request).2, state.2)
  | .saveFlag => (state.2, state)
  | .disable => ((), state.1, false)
  | .enable => ((), state.1, true)
  | .halt => ((), state)

/-- One step of the processor. -/
inductive Step (board : Board σ Request Reply ι) :
    Preemptible σ Request Reply α → Occurrence ι → Preemptible σ Request Reply α → Prop
  /-- The thread executes an instruction. -/
  | main {shared : σ} {enabled : Bool} (instruction : Instruction Request)
      (next : instruction.Reply Reply → Thread Request Reply α) :
      Step board ⟨shared, enabled, false, .ask instruction next, []⟩ .executes
        ⟨(board.perform (shared, enabled) instruction).2.1,
          (board.perform (shared, enabled) instruction).2.2, instruction.waits,
          next (board.perform (shared, enabled) instruction).1, []⟩
  /-- A handler executes an instruction. -/
  | handler {shared : σ} {enabled flag : Bool} {thread : Thread Request Reply α}
      {handlers : List (Thread Request Reply Ending × Bool)} (instruction : Instruction Request)
      (next : instruction.Reply Reply → Thread Request Reply Ending) :
      Step board ⟨shared, enabled, false, thread, (.ask instruction next, flag) :: handlers⟩
        .executes
        ⟨(board.perform (shared, enabled) instruction).2.1,
          (board.perform (shared, enabled) instruction).2.2, instruction.waits, thread,
          (next (board.perform (shared, enabled) instruction).1, flag) :: handlers⟩
  /-- A handler returns. -/
  | returns {shared : σ} {enabled flag : Bool} {thread : Thread Request Reply α}
      {handlers : List (Thread Request Reply Ending × Bool)} :
      Step board ⟨shared, enabled, false, thread, (.done .returns, flag) :: handlers⟩ .returns
        ⟨shared, flag, false, thread, handlers⟩
  /-- A device does something. -/
  | arrives {shared shared' : σ} {enabled waiting : Bool} {thread : Thread Request Reply α}
      {handlers : List (Thread Request Reply Ending × Bool)}
      (harrives : board.Arrives shared shared') :
      Step board ⟨shared, enabled, waiting, thread, handlers⟩ .arrives
        ⟨shared', enabled, waiting, thread, handlers⟩
  /-- An interrupt is accepted. -/
  | accepts {shared shared' : σ} {waiting : Bool} {thread : Thread Request Reply α}
      {handlers : List (Thread Request Reply Ending × Bool)} {vector : ι}
      (haccepts : board.Accepts shared vector shared') :
      Step board ⟨shared, true, waiting, thread, handlers⟩ (.accepts vector)
        ⟨shared', false, false, thread, (board.handler vector, true) :: handlers⟩

/-- The processor on this board. -/
def machine (board : Board σ Request Reply ι) (α : Type) :
    Machine (Preemptible σ Request Reply α) (Occurrence ι) Unit :=
  ⟨fun state occurrence _ next ↦ board.Step state occurrence next⟩

/-! ### Rules for threads with interrupts disabled -/

/-- What may happen while interrupts are disabled. -/
def Disturbs (board : Board σ Request Reply ι) (before after : σ × Bool) : Prop :=
  board.Arrives before.1 after.1 ∧ before.2 = after.2

/-- With interrupts disabled. -/
def Off (condition : σ → Prop) (state : σ × Bool) : Prop :=
  condition state.1 ∧ state.2 = false

/-- With interrupts disabled, a thread leads from the precondition to the postcondition, and the
invariant holds at all times. -/
def Serves (board : Board σ Request Reply ι) (invariant pre : σ → Prop)
    (thread : Thread Request Reply α) (post : α → σ → Prop) : Prop :=
  Keeps board.Disturbs board.perform (Off invariant) (Off pre) thread fun result ↦ Off (post result)

section Serves

variable {board : Board σ Request Reply ι} {invariant pre pre' : σ → Prop}
  {thread : Thread Request Reply α} {post post' : α → σ → Prop} {β : Type}

theorem stable_off (hstable : Stable board.Arrives pre) : Stable board.Disturbs (Off pre) :=
  fun _ _ hdisturbs hpre ↦ ⟨hstable _ _ hdisturbs.1 hpre.1, hdisturbs.2 ▸ hpre.2⟩

theorem Serves.weaken (h : board.Serves invariant pre thread post)
    (hpre : ∀ state, pre' state → pre state)
    (hpost : ∀ result state, post result state → post' result state) :
    board.Serves invariant pre' thread post' :=
  Keeps.weaken h (fun _ hstate ↦ ⟨hpre _ hstate.1, hstate.2⟩)
    fun result _ hstate ↦ ⟨hpost result _ hstate.1, hstate.2⟩

theorem Serves.done {result : α} (hstable : Stable board.Arrives (post result))
    (hinvariant : ∀ state, post result state → invariant state)
    (hpre : ∀ state, pre state → post result state) :
    board.Serves invariant pre (pure result) post :=
  Keeps.done (stable_off hstable) (fun _ hstate ↦ ⟨hinvariant _ hstate.1, hstate.2⟩)
    fun _ hstate ↦ ⟨hpre _ hstate.1, hstate.2⟩

theorem Serves.bind {next : α → Thread Request Reply β} {middle : α → σ → Prop}
    {post : β → σ → Prop} (hfirst : board.Serves invariant pre thread middle)
    (hnext : ∀ value, board.Serves invariant (middle value) (next value) post) :
    board.Serves invariant pre (thread >>= next) post :=
  Keeps.bind hfirst hnext

/-- A precondition that something exists. -/
theorem Serves.of_exists {κ : Type} {pre : κ → σ → Prop}
    (h : ∀ index, board.Serves invariant (pre index) thread post) :
    board.Serves invariant (fun state ↦ ∃ index, pre index state) thread post :=
  fun state hstate ↦ Exists.elim hstate.1 fun index hindex ↦ h index state ⟨hindex, hstate.2⟩

/-- One access. -/
theorem Serves.access {request : Request} {post : Reply request → σ → Prop}
    (hstable : Stable board.Arrives pre) (hinvariant : ∀ state, pre state → invariant state)
    (hstable' : ∀ reply, Stable board.Arrives (post reply))
    (hinvariant' : ∀ reply state, post reply state → invariant state)
    (hpost : ∀ state, pre state →
      post (board.respond state request).1 (board.respond state request).2) :
    board.Serves invariant pre (Thread.access request) post := by
  refine Keeps.ask (stable_off hstable) (fun _ hstate ↦ ⟨hinvariant _ hstate.1, hstate.2⟩)
    fun reply ↦ Keeps.done (stable_off (hstable' reply))
      (fun _ hstate ↦ ⟨hinvariant' reply _ hstate.1, hstate.2⟩) ?_
  rintro state' ⟨state, ⟨hpre, hoff⟩, heq⟩
  obtain ⟨rfl, rfl⟩ := Prod.mk.inj heq
  exact ⟨hpost state.1 hpre, hoff⟩

/-- A section within a thread that has interrupts disabled is its body. -/
theorem Serves.withoutInterrupts (hstable : Stable board.Arrives pre)
    (hinvariant : ∀ state, pre state → invariant state)
    (hbody : board.Serves invariant pre thread post)
    (hstable' : ∀ result, Stable board.Arrives (post result))
    (hinvariant' : ∀ result state, post result state → invariant state) :
    board.Serves invariant pre (Thread.withoutInterrupts thread) post := by
  refine Keeps.perform_bind (stable_off hstable) (fun _ hstate ↦ ⟨hinvariant _ hstate.1, hstate.2⟩)
    fun wasEnabled ↦ ?_
  cases wasEnabled with
  | false =>
    refine Keeps.weaken (Keeps.bind hbody fun result ↦ Keeps.done (stable_off (hstable' result))
      (fun _ hstate ↦ ⟨hinvariant' result _ hstate.1, hstate.2⟩) fun _ h ↦ h) ?_ fun _ _ h ↦ h
    rintro state' ⟨state, hpre, heq⟩
    obtain ⟨_, rfl⟩ := Prod.mk.inj heq
    exact hpre
  | true =>
    rintro state' ⟨state, hpre, heq⟩
    have hflag : state.2 = true := congrArg Prod.fst heq
    exact absurd (hpre.2.symm.trans hflag) Bool.false_ne_true

end Serves

/-! ### Handlers as single steps -/

/-- A handler under way: what is left of it, after its interrupt was accepted. -/
def Handling (board : Board σ Request Reply ι) (before : σ) (vector : ι)
    (rest : Thread Request Reply Ending) (after : σ × Bool) : Prop :=
  ∃ accepted, board.Accepts before vector accepted ∧
    Evolves board.Disturbs board.perform (board.handler vector, (accepted, false)) (rest, after)

/-- What may happen between two instructions of the thread: a device does something, or an interrupt
is accepted and its handler runs until it returns. -/
inductive Interrupts (board : Board σ Request Reply ι) : σ × Bool → σ × Bool → Prop
  /-- A device does something. -/
  | arrives {shared shared' : σ} {enabled : Bool} (harrives : board.Arrives shared shared') :
      Interrupts board (shared, enabled) (shared', enabled)
  /-- An interrupt is handled. -/
  | handled {before : σ} {vector : ι} {after : σ × Bool}
      (hhandled : board.Handling before vector (.done .returns) after) :
      Interrupts board (before, true) (after.1, true)

/-- No handler sets the interrupt flag. -/
def Masked (board : Board σ Request Reply ι) : Prop :=
  ∀ vector, board.Serves (fun _ ↦ True) (fun _ ↦ True) (board.handler vector) fun _ _ ↦ True

/-- A state of the processor, seen from the thread: it has come to `main` from the start, with whole
handlers in between, and at most one handler is under way. -/
inductive Collapsed (board : Board σ Request Reply ι)
    (first : Thread Request Reply α × (σ × Bool)) : Preemptible σ Request Reply α → Prop
  /-- No handler is under way. -/
  | thread {shared : σ} {enabled waiting : Bool} {main : Thread Request Reply α}
      (hmain : Evolves board.Interrupts board.perform first (main, (shared, enabled))) :
      Collapsed board first ⟨shared, enabled, waiting, main, []⟩
  /-- One handler is under way, with interrupts disabled. -/
  | handler {before shared : σ} {vector : ι} {waiting : Bool} {main : Thread Request Reply α}
      {rest : Thread Request Reply Ending}
      (hmain : Evolves board.Interrupts board.perform first (main, (before, true)))
      (hhandler : board.Handling before vector rest (shared, false)) :
      Collapsed board first ⟨shared, false, waiting, main, [(rest, true)]⟩

section Collapse

variable {board : Board σ Request Reply ι} {first : Thread Request Reply α × (σ × Bool)}
  {state next : Preemptible σ Request Reply α} {occurrence : Occurrence ι}

/-- A handler under way has the interrupt flag clear. -/
theorem Masked.handling (hmasked : board.Masked) {before : σ} {vector : ι}
    {rest : Thread Request Reply Ending} {after : σ × Bool}
    (h : board.Handling before vector rest after) : after.2 = false := by
  obtain ⟨accepted, _, hruns⟩ := h
  exact (hmasked vector (accepted, false) ⟨trivial, rfl⟩ rest after hruns).1.2

/-- A handler under way makes a step. -/
theorem Handling.tail {before : σ} {vector : ι} {rest rest' : Thread Request Reply Ending}
    {after after' : σ × Bool} (h : board.Handling before vector rest after)
    (hstep : Evolve board.Disturbs board.perform (rest, after) (rest', after')) :
    board.Handling before vector rest' after' := by
  obtain ⟨accepted, haccepts, hruns⟩ := h
  exact ⟨accepted, haccepts, hruns.tail hstep⟩

/-- A step of the processor is a step of the thread, of the handler under way, or takes one handler
in or out. -/
theorem Collapsed.step (hmasked : board.Masked) (h : board.Collapsed first state)
    (hstep : board.Step state occurrence next) : board.Collapsed first next := by
  cases h with
  | thread hmain =>
    cases hstep with
    | main instruction continuation =>
      exact .thread (hmain.tail (.asked instruction continuation _))
    | arrives harrives => exact .thread (hmain.tail (.disturbed _ (.arrives harrives)))
    | accepts haccepts => exact .handler hmain ⟨_, haccepts, .refl⟩
  | handler hmain hhandler =>
    cases hstep with
    | handler instruction continuation =>
      have hnext := hhandler.tail (.asked instruction continuation _)
      generalize board.perform _ instruction = performed at hnext ⊢
      obtain ⟨reply, shared', enabled'⟩ := performed
      obtain rfl : enabled' = false := hmasked.handling hnext
      exact .handler hmain hnext
    | returns => exact .thread (hmain.tail (.disturbed _ (.handled hhandler)))
    | arrives harrives => exact .handler hmain (hhandler.tail (.disturbed _ ⟨harrives, rfl⟩))

end Collapse

/-! ### Rules for the thread that is interrupted -/

/-- With interrupts enabled. -/
def On (condition : σ → Prop) (state : σ × Bool) : Prop :=
  condition state.1 ∧ state.2 = true

/-- Neither the devices nor the handlers destroy a condition. -/
structure Endures (board : Board σ Request Reply ι) (condition : σ → Prop) : Prop where
  arrives : Stable board.Arrives condition
  handled : ∀ vector, board.Serves (fun _ ↦ True)
    (fun accepted ↦ ∃ before, condition before ∧ board.Accepts before vector accepted)
    (board.handler vector) fun ending state ↦ ending = .returns → condition state

/-- A thread with interrupts enabled leads from the precondition to the postcondition. The first
invariant holds while interrupts are enabled, the second while they are disabled. -/
def Holds (board : Board σ Request Reply ι) (invariant masked pre : σ → Prop)
    (thread : Thread Request Reply α) (post : α → σ → Prop) : Prop :=
  Keeps board.Interrupts board.perform (fun state ↦ On invariant state ∨ Off masked state) (On pre)
    thread fun result ↦ On (post result)

section Holds

variable {board : Board σ Request Reply ι} {invariant masked pre pre' : σ → Prop}
  {thread : Thread Request Reply α} {post post' : α → σ → Prop} {β : Type}

/-- Interrupts do not matter to a thread that has them disabled. -/
theorem Serves.interrupts (h : board.Serves invariant pre thread post) :
    Keeps board.Interrupts board.perform (Off invariant) (Off pre) thread
      fun result ↦ Off (post result) := by
  intro state hstate rest state' hrun
  -- Every state of the run has the flag clear, so nothing but the devices interferes.
  suffices hsteps : Evolves board.Disturbs board.perform (thread, state) (rest, state') from
    h state hstate rest state' hsteps
  generalize hlast : (rest, state') = last at hrun
  induction hrun generalizing rest state' with
  | refl =>
    obtain ⟨rfl, rfl⟩ := Prod.mk.inj hlast
    exact .refl
  | tail _ hstep ih =>
    subst hlast
    have hbefore := ih _ _ rfl
    have hoff := (h state hstate _ _ hbefore).1.2
    cases hstep with
    | disturbed _ hinterrupts =>
      cases hinterrupts with
      | arrives harrives => exact hbefore.tail (.disturbed _ ⟨harrives, rfl⟩)
      | handled hhandled => exact absurd hoff Bool.true_eq_false.mp
    | asked instruction next _ => exact hbefore.tail (.asked instruction next _)

theorem Endures.stable (h : board.Endures pre) : Stable board.Interrupts (On pre) := by
  intro state state' hinterrupts hpre
  cases hinterrupts with
  | arrives harrives => exact ⟨h.arrives _ _ harrives hpre.1, hpre.2⟩
  | handled hhandled =>
    obtain ⟨accepted, haccepts, hruns⟩ := hhandled
    have hpost := (h.handled _ (accepted, false) ⟨⟨_, hpre.1, haccepts⟩, rfl⟩ _ _ hruns).2 _ rfl
    exact ⟨hpost.1 rfl, rfl⟩

theorem stable_off_interrupts (hstable : Stable board.Arrives pre) :
    Stable board.Interrupts (Off pre) := by
  intro state state' hinterrupts hpre
  cases hinterrupts with
  | arrives harrives => exact ⟨hstable _ _ harrives hpre.1, hpre.2⟩
  | handled hhandled => exact absurd hpre.2 Bool.true_eq_false.mp

theorem Holds.weaken (h : board.Holds invariant masked pre thread post)
    (hpre : ∀ state, pre' state → pre state)
    (hpost : ∀ result state, post result state → post' result state) :
    board.Holds invariant masked pre' thread post' :=
  Keeps.weaken h (fun _ hstate ↦ ⟨hpre _ hstate.1, hstate.2⟩)
    fun result _ hstate ↦ ⟨hpost result _ hstate.1, hstate.2⟩

/-- A fact that the precondition has. -/
theorem Holds.assume {fact : Prop} (h : fact → board.Holds invariant masked pre thread post) :
    board.Holds invariant masked (fun state ↦ fact ∧ pre state) thread post :=
  fun state hstate ↦ h hstate.1.1 state ⟨hstate.1.2, hstate.2⟩

theorem Holds.done {result : α} (hendures : board.Endures (post result))
    (hinvariant : ∀ state, post result state → invariant state)
    (hpre : ∀ state, pre state → post result state) :
    board.Holds invariant masked pre (pure result) post :=
  Keeps.done hendures.stable (fun _ hstate ↦ .inl ⟨hinvariant _ hstate.1, hstate.2⟩)
    fun _ hstate ↦ ⟨hpre _ hstate.1, hstate.2⟩

theorem Holds.bind {next : α → Thread Request Reply β} {middle : α → σ → Prop}
    {post : β → σ → Prop} (hfirst : board.Holds invariant masked pre thread middle)
    (hnext : ∀ value, board.Holds invariant masked (middle value) (next value) post) :
    board.Holds invariant masked pre (thread >>= next) post :=
  Keeps.bind hfirst hnext

/-- One access, with interrupts enabled. -/
theorem Holds.access {request : Request} {post : Reply request → σ → Prop}
    (hendures : board.Endures pre) (hinvariant : ∀ state, pre state → invariant state)
    (hendures' : ∀ reply, board.Endures (post reply))
    (hinvariant' : ∀ reply state, post reply state → invariant state)
    (hpost : ∀ state, pre state →
      post (board.respond state request).1 (board.respond state request).2) :
    board.Holds invariant masked pre (Thread.access request) post := by
  refine Keeps.ask hendures.stable (fun _ hstate ↦ .inl ⟨hinvariant _ hstate.1, hstate.2⟩)
    fun reply ↦ Keeps.done (hendures' reply).stable
      (fun _ hstate ↦ .inl ⟨hinvariant' reply _ hstate.1, hstate.2⟩) ?_
  rintro state' ⟨state, ⟨hpre, hon⟩, heq⟩
  obtain ⟨rfl, rfl⟩ := Prod.mk.inj heq
  exact ⟨hpost state.1 hpre, hon⟩

/-- The processor waits. -/
theorem Holds.halt (hendures : board.Endures pre)
    (hinvariant : ∀ state, pre state → invariant state) :
    board.Holds invariant masked pre Thread.halt fun _ ↦ pre := by
  refine Keeps.ask hendures.stable (fun _ hstate ↦ .inl ⟨hinvariant _ hstate.1, hstate.2⟩)
    fun _ ↦ Keeps.done hendures.stable
      (fun _ hstate ↦ .inl ⟨hinvariant _ hstate.1, hstate.2⟩) ?_
  rintro state' ⟨state, hpre, heq⟩
  obtain ⟨_, rfl⟩ := Prod.mk.inj heq
  exact hpre

/-- A section runs with interrupts disabled. -/
theorem Holds.withoutInterrupts (hendures : board.Endures pre)
    (hinvariant : ∀ state, pre state → invariant state)
    (hbody : board.Serves masked pre thread post)
    (hendures' : ∀ result, board.Endures (post result))
    (hinvariant' : ∀ result state, post result state → invariant state)
    (hmasked' : ∀ result state, post result state → masked state) :
    board.Holds invariant masked pre (Thread.withoutInterrupts thread) post := by
  have hon (state : σ × Bool) (hstate : On pre state) : On invariant state ∨ Off masked state :=
    .inl ⟨hinvariant _ hstate.1, hstate.2⟩
  refine Keeps.perform_bind hendures.stable hon fun wasEnabled ↦ ?_
  cases wasEnabled with
  | false =>
    rintro state' ⟨state, hpre, heq⟩
    have hflag : state.2 = false := congrArg Prod.fst heq
    exact absurd (hflag.symm.trans hpre.2) Bool.false_ne_true
  | true =>
    have hsaved (reply : Bool) (state' : σ × Bool) (h : ∃ state, On pre state ∧
        board.perform state .saveFlag = (reply, state')) : On pre state' := by
      obtain ⟨state, hpre, heq⟩ := h
      obtain ⟨_, rfl⟩ := Prod.mk.inj heq
      exact hpre
    have hdisabled (reply : Unit) (state' : σ × Bool) (h : ∃ state, On pre state ∧
        board.perform state .disable = (reply, state')) : Off pre state' := by
      obtain ⟨state, hpre, heq⟩ := h
      obtain ⟨_, rfl⟩ := Prod.mk.inj heq
      exact ⟨hpre.1, rfl⟩
    refine Keeps.weaken (Keeps.perform_bind hendures.stable hon fun _ ↦ Keeps.weaken
      (Keeps.bind (hbody.interrupts.mono fun _ ↦ .inr) fun result ↦ ?_) (hdisabled _)
      fun _ _ h ↦ h) (hsaved true) fun _ _ h ↦ h
    refine Keeps.perform_bind (stable_off_interrupts (hendures' result).arrives)
      (fun _ hstate ↦ .inr ⟨hmasked' result _ hstate.1, hstate.2⟩) fun _ ↦
      Keeps.done (hendures' result).stable
        (fun _ hstate ↦ .inl ⟨hinvariant' result _ hstate.1, hstate.2⟩) ?_
    rintro state' ⟨state, hpost, heq⟩
    obtain ⟨_, rfl⟩ := Prod.mk.inj heq
    exact ⟨hpost.1, rfl⟩

end Holds

/-! ### A thread that starts with interrupts disabled -/

section Sequence

variable {board : Board σ Request Reply ι} {β : Type}

end Sequence

end Board

end RustBL
