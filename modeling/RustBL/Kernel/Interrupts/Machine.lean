import RustBL.Library.Runs
import Mathlib.Logic.Relation

/-!
# Interrupts on one processor

A processor runs one thread of control at a time. `Program` is what the kernel and its handlers are
made of: instructions on private registers and shared state, in sequence, in branches and loops, and
in calls of `without_interrupts` nested to any depth. `Context.advance` executes one instruction; a
call of `without_interrupts` is laid out as the instructions of its body in the source, so that an
interrupt may arrive between any two of them.

`cpuMachine` adds the interrupts. While the interrupt flag is set any handler may be entered before
the next instruction: the flags and the interrupted thread are kept, the flag is cleared, and the
return restores both. `atomicMachine` is what the kernel is meant to be: every section and every
handler is one step.
-/

set_option autoImplicit false
set_option relaxedAutoImplicit false

namespace RustBL

/-! ### The flags register -/

/-- RFLAGS. -/
abbrev Flags := BitVec 64

/-- Bit 9 of RFLAGS, the interrupt-enable flag. -/
def interruptFlag : Flags :=
  1 <<< 9

/-- `(flags & (1 << 9)) != 0`. -/
def isEnabled (flags : Flags) : Bool :=
  flags &&& interruptFlag != 0

/-- `cli`. -/
def cli (flags : Flags) : Flags :=
  flags &&& ~~~interruptFlag

/-- `sti`. -/
def sti (flags : Flags) : Flags :=
  flags ||| interruptFlag

@[simp] theorem isEnabled_cli (flags : Flags) : isEnabled (cli flags) = false := by
  have hbit : (cli flags &&& interruptFlag) = 0#64 := by
    ext i
    simp only [cli, BitVec.getElem_and, BitVec.getElem_not, BitVec.getElem_zero]
    cases interruptFlag[i] <;> simp
  rw [isEnabled, hbit]
  rfl

@[simp] theorem isEnabled_sti (flags : Flags) : isEnabled (sti flags) = true := by
  have hbit : (sti flags &&& interruptFlag) = interruptFlag := by
    ext i
    simp only [sti, BitVec.getElem_and, BitVec.getElem_or]
    cases interruptFlag[i] <;> simp
  rw [isEnabled, hbit]
  rfl

/-! ### Programs -/

/-- A program over private registers and shared state. -/
inductive Program (ρ σ : Type)
  /-- One instruction. -/
  | step (effect : ρ × σ → ρ × σ)
  /-- One program after the other. -/
  | seq (first second : Program ρ σ)
  /-- A branch on the registers. -/
  | branch (cond : ρ → Bool) (yes no : Program ρ σ)
  /-- A loop with its test in the registers. -/
  | loop (cond : ρ → Bool) (body : Program ρ σ)
  /-- `without_interrupts(body)`. -/
  | withoutInterrupts (body : Program ρ σ)

/-- What a thread has still to execute. -/
inductive Item (ρ σ : Type)
  /-- A program. -/
  | run (program : Program ρ σ)
  /-- `pushfq`. -/
  | pushfq
  /-- `pop {flags}`, and `was_enabled` from it. -/
  | popFlags
  /-- `if was_enabled { cli }`. -/
  | cliIfEnabled
  /-- `if was_enabled { sti }`, at the end of a section. -/
  | stiIfEnabled

/-- A thread of control. -/
structure Context (ρ σ : Type) where
  /-- The registers. -/
  regs : ρ
  /-- What it has still to execute. -/
  code : List (Item ρ σ)
  /-- The flags pushed and not popped. -/
  stack : List Flags
  /-- `was_enabled` of the sections it is in, the innermost first. -/
  wasEnabled : List Bool

section Execution

variable {ρ σ ι : Type}

/-- The first instruction of a program: the items that replace it, the registers and the shared
state. -/
def Program.unfold (regs : ρ) (shared : σ) : Program ρ σ → List (Item ρ σ) × ρ × σ
  | .step effect => ([], effect (regs, shared))
  | .seq first second => ([.run first, .run second], regs, shared)
  | .branch cond yes no => ([.run (if cond regs then yes else no)], regs, shared)
  | .loop cond body => (if cond regs then [.run body, .run (.loop cond body)] else [], regs, shared)
  | .withoutInterrupts body =>
    ([.pushfq, .popFlags, .cliIfEnabled, .run body, .stiIfEnabled], regs, shared)

/-- Execute one instruction of a thread. -/
def Context.advance (flags : Flags) (shared : σ) (context : Context ρ σ) :
    Option (Flags × σ × Context ρ σ) :=
  match context.code with
  | [] => none
  | .run program :: code =>
    let (items, regs, shared) := program.unfold context.regs shared
    some (flags, shared, { context with regs, code := items ++ code })
  | .pushfq :: code => some (flags, shared, { context with code, stack := flags :: context.stack })
  | .popFlags :: code =>
    match context.stack with
    | [] => none
    | saved :: stack => some (flags, shared,
        { context with code, stack, wasEnabled := isEnabled saved :: context.wasEnabled })
  | .cliIfEnabled :: code =>
    match context.wasEnabled with
    | [] => none
    | was :: _ => some (if was then cli flags else flags, shared, { context with code })
  | .stiIfEnabled :: code =>
    match context.wasEnabled with
    | [] => none
    | was :: wasEnabled =>
      some (if was then sti flags else flags, shared, { context with code, wasEnabled })

/-- The processor. -/
structure Cpu (ρ σ : Type) where
  /-- RFLAGS. -/
  rflags : Flags
  /-- The shared state. -/
  shared : σ
  /-- The thread that runs. -/
  running : Context ρ σ
  /-- The threads that were interrupted with their flags, the last one first. -/
  interrupted : List (Flags × Context ρ σ)

/-- What happens next. -/
inductive Event (ι : Type)
  /-- The running thread executes an instruction. -/
  | execute
  /-- An interrupt arrives. -/
  | interrupt (vector : ι)

namespace Cpu

/-- The processor before the first instruction of a program. -/
def start (program : Program ρ σ) (rflags : Flags) (regs : ρ) (shared : σ) : Cpu ρ σ :=
  ⟨rflags, shared, ⟨regs, [.run program], [], []⟩, []⟩

/-- One step of the processor. A handler is entered through an interrupt gate. -/
def step (handlers : ι → Program ρ σ) (s : Cpu ρ σ) : Event ι → Option (Cpu ρ σ)
  | .execute =>
    match s.running.code with
    | [] =>
      match s.interrupted with
      | [] => none
      -- `iretq` at the end of a handler.
      | (rflags, running) :: interrupted => some ⟨rflags, s.shared, running, interrupted⟩
    | _ :: _ => (s.running.advance s.rflags s.shared).map fun (rflags, shared, running) ↦
        ⟨rflags, shared, running, s.interrupted⟩
  | .interrupt vector =>
    if isEnabled s.rflags then
      some ⟨cli s.rflags, s.shared, ⟨s.running.regs, [.run (handlers vector)], [], []⟩,
        (s.rflags, s.running) :: s.interrupted⟩
    else none

end Cpu

/-- The processor with these handlers. -/
def cpuMachine (handlers : ι → Program ρ σ) : Machine (Cpu ρ σ) (Event ι) Unit :=
  ⟨fun s event _ next ↦ s.step handlers event = some next⟩

/-! ### Sections and handlers as single steps -/

/-- One instruction of a thread that runs alone, where the interrupt flag does not matter. -/
def soloStep : List (Item ρ σ) × ρ × σ → Option (List (Item ρ σ) × ρ × σ)
  | ([], _, _) => none
  | (.run program :: code, regs, shared) =>
    let (items, after) := program.unfold regs shared
    some (items ++ code, after)
  | (.pushfq :: code, after) => some (code, after)
  | (.popFlags :: code, after) => some (code, after)
  | (.cliIfEnabled :: code, after) => some (code, after)
  | (.stiIfEnabled :: code, after) => some (code, after)

/-- The executions of a thread that runs alone. -/
def Solo : List (Item ρ σ) × ρ × σ → List (Item ρ σ) × ρ × σ → Prop :=
  Relation.ReflTransGen fun before after ↦ soloStep before = some after

/-- The processor, when sections and handlers are single steps. -/
structure AtomicState (ρ σ : Type) where
  /-- Whether interrupts are enabled between the steps. -/
  enabled : Bool
  /-- The registers of the program. -/
  regs : ρ
  /-- The shared state. -/
  shared : σ
  /-- The programs that follow each other. -/
  code : List (Program ρ σ)

/-- One step, when sections and handlers are single steps. -/
inductive AtomicStep (handlers : ι → Program ρ σ) :
    AtomicState ρ σ → Event ι → AtomicState ρ σ → Prop
  /-- An instruction outside any section; a section does not unfold to programs alone. -/
  | plain {enabled : Bool} {program : Program ρ σ} {programs rest : List (Program ρ σ)}
      {regs regs' : ρ} {shared shared' : σ}
      (hunfold : program.unfold regs shared = (programs.map .run, regs', shared')) :
      AtomicStep handlers ⟨enabled, regs, shared, program :: rest⟩ .execute
        ⟨enabled, regs', shared', programs ++ rest⟩
  /-- A section, from its first step to its last. -/
  | critical {enabled : Bool} {body : Program ρ σ} {rest : List (Program ρ σ)} {regs regs' : ρ}
      {shared shared' : σ} (hsolo : Solo ([.run body], regs, shared) ([], regs', shared')) :
      AtomicStep handlers ⟨enabled, regs, shared, .withoutInterrupts body :: rest⟩ .execute
        ⟨enabled, regs', shared', rest⟩
  /-- A handler, from its entry to its return. -/
  | handler {vector : ι} {code : List (Program ρ σ)} {regs regs' : ρ} {shared shared' : σ}
      (hsolo : Solo ([.run (handlers vector)], regs, shared) ([], regs', shared')) :
      AtomicStep handlers ⟨true, regs, shared, code⟩ (.interrupt vector) ⟨true, regs, shared', code⟩

/-- The processor with these handlers, when sections and handlers are single steps. -/
def atomicMachine (handlers : ι → Program ρ σ) : Machine (AtomicState ρ σ) (Event ι) Unit :=
  ⟨fun s event _ next ↦ AtomicStep handlers s event next⟩

/-- The processor before the first instruction of a program, when sections and handlers are single
steps. -/
def AtomicState.start (program : Program ρ σ) (rflags : Flags) (regs : ρ) (shared : σ) :
    AtomicState ρ σ :=
  ⟨isEnabled rflags, regs, shared, [program]⟩

end Execution

end RustBL
