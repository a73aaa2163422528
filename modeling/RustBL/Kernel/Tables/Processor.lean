import RustBL.Library.Fields

/-!
# The tables of the processor

A processor in 64-bit mode, as far as interrupts go: the memory, the registers that say where the
descriptor tables are, the task register, and the segment selectors. Everything runs at privilege
level 0. The registers are loaded by instructions that check the descriptor they are given, and each
of these can fault.

`deliver` is the delivery of one vector. The processor reads the gate of the vector, the code
segment the gate names, and the stack, from memory; it pushes the frame and enters the handler. The
memory behind a stack pointer may not accept the frame, which `stackFault` says. `raise` is what the
processor makes of a vector when its delivery faults: the fault is delivered in turn, as a double
fault if both are of the kinds that may not follow each other, and a double fault that cannot be
delivered shuts the processor down.
-/

set_option autoImplicit false
set_option relaxedAutoImplicit false

namespace RustBL

/-! ### Registers -/

/-- GDTR or IDTR. -/
structure TableRegister where
  /-- The offset of the last byte of the table. -/
  limit : ℕ
  /-- The address of the table. -/
  base : ℕ

/-- The task register. -/
structure TaskRegister where
  /-- The selector it was loaded with. -/
  selector : ℕ
  /-- The offset of the last byte of the segment. -/
  limit : ℕ
  /-- The address of the segment. -/
  base : ℕ

/-- The processor. -/
structure Processor where
  /-- The memory. -/
  mem : Mem
  /-- GDTR. -/
  gdtr : TableRegister
  /-- IDTR. -/
  idtr : TableRegister
  /-- The task register. -/
  tr : TaskRegister
  /-- The code segment. -/
  cs : ℕ
  /-- The data segment. -/
  ds : ℕ
  /-- The extra segment. -/
  es : ℕ
  /-- The stack segment. -/
  ss : ℕ

/-- The exceptions that loading a segment or delivering a vector may raise. -/
inductive Exception
  | invalidTss
  | notPresent
  | stackSegment
  | generalProtection
  | pageFault
  deriving DecidableEq, Repr

/-- The vector of an exception. -/
def Exception.vector : Exception → ℕ
  | .invalidTss => 10
  | .notPresent => 11
  | .stackSegment => 12
  | .generalProtection => 13
  | .pageFault => 14

/-! ### Descriptors -/

/-- A descriptor of a table, as the word that the processor reads. -/
structure Descriptor where
  /-- The word. -/
  word : ℕ

namespace Descriptor

section Bits

variable (descriptor : Descriptor)

/-- The type field: of a segment, with bit 3 for code, bit 1 for a writable data segment. -/
def kind : ℕ := field descriptor.word 40 4
/-- It describes a segment, and not a gate or a task. -/
def isSegment : Bool := descriptor.word.testBit 44
/-- The privilege level. -/
def level : ℕ := field descriptor.word 45 2
/-- The present bit. -/
def present : Bool := descriptor.word.testBit 47
/-- The 64-bit code flag. -/
def long : Bool := descriptor.word.testBit 53
/-- The default operand size, which 64-bit code has clear. -/
def wide : Bool := descriptor.word.testBit 54
/-- The limit is counted in pages. -/
def inPages : Bool := descriptor.word.testBit 55

/-- The base address of a descriptor of sixteen bytes. -/
def base : ℕ :=
  field descriptor.word 16 24 + 2 ^ 24 * field descriptor.word 56 8 +
    2 ^ 32 * field descriptor.word 64 32

/-- The limit. -/
def limit : ℕ :=
  let limit := field descriptor.word 0 16 + 2 ^ 16 * field descriptor.word 48 4
  if descriptor.inPages then limit * 4096 + 4095 else limit

/-- The selector of a gate. -/
def selector : ℕ := field descriptor.word 16 16
/-- The interrupt stack of a gate. -/
def ist : ℕ := field descriptor.word 32 3

/-- The offset of a gate. -/
def offset : ℕ :=
  field descriptor.word 0 16 + 2 ^ 16 * field descriptor.word 48 16 +
    2 ^ 32 * field descriptor.word 64 32

/-- A code segment. -/
def isCode : Bool := descriptor.isSegment && descriptor.kind.testBit 3
/-- A data segment. -/
def isData : Bool := descriptor.isSegment && !descriptor.kind.testBit 3

end Bits

end Descriptor

namespace Processor

variable (p : Processor)

/-- The descriptor of `size` bytes that a selector names. -/
def descriptor (selector size : ℕ) : Option Descriptor :=
  if selector / 8 = 0 ∨ selector.testBit 2 ∨ p.gdtr.limit < selector / 8 * 8 + (size - 1) then none
  else some ⟨p.mem.load (p.gdtr.base + selector / 8 * 8) size⟩

/-- The checks of a code segment that runs 64-bit code. -/
def codeSegment (selector : ℕ) : Except Exception Unit :=
  match p.descriptor selector 8 with
  | none => throw .generalProtection
  | some segment =>
    if ¬ segment.isCode ∨ segment.level ≠ 0 ∨ ¬ segment.long ∨ segment.wide then
      throw .generalProtection
    else if ¬ segment.present then throw .notPresent
    else return ()

/-! ### Instructions -/

/-- The operand of `lgdt` and `lidt`. -/
def tableRegister (m : Mem) (addr : ℕ) : TableRegister :=
  ⟨m.load addr 2, m.load (addr + 2) 8⟩

/-- `lgdt [addr]`. -/
def lgdt (addr : ℕ) : Processor :=
  { p with gdtr := tableRegister p.mem addr }

/-- `lidt [addr]`. -/
def lidt (addr : ℕ) : Processor :=
  { p with idtr := tableRegister p.mem addr }

/-- `retfq` to the next instruction, with a new code segment. -/
def loadCs (selector : ℕ) : Except Exception Processor := do
  p.codeSegment selector
  return { p with cs := selector }

/-- The checks of a data segment, which must be writable for a stack. -/
def dataSegment (selector : ℕ) (stack : Bool) : Except Exception Unit :=
  match p.descriptor selector 8 with
  | none => throw .generalProtection
  | some segment =>
    if ¬ segment.isData ∨ segment.level ≠ 0 ∨ (stack ∧ ¬ segment.kind.testBit 1) then
      throw .generalProtection
    else if ¬ segment.present then throw (if stack then .stackSegment else .notPresent)
    else return ()

/-- `mov ds, selector`. -/
def loadDs (selector : ℕ) : Except Exception Processor := do
  p.dataSegment selector false
  return { p with ds := selector }

/-- `mov es, selector`. -/
def loadEs (selector : ℕ) : Except Exception Processor := do
  p.dataSegment selector false
  return { p with es := selector }

/-- `mov ss, selector`. -/
def loadSs (selector : ℕ) : Except Exception Processor := do
  p.dataSegment selector true
  return { p with ss := selector }

/-- `ltr selector`: the task register is loaded from an available task descriptor, which is marked
busy in memory. -/
def ltr (selector : ℕ) : Except Exception Processor :=
  match p.descriptor selector 16 with
  | none => throw .generalProtection
  | some task =>
    if task.isSegment ∨ task.kind ≠ 0b1001 ∨ field task.word 104 5 ≠ 0 then
      throw .generalProtection
    else if ¬ task.present then throw .notPresent
    else return { p with
      mem := p.mem.store (p.gdtr.base + selector / 8 * 8) 16 (task.word ||| 2 ^ 41)
      tr := ⟨selector, task.limit, task.base⟩ }

/-! ### Delivery -/

/-- What an interrupt finds: where the code was, its flags and its stack. -/
structure Interrupted where
  /-- The instruction pointer. -/
  rip : ℕ
  /-- The flags. -/
  rflags : ℕ
  /-- The stack pointer. -/
  rsp : ℕ

/-- A handler on its first instruction. -/
structure Entered where
  /-- The memory, with the frame in it. -/
  mem : Mem
  /-- The instruction pointer. -/
  rip : ℕ
  /-- The code segment. -/
  cs : ℕ
  /-- The stack pointer. -/
  rsp : ℕ
  /-- The interrupt flag was cleared. -/
  masked : Bool

/-- Push a word. -/
def push (stack : Mem × ℕ) (value : ℕ) : Mem × ℕ :=
  let rsp := (stack.2 + 2 ^ 64 - 8) % 2 ^ 64
  (stack.1.store rsp 8 value, rsp)

/-- The vectors that push an error code. -/
def pushesErrorCode (vector : ℕ) : Bool :=
  vector = 8 || (10 ≤ vector && vector ≤ 14) || vector = 17 || vector = 21 || vector = 29 ||
    vector = 30

/-- The words of the frame, in the order in which they are pushed. -/
def frameWords (vector errorCode : ℕ) (interrupted : Interrupted) : List ℕ :=
  [p.ss, interrupted.rsp, interrupted.rflags, p.cs, interrupted.rip] ++
    if pushesErrorCode vector then [errorCode] else []

/-- The gate of a vector. -/
def gate (vector : ℕ) : Except Exception Descriptor :=
  if p.idtr.limit < 16 * vector + 15 then throw .generalProtection
  else
    let gate : Descriptor := ⟨p.mem.load (p.idtr.base + 16 * vector) 16⟩
    if gate.isSegment ∨ (gate.kind ≠ 0b1110 ∧ gate.kind ≠ 0b1111) then throw .generalProtection
    else if ¬ gate.present then throw .notPresent
    else return gate

/-- The stack pointer that a gate asks for: the interrupted one, or one of the task segment. -/
def gateStack (ist rsp : ℕ) : Except Exception ℕ :=
  if ist = 0 then return rsp
  else if p.tr.limit < 8 * ist + 35 then throw .invalidTss
  else return p.mem.load (p.tr.base + 8 * ist + 28) 8

/-- Deliver a vector: `stackFault` says what happens to a frame below a stack pointer. -/
def deliver (stackFault : ℕ → Option Exception) (vector errorCode : ℕ)
    (interrupted : Interrupted) : Except Exception Entered := do
  let gate ← p.gate vector
  p.codeSegment gate.selector
  let rsp ← p.gateStack gate.ist interrupted.rsp
  let top := rsp / 16 * 16
  match stackFault top with
  | some fault => throw fault
  | none =>
    let (mem, rsp) := (p.frameWords vector errorCode interrupted).foldl push (p.mem, top)
    -- An interrupt gate masks interrupts, a trap gate does not.
    return ⟨mem, gate.offset, gate.selector, rsp, gate.kind = 0b1110⟩

/-! ### Faults of a delivery -/

/-- How a vector counts when its delivery faults. -/
inductive Severity
  | benign
  | contributory
  | pageFault
  | doubleFault
  deriving DecidableEq, Repr

/-- The severity of a vector. -/
def severity (vector : ℕ) : Severity :=
  if vector = 8 then .doubleFault
  else if vector = 14 ∨ vector = 20 then .pageFault
  else if vector = 0 ∨ (10 ≤ vector ∧ vector ≤ 13) ∨ vector = 21 then .contributory
  else .benign

/-- The vector that follows when the delivery of a vector faults, or none when the processor shuts
down. -/
def escalate (vector : ℕ) (fault : Exception) : Option ℕ :=
  match severity vector with
  | .benign => some fault.vector
  | .contributory => some (if fault = .pageFault then 14 else 8)
  | .pageFault => some 8
  | .doubleFault => none

/-- How the processor ends up with a vector. -/
inductive Raised
  /-- In the handler of this vector. -/
  | handled (vector : ℕ) (entered : Entered)
  /-- Shut down, which resets the machine. -/
  | shutdown

/-- Raise a vector: its delivery, and those of the faults that follow, each with its error code. -/
def raise (stackFault : ℕ → Option Exception) (errorCode : ℕ → ℕ) (interrupted : Interrupted) :
    ℕ → ℕ → Raised
  | 0, _ => .shutdown
  | deliveries + 1, vector =>
    match p.deliver stackFault vector (errorCode vector) interrupted with
    | .ok entered => .handled vector entered
    | .error fault =>
      match escalate vector fault with
      | none => .shutdown
      | some next => raise stackFault errorCode interrupted deliveries next

end Processor

end RustBL
