import RustBL.Kernel.Console.Screen
import RustBL.Kernel.Interrupts.Pic
import RustBL.Kernel.Ps2.Configuration
import RustBL.Kernel.Tables.Delivery
import RustBL.Library.Preemption

/-!
# The kernel with its interrupts

The part of the kernel that runs with interrupts enabled: the handlers of `idt.rs`, the keyboard
driver, `_print`, and `kernel_main` from the line that enables interrupts to its verdict. The two
loops of `kernel_main` that wait for an interrupt have a number of turns as an argument; no turn
more is made when it runs out.

`Devices` is the board: the pair of interrupt controllers, the controller of the keyboard, the
counters, and what the serial port and the console were given. It also keeps a history of what has
happened, which no program reads. Lines rise, scancodes arrive and interrupts are accepted at any
time.
-/

set_option autoImplicit false
set_option relaxedAutoImplicit false

namespace RustBL

open Interaction

/-! ### Programs of the kernel -/

/-- The static variables that handlers share with the kernel. -/
inductive Counter
  /-- `TICKS`. -/
  | ticks
  /-- `KEY_EVENTS_SEEN`. -/
  | keyEventsSeen

/-- What a program of the kernel asks for. -/
inductive KernelRequest
  /-- An access to a port. -/
  | port (access : PortRequest)
  /-- Load a counter. -/
  | load (counter : Counter)
  /-- Store a counter. -/
  | store (counter : Counter) (value : UInt64)
  /-- `serial::write_byte`. -/
  | serial (byte : UInt8)
  /-- `console::write_byte`. -/
  | console (byte : UInt8)
  /-- A write to the exit port. -/
  | exit (value : UInt32)

/-- What it is given. -/
abbrev KernelRequest.Reply : KernelRequest → Type
  | .port access => access.Reply
  | .load _ => UInt64
  | .store _ _ => Unit
  | .serial _ => Unit
  | .console _ => Unit
  | .exit _ => Unit

/-- A program of the kernel. -/
abbrev KernelThread := Thread KernelRequest KernelRequest.Reply

/-- `QemuExitCode`. -/
inductive QemuExitCode
  | success
  | failed
  deriving DecidableEq, Repr

/-- The value that is written to the exit port. -/
def QemuExitCode.value : QemuExitCode → UInt32
  | .success => 0x10
  | .failed => 0x11

namespace Kernel

open Thread

/-- Make an access. -/
def request (access : KernelRequest) : KernelThread access.Reply :=
  Thread.access access

/-- The body of the loop of `write_str`. -/
def writeByte (byte : UInt8) : KernelThread Unit := do
  if byte = Console.LF then do
    request (.serial Console.CR)
    request (.console Console.CR)
  request (.serial byte)
  request (.console byte)

/-- `_print`. -/
def print (text : String) : KernelThread Unit :=
  withoutInterrupts (text.toUTF8.data.toList.forM writeByte)

/-- `kprintln!`. -/
def println (text : String) : KernelThread Unit :=
  print (text ++ "\n")

/-- A driver as a part of the kernel. -/
def ports {α : Type} : PortProgram α → KernelThread α
  | .done result => .done result
  | .ask (.inb port) next => request (.port (.inb port)) >>= fun reply ↦ ports (next reply)
  | .ask (.outb port value) next =>
    request (.port (.outb port value)) >>= fun reply ↦ ports (next reply)
  | .ask (.kprintln message) next => println message >>= fun reply ↦ ports (next reply)

/-- `exit`: the program goes no further. -/
def exit (code : QemuExitCode) : KernelThread Unit :=
  request (.exit code.value)

/-- The panic handler with the report of an overflow. -/
def overflowPanic (location : String) : KernelThread Unit := do
  println ("KERNEL PANIC: panicked at " ++ location ++ ":\nattempt to add with overflow")
  exit .failed

/-- `counter += 1`: whether it was possible. -/
def increment (counter : Counter) (location : String) : KernelThread Bool := do
  let value ← request (.load counter)
  if value.toNat + 1 < 2 ^ 64 then do
    request (.store counter (value + 1))
    return true
  else do
    overflowPanic location
    return false

/-! ### The keyboard -/

/-- `SCANCODE_TO_ASCII`. -/
def SCANCODE_TO_ASCII : List UInt8 :=
  [0, 0, 49, 50, 51, 52, 53, 54, 55, 56, 57, 48, 45, 61, 8, 9,
    113, 119, 101, 114, 116, 121, 117, 105, 111, 112, 91, 93, 10, 0, 97, 115,
    100, 102, 103, 104, 106, 107, 108, 59, 39, 96, 0, 92, 122, 120, 99, 118,
    98, 110, 109, 44, 46, 47, 0, 42, 0, 32] ++ List.replicate 70 0

/-- What `read_key` makes of a scancode. -/
def translate (scancode : UInt8) : Option UInt8 :=
  if scancode &&& 0x80 ≠ 0 then none
  else
    match SCANCODE_TO_ASCII[scancode.toNat]? with
    | none => none
    | some ascii => if ascii = 0 then none else some ascii

/-- `read_key`. -/
def readKey : PortProgram (Option UInt8) := do
  let scancode ← inb Ps2.DATA
  return translate scancode

/-- A character as `{:?}` shows it. -/
def debugChar (ascii : UInt8) : String :=
  if ascii = 8 then "'\\u\x7b8\x7d'"
  else if ascii = 9 then "'\\t'"
  else if ascii = 10 then "'\\n'"
  else if ascii = 39 then "'\\''"
  else if ascii = 92 then "'\\\\'"
  else "'" ++ String.singleton (Char.ofNat ascii.toNat) ++ "'"

/-! ### Handlers -/

/-- `timer_handler`. -/
def timerHandler : KernelThread Ending := do
  if ← increment .ticks "kernel/src/idt.rs:207:14" then do
    ports (Pic.endOfInterrupt Pic.TIMER_VECTOR)
    return .returns
  else return .hangs

/-- `keyboard_handler`. -/
def keyboardHandler : KernelThread Ending := do
  match ← ports readKey with
  | some ascii =>
    if ← increment .keyEventsSeen "kernel/src/idt.rs:235:18" then do
      println ("key: " ++ debugChar ascii)
      ports (Pic.endOfInterrupt Pic.KEYBOARD_VECTOR)
      return .returns
    else return .hangs
  | none => do
    ports (Pic.endOfInterrupt Pic.KEYBOARD_VECTOR)
    return .returns

/-- `unhandled_irq_handler`. -/
def unhandledIrqHandler : KernelThread Ending := do
  ports (Pic.endOfInterrupt (Pic.PIC2_OFFSET + 7))
  return .returns

/-- A number as `{:#x}` shows it. -/
def hex (n : ℕ) : String :=
  "0x" ++ String.ofList (Nat.toDigits 16 n)

/-- What a handler of an exception is given. -/
structure ExceptionReport where
  /-- The frame. -/
  frame : Idt.InterruptStackFrame
  /-- The error code. -/
  errorCode : ℕ
  /-- CR2. -/
  cr2 : ℕ
  /-- The stack pointer of the handler. -/
  handlerRsp : ℕ
  /-- `fault_stack_range`. -/
  faultStack : ℕ × ℕ

/-- `breakpoint_handler`. -/
def breakpointHandler (report : ExceptionReport) : KernelThread Ending := do
  println ("EXCEPTION: breakpoint at " ++ hex report.frame.instructionPointer ++
    " (execution will resume)")
  return .returns

/-- `report_fault`. -/
def reportFault (name : String) (frame : Idt.InterruptStackFrame) (errorCode cr2 : Option ℕ) :
    KernelThread Ending := do
  println ""
  println ("EXCEPTION: " ++ name)
  match cr2 with
  | some addr => println ("  faulting address (CR2): " ++ hex addr)
  | none => pure ()
  println ("  instruction pointer: " ++ hex frame.instructionPointer)
  println ("  code segment:        " ++ hex frame.codeSegment)
  println ("  cpu flags:           " ++ hex frame.cpuFlags)
  println ("  stack pointer:       " ++ hex frame.stackPointer)
  match errorCode with
  | some code => println ("  error code:          " ++ hex code)
  | none => pure ()
  println "  unrecoverable - halting"
  exit .failed
  return .hangs

/-- `double_fault_handler`. -/
def doubleFaultHandler (report : ExceptionReport) : KernelThread Ending := do
  println "EXCEPTION: double fault"
  println ("  faulting instruction: " ++ hex report.frame.instructionPointer)
  println ("  interrupted stack:    " ++ hex report.frame.stackPointer)
  println ("  handler stack:        " ++ hex report.handlerRsp)
  println ("  fault stack spans:    " ++ hex report.faultStack.1 ++ ".." ++ hex report.faultStack.2)
  if report.faultStack.1 ≤ report.handlerRsp ∧ report.handlerRsp < report.faultStack.2 then
    println "  handler ran on the IST stack - the machine did not reset"
  else
    println "  WARNING: handler is NOT on the IST stack; the switch did not happen"
  exit .failed
  return .hangs

/-- The handlers. -/
def handlerThread (report : ExceptionReport) : Idt.Handler → KernelThread Ending
  | .unhandledIrq => unhandledIrqHandler
  | .divideError => reportFault "divide error (#DE)" report.frame none none
  | .breakpoint => breakpointHandler report
  | .invalidOpcode => reportFault "invalid opcode (#UD)" report.frame none none
  | .generalProtection =>
    reportFault "general protection fault (#GP)" report.frame (some report.errorCode) none
  | .pageFault =>
    reportFault "page fault (#PF)" report.frame (some report.errorCode) (some report.cr2)
  | .doubleFault => doubleFaultHandler report
  | .timer => timerHandler
  | .keyboard => keyboardHandler

/-! ### The end of `kernel_main` -/

/-- `ticks`. -/
def ticks : KernelThread UInt64 :=
  withoutInterrupts (request (.load .ticks))

/-- `key_events_seen`. -/
def keyEventsSeen : KernelThread UInt64 :=
  withoutInterrupts (request (.load .keyEventsSeen))

/-- `TICKS_REQUIRED`. -/
def TICKS_REQUIRED : UInt64 := 100
/-- `TIMER_HZ`. -/
def TIMER_HZ : UInt32 := 100

/-- The loop that waits for the timer: whether it has ended. -/
def awaitTicks (turns : ℕ) : KernelThread Bool :=
  spin (do
    if (← ticks) < TICKS_REQUIRED then do
      halt
      return false
    else return true) turns

/-- The loop that waits for a key, and the verdict: none when it has not ended. -/
def awaitKey (deadline : UInt64) : ℕ → KernelThread (Option QemuExitCode)
  | 0 => return none
  | turns + 1 => do
    if (← keyEventsSeen) = 0 then do
      if (← ticks) > deadline then do
        println "keyboard: no input within 10s - IRQ1 is not delivering"
        exit .failed
        return some .failed
      else do
        halt
        awaitKey deadline turns
    else do
      let events ← keyEventsSeen
      println ("keyboard: " ++ toString events ++ " key event(s) received - IRQ1 works")
      exit .success
      return some .success

/-- `kernel_main` from the line that enables interrupts. -/
def kernelMainInterrupts (turns : ℕ) : KernelThread (Option QemuExitCode) := do
  println "enabling interrupts"
  enable
  if ← awaitTicks turns then do
    println ("timer: " ++ toString TICKS_REQUIRED ++ " ticks received - IRQ0 works")
    println "waiting for a keypress..."
    let now ← ticks
    if now.toNat + TIMER_HZ.toNat * 10 < 2 ^ 64 then
      awaitKey (now + TIMER_HZ.toUInt64 * 10) turns
    else do
      overflowPanic "kernel/src/main.rs:143:20"
      return some .failed
  else return none

end Kernel

/-! ### The board -/

/-- The devices, the counters, and what has happened. -/
structure Devices where
  /-- The interrupt controllers. -/
  pics : Pic.Pair
  /-- The controller of the keyboard. -/
  keyboard : Ps2.Controller
  /-- What is read where nothing is to be read. -/
  idle : UInt8
  /-- `TICKS`. -/
  ticks : UInt64
  /-- `KEY_EVENTS_SEEN`. -/
  keyEventsSeen : UInt64
  /-- What the serial port was given. -/
  serial : List UInt8
  /-- What the console was given. -/
  console : List UInt8
  /-- What was written to the exit port. -/
  exit : Option UInt32
  /-- The number of interrupts of the timer that were accepted. -/
  timerInterrupts : ℕ
  /-- The bytes that have been in the output buffer of the keyboard. -/
  buffered : List UInt8
  /-- The bytes that were read from it. -/
  consumed : List UInt8
  /-- What was read from the data port while the interrupt of the keyboard was served. -/
  reads : List UInt8

namespace Devices

variable (devices : Devices)

/-- The controller of the keyboard requests an interrupt. -/
def requestsKeyboard (keyboard : Ps2.Controller) : Bool :=
  keyboard.output ≠ [] ∧ keyboard.config &&& Ps2.CONFIG_FIRST_PORT_INTERRUPT ≠ 0

/-- The controller of the keyboard has changed. Its line rises when it begins to request an
interrupt; a byte that is read takes the line down. -/
def setKeyboard (keyboard : Ps2.Controller) (isRead : Bool) : Devices :=
  { devices with
    keyboard
    pics :=
      if requestsKeyboard keyboard ∧ (isRead ∨ ¬ requestsKeyboard devices.keyboard) then
        devices.pics.raise 1
      else devices.pics }

/-- The answer to an access to a port. -/
def respondPort : (access : PortRequest) → access.Reply × Devices
  | .inb port =>
    if port = Ps2.DATA then
      let read := devices.keyboard.respond devices.idle (.inb port)
      (read.1, { devices.setKeyboard read.2 true with
        consumed := devices.consumed ++ devices.keyboard.output.take 1
        reads := if devices.pics.master.inService &&& Pic.bit Pic.KEYBOARD_LINE ≠ 0 then
          devices.reads ++ [read.1] else devices.reads })
    else if port = Ps2.STATUS then ((devices.keyboard.respond devices.idle (.inb port)).1, devices)
    else ((devices.pics.respond (.inb port)).1, devices)
  | .outb port value =>
    if port = Ps2.DATA ∨ port = Ps2.COMMAND then
      let keyboard := (devices.keyboard.respond devices.idle (.outb port value)).2
      ((), { devices.setKeyboard keyboard false with
        buffered := devices.buffered ++ keyboard.output.drop devices.keyboard.output.length })
    else ((), { devices with pics := devices.pics.write port value })
  | .kprintln _ => ((), devices)

/-- The answer to an access. -/
def respond : (access : KernelRequest) → access.Reply × Devices
  | .port access => devices.respondPort access
  | .load .ticks => (devices.ticks, devices)
  | .load .keyEventsSeen => (devices.keyEventsSeen, devices)
  | .store .ticks value => ((), { devices with ticks := value })
  | .store .keyEventsSeen value => ((), { devices with keyEventsSeen := value })
  | .serial byte => ((), { devices with serial := devices.serial ++ [byte] })
  | .console byte => ((), { devices with console := devices.console ++ [byte] })
  | .exit value => ((), { devices with exit := devices.exit.or (some value) })

/-- A scancode arrives. -/
def typed (scancode : UInt8) : Devices :=
  { devices.setKeyboard (devices.keyboard.arrive [scancode]) false with
    buffered := devices.buffered ++ [scancode] }

/-- What the devices do by themselves. -/
inductive Arrives : Devices → Devices → Prop
  /-- A line rises that is not the line of the keyboard. -/
  | line (devices : Devices) (line : Fin 16) (hline : line ≠ 1) :
      Arrives devices { devices with pics := devices.pics.raise line }
  /-- A scancode arrives. -/
  | scancode (devices : Devices) (scancode : UInt8) : Arrives devices (devices.typed scancode)
  /-- Something else is read where nothing is to be read. -/
  | idle (devices : Devices) (idle : UInt8) : Arrives devices { devices with idle }

/-- An interrupt is accepted. -/
inductive Accepts : Devices → UInt8 → Devices → Prop
  /-- A line that requests an interrupt. -/
  | requested {devices : Devices} {vector : UInt8} {pics : Pic.Pair}
      (hacknowledge : devices.pics.acknowledge = some (vector, pics)) :
      Accepts devices vector { devices with
        pics
        timerInterrupts := devices.timerInterrupts + if vector = Pic.TIMER_VECTOR then 1 else 0 }
  /-- The request was gone when the processor acknowledged it. -/
  | spurious (devices : Devices) : Accepts devices (devices.pics.master.offset + 7) devices

end Devices

/-- What runs for a gate. A vector without one is a general protection fault. -/
def Kernel.gateThread (report : ExceptionReport) : Option (Idt.Handler × ℕ) → KernelThread Ending
  | some (handler, _) => handlerThread report handler
  | none => handlerThread report .generalProtection

/-- The board, where the handlers of exceptions are given these reports. -/
def kernelBoard (report : UInt8 → Kernel.ExceptionReport) :
    Board Devices KernelRequest KernelRequest.Reply UInt8 where
  respond := Devices.respond
  Arrives := Devices.Arrives
  Accepts := Devices.Accepts
  handler vector := Kernel.gateThread (report vector) (Idt.gateOf vector.toNat)

end RustBL
