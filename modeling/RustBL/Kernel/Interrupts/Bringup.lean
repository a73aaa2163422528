import RustBL.Kernel.Interrupts.Verdict

/-!
# The kernel up to its interrupts

The part of `kernel_main` that runs before interrupts are enabled, as far as the devices see it:
`init`, with the drivers of the interrupt controllers, the timer and the keyboard, `selftest`, and
what is printed about the rest.

The firmware may leave the devices in any state, and they go on by themselves all the time.
`init_ready` says what `init` makes of them. The first command to the interrupt controllers forgets
every request, also that of a keyboard that has a byte to read, and whose line does not rise again
before it is read. The keyboard driver empties the output buffer behind that command
(`ports_drain`), so a keyboard that has a byte to read has its interrupt requested from there on.
-/

set_option autoImplicit false
set_option relaxedAutoImplicit false

namespace RustBL

open Interaction

/-! ### The programs -/

namespace Pit

/-- The data port of channel 0. -/
def CHANNEL0_DATA : UInt16 := 0x40
/-- The command port. -/
def COMMAND : UInt16 := 0x43
/-- The input clock. -/
def BASE_FREQUENCY : UInt32 := 1193182

/-- The divisor for a rate. -/
def divisor (hz : UInt32) : UInt16 :=
  (BASE_FREQUENCY / hz).toUInt16

/-- The accesses of `init`. -/
def program (hz : UInt32) : PortProgram Unit := do
  outb COMMAND 0x36
  outb CHANNEL0_DATA (divisor hz &&& 0xff).toUInt8
  outb CHANNEL0_DATA (divisor hz >>> 8).toUInt8

end Pit

namespace Kernel

/-- `pit::init`: whether the assertion holds. -/
def pitInit (hz : UInt32) : KernelThread Bool := do
  if 19 ≤ hz ∧ hz ≤ Pit.BASE_FREQUENCY then do
    ports (Pit.program hz)
    return true
  else do
    println "KERNEL PANIC: panicked at kernel/src/pit.rs:24:5:\nPIT frequency out of range"
    exit .failed
    return false

/-- `init`. The tables are not devices. -/
def init (budget : ℕ) : KernelThread Bool := do
  println ("GDT + TSS loaded (code selector " ++ hex Gdt.KERNEL_CODE_SELECTOR ++ ")")
  println "IDT loaded"
  ports Pic.init
  println ("PICs remapped to vectors " ++ toString Pic.PIC1_OFFSET ++ "-" ++
    toString (Pic.PIC2_OFFSET + 7))
  if ← pitInit TIMER_HZ then do
    println ("PIT programmed at " ++ toString TIMER_HZ ++ " Hz")
    ports (Ps2.init budget)
    println "8042 PS/2 controller initialised"
    return true
  else return false

/-- `selftest`, where the breakpoint exception is handled at once. -/
def selftest (report : ExceptionReport) : KernelThread Unit := do
  let _ ← breakpointHandler report
  println "selftest: breakpoint handled and execution resumed"

end Kernel

namespace Devices

open Kernel

/-! ### What the programs keep -/

/-- Nothing has been counted, and the exit port was told nothing. -/
structure Fresh (devices : Devices) : Prop where
  ticks_eq : devices.ticks = 0
  keys_eq : devices.keyEventsSeen = 0
  timer_eq : devices.timerInterrupts = 0
  reads_eq : devices.reads = []
  buffered_eq : devices.buffered = devices.consumed ++ devices.keyboard.output
  exit_eq : devices.exit = none

/-- The interrupt controllers have these settings, and nothing has been counted. -/
def Programmed (settings : Pic.Pair) (devices : Devices) : Prop :=
  devices.pics.settings = settings ∧ Fresh devices

/-- The controllers are programmed, and the keyboard is attended. -/
def Prepared (devices : Devices) : Prop :=
  Programmed Pic.Pair.programmed devices ∧ Attended devices

/-- The devices when interrupts are enabled. -/
abbrev Ready : Devices → Prop :=
  Books (.settled 0 0 none)

section Bringup

variable {devices : Devices} {settings : Pic.Pair} {condition : Devices → Prop}
  {report : UInt8 → ExceptionReport} {α β : Type}

theorem Prepared.ready (h : Prepared devices) : Ready devices where
  pics_eq := h.1.1
  ticks_eq := by rw [h.1.2.ticks_eq, h.1.2.timer_eq]; rfl
  keys_eq := by rw [h.1.2.keys_eq, keyCount, h.1.2.reads_eq]; rfl
  buffered_eq := h.1.2.buffered_eq
  requested := fun _ ↦ h.2
  ticks_seen := Nat.zero_le _
  keys_seen := Nat.zero_le _
  exit_eq := h.1.2.exit_eq
  success := fun hexit ↦ by rw [h.1.2.exit_eq] at hexit; cases hexit

end Bringup

end Devices

end RustBL
