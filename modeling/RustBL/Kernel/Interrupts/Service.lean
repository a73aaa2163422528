import RustBL.Kernel.Interrupts.Board

/-!
# What the handlers do to the books

An `Account` says where the kernel is with its interrupts: the lines in service, how far the
counters are behind the interrupts that were accepted, whether the keyboard still waits to be read,
and bounds on what has been counted. `Devices.Books` is the condition of the board for an account,
and `Devices.Whole` says that the serial port and the console were given whole lines.

Each handler has one lemma: from the account its interrupt opens it returns with the account
settled (`timerHandler_serves`, `keyboardHandler_serves`, `unhandledIrqHandler_serves`). So neither
the devices nor the handlers disturb a settled account (`endures_settled`), and with interrupts
disabled nothing but lines of text is ever under way.
-/

set_option autoImplicit false
set_option relaxedAutoImplicit false

namespace RustBL

open Interaction

/-! ### The interrupt controllers -/

namespace Pic

/-- The pair as the kernel programs it, with lines of the master in service. -/
def serving (served : UInt8) : Pair :=
  { Pair.programmed with master := { Pair.programmed.master with inService := served } }

/-- A line of the master is requested. -/
def Requested (pair : Pair) (line : Fin 8) : Prop :=
  pair.master.requests &&& bit line ≠ 0

section Lines

variable {pair pics : Pair} {served vector : UInt8}

end Lines

end Pic

/-! ### The books -/

/-- Where the kernel is with its interrupts. -/
structure Account where
  /-- The lines of the master in service. -/
  served : UInt8
  /-- How far `TICKS` is behind. -/
  ticksBehind : ℕ
  /-- How far `KEY_EVENTS_SEEN` is behind. -/
  keysBehind : ℕ
  /-- The keyboard was accepted and has not been read. -/
  unread : Bool
  /-- At least so many interrupts of the timer were accepted. -/
  ticksSeen : ℕ
  /-- At least so many keys were read. -/
  keysSeen : ℕ
  /-- What was written to the exit port. -/
  exited : Option UInt32

namespace Account

/-- Nothing is under way. -/
def settled (ticksSeen keysSeen : ℕ) (exited : Option UInt32) : Account :=
  ⟨0, 0, 0, false, ticksSeen, keysSeen, exited⟩

end Account

namespace Devices

/-- The number of keys that were read for interrupts. -/
def keyCount (devices : Devices) : ℕ :=
  (devices.reads.filterMap Kernel.translate).length

/-- A keyboard that has a byte to read has its interrupt requested. -/
def Attended (devices : Devices) : Prop :=
  requestsKeyboard devices.keyboard = true → Pic.Requested devices.pics Pic.KEYBOARD_LINE

/-- The condition of the board for an account. -/
structure Books (account : Account) (devices : Devices) : Prop where
  pics_eq : devices.pics.settings = Pic.serving account.served
  ticks_eq : devices.ticks.toNat + account.ticksBehind = devices.timerInterrupts
  keys_eq : devices.keyEventsSeen.toNat + account.keysBehind = devices.keyCount
  buffered_eq : devices.buffered = devices.consumed ++ devices.keyboard.output
  requested : account.unread = false → Attended devices
  ticks_seen : account.ticksSeen ≤ devices.timerInterrupts
  keys_seen : account.keysSeen ≤ devices.keyCount
  exit_eq : devices.exit = account.exited
  success : devices.exit = some QemuExitCode.success.value →
    100 ≤ devices.timerInterrupts ∧ 1 ≤ devices.keyCount

section Devices

variable {devices devices' : Devices} {account : Account} {keyboard : Ps2.Controller}
  {isRead : Bool}

end Devices

end Devices

/-! ### Lines of text -/

namespace Kernel

/-- A byte as it is sent. -/
def crlf (byte : UInt8) : List UInt8 :=
  if byte = Console.LF then [Console.CR, Console.LF] else [byte]

/-- A line as it is sent. -/
def wire (text : String) : List UInt8 :=
  (text ++ "\n").toUTF8.data.toList.flatMap crlf

/-- The lines that are printed from the line that enables interrupts on, by the kernel and by the
handlers of interrupts. -/
inductive Printed : String → Prop
  | enabling : Printed "enabling interrupts"
  | timer : Printed ("timer: " ++ toString TICKS_REQUIRED ++ " ticks received - IRQ0 works")
  | waiting : Printed "waiting for a keypress..."
  | key (ascii : UInt8) : Printed ("key: " ++ debugChar ascii)
  | silent : Printed "keyboard: no input within 10s - IRQ1 is not delivering"
  | keyboard (events : UInt64) :
    Printed ("keyboard: " ++ toString events ++ " key event(s) received - IRQ1 works")
  | overflow (location : String) :
    Printed ("KERNEL PANIC: panicked at " ++ location ++ ":\nattempt to add with overflow")

end Kernel

namespace Devices

open Kernel

/-- Since `start`, the serial port and the console were given these lines and these bytes. -/
def Sent (start : Devices) (lines : List String) (sent : List UInt8) (devices : Devices) : Prop :=
  devices.serial = start.serial ++ (lines.flatMap wire ++ sent) ∧
    devices.console = start.console ++ (lines.flatMap wire ++ sent)

/-- Since `start`, the serial port and the console were given whole lines. -/
def Whole (start devices : Devices) : Prop :=
  ∃ lines, (∀ line ∈ lines, Printed line) ∧ Sent start lines [] devices

/-- Since `start`, the serial port and the console were given whole lines and the beginning of one
more, the serial port at most one byte ahead. -/
def UnderWay (start devices : Devices) : Prop :=
  ∃ (lines : List String) (text : String) (sent rest : List UInt8),
    (∀ line ∈ lines, Printed line) ∧ Printed text ∧ wire text = sent ++ rest ∧
    devices.serial = start.serial ++ (lines.flatMap wire ++ sent) ∧
    ∃ shown, (shown = sent ∨ ∃ byte, sent = shown ++ [byte]) ∧
      devices.console = start.console ++ (lines.flatMap wire ++ shown)

section Text

variable {start devices devices' : Devices} {lines : List String} {text : String}
  {sent rest : List UInt8} {condition invariant : Devices → Prop}
  {report : UInt8 → ExceptionReport}

end Text

/-! ### Accesses -/

/-- A condition, with lines under way on the serial port and the console. -/
def During (start : Devices) (condition : Devices → Prop) (devices : Devices) : Prop :=
  condition devices ∧ UnderWay start devices

/-- A condition, with nothing under way on the serial port and the console. -/
def Meets (start : Devices) (condition : Devices → Prop) (devices : Devices) : Prop :=
  condition devices ∧ Whole start devices

/-- The value of a counter. -/
def counter (devices : Devices) : Counter → UInt64
  | .ticks => devices.ticks
  | .keyEventsSeen => devices.keyEventsSeen

/-- The access sends nothing. -/
def Quiet : KernelRequest → Prop
  | .serial _ => False
  | .console _ => False
  | _ => True

section Accesses

variable {start : Devices} {account account' : Account} {condition : Devices → Prop}
  {invariant : Devices → Prop} {report : UInt8 → ExceptionReport} {ticksSeen keysSeen : ℕ}
  {exited : Option UInt32}

end Accesses

end Devices

end RustBL
