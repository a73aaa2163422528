import RustBL.Library.Interaction

/-!
# The 8042 PS/2 controller

`ps2::init` as a program over port accesses. Every spin has the budget as an argument; the kernel
calls it with `SPIN_BUDGET`. `kprintln!` is a request of its own, which makes no access to the ports
of the controller.

`plan` is what the initialisation is: a list of waits, each with the access that follows it.
`Executes` gives its meaning: a wait that succeeds is followed by its access and the rest of the
plan, and one that times out by a report and nothing else. `init_executes` says that every run of
`init`, whatever the device replies, executes the plan with the configuration byte that was read.
-/

set_option autoImplicit false
set_option relaxedAutoImplicit false

namespace RustBL

open Interaction

/-! ### Port accesses -/

/-- What a driver asks for. -/
inductive PortRequest
  /-- `inb(port)`. -/
  | inb (port : UInt16)
  /-- `outb(port, value)`. -/
  | outb (port : UInt16) (value : UInt8)
  /-- `kprintln!(message)`. -/
  | kprintln (message : String)

/-- What it is given. -/
abbrev PortRequest.Reply : PortRequest → Type
  | .inb _ => UInt8
  | .outb _ _ => Unit
  | .kprintln _ => Unit

/-- A program over port accesses. -/
abbrev PortProgram := Interaction PortRequest PortRequest.Reply

/-- An access with its reply. -/
abbrev PortEvent := Event PortRequest PortRequest.Reply

namespace PortEvent

/-- `value` was read from `port`. -/
@[match_pattern] def read (port : UInt16) (value : UInt8) : PortEvent :=
  ⟨.inb port, value⟩

/-- `value` was written to `port`. -/
@[match_pattern] def write (port : UInt16) (value : UInt8) : PortEvent :=
  ⟨.outb port value, ()⟩

/-- `message` was printed. -/
@[match_pattern] def report (message : String) : PortEvent :=
  ⟨.kprintln message, ()⟩

/-- The port and the byte of a write. -/
def written : PortEvent → Option (UInt16 × UInt8)
  | ⟨.outb port value, _⟩ => some (port, value)
  | _ => none

/-- The event is an access to a port. -/
def isAccess : PortEvent → Bool
  | ⟨.kprintln _, _⟩ => false
  | _ => true

end PortEvent

/-- `port::inb`. -/
def inb (port : UInt16) : PortProgram UInt8 :=
  perform (PortRequest.inb port)

/-- `port::outb`. -/
def outb (port : UInt16) (value : UInt8) : PortProgram Unit :=
  perform (PortRequest.outb port value)

/-- `kprintln!`. -/
def kprintln (message : String) : PortProgram Unit :=
  perform (PortRequest.kprintln message)

namespace Ps2

/-! ### The driver -/

/-- The data port. -/
def DATA : UInt16 := 0x60
/-- The command port, for writes. -/
def COMMAND : UInt16 := 0x64
/-- The status port, for reads. -/
def STATUS : UInt16 := 0x64

/-- The output buffer holds a byte to read. -/
def STATUS_OUTPUT_FULL : UInt8 := 0x01
/-- The input buffer holds a byte the controller has not consumed. -/
def STATUS_INPUT_FULL : UInt8 := 0x02

/-- Read the configuration byte. -/
def CMD_READ_CONFIG : UInt8 := 0x20
/-- Write the configuration byte. -/
def CMD_WRITE_CONFIG : UInt8 := 0x60
/-- Enable the first port. -/
def CMD_ENABLE_FIRST_PORT : UInt8 := 0xae

/-- Configuration bit 0: raise IRQ1 when the first port has data. -/
def CONFIG_FIRST_PORT_INTERRUPT : UInt8 := 0x01
/-- Configuration bit 4: disable the clock of the first port. -/
def CONFIG_FIRST_PORT_CLOCK_DISABLED : UInt8 := 0x10

/-- The budget of every spin of the kernel. -/
def SPIN_BUDGET : ℕ := 200000

/-- Read the status until it is as wanted, or the budget runs out. -/
def pollStatus (wanted : UInt8 → Bool) (budget : ℕ) : PortProgram Bool :=
  spin (do
    let status ← inb STATUS
    return wanted status) budget

/-- `wait_writable`. -/
def waitWritable (budget : ℕ) : PortProgram Bool :=
  pollStatus (fun status ↦ status &&& STATUS_INPUT_FULL = 0) budget

/-- `wait_readable`. -/
def waitReadable (budget : ℕ) : PortProgram Bool :=
  pollStatus (fun status ↦ status &&& STATUS_OUTPUT_FULL ≠ 0) budget

/-- The loop of `init` that empties the output buffer: whether it was seen empty. -/
def drain (budget : ℕ) : PortProgram Bool :=
  spin (do
    let status ← inb STATUS
    if status &&& STATUS_OUTPUT_FULL = 0 then return true
    else do
      let _ ← inb DATA
      return false) budget

/-- `if !wait { kprintln!(message); return; }`, and then `next`. -/
def orReport (wait : PortProgram Bool) (message : String) (next : PortProgram Unit) :
    PortProgram Unit := do
  if ← wait then next else kprintln message

/-- The configuration byte that is written back: the interrupt of the first port enabled, and its
clock not disabled. -/
def enabled (config : UInt8) : UInt8 :=
  (config ||| CONFIG_FIRST_PORT_INTERRUPT) &&& ~~~CONFIG_FIRST_PORT_CLOCK_DISABLED

/-- `init`. -/
def init (budget : ℕ) : PortProgram Unit :=
  orReport (drain budget) "ps2: timed out draining the output buffer; no 8042 present?" <|
  orReport (waitWritable budget) "ps2: timed out waiting to enable the first port" do
  outb COMMAND CMD_ENABLE_FIRST_PORT
  orReport (waitWritable budget) "ps2: timed out waiting to request the config byte" do
  outb COMMAND CMD_READ_CONFIG
  orReport (waitReadable budget) "ps2: timed out waiting to read the config byte" do
  let config ← inb DATA
  orReport (waitWritable budget) "ps2: timed out waiting to write the config byte command" do
  outb COMMAND CMD_WRITE_CONFIG
  orReport (waitWritable budget) "ps2: timed out waiting to write the config byte" do
  outb DATA (enabled config)

/-! ### The plan -/

/-- What the driver waits for. -/
inductive Wait
  /-- The output buffer was seen empty. -/
  | drain
  /-- The controller accepts a write. -/
  | writable
  /-- The controller has a byte to read. -/
  | readable
  deriving DecidableEq

/-- The program that waits. -/
def Wait.program (budget : ℕ) : Wait → PortProgram Bool
  | .drain => Ps2.drain budget
  | .writable => waitWritable budget
  | .readable => waitReadable budget

/-- A wait, and the access that follows it. -/
abbrev Step := Wait × Option PortEvent

/-- The steps of the initialisation, when `config` is the configuration byte that is read. -/
def plan (config : UInt8) : List Step :=
  [(.drain, none),
    (.writable, some (.write COMMAND CMD_ENABLE_FIRST_PORT)),
    (.writable, some (.write COMMAND CMD_READ_CONFIG)),
    (.readable, some (.read DATA config)),
    (.writable, some (.write COMMAND CMD_WRITE_CONFIG)),
    (.writable, some (.write DATA (enabled config)))]

/-- These events execute the steps: every wait succeeds and is followed by its access, up to the
first that times out, which is followed by a report and nothing else. -/
inductive Executes (budget : ℕ) : List Step → List PortEvent → Prop
  | finished : Executes budget [] []
  | timedOut {wait : Wait} {access : Option PortEvent} {steps : List Step} {poll : List PortEvent}
      (message : String) : Runs (wait.program budget) poll false →
      Executes budget ((wait, access) :: steps) (poll ++ [.report message])
  | ready {wait : Wait} {access : Option PortEvent} {steps : List Step}
      {poll rest : List PortEvent} : Runs (wait.program budget) poll true →
      Executes budget steps rest →
      Executes budget ((wait, access) :: steps) (poll ++ (access.toList ++ rest))

/-- These events execute the steps to the end. -/
inductive Completes (budget : ℕ) : List Step → List PortEvent → Prop
  | finished : Completes budget [] []
  | ready {wait : Wait} {access : Option PortEvent} {steps : List Step}
      {poll rest : List PortEvent} : Runs (wait.program budget) poll true →
      Completes budget steps rest →
      Completes budget ((wait, access) :: steps) (poll ++ (access.toList ++ rest))

/-- The induction of a wait that reads the status only: it reads no status at all, or ends with one
as wanted, or begins with one that is not. -/
theorem runs_pollStatus {wanted : UInt8 → Bool} {motive : ℕ → List PortEvent → Bool → Prop}
    (exhausted : motive 0 [] false)
    (succeeded : ∀ budget status, wanted status = true →
      motive (budget + 1) [.read STATUS status] true)
    (failed : ∀ budget status later ready, motive budget later ready →
      motive (budget + 1) (.read STATUS status :: later) ready)
    {budget : ℕ} {poll : List PortEvent} {ready : Bool}
    (h : Runs (pollStatus wanted budget) poll ready) : motive budget poll ready := by
  have hturn {events : List PortEvent} {ready : Bool} (hevents : Runs (do
      let status ← inb STATUS
      return wanted status) events ready) :
      ∃ status, events = [PortEvent.read STATUS status] ∧ ready = wanted status := by
    rw [inb, runs_perform_bind] at hevents
    obtain ⟨status, rest, rfl, hrest⟩ := hevents
    obtain ⟨rfl, rfl⟩ := runs_pure_eq hrest
    exact ⟨status, rfl, rfl⟩
  refine runs_spin (motive := motive) exhausted (fun budget events hevents ↦ ?_)
    (fun budget events later ready hevents _ ih ↦ ?_) h
  · obtain ⟨status, rfl, hstatus⟩ := hturn hevents
    exact succeeded budget status hstatus.symm
  · obtain ⟨status, rfl, _⟩ := hturn hevents
    exact failed budget status later ready ih

/-- The induction of the drain: it reads no status at all, or ends with a status that shows the
output buffer empty, or begins with one that does not and a data byte. -/
theorem runs_drain {motive : ℕ → List PortEvent → Bool → Prop} (exhausted : motive 0 [] false)
    (succeeded : ∀ budget status, status &&& STATUS_OUTPUT_FULL = 0 →
      motive (budget + 1) [.read STATUS status] true)
    (failed : ∀ budget status byte later ready, status &&& STATUS_OUTPUT_FULL ≠ 0 →
      motive budget later ready →
      motive (budget + 1) (.read STATUS status :: .read DATA byte :: later) ready)
    {budget : ℕ} {poll : List PortEvent} {ready : Bool} (h : Runs (drain budget) poll ready) :
    motive budget poll ready := by
  refine runs_spin (motive := motive) exhausted (fun budget events hevents ↦ ?_)
    (fun budget events later ready hevents _ ih ↦ ?_) h
  all_goals
    rw [inb, runs_perform_bind] at hevents
    obtain ⟨status, rest, rfl, hrest⟩ := hevents
    split_ifs at hrest with hempty
  · obtain ⟨rfl, _⟩ := runs_pure_eq hrest
    exact succeeded budget status hempty
  · rw [inb, runs_perform_bind] at hrest
    obtain ⟨_, _, _, hrest⟩ := hrest
    exact absurd (runs_pure_eq hrest).2 Bool.true_eq_false.mp
  · exact absurd (runs_pure_eq hrest).2.symm Bool.true_eq_false.mp
  · rw [inb, runs_perform_bind] at hrest
    obtain ⟨byte, rest, rfl, hrest⟩ := hrest
    obtain ⟨rfl, _⟩ := runs_pure_eq hrest
    exact failed budget status byte later ready hempty ih

section Executions

variable {budget : ℕ} {steps more : List Step} {events : List PortEvent}

/-- An execution stops among the first steps, or gets past them. -/
theorem Executes.split (h : Executes budget (steps ++ more) events) :
    Executes budget steps events ∨ ∃ front back, events = front ++ back ∧
      Completes budget steps front ∧ Executes budget more back := by
  induction steps generalizing events with
  | nil => exact Or.inr ⟨[], events, rfl, .finished, h⟩
  | cons step steps ih =>
    cases h with
    | timedOut message hpoll => exact Or.inl (.timedOut message hpoll)
    | ready hpoll hrest =>
      rcases ih hrest with hstopped | ⟨front, back, rfl, hfront, hback⟩
      · exact Or.inl (.ready hpoll hstopped)
      · refine Or.inr ⟨_, back, ?_, .ready hpoll hfront, hback⟩
        rw [List.append_assoc, List.append_assoc]

/-- An execution without a report is complete. -/
theorem Executes.completes (h : Executes budget steps events)
    (hreport : ∀ message, PortEvent.report message ∉ events) : Completes budget steps events := by
  induction h with
  | finished => exact .finished
  | timedOut message _ =>
    exact absurd (List.mem_append_right _ List.mem_cons_self) (hreport message)
  | ready hpoll _ ih =>
    refine .ready hpoll (ih fun message hmem ↦ hreport message ?_)
    exact List.mem_append_right _ (List.mem_append_right _ hmem)

end Executions

/-- Every run of the program executes the steps, for some configuration byte. -/
def Performs (budget : ℕ) (program : PortProgram Unit) (steps : UInt8 → List Step) : Prop :=
  ∀ events, Runs program events () → ∃ config, Executes budget (steps config) events

section Performs

variable {budget : ℕ} {next : PortProgram Unit} {steps : UInt8 → List Step}

/-- A wait with a report, followed by a program that makes an access first, performs the wait with
that access and the steps behind it. -/
theorem performs_orReport {access : UInt8 → Option PortEvent} (wait : Wait) (message : String)
    (hnext : ∀ events, Runs next events () → ∃ config rest,
      events = (access config).toList ++ rest ∧ Executes budget (steps config) rest) :
    Performs budget (orReport (wait.program budget) message next)
      fun config ↦ (wait, access config) :: steps config := by
  intro events h
  obtain ⟨poll, ready, rest, rfl, hpoll, hrest⟩ := runs_bind.mp h
  cases ready with
  | true =>
    obtain ⟨config, after, rfl, hafter⟩ := hnext rest hrest
    exact ⟨config, .ready hpoll hafter⟩
  | false =>
    have hreport : Runs (kprintln message) rest () := hrest
    rw [kprintln, runs_perform] at hreport
    rw [hreport]
    exact ⟨0, .timedOut message hpoll⟩

theorem performs_wait (wait : Wait) (message : String) (h : Performs budget next steps) :
    Performs budget (orReport (wait.program budget) message next)
      fun config ↦ (wait, none) :: steps config := by
  refine performs_orReport wait message fun events hevents ↦ ?_
  obtain ⟨config, hexec⟩ := h events hevents
  exact ⟨config, events, rfl, hexec⟩

theorem performs_write (wait : Wait) (message : String) (port : UInt16) (value : UInt8)
    (h : Performs budget next steps) :
    Performs budget (orReport (wait.program budget) message (outb port value >>= fun _ ↦ next))
      fun config ↦ (wait, some (.write port value)) :: steps config := by
  refine performs_orReport wait message fun events hevents ↦ ?_
  rw [outb, runs_perform_bind] at hevents
  obtain ⟨_, rest, rfl, hrest⟩ := hevents
  obtain ⟨config, hexec⟩ := h rest hrest
  exact ⟨config, rest, rfl, hexec⟩

/-- The configuration byte is the byte that is read. -/
theorem performs_read (wait : Wait) (message : String) (port : UInt16)
    {next : UInt8 → PortProgram Unit}
    (h : ∀ value, Performs budget (next value) fun _ ↦ steps value) :
    Performs budget (orReport (wait.program budget) message (inb port >>= next))
      fun config ↦ (wait, some (.read port config)) :: steps config := by
  refine performs_orReport wait message fun events hevents ↦ ?_
  rw [inb, runs_perform_bind] at hevents
  obtain ⟨value, rest, rfl, hrest⟩ := hevents
  obtain ⟨_, hexec⟩ := h value rest hrest
  exact ⟨value, rest, rfl, hexec⟩

theorem performs_lastWrite (wait : Wait) (message : String) (port : UInt16) (value : UInt8) :
    Performs budget (orReport (wait.program budget) message (outb port value))
      fun _ ↦ [(wait, some (.write port value))] := by
  refine performs_orReport wait message fun events hevents ↦ ?_
  rw [outb, runs_perform] at hevents
  exact ⟨0, [], hevents, .finished⟩

/-- Every run of `init` executes the plan, whatever the device replies. -/
theorem init_executes {events : List PortEvent} (h : Runs (init budget) events ()) :
    ∃ config, Executes budget (plan config) events := by
  refine performs_wait .drain _ ?_ events h
  refine performs_write .writable _ COMMAND CMD_ENABLE_FIRST_PORT ?_
  refine performs_write .writable _ COMMAND CMD_READ_CONFIG ?_
  refine performs_read .readable _ DATA fun config ↦ ?_
  refine performs_write .writable _ COMMAND CMD_WRITE_CONFIG ?_
  exact performs_lastWrite .writable _ DATA (enabled config)

end Performs

end Ps2

end RustBL
