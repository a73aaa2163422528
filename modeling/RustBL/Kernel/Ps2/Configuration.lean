import RustBL.Kernel.Ps2.Discipline

/-!
# The configuration byte of the PS/2 controller

A controller with one output buffer, which holds scancodes and the replies to commands in order of
arrival. A keyboard may deliver scancodes before any access of the driver (`Typing`), and the bits
of the status register other than the output bit are anything.

The driver takes the first byte it finds in the output buffer for the configuration byte. It emptied
the buffer before, but scancodes that arrive between the status read that ended the drain and the
command to read the configuration byte stand in front of the reply (`earlyScancodes`). What is
stored is made from the first of them if there is one, and from the configuration byte otherwise
(`config_of_completes`). `init_preserves_config_iff` says when that makes no difference.
-/

set_option autoImplicit false
set_option relaxedAutoImplicit false

namespace RustBL

open Interaction

namespace Ps2

/-! ### The controller -/

/-- The state of the controller. -/
structure Controller where
  /-- The output buffer, oldest byte first. -/
  output : List UInt8
  /-- The configuration byte. -/
  config : UInt8
  /-- The next byte written to the data port is stored as the configuration byte. -/
  storing : Bool
  deriving DecidableEq

/-- What the keyboard does, and what else can be read. -/
structure Typing where
  /-- The scancodes that arrive right before an access. -/
  scancodes : ℕ → List UInt8
  /-- The other bits of the status register, and what is read where nothing is to be read. -/
  idle : ℕ → UInt8

/-- An access to the controller. The other commands leave the bytes it holds alone. -/
def Controller.respond (idle : UInt8) (controller : Controller) :
    (request : PortRequest) → request.Reply × Controller
  | .inb port =>
    if port = STATUS then
      (if controller.output = [] then idle &&& ~~~STATUS_OUTPUT_FULL
        else idle ||| STATUS_OUTPUT_FULL, controller)
    else if port = DATA then
      match controller.output with
      | [] => (idle, controller)
      | byte :: output => (byte, { controller with output })
    else (idle, controller)
  | .outb port value =>
    if port = COMMAND then
      let controller := { controller with storing := value = CMD_WRITE_CONFIG }
      if value = CMD_READ_CONFIG then
        ((), { controller with output := controller.output ++ [controller.config] })
      else ((), controller)
    else if port = DATA ∧ controller.storing then
      ((), { controller with config := value, storing := false })
    else ((), controller)
  | .kprintln _ => ((), controller)

/-- Scancodes arrive. -/
def Controller.arrive (controller : Controller) (scancodes : List UInt8) : Controller :=
  { controller with output := controller.output ++ scancodes }

/-- The controller with its keyboard. The state holds the number of accesses so far. -/
def Typing.device (typing : Typing) (state : ℕ × Controller) (request : PortRequest) :
    request.Reply × (ℕ × Controller) :=
  let (reply, controller) :=
    (state.2.arrive (typing.scancodes state.1)).respond (typing.idle state.1) request
  (reply, (state.1 + 1, controller))

/-- The initialisation with this controller and keyboard. -/
def Typing.init (typing : Typing) (budget : ℕ) (controller : Controller) :
    Outcome PortRequest PortRequest.Reply (ℕ × Controller) Unit :=
  (Ps2.init budget).run typing.device (0, controller)

/-- A status read that shows the output buffer empty. -/
def showsEmpty : PortEvent → Bool
  | ⟨.inb port, status⟩ => port = STATUS ∧ status &&& STATUS_OUTPUT_FULL = 0
  | _ => false

/-- The command to read the configuration byte. -/
def requestsConfig (event : PortEvent) : Bool :=
  event.written = some (COMMAND, CMD_READ_CONFIG)

/-- The scancodes that arrive behind the first status read that shows the output buffer empty, and
no later than right before the command to read the configuration byte. -/
def Typing.earlyScancodes (typing : Typing) (events : List PortEvent) : List UInt8 :=
  let drained := events.findIdx showsEmpty
  let requested := events.findIdx requestsConfig
  (List.range' (drained + 1) (requested - drained)).flatMap typing.scancodes

/-! ### What accesses do to the controller -/

/-- A status read, or a command other than to read the configuration byte. -/
def Quiet : PortEvent → Prop
  | ⟨.inb port, _⟩ => port = STATUS
  | ⟨.outb port value, _⟩ => port = COMMAND ∧ value ≠ CMD_READ_CONFIG
  | ⟨.kprintln _, _⟩ => True

section Accesses

variable {typing : Typing} {state last : ℕ × Controller} {events : List PortEvent}

/-- A status read changes nothing. -/
theorem device_status (typing : Typing) (state : ℕ × Controller) :
    (typing.device state (.inb STATUS)).2 =
      (state.1 + 1, state.2.arrive (typing.scancodes state.1)) := by
  rw [Typing.device, Controller.respond, if_pos rfl]

/-- The full bit of a status that has it set. -/
theorem or_full_ne (idle : UInt8) : (idle ||| STATUS_OUTPUT_FULL) &&& STATUS_OUTPUT_FULL ≠ 0 := by
  have hbits : ∀ bits : BitVec 8, (bits ||| 1) &&& 1 ≠ 0 := by decide
  exact fun h ↦ hbits idle.toBitVec (congrArg UInt8.toBitVec h)

/-- A status that shows the output buffer empty is given by a controller with an empty one. -/
theorem device_empty
    (h : (typing.device state (.inb STATUS)).1 &&& STATUS_OUTPUT_FULL = 0) :
    (typing.device state (.inb STATUS)).2.2.output = [] := by
  rw [device_status]
  by_contra hfull
  have hoccupied : (state.2.arrive (typing.scancodes state.1)).output ≠ [] := hfull
  rw [Typing.device, Controller.respond, if_pos rfl] at h
  dsimp only at h
  rw [if_neg hoccupied] at h
  exact or_full_ne _ h

/-- The command to read the configuration byte puts it behind what has arrived. -/
theorem device_request (typing : Typing) (state : ℕ × Controller) :
    (typing.device state (.outb COMMAND CMD_READ_CONFIG)).2.2.output =
      state.2.output ++ typing.scancodes state.1 ++ [state.2.config] := by
  rw [Typing.device, Controller.respond, if_pos rfl, if_pos rfl]
  rfl

/-- A data read takes the oldest byte. -/
theorem device_read {byte : UInt8} {later : List UInt8} (h : state.2.output = byte :: later) :
    (typing.device state (.inb DATA)).1 = byte := by
  have hdata : DATA ≠ STATUS := by decide
  rw [Typing.device, Controller.respond, if_neg hdata, if_pos rfl, Controller.arrive]
  dsimp only
  rw [h, List.cons_append]

theorem device_command (typing : Typing) (state : ℕ × Controller) :
    (typing.device state (.outb COMMAND CMD_WRITE_CONFIG)).2.2.storing = true := by
  have hcommand : CMD_WRITE_CONFIG ≠ CMD_READ_CONFIG := by decide
  rw [Typing.device, Controller.respond, if_pos rfl, if_neg hcommand]
  exact decide_eq_true (Eq.refl CMD_WRITE_CONFIG)

theorem device_store (h : state.2.storing = true) (value : UInt8) :
    (typing.device state (.outb DATA value)).2.2.config = value := by
  have hdata : DATA ≠ COMMAND := by decide
  rw [Typing.device, Controller.respond, if_neg hdata, Controller.arrive, if_pos ⟨rfl, h⟩]

theorem Controller.config_respond_inb (controller : Controller) (idle : UInt8) (port : UInt16) :
    (controller.respond idle (.inb port)).2.config = controller.config := by
  rw [Controller.respond]
  split_ifs
  · rfl
  · rfl
  · split <;> rfl
  · rfl

/-- Nothing but a write changes the configuration byte. -/
theorem device_config {request : PortRequest}
    (h : PortEvent.written ⟨request, (typing.device state request).1⟩ = none) :
    (typing.device state request).2.2.config = state.2.config := by
  cases request with
  | inb port => exact Controller.config_respond_inb (state.2.arrive _) _ port
  | outb port value => exact absurd h (Option.some_ne_none _)
  | kprintln message => rfl

theorem answered_time (h : Answered typing.device state events last) :
    last.1 = state.1 + events.length := by
  induction h with
  | nil => rfl
  | cons request _ ih =>
    rw [ih, List.length_cons, Nat.add_comm _ 1, ← Nat.add_assoc]
    rfl

/-- Quiet accesses let scancodes arrive, and keep the configuration byte. -/
theorem answered_quiet (h : Answered typing.device state events last)
    (hquiet : ∀ event ∈ events, Quiet event) :
    last.2.config = state.2.config ∧ last.2.output = state.2.output ++
      (List.range' state.1 events.length).flatMap typing.scancodes := by
  induction h with
  | nil => exact ⟨rfl, (List.append_nil _).symm⟩
  | cons request hrest ih =>
    rename_i state _ events
    rw [List.forall_mem_cons] at hquiet
    obtain ⟨hconfig, houtput⟩ := ih hquiet.2
    have hstep : (typing.device state request).2.2.config = state.2.config ∧
        (typing.device state request).2.2.output =
          state.2.output ++ typing.scancodes state.1 := by
      cases request with
      | inb port =>
        obtain rfl : port = STATUS := hquiet.1
        rw [device_status]
        exact ⟨rfl, rfl⟩
      | outb port value =>
        obtain ⟨rfl, hvalue⟩ : port = COMMAND ∧ value ≠ CMD_READ_CONFIG := hquiet.1
        rw [Typing.device, Controller.respond, if_pos rfl, if_neg hvalue]
        exact ⟨rfl, rfl⟩
      | kprintln message => exact ⟨rfl, rfl⟩
    rw [hstep.1] at hconfig
    rw [hstep.2, List.append_assoc] at houtput
    refine ⟨hconfig, ?_⟩
    rw [houtput, List.length_cons, List.range'_succ, List.flatMap_cons]
    rfl

/-- Status reads keep the controller storing. -/
theorem answered_storing (h : Answered typing.device state events last)
    (hstatus : ∀ event ∈ events, ∃ status, event = PortEvent.read STATUS status)
    (hstoring : state.2.storing = true) : last.2.storing = true := by
  refine h.invariant (fun state ↦ state.2.storing = true) (fun state request hstate ↦ ?_) hstatus
    hstoring
  rintro ⟨status, heq⟩
  obtain rfl : request = .inb STATUS := congrArg Sigma.fst heq
  rw [device_status]
  exact hstate

/-- Reads keep the configuration byte. -/
theorem answered_config (h : Answered typing.device state events last)
    (hwritten : ∀ event ∈ events, event.written = none) : last.2.config = state.2.config :=
  h.invariant (fun other ↦ other.2.config = state.2.config)
    (fun _ _ hother hwritten ↦ (device_config hwritten).trans hother) hwritten rfl

end Accesses

/-! ### The byte that is stored -/

section Stored

variable {budget : ℕ} {typing : Typing} {controller : Controller} {config : UInt8}
  {events : List PortEvent}

/-- A drain that succeeds ends with the first status read that shows the output buffer empty. -/
theorem drain_ready {poll : List PortEvent} {ready : Bool} (h : Runs (drain budget) poll ready)
    (hready : ready = true) : ∃ earlier status, poll = earlier ++ [PortEvent.read STATUS status] ∧
      status &&& STATUS_OUTPUT_FULL = 0 ∧ ∀ event ∈ earlier, showsEmpty event = false := by
  revert hready
  refine runs_drain (motive := fun _ poll ready ↦ ready = true → ∃ earlier status,
    poll = earlier ++ [PortEvent.read STATUS status] ∧ status &&& STATUS_OUTPUT_FULL = 0 ∧
      ∀ event ∈ earlier, showsEmpty event = false) (fun h ↦ absurd h Bool.false_ne_true)
    (fun budget status hempty _ ↦ ⟨[], status, rfl, hempty, List.forall_mem_nil _⟩)
    (fun budget status byte later ready hfull ih hready ↦ ?_) h
  obtain ⟨earlier, last, rfl, hlast, hearlier⟩ := ih hready
  refine ⟨.read STATUS status :: .read DATA byte :: earlier, last, rfl, hlast, ?_⟩
  refine List.forall_mem_cons.mpr ⟨?_, List.forall_mem_cons.mpr ⟨rfl, hearlier⟩⟩
  exact decide_eq_false fun h ↦ hfull h.2

/-- The first event of a kind, behind others. -/
theorem findIdx_append_cons {test : PortEvent → Bool} {before after : List PortEvent}
    {event : PortEvent} (hbefore : ∀ other ∈ before, test other = false)
    (hevent : test event = true) :
    (before ++ event :: after).findIdx test = before.length := by
  induction before with
  | nil => rw [List.nil_append, List.findIdx_cons, hevent]; rfl
  | cons first before ih =>
    rw [List.forall_mem_cons] at hbefore
    rw [List.cons_append, List.findIdx_cons, hbefore.1, ih hbefore.2, List.length_cons]
    rfl

theorem Quiet.requestsConfig_eq {event : PortEvent} (h : Quiet event) :
    requestsConfig event = false := by
  obtain ⟨request, reply⟩ := event
  cases request with
  | outb port value =>
    refine decide_eq_false fun heq ↦ h.2 ?_
    exact (Prod.mk.inj (Option.some.inj heq)).2
  | _ => rfl

theorem quiet_status {event : PortEvent} (h : ∃ status, event = PortEvent.read STATUS status) :
    Quiet event := by
  obtain ⟨status, rfl⟩ := h
  exact rfl

theorem flatMap_range'_succ (scancodes : ℕ → List UInt8) (first count : ℕ) :
    (List.range' first (count + 1)).flatMap scancodes =
      (List.range' first count).flatMap scancodes ++ scancodes (first + count) := by
  rw [List.range'_1_concat, List.flatMap_append, List.flatMap_singleton]

/-- The early scancodes, when the drain and the accesses behind it are known. -/
theorem earlyScancodes_eq {earlier between later : List PortEvent} {status : UInt8}
    (hearlier : ∀ event ∈ earlier, showsEmpty event = false)
    (hwritten : ∀ event ∈ earlier, event.written = none)
    (hstatus : status &&& STATUS_OUTPUT_FULL = 0) (hbetween : ∀ event ∈ between, Quiet event) :
    typing.earlyScancodes (earlier ++ .read STATUS status ::
        (between ++ .write COMMAND CMD_READ_CONFIG :: later)) =
      (List.range' (earlier.length + 1) (between.length + 1)).flatMap typing.scancodes := by
  have hdrained : showsEmpty (.read STATUS status) = true := decide_eq_true ⟨rfl, hstatus⟩
  have hrequested : (earlier ++ .read STATUS status ::
      (between ++ .write COMMAND CMD_READ_CONFIG :: later)).findIdx requestsConfig =
        (earlier ++ .read STATUS status :: between).length := by
    rw [← List.cons_append, ← List.append_assoc]
    refine findIdx_append_cons (List.forall_mem_append.mpr ⟨fun event hevent ↦ ?_,
      List.forall_mem_cons.mpr ⟨rfl, fun event hevent ↦ (hbetween event hevent).requestsConfig_eq⟩⟩)
      (decide_eq_true rfl)
    rw [requestsConfig, hwritten event hevent]
    rfl
  rw [Typing.earlyScancodes, findIdx_append_cons hearlier hdrained, hrequested,
    List.length_append, List.length_cons, Nat.add_sub_cancel_left]

/-- The events of a complete initialisation: the drain up to the status read that ends it, quiet
accesses up to the command to read the configuration byte, and the exchange of the byte. -/
theorem completes_plan (h : Completes budget (plan config) events) :
    ∃ earlier status between readPoll commandPoll dataPoll,
      events = earlier ++ .read STATUS status :: (between ++ .write COMMAND CMD_READ_CONFIG ::
        (readPoll ++ .read DATA config :: (commandPoll ++ .write COMMAND CMD_WRITE_CONFIG ::
          (dataPoll ++ [.write DATA (enabled config)])))) ∧
      (∀ event ∈ earlier, showsEmpty event = false) ∧
      (∀ event ∈ earlier, event.written = none) ∧ status &&& STATUS_OUTPUT_FULL = 0 ∧
      (∀ event ∈ between, Quiet event) ∧ (∀ event ∈ readPoll, Quiet event) ∧
      ∀ event ∈ dataPoll, ∃ status, event = PortEvent.read STATUS status := by
  cases h with | ready hdrain h
  cases h with | ready henable h
  cases h with | ready hrequest h
  cases h with | ready hreadable h
  cases h with | ready hcommand h
  cases h with | ready hdata h
  cases h
  rename_i drainPoll enablePoll requestPoll readPoll commandPoll dataPoll
  obtain ⟨earlier, status, rfl, hstatus, hearlier⟩ := drain_ready hdrain rfl
  refine ⟨earlier, status, enablePoll ++ .write COMMAND CMD_ENABLE_FIRST_PORT :: requestPoll,
    readPoll, commandPoll, dataPoll, ?_, hearlier,
    (List.forall_mem_append.mp (Wait.polled hdrain).written).1, hstatus, ?_,
    fun event hevent ↦ quiet_status (Wait.statusReads (by decide) hreadable event hevent),
    Wait.statusReads (by decide) hdata⟩
  · simp only [Option.toList_none, Option.toList_some, List.append_assoc, List.nil_append,
      List.append_nil, List.cons_append]
  · refine List.forall_mem_append.mpr ⟨fun event hevent ↦ ?_, List.forall_mem_cons.mpr
      ⟨⟨rfl, by decide⟩, fun event hevent ↦ ?_⟩⟩
    · exact quiet_status (Wait.statusReads (by decide) henable event hevent)
    · exact quiet_status (Wait.statusReads (by decide) hrequest event hevent)

/-- What the driver stores is made from the oldest early scancode, and from the configuration byte
when there is none. -/
theorem config_of_completes {last : ℕ × Controller} (h : Completes budget (plan config) events)
    (hanswered : Answered typing.device (0, controller) events last) :
    last.2.config =
      enabled ((typing.earlyScancodes events).head?.getD controller.config) := by
  obtain ⟨earlier, status, between, readPoll, commandPoll, dataPoll, rfl, hearlier, hwritten,
    hstatus, hbetween, hreadPoll, hdataPoll⟩ := completes_plan h
  rw [earlyScancodes_eq hearlier hwritten hstatus hbetween]
  obtain ⟨drained, hdrained, hrest⟩ := answered_append.mp hanswered
  obtain ⟨hshown, hrest⟩ := answered_cons.mp hrest
  obtain ⟨requested, hrequested, hrest⟩ := answered_append.mp hrest
  obtain ⟨_, hrest⟩ := answered_cons.mp hrest
  obtain ⟨readable, hreadable, hrest⟩ := answered_append.mp hrest
  obtain ⟨hread, hrest⟩ := answered_cons.mp hrest
  obtain ⟨commanded, _, hrest⟩ := answered_append.mp hrest
  obtain ⟨_, hrest⟩ := answered_cons.mp hrest
  obtain ⟨storing, hstoring, hrest⟩ := answered_append.mp hrest
  obtain ⟨_, hlast⟩ := answered_cons.mp hrest
  cases hlast
  -- The drain leaves the output buffer empty, and the configuration byte alone.
  have hempty := device_empty ((congrArg (· &&& STATUS_OUTPUT_FULL) hshown).trans hstatus)
  have htime : (typing.device drained (.inb STATUS)).2.1 = earlier.length + 1 := by
    rw [device_status, answered_time hdrained, Nat.zero_add]
  have hconfig : (typing.device drained (.inb STATUS)).2.2.config = controller.config := by
    rw [device_status]
    exact answered_config hdrained hwritten
  -- Up to the command, the early scancodes arrive, and the configuration byte is put behind them.
  obtain ⟨hconfig', houtput⟩ := answered_quiet hrequested hbetween
  have hbuffer := device_request typing requested
  rw [houtput, hempty, hconfig', hconfig, List.nil_append, answered_time hrequested, htime,
    ← flatMap_range'_succ] at hbuffer
  obtain ⟨_, hfull⟩ := answered_quiet hreadable hreadPoll
  rw [hbuffer, List.append_assoc, List.cons_append] at hfull
  rw [device_store (answered_storing hstoring hdataPoll (device_command _ _)) (enabled config)]
  refine congrArg enabled ?_
  -- The driver reads the first byte in the buffer.
  cases hearly : (List.range' (earlier.length + 1) (between.length + 1)).flatMap
      typing.scancodes with
  | nil =>
    rw [hearly, List.nil_append] at hfull
    exact hread.symm.trans (device_read hfull)
  | cons scancode scancodes =>
    rw [hearly, List.cons_append] at hfull
    exact hread.symm.trans (device_read hfull)

/-- Two bytes are stored as the same configuration byte when they agree but for the bits that the
driver sets and clears. -/
theorem enabled_eq_iff {value config : UInt8} :
    enabled value = enabled config ↔
      value ||| (CONFIG_FIRST_PORT_INTERRUPT ||| CONFIG_FIRST_PORT_CLOCK_DISABLED) =
        config ||| (CONFIG_FIRST_PORT_INTERRUPT ||| CONFIG_FIRST_PORT_CLOCK_DISABLED) := by
  have hstored : ∀ bits : BitVec 8,
      (bits ||| 0x01) &&& ~~~0x10#8 = (bits ||| (0x01 ||| 0x10)) &&& ~~~0x10#8 := by decide
  have hmasked : ∀ bits : BitVec 8,
      bits ||| (0x01 ||| 0x10) = ((bits ||| 0x01) &&& ~~~0x10#8) ||| 0x10 := by decide
  rw [← UInt8.toBitVec_inj, ← UInt8.toBitVec_inj]
  constructor
  · intro h
    exact (hmasked value.toBitVec).trans
      ((congrArg (· ||| 0x10#8) h).trans (hmasked config.toBitVec).symm)
  · intro h
    exact (hstored value.toBitVec).trans
      ((congrArg (· &&& ~~~0x10#8) h).trans (hstored config.toBitVec).symm)

end Stored

/-- A run that reports no timeout stores the configuration byte it found, with the first port
enabled, exactly when no scancode arrives between the status read that ends the drain and the
command to read the configuration byte, or the first that does agrees with it in all bits but the
two that the driver sets and clears. -/
theorem init_preserves_config_iff (budget : ℕ) (typing : Typing) (controller : Controller)
    (hcompletes : ∀ message,
      PortEvent.report message ∉ (typing.init budget controller).events) :
    (typing.init budget controller).state.2.config =
        (controller.config ||| 0x01) &&& ~~~0x10 ↔
      ∀ scancode ∈ (typing.earlyScancodes (typing.init budget controller).events).head?,
        scancode ||| 0x11 = controller.config ||| 0x11 := by
  obtain ⟨config, hexecutes⟩ := init_executes
    (run_runs typing.device (Ps2.init budget) (0, controller))
  have hstored := config_of_completes (hexecutes.completes hcompletes)
    (run_answered typing.device (Ps2.init budget) (0, controller))
  have hsaved : (typing.init budget controller).state.2.config =
      enabled ((typing.earlyScancodes (typing.init budget controller).events).head?.getD
        controller.config) := hstored
  rw [hsaved]
  cases (typing.earlyScancodes (typing.init budget controller).events).head? with
  | none => exact iff_of_true rfl fun scancode hmem ↦ absurd hmem (Option.not_mem_none scancode)
  | some scancode =>
    refine enabled_eq_iff.trans ⟨fun h other hother ↦ ?_, fun h ↦ h scancode rfl⟩
    obtain rfl : scancode = other := Option.some.inj hother
    exact h

/-- Nothing is typed, and the other status bits are clear. -/
def nothingTyped : Typing where
  scancodes _ := []
  idle _ := 0

/-- A key is pressed right after the drain of `translating`. -/
def keyTyped : Typing where
  scancodes time := if time = 3 then [0x1e] else []
  idle _ := 0

/-- A controller as firmware may leave it: a byte is unread, and the translation bit is set. -/
def translating : Controller where
  output := [0xfa]
  config := 0x65
  storing := false

theorem report_notMem {events : List PortEvent} (h : events.all PortEvent.isAccess = true)
    (message : String) : PortEvent.report message ∉ events :=
  fun hmem ↦ absurd (List.all_eq_true.mp h _ hmem) Bool.false_ne_true

theorem init_preserves_config_translating :
    (∀ message, PortEvent.report message ∉ (nothingTyped.init SPIN_BUDGET translating).events) ∧
      ((nothingTyped.init SPIN_BUDGET translating).state.2.config =
          (translating.config ||| 0x01) &&& ~~~0x10 ↔
        ∀ scancode ∈
            (nothingTyped.earlyScancodes
              (nothingTyped.init SPIN_BUDGET translating).events).head?,
          scancode ||| 0x11 = translating.config ||| 0x11) ∧
      (nothingTyped.init SPIN_BUDGET translating).state.2.config = 0x65 :=
  ⟨report_notMem rfl,
    init_preserves_config_iff SPIN_BUDGET nothingTyped translating (report_notMem rfl), rfl⟩

/-- The scancode of a key pressed after the drain is taken for the configuration byte, and the
translation bit is lost. -/
theorem keyTyped_loses_config :
    (∀ message, PortEvent.report message ∉ (keyTyped.init SPIN_BUDGET translating).events) ∧
      (keyTyped.init SPIN_BUDGET translating).state.2.config = 0x0f ∧
      (keyTyped.init SPIN_BUDGET translating).state.2.config ≠
        (translating.config ||| 0x01) &&& ~~~0x10 := by
  have hconfig : (keyTyped.init SPIN_BUDGET translating).state.2.config = 0x0f := rfl
  refine ⟨report_notMem rfl, hconfig, ?_⟩
  rw [hconfig]
  decide

end Ps2

end RustBL
