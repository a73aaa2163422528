import RustBL.Kernel.Ps2.Init
import Mathlib.Algebra.BigOperators.Group.List.Basic
import Mathlib.Algebra.Order.Ring.Nat
import Mathlib.Data.List.Infix

/-!
# The discipline of the PS/2 initialisation

The controller loses a byte that is written while its input buffer is full, and a byte that is read
while its output buffer is empty means nothing. `Orderly` says that the event right before every
write is a status read with the first of these bits clear, and right before every read of the data
port one with the other bit set. It holds of the accesses of every wait (`Wait.polled`) and is kept
by sequences, so it holds of every execution of a plan whose accesses suit their waits
(`Executes.orderly`).

`init_disciplined` is about every spin budget and every sequence of bytes that the device may reply
with: the number of accesses is bounded, the accesses are orderly, the writes follow the protocol,
and a wait that timed out is the last thing but a report.
-/

set_option autoImplicit false
set_option relaxedAutoImplicit false

namespace RustBL

open Interaction

namespace Ps2

/-! ### Orderly accesses -/

/-- The events before an event end with the status read that allows it. -/
def Preceded (before : List PortEvent) : PortEvent → Prop
  | ⟨.outb _ _, _⟩ => ∃ earlier status, before = earlier ++ [.read STATUS status] ∧
      status &&& STATUS_INPUT_FULL = 0
  | ⟨.inb port, _⟩ => port = DATA → ∃ earlier status, before = earlier ++ [.read STATUS status] ∧
      status &&& STATUS_OUTPUT_FULL ≠ 0
  | ⟨.kprintln _, _⟩ => True

/-- Every write and every read of the data port is right behind the status read that allows it. -/
def Orderly (events : List PortEvent) : Prop :=
  ∀ before event after, events = before ++ event :: after → Preceded before event

section Orderly

variable {events later before : List PortEvent} {event : PortEvent} {status : UInt8}

theorem Preceded.append (h : Preceded before event) (earlier : List PortEvent) :
    Preceded (earlier ++ before) event := by
  obtain ⟨request, reply⟩ := event
  cases request with
  | inb port =>
    intro hport
    obtain ⟨first, status, rfl, hstatus⟩ := h hport
    exact ⟨earlier ++ first, status, (List.append_assoc _ _ _).symm, hstatus⟩
  | outb port value =>
    obtain ⟨first, status, rfl, hstatus⟩ := h
    exact ⟨earlier ++ first, status, (List.append_assoc _ _ _).symm, hstatus⟩
  | kprintln message => trivial

theorem preceded_status (before : List PortEvent) (status : UInt8) :
    Preceded before (.read STATUS status) :=
  fun hport ↦ absurd hport (by decide)

theorem orderly_nil : Orderly [] :=
  fun before event after h ↦ absurd h (by simp)

theorem Orderly.append (h : Orderly events) (hlater : Orderly later) :
    Orderly (events ++ later) := by
  intro before event after heq
  rcases List.append_eq_append_iff.mp heq with ⟨middle, rfl, hsplit⟩ | ⟨middle, rfl, hsplit⟩
  · exact (hlater middle event after hsplit).append events
  · cases middle with
    | nil =>
      have hfirst := (hlater [] event after hsplit.symm).append before
      rwa [List.append_nil] at hfirst
    | cons first middle =>
      obtain ⟨rfl, rfl⟩ := List.cons.inj hsplit
      exact h before event middle rfl

theorem Orderly.concat (h : Orderly events) (hevent : Preceded events event) :
    Orderly (events ++ [event]) := by
  intro before other after heq
  rcases List.append_eq_append_iff.mp heq with ⟨middle, rfl, hsplit⟩ | ⟨middle, rfl, hsplit⟩
  · obtain ⟨rfl, hlast⟩ | ⟨rest, rfl, hempty⟩ := List.cons_eq_append_iff.mp hsplit
    · obtain ⟨rfl, _⟩ := List.cons.inj hlast
      rwa [List.append_nil]
    · simp at hempty
  · cases middle with
    | nil =>
      obtain ⟨rfl, _⟩ := List.cons.inj hsplit
      rwa [List.append_nil] at hevent
    | cons first middle =>
      obtain ⟨rfl, rfl⟩ := List.cons.inj hsplit
      exact h before other middle rfl

end Orderly

/-! ### Waits -/

/-- The status that ends a wait. -/
def Wait.Ready (status : UInt8) : Wait → Prop
  | .drain => status &&& STATUS_OUTPUT_FULL = 0
  | .writable => status &&& STATUS_INPUT_FULL = 0
  | .readable => status &&& STATUS_OUTPUT_FULL ≠ 0

/-- The number of accesses of one turn of a wait. -/
def Wait.cost : Wait → ℕ
  | .drain => 2
  | _ => 1

/-- What the accesses of a wait are: orderly, not writes, at most `cost` of them, and behind the
last turn of a wait that succeeded the status that ended it. -/
structure Polled (wait : Wait) (cost : ℕ) (poll : List PortEvent) (ready : Bool) : Prop where
  orderly : Orderly poll
  written : ∀ event ∈ poll, event.written = none
  length_le : poll.length ≤ cost
  last : ready = true → ∃ earlier status, poll = earlier ++ [.read STATUS status] ∧
    wait.Ready status

section Waits

variable {wait : Wait} {budget : ℕ} {poll : List PortEvent} {ready : Bool}

theorem orderly_status (status : UInt8) : Orderly [.read STATUS status] :=
  orderly_nil.concat (preceded_status [] status)

theorem polled_nil : Polled wait 0 [] false :=
  ⟨orderly_nil, List.forall_mem_nil _, le_rfl, fun h ↦ absurd h Bool.false_ne_true⟩

/-- The status that ends a wait. -/
theorem polled_last {status : UInt8} {cost : ℕ} (hcost : 1 ≤ cost) (hstatus : wait.Ready status) :
    Polled wait cost [.read STATUS status] true :=
  ⟨orderly_status status, List.forall_mem_singleton.mpr rfl, hcost,
    fun _ ↦ ⟨[], status, rfl, hstatus⟩⟩

/-- A turn in front of the rest of a wait. -/
theorem Polled.append {events : List PortEvent} {cost : ℕ} (h : Polled wait cost poll ready)
    (horderly : Orderly events) (hwritten : ∀ event ∈ events, event.written = none) :
    Polled wait (cost + events.length) (events ++ poll) ready := by
  refine ⟨horderly.append h.orderly, List.forall_mem_append.mpr ⟨hwritten, h.written⟩, ?_,
    fun hready ↦ ?_⟩
  · rw [List.length_append, Nat.add_comm]
    exact Nat.add_le_add_right h.length_le _
  · obtain ⟨earlier, status, rfl, hstatus⟩ := h.last hready
    exact ⟨events ++ earlier, status, (List.append_assoc _ _ _).symm, hstatus⟩

theorem polled_pollStatus {wanted : UInt8 → Bool}
    (hwanted : ∀ status, wanted status = true → wait.Ready status)
    (h : Runs (pollStatus wanted budget) poll ready) : Polled wait budget poll ready :=
  runs_pollStatus (motive := fun budget ↦ Polled wait budget) polled_nil
    (fun _ status hstatus ↦ polled_last (Nat.le_add_left _ _) (hwanted status hstatus))
    (fun _ status _ _ ih ↦ ih.append (orderly_status status) (List.forall_mem_singleton.mpr rfl)) h

/-- The drain reads a data byte in every turn but the last. -/
theorem polled_drain (h : Runs (drain budget) poll ready) :
    Polled .drain (2 * budget) poll ready := by
  refine runs_drain (motive := fun budget ↦ Polled .drain (2 * budget)) polled_nil
    (fun budget status hempty ↦ polled_last (by omega) hempty)
    (fun budget status byte later ready hfull ih ↦ ?_) h
  have horderly : Orderly [PortEvent.read STATUS status, .read DATA byte] :=
    (orderly_status status).concat fun _ ↦ ⟨[], status, rfl, hfull⟩
  exact ih.append horderly (List.forall_mem_cons.mpr ⟨rfl, List.forall_mem_singleton.mpr rfl⟩)

/-- The accesses of every wait, as far as it gets. -/
theorem Wait.polled (h : Runs (wait.program budget) poll ready) :
    Polled wait (wait.cost * budget) poll ready := by
  cases wait with
  | drain => exact polled_drain h
  | writable =>
    have hcost : Wait.writable.cost * budget = budget := Nat.one_mul budget
    rw [hcost]
    refine polled_pollStatus (fun status hstatus ↦ ?_) h
    simpa only [Wait.Ready, decide_eq_true_eq] using hstatus
  | readable =>
    have hcost : Wait.readable.cost * budget = budget := Nat.one_mul budget
    rw [hcost]
    refine polled_pollStatus (fun status hstatus ↦ ?_) h
    simpa only [Wait.Ready, decide_eq_true_eq] using hstatus

/-- Waiting for anything but an empty buffer reads the status only. -/
theorem Wait.statusReads (hwait : wait ≠ .drain) (h : Runs (wait.program budget) poll ready) :
    ∀ event ∈ poll, ∃ status, event = PortEvent.read STATUS status := by
  have hpoll {wanted : UInt8 → Bool} (h : Runs (pollStatus wanted budget) poll ready) :
      ∀ event ∈ poll, ∃ status, event = PortEvent.read STATUS status :=
    runs_pollStatus (motive := fun _ poll _ ↦ ∀ event ∈ poll, ∃ status,
      event = PortEvent.read STATUS status) (List.forall_mem_nil _)
      (fun _ status _ ↦ List.forall_mem_singleton.mpr ⟨status, rfl⟩)
      (fun _ status _ _ ih ↦ List.forall_mem_cons.mpr ⟨⟨status, rfl⟩, ih⟩) h
  cases wait with
  | drain => exact absurd rfl hwait
  | writable => exact hpoll h
  | readable => exact hpoll h

end Waits

/-! ### Executions -/

/-- The event is no status read, and allowed behind the status that ends the wait. -/
def Wait.Allows (wait : Wait) (event : PortEvent) : Prop :=
  (∀ status, event ≠ .read STATUS status) ∧
    ∀ before status, wait.Ready status → Preceded (before ++ [.read STATUS status]) event

/-- Every access of the steps is one that its wait allows. -/
def Suited (steps : List Step) : Prop :=
  ∀ step ∈ steps, ∀ event ∈ step.2, step.1.Allows event

/-- A wait of an execution, with what follows it. -/
structure Stage where
  /-- What was waited for. -/
  wait : Wait
  /-- The accesses of the wait. -/
  poll : List PortEvent
  /-- It did not time out. -/
  ready : Bool
  /-- The events between this wait and the next one. -/
  rest : List PortEvent

/-- The events of a stage. -/
def Stage.events (stage : Stage) : List PortEvent :=
  stage.poll ++ stage.rest

/-- The stages of some events: they are the events, in order; each begins with a complete run of its
wait; the events behind it are no part of a wait; and nothing is written behind a wait that timed
out. -/
structure Stages (budget : ℕ) (waits : List Wait) (events : List PortEvent)
    (stages : List Stage) : Prop where
  events_eq : events = stages.flatMap Stage.events
  waits_eq : stages.map Stage.wait <+: waits
  poll : ∀ stage ∈ stages, Runs (stage.wait.program budget) stage.poll stage.ready
  rest : ∀ stage ∈ stages, ∀ event ∈ stage.rest, ∀ status, event ≠ .read STATUS status
  quiet : ∀ earlier stage later, stages = earlier ++ stage :: later → stage.ready = false →
    ∀ event ∈ stage.rest ++ later.flatMap Stage.events, event.written = none

section Executions

variable {budget : ℕ} {steps : List Step} {events : List PortEvent}

theorem Wait.allows_write (port : UInt16) (value : UInt8) :
    Wait.writable.Allows (.write port value) :=
  ⟨fun _ h ↦ absurd (congrArg PortEvent.written h) (Option.some_ne_none _),
    fun before status h ↦ ⟨before, status, rfl, h⟩⟩

theorem Wait.allows_read (value : UInt8) : Wait.readable.Allows (.read DATA value) := by
  refine ⟨fun status h ↦ ?_, fun before status h _ ↦ ⟨before, status, rfl, h⟩⟩
  have hport : DATA = STATUS := PortRequest.inb.inj (congrArg Sigma.fst h)
  exact absurd hport (by decide)

theorem suited_plan (config : UInt8) : Suited (plan config) := by
  intro step hstep event hevent
  simp only [plan, List.mem_cons, List.not_mem_nil, or_false] at hstep
  rcases hstep with rfl | rfl | rfl | rfl | rfl | rfl
  · exact absurd hevent (Option.not_mem_none event)
  all_goals
    obtain rfl := Option.some.inj hevent
  · exact Wait.allows_write _ _
  · exact Wait.allows_write _ _
  · exact Wait.allows_read config
  · exact Wait.allows_write _ _
  · exact Wait.allows_write _ _

theorem Executes.orderly (h : Executes budget steps events) (hsuited : Suited steps) :
    Orderly events := by
  induction h with
  | finished => exact orderly_nil
  | timedOut message hpoll => exact (Wait.polled hpoll).orderly.concat trivial
  | ready hpoll _ ih =>
    rename_i wait access steps poll rest _
    have hpolled := Wait.polled hpoll
    rw [Suited, List.forall_mem_cons] at hsuited
    rw [← List.append_assoc]
    refine Orderly.append ?_ (ih hsuited.2)
    cases access with
    | none =>
      rw [Option.toList_none, List.append_nil]
      exact hpolled.orderly
    | some event =>
      refine hpolled.orderly.concat ?_
      obtain ⟨earlier, status, rfl, hstatus⟩ := hpolled.last rfl
      exact (hsuited.1 event rfl).2 earlier status hstatus

/-- An execution makes at most the accesses of its waits and of its steps. -/
theorem Executes.accesses_le (h : Executes budget steps events) :
    events.countP PortEvent.isAccess ≤
      (steps.map fun step ↦ step.1.cost * budget + step.2.toList.length).sum := by
  induction h with
  | finished => exact le_rfl
  | timedOut message hpoll =>
    rename_i poll
    have hcount : poll.countP PortEvent.isAccess ≤ poll.length := List.countP_le_length
    have hlength := (Wait.polled hpoll).length_le
    have hreport : [PortEvent.report message].countP PortEvent.isAccess = 0 := rfl
    rw [List.countP_append, hreport, List.map_cons, List.sum_cons]
    dsimp only
    omega
  | ready hpoll _ ih =>
    rename_i access _ poll _ _
    have hcount : poll.countP PortEvent.isAccess ≤ poll.length := List.countP_le_length
    have haccess : access.toList.countP PortEvent.isAccess ≤ access.toList.length :=
      List.countP_le_length
    have hlength := (Wait.polled hpoll).length_le
    rw [List.countP_append, List.countP_append, List.map_cons, List.sum_cons]
    dsimp only
    omega

/-- The writes of an execution are those of its steps, as far as it gets. -/
theorem Executes.written (h : Executes budget steps events) :
    events.filterMap PortEvent.written <+: steps.filterMap (·.2.bind PortEvent.written) := by
  induction h with
  | finished => exact List.prefix_rfl
  | timedOut message hpoll =>
    have hnone := List.filterMap_eq_nil_iff.mpr (Wait.polled hpoll).written
    rw [List.filterMap_append, hnone]
    exact List.nil_prefix
  | ready hpoll _ ih =>
    rename_i access _ _ _ _
    have hnone := List.filterMap_eq_nil_iff.mpr (Wait.polled hpoll).written
    rw [List.filterMap_append, hnone, List.nil_append, List.filterMap_append]
    cases access with
    | none => exact ih
    | some event =>
      have hstep : (some event).bind PortEvent.written = event.written := rfl
      rw [Option.toList_some, List.filterMap_cons, List.filterMap_nil, List.filterMap_cons]
      dsimp only
      rw [hstep]
      cases event.written with
      | none => exact ih
      | some write => exact List.cons_prefix_cons.mpr ⟨rfl, ih⟩

/-- An execution consists of stages. -/
theorem Executes.stages (h : Executes budget steps events) (hsuited : Suited steps) :
    ∃ stages, Stages budget (steps.map Prod.fst) events stages := by
  induction h with
  | finished =>
    exact ⟨[], rfl, List.prefix_rfl, List.forall_mem_nil _, List.forall_mem_nil _,
      fun earlier stage later h ↦ absurd h (by simp)⟩
  | timedOut message hpoll =>
    rename_i wait access steps poll
    refine ⟨[⟨wait, poll, false, [.report message]⟩], (List.append_nil _).symm, ?_, ?_, ?_, ?_⟩
    · exact List.prefix_append [wait] _
    · exact List.forall_mem_singleton.mpr hpoll
    · exact List.forall_mem_singleton.mpr
        (List.forall_mem_singleton.mpr fun _ h ↦ nomatch congrArg Sigma.fst h)
    · intro earlier stage later heq _
      obtain ⟨rfl, hlast⟩ | ⟨rest, rfl, hempty⟩ := List.cons_eq_append_iff.mp heq
      · obtain ⟨rfl, rfl⟩ := List.cons.inj hlast
        exact List.forall_mem_singleton.mpr rfl
      · simp at hempty
  | ready hpoll _ ih =>
    rename_i wait access steps poll rest _
    rw [Suited, List.forall_mem_cons] at hsuited
    obtain ⟨stages, hstages⟩ := ih hsuited.2
    refine ⟨⟨wait, poll, true, access.toList⟩ :: stages, ?_, ?_, ?_, ?_, ?_⟩
    · rw [List.flatMap_cons, ← hstages.events_eq, Stage.events, List.append_assoc]
    · exact List.cons_prefix_cons.mpr ⟨rfl, hstages.waits_eq⟩
    · exact List.forall_mem_cons.mpr ⟨hpoll, hstages.poll⟩
    · refine List.forall_mem_cons.mpr ⟨fun event hevent ↦ ?_, hstages.rest⟩
      exact (hsuited.1 event (Option.mem_toList.mp hevent)).1
    · intro earlier stage later heq hready
      obtain ⟨rfl, hfirst⟩ | ⟨passed, rfl, hlater⟩ := List.cons_eq_append_iff.mp heq
      · obtain ⟨rfl, _⟩ := List.cons.inj hfirst
        exact absurd hready.symm Bool.false_ne_true
      · exact hstages.quiet passed stage later hlater hready

end Executions

/-! ### The configuration byte -/

/-- The byte of a read of the data port. -/
def dataRead : PortEvent → Option UInt8
  | ⟨.inb port, value⟩ => if port = DATA then some value else none
  | _ => none

/-- The first data byte that is read behind the command to read the configuration byte. -/
def configRead : List PortEvent → Option UInt8
  | [] => none
  | event :: later =>
    if event.written = some (COMMAND, CMD_READ_CONFIG) then later.findSome? dataRead
    else configRead later

section ConfigRead

variable {budget : ℕ} {config : UInt8} {events later : List PortEvent}

theorem configRead_append
    (h : ∀ event ∈ events, event.written ≠ some (COMMAND, CMD_READ_CONFIG)) :
    configRead (events ++ later) = configRead later := by
  induction events with
  | nil => rfl
  | cons event events ih =>
    rw [List.forall_mem_cons] at h
    rw [List.cons_append, configRead, if_neg h.1, ih h.2]

theorem configRead_poll {wait : Wait} {poll : List PortEvent} {ready : Bool}
    (h : Runs (wait.program budget) poll ready) :
    configRead (poll ++ later) = configRead later := by
  refine configRead_append fun event hevent ↦ ?_
  rw [(Wait.polled h).written event hevent]
  exact (Option.some_ne_none _).symm

/-- Past its fourth step, the plan has read the configuration byte. -/
theorem configRead_of_completes (h : Completes budget ((plan config).take 4) events) :
    configRead (events ++ later) = some config := by
  have hsteps : Completes budget [(.drain, none),
    (.writable, some (.write COMMAND CMD_ENABLE_FIRST_PORT)),
    (.writable, some (.write COMMAND CMD_READ_CONFIG)),
    (.readable, some (.read DATA config))] events := h
  cases hsteps with | ready hdrain hsteps
  cases hsteps with | ready henable hsteps
  cases hsteps with | ready hrequest hsteps
  cases hsteps with | ready hreadable hsteps
  simp only [Option.toList_none, Option.toList_some, List.append_assoc, List.nil_append,
    List.singleton_append]
  rename_i poll _
  have hstatus : ∀ event ∈ poll, dataRead event = none := by
    intro event hevent
    obtain ⟨status, rfl⟩ := Wait.statusReads (by decide) hreadable event hevent
    rfl
  have henabled : (PortEvent.write COMMAND CMD_ENABLE_FIRST_PORT).written ≠
    some (COMMAND, CMD_READ_CONFIG) := by decide
  have hrequested : (PortEvent.write COMMAND CMD_READ_CONFIG).written =
    some (COMMAND, CMD_READ_CONFIG) := rfl
  rw [configRead_poll hdrain, configRead_poll henable, List.cons_append, configRead,
    if_neg henabled, List.append_assoc, configRead_poll hrequest, List.cons_append, configRead,
    if_pos hrequested, List.append_assoc, List.findSome?_append,
    List.findSome?_eq_none_iff.mpr hstatus, Option.none_or]
  rfl

/-- The writes of the initialisation are the commands of the protocol up to some point, or all of
them with the byte that was read. -/
theorem written_of_executes (h : Executes budget (plan config) events) :
    events.filterMap PortEvent.written <+:
        [(COMMAND, CMD_ENABLE_FIRST_PORT), (COMMAND, CMD_READ_CONFIG),
          (COMMAND, CMD_WRITE_CONFIG)] ∨
      configRead events = some config ∧ events.filterMap PortEvent.written =
        [(COMMAND, CMD_ENABLE_FIRST_PORT), (COMMAND, CMD_READ_CONFIG),
          (COMMAND, CMD_WRITE_CONFIG), (DATA, enabled config)] := by
  have hwritten : events.filterMap PortEvent.written <+: [(COMMAND, CMD_ENABLE_FIRST_PORT),
      (COMMAND, CMD_READ_CONFIG), (COMMAND, CMD_WRITE_CONFIG)] ++
        [(DATA, enabled config)] := h.written
  have hsplit : plan config = (plan config).take 4 ++ (plan config).drop 4 :=
    (List.take_append_drop 4 _).symm
  rw [hsplit] at h
  rcases h.split with hstopped | ⟨front, back, rfl, hfront, _⟩
  · exact Or.inl (hstopped.written.trans (List.prefix_append _ _))
  rcases List.prefix_concat_iff.mp hwritten with heq | hprefix
  · exact Or.inr ⟨configRead_of_completes hfront, heq⟩
  · exact Or.inl hprefix

end ConfigRead

/-! ### The discipline -/

/-- A device that replies with the given bytes, one for each read. -/
def replay (bytes : ℕ → UInt8) (turn : ℕ) : (request : PortRequest) → request.Reply × ℕ
  | .inb _ => (bytes turn, turn + 1)
  | .outb _ _ => ((), turn)
  | .kprintln _ => ((), turn)

/-- The events of the initialisation on that device. -/
def initEvents (budget : ℕ) (bytes : ℕ → UInt8) : List PortEvent :=
  ((init budget).run (replay bytes) 0).events

/-- The initialisation against any device. For every spin budget and every sequence of bytes that
reads may return, `init` makes at most `7 * budget + 5` accesses; each of its writes is right behind
a status read with the input buffer free, and each of its data reads right behind one with the
output buffer full; what it writes is a prefix of the protocol, the last byte being made from the
data byte read behind the command to read the configuration byte; and nothing is written after a
wait that timed out. -/
theorem init_disciplined (budget : ℕ) (bytes : ℕ → UInt8) :
    (initEvents budget bytes).countP PortEvent.isAccess ≤ 7 * budget + 5 ∧
    (∀ before port value after, initEvents budget bytes = before ++ .write port value :: after →
      ∃ earlier status, before = earlier ++ [.read STATUS status] ∧
        status &&& STATUS_INPUT_FULL = 0) ∧
    (∀ before value after, initEvents budget bytes = before ++ .read DATA value :: after →
      ∃ earlier status, before = earlier ++ [.read STATUS status] ∧
        status &&& STATUS_OUTPUT_FULL ≠ 0) ∧
    ((initEvents budget bytes).filterMap PortEvent.written <+:
        [(COMMAND, CMD_ENABLE_FIRST_PORT), (COMMAND, CMD_READ_CONFIG),
          (COMMAND, CMD_WRITE_CONFIG)] ∨
      ∃ config, configRead (initEvents budget bytes) = some config ∧
        (initEvents budget bytes).filterMap PortEvent.written =
          [(COMMAND, CMD_ENABLE_FIRST_PORT), (COMMAND, CMD_READ_CONFIG),
            (COMMAND, CMD_WRITE_CONFIG), (DATA, enabled config)]) ∧
    ∃ stages, Stages budget [.drain, .writable, .writable, .readable, .writable, .writable]
      (initEvents budget bytes) stages := by
  obtain ⟨config, hexec⟩ := init_executes (run_runs (replay bytes) (init budget) 0)
  have horderly := hexec.orderly (suited_plan config)
  refine ⟨?_, fun before port value after h ↦ horderly before _ after h,
    fun before value after h ↦ horderly before _ after h rfl, ?_,
    hexec.stages (suited_plan config)⟩
  · refine hexec.accesses_le.trans ?_
    simp only [plan, Wait.cost, List.map_cons, List.map_nil, List.sum_cons, List.sum_nil,
      Option.toList_none, Option.toList_some, List.length_nil, List.length_singleton]
    omega
  · exact (written_of_executes hexec).imp_right fun h ↦ ⟨config, h⟩

end Ps2

end RustBL
