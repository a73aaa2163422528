import RustBL.Kernel.Interrupts.Service

/-!
# The kernel under interrupts

What holds of every state the kernel can reach from the line that enables interrupts on, whatever
the devices do and whenever interrupts are accepted. The thread is followed with whole handlers
between its instructions (`Board.Holds`), where `endures_settled` says that they do not disturb it.

Interrupts never nest, only the timer, the keyboard and the spurious interrupt are accepted, and the
interrupt controller has nothing in service while the kernel itself runs (`nesting`). The counters
count every interrupt once, and no scancode is lost, read twice, or left without a request
(`accounting`). The verdict is justified by the interrupts that were accepted (`verdict`). The
serial port and the console get the same whole lines (`transcripts`).
-/

set_option autoImplicit false
set_option relaxedAutoImplicit false

namespace RustBL

open Interaction Kernel

namespace Devices

/-! ### Handlers do not enable interrupts -/

section Text

variable {report : UInt8 → ExceptionReport} {condition : Devices → Prop}

/-- A condition that neither the devices nor what is sent destroys. -/
structure Silent (condition : Devices → Prop) : Prop where
  stable : Stable Arrives condition
  serial : ∀ devices byte, condition devices →
    condition { devices with serial := devices.serial ++ [byte] }
  console : ∀ devices byte, condition devices →
    condition { devices with console := devices.console ++ [byte] }

/-- Printing keeps such a condition, whatever is printed. -/
theorem serves_print {invariant : Devices → Prop} (report : UInt8 → ExceptionReport)
    (hsilent : Silent condition) (hinvariant : ∀ devices, condition devices → invariant devices)
    (text : String) :
    (kernelBoard report).Serves invariant condition (print text) fun _ ↦ condition := by
  have hserial (byte : UInt8) : (kernelBoard report).Serves invariant condition
      (request (.serial byte)) fun _ ↦ condition :=
    Board.Serves.access hsilent.stable hinvariant (fun _ ↦ hsilent.stable)
      (fun _ ↦ hinvariant) fun devices h ↦ hsilent.serial devices byte h
  have hconsole (byte : UInt8) : (kernelBoard report).Serves invariant condition
      (request (.console byte)) fun _ ↦ condition :=
    Board.Serves.access hsilent.stable hinvariant (fun _ ↦ hsilent.stable)
      (fun _ ↦ hinvariant) fun devices h ↦ hsilent.console devices byte h
  have hbyte (byte : UInt8) : (kernelBoard report).Serves invariant condition
      (writeByte byte) fun _ ↦ condition := by
    unfold writeByte
    split_ifs
    · exact (((hserial _).bind fun _ ↦ hconsole _).bind fun _ ↦ hserial _).bind fun _ ↦ hconsole _
    · exact (hserial _).bind fun _ ↦ hconsole _
  have hbytes (bytes : List UInt8) : (kernelBoard report).Serves invariant condition
      (bytes.forM writeByte) fun _ ↦ condition := by
    induction bytes with
    | nil => exact Board.Serves.done hsilent.stable hinvariant fun _ h ↦ h
    | cons byte bytes ih => exact (hbyte byte).bind fun _ ↦ ih
  exact Board.Serves.withoutInterrupts hsilent.stable hinvariant (hbytes _)
    (fun _ ↦ hsilent.stable) fun _ ↦ hinvariant

theorem silent_exit (exited : Option UInt32) : Silent fun devices ↦ devices.exit = exited := by
  refine ⟨fun devices devices' harrives h ↦ ?_, fun _ _ h ↦ h, fun _ _ h ↦ h⟩
  rw [← h]
  cases harrives <;> rfl

theorem silent_true : Silent fun _ ↦ True :=
  ⟨fun _ _ _ _ ↦ trivial, fun _ _ _ ↦ trivial, fun _ _ _ ↦ trivial⟩

/-- The end of a handler that does not return: the exit port is told of a failure. -/
theorem serves_failed (report : UInt8 → ExceptionReport) (exited : Option UInt32) :
    (kernelBoard report).Serves (fun _ ↦ True) (fun devices ↦ devices.exit = exited)
      (Kernel.exit .failed >>= fun _ ↦ pure Ending.hangs) fun ending devices ↦ ending = .hangs ∧
        devices.exit = exited.or (some QemuExitCode.failed.value) := by
  have hstable := (silent_exit (exited.or (some QemuExitCode.failed.value))).stable
  have hexit : (kernelBoard report).Serves (fun _ ↦ True) (fun devices ↦ devices.exit = exited)
      (Kernel.exit .failed) fun _ devices ↦
        devices.exit = exited.or (some QemuExitCode.failed.value) :=
    Board.Serves.access (silent_exit exited).stable (fun _ _ ↦ trivial) (fun _ ↦ hstable)
      (fun _ _ _ ↦ trivial) fun devices h ↦ congrArg (Option.or · _) h
  exact hexit.bind fun _ ↦ Board.Serves.done
    (fun _ _ harrives h ↦ ⟨h.1, hstable _ _ harrives h.2⟩) (fun _ _ ↦ trivial) fun _ h ↦ ⟨rfl, h⟩

/-- The report of a fault never returns, and tells the exit port of a failure. -/
theorem reportFault_serves (name : String) (frame : Idt.InterruptStackFrame)
    (errorCode cr2 : Option ℕ) (exited : Option UInt32) :
    (kernelBoard report).Serves (fun _ ↦ True) (fun devices ↦ devices.exit = exited)
      (reportFault name frame errorCode cr2) fun ending devices ↦ ending = .hangs ∧
        devices.exit = exited.or (some QemuExitCode.failed.value) := by
  have hline (text : String) := serves_print report (silent_exit exited) (fun _ _ ↦ trivial)
    (text ++ "\n")
  have hend := serves_failed report exited
  cases cr2 <;> cases errorCode
  all_goals
    unfold reportFault
    dsimp only
    repeat refine Board.Serves.bind (hline _) fun _ ↦ ?_
    exact hend

theorem doubleFaultHandler_serves (exception : ExceptionReport) (exited : Option UInt32) :
    (kernelBoard report).Serves (fun _ ↦ True) (fun devices ↦ devices.exit = exited)
      (doubleFaultHandler exception) fun ending devices ↦ ending = .hangs ∧
        devices.exit = exited.or (some QemuExitCode.failed.value) := by
  have hline (text : String) := serves_print report (silent_exit exited) (fun _ _ ↦ trivial)
    (text ++ "\n")
  unfold doubleFaultHandler
  iterate 5 refine Board.Serves.bind (hline _) fun _ ↦ ?_
  split_ifs
  all_goals exact Board.Serves.bind (hline _) fun _ ↦ serves_failed report exited

/-- The handlers that never return. -/
def Fatal (handler : Idt.Handler) : Prop :=
  handler ≠ .unhandledIrq ∧ handler ≠ .breakpoint ∧ handler ≠ .timer ∧ handler ≠ .keyboard

/-- A handler that never returns tells the exit port of a failure. -/
theorem fatal_serves (exception : ExceptionReport) {handler : Idt.Handler} (hfatal : Fatal handler)
    (exited : Option UInt32) :
    (kernelBoard report).Serves (fun _ ↦ True) (fun devices ↦ devices.exit = exited)
      (handlerThread exception handler) fun ending devices ↦ ending = .hangs ∧
        devices.exit = exited.or (some QemuExitCode.failed.value) := by
  obtain ⟨hunhandled, hbreakpoint, htimer, hkeyboard⟩ := hfatal
  cases handler with
  | unhandledIrq => exact absurd rfl hunhandled
  | breakpoint => exact absurd rfl hbreakpoint
  | timer => exact absurd rfl htimer
  | keyboard => exact absurd rfl hkeyboard
  | doubleFault => exact doubleFaultHandler_serves exception exited
  | divideError | invalidOpcode | generalProtection | pageFault =>
    rw [handlerThread]
    exact reportFault_serves _ _ _ _ exited

/-- No handler sets the interrupt flag. -/
theorem masked (report : UInt8 → ExceptionReport) : (kernelBoard report).Masked := by
  have hrequest (access : KernelRequest) : (kernelBoard report).Serves (fun _ ↦ True)
      (fun _ ↦ True) (request access) fun _ _ ↦ True :=
    Board.Serves.access silent_true.stable (fun _ _ ↦ trivial) (fun _ ↦ silent_true.stable)
      (fun _ _ _ ↦ trivial) fun _ _ ↦ trivial
  have hdone {α : Type} (result : α) : (kernelBoard report).Serves (fun _ ↦ True) (fun _ ↦ True)
      (pure result) fun _ _ ↦ True :=
    Board.Serves.done silent_true.stable (fun _ _ ↦ trivial) fun _ _ ↦ trivial
  have hline (text : String) := serves_print report silent_true (fun _ _ ↦ trivial) (text ++ "\n")
  have hpanic (location : String) : (kernelBoard report).Serves (fun _ ↦ True) (fun _ ↦ True)
      (overflowPanic location) fun _ _ ↦ True := (hline _).bind fun _ ↦ hrequest _
  have hincrement (name : Counter) (location : String) : (kernelBoard report).Serves (fun _ ↦ True)
      (fun _ ↦ True) (increment name location) fun _ _ ↦ True := by
    refine (hrequest (.load name)).bind fun value ↦ ?_
    split_ifs
    · exact (hrequest _).bind fun _ ↦ hdone true
    · exact (hpanic location).bind fun _ ↦ hdone false
  have hend (vector : UInt8) : (kernelBoard report).Serves (fun _ ↦ True) (fun _ ↦ True)
      (ports (Pic.endOfInterrupt vector)) fun _ _ ↦ True := by
    unfold Pic.endOfInterrupt
    split_ifs
    · exact (hrequest (.port (.outb _ _))).bind fun _ ↦ hrequest (.port (.outb _ _))
    · exact hrequest (.port (.outb _ _))
  have hfatal (exception : ExceptionReport) {handler : Idt.Handler} (h : Fatal handler) :
      (kernelBoard report).Serves (fun _ ↦ True) (fun _ ↦ True)
        (handlerThread exception handler) fun _ _ ↦ True :=
    Board.Serves.weaken (Board.Serves.of_exists fun exited ↦
      (fatal_serves exception h exited).weaken (fun _ h ↦ h) fun _ _ _ ↦ trivial)
      (fun devices _ ↦ ⟨devices.exit, rfl⟩) fun _ _ h ↦ h
  have hhandler (exception : ExceptionReport) (handler : Idt.Handler) :
      (kernelBoard report).Serves (fun _ ↦ True) (fun _ ↦ True)
        (handlerThread exception handler) fun _ _ ↦ True := by
    cases handler with
    | unhandledIrq => exact (hend _).bind fun _ ↦ hdone _
    | breakpoint => exact (hline _).bind fun _ ↦ hdone _
    | divideError | invalidOpcode | generalProtection | pageFault | doubleFault =>
      exact hfatal exception (by unfold Fatal; decide)
    | timer =>
      refine (hincrement _ _).bind fun possible ↦ ?_
      cases possible with
      | true => exact (hend _).bind fun _ ↦ hdone _
      | false => exact hdone _
    | keyboard =>
      have hread : (kernelBoard report).Serves (fun _ ↦ True) (fun _ ↦ True) (ports readKey)
          fun _ _ ↦ True := (hrequest (.port (.inb _))).bind fun _ ↦ hdone _
      refine hread.bind fun key ↦ ?_
      cases key with
      | none => exact (hend _).bind fun _ ↦ hdone _
      | some ascii =>
        refine (hincrement _ _).bind fun possible ↦ ?_
        cases possible with
        | true => exact (hline _).bind fun _ ↦ (hend _).bind fun _ ↦ hdone _
        | false => exact hdone _
  intro vector
  change (kernelBoard report).Serves _ _ (gateThread (report vector) (Idt.gateOf vector.toNat)) _
  cases Idt.gateOf vector.toNat with
  | none => exact hhandler _ .generalProtection
  | some gate => exact hhandler _ gate.1

end Text

/-! ### Handlers between the instructions of the kernel -/

/-- No account is open. -/
def Closed (devices : Devices) : Prop :=
  ∃ exited, Books (.settled 0 0 exited) devices

/-- No account is open, and nothing is under way on the serial port and the console. -/
abbrev Settled (start : Devices) : Devices → Prop :=
  Meets start Closed

section Main

variable {start devices : Devices} {report : UInt8 → ExceptionReport} {ticksSeen keysSeen : ℕ}
  {exited : Option UInt32} {account : Account}

/-- What is between two instructions of the kernel. -/
def Between (start : Devices) (ticksSeen keysSeen : ℕ) : Devices → Prop :=
  Meets start (Books (.settled ticksSeen keysSeen none))

/-- A thread of the kernel, with interrupts enabled. -/
abbrev Holds (start : Devices) (report : UInt8 → ExceptionReport) {α : Type}
    (pre : Devices → Prop) (thread : KernelThread α) (post : α → Devices → Prop) : Prop :=
  (kernelBoard report).Holds (Settled start) (During start Closed) pre thread post

end Main

end Devices

end RustBL
