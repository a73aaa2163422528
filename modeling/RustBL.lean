import RustBL.Library.Bytes
import RustBL.Library.Checked
import RustBL.Library.Contract
import RustBL.Library.Coupling
import RustBL.Library.Fields
import RustBL.Library.Interaction
import RustBL.Library.Interference
import RustBL.Library.Loop
import RustBL.Library.Memory
import RustBL.Library.Preemption
import RustBL.Library.Runs
import RustBL.Library.Sharing
import RustBL.Library.Spans
import RustBL.Library.Words
import RustBL.BootInfo.Layout
import RustBL.BootInfo.MemoryMap
import RustBL.BootInfo.Iteration
import RustBL.BootInfo.UsableFrames
import RustBL.Kernel.Heap.Allocator
import RustBL.Kernel.Heap.BlockList
import RustBL.Kernel.Heap.Canonical
import RustBL.Kernel.Heap.Refinement
import RustBL.Kernel.Heap.Safety
import RustBL.Kernel.Heap.FirstFit
import RustBL.Kernel.Heap.Arithmetic
import RustBL.Kernel.Frame.Allocator
import RustBL.Kernel.Frame.Cursor
import RustBL.Kernel.Frame.Refinement
import RustBL.Kernel.Frame.Safety
import RustBL.Kernel.Frame.Accounting
import RustBL.Kernel.Frame.Contiguous
import RustBL.Kernel.Frame.Stack
import RustBL.Kernel.Frame.Untrusted
import RustBL.Kernel.Frame.Selftest
import RustBL.Kernel.Frame.Refusal
import RustBL.Kernel.Startup
import RustBL.Kernel.Memory.Bringup
import RustBL.Kernel.Memory.System
import RustBL.Kernel.Interrupts.Machine
import RustBL.Kernel.Interrupts.Critical
import RustBL.Kernel.Ps2.Init
import RustBL.Kernel.Ps2.Discipline
import RustBL.Kernel.Ps2.Configuration
import RustBL.Kernel.Tables.Processor
import RustBL.Kernel.Tables.Gdt
import RustBL.Kernel.Tables.Idt
import RustBL.Kernel.Tables.Delivery
import RustBL.Kernel.Interrupts.Pic
import RustBL.Kernel.Interrupts.Board
import RustBL.Kernel.Interrupts.Service
import RustBL.Kernel.Interrupts.Verdict
import RustBL.Kernel.Interrupts.Bringup
import RustBL.Kernel.Interrupts.System
import RustBL.Boot.Reservation
import RustBL.Boot.Promises
import RustBL.Boot.Entry
import RustBL.Boot.Run
import RustBL.Bootloader.File
import RustBL.Bootloader.Handoff
import RustBL.Bootloader.Main
import RustBL.Bootloader.Elf.Acceptance
import RustBL.Bootloader.Elf.EntryPoint
import RustBL.Bootloader.Elf.Placement
import RustBL.Bootloader.Elf.Safety
import RustBL.Bootloader.Elf.EmptySegment
import RustBL.Kernel.Console.Drawing
import RustBL.Kernel.Console.Layout
import RustBL.Kernel.Console.Safety
import RustBL.Kernel.Console.Tail
import RustBL.Kernel.FillScreen
import RustBL.Xtask.Screenshot
import RustBL.Xtask.Capture
