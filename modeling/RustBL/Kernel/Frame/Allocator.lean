import RustBL.BootInfo.MemoryMap
import RustBL.Library.Loop
import RustBL.Library.Memory

/-!
# The physical frame allocator

The allocator has two sources. Frames that were given back form a stack, and each node of the stack
is stored in the first eight bytes of the free frame itself. Everything else comes from a bump
cursor over the usable runs of the memory map. `FrameAllocator.bump` moves to the next run when the
current one is too short, after it has pushed the frames left over onto the stack.

As in the heap, functions take the memory and return the memory they leave, arithmetic is checked,
and loops run on a turn budget. The static allocator is an `Option`: it is `none` before `init` and
after an `init` that found no usable memory.
-/

set_option autoImplicit false
set_option relaxedAutoImplicit false

namespace RustBL

/-- `NonNull::new`, and the meaning of a stored `Option<NonNull<_>>`: the null address is `None`. -/
def nonNull (addr : ℕ) : Option ℕ :=
  if addr = 0 then none else some addr

namespace FreeFrame

/-- Read the node stored in the frame at `addr`: the next free frame. -/
def read (m : Mem) (addr : ℕ) : Option ℕ :=
  nonNull (m.load addr 8)

/-- Write a node into the frame at `addr`. -/
def write (m : Mem) (addr : ℕ) (next : Option ℕ) : Mem :=
  m.store addr 8 (next.getD 0)

end FreeFrame

/-- The frame allocator. -/
structure FrameAllocator where
  /-- The runs the bump cursor has not reached yet. -/
  runs : UsableRegions
  /-- The next address of the current run that has not been handed out. -/
  cursor : ℕ
  /-- One past the last usable address of the current run. -/
  runEnd : ℕ
  /-- The top of the stack of free frames. -/
  free : Option ℕ
  /-- The number of frames handed out and not returned. -/
  inUse : ℕ
  deriving DecidableEq, Repr

namespace FrameAllocator

/-- `FrameAllocator::push_free`. -/
def pushFree (allocator : FrameAllocator) (m : Mem) (addr : ℕ) : FrameAllocator × Mem :=
  ({ allocator with free := nonNull addr }, FreeFrame.write m addr allocator.free)

/-- One turn of the inner loop of `FrameAllocator::bump`: push one frame of the current run. -/
def drainTurn : FrameAllocator × Mem → Checked (Turn (FrameAllocator × Mem) (FrameAllocator × Mem))
  | (allocator, m) => do
    let next ← Word.add allocator.cursor PAGE_SIZE
    if next ≤ allocator.runEnd then
      let stranded := allocator.cursor
      return .again (pushFree { allocator with cursor := next } m stranded)
    else return .done (allocator, m)

/-- One turn of the outer loop of `FrameAllocator::bump`. -/
def bumpTurn (fuel wanted : ℕ) : FrameAllocator × Mem →
    Checked (Turn (FrameAllocator × Mem) (Option ℕ × FrameAllocator × Mem))
  | (allocator, m) =>
    if wanted ≤ allocator.runEnd - allocator.cursor then do
      let addr := allocator.cursor
      let cursor ← Word.add allocator.cursor wanted
      return .done (some addr, { allocator with cursor }, m)
    else do
      let (allocator, m) ← loop drainTurn fuel (allocator, m)
      let (run, runs) ← allocator.runs.next
      match run with
      | none => return .done (none, { allocator with runs }, m)
      | some run => do
        let span ← Word.mul run.frames PAGE_SIZE
        let runEnd ← Word.add run.start span
        return .again ({ allocator with runs, cursor := run.start, runEnd }, m)

/-- `FrameAllocator::bump`. -/
def bump (fuel : ℕ) (allocator : FrameAllocator) (m : Mem) (frames : ℕ) :
    Checked (Option ℕ × FrameAllocator × Mem) :=
  match Word.checkedMul frames PAGE_SIZE with
  | none => return (none, allocator, m)
  | some wanted => loop (bumpTurn fuel wanted) fuel (allocator, m)

/-- `FrameAllocator::alloc`. -/
def alloc (fuel : ℕ) (allocator : FrameAllocator) (m : Mem) :
    Checked (Option ℕ × FrameAllocator × Mem) :=
  match allocator.free with
  | some node => do
    let inUse ← Word.add allocator.inUse 1
    return (some node, { allocator with free := FreeFrame.read m node, inUse }, m)
  | none => do
    let (addr, allocator, m) ← bump fuel allocator m 1
    match addr with
    | none => return (none, allocator, m)
    | some addr => do
      let inUse ← Word.add allocator.inUse 1
      return (some addr, { allocator with inUse }, m)

end FrameAllocator

/-! ### The static allocator -/

namespace Frames

/-- One turn of the loop that sums the frames of all runs. -/
def totalTurn : ℕ × UsableRegions → Checked (Turn (ℕ × UsableRegions) ℕ)
  | (total, regions) => do
    let (run, regions) ← regions.next
    match run with
    | none => return .done total
    | some run => do
      let total ← Word.add total run.frames
      return .again (total, regions)

/-- `frame::init`: the number of usable frames, and the allocator that is installed. -/
def init (fuel : ℕ) (regions : List MemoryRegion) : Checked (ℕ × Option FrameAllocator) := do
  let total ← loop totalTurn fuel (0, .new regions)
  if total = 0 then return (0, none)
  else do
    let (run, runs) ← (UsableRegions.new regions).next
    match run with
    | none => return (0, none)
    | some run => do
      let span ← Word.mul run.frames PAGE_SIZE
      let runEnd ← Word.add run.start span
      return (total, some ⟨runs, run.start, runEnd, none, 0⟩)

/-- `frame::alloc_frame`. -/
def allocFrame (fuel : ℕ) (allocator : Option FrameAllocator) (m : Mem) :
    Checked (Option ℕ × Option FrameAllocator × Mem) :=
  match allocator with
  | none => return (none, none, m)
  | some allocator => do
    let (addr, allocator, m) ← allocator.alloc fuel m
    return (addr, some allocator, m)

/-- `frame::dealloc_frame`. -/
def deallocFrame (allocator : Option FrameAllocator) (m : Mem) (addr : ℕ) :
    Option FrameAllocator × Mem :=
  match allocator with
  | none => (none, m)
  | some allocator =>
    let (allocator, m) := allocator.pushFree m addr
    -- The subtraction saturates.
    (some { allocator with inUse := allocator.inUse - 1 }, m)

/-- `frame::alloc_contiguous`. -/
def allocContiguous (fuel : ℕ) (allocator : Option FrameAllocator) (m : Mem) (frames : ℕ) :
    Checked (Option ℕ × Option FrameAllocator × Mem) :=
  match allocator with
  | none => return (none, none, m)
  | some allocator => do
    let (addr, allocator, m) ← allocator.bump fuel m frames
    match addr with
    | none => return (none, some allocator, m)
    | some addr => do
      let inUse ← Word.add allocator.inUse frames
      return (some addr, some { allocator with inUse }, m)

/-- `frame::frames_in_use`. -/
def framesInUse (allocator : Option FrameAllocator) : ℕ :=
  match allocator with
  | none => 0
  | some allocator => allocator.inUse

end Frames

end RustBL
