import RustBL.BootInfo.Layout
import RustBL.Kernel.Frame.Selftest
import RustBL.Kernel.Heap.Allocator

/-!
# Memory management comes up

`startInfo` is what `_start` checks of the record. `kernel_main` seeds the frame allocator from the
memory map, runs the self-test of the frame allocator, and then claims the memory of the heap.
`kernelMainMemory` is that part of it, with the text of each fatal report.

The self-test leaves the cursor behind the first two frames of the map, and the heap's request for
contiguous frames is served from the cursor only. So what decides whether the heap finds its memory
is what the self-test leaves of the runs: `kernelMainMemory_ok_iff`. A map whose only large run is
its first one, and has just the frames the heap asks for, is refused (`exactMap_fatal`).
-/

set_option autoImplicit false
set_option relaxedAutoImplicit false

namespace RustBL

/-- The static allocators of the kernel, and the memory. -/
structure KernelMemory where
  /-- The frame allocator. -/
  frames : Option FrameAllocator
  /-- The heap. -/
  heap : Heap
  /-- The memory. -/
  mem : Mem

/-- `heap::init`: the start and the size of the heap, when its frames were found. -/
def KernelHeap.init (fuel : ℕ) (memory : KernelMemory) :
    Checked (Option (ℕ × ℕ) × KernelMemory) := do
  let (start, frames, mem) ← Frames.allocContiguous fuel memory.frames memory.mem HEAP_FRAMES
  match start with
  | none => return (none, ⟨frames, memory.heap, mem⟩)
  | some start => do
    let size ← Word.mul HEAP_FRAMES PAGE_SIZE
    let (heap, mem) := Heap.init mem start size
    return (some (start, size), ⟨frames, heap, mem⟩)

/-- The part of `kernel_main` from `frame::selftest` to `heap::init`: the start and the size of the
heap, or the reason of a fatal report. -/
def kernelMainHeap (fuel : ℕ) (frames : Option FrameAllocator) (m : Mem) :
    Checked (Except String (ℕ × ℕ) × KernelMemory) := do
  let (checked, frames, mem) ← Frames.selftest fuel frames m
  match checked with
  | .error reason =>
    return (.error ("frame allocator selftest: " ++ reason), ⟨frames, Heap.HEAP, mem⟩)
  | .ok () => do
    let (region, memory) ← KernelHeap.init fuel ⟨frames, Heap.HEAP, mem⟩
    match region with
    | none => return (.error "could not obtain 256 contiguous frames for the heap", memory)
    | some region => return (.ok region, memory)

/-- The part of `kernel_main` that brings memory management up. -/
def kernelMainMemory (fuel : ℕ) (regions : List MemoryRegion) (m : Mem) :
    Checked (Except String (ℕ × ℕ) × KernelMemory) := do
  let (total, frames) ← Frames.init fuel regions
  if total = 0 then
    return (.error "no usable memory regions in the UEFI memory map", ⟨frames, Heap.HEAP, m⟩)
  else kernelMainHeap fuel frames m

section Startup

variable {regions : List MemoryRegion} {allocator : Option FrameAllocator} {m : Mem}
  {run : FrameRun} {rest : List FrameRun} {stack live : List ℕ} {inUse : ℕ}

/-! ### The frames of the heap -/

/-- The list version serves the request of the heap exactly when a run ahead has room. -/
theorem serve_heapFrames (run : FrameRun) (rest : List FrameRun) (stack : List ℕ) (inUse : ℕ)
    (live : List ℕ) : ((ListState.single run rest stack inUse live).serve
      (.allocContiguous HEAP_FRAMES)).1 = none ↔
    ∀ other ∈ run :: rest, other.frames < HEAP_FRAMES := by
  have hfits : HEAP_FRAMES * PAGE_SIZE < 2 ^ 64 := by decide
  rw [← ListAllocator.bumpFrom_eq_none inUse rest run stack]
  simp only [ListState.single, ListState.serve, ListState.answer, Option.bind_some,
    ListAllocator.take, ListAllocator.bump, if_pos hfits]

/-- The heap is refused its frames exactly when every run ahead is too short. -/
theorem kernelHeap_init_decided (hmap : FirmwareMap regions) (heap : Heap)
    (h : Stands regions allocator m (.single run rest stack inUse live)) :
    ∃ bound region memory, (∀ fuel, bound ≤ fuel →
        KernelHeap.init fuel ⟨allocator, heap, m⟩ = .ok (region, memory)) ∧
      (region = none ↔ ∀ other ∈ run :: rest, other.frames < HEAP_FRAMES) := by
  have hallows : (ListState.single run rest stack inUse live).ledger.Allows
    (.allocContiguous HEAP_FRAMES) := trivial
  obtain ⟨start, next, hserve⟩ : ∃ start next, (ListState.single run rest stack inUse live).serve
    (.allocContiguous HEAP_FRAMES) = (start, next) := ⟨_, _, rfl⟩
  obtain ⟨bound, allocator', m', hran, _⟩ := h.answer hmap hallows hserve
  have hframes : ∀ fuel, bound ≤ fuel → Frames.allocContiguous fuel allocator m HEAP_FRAMES =
    .ok (start, allocator', m') := hran
  have hshort := serve_heapFrames run rest stack inUse live
  rw [hserve] at hshort
  cases start with
  | none =>
    refine ⟨bound, none, ⟨allocator', heap, m'⟩, fun fuel hfuel ↦ ?_,
      fun _ ↦ hshort.mp rfl, fun _ ↦ rfl⟩
    rw [KernelHeap.init, hframes fuel hfuel, ok_bind]
    rfl
  | some start =>
    refine ⟨bound, some (start, HEAP_FRAMES * PAGE_SIZE),
      ⟨allocator', (Heap.init m' start (HEAP_FRAMES * PAGE_SIZE)).1,
        (Heap.init m' start (HEAP_FRAMES * PAGE_SIZE)).2⟩, fun fuel hfuel ↦ ?_,
      fun hnone ↦ absurd hnone (Option.some_ne_none _),
      fun hall ↦ absurd (hshort.mpr hall) (Option.some_ne_none _)⟩
    rw [KernelHeap.init, hframes fuel hfuel, ok_bind]
    rfl

/-! ### The sequence -/

/-- `frame::init` over a map with usable memory: `kernel_main` goes on to the self-test. -/
theorem kernelMainMemory_selftest (hmap : FirmwareMap regions) (hruns : runs regions ≠ []) :
    ∃ allocator, (∀ m, Stands regions allocator m (.init regions)) ∧
      ∀ fuel m, (runs regions).length < fuel →
        kernelMainMemory fuel regions m = kernelMainHeap fuel allocator m := by
  obtain ⟨allocator, hinit, hstart⟩ := init_refines hmap
  refine ⟨allocator, fun m ↦ ?_, fun fuel m hfuel ↦ ?_⟩
  · rw [Stands, ← (hstart m).ledger_eq]
    exact hstart m
  · have hpos : (usableFrames regions).length ≠ 0 := by
      obtain ⟨run, hrun⟩ := List.exists_mem_of_ne_nil _ hruns
      obtain ⟨region, _, heq⟩ := List.mem_filterMap.mp hrun
      obtain ⟨_, _, _, _, hframes, _⟩ := runOf_eq_some heq
      have hfirst : run.start ∈ run.list := mem_framesFrom.mpr ⟨0, hframes, by omega⟩
      exact (List.length_pos_of_mem (List.mem_flatMap.mpr ⟨run, hrun, hfirst⟩)).ne'
    rw [kernelMainMemory, hinit fuel hfuel, ok_bind]
    simp only
    rw [if_neg hpos]

/-- With two usable frames the self-test passes, and the heap is found exactly when a run has its
frames behind them; otherwise the report is that there are none. -/
theorem kernelMainMemory_two (hmap : FirmwareMap regions) (m : Mem)
    (hbehind : behind 2 (runs regions) = run :: rest) : ∃ bound result memory,
      (∀ fuel, bound ≤ fuel → kernelMainMemory fuel regions m = .ok (result, memory)) ∧
      (((∃ other ∈ run :: rest, HEAP_FRAMES ≤ other.frames) ∧ ∃ region, result = .ok region) ∨
        ((∀ other ∈ run :: rest, other.frames < HEAP_FRAMES) ∧
          result = .error "could not obtain 256 contiguous frames for the heap")) := by
  have hruns : runs regions ≠ [] := by
    intro hnil
    rw [hnil] at hbehind
    exact nomatch hbehind
  obtain ⟨allocator, hstart, hrest⟩ := kernelMainMemory_selftest hmap hruns
  obtain ⟨bound, allocator', m', _, _, hselftest, hstands⟩ :=
    selftest_of_two hmap (hstart m) hbehind
  obtain ⟨bound', region, memory, hheap, hregion⟩ := kernelHeap_init_decided hmap Heap.HEAP hstands
  cases region with
  | none =>
    refine ⟨(runs regions).length + 1 + bound + bound', _, memory, fun fuel hfuel ↦ ?_,
      Or.inr ⟨hregion.mp rfl, rfl⟩⟩
    rw [hrest fuel m (by omega), kernelMainHeap, hselftest fuel (by omega), ok_bind]
    simp only
    rw [hheap fuel (by omega), ok_bind]
    rfl
  | some region =>
    have hroom : ∃ other ∈ run :: rest, HEAP_FRAMES ≤ other.frames := by
      by_contra hnone
      refine nomatch hregion.mpr fun other hother ↦ ?_
      exact not_le.mp fun hle ↦ hnone ⟨other, hother, hle⟩
    refine ⟨(runs regions).length + 1 + bound + bound', .ok region, memory, fun fuel hfuel ↦ ?_,
      Or.inl ⟨hroom, region, rfl⟩⟩
    rw [hrest fuel m (by omega), kernelMainHeap, hselftest fuel (by omega), ok_bind]
    simp only
    rw [hheap fuel (by omega), ok_bind]
    rfl

/-- With fewer usable frames the report comes earlier. -/
theorem kernelMainMemory_few (hmap : FirmwareMap regions) (m : Mem)
    (hbehind : behind 2 (runs regions) = []) : ∃ bound reason memory, ∀ fuel, bound ≤ fuel →
      kernelMainMemory fuel regions m = .ok (.error reason, memory) := by
  by_cases hruns : runs regions = []
  · obtain ⟨allocator, hinit, _⟩ := init_refines hmap
    have hzero : (usableFrames regions).length = 0 := by
      rw [usableFrames, hruns]
      rfl
    refine ⟨(runs regions).length + 1, "no usable memory regions in the UEFI memory map",
      ⟨allocator, Heap.HEAP, m⟩, fun fuel hfuel ↦ ?_⟩
    rw [kernelMainMemory, hinit fuel (by omega), ok_bind]
    simp only
    rw [if_pos hzero]
    rfl
  · obtain ⟨allocator, hstart, hrest⟩ := kernelMainMemory_selftest hmap hruns
    obtain ⟨bound, reason, after, hselftest⟩ := selftest_of_few hmap (hstart m) hruns hbehind
    refine ⟨(runs regions).length + 1 + bound, "frame allocator selftest: " ++ reason,
      ⟨after.1, Heap.HEAP, after.2⟩, fun fuel hfuel ↦ ?_⟩
    rw [hrest fuel m (by omega), kernelMainHeap, hselftest fuel (by omega), ok_bind]
    rfl

/-- Memory management comes up, the self-test passed and the heap found, exactly when a run has the
frames of the heap behind the first two frames of the map. -/
theorem kernelMainMemory_ok_iff (hmap : FirmwareMap regions) (m : Mem) :
    (∃ bound, ∀ fuel, bound ≤ fuel → ∃ region memory,
      kernelMainMemory fuel regions m = .ok (.ok region, memory)) ↔
    ∃ run ∈ behind 2 (runs regions), HEAP_FRAMES ≤ run.frames := by
  cases hbehind : behind 2 (runs regions) with
  | nil =>
    obtain ⟨bound', reason, memory', hfatal⟩ := kernelMainMemory_few hmap m hbehind
    refine ⟨fun ⟨bound, hup⟩ ↦ ?_, fun ⟨_, hrun, _⟩ ↦ nomatch hrun⟩
    obtain ⟨region, memory, hran⟩ := hup (max bound bound') (le_max_left _ _)
    rw [hfatal _ (le_max_right _ _)] at hran
    exact nomatch hran
  | cons run rest =>
    obtain ⟨bound', result, memory', hresult, hcases⟩ := kernelMainMemory_two hmap m hbehind
    rcases hcases with ⟨hroom, region, rfl⟩ | ⟨hshort, rfl⟩
    · exact ⟨fun _ ↦ hroom, fun _ ↦
        ⟨bound', fun fuel hfuel ↦ ⟨region, memory', hresult fuel hfuel⟩⟩⟩
    · refine ⟨fun ⟨bound, hup⟩ ↦ ?_, fun ⟨other, hother, hle⟩ ↦
        absurd hle (not_le.mpr (hshort other hother))⟩
      obtain ⟨region, memory, hran⟩ := hup (max bound bound') (le_max_left _ _)
      rw [hresult _ (le_max_right _ _)] at hran
      exact nomatch hran

/-- A map with one region of 258 frames. -/
def spareMap : List MemoryRegion :=
  [⟨0x100000, 258, MemoryRegion.CONVENTIONAL⟩]

theorem kernelMainMemory_ok_iff_spareMap : ∃ bound, ∀ fuel, bound ≤ fuel → ∃ region memory,
    kernelMainMemory fuel spareMap (fun _ ↦ 0) = .ok (.ok region, memory) := by
  have hmap : FirmwareMap spareMap := ⟨List.pairwise_singleton _ _, by decide⟩
  exact (kernelMainMemory_ok_iff hmap fun _ ↦ 0).mpr ⟨⟨0x102000, 256⟩, by decide +kernel, by decide⟩

/-- A map with one region of exactly the frames of the heap. -/
def exactMap : List MemoryRegion :=
  [⟨0x100000, 256, MemoryRegion.CONVENTIONAL⟩]

/-- On it the frames of the heap are there, and `kernel_main` reports that they are not. -/
theorem exactMap_fatal : FirmwareMap exactMap ∧
    (∃ run ∈ runs exactMap, HEAP_FRAMES ≤ run.frames) ∧
    ∃ bound memory, ∀ fuel, bound ≤ fuel → kernelMainMemory fuel exactMap (fun _ ↦ 0) =
      .ok (.error "could not obtain 256 contiguous frames for the heap", memory) := by
  have hmap : FirmwareMap exactMap := ⟨List.pairwise_singleton _ _, by decide⟩
  have hbehind : behind 2 (runs exactMap) = [⟨0x102000, 254⟩] := by decide +kernel
  refine ⟨hmap, ⟨⟨0x100000, 256⟩, by decide +kernel, by decide⟩, ?_⟩
  obtain ⟨bound, result, memory, hresult, hcases⟩ :=
    kernelMainMemory_two hmap (fun _ ↦ 0) hbehind
  rcases hcases with ⟨⟨run, hrun, hroom⟩, _⟩ | ⟨_, rfl⟩
  · obtain rfl := List.mem_singleton.mp hrun
    exact absurd hroom (by decide)
  · exact ⟨bound, memory, hresult⟩

end Startup

end RustBL
