import RustBL.Kernel.Memory.Bringup
import RustBL.Library.Sharing

/-!
# The heap and the frame allocator over one memory

After memory management has come up, the kernel allocates from the heap and from the frame
allocator in any order, and writes to what it holds. The two allocators keep their lists in the same
memory: the heap in the frames it was granted, the frame allocator in every free frame.

Each allocator with its clients is a `Component`, and the heap has the frames of its run to itself.
`memory_safe` is what that gives for whole runs: nothing is handed out twice, neither by one
allocator nor by both, and what a client holds changes only when that client writes to it.
-/

set_option autoImplicit false
set_option relaxedAutoImplicit false

namespace RustBL

/-! ### The frame allocator keeps off held frames -/

section Held

variable {regions : List MemoryRegion} {t : ListState}

theorem ListState.stack_subset {frame : ℕ} (hframe : frame ∈ t.stack) : frame ∈ t.unused := by
  rw [stack] at hframe
  rw [unused]
  cases hlist : t.allocator with
  | none =>
    rw [hlist] at hframe
    exact absurd hframe List.not_mem_nil
  | some list =>
    rw [hlist] at hframe
    exact List.mem_append_left _ hframe

/-- A run that was granted stays granted. -/
theorem ListState.contiguous_serve {run : FrameRun} (hrun : run ∈ t.ledger.contiguous)
    (request : FrameRequest) : run ∈ (t.serve request).2.ledger.contiguous := by
  rw [ListState.ledger_serve]
  cases request with
  | allocContiguous frames => exact List.mem_append_right _ hrun
  | _ => exact hrun

/-- A step writes to a frame that is held afterwards only when its client does. -/
theorem Accounted.written_held (h : Accounted regions t) (hmap : FirmwareMap regions)
    {request : FrameRequest} (hallows : t.ledger.Allows request) {frame addr : ℕ}
    (hframe : frame ∈ (t.serve request).2.ledger.frames) (haddr : addr ∈ frameBytes frame)
    (hwritten : addr ∈ written t (t.serve request).2 request) :
    ∃ byte, request = .write addr byte := by
  have hnext : Accounted regions (t.serve request).2 := accounted_step h ⟨hallows, rfl⟩
  have hnodes : addr ∉ nodeBytes ((t.serve request).2.stack.filter (· ∉ t.stack)) := by
    rintro ⟨node, hnode, hlow, hhigh⟩
    have hstack : node ∈ (t.serve request).2.stack := (List.mem_filter.mp hnode).1
    have hpage : 8 ≤ PAGE_SIZE := by decide
    exact Set.disjoint_left.mp (hnext.disjoint_unused hmap hframe (ListState.stack_subset hstack))
      haddr ⟨hlow, by omega⟩
  cases request with
  | write target byte =>
    obtain rfl : addr = target := hwritten
    exact ⟨byte, rfl⟩
  | _ => exact absurd hwritten hnodes

end Held

/-! ### The components -/

/-- The head of the heap's free list, and the live allocations. -/
structure HeapClients where
  /-- The heap. -/
  heap : Heap
  /-- The live allocations. -/
  live : List Allocation

/-- The heap and its clients over a memory. -/
def HeapClients.over (clients : HeapClients) (m : Mem) : HeapState :=
  ⟨clients.heap, m, clients.live⟩

/-- The static frame allocator, and what its clients hold. -/
structure FrameClients where
  /-- The frame allocator. -/
  allocator : Option FrameAllocator
  /-- What clients hold. -/
  ledger : Ledger

/-- The frame allocator and its clients over a memory. -/
def FrameClients.over (clients : FrameClients) (m : Mem) : FrameState :=
  ⟨clients.allocator, m, clients.ledger⟩

section Heap

variable {arena : Arena} {s next : HeapState} {t : BlockState}

theorem Canonical.cover_subset (h : Canonical arena t) : cover t.free ⊆ arena.span.bytes := by
  rw [h.cover_free]
  exact Set.sdiff_subset

/-- The heap depends on its arena. -/
theorem Related.congr (h : Related arena s t) {m : Mem}
    (hagree : ∀ addr ∈ arena.span.bytes, m addr = s.mem addr) :
    Related arena ⟨s.heap, m, s.live⟩ t := by
  have hsame : Mem.SameOff (arena.span.bytes)ᶜ s.mem m :=
    fun addr haddr ↦ hagree addr (Set.notMem_compl_iff.mp haddr)
  refine ⟨h.canonical, h.live_eq, h.chain.of_sameOff hsame h.canonical.placed.grain_le ?_⟩
  intro b hb
  exact Set.disjoint_compl_right_iff_subset.mpr
    ((bytes_subset_cover hb).trans h.canonical.cover_subset)

/-- A step writes to the arena only. -/
theorem Related.sameOff (h : Related arena s t) {request : HeapRequest} {reply : ℕ}
    (hstep : heapMachine.Step s request reply next) :
    Mem.SameOff arena.span.bytes s.mem next.mem := by
  cases hstep with
  | @alloc layout fuel _ heap mem ran =>
    rcases h.alloc layout (Nat.lt_succ_self _) with ⟨hran, _⟩ |
        ⟨p, heap', mem', free, hran, _, _, _, hsame⟩
    · obtain ⟨rfl, rfl, rfl⟩ := Heap.alloc_unique ran hran
      exact Mem.SameOff.refl _ _
    · obtain ⟨rfl, rfl, rfl⟩ := Heap.alloc_unique ran hran
      exact hsame.mono h.canonical.cover_subset
  | @dealloc a fuel heap mem live ran =>
    have hlive : a ∈ t.live := h.live_eq ▸ live
    obtain ⟨heap', mem', hran, _, hsame⟩ := h.dealloc hlive (Nat.lt_succ_self _)
    obtain ⟨rfl, rfl⟩ := Heap.dealloc_unique ran hran
    exact hsame.mono (Set.union_subset h.canonical.cover_subset (h.canonical.inside a hlive))
  | @write a addr byte live inside =>
    intro other hother
    refine Function.update_of_ne ?_ _ _
    rintro rfl
    exact hother (h.canonical.inside a (h.live_eq ▸ live) inside)

/-- The heap with its clients: it refines the list version, over its arena. -/
def heapComponent (arena : Arena) :
    Component ℕ UInt8 HeapClients BlockState HeapRequest ℕ where
  Step clients m request reply clients' m' :=
    heapMachine.Step (clients.over m) request reply (clients'.over m')
  spec := blockMachine
  Related clients m t := Related arena (clients.over m) t
  footprint := arena.span.bytes
  related_congr h hagree := h.congr hagree
  simulates h hstep := by
    obtain ⟨next, hspec, hrelated⟩ := heapMachine_simulates h hstep
    exact ⟨next, hspec, hrelated, h.sameOff hstep⟩

end Heap

section Frames

variable {regions : List MemoryRegion}

/-- The frame allocator with its clients, who leave the run `reserved` alone: it refines the list
version, over the other usable frames. -/
def framesComponent (hmap : FirmwareMap regions) (reserved : FrameRun) :
    Component ℕ UInt8 FrameClients ListState FrameRequest (Option ℕ) where
  Step clients m request reply clients' m' :=
    frameMachine.Step (clients.over m) request reply (clients'.over m') ∧
      ∀ addr byte, request = .write addr byte → addr ∉ reserved.span.bytes
  spec := listMachine
  Related clients m t :=
    FramesRelated regions (clients.over m) t ∧ reserved ∈ t.ledger.contiguous
  footprint := usableBytes regions \ reserved.span.bytes
  related_congr := by
    rintro clients m m' t ⟨h, hreserved⟩ hagree
    refine ⟨h.congr fun frame hframe addr haddr ↦ hagree addr ⟨?_, fun hin ↦ ?_⟩, hreserved⟩
    · have husable := h.accounted.partition.mem_iff.mp (List.mem_append_right _ hframe)
      exact ⟨frame, husable, haddr⟩
    · obtain ⟨other, hother, haddr'⟩ := FrameRun.mem_span.mp hin
      have hheld : other ∈ t.ledger.frames :=
        List.mem_append_right _ (List.mem_flatMap.mpr ⟨reserved, hreserved, hother⟩)
      exact Set.disjoint_left.mp (h.accounted.disjoint_unused hmap hheld hframe) haddr' haddr
  simulates := by
    rintro clients m t request reply clients' m' ⟨h, hreserved⟩ ⟨hstep, hwrite⟩
    obtain ⟨rfl, hnext, hsame⟩ := frameMachine_simulates h hmap hstep
    have hallows : t.ledger.Allows request := h.ledger_eq ▸ hstep.1
    have hkept := ListState.contiguous_serve hreserved request
    refine ⟨_, ⟨hallows, rfl⟩, ⟨hnext, hkept⟩, fun addr haddr ↦ hsame addr fun hin ↦ ?_⟩
    -- What is written is usable, and in the reserved run only a client could write.
    have husable := h.accounted.written_subset hallows hin
    by_cases hreservedByte : addr ∈ reserved.span.bytes
    · obtain ⟨frame, hframe, haddr'⟩ := FrameRun.mem_span.mp hreservedByte
      have hheld : frame ∈ (t.serve request).2.ledger.frames :=
        List.mem_append_right _ (List.mem_flatMap.mpr ⟨reserved, hkept, hframe⟩)
      obtain ⟨byte, hrequest⟩ := h.accounted.written_held hmap hallows hheld haddr' hin
      exact hwrite addr byte hrequest hreservedByte
    · exact haddr ⟨husable, hreservedByte⟩

end Frames

/-! ### Both over one memory -/

/-- The heap over the run `run`, beside the frame allocator for the rest of the kernel. -/
def memoryComponent {regions : List MemoryRegion} (hmap : FirmwareMap regions) (arena : Arena)
    (run : FrameRun) (hrun : run.span = arena.span) :
    Component ℕ UInt8 (HeapClients × FrameClients) (BlockState × ListState)
      (HeapRequest ⊕ FrameRequest) (ℕ ⊕ Option ℕ) :=
  (heapComponent arena).beside (framesComponent hmap run) (by
    show Disjoint arena.span.bytes (usableBytes regions \ run.span.bytes)
    rw [hrun]
    exact Set.disjoint_sdiff_right)

/-- The arena of a heap that has come up. -/
def MemoryUp.arena {regions : List MemoryRegion} {m : Mem} {start : ℕ} {memory : KernelMemory}
    (h : MemoryUp regions m start memory) : Arena :=
  .ofFrames start h.aligned h.pos h.below

/-- What clients hold when the heap has come up: the heap has its run. -/
def KernelMemory.clients (memory : KernelMemory) (start : ℕ) : (HeapClients × FrameClients) × Mem :=
  ((⟨memory.heap, []⟩, ⟨memory.frames, ⟨[], [⟨start, HEAP_FRAMES⟩]⟩⟩), memory.mem)

/-- The frames that are held by others than the owner of `run`. -/
def Ledger.others (ledger : Ledger) (run : FrameRun) : List ℕ :=
  ledger.live ++ (ledger.contiguous.erase run).flatMap FrameRun.list

/-- Nothing is handed out twice: every allocation of the heap is served, the frames that are held
and those that are not are the usable frames, each once, and no allocation meets a frame that is
held by others. -/
structure MemorySafe (regions : List MemoryRegion) (arena : Arena) (run : FrameRun)
    (heap : HeapState) (frames : FrameState) : Prop where
  served : ∃ free, FreeList heap free ∧ ∀ a ∈ heap.live, Served arena heap.live free a
  accounted : ∃ stack, frames.Stack stack ∧
    (frames.ledger.frames ++ (stack ++ (frames.currentFrames ++ frames.laterFrames))).Nodup ∧
    (frames.ledger.frames ++ (stack ++ (frames.currentFrames ++ frames.laterFrames))).Perm
      (usableFrames regions)
  apart : ∀ a ∈ heap.live, ∀ frame ∈ frames.ledger.others run,
    Disjoint a.block.bytes (frameBytes frame)

/-- What a client holds before and after a step is changed by its own write only. -/
structure KeepsData (run : FrameRun) (request : HeapRequest ⊕ FrameRequest)
    (state next : (HeapClients × FrameClients) × Mem) : Prop where
  allocation : ∀ a ∈ state.1.1.live, a ∈ next.1.1.live → ∀ addr ∈ a.block.bytes,
    next.2 addr = state.2 addr ∨ ∃ byte, request = .inl (.write addr byte)
  frame : ∀ frame ∈ state.1.2.ledger.others run, frame ∈ next.1.2.ledger.others run →
    ∀ addr ∈ frameBytes frame,
      next.2 addr = state.2 addr ∨ ∃ byte, request = .inr (.write addr byte)

section Safe

variable {regions : List MemoryRegion} {arena : Arena} {run : FrameRun}
  {state next : (HeapClients × FrameClients) × Mem} {t : BlockState × ListState}

theorem Ledger.mem_frames_of_others {ledger : Ledger} {frame : ℕ}
    (hframe : frame ∈ ledger.others run) : frame ∈ ledger.frames := by
  rcases List.mem_append.mp hframe with hlive | hcontiguous
  · exact List.mem_append_left _ hlive
  · obtain ⟨other, hother, hin⟩ := List.mem_flatMap.mp hcontiguous
    exact List.mem_append_right _ (List.mem_flatMap.mpr ⟨other, List.mem_of_mem_erase hother, hin⟩)

/-- The frames of a run that is granted are not held by others. -/
theorem Accounted.not_others {t : ListState} (h : Accounted regions t) (hmap : FirmwareMap regions)
    (hrun : run ∈ t.ledger.contiguous) {frame : ℕ} (hframe : frame ∈ t.ledger.others run) :
    frame ∉ run.list := by
  have hnodup : t.ledger.frames.Nodup := (h.nodup hmap).of_append_left
  have hsplit : (run.list ++ t.ledger.others run).Perm t.ledger.frames := by
    have hruns := (List.perm_cons_erase hrun).flatMap_right FrameRun.list
    rw [List.flatMap_cons] at hruns
    refine List.Perm.trans ?_ (List.Perm.append_left t.ledger.live hruns.symm)
    rw [Ledger.others, ← List.append_assoc, ← List.append_assoc]
    exact List.perm_append_comm.append_right _
  obtain ⟨_, _, hdisjoint⟩ := List.nodup_append.mp (hsplit.nodup_iff.mpr hnodup)
  exact fun hin ↦ hdisjoint frame hin frame hframe rfl

/-- A frame that is held by others has no byte in the run. -/
theorem Accounted.disjoint_others {t : ListState} (h : Accounted regions t)
    (hmap : FirmwareMap regions) (hrun : run ∈ t.ledger.contiguous) {frame : ℕ}
    (hframe : frame ∈ t.ledger.others run) : Disjoint run.span.bytes (frameBytes frame) := by
  rw [Set.disjoint_left]
  intro addr hin haddr
  obtain ⟨other, hother, haddr'⟩ := FrameRun.mem_span.mp hin
  have hne : other ≠ frame := by
    rintro rfl
    exact h.not_others hmap hrun hframe hother
  have hother' := h.isFrame_run hmap hrun hother
  have hframe' := h.isFrame hmap (List.mem_append_left _ (Ledger.mem_frames_of_others hframe))
  have hframes := disjoint_frameBytes hother'.page_dvd hframe'.page_dvd hne
  exact Set.disjoint_left.mp hframes haddr' haddr

/-- Related states are safe. -/
theorem MemorySafe.of_related (hmap : FirmwareMap regions) {hrun : run.span = arena.span}
    (h : (memoryComponent hmap arena run hrun).Related state.1 state.2 t) :
    MemorySafe regions arena run (state.1.1.over state.2) (state.1.2.over state.2) := by
  obtain ⟨hheap, hframes, hheld⟩ := h
  have hledger : (state.1.2.over state.2).ledger = t.2.ledger := hframes.ledger_eq
  have hnodup := hframes.accounted.nodup hmap
  have hpartition := hframes.accounted.partition
  rw [hframes.unused_eq, ← hledger] at hnodup hpartition
  refine ⟨⟨t.1.free, hheap.chain, fun a ha ↦ hheap.served ha⟩,
    ⟨t.2.stack, hframes.stack, hnodup, hpartition⟩, fun a ha frame hframe ↦ ?_⟩
  rw [hledger] at hframe
  have hinside := hheap.canonical.inside a (hheap.live_eq ▸ ha)
  rw [← hrun] at hinside
  exact Set.disjoint_of_subset_left hinside (hframes.accounted.disjoint_others hmap hheld hframe)

/-- Every request a client may make is answered. -/
theorem memoryComponent_answers (hmap : FirmwareMap regions) {hrun : run.span = arena.span}
    (h : (memoryComponent hmap arena run hrun).Related state.1 state.2 t) :
    (∀ layout, ∃ reply next,
      (memoryComponent hmap arena run hrun).machine.Step state (.inl (.alloc layout)) reply next) ∧
    (∀ a ∈ state.1.1.live, ∃ reply next,
      (memoryComponent hmap arena run hrun).machine.Step state (.inl (.dealloc a)) reply next) ∧
    ∀ request, state.1.2.ledger.Allows request →
      (∀ addr byte, request = .write addr byte → addr ∉ run.span.bytes) → ∃ reply next,
        (memoryComponent hmap arena run hrun).machine.Step state (.inr request) reply next := by
  obtain ⟨hheap, hframes, hheld⟩ := h
  obtain ⟨⟨heap, frames⟩, m⟩ := state
  refine ⟨fun layout ↦ ?_, fun a ha ↦ ?_, fun request hallows hwrite ↦ ?_⟩
  · obtain ⟨p, next, hstep⟩ := hheap.answers.1 layout
    exact ⟨.inl p, ((⟨next.heap, next.live⟩, frames), next.mem), .left hstep⟩
  · obtain ⟨next, hstep⟩ := hheap.answers.2 a ha
    exact ⟨.inl 0, ((⟨next.heap, next.live⟩, frames), next.mem), .left hstep⟩
  · obtain ⟨bound, next, hserve, _⟩ := serve_refines hframes hmap hallows
    exact ⟨.inr _, ((heap, ⟨next.allocator, next.ledger⟩), next.mem),
      .right ⟨⟨hallows, bound, hserve bound le_rfl⟩, hwrite⟩⟩

/-- A step of the heap leaves a byte of a live allocation as it was, or is the write to it. -/
theorem Related.keeps_allocation {heap next : HeapState} {blocks : BlockState}
    (h : Related arena heap blocks) {request : HeapRequest} {reply : ℕ}
    (hstep : heapMachine.Step heap request reply next) {a : Allocation} (ha : a ∈ heap.live)
    (hnext : a ∈ next.live) {addr : ℕ} (haddr : addr ∈ a.block.bytes) :
    next.mem addr = heap.mem addr ∨ ∃ byte, request = .write addr byte := by
  by_cases hwrite : ∃ target byte, request = .write target byte
  · obtain ⟨target, byte, rfl⟩ := hwrite
    by_cases htarget : addr = target
    · exact Or.inr ⟨byte, by rw [htarget]⟩
    · cases hstep with
      | write live inside => exact Or.inl (Function.update_of_ne htarget _ _)
  · have hheap : ∀ target byte, request ≠ .write target byte :=
      fun target byte heq ↦ hwrite ⟨target, byte, heq⟩
    exact Or.inl (h.keeps_live hstep hheap ha hnext haddr)

/-- A step of the frame allocator leaves a byte of a frame that stays held as it was, or is the
write to it. -/
theorem FramesRelated.keeps_frame {frames next : FrameState} {list : ListState}
    (h : FramesRelated regions frames list) (hmap : FirmwareMap regions) {request : FrameRequest}
    {reply : Option ℕ} (hstep : frameMachine.Step frames request reply next) {frame addr : ℕ}
    (hframe : frame ∈ next.ledger.frames) (haddr : addr ∈ frameBytes frame) :
    next.mem addr = frames.mem addr ∨ ∃ byte, request = .write addr byte := by
  obtain ⟨rfl, hnext, hsame⟩ := frameMachine_simulates h hmap hstep
  have hallows : list.ledger.Allows request := h.ledger_eq ▸ hstep.1
  rw [hnext.ledger_eq] at hframe
  by_cases hwritten : addr ∈ written list (list.serve request).2 request
  · exact Or.inr (h.accounted.written_held hmap hallows hframe haddr hwritten)
  · exact Or.inl (hsame addr hwritten)

theorem KeepsData.of_step (hmap : FirmwareMap regions) {hrun : run.span = arena.span}
    (h : (memoryComponent hmap arena run hrun).Related state.1 state.2 t)
    {request : HeapRequest ⊕ FrameRequest} {reply : ℕ ⊕ Option ℕ}
    (hstep : (memoryComponent hmap arena run hrun).machine.Step state request reply next) :
    KeepsData run request state next := by
  obtain ⟨hheap, hframes, hheld⟩ := h
  obtain ⟨⟨heap', frames'⟩, m'⟩ := next
  obtain ⟨⟨heap, frames⟩, m⟩ := state
  cases hstep with
  | left step =>
    refine ⟨fun a ha hnext addr haddr ↦ ?_, fun frame hframe _ addr haddr ↦ Or.inl ?_⟩
    · rcases hheap.keeps_allocation step ha hnext haddr with hsame | ⟨byte, rfl⟩
      · exact Or.inl hsame
      · exact Or.inr ⟨byte, rfl⟩
    · -- The heap writes to its arena, where nobody else holds a frame.
      have hothers : frame ∈ t.2.ledger.others run := hframes.ledger_eq ▸ hframe
      have hdisjoint := hframes.accounted.disjoint_others hmap hheld hothers
      rw [hrun] at hdisjoint
      exact hheap.sameOff step addr (Set.disjoint_right.mp hdisjoint haddr)
  | right step =>
    refine ⟨fun a ha _ addr haddr ↦ Or.inl ?_, fun frame _ hnext addr haddr ↦ ?_⟩
    · have hinside : addr ∈ run.span.bytes := by
        rw [hrun]
        exact hheap.canonical.inside a (hheap.live_eq ▸ ha) haddr
      obtain ⟨_, _, _, hsame⟩ := (framesComponent hmap run).simulates ⟨hframes, hheld⟩ step
      exact hsame addr fun hin ↦ hin.2 hinside
    · rcases hframes.keeps_frame hmap step.1 (Ledger.mem_frames_of_others hnext) haddr with
        hsame | ⟨byte, rfl⟩
      · exact Or.inl hsame
      · exact Or.inr ⟨byte, rfl⟩

end Safe

/-! ### Whole runs -/

section Runs

variable {regions : List MemoryRegion} {m : Mem} {fuel start size : ℕ} {memory : KernelMemory}
  {state : (HeapClients × FrameClients) × Mem}

/-- The clients of the heap and of the frame allocator, from the state in which memory management
has come up. -/
def MemoryUp.machine (h : MemoryUp regions m start memory) (hmap : FirmwareMap regions) :
    Machine ((HeapClients × FrameClients) × Mem) (HeapRequest ⊕ FrameRequest) (ℕ ⊕ Option ℕ) :=
  (memoryComponent hmap h.arena ⟨start, HEAP_FRAMES⟩ rfl).machine

theorem MemoryUp.related (h : MemoryUp regions m start memory) (hmap : FirmwareMap regions) :
    ∃ t, (memoryComponent hmap h.arena ⟨start, HEAP_FRAMES⟩ rfl).Related
      (memory.clients start).1 (memory.clients start).2 t := by
  obtain ⟨t, hframes⟩ := h.frames
  refine ⟨(blockInit h.arena, t), ⟨canonical_init h.arena, rfl, h.heap⟩, hframes, ?_⟩
  rw [← hframes.ledger_eq]
  exact List.mem_singleton_self _

/-- In every run the states stay related, and only usable frames are written. -/
theorem MemoryUp.run (h : MemoryUp regions m start memory) (hmap : FirmwareMap regions)
    (hs : (h.machine hmap).Reachable (memory.clients start) state) :
    (∃ t, (memoryComponent hmap h.arena ⟨start, HEAP_FRAMES⟩ rfl).Related state.1 state.2 t) ∧
      Mem.SameOff (usableBytes regions) m state.2 := by
  obtain ⟨t, hrelated⟩ := h.related hmap
  obtain ⟨trace, hrun⟩ := hs
  obtain ⟨⟨t', _, hrelated'⟩, hsame⟩ := Component.run hrun hrelated
  refine ⟨⟨t', hrelated'⟩, h.sameOff.trans fun addr haddr ↦ hsame addr ?_⟩
  rintro (harena | hframes)
  · exact haddr (hrelated.2.1.accounted.span_subset hrelated.2.2 harena)
  · exact haddr hframes.1

/-- Safety of the kernel's memory over whole runs. When memory management has come up, then in every
state that the clients of the heap and of the frame allocator reach in any order of steps, nothing
is handed out twice, every request is answered, the next step leaves what a client holds as it was
unless it is that client's own write, and no byte outside the usable frames of the map has been
written since `m`. -/
theorem memory_safe (hmap : FirmwareMap regions)
    (hran : kernelMainMemory fuel regions m = .ok (.ok (start, size), memory)) :
    ∃ h : MemoryUp regions m start memory,
      ∀ state, (h.machine hmap).Reachable (memory.clients start) state →
        MemorySafe regions h.arena ⟨start, HEAP_FRAMES⟩ (state.1.1.over state.2)
          (state.1.2.over state.2) ∧
        ((∀ layout, ∃ reply next, (h.machine hmap).Step state (.inl (.alloc layout)) reply next) ∧
          (∀ a ∈ state.1.1.live,
            ∃ reply next, (h.machine hmap).Step state (.inl (.dealloc a)) reply next) ∧
          ∀ request, state.1.2.ledger.Allows request →
            (∀ addr byte, request = .write addr byte → addr ∉ h.arena.span.bytes) →
              ∃ reply next, (h.machine hmap).Step state (.inr request) reply next) ∧
        (∀ request reply next, (h.machine hmap).Step state request reply next →
          KeepsData ⟨start, HEAP_FRAMES⟩ request state next) ∧
        ∀ addr ∉ usableBytes regions, state.2 addr = m addr := by
  obtain ⟨-, h⟩ := kernelMainMemory_up hmap hran
  refine ⟨h, fun state hs ↦ ?_⟩
  obtain ⟨⟨t, hrelated⟩, hsame⟩ := h.run hmap hs
  exact ⟨.of_related hmap hrelated, memoryComponent_answers hmap hrelated,
    fun _ _ _ hstep ↦ .of_step hmap hrelated hstep, hsame⟩

theorem firmwareMap_spareMap : FirmwareMap spareMap :=
  ⟨List.pairwise_singleton _ _, by decide⟩

/-- On the map with two frames to spare, memory management comes up. -/
theorem kernelMainMemory_spareMap (m : Mem) : ∃ fuel region memory,
    kernelMainMemory fuel spareMap m = .ok (.ok region, memory) := by
  have hbehind : behind 2 (runs spareMap) = [⟨0x102000, 256⟩] := by decide +kernel
  obtain ⟨bound, result, memory, hresult, hcases⟩ :=
    kernelMainMemory_two firmwareMap_spareMap m hbehind
  rcases hcases with ⟨_, region, rfl⟩ | ⟨hshort, _⟩
  · exact ⟨bound, region, memory, hresult bound le_rfl⟩
  · exact absurd (hshort _ (List.mem_singleton_self _)) (by decide)

theorem memory_safe_spareMap : ∃ fuel start size memory,
    kernelMainMemory fuel spareMap (fun _ ↦ 0) = .ok (.ok (start, size), memory) ∧
      ∃ h : MemoryUp spareMap (fun _ ↦ 0) start memory, ∀ layout, ∃ reply next,
        (h.machine firmwareMap_spareMap).Step (memory.clients start) (.inl (.alloc layout)) reply
          next := by
  obtain ⟨fuel, ⟨start, size⟩, memory, hran⟩ := kernelMainMemory_spareMap fun _ ↦ 0
  obtain ⟨h, hruns⟩ := memory_safe firmwareMap_spareMap hran
  exact ⟨fuel, start, size, memory, hran, h, (hruns _ (Machine.Reachable.start _ _)).2.1.1⟩

end Runs

end RustBL
