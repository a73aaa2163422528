import RustBL.Kernel.Frame.Contiguous

/-!
# The free stack is a LIFO list

The links of the stack of free frames lie in memory that clients held before the free and hold again
after the next allocation. `LifoStep` says what a request does to a plain stack: `alloc_frame` pops,
`dealloc_frame` pushes, and a request that is served from the cursor pushes the frames of the runs
it steps over. `LifoRun` follows a whole run of the allocator with such a stack beside it.

`frame_stack_lifo` says that the stack read along the links in memory is that plain stack after
every run, whatever clients write to the frames they hold, and that an operation writes to the nodes
of the frames it pushes and to no byte of a frame somebody holds.
-/

set_option autoImplicit false
set_option relaxedAutoImplicit false

namespace RustBL

/-! ### The plain stack -/

/-- The frames a request for `frames` frames leaves behind the cursor, last pushed first. A request
whose length in bytes is no word leaves none. -/
def stranded (pending : List FrameRun) (frames : ℕ) : List ℕ :=
  if frames * PAGE_SIZE < 2 ^ 64 then ((stepped frames pending).flatMap FrameRun.list).reverse
  else []

/-- What a request does to a plain stack, with the runs ahead of the cursor: the reply, the stack
before it, the frames it pushes, and the stack after it. -/
inductive LifoStep (pending : List FrameRun) :
    FrameRequest → Option ℕ → List ℕ → List ℕ → List ℕ → Prop
  | pop (frame : ℕ) (stack : List ℕ) :
    LifoStep pending .allocFrame (some frame) (frame :: stack) [] stack
  | bump (reply : Option ℕ) :
    LifoStep pending .allocFrame reply [] (stranded pending 1) (stranded pending 1)
  | push (addr : ℕ) (stack : List ℕ) :
    LifoStep pending (.deallocFrame addr) none stack [addr] (addr :: stack)
  | contiguous (frames : ℕ) (reply : Option ℕ) (stack : List ℕ) :
    LifoStep pending (.allocContiguous frames) reply stack (stranded pending frames)
      (stranded pending frames ++ stack)
  | write (addr : ℕ) (byte : UInt8) (stack : List ℕ) :
    LifoStep pending (.write addr byte) none stack [] stack

/-- The runs of the allocator in memory, with the plain stack beside them. -/
inductive LifoRun (start : FrameState) : List (FrameRequest × Option ℕ) → FrameState → List ℕ → Prop
  | nil : LifoRun start [] start []
  | snoc {trace : List (FrameRequest × Option ℕ)} {s next : FrameState} {request : FrameRequest}
      {reply : Option ℕ} {before pushed after : List ℕ} : LifoRun start trace s before →
      frameMachine.Step s request reply next →
      LifoStep s.pending request reply before pushed after →
      LifoRun start (trace ++ [(request, reply)]) next after

section Lifo

variable {pending : List FrameRun} {request : FrameRequest} {reply : Option ℕ}
  {before pushed after : List ℕ}

/-- The pushed frames are on the stack afterwards. -/
theorem LifoStep.pushed_subset (h : LifoStep pending request reply before pushed after) :
    pushed ⊆ after := by
  cases h with
  | pop frame => exact List.nil_subset _
  | bump reply => exact List.Subset.refl _
  | push addr stack => exact List.cons_subset.mpr ⟨List.mem_cons_self, List.nil_subset _⟩
  | contiguous frames reply => exact List.subset_append_left _ _
  | write addr byte => exact List.nil_subset _

/-- What is new on the stack was pushed. -/
theorem LifoStep.new_subset (h : LifoStep pending request reply before pushed after) :
    after.filter (· ∉ before) ⊆ pushed := by
  intro frame hframe
  obtain ⟨hafter, hnew⟩ := List.mem_filter.mp hframe
  have hnew : frame ∉ before := by simpa using hnew
  cases h with
  | pop top => exact absurd (List.mem_cons_of_mem _ hafter) hnew
  | bump reply => exact hafter
  | push addr => exact List.mem_singleton.mpr ((List.mem_cons.mp hafter).resolve_right hnew)
  | contiguous frames reply => exact (List.mem_append.mp hafter).resolve_right hnew
  | write addr byte => exact absurd hafter hnew

/-- The cursor of the list version pushes the stranded frames. -/
theorem ListAllocator.take_stack (list : ListAllocator) (frames : ℕ) :
    (list.take frames).2.stack = stranded (list.current :: list.rest) frames ++ list.stack := by
  simp only [take, bump, stranded]
  split_ifs
  · exact bumpFrom_stack frames list.inUse list.rest list.current list.stack
  · rfl

/-- The list version treats its stack as a plain stack. -/
theorem ListState.lifoStep (t : ListState) {request : FrameRequest}
    (hempty : t.allocator = none → t.ledger.live = []) (hallows : t.ledger.Allows request) :
    ∃ pushed, LifoStep t.runs request (t.serve request).1 t.stack pushed
      (t.serve request).2.stack := by
  obtain ⟨allocator, ledger⟩ := t
  cases allocator with
  | none =>
    cases request with
    | allocFrame => exact ⟨_, .bump none⟩
    | deallocFrame addr =>
      have hlive : addr ∈ ledger.live := hallows
      have hnil : ledger.live = [] := hempty rfl
      rw [hnil] at hlive
      exact nomatch hlive
    | allocContiguous frames =>
      have hnone : stranded [] frames = [] := by simp [stranded, stepped]
      have hstep : LifoStep [] (.allocContiguous frames) none [] (stranded [] frames)
        (stranded [] frames ++ []) := .contiguous frames none []
      rw [hnone] at hstep
      exact ⟨[], hstep⟩
    | write addr byte => exact ⟨_, .write addr byte []⟩
  | some list =>
    cases request with
    | allocFrame =>
      simp only [serve, answer, stack, runs, Option.bind_some, Option.map_some, Option.elim]
      rw [ListAllocator.alloc]
      split
      · rename_i node stack hstack
        rw [hstack]
        exact ⟨_, .pop node stack⟩
      · rename_i hstack
        rw [list.take_stack, hstack, List.append_nil]
        exact ⟨_, .bump _⟩
    | deallocFrame addr => exact ⟨_, .push addr list.stack⟩
    | allocContiguous frames =>
      refine ⟨stranded (list.current :: list.rest) frames, ?_⟩
      simp only [serve, answer, stack, runs, Option.bind_some, Option.map_some, Option.elim]
      rw [list.take_stack]
      exact .contiguous frames _ list.stack
    | write addr byte => exact ⟨_, .write addr byte list.stack⟩

end Lifo

/-! ### The stack in memory -/

/-- What a step does to the stack in memory: it is a step of the plain stack, an operation of the
allocator writes to the nodes of the frames it pushes only, and the frames somebody holds keep every
byte. -/
structure StackStep (s next : FrameState) (request : FrameRequest) (reply : Option ℕ)
    (before pushed after : List ℕ) : Prop where
  lifo : LifoStep s.pending request reply before pushed after
  stack_after : next.Stack after
  writes : (∀ addr byte, request ≠ .write addr byte) → Mem.SameOff (nodeBytes pushed) s.mem next.mem
  keeps : (∀ addr byte, request ≠ .write addr byte) → ∀ frame ∈ next.ledger.frames,
    ∀ addr ∈ frameBytes frame, next.mem addr = s.mem addr

section Memory

variable {regions : List MemoryRegion} {s next : FrameState} {t : ListState}
  {request : FrameRequest} {reply : Option ℕ}

theorem ListState.unused_eq (t : ListState) :
    t.unused = t.stack ++ t.runs.flatMap FrameRun.list := by
  obtain ⟨allocator, ledger⟩ := t
  cases allocator <;> rfl

/-- With no allocator nobody holds a frame. -/
theorem Accounted.live_eq_nil (h : Accounted regions t) (hnone : t.allocator = none) :
    t.ledger.live = [] := by
  have hcount := h.inUse_eq
  rw [ListState.inUse, hnone] at hcount
  have hframes : t.ledger.frames = [] := List.length_eq_zero_iff.mp hcount.symm
  exact (List.append_eq_nil_iff.mp hframes).1

/-- One step of the allocator in memory is a step of the plain stack. -/
theorem FramesRelated.stackStep (h : FramesRelated regions s t) (hmap : FirmwareMap regions)
    (hstep : frameMachine.Step s request reply next) :
    ∃ pushed, StackStep s next request reply t.stack pushed (t.serve request).2.stack := by
  have hallows : t.ledger.Allows request := h.ledger_eq ▸ hstep.1
  obtain ⟨rfl, hnext, hsame⟩ := frameMachine_simulates h hmap hstep
  obtain ⟨pushed, hlifo⟩ := t.lifoStep (fun hnone ↦ h.accounted.live_eq_nil hnone) hallows
  have hwrites : (∀ addr byte, request ≠ .write addr byte) →
      Mem.SameOff (nodeBytes pushed) s.mem next.mem := by
    intro hrequest
    have hwritten : written t (t.serve request).2 request =
        nodeBytes ((t.serve request).2.stack.filter (· ∉ t.stack)) := by
      cases request with
      | write addr byte => exact absurd rfl (hrequest addr byte)
      | _ => rfl
    rw [hwritten] at hsame
    refine hsame.mono ?_
    rintro addr ⟨frame, hframe, haddr⟩
    exact ⟨frame, hlifo.new_subset hframe, haddr⟩
  refine ⟨pushed, ?_, hnext.stack, hwrites, fun hrequest frame hframe addr haddr ↦ ?_⟩
  · rw [h.pending_eq]
    exact hlifo
  -- A pushed frame is unused after the step, so it is none of those somebody holds.
  · have hunused : ∀ other ∈ pushed, other ∈ (t.serve request).2.unused := by
      intro other hother
      rw [ListState.unused_eq]
      exact List.mem_append_left _ (hlifo.pushed_subset hother)
    rw [hnext.ledger_eq] at hframe
    obtain ⟨_, _, hdisjoint⟩ := List.nodup_append.mp (hnext.accounted.nodup hmap)
    have hmissed := nodeBytes_disjoint
      (hnext.accounted.isFrame hmap (List.mem_append_left _ hframe))
      (fun other hother ↦
        hnext.accounted.isFrame hmap (List.mem_append_right _ (hunused other hother)))
      fun hpushed ↦ hdisjoint frame hframe frame (hunused frame hpushed) rfl
    exact hwrites hrequest addr (Set.disjoint_left.mp hmissed haddr)

theorem ListState.stack_init (regions : List MemoryRegion) : (init regions).stack = [] := by
  rw [init]
  split <;> rfl

/-- After every run the stack in memory is the plain stack. -/
theorem frame_run_lifo (hmap : FirmwareMap regions) {start : FrameState}
    (hstart : FramesRelated regions start (ListState.init regions))
    {trace : List (FrameRequest × Option ℕ)} (hrun : frameMachine.Run start trace s) :
    ∃ t, listMachine.Run (ListState.init regions) trace t ∧ FramesRelated regions s t ∧
      LifoRun start trace s t.stack := by
  induction hrun with
  | nil =>
    refine ⟨_, .nil, hstart, ?_⟩
    rw [ListState.stack_init]
    exact .nil
  | snoc _ hstep ih =>
    rename_i request reply _
    obtain ⟨t, hlist, h, hlifo⟩ := ih
    have hallows : t.ledger.Allows request := h.ledger_eq ▸ hstep.1
    obtain ⟨pushed, hstack⟩ := h.stackStep hmap hstep
    obtain ⟨rfl, hnext, _⟩ := frameMachine_simulates h hmap hstep
    exact ⟨_, hlist.snoc ⟨hallows, rfl⟩, hnext, hlifo.snoc hstep hstack.lifo⟩

/-- The stack holds the usable frames that nobody holds and that are not ahead of the cursor. -/
theorem FramesRelated.mem_stack (h : FramesRelated regions s t) (hmap : FirmwareMap regions)
    (frame : ℕ) : frame ∈ t.stack ↔ frame ∈ usableFrames regions ∧ frame ∉ s.ledger.frames ∧
      frame ∉ s.currentFrames ++ s.laterFrames := by
  have hpartition := h.accounted.partition
  have hnodup := h.accounted.nodup hmap
  rw [h.unused_eq, ← h.ledger_eq] at hpartition hnodup
  obtain ⟨_, hunused, hheld⟩ := List.nodup_append.mp hnodup
  obtain ⟨_, _, hahead⟩ := List.nodup_append.mp hunused
  constructor
  · intro hstack
    exact ⟨hpartition.mem_iff.mp (List.mem_append_right _ (List.mem_append_left _ hstack)),
      fun hin ↦ hheld frame hin frame (List.mem_append_left _ hstack) rfl,
      fun hin ↦ hahead frame hstack frame hin rfl⟩
  · rintro ⟨husable, hfree, hbehind⟩
    have hmem := hpartition.mem_iff.mpr husable
    exact (List.mem_append.mp ((List.mem_append.mp hmem).resolve_left hfree)).resolve_right hbehind

/-- The intrusive stack refines a LIFO list. Every run of the allocator in memory, with arbitrary
client writes to frames that are held, gives the replies of the allocator that holds a plain list.
The stack read along the links is that list: it is what pushing and popping along the run leaves,
each frame that was freed or stranded and not handed out again once. Every request is answered by a
step of the plain stack that changes no byte of a frame somebody holds. -/
theorem frame_stack_lifo (hmap : FirmwareMap regions) : ∃ allocator,
    (∀ fuel, (runs regions).length < fuel →
      Frames.init fuel regions = .ok ((usableFrames regions).length, allocator)) ∧
    ∀ m trace s, frameMachine.Run (FrameState.start allocator m) trace s →
      ∃ t, listMachine.Run (ListState.init regions) trace t ∧ s.ledger = t.ledger ∧
        s.Stack t.stack ∧ LifoRun (FrameState.start allocator m) trace s t.stack ∧
        t.stack.Nodup ∧
        (∀ frame, frame ∈ t.stack ↔ frame ∈ usableFrames regions ∧ frame ∉ s.ledger.frames ∧
          frame ∉ s.currentFrames ++ s.laterFrames) ∧
        ∀ request, s.ledger.Allows request →
          (∃ reply next, frameMachine.Step s request reply next) ∧
          ∀ reply next, frameMachine.Step s request reply next →
            reply = (t.serve request).1 ∧
            ∃ pushed, StackStep s next request reply t.stack pushed (t.serve request).2.stack := by
  obtain ⟨allocator, hinit, hstart⟩ := init_refines hmap
  refine ⟨allocator, hinit, fun m trace s hrun ↦ ?_⟩
  obtain ⟨t, hlist, h, hlifo⟩ := frame_run_lifo hmap (hstart m) hrun
  have hnodup : (t.stack ++ t.runs.flatMap FrameRun.list).Nodup := by
    rw [← ListState.unused_eq]
    exact (h.accounted.nodup hmap).of_append_right
  refine ⟨t, hlist, h.ledger_eq, h.stack, hlifo, hnodup.of_append_left,
    fun frame ↦ h.mem_stack hmap frame, fun request hallows ↦ ⟨?_, fun reply next hstep ↦
      ⟨(frameMachine_simulates h hmap hstep).1, h.stackStep hmap hstep⟩⟩⟩
  obtain ⟨bound, next, hserve, _⟩ := serve_refines h hmap hallows
  exact ⟨_, next, hallows, bound, hserve bound le_rfl⟩

theorem frame_stack_lifo_twoFrameMap : ∃ allocator,
    Frames.init 2 twoFrameMap = .ok (2, allocator) ∧
      (FrameState.start allocator fun _ ↦ 0).Stack [] ∧
      ∃ reply next pushed after, StackStep (FrameState.start allocator fun _ ↦ 0) next
        .allocFrame reply [] pushed after := by
  obtain ⟨allocator, hinit, hruns⟩ := frame_stack_lifo firmwareMap_twoFrameMap
  obtain ⟨t, hlist, _, hstack, _, _, _, hrequests⟩ := hruns (fun _ ↦ 0) [] _ .nil
  have hempty : t.stack = [] := by
    obtain rfl : t = ListState.init twoFrameMap := by
      generalize htrace : ([] : List (FrameRequest × Option ℕ)) = trace at hlist
      cases hlist with
      | nil => rfl
      | snoc _ _ => exact absurd htrace (by simp)
    exact ListState.stack_init _
  rw [hempty] at hstack hrequests
  obtain ⟨⟨reply, next, hstep⟩, hall⟩ := hrequests .allocFrame trivial
  obtain ⟨_, pushed, hstackStep⟩ := hall reply next hstep
  exact ⟨allocator, hinit 2 (by decide), hstack, reply, next, pushed, _, hstackStep⟩

end Memory

end RustBL
