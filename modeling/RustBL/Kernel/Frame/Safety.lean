import RustBL.Kernel.Frame.Refinement

/-!
# Frame accounting over whole runs

`frameMachine` is the frame allocator with its clients: the stack of free frames lives in memory,
and clients write anywhere in the frames they hold. `frameMachine_simulates` is the refinement step:
every step is a step of the list version with the same request and the same reply, which writes to
the nodes of the frames it pushes or, for a client, to a frame that is held.

`frame_accounting` is the law of the accounts over whole runs. The frames handed out, the stack in
memory, the frames between the cursor and the end of the current run, and the frames of the runs the
iterator has not reached are together a permutation of the usable frames of the map.
-/

set_option autoImplicit false
set_option relaxedAutoImplicit false

namespace RustBL

/-- The frame allocator in memory, with what its clients hold. -/
structure FrameState where
  /-- The static allocator. -/
  allocator : Option FrameAllocator
  /-- The memory, which holds the nodes of the stack and what clients wrote. -/
  mem : Mem
  /-- What clients hold. -/
  ledger : Ledger

namespace FrameState

/-- The reply to a request, with the allocator and the memory after it. -/
def answer (fuel : ℕ) (allocator : Option FrameAllocator) (m : Mem) :
    FrameRequest → Checked (Option ℕ × Option FrameAllocator × Mem)
  | .allocFrame => Frames.allocFrame fuel allocator m
  | .deallocFrame addr => return (none, Frames.deallocFrame allocator m addr)
  | .allocContiguous frames => Frames.allocContiguous fuel allocator m frames
  | .write addr byte => return (none, allocator, Function.update m addr byte)

/-- Answer a request and record it. -/
def serve (fuel : ℕ) (s : FrameState) (request : FrameRequest) :
    Checked (Option ℕ × FrameState) := do
  let (reply, allocator, mem) ← answer fuel s.allocator s.mem request
  return (reply, ⟨allocator, mem, s.ledger.record request reply⟩)

/-- The state in which `frame::init` leaves an allocator over the memory `m`. -/
def start (allocator : Option FrameAllocator) (m : Mem) : FrameState :=
  ⟨allocator, m, ⟨[], []⟩⟩

/-- The frames between the cursor and the end of the current run. -/
def currentFrames (s : FrameState) : List ℕ :=
  s.allocator.elim [] fun allocator ↦
    framesFrom allocator.cursor ((allocator.runEnd - allocator.cursor) / PAGE_SIZE)

/-- The frames of the runs the iterator has still to hand out. -/
def laterFrames (s : FrameState) : List ℕ :=
  s.allocator.elim [] fun allocator ↦ allocator.runs.rest.flatMap FrameRun.list

/-- The stack of free frames, read along the nodes in memory. -/
def Stack (s : FrameState) (stack : List ℕ) : Prop :=
  FreeStack s.mem (s.allocator.bind FrameAllocator.free) stack

end FrameState

/-- The frame allocator in memory with clients that keep to their ledger. -/
def frameMachine : Machine FrameState FrameRequest (Option ℕ) :=
  ⟨fun s request reply next ↦
    s.ledger.Allows request ∧ ∃ fuel, s.serve fuel request = .ok (reply, next)⟩

/-- The stack of a list state. -/
def ListState.stack (s : ListState) : List ℕ :=
  s.allocator.elim [] ListAllocator.stack

/-- A static allocator and a memory that stand for those of the list version. -/
def RepresentsStatic (m : Mem) : Option FrameAllocator → Option ListAllocator → Prop
  | none, none => True
  | some allocator, some list => FrameAllocator.Represents m allocator list
  | _, _ => False

/-- A state of the allocator in memory and an accounted state of the list version with the same
ledger, the first standing for the second. -/
structure FramesRelated (regions : List MemoryRegion) (s : FrameState) (t : ListState) : Prop where
  accounted : Accounted regions t
  ledger_eq : s.ledger = t.ledger
  represents : RepresentsStatic s.mem s.allocator t.allocator

/-! ### Initialisation -/

section Init

variable {regions : List MemoryRegion}

/-- `frame::init` never faults over a firmware map. It returns the number of usable frames and
installs an allocator that stands for the initial list state. -/
theorem init_refines (h : FirmwareMap regions) : ∃ allocator,
    (∀ fuel, (runs regions).length < fuel →
      Frames.init fuel regions = .ok ((usableFrames regions).length, allocator)) ∧
    ∀ m, FramesRelated regions (FrameState.start allocator m) (ListState.init regions) := by
  have hlength := lt_of_le_of_lt h.length_le (by decide : 2 ^ 52 < 2 ^ 64)
  obtain ⟨allocator, hinit, hinstalled⟩ := Frames.init_eq hlength
  refine ⟨allocator, hinit, fun m ↦ ⟨accounted_init h, ?_, ?_⟩⟩
  · rw [ListState.init]
    split <;> rfl
  · rw [ListState.init]
    cases hruns : runs regions with
    | nil =>
      rw [hruns] at hinstalled
      obtain rfl : allocator = none := hinstalled
      trivial
    | cons run rest =>
      rw [hruns] at hinstalled
      obtain ⟨installed, rfl, hstands, hfree, hinUse⟩ := hinstalled
      exact ⟨hstands.rest_eq, hstands.cursor_eq, hstands.runEnd_eq, hfree, hinUse⟩

end Init

/-! ### One step -/

/-- What a request may write: the nodes of the frames that come on top of the stack, or the byte the
client names. -/
def written (before after : ListState) : FrameRequest → Set ℕ
  | .write addr _ => {addr}
  | _ => nodeBytes (after.stack.filter (· ∉ before.stack))

section Step

variable {regions : List MemoryRegion} {s : FrameState} {t : ListState}

theorem Accounted.ready {list : ListAllocator} {ledger : Ledger}
    (h : Accounted regions ⟨some list, ledger⟩) (hmap : FirmwareMap regions) :
    FrameAllocator.Ready list :=
  ⟨(h.nodup hmap).of_append_right, fun _ hframe ↦ h.isFrame hmap (List.mem_append_right _ hframe),
    h.stop_le⟩

theorem Accounted.inUse_le (h : Accounted regions t) (hmap : FirmwareMap regions) :
    t.inUse ≤ 2 ^ 52 := by
  have hlength := h.partition.length_eq
  have hle := hmap.length_le
  rw [List.length_append] at hlength
  rw [h.inUse_eq]
  omega

/-- Frames that come on top of a stack without repetition are new on it. -/
theorem sameOff_pushed {before after pushed : List ℕ} {m m' : Mem} (hnodup : after.Nodup)
    (hpushed : pushed = [] ∨ after = pushed ++ before)
    (hsame : Mem.SameOff (nodeBytes pushed) m m') :
    Mem.SameOff (nodeBytes (after.filter (· ∉ before))) m m' := by
  refine hsame.mono ?_
  rintro addr ⟨frame, hframe, haddr⟩
  rcases hpushed with rfl | rfl
  · exact nomatch hframe
  · obtain ⟨_, _, hdisjoint⟩ := List.nodup_append.mp hnodup
    have hnew : frame ∉ before := fun hold ↦ hdisjoint frame hframe frame hold rfl
    exact ⟨frame, List.mem_filter.mpr ⟨List.mem_append_left _ hframe, by simpa using hnew⟩, haddr⟩

/-- A client that writes in a frame it holds leaves the stack of free frames alone. -/
theorem Accounted.freeStack_update {list : ListAllocator} {ledger : Ledger} {m : Mem}
    {top : Option ℕ} (h : Accounted regions ⟨some list, ledger⟩) (hmap : FirmwareMap regions)
    (hstack : FreeStack m top list.stack) {addr : ℕ} {byte : UInt8}
    (hallows : ledger.Allows (.write addr byte)) :
    FreeStack (Function.update m addr byte) top list.stack := by
  obtain ⟨frame, hframe, haddr⟩ := hallows
  have hsame : Mem.SameOff {addr} m (Function.update m addr byte) :=
    fun other hother ↦ Function.update_of_ne hother _ _
  refine hstack.of_sameOff hsame fun free hfree ↦ Set.disjoint_singleton_right.mpr fun hin ↦ ?_
  have hunused : free ∈ ListState.unused ⟨some list, ledger⟩ := List.mem_append_left _ hfree
  have hne : free ≠ frame := by
    intro heq
    obtain ⟨_, _, hdisjoint⟩ := List.nodup_append.mp (h.nodup hmap)
    exact hdisjoint frame hframe free hunused heq.symm
  have hfreeDvd := (h.isFrame hmap (List.mem_append_right _ hunused)).page_dvd
  have hframeDvd := (h.isFrame hmap (List.mem_append_left _ hframe)).page_dvd
  exact Set.disjoint_left.mp (disjoint_frameBytes hfreeDvd hframeDvd hne) hin haddr

/-- A static allocator that stands for a list allocator answers every request like it, within the
turns of its list, and writes to the nodes it pushes or to the byte the client names. -/
theorem answer_refines {allocator : FrameAllocator} {list : ListAllocator} {ledger : Ledger}
    {m : Mem} {fuel : ℕ} (h : Accounted regions ⟨some list, ledger⟩) (hmap : FirmwareMap regions)
    (hrep : FrameAllocator.Represents m allocator list) (hfuel : FrameAllocator.turns list < fuel)
    {request : FrameRequest} (hallows : ledger.Allows request) :
    ∃ allocator' m', FrameState.answer fuel (some allocator) m request =
        .ok ((ListState.answer (some list) request).1, allocator', m') ∧
      RepresentsStatic m' allocator' (ListState.answer (some list) request).2 ∧
      Mem.SameOff (written ⟨some list, ledger⟩ (ListState.serve ⟨some list, ledger⟩ request).2
        request) m m' := by
  have hready := h.ready hmap
  have hnext : Accounted regions (ListState.serve ⟨some list, ledger⟩ request).2 :=
    accounted_step h ⟨hallows, rfl⟩
  have hinUse := hnext.inUse_le hmap
  have hnodup : (ListState.serve ⟨some list, ledger⟩ request).2.unused.Nodup :=
    (hnext.nodup hmap).of_append_right
  cases request with
  | allocFrame =>
    have hfits : list.alloc.2.inUse < 2 ^ 64 := lt_of_le_of_lt hinUse (by decide)
    obtain ⟨allocator', m', pushed, hran, hrep', hpushed, hsame⟩ :=
      FrameAllocator.alloc_refines hrep hready hfuel hfits
    exact ⟨_, m', hran, hrep', sameOff_pushed hnodup.of_append_left hpushed hsame⟩
  | deallocFrame addr =>
    have hheld : addr ∈ ledger.frames := List.mem_append_left _ hallows
    have hframe := h.isFrame hmap (List.mem_append_left _ hheld)
    have hout : addr ∉ list.stack := by
      intro hin
      obtain ⟨_, _, hdisjoint⟩ := List.nodup_append.mp (h.nodup hmap)
      exact hdisjoint addr hheld addr (List.mem_append_left _ hin) rfl
    obtain ⟨allocator', m', hran, hrep', hsame⟩ :=
      FrameAllocator.dealloc_refines hrep hready hframe hout
    refine ⟨some allocator', m', ?_, hrep', sameOff_pushed hnodup.of_append_left (Or.inr rfl) hsame⟩
    rw [FrameState.answer, hran]
    rfl
  | allocContiguous frames =>
    have hfits : (list.take frames).2.inUse < 2 ^ 64 := lt_of_le_of_lt hinUse (by decide)
    obtain ⟨allocator', m', pushed, hran, hrep', hpushed, hsame⟩ :=
      FrameAllocator.take_refines hrep hready hfuel hfits
    exact ⟨_, m', hran, hrep', sameOff_pushed hnodup.of_append_left (Or.inr hpushed) hsame⟩
  | write addr byte =>
    refine ⟨some allocator, Function.update m addr byte, rfl, ?_, ?_⟩
    · exact ⟨hrep.rest_eq, hrep.cursor_eq, hrep.runEnd_eq,
        h.freeStack_update hmap hrep.stack hallows, hrep.inUse_eq⟩
    · exact fun other hother ↦ Function.update_of_ne hother _ _

/-- Without an allocator every request is refused, and only a client writes. -/
theorem answer_none (fuel : ℕ) (ledger : Ledger) (m : Mem) (request : FrameRequest) :
    ∃ m', FrameState.answer fuel none m request =
        .ok ((ListState.answer none request).1, none, m') ∧
      (ListState.answer none request).2 = none ∧
      Mem.SameOff (written ⟨none, ledger⟩ (ListState.serve ⟨none, ledger⟩ request).2 request)
        m m' := by
  cases request with
  | write addr byte =>
    exact ⟨_, rfl, rfl, fun other hother ↦ Function.update_of_ne hother _ _⟩
  | _ => exact ⟨m, rfl, rfl, Mem.SameOff.refl _ _⟩

theorem serve_mono {request : FrameRequest} {fuel fuel' : ℕ} (hfuel : fuel ≤ fuel')
    {outcome : Option ℕ × FrameState} (h : s.serve fuel request = .ok outcome) :
    s.serve fuel' request = .ok outcome := by
  refine bind_mono (fun answer hanswer ↦ ?_) h
  cases request with
  | allocFrame => exact FrameAllocator.allocFrame_mono hfuel hanswer
  | allocContiguous frames => exact FrameAllocator.allocContiguous_mono hfuel hanswer
  | _ => exact hanswer

/-- Every request of a client that keeps to its ledger is answered as by the list version, with any
turn budget that is large enough. -/
theorem serve_refines (h : FramesRelated regions s t) (hmap : FirmwareMap regions)
    {request : FrameRequest} (hallows : s.ledger.Allows request) :
    ∃ bound next, (∀ fuel, bound ≤ fuel →
        s.serve fuel request = .ok ((t.serve request).1, next)) ∧
      FramesRelated regions next (t.serve request).2 ∧
      Mem.SameOff (written t (t.serve request).2 request) s.mem next.mem := by
  obtain ⟨allocator, m, ledger⟩ := s
  obtain ⟨list, ledger'⟩ := t
  obtain ⟨haccounted, hledger, hrep⟩ := h
  obtain rfl : ledger = ledger' := hledger
  have hnext : Accounted regions (ListState.serve ⟨list, ledger⟩ request).2 :=
    accounted_step haccounted ⟨hallows, rfl⟩
  suffices hanswer : ∃ bound allocator' m', FrameState.answer bound allocator m request =
        .ok ((ListState.answer list request).1, allocator', m') ∧
      RepresentsStatic m' allocator' (ListState.answer list request).2 ∧
      Mem.SameOff (written ⟨list, ledger⟩ (ListState.serve ⟨list, ledger⟩ request).2 request)
        m m' by
    obtain ⟨bound, allocator', m', hran, hrep', hsame⟩ := hanswer
    refine ⟨bound, ⟨allocator', m', _⟩, fun fuel hfuel ↦ serve_mono hfuel ?_,
      ⟨hnext, rfl, hrep'⟩, hsame⟩
    rw [FrameState.serve]
    simp only
    rw [hran, ok_bind]
    rfl
  cases list with
  | none =>
    cases allocator with
    | some allocator => exact hrep.elim
    | none =>
      obtain ⟨m', hran, hnone, hsame⟩ := answer_none 0 ledger m request
      exact ⟨0, none, m', hran, by rw [hnone]; trivial, hsame⟩
  | some list =>
    cases allocator with
    | none => exact hrep.elim
    | some allocator =>
      obtain ⟨allocator', m', hran, hrep', hsame⟩ :=
        answer_refines haccounted hmap hrep (Nat.lt_succ_self _) hallows
      exact ⟨_, allocator', m', hran, hrep', hsame⟩

/-- Every step of the allocator in memory is a step of the list version. -/
theorem frameMachine_simulates (h : FramesRelated regions s t) (hmap : FirmwareMap regions)
    {request : FrameRequest} {reply : Option ℕ} {next : FrameState}
    (hstep : frameMachine.Step s request reply next) :
    reply = (t.serve request).1 ∧ FramesRelated regions next (t.serve request).2 ∧
      Mem.SameOff (written t (t.serve request).2 request) s.mem next.mem := by
  obtain ⟨hallows, fuel, hserve⟩ := hstep
  obtain ⟨bound, next', hanswer, hrelated, hsame⟩ := serve_refines h hmap hallows
  have hmax := serve_mono (le_max_left fuel bound) hserve
  rw [hanswer _ (le_max_right fuel bound)] at hmax
  obtain ⟨rfl, rfl⟩ := Prod.mk.inj (Except.ok.inj hmax)
  exact ⟨rfl, hrelated, hsame⟩

/-- Every run of the allocator in memory is matched by a run of the list version with the same
trace. -/
theorem frame_run_related (hmap : FirmwareMap regions) {start : FrameState}
    (hstart : FramesRelated regions start (ListState.init regions))
    {trace : List (FrameRequest × Option ℕ)} (hrun : frameMachine.Run start trace s) :
    ∃ t, listMachine.Run (ListState.init regions) trace t ∧ FramesRelated regions s t := by
  refine hrun.simulate (FramesRelated regions) (fun s t request reply next h hstep ↦ ?_) hstart
  obtain ⟨rfl, hnext, _⟩ := frameMachine_simulates h hmap hstep
  have hallows : t.ledger.Allows request := h.ledger_eq ▸ hstep.1
  exact ⟨_, ⟨hallows, rfl⟩, hnext⟩

end Step

/-! ### Whole runs -/

section Runs

variable {regions : List MemoryRegion} {s : FrameState} {t : ListState}

/-- Either both versions are without an allocator, or the one in memory stands for the other. -/
theorem FramesRelated.split (h : FramesRelated regions s t) :
    (s.allocator = none ∧ t.allocator = none) ∨
      ∃ allocator list, s.allocator = some allocator ∧ t.allocator = some list ∧
        FrameAllocator.Represents s.mem allocator list := by
  have hrep := h.represents
  cases hs : s.allocator with
  | none => cases ht : t.allocator with
    | none => exact Or.inl ⟨rfl, rfl⟩
    | some list => rw [hs, ht] at hrep; exact hrep.elim
  | some allocator => cases ht : t.allocator with
    | none => rw [hs, ht] at hrep; exact hrep.elim
    | some list => rw [hs, ht] at hrep; exact Or.inr ⟨allocator, list, rfl, rfl, hrep⟩

theorem FramesRelated.stack (h : FramesRelated regions s t) : s.Stack t.stack := by
  rcases h.split with ⟨hs, ht⟩ | ⟨allocator, list, hs, ht, hrep⟩
  · rw [FrameState.Stack, ListState.stack, hs, ht]
    exact rfl
  · rw [FrameState.Stack, ListState.stack, hs, ht]
    exact hrep.stack

/-- The unused frames of the list version are those of the state in memory. -/
theorem FramesRelated.unused_eq (h : FramesRelated regions s t) :
    t.unused = t.stack ++ (s.currentFrames ++ s.laterFrames) := by
  rcases h.split with ⟨hs, ht⟩ | ⟨allocator, list, hs, ht, hrep⟩
  · rw [ListState.unused, ListState.stack, FrameState.currentFrames, FrameState.laterFrames, hs, ht]
    rfl
  · have hcount : (allocator.runEnd - allocator.cursor) / PAGE_SIZE = list.current.frames := by
      rw [hrep.runEnd_eq, hrep.cursor_eq, FrameRun.stop, Nat.add_sub_cancel_left,
        Nat.mul_div_cancel _ (by decide)]
    rw [ListState.unused, ListState.stack, FrameState.currentFrames, FrameState.laterFrames, hs, ht]
    simp only [Option.elim, ListAllocator.unused, ListAllocator.ahead]
    rw [hcount, hrep.cursor_eq, hrep.rest_eq]
    rfl

theorem FramesRelated.framesInUse_eq (h : FramesRelated regions s t) :
    Frames.framesInUse s.allocator = s.ledger.frames.length := by
  rw [h.ledger_eq, ← h.accounted.inUse_eq, ListState.inUse]
  rcases h.split with ⟨hs, ht⟩ | ⟨allocator, list, hs, ht, hrep⟩
  · rw [hs, ht]
    rfl
  · rw [hs, ht]
    exact hrep.inUse_eq

/-- `alloc_frame` of the list version finds nothing exactly when nothing is unused. -/
theorem ListState.allocFrame_eq_none (t : ListState) :
    (t.serve .allocFrame).1 = none ↔ t.unused = [] := by
  obtain ⟨list, ledger⟩ := t
  cases list with
  | none => exact ⟨fun _ ↦ rfl, fun _ ↦ rfl⟩
  | some list => exact list.alloc_eq_none

/-- The bytes of the usable frames of a map. -/
def usableBytes (regions : List MemoryRegion) : Set ℕ :=
  {addr | ∃ frame ∈ usableFrames regions, addr ∈ frameBytes frame}

/-- What a step writes lies in usable frames. -/
theorem Accounted.written_subset (h : Accounted regions t) {request : FrameRequest}
    (hallows : t.ledger.Allows request) :
    written t (t.serve request).2 request ⊆ usableBytes regions := by
  have hnext : Accounted regions (t.serve request).2 := accounted_step h ⟨hallows, rfl⟩
  have hnodes : nodeBytes ((t.serve request).2.stack.filter (· ∉ t.stack)) ⊆
      usableBytes regions := by
    rintro addr ⟨frame, hframe, hlow, hhigh⟩
    have hstack : frame ∈ (t.serve request).2.stack := (List.mem_filter.mp hframe).1
    have hunused : frame ∈ (t.serve request).2.unused := by
      rw [ListState.stack] at hstack
      rw [ListState.unused]
      cases hlist : (t.serve request).2.allocator with
      | none => rw [hlist] at hstack; exact absurd hstack List.not_mem_nil
      | some list => rw [hlist] at hstack; exact List.mem_append_left _ hstack
    have hpage : 8 ≤ PAGE_SIZE := by decide
    exact ⟨frame, hnext.partition.mem_iff.mp (List.mem_append_right _ hunused), hlow, by omega⟩
  cases request with
  | write addr byte =>
    obtain ⟨frame, hframe, haddr⟩ := hallows
    exact Set.singleton_subset_iff.mpr
      ⟨frame, h.partition.mem_iff.mp (List.mem_append_left _ hframe), haddr⟩
  | _ => exact hnodes

/-- A run writes to usable frames only. -/
theorem frame_run_sameOff (hmap : FirmwareMap regions) {start : FrameState}
    (hstart : FramesRelated regions start (ListState.init regions))
    (hs : frameMachine.Reachable start s) :
    Mem.SameOff (usableBytes regions) start.mem s.mem ∧ ∃ t, FramesRelated regions s t := by
  refine hs.invariant (fun s ↦ Mem.SameOff (usableBytes regions) start.mem s.mem ∧
    ∃ t, FramesRelated regions s t) ?_ ⟨Mem.SameOff.refl _ _, _, hstart⟩
  rintro state request reply next ⟨hsame, t, h⟩ hstep
  have hallows : t.ledger.Allows request := h.ledger_eq ▸ hstep.1
  obtain ⟨_, hnext, hwritten⟩ := frameMachine_simulates h hmap hstep
  exact ⟨hsame.trans (hwritten.mono (h.accounted.written_subset hallows)), _, hnext⟩

/-- Frame accounting over whole runs. `frame::init` returns the number of usable frames. In every
state a run reaches, the frames handed out, the free stack, the frames up to the end of the current
run and the frames of later runs are the usable frames of the map, each once; `in_use` counts the
frames handed out, so it is not zero when one is returned; every request is answered; and
`alloc_frame` returns `None` exactly when every usable frame is handed out. -/
theorem frame_accounting (hmap : FirmwareMap regions) : ∃ allocator,
    (∀ fuel, (runs regions).length < fuel →
      Frames.init fuel regions = .ok ((usableFrames regions).length, allocator)) ∧
    ∀ m s, frameMachine.Reachable (FrameState.start allocator m) s →
      (∃ stack, s.Stack stack ∧
        (s.ledger.frames ++ (stack ++ (s.currentFrames ++ s.laterFrames))).Nodup ∧
        (s.ledger.frames ++ (stack ++ (s.currentFrames ++ s.laterFrames))).Perm
          (usableFrames regions)) ∧
      Frames.framesInUse s.allocator = s.ledger.frames.length ∧
      (∀ addr ∈ s.ledger.live, 0 < Frames.framesInUse s.allocator) ∧
      (∀ request, s.ledger.Allows request →
        ∃ reply next, frameMachine.Step s request reply next) ∧
      ∀ reply next, frameMachine.Step s .allocFrame reply next →
        (reply = none ↔ ∀ frame ∈ usableFrames regions, frame ∈ s.ledger.frames) := by
  obtain ⟨allocator, hinit, hstart⟩ := init_refines hmap
  refine ⟨allocator, hinit, fun m s hs ↦ ?_⟩
  obtain ⟨trace, hrun⟩ := hs
  obtain ⟨t, _, h⟩ := frame_run_related hmap (hstart m) hrun
  have hnodup := h.accounted.nodup hmap
  have hpartition := h.accounted.partition
  rw [h.unused_eq, ← h.ledger_eq] at hnodup hpartition
  refine ⟨⟨t.stack, h.stack, hnodup, hpartition⟩, h.framesInUse_eq, fun addr haddr ↦ ?_,
    fun request hallows ↦ ?_, ?_⟩
  · rw [h.framesInUse_eq]
    exact List.length_pos_of_mem (List.mem_append_left _ haddr)
  · obtain ⟨bound, next, hserve, _⟩ := serve_refines h hmap hallows
    exact ⟨_, next, hallows, bound, hserve bound le_rfl⟩
  · intro reply next hstep
    obtain ⟨rfl, _⟩ := frameMachine_simulates h hmap hstep
    rw [ListState.allocFrame_eq_none, h.accounted.unused_eq_nil hmap, h.ledger_eq]

/-- A map with one region of two frames. -/
def twoFrameMap : List MemoryRegion :=
  [⟨0x100000, 2, MemoryRegion.CONVENTIONAL⟩]

theorem firmwareMap_twoFrameMap : FirmwareMap twoFrameMap where
  apart := List.pairwise_singleton _ _
  below := by decide

theorem frame_accounting_twoFrameMap : ∃ allocator,
    Frames.init 2 twoFrameMap = .ok (2, allocator) ∧
      ∃ reply next,
        frameMachine.Step (FrameState.start allocator fun _ ↦ 0) .allocFrame reply next ∧
          reply ≠ none := by
  obtain ⟨allocator, hinit, hruns⟩ := frame_accounting firmwareMap_twoFrameMap
  obtain ⟨_, _, _, hanswer, hnone⟩ := hruns (fun _ ↦ 0) _ (Machine.Reachable.start _ _)
  obtain ⟨reply, next, hstep⟩ := hanswer .allocFrame trivial
  refine ⟨allocator, hinit 2 (by decide), reply, next, hstep, fun hreply ↦ ?_⟩
  exact nomatch (hnone reply next hstep).mp hreply 0x100000 (by decide)

end Runs

end RustBL
