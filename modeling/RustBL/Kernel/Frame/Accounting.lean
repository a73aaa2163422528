import RustBL.BootInfo.UsableFrames
import RustBL.Library.Runs
import Mathlib.Algebra.Order.Group.Multiset
import Mathlib.Tactic.Abel

/-!
# Frame accounting on plain lists

The list version of the frame allocator keeps its free frames in a list and its runs as lists of
frames. Its operations make the decisions of the allocator without a memory and without words.

A `Ledger` records what clients hold: the frames of `alloc_frame` that were not returned, and the
runs of `alloc_contiguous`. `Accounted` is the invariant of whole runs of the list version: the
frames of the ledger, the free stack, the rest of the current run and the runs not reached yet are
together a permutation of the usable frames of the map, and `in_use` counts the ledger.
`accounted_step` preserves it, one case for each request, and `ListAllocator.bumpFrom_spec` is the
case of the cursor with its loop over the runs.
-/

set_option autoImplicit false
set_option relaxedAutoImplicit false

namespace RustBL

/-! ### Requests and the ledger -/

/-- What a client asks of the frame allocator, or does to the memory of a frame it holds. -/
inductive FrameRequest
  /-- `alloc_frame()`. -/
  | allocFrame
  /-- `dealloc_frame(addr)`. -/
  | deallocFrame (addr : ℕ)
  /-- `alloc_contiguous(frames)`. -/
  | allocContiguous (frames : ℕ)
  /-- The client writes `byte` to `addr`. -/
  | write (addr : ℕ) (byte : UInt8)

/-- The frames clients hold. -/
structure Ledger where
  /-- The frames of `alloc_frame` that were not returned. -/
  live : List ℕ
  /-- The runs of `alloc_contiguous`, which are never returned. -/
  contiguous : List FrameRun

namespace Ledger

/-- The frames handed out and not returned. -/
def frames (ledger : Ledger) : List ℕ :=
  ledger.live ++ ledger.contiguous.flatMap FrameRun.list

/-- Clients return only frames that `alloc_frame` handed out, and write only to frames they hold. -/
def Allows (ledger : Ledger) : FrameRequest → Prop
  | .allocFrame => True
  | .deallocFrame addr => addr ∈ ledger.live
  | .allocContiguous _ => True
  | .write addr _ => ∃ frame ∈ ledger.frames, addr ∈ frameBytes frame

/-- Record a request with its reply. -/
def record (ledger : Ledger) : FrameRequest → Option ℕ → Ledger
  | .allocFrame, reply => { ledger with live := reply.toList ++ ledger.live }
  | .deallocFrame addr, _ => { ledger with live := ledger.live.erase addr }
  | .allocContiguous frames, reply =>
    { ledger with contiguous := (reply.map (⟨·, frames⟩)).toList ++ ledger.contiguous }
  | .write _ _, _ => ledger

end Ledger

/-- The frames a request for `frames` frames was granted. -/
def granted (frames : ℕ) : Option ℕ → List ℕ
  | none => []
  | some addr => framesFrom addr frames

/-! ### The list version -/

/-- What is left of a run behind its first `frames` frames. -/
def FrameRun.skip (run : FrameRun) (frames : ℕ) : FrameRun :=
  ⟨run.start + frames * PAGE_SIZE, run.frames - frames⟩

/-- The list version of the frame allocator. -/
structure ListAllocator where
  /-- The runs not reached yet. -/
  rest : List FrameRun
  /-- What is left of the current run. -/
  current : FrameRun
  /-- The free frames, last pushed first. -/
  stack : List ℕ
  /-- The number of frames handed out and not returned. -/
  inUse : ℕ

namespace ListAllocator

/-- The frames the cursor has still ahead. -/
def ahead (list : ListAllocator) : List ℕ :=
  list.current.list ++ list.rest.flatMap FrameRun.list

/-- The frames nobody holds. -/
def unused (list : ListAllocator) : List ℕ :=
  list.stack ++ list.ahead

/-- Take `frames` frames from the first run that has them, and push the frames of the runs before
it. -/
def bumpFrom (frames inUse : ℕ) :
    List FrameRun → FrameRun → List ℕ → Option ℕ × ListAllocator
  | [], current, stack =>
    if frames ≤ current.frames then
      (some current.start, ⟨[], current.skip frames, stack, inUse⟩)
    else (none, ⟨[], current.skip current.frames, current.list.reverse ++ stack, inUse⟩)
  | run :: rest, current, stack =>
    if frames ≤ current.frames then
      (some current.start, ⟨run :: rest, current.skip frames, stack, inUse⟩)
    else bumpFrom frames inUse rest run (current.list.reverse ++ stack)

/-- `FrameAllocator::bump`. A request whose length in bytes is no word is refused at once. -/
def bump (list : ListAllocator) (frames : ℕ) : Option ℕ × ListAllocator :=
  if frames * PAGE_SIZE < 2 ^ 64 then
    bumpFrom frames list.inUse list.rest list.current list.stack
  else (none, list)

/-- Take frames from the cursor and count them. -/
def take (list : ListAllocator) (frames : ℕ) : Option ℕ × ListAllocator :=
  let (reply, list) := list.bump frames
  (reply, { list with inUse := list.inUse + (granted frames reply).length })

/-- `FrameAllocator::alloc`. -/
def alloc (list : ListAllocator) : Option ℕ × ListAllocator :=
  match list.stack with
  | node :: stack => (some node, { list with stack, inUse := list.inUse + 1 })
  | [] => list.take 1

/-- `frame::dealloc_frame`. -/
def dealloc (list : ListAllocator) (addr : ℕ) : ListAllocator :=
  { list with stack := addr :: list.stack, inUse := list.inUse - 1 }

end ListAllocator

/-- The list version with its clients. -/
structure ListState where
  /-- The allocator, `none` when the map has no usable memory. -/
  allocator : Option ListAllocator
  /-- What clients hold. -/
  ledger : Ledger

namespace ListState

/-- The frames nobody holds. -/
def unused (s : ListState) : List ℕ :=
  s.allocator.elim [] ListAllocator.unused

/-- The current run and the runs not reached yet. -/
def runs (s : ListState) : List FrameRun :=
  s.allocator.elim [] fun list ↦ list.current :: list.rest

/-- `frame::frames_in_use`. -/
def inUse (s : ListState) : ℕ :=
  s.allocator.elim 0 ListAllocator.inUse

/-- `frame::init`. -/
def init (regions : List MemoryRegion) : ListState :=
  match RustBL.runs regions with
  | [] => ⟨none, ⟨[], []⟩⟩
  | run :: rest => ⟨some ⟨rest, run, [], 0⟩, ⟨[], []⟩⟩

/-- The reply to a request and the allocator after it. -/
def answer (allocator : Option ListAllocator) : FrameRequest → Option ℕ × Option ListAllocator
  | .allocFrame => (allocator.bind (·.alloc.1), allocator.map (·.alloc.2))
  | .deallocFrame addr => (none, allocator.map (·.dealloc addr))
  | .allocContiguous frames =>
    (allocator.bind (·.take frames |>.1), allocator.map (·.take frames |>.2))
  | .write _ _ => (none, allocator)

/-- Answer a request and record it. -/
def serve (s : ListState) (request : FrameRequest) : Option ℕ × ListState :=
  let (reply, allocator) := answer s.allocator request
  (reply, ⟨allocator, s.ledger.record request reply⟩)

end ListState

/-- The list version with clients that keep to their ledger. -/
def listMachine : Machine ListState FrameRequest (Option ℕ) :=
  ⟨fun s request reply next ↦ s.ledger.Allows request ∧ s.serve request = (reply, next)⟩

/-! ### The cursor -/

/-- A row of frames splits into its first frames and what is left of it. -/
theorem FrameRun.list_skip {run : FrameRun} {frames : ℕ} (hle : frames ≤ run.frames) :
    framesFrom run.start frames ++ (run.skip frames).list = run.list := by
  rw [FrameRun.list, FrameRun.list, FrameRun.skip, ← framesFrom_add, Nat.add_sub_cancel' hle]

theorem FrameRun.list_skip_all (run : FrameRun) : (run.skip run.frames).list = [] := by
  rw [FrameRun.list, FrameRun.skip, Nat.sub_self, framesFrom]

theorem FrameRun.stop_skip {run : FrameRun} {frames : ℕ} (hle : frames ≤ run.frames) :
    (run.skip frames).stop = run.stop := by
  rw [FrameRun.stop, FrameRun.skip, FrameRun.stop, Nat.add_assoc, ← Nat.add_mul,
    Nat.add_sub_cancel' hle]

/-- What taking `frames` frames from the cursor does: frames ahead are granted, pushed or stay
ahead, and no run grows. -/
structure Bumped (frames : ℕ) (list : ListAllocator) (reply : Option ℕ) (after : ListAllocator) :
    Prop where
  ahead : ∃ pushed, after.stack = pushed ++ list.stack ∧
    (granted frames reply ++ (pushed ++ after.ahead)).Perm list.ahead
  inUse_eq : after.inUse = list.inUse
  stop_eq : ∀ run ∈ after.current :: after.rest, ∃ before ∈ list.current :: list.rest,
    run.stop = before.stop

namespace ListAllocator

variable {frames : ℕ}

theorem bumped_take (list : ListAllocator) (hle : frames ≤ list.current.frames) :
    Bumped frames list (some list.current.start)
      ⟨list.rest, list.current.skip frames, list.stack, list.inUse⟩ := by
  refine ⟨⟨[], rfl, ?_⟩, rfl, fun run hrun ↦ ?_⟩
  · rw [ListAllocator.ahead, ListAllocator.ahead, granted, List.nil_append, ← List.append_assoc,
      FrameRun.list_skip hle]
  · rcases List.mem_cons.mp hrun with rfl | hrun
    · exact ⟨_, List.mem_cons_self, FrameRun.stop_skip hle⟩
    · exact ⟨run, List.mem_cons_of_mem _ hrun, rfl⟩

theorem bumpFrom_spec (inUse : ℕ) (rest : List FrameRun) (current : FrameRun) (stack : List ℕ) :
    Bumped frames ⟨rest, current, stack, inUse⟩ (bumpFrom frames inUse rest current stack).1
      (bumpFrom frames inUse rest current stack).2 := by
  induction rest generalizing current stack with
  | nil =>
    rw [bumpFrom]
    split_ifs with hle
    · exact bumped_take ⟨[], current, stack, inUse⟩ hle
    · refine ⟨⟨current.list.reverse, rfl, ?_⟩, rfl, fun run hrun ↦ ?_⟩
      · simp only [ListAllocator.ahead, granted, FrameRun.list_skip_all, List.flatMap_nil,
          List.append_nil, List.nil_append]
        exact List.reverse_perm _
      · obtain rfl := List.mem_singleton.mp hrun
        exact ⟨_, List.mem_cons_self, FrameRun.stop_skip le_rfl⟩
  | cons run rest ih =>
    rw [bumpFrom]
    split_ifs with hle
    · exact bumped_take ⟨run :: rest, current, stack, inUse⟩ hle
    · obtain ⟨⟨pushed, hstack, hperm⟩, hinUse, hstop⟩ := ih run (current.list.reverse ++ stack)
      refine ⟨⟨pushed ++ current.list.reverse, ?_, ?_⟩, hinUse, fun after hafter ↦ ?_⟩
      · rw [hstack, List.append_assoc]
      · -- The frames of the current run are pushed before all others.
        simp only [ListAllocator.ahead, List.flatMap_cons] at hperm ⊢
        refine List.Perm.trans ?_ ((List.reverse_perm current.list).append hperm)
        rw [← Multiset.coe_eq_coe]
        simp only [← Multiset.coe_add]
        abel
      · obtain ⟨before, hbefore, heq⟩ := hstop after hafter
        exact ⟨before, List.mem_cons_of_mem _ hbefore, heq⟩

theorem bump_spec (list : ListAllocator) (frames : ℕ) :
    Bumped frames list (list.bump frames).1 (list.bump frames).2 := by
  rw [bump]
  split_ifs
  · exact bumpFrom_spec list.inUse list.rest list.current list.stack
  · exact ⟨⟨[], rfl, List.Perm.refl _⟩, rfl, fun run hrun ↦ ⟨run, hrun, rfl⟩⟩

/-- The cursor refuses a request exactly when no run has that many frames left. -/
theorem bumpFrom_eq_none (inUse : ℕ) (rest : List FrameRun) (current : FrameRun)
    (stack : List ℕ) : (bumpFrom frames inUse rest current stack).1 = none ↔
      ∀ run ∈ current :: rest, run.frames < frames := by
  induction rest generalizing current stack with
  | nil =>
    rw [bumpFrom]
    split_ifs with hle <;> simp <;> omega
  | cons run rest ih =>
    rw [bumpFrom]
    split_ifs with hle
    · simp only [List.forall_mem_cons, false_iff]
      omega
    · rw [ih, List.forall_mem_cons (a := current)]
      simp only [not_le] at hle
      exact (and_iff_right hle).symm

/-- `alloc` finds no frame exactly when none is left. -/
theorem alloc_eq_none (list : ListAllocator) : list.alloc.1 = none ↔ list.unused = [] := by
  have hpage : 1 * PAGE_SIZE < 2 ^ 64 := by decide
  have hlist : ∀ run : FrameRun, run.frames < 1 ↔ run.list = [] := by
    intro run
    rw [Nat.lt_one_iff, FrameRun.list, ← List.length_eq_zero_iff, length_framesFrom]
  rw [alloc, unused, ahead]
  split
  · rename_i node stack hstack
    simp [hstack]
  · rename_i hstack
    simp only [take, bump, if_pos hpage]
    rw [bumpFrom_eq_none, List.forall_mem_cons, hlist, hstack]
    simp [hlist]

end ListAllocator

/-! ### The invariant -/

/-- The accounts of a state over the map `regions`. -/
structure Accounted (regions : List MemoryRegion) (s : ListState) : Prop where
  partition : (s.ledger.frames ++ s.unused).Perm (usableFrames regions)
  inUse_eq : s.inUse = s.ledger.frames.length
  stop_le : ∀ run ∈ s.runs, run.stop ≤ 2 ^ 52

section Accounted

variable {regions : List MemoryRegion} {s : ListState}

theorem accounted_init (h : FirmwareMap regions) : Accounted regions (ListState.init regions) := by
  have hstop : ∀ run ∈ runs regions, run.stop ≤ 2 ^ 52 := fun run hrun ↦ h.run_stop_le hrun
  rw [ListState.init]
  split
  · rename_i hruns
    refine ⟨?_, rfl, fun run hrun ↦ nomatch hrun⟩
    rw [usableFrames, hruns]
    exact List.Perm.refl _
  · rename_i run rest hruns
    rw [hruns] at hstop
    refine ⟨?_, rfl, hstop⟩
    rw [usableFrames, hruns]
    exact List.Perm.refl _

/-- Recording what the cursor granted adds it to the ledger. -/
theorem Ledger.frames_record_allocContiguous (ledger : Ledger) (frames : ℕ) (reply : Option ℕ) :
    (ledger.record (.allocContiguous frames) reply).frames.Perm
      (granted frames reply ++ ledger.frames) := by
  cases reply with
  | none => exact List.Perm.refl _
  | some addr =>
    simp only [Ledger.record, Ledger.frames, granted, Option.map_some, Option.toList_some,
      List.singleton_append, List.flatMap_cons]
    exact List.perm_append_comm_assoc _ _ _

theorem Ledger.frames_record_allocFrame (ledger : Ledger) (reply : Option ℕ) :
    (ledger.record .allocFrame reply).frames = granted 1 reply ++ ledger.frames := by
  cases reply <;> rfl

/-- Taking frames from the cursor keeps the accounts. Assumes: the ledger after the request holds
the granted frames and those held before. -/
theorem Accounted.take {list : ListAllocator} {ledger ledger' : Ledger} {frames : ℕ}
    (h : Accounted regions ⟨some list, ledger⟩)
    (hledger : ledger'.frames.Perm (granted frames (list.take frames).1 ++ ledger.frames)) :
    Accounted regions ⟨some (list.take frames).2, ledger'⟩ := by
  obtain ⟨⟨pushed, hstack, hperm⟩, hinUse, hstop⟩ := list.bump_spec frames
  have hpartition := h.partition
  have hcount := h.inUse_eq
  refine ⟨?_, ?_, ?_⟩
  · refine List.Perm.trans ?_ hpartition
    simp only [ListState.unused, Option.elim, ListAllocator.unused, ListAllocator.take] at *
    simp only [ListAllocator.ahead] at hperm ⊢
    rw [hstack]
    rw [← Multiset.coe_eq_coe] at hperm hledger ⊢
    simp only [← Multiset.coe_add] at hperm hledger ⊢
    rw [hledger, ← hperm]
    abel
  · have hlength := hledger.length_eq
    simp only [ListState.inUse, Option.elim, ListAllocator.take, List.length_append] at *
    omega
  · intro run hrun
    obtain ⟨before, hbefore, heq⟩ := hstop run hrun
    exact heq.trans_le (h.stop_le before hbefore)

/-- A frame popped off the stack moves to the ledger. -/
theorem Accounted.pop {list : ListAllocator} {ledger : Ledger} {node : ℕ} {stack : List ℕ}
    (h : Accounted regions ⟨some list, ledger⟩) (hstack : list.stack = node :: stack) :
    Accounted regions ⟨some { list with stack, inUse := list.inUse + 1 },
      ledger.record .allocFrame (some node)⟩ := by
  have hpartition := h.partition
  have hcount := h.inUse_eq
  refine ⟨?_, ?_, h.stop_le⟩
  · refine List.Perm.trans ?_ hpartition
    simp only [ListState.unused, Option.elim, ListAllocator.unused, hstack, List.cons_append]
    exact List.perm_middle.symm
  · rw [Ledger.frames_record_allocFrame]
    simp only [ListState.inUse, Option.elim] at hcount ⊢
    rw [hcount]
    rfl

/-- A returned frame moves from the ledger to the stack. -/
theorem Accounted.dealloc {list : ListAllocator} {ledger : Ledger} {addr : ℕ}
    (h : Accounted regions ⟨some list, ledger⟩) (hlive : addr ∈ ledger.live) :
    Accounted regions ⟨some (list.dealloc addr), ledger.record (.deallocFrame addr) none⟩ := by
  have hperm : ledger.frames.Perm (addr :: (ledger.record (.deallocFrame addr) none).frames) :=
    (List.perm_cons_erase hlive).append_right _
  have hpartition := h.partition
  have hcount := h.inUse_eq
  refine ⟨?_, ?_, h.stop_le⟩
  · refine List.Perm.trans ?_ hpartition
    refine List.Perm.trans ?_ (hperm.append_right _).symm
    exact List.perm_middle
  · have hlength := hperm.length_eq
    simp only [ListState.inUse, Option.elim, ListAllocator.dealloc, List.length_cons] at *
    omega

theorem accounted_step {request : FrameRequest} {reply : Option ℕ} {next : ListState}
    (h : Accounted regions s) (hstep : listMachine.Step s request reply next) :
    Accounted regions next := by
  obtain ⟨hallows, hserve⟩ := hstep
  obtain ⟨rfl, rfl⟩ := Prod.mk.inj hserve
  obtain ⟨allocator, ledger⟩ := s
  cases allocator with
  | none =>
    cases request with
    | deallocFrame addr =>
      -- With no usable frame there is nothing to return.
      have hempty := h.partition.length_eq
      have hcount : 0 = ledger.frames.length := h.inUse_eq
      have hframes : addr ∈ ledger.frames := List.mem_append_left _ hallows
      rw [List.length_eq_zero_iff.mp hcount.symm] at hframes
      exact nomatch hframes
    | _ => exact h
  | some list =>
    cases request with
    | allocFrame =>
      simp only [Option.bind_some, Option.map_some]
      rw [ListAllocator.alloc]
      split
      · rename_i node stack hstack
        exact h.pop hstack
      · refine h.take ?_
        rw [Ledger.frames_record_allocFrame]
    | deallocFrame addr => exact h.dealloc hallows
    | allocContiguous frames => exact h.take (Ledger.frames_record_allocContiguous _ _ _)
    | write addr byte => exact h

/-- A frame of the accounts is held or unused, and not both. -/
theorem Accounted.nodup (h : Accounted regions s) (hmap : FirmwareMap regions) :
    (s.ledger.frames ++ s.unused).Nodup :=
  h.partition.nodup_iff.mpr hmap.nodup

theorem Accounted.isFrame (h : Accounted regions s) (hmap : FirmwareMap regions) {frame : ℕ}
    (hframe : frame ∈ s.ledger.frames ++ s.unused) : IsFrame frame :=
  hmap.isFrame (h.partition.mem_iff.mp hframe)

/-- Nothing is unused exactly when every usable frame is held. -/
theorem Accounted.unused_eq_nil (h : Accounted regions s) (hmap : FirmwareMap regions) :
    s.unused = [] ↔ ∀ frame ∈ usableFrames regions, frame ∈ s.ledger.frames := by
  obtain ⟨_, _, hdisjoint⟩ := List.nodup_append.mp (h.nodup hmap)
  constructor
  · intro hnil frame hframe
    have hmem := h.partition.mem_iff.mpr hframe
    rwa [hnil, List.append_nil] at hmem
  · intro hall
    refine List.eq_nil_iff_forall_not_mem.mpr fun frame hframe ↦ ?_
    have husable := h.partition.mem_iff.mp (List.mem_append_right _ hframe)
    exact hdisjoint frame (hall frame husable) frame hframe rfl

end Accounted

end RustBL
