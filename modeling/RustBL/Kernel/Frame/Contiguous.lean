import RustBL.Kernel.Frame.Safety

/-!
# Contiguous requests

A contiguous request is served from the first run ahead of the cursor that has room, from its lowest
address that was not handed out. The runs before it are stepped over, and their frames go onto the
stack; the stack itself is never taken from. `bumpFrom_split` is the case analysis on the list
version: either every run ahead is too short, or the first one with room splits them.

`LeftOf` says that the runs ahead are what is left of the map in map order, so "the first run" is
the first in the map. A request that is refused loses nothing: every frame that nobody holds can
still be obtained one at a time (`FramesRelated.obtainable`, by induction on the number of frames
that nobody holds).
-/

set_option autoImplicit false
set_option relaxedAutoImplicit false

namespace RustBL

/-! ### The first run with room -/

namespace ListAllocator

variable {frames : ℕ}

/-- The cursor refuses a request when every run ahead is too short, and otherwise serves it from the
first run with room. -/
theorem bumpFrom_split (frames inUse : ℕ) (rest : List FrameRun) (current : FrameRun)
    (stack : List ℕ) :
    ((∀ run ∈ current :: rest, run.frames < frames) ∧
        (bumpFrom frames inUse rest current stack).1 = none) ∨
      ∃ before run after, current :: rest = before ++ run :: after ∧
        (∀ other ∈ before, other.frames < frames) ∧ frames ≤ run.frames ∧
        bumpFrom frames inUse rest current stack = (some run.start,
          ⟨after, run.skip frames, (before.flatMap FrameRun.list).reverse ++ stack, inUse⟩) := by
  induction rest generalizing current stack with
  | nil =>
    rw [bumpFrom]
    split_ifs with hle
    · exact Or.inr ⟨[], current, [], rfl, List.forall_mem_nil _, hle, rfl⟩
    · refine Or.inl ⟨fun run hrun ↦ ?_, rfl⟩
      obtain rfl := List.mem_singleton.mp hrun
      exact not_le.mp hle
  | cons run rest ih =>
    rw [bumpFrom]
    split_ifs with hle
    · exact Or.inr ⟨[], current, run :: rest, rfl, List.forall_mem_nil _, hle, rfl⟩
    · rcases ih run (current.list.reverse ++ stack) with
        ⟨hshort, hnone⟩ | ⟨before, found, after, hsplit, hshort, hroom, heq⟩
      · exact Or.inl ⟨List.forall_mem_cons.mpr ⟨not_le.mp hle, hshort⟩, hnone⟩
      · refine Or.inr ⟨current :: before, found, after, by rw [hsplit, List.cons_append],
          List.forall_mem_cons.mpr ⟨not_le.mp hle, hshort⟩, hroom, ?_⟩
        rw [heq, List.flatMap_cons, List.reverse_append, List.append_assoc]

/-- After a refused request the cursor stands at the end of the last run. -/
theorem bumpFrom_none {inUse : ℕ} {rest : List FrameRun} {current : FrameRun} {stack : List ℕ}
    (hnone : (bumpFrom frames inUse rest current stack).1 = none) :
    ∃ passed last, current :: rest = passed ++ [last] ∧
      (bumpFrom frames inUse rest current stack).2.rest = [] ∧
      (bumpFrom frames inUse rest current stack).2.current = last.skip last.frames := by
  induction rest generalizing current stack with
  | nil =>
    rw [bumpFrom] at hnone ⊢
    split_ifs at hnone ⊢
    exact ⟨[], current, rfl, rfl, rfl⟩
  | cons run rest ih =>
    rw [bumpFrom] at hnone ⊢
    split_ifs at hnone ⊢
    obtain ⟨passed, last, hsplit, hrest, hcurrent⟩ := ih hnone
    exact ⟨current :: passed, last, by rw [hsplit, List.cons_append], hrest, hcurrent⟩

end ListAllocator

/-! ### The runs ahead are what is left of the map -/

/-- These runs are what is left of a map: the rest of one run, and the runs behind it in map order.
-/
def LeftOf (regions : List MemoryRegion) : List FrameRun → Prop
  | [] => runs regions = []
  | current :: later => ∃ passed whole used, runs regions = passed ++ whole :: later ∧
      used ≤ whole.frames ∧ current = whole.skip used

section LeftOf

variable {regions : List MemoryRegion}

theorem FrameRun.skip_skip (run : FrameRun) (front frames : ℕ) :
    (run.skip front).skip frames = run.skip (front + frames) := by
  simp only [FrameRun.skip, Nat.add_mul, FrameRun.mk.injEq]
  omega

/-- What is left behind some runs is left of the map, with some frames of its first run used. -/
theorem LeftOf.drop {before later : List FrameRun} {run : FrameRun} {frames : ℕ}
    (h : LeftOf regions (before ++ run :: later)) (hle : frames ≤ run.frames) :
    LeftOf regions (run.skip frames :: later) := by
  cases before with
  | nil =>
    obtain ⟨passed, whole, used, hruns, hused, rfl⟩ := h
    have hfit : frames ≤ whole.frames - used := hle
    exact ⟨passed, whole, used + frames, hruns, by omega, whole.skip_skip used frames⟩
  | cons current before =>
    obtain ⟨passed, whole, _, hruns, _, _⟩ : ∃ passed whole used,
      runs regions = passed ++ whole :: (before ++ run :: later) ∧ used ≤ whole.frames ∧
        current = whole.skip used := h
    refine ⟨passed ++ whole :: before, run, frames, ?_, hle, rfl⟩
    rw [hruns, List.append_assoc, List.cons_append]

theorem LeftOf.bump {list : ListAllocator} (h : LeftOf regions (list.current :: list.rest))
    (frames : ℕ) : LeftOf regions ((list.bump frames).2.current :: (list.bump frames).2.rest) := by
  rw [ListAllocator.bump]
  split_ifs
  swap
  · exact h
  rcases ListAllocator.bumpFrom_split frames list.inUse list.rest list.current list.stack with
    ⟨_, hnone⟩ | ⟨before, run, after, hsplit, _, hroom, heq⟩
  · obtain ⟨passed, last, hsplit, hrest, hcurrent⟩ := ListAllocator.bumpFrom_none hnone
    rw [hrest, hcurrent]
    rw [hsplit] at h
    exact h.drop le_rfl
  · rw [heq]
    rw [hsplit] at h
    exact h.drop hroom

theorem leftOf_init (regions : List MemoryRegion) :
    LeftOf regions (ListState.init regions).runs := by
  rw [ListState.init]
  split
  · rename_i hruns
    exact hruns
  · rename_i run rest hruns
    have hskip : run = run.skip 0 := by
      rw [FrameRun.skip, Nat.zero_mul, Nat.add_zero, Nat.sub_zero]
    exact ⟨[], run, 0, hruns, Nat.zero_le _, hskip⟩

theorem leftOf_step {s next : ListState} {request : FrameRequest} {reply : Option ℕ}
    (h : LeftOf regions s.runs) (hstep : listMachine.Step s request reply next) :
    LeftOf regions next.runs := by
  obtain ⟨_, hserve⟩ := hstep
  obtain ⟨rfl, rfl⟩ := Prod.mk.inj hserve
  obtain ⟨allocator, ledger⟩ := s
  cases allocator with
  | none => cases request <;> exact h
  | some list =>
    have hahead : LeftOf regions (list.current :: list.rest) := h
    cases request with
    | allocFrame =>
      simp only [ListState.runs, Option.map_some, Option.elim]
      rw [ListAllocator.alloc]
      split
      · exact hahead
      · exact hahead.bump 1
    | deallocFrame addr => exact h
    | allocContiguous frames => exact hahead.bump frames
    | write addr byte => exact h

/-- A run of the list version leaves runs of the map ahead, in map order. -/
theorem leftOf_run {trace : List (FrameRequest × Option ℕ)} {s : ListState}
    (hrun : listMachine.Run (ListState.init regions) trace s) : LeftOf regions s.runs :=
  hrun.invariant (fun s ↦ LeftOf regions s.runs) (fun _ _ _ _ h hstep ↦ leftOf_step h hstep)
    (leftOf_init regions)

end LeftOf

/-! ### Frames that can still be obtained -/

/-- The runs ahead of the cursor. -/
def FrameState.pending (s : FrameState) : List FrameRun :=
  s.allocator.elim [] FrameAllocator.pending

/-- Some sequence of `alloc_frame` calls hands out the frame. -/
def Obtainable (s : FrameState) (frame : ℕ) : Prop :=
  ∃ trace next, frameMachine.Run s trace next ∧ (∀ entry ∈ trace, entry.1 = .allocFrame) ∧
    (.allocFrame, some frame) ∈ trace

section Obtain

variable {regions : List MemoryRegion} {s : FrameState} {t : ListState}

theorem FramesRelated.pending_eq (h : FramesRelated regions s t) : s.pending = t.runs := by
  rcases h.split with ⟨hs, ht⟩ | ⟨allocator, list, hs, ht, hrep⟩
  · rw [FrameState.pending, ListState.runs, hs, ht]
    rfl
  · rw [FrameState.pending, ListState.runs, hs, ht]
    exact hrep.standsAt.pending_eq

theorem ListState.ledger_serve (t : ListState) (request : FrameRequest) :
    (t.serve request).2.ledger = t.ledger.record request (t.serve request).1 :=
  rfl

/-- A frame nobody holds can be obtained, by induction on the number of such frames. -/
theorem FramesRelated.obtainable (h : FramesRelated regions s t) (hmap : FirmwareMap regions)
    {frame : ℕ} (hframe : frame ∈ t.unused) : Obtainable s frame := by
  induction hcount : t.unused.length generalizing s t with
  | zero =>
    rw [List.length_eq_zero_iff.mp hcount] at hframe
    exact nomatch hframe
  | succ count ih =>
    have hallows : s.ledger.Allows .allocFrame := trivial
    obtain ⟨bound, next, hserve, hnext, _⟩ := serve_refines h hmap hallows
    have hstep : frameMachine.Step s .allocFrame (t.serve .allocFrame).1 next :=
      ⟨trivial, bound, hserve bound le_rfl⟩
    cases hreply : (t.serve .allocFrame).1 with
    | none =>
      rw [t.allocFrame_eq_none.mp hreply] at hframe
      exact nomatch hframe
    | some found =>
      rw [hreply] at hstep
      by_cases hfound : found = frame
      · subst hfound
        exact ⟨_, next, .snoc .nil hstep, by simp, by simp⟩
      have hledger : (t.serve .allocFrame).2.ledger.frames = found :: t.ledger.frames := by
        rw [t.ledger_serve, Ledger.frames_record_allocFrame, hreply]
        rfl
      -- The frame that was handed out moves from the unused frames to the ledger.
      have hbefore := h.accounted.partition
      have hafter := hnext.accounted.partition
      have hlength := hafter.length_eq.trans hbefore.length_eq.symm
      rw [hledger] at hafter hlength
      obtain ⟨_, _, hdisjoint⟩ := List.nodup_append.mp (h.accounted.nodup hmap)
      have hstill : frame ∈ (t.serve .allocFrame).2.unused := by
        have hmem := hafter.mem_iff.mpr (hbefore.mem_iff.mp (List.mem_append_right _ hframe))
        rcases List.mem_append.mp hmem with hheld | hunused
        · rcases List.mem_cons.mp hheld with rfl | hold
          · exact absurd rfl hfound
          · exact absurd rfl (hdisjoint frame hold frame hframe)
        · exact hunused
      simp only [List.cons_append, List.length_cons, List.length_append] at hlength
      obtain ⟨trace, last, hrun, hall, hmem⟩ := ih hnext hstill (by omega)
      exact ⟨_, last, .cons hstep hrun, List.forall_mem_cons.mpr ⟨rfl, hall⟩,
        List.mem_cons_of_mem _ hmem⟩

end Obtain

/-! ### Contiguous requests end to end -/

/-- What a contiguous request does that is served at `addr`: the runs ahead split at the first one
with room. -/
structure ContiguousGrant (s next : FrameState) (frames addr : ℕ) (before : List FrameRun)
    (run : FrameRun) (after : List FrameRun) (stack stack' : List ℕ) : Prop where
  pending_eq : s.pending = before ++ run :: after
  short : ∀ other ∈ before, other.frames < frames
  room : frames ≤ run.frames
  addr_eq : addr = run.start
  inside : framesFrom addr frames ⊆ run.list
  stack_before : s.Stack stack
  stack_after : next.Stack stack'
  fresh : ∀ frame ∈ framesFrom addr frames, frame ∉ s.ledger.frames ∧ frame ∉ stack
  stranded : ∀ other ∈ before, other.list ⊆ stack'
  kept : stack ⊆ stack'
  inUse_eq : Frames.framesInUse next.allocator = Frames.framesInUse s.allocator + frames

section Contiguous

variable {regions : List MemoryRegion} {s next : FrameState} {t : ListState} {frames : ℕ}
  {reply : Option ℕ}

/-- A run below `2 ^ 52` has fewer frames than any length in frames that is no word in bytes. -/
theorem Accounted.frames_lt (h : Accounted regions t) (hlarge : ¬ frames * PAGE_SIZE < 2 ^ 64)
    {run : FrameRun} (hrun : run ∈ t.runs) : run.frames < frames := by
  have hstop := h.stop_le run hrun
  simp only [FrameRun.stop, PAGE_SIZE] at hstop hlarge
  omega

/-- `take` on a request that some run ahead has room for. -/
theorem ListAllocator.take_eq_some {list : ListAllocator} (hfits : frames * PAGE_SIZE < 2 ^ 64)
    {addr : ℕ} {after : ListAllocator}
    (hbump : bumpFrom frames list.inUse list.rest list.current list.stack = (some addr, after)) :
    list.take frames = (some addr, { after with inUse := list.inUse + frames }) := by
  have hinUse := bumpFrom_inUse frames list.inUse list.rest list.current list.stack
  rw [hbump] at hinUse
  have hsame : after.inUse = list.inUse := hinUse
  simp only [take, bump, if_pos hfits, hbump, granted, length_framesFrom, hsame]

theorem ListAllocator.list_subset_ahead {list : ListAllocator} {run : FrameRun}
    (hrun : run ∈ list.current :: list.rest) : run.list ⊆ list.ahead :=
  fun _ hframe ↦ List.mem_flatMap.mpr ⟨run, hrun, hframe⟩

/-- The frames of the runs ahead are neither held nor on the stack. -/
theorem Accounted.fresh_of_ahead {list : ListAllocator} {ledger : Ledger}
    (h : Accounted regions ⟨some list, ledger⟩) (hmap : FirmwareMap regions) {frame : ℕ}
    (hframe : frame ∈ list.ahead) : frame ∉ ledger.frames ∧ frame ∉ list.stack := by
  obtain ⟨_, hunused, hdisjoint⟩ := List.nodup_append.mp (h.nodup hmap)
  obtain ⟨_, _, hapart⟩ := List.nodup_append.mp hunused
  exact ⟨fun hheld ↦ hdisjoint frame hheld frame (List.mem_append_right _ hframe) rfl,
    fun hfree ↦ hapart frame hfree frame hframe rfl⟩

/-- A contiguous request on a related state is refused when every run ahead is too short, and
otherwise served from the first run with room. -/
theorem FramesRelated.contiguous (h : FramesRelated regions s t) (hmap : FirmwareMap regions)
    (hstep : frameMachine.Step s (.allocContiguous frames) reply next) :
    ((∀ run ∈ s.pending, run.frames < frames) ∧ reply = none) ∨
      ∃ addr before run after stack stack', reply = some addr ∧
        ContiguousGrant s next frames addr before run after stack stack' := by
  obtain ⟨rfl, hnext, _⟩ := frameMachine_simulates h hmap hstep
  have hpending := h.pending_eq
  obtain ⟨allocator, ledger⟩ := t
  cases allocator with
  | none =>
    refine Or.inl ⟨?_, rfl⟩
    rw [hpending]
    exact List.forall_mem_nil _
  | some list =>
  have hruns : s.pending = list.current :: list.rest := hpending
  have hreply : ((⟨some list, ledger⟩ : ListState).serve (.allocContiguous frames)).1 =
      (list.take frames).1 := rfl
  by_cases hfits : frames * PAGE_SIZE < 2 ^ 64
  swap
  · refine Or.inl ⟨fun run hrun ↦ h.accounted.frames_lt hfits (hpending ▸ hrun), ?_⟩
    rw [hreply, ListAllocator.take, ListAllocator.bump, if_neg hfits]
  rcases ListAllocator.bumpFrom_split frames list.inUse list.rest list.current list.stack with
    ⟨hshort, hnone⟩ | ⟨before, run, after, hsplit, hshort, hroom, heq⟩
  · refine Or.inl ⟨by rwa [hruns], ?_⟩
    rw [hreply, ListAllocator.take, ListAllocator.bump, if_pos hfits]
    exact hnone
  have htake := ListAllocator.take_eq_some hfits heq
  rw [htake] at hreply
  have hstack' := hnext.stack
  have hafter : ListState.stack
      ((⟨some list, ledger⟩ : ListState).serve (.allocContiguous frames)).2 =
        (before.flatMap FrameRun.list).reverse ++ list.stack := by
    rw [ListState.serve, ListState.stack]
    simp only [ListState.answer, Option.map_some, Option.elim, htake]
  rw [hafter] at hstack'
  have hinside : framesFrom run.start frames ⊆ run.list := by
    rw [← FrameRun.list_skip hroom]
    exact List.subset_append_left _ _
  have hrun : run ∈ list.current :: list.rest := by
    rw [hsplit]
    exact List.mem_append_right _ List.mem_cons_self
  refine Or.inr ⟨run.start, before, run, after, list.stack, _, hreply, hruns.trans hsplit, hshort,
    hroom, rfl, hinside, h.stack, hstack', fun frame hframe ↦ ?_,
    fun other hother frame hframe ↦ ?_, fun frame hframe ↦ List.mem_append_right _ hframe, ?_⟩
  · rw [h.ledger_eq]
    exact h.accounted.fresh_of_ahead hmap
      (ListAllocator.list_subset_ahead hrun (hinside hframe))
  · refine List.mem_append_left _ (List.mem_reverse.mpr ?_)
    exact List.mem_flatMap.mpr ⟨other, hother, hframe⟩
  · rw [h.framesInUse_eq, hnext.framesInUse_eq, hnext.ledger_eq, h.ledger_eq,
      ListState.ledger_serve, (Ledger.frames_record_allocContiguous _ _ _).length_eq, hreply,
      List.length_append, granted, length_framesFrom, Nat.add_comm]

/-- A refused contiguous request leaves the number of frames in use, and every frame that nobody
holds can still be obtained. -/
theorem FramesRelated.refused (h : FramesRelated regions s t) (hmap : FirmwareMap regions)
    (hstep : frameMachine.Step s (.allocContiguous frames) none next) :
    Frames.framesInUse next.allocator = Frames.framesInUse s.allocator ∧
      ∀ frame ∈ usableFrames regions, frame ∉ s.ledger.frames → Obtainable next frame := by
  obtain ⟨hreply, hnext, _⟩ := frameMachine_simulates h hmap hstep
  have hledger : (t.serve (.allocContiguous frames)).2.ledger = s.ledger := by
    rw [ListState.ledger_serve, ← hreply, h.ledger_eq]
    rfl
  refine ⟨?_, fun frame husable hfree ↦ hnext.obtainable hmap ?_⟩
  · rw [hnext.framesInUse_eq, h.framesInUse_eq, hnext.ledger_eq, hledger]
  · have hmem := hnext.accounted.partition.mem_iff.mpr husable
    rw [hledger] at hmem
    exact (List.mem_append.mp hmem).resolve_left hfree

/-- Contiguous requests end to end. In every reachable state the runs ahead are what is left of the
map, and every contiguous request is answered. It is served exactly when a run ahead has room, then
from the first such run; a refused one leaves the number of frames in use, and every frame that was
not held can still be obtained. -/
theorem alloc_contiguous_end_to_end (hmap : FirmwareMap regions) : ∃ allocator,
    (∀ fuel, (runs regions).length < fuel →
      Frames.init fuel regions = .ok ((usableFrames regions).length, allocator)) ∧
    ∀ m s, frameMachine.Reachable (FrameState.start allocator m) s →
      LeftOf regions s.pending ∧
      ∀ frames, (∃ reply next, frameMachine.Step s (.allocContiguous frames) reply next) ∧
        ∀ reply next, frameMachine.Step s (.allocContiguous frames) reply next →
          (reply ≠ none ↔ ∃ run ∈ s.pending, frames ≤ run.frames) ∧
          (∀ addr, reply = some addr → ∃ before run after stack stack',
            ContiguousGrant s next frames addr before run after stack stack') ∧
          (reply = none →
            Frames.framesInUse next.allocator = Frames.framesInUse s.allocator ∧
            ∀ frame ∈ usableFrames regions, frame ∉ s.ledger.frames → Obtainable next frame) := by
  obtain ⟨allocator, hinit, hstart⟩ := init_refines hmap
  refine ⟨allocator, hinit, fun m s hs ↦ ?_⟩
  obtain ⟨trace, hrun⟩ := hs
  obtain ⟨t, hlist, h⟩ := frame_run_related hmap (hstart m) hrun
  refine ⟨by rw [h.pending_eq]; exact leftOf_run hlist,
    fun frames ↦ ⟨?_, fun reply next hstep ↦ ?_⟩⟩
  · have hallows : s.ledger.Allows (.allocContiguous frames) := trivial
    obtain ⟨bound, next, hserve, _⟩ := serve_refines h hmap hallows
    exact ⟨_, next, trivial, bound, hserve bound le_rfl⟩
  rcases h.contiguous hmap hstep with
    ⟨hshort, rfl⟩ | ⟨addr, before, run, after, stack, stack', rfl, hgrant⟩
  · refine ⟨⟨fun hne ↦ absurd rfl hne, ?_⟩, fun addr heq ↦ (nomatch heq),
      fun _ ↦ h.refused hmap hstep⟩
    rintro ⟨run, hrun, hroom⟩
    exact absurd hroom (not_le.mpr (hshort run hrun))
  · refine ⟨⟨fun _ ↦ ⟨run, ?_, hgrant.room⟩, fun _ ↦ Option.some_ne_none addr⟩, ?_,
      fun heq ↦ nomatch heq⟩
    · rw [hgrant.pending_eq]
      exact List.mem_append_right _ List.mem_cons_self
    · intro addr' heq
      obtain rfl := Option.some.inj heq
      exact ⟨before, run, after, stack, stack', hgrant⟩

theorem alloc_contiguous_end_to_end_twoFrameMap : ∃ allocator,
    Frames.init 2 twoFrameMap = .ok (2, allocator) ∧ ∃ reply next,
      frameMachine.Step (FrameState.start allocator fun _ ↦ 0) (.allocContiguous 2) reply next ∧
      (reply ≠ none ↔
        ∃ run ∈ (FrameState.start allocator fun _ ↦ 0).pending, 2 ≤ run.frames) := by
  obtain ⟨allocator, hinit, hruns⟩ := alloc_contiguous_end_to_end firmwareMap_twoFrameMap
  obtain ⟨_, hrequests⟩ := hruns (fun _ ↦ 0) _ (Machine.Reachable.start _ _)
  obtain ⟨⟨reply, next, hstep⟩, hall⟩ := hrequests 2
  exact ⟨allocator, hinit 2 (by decide), reply, next, hstep, (hall reply next hstep).1⟩

end Contiguous

end RustBL
