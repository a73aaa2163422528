import RustBL.Kernel.Frame.Cursor
import Mathlib.Data.List.Flatten

/-!
# The frame allocator refines its list version

`FreeStack` reads the stack of free frames out of memory, one node in each free frame. `Represents`
relates an allocator and a memory to the list version: the iterator has the remaining runs, the
cursor and the end of the current run are those of the list, and the stack in memory is its stack.

`bump_refines` is the operation with the two nested loops: the cursor moves as `loop_bumpTurn` says,
and the frames it pushes are distinct whole frames, so they end up on the stack (`pushAll_spec`).
Each result gives the outcome, the memory it may have written, and a bound on the turns, so that
termination is part of the refinement. A write goes to the first eight bytes of a frame that is
being pushed and nowhere else.
-/

set_option autoImplicit false
set_option relaxedAutoImplicit false

namespace RustBL

/-! ### The stack in memory -/

/-- The stack with top `top` holds exactly these frames, last pushed first. -/
def FreeStack (m : Mem) : Option ℕ → List ℕ → Prop
  | top, [] => top = none
  | top, frame :: rest => top = some frame ∧ FreeStack m (FreeFrame.read m frame) rest

/-- The bytes of the nodes in these frames. -/
def nodeBytes (frames : List ℕ) : Set ℕ :=
  {addr | ∃ frame ∈ frames, addr ∈ Set.Ico frame (frame + 8)}

section Stack

variable {m m' : Mem} {top : Option ℕ} {stack : List ℕ} {frame : ℕ}

theorem nonNull_of_isFrame (h : IsFrame frame) : nonNull frame = some frame := by
  have hpage : 0 < PAGE_SIZE := by decide
  have hle := h.page_le
  exact if_neg (by omega)

/-- A stack is determined by its top. -/
theorem FreeStack.unique {left right : List ℕ} (hleft : FreeStack m top left)
    (hright : FreeStack m top right) : left = right := by
  induction left generalizing top right with
  | nil =>
    obtain rfl : top = none := hleft
    cases right with
    | nil => rfl
    | cons frame right => exact absurd hright.1 (by simp)
  | cons frame left ih =>
    obtain ⟨rfl, hleft⟩ := hleft
    cases right with
    | nil => exact absurd hright (by simp [FreeStack])
    | cons frame' right =>
      obtain ⟨heq, hright⟩ := hright
      obtain rfl := Option.some.inj heq
      rw [ih hleft hright]

/-- A stack survives a change of memory that leaves its nodes alone. -/
theorem FreeStack.congr (h : FreeStack m top stack)
    (hagree : ∀ frame ∈ stack, Mem.AgreeOn m m' frame 8) : FreeStack m' top stack := by
  induction stack generalizing top with
  | nil => exact h
  | cons frame stack ih =>
    obtain ⟨htop, hrest⟩ := h
    have hread : FreeFrame.read m' frame = FreeFrame.read m frame := by
      rw [FreeFrame.read, FreeFrame.read, Mem.load_congr (hagree frame List.mem_cons_self)]
    refine ⟨htop, ?_⟩
    rw [hread]
    exact ih hrest fun other hother ↦ hagree other (List.mem_cons_of_mem _ hother)

theorem FreeStack.of_sameOff {S : Set ℕ} (h : FreeStack m top stack)
    (hsame : Mem.SameOff S m m') (hdisjoint : ∀ frame ∈ stack, Disjoint (frameBytes frame) S) :
    FreeStack m' top stack := by
  have hpage : 8 ≤ PAGE_SIZE := by decide
  refine h.congr fun frame hframe ↦ hsame.agreeOn ?_
  refine Set.disjoint_of_subset_left ?_ (hdisjoint frame hframe)
  exact Set.Ico_subset_Ico_right (by omega)

/-- The top of a stack of frames is stored and read back unchanged. -/
theorem FreeStack.top_eq (h : FreeStack m top stack) (hframes : ∀ frame ∈ stack, IsFrame frame) :
    nonNull (top.getD 0) = top ∧ top.getD 0 < 256 ^ 8 := by
  cases stack with
  | nil =>
    obtain rfl : top = none := h
    exact ⟨rfl, by decide⟩
  | cons frame stack =>
    obtain ⟨rfl, _⟩ := h
    have hframe := hframes frame List.mem_cons_self
    have hbelow := hframe.below
    refine ⟨nonNull_of_isFrame hframe, ?_⟩
    simp only [Option.getD_some]
    omega

/-- The node bytes of a frame lie in the frame. -/
theorem nodeBytes_disjoint {frames : List ℕ} (hframe : IsFrame frame)
    (hframes : ∀ other ∈ frames, IsFrame other) (hout : frame ∉ frames) :
    Disjoint (frameBytes frame) (nodeBytes frames) := by
  rw [Set.disjoint_left]
  rintro addr haddr ⟨other, hother, hlow, hhigh⟩
  have hne : frame ≠ other := fun heq ↦ hout (heq ▸ hother)
  have hpage : 8 ≤ PAGE_SIZE := by decide
  exact Set.disjoint_left.mp
    (disjoint_frameBytes hframe.page_dvd (hframes other hother).page_dvd hne) haddr
    ⟨hlow, by omega⟩

end Stack

namespace FrameAllocator

/-! ### Pushing frames -/

section Push

variable {allocator : FrameAllocator} {m : Mem} {stack : List ℕ}

/-- A pushed frame is the new top of the stack, and only its node is written. -/
theorem pushFree_spec {frame : ℕ} (h : FreeStack m allocator.free stack)
    (hframe : IsFrame frame) (hframes : ∀ other ∈ stack, IsFrame other) (hout : frame ∉ stack) :
    FreeStack (allocator.pushFree m frame).2 (allocator.pushFree m frame).1.free (frame :: stack) ∧
      Mem.SameOff (nodeBytes [frame]) m (allocator.pushFree m frame).2 := by
  obtain ⟨hstored, hfits⟩ := h.top_eq hframes
  have hsame : Mem.SameOff (nodeBytes [frame]) m (allocator.pushFree m frame).2 := by
    refine (Mem.sameOff_store m frame 8 _).mono fun addr haddr ↦ ?_
    exact ⟨frame, List.mem_cons_self, haddr⟩
  refine ⟨⟨nonNull_of_isFrame hframe, ?_⟩, hsame⟩
  have hread : FreeFrame.read (allocator.pushFree m frame).2 frame = allocator.free := by
    rw [FreeFrame.read, pushFree, FreeFrame.write, Mem.load_store_of_lt hfits, hstored]
  rw [hread]
  refine h.of_sameOff hsame fun other hother ↦ ?_
  refine nodeBytes_disjoint (hframes other hother) (by simpa using hframe) fun hin ↦ ?_
  exact hout (List.mem_singleton.mp hin ▸ hother)

/-- Pushing distinct frames that are not on the stack puts them on top, last pushed first. -/
theorem pushAll_spec (allocator : FrameAllocator) {frames : List ℕ}
    (h : FreeStack m allocator.free stack)
    (hframes : ∀ frame ∈ frames ++ stack, IsFrame frame) (hnodup : (frames ++ stack).Nodup) :
    FreeStack (allocator.pushAll m frames).2 (allocator.pushAll m frames).1.free
        (frames.reverse ++ stack) ∧
      Mem.SameOff (nodeBytes frames) m (allocator.pushAll m frames).2 := by
  induction frames generalizing allocator m stack with
  | nil => exact ⟨h, Mem.SameOff.refl _ _⟩
  | cons frame frames ih =>
    rw [List.cons_append, List.nodup_cons] at hnodup
    rw [List.cons_append, List.forall_mem_cons] at hframes
    obtain ⟨hpushed, hsame⟩ := pushFree_spec h hframes.1
      (fun other hother ↦ hframes.2 other (List.mem_append_right _ hother))
      fun hin ↦ hnodup.1 (List.mem_append_right _ hin)
    have hperm : (frames ++ frame :: stack).Perm (frame :: (frames ++ stack)) := List.perm_middle
    obtain ⟨hstack, hsame'⟩ := ih _ hpushed
      (fun other hother ↦ by
        rcases List.mem_cons.mp (hperm.mem_iff.mp hother) with rfl | hin
        · exact hframes.1
        · exact hframes.2 other hin)
      (hperm.nodup_iff.mpr (List.nodup_cons.mpr hnodup))
    refine ⟨?_, ?_⟩
    · rw [List.reverse_cons, List.append_assoc]
      exact hstack
    · refine (hsame.mono ?_).trans (hsame'.mono ?_)
      · rintro addr ⟨other, hother, haddr⟩
        exact ⟨other, List.mem_cons.mpr (Or.inl (List.mem_singleton.mp hother)), haddr⟩
      · rintro addr ⟨other, hother, haddr⟩
        exact ⟨other, List.mem_cons_of_mem _ hother, haddr⟩

end Push

/-! ### The cursor -/

/-- An allocator and a memory that stand for a list allocator. -/
structure Represents (m : Mem) (allocator : FrameAllocator) (list : ListAllocator) : Prop where
  rest_eq : allocator.runs.rest = list.rest
  cursor_eq : allocator.cursor = list.current.start
  runEnd_eq : allocator.runEnd = list.current.stop
  stack : FreeStack m allocator.free list.stack
  inUse_eq : allocator.inUse = list.inUse

/-- The unused frames of a list allocator are distinct whole frames, and its runs end below
`2 ^ 52`. -/
structure Ready (list : ListAllocator) : Prop where
  nodup : list.unused.Nodup
  isFrame : ∀ frame ∈ list.unused, IsFrame frame
  stop_le : ∀ run ∈ list.current :: list.rest, run.stop ≤ 2 ^ 52

/-- A bound on the turns of every loop of `bump`. -/
def turns (list : ListAllocator) : ℕ :=
  list.current.frames + (list.rest.map FrameRun.frames).sum + list.rest.length

section Bump

variable {allocator : FrameAllocator} {m : Mem} {fuel frames : ℕ}

theorem Represents.standsAt {list : ListAllocator} (h : Represents m allocator list) :
    StandsAt allocator list.current list.rest :=
  ⟨h.rest_eq, h.cursor_eq, h.runEnd_eq⟩

/-- The frames of runs ahead of the cursor, with the stack, are distinct whole frames. -/
theorem Ready.stepped_frames {list : ListAllocator} (hready : Ready list) (frames : ℕ) :
    ((stepped frames (list.current :: list.rest)).flatMap FrameRun.list ++ list.stack).Nodup ∧
      ∀ frame ∈ (stepped frames (list.current :: list.rest)).flatMap FrameRun.list ++ list.stack,
        IsFrame frame := by
  have hahead : list.ahead = (list.current :: list.rest).flatMap FrameRun.list := rfl
  have hsublist : ((stepped frames (list.current :: list.rest)).flatMap FrameRun.list).Sublist
      list.ahead := by
    rw [hahead]
    exact (List.takeWhile_sublist _).flatMap _
  have hperm : (list.ahead ++ list.stack).Perm list.unused := List.perm_append_comm
  have hall := hsublist.append (List.Sublist.refl list.stack)
  exact ⟨hall.nodup (hperm.nodup_iff.mpr hready.nodup),
    fun frame hframe ↦ hready.isFrame frame (hperm.mem_iff.mp (hall.subset hframe))⟩

/-- `bump` on a representing allocator: the outcome is the outcome of the list version, and only the
nodes of the frames it pushes are written. -/
theorem bump_refines {list : ListAllocator} (h : Represents m allocator list)
    (hready : Ready list) (hfuel : turns list < fuel) (frames : ℕ) :
    ∃ allocator' m' pushed, allocator.bump fuel m frames =
        .ok ((list.bump frames).1, allocator', m') ∧
      Represents m' allocator' (list.bump frames).2 ∧
      (list.bump frames).2.stack = pushed ++ list.stack ∧
      Mem.SameOff (nodeBytes pushed) m m' := by
  simp only [turns] at hfuel
  have hmul : Word.checkedMul frames PAGE_SIZE =
      if frames * PAGE_SIZE < 2 ^ 64 then some (frames * PAGE_SIZE) else none := rfl
  rw [bump, hmul, ListAllocator.bump]
  split_ifs with hfits
  swap
  · exact ⟨allocator, m, [], rfl, h, rfl, Mem.SameOff.refl _ _⟩
  have hbelow : ∀ run ∈ list.current :: list.rest, run.stop + PAGE_SIZE < 2 ^ 64 := by
    intro run hrun
    have hstop := hready.stop_le run hrun
    simp only [PAGE_SIZE]
    omega
  have hframes : list.current.frames + (list.rest.map FrameRun.frames).sum < fuel := by omega
  have hlength : list.rest.length < fuel := by omega
  obtain ⟨allocator', m', hloop, hbumps⟩ := loop_bumpTurn (m := m) list.inUse list.stack h.standsAt
    (fun run hrun ↦ lt_of_le_of_lt (Nat.le_add_right _ _) (hbelow run hrun))
    (fun run hrun ↦ hbelow run (stepped_subset hrun)) hframes hlength
  obtain ⟨hnodup, hwhole⟩ := hready.stepped_frames frames
  obtain ⟨hstack, hsame⟩ := pushAll_spec allocator h.stack hwhole hnodup
  have hlist := ListAllocator.bumpFrom_stack frames list.inUse list.rest list.current list.stack
  have hinUse := ListAllocator.bumpFrom_inUse frames list.inUse list.rest list.current list.stack
  refine ⟨allocator', m', _, hloop, ⟨hbumps.standsAt.rest_eq, hbumps.standsAt.cursor_eq,
    hbumps.standsAt.runEnd_eq, ?_, ?_⟩, hlist, ?_⟩
  · rw [hlist, hbumps.free_eq, hbumps.mem_eq]
    exact hstack
  · rw [hinUse, hbumps.inUse_eq]
    exact h.inUse_eq
  · rw [hbumps.mem_eq]
    refine hsame.mono ?_
    rintro addr ⟨frame, hframe, haddr⟩
    exact ⟨frame, List.mem_reverse.mpr hframe, haddr⟩

end Bump

/-! ### Allocation -/

section Alloc

variable {allocator : FrameAllocator} {m : Mem} {fuel : ℕ}

theorem allocContiguous_of_bump_none {bumped : FrameAllocator} {m' : Mem} {frames : ℕ}
    (hbump : allocator.bump fuel m frames = .ok (none, bumped, m')) :
    Frames.allocContiguous fuel (some allocator) m frames = .ok (none, some bumped, m') := by
  rw [Frames.allocContiguous]
  simp only
  rw [hbump, ok_bind]
  rfl

/-- The frames that the cursor grants are counted afterwards. -/
theorem allocContiguous_of_bump_some {bumped : FrameAllocator} {m' : Mem} {frames addr : ℕ}
    (hbump : allocator.bump fuel m frames = .ok (some addr, bumped, m')) :
    Frames.allocContiguous fuel (some allocator) m frames = do
      let inUse ← Word.add bumped.inUse frames
      return (some addr, some { bumped with inUse }, m') := by
  rw [Frames.allocContiguous]
  simp only
  rw [hbump, ok_bind]

theorem allocContiguous_of_bump_error {frames : ℕ} {fault : Fault}
    (hbump : allocator.bump fuel m frames = .error fault) :
    Frames.allocContiguous fuel (some allocator) m frames = .error fault := by
  rw [Frames.allocContiguous]
  simp only
  rw [hbump, error_bind]

/-- Taking frames from the cursor and counting them, as `alloc_contiguous` does. -/
theorem take_refines {list : ListAllocator} (h : Represents m allocator list)
    (hready : Ready list) (hfuel : turns list < fuel) {frames : ℕ}
    (hfits : (list.take frames).2.inUse < 2 ^ 64) :
    ∃ allocator' m' pushed, Frames.allocContiguous fuel (some allocator) m frames =
        .ok ((list.take frames).1, some allocator', m') ∧
      Represents m' allocator' (list.take frames).2 ∧
      (list.take frames).2.stack = pushed ++ list.stack ∧ Mem.SameOff (nodeBytes pushed) m m' := by
  obtain ⟨bumped, m', pushed, hbump, hrep, hstack, hsame⟩ := bump_refines h hready hfuel frames
  have hinUse := hrep.inUse_eq
  simp only [ListAllocator.take] at hfits ⊢
  cases hreply : (list.bump frames).1 with
  | none =>
    rw [hreply] at hbump
    exact ⟨bumped, m', pushed, allocContiguous_of_bump_none hbump, hrep, hstack, hsame⟩
  | some addr =>
    rw [hreply, granted, length_framesFrom] at hfits
    rw [hreply] at hbump
    refine ⟨{ bumped with inUse := bumped.inUse + frames }, m', pushed, ?_, ?_, hstack, hsame⟩
    · rw [allocContiguous_of_bump_some hbump, Word.add_eq (by omega), ok_bind]
      rfl
    · refine ⟨hrep.rest_eq, hrep.cursor_eq, hrep.runEnd_eq, hrep.stack, ?_⟩
      rw [granted, length_framesFrom]
      exact congrArg (· + frames) hinUse

/-- An allocation from the cursor is a contiguous allocation of one frame. -/
theorem alloc_of_free_none (hfree : allocator.free = none) :
    Frames.allocFrame fuel (some allocator) m =
      Frames.allocContiguous fuel (some allocator) m 1 := by
  rw [Frames.allocFrame, Frames.allocContiguous, alloc, hfree]
  simp only
  cases allocator.bump fuel m 1 with
  | error fault => rfl
  | ok outcome =>
    obtain ⟨reply, bumped, m'⟩ := outcome
    cases reply with
    | none => rfl
    | some addr =>
      simp only [ok_bind]
      cases Word.add bumped.inUse 1 <;> rfl

/-- `alloc_frame` pops the stack, and takes one frame from the cursor when it is empty. -/
theorem alloc_refines {list : ListAllocator} (h : Represents m allocator list)
    (hready : Ready list) (hfuel : turns list < fuel) (hfits : list.alloc.2.inUse < 2 ^ 64) :
    ∃ allocator' m' pushed, Frames.allocFrame fuel (some allocator) m =
        .ok (list.alloc.1, some allocator', m') ∧
      Represents m' allocator' list.alloc.2 ∧
      (pushed = [] ∨ list.alloc.2.stack = pushed ++ list.stack) ∧
      Mem.SameOff (nodeBytes pushed) m m' := by
  have hstack := h.stack
  cases hlist : list.stack with
  | nil =>
    have halloc : list.alloc = list.take 1 := by rw [ListAllocator.alloc, hlist]
    have hfree : allocator.free = none := by
      rw [hlist] at hstack
      exact hstack
    rw [halloc] at hfits ⊢
    obtain ⟨allocator', m', pushed, hran, hrep, hpushed, hsame⟩ :=
      take_refines h hready hfuel hfits
    rw [hlist] at hpushed
    exact ⟨allocator', m', pushed, (alloc_of_free_none hfree).trans hran, hrep, Or.inr hpushed,
      hsame⟩
  | cons node stack =>
    have halloc : list.alloc = (some node, { list with stack, inUse := list.inUse + 1 }) := by
      rw [ListAllocator.alloc, hlist]
    rw [hlist] at hstack
    obtain ⟨hfree, hrest⟩ : allocator.free = some node ∧
      FreeStack m (FreeFrame.read m node) stack := hstack
    have hinUse := h.inUse_eq
    rw [halloc] at hfits ⊢
    simp only at hfits
    refine ⟨{ allocator with free := FreeFrame.read m node, inUse := allocator.inUse + 1 }, m, [],
      ?_, ?_, Or.inl rfl, Mem.SameOff.refl _ _⟩
    · rw [Frames.allocFrame]
      simp only
      rw [alloc, hfree]
      simp only
      rw [Word.add_eq (by omega), ok_bind]
      rfl
    · refine ⟨h.rest_eq, h.cursor_eq, h.runEnd_eq, ?_, ?_⟩
      · simp only
        exact hrest
      · simp only
        rw [hinUse]

/-- A returned frame is pushed. -/
theorem dealloc_refines {list : ListAllocator} {addr : ℕ} (h : Represents m allocator list)
    (hready : Ready list) (hframe : IsFrame addr) (hout : addr ∉ list.stack) :
    ∃ allocator' m', Frames.deallocFrame (some allocator) m addr = (some allocator', m') ∧
      Represents m' allocator' (list.dealloc addr) ∧ Mem.SameOff (nodeBytes [addr]) m m' := by
  have hframes : ∀ other ∈ list.stack, IsFrame other :=
    fun other hother ↦ hready.isFrame other (List.mem_append_left _ hother)
  obtain ⟨hpushed, hsame⟩ := pushFree_spec h.stack hframe hframes hout
  refine ⟨_, _, rfl, ⟨h.rest_eq, h.cursor_eq, h.runEnd_eq, hpushed, ?_⟩, hsame⟩
  exact congrArg (· - 1) h.inUse_eq

end Alloc

/-! ### Turn budgets -/

section Budget

variable {allocator : FrameAllocator} {m : Mem} {fuel fuel' : ℕ}

theorem bumpTurn_mono {wanted : ℕ} (hfuel : fuel ≤ fuel') {state : FrameAllocator × Mem}
    {turn : Turn (FrameAllocator × Mem) (Option ℕ × FrameAllocator × Mem)}
    (h : bumpTurn fuel wanted state = .ok turn) : bumpTurn fuel' wanted state = .ok turn := by
  obtain ⟨allocator, m⟩ := state
  rw [bumpTurn] at h ⊢
  by_cases hfits : wanted ≤ allocator.runEnd - allocator.cursor
  · rw [if_pos hfits] at h ⊢
    exact h
  · rw [if_neg hfits] at h ⊢
    exact bind_mono (fun drained hdrained ↦ loop_mono (fun _ _ hturn ↦ hturn) hfuel hdrained) h

theorem bump_mono {frames : ℕ} (hfuel : fuel ≤ fuel')
    {outcome : Option ℕ × FrameAllocator × Mem}
    (h : allocator.bump fuel m frames = .ok outcome) :
    allocator.bump fuel' m frames = .ok outcome := by
  rw [bump] at h ⊢
  split at h
  · exact h
  · exact loop_mono (fun _ _ hturn ↦ bumpTurn_mono hfuel hturn) hfuel h

theorem allocContiguous_mono {static : Option FrameAllocator} {frames : ℕ} (hfuel : fuel ≤ fuel')
    {outcome : Option ℕ × Option FrameAllocator × Mem}
    (h : Frames.allocContiguous fuel static m frames = .ok outcome) :
    Frames.allocContiguous fuel' static m frames = .ok outcome := by
  cases static with
  | none => exact h
  | some allocator => exact bind_mono (fun _ hbump ↦ bump_mono hfuel hbump) h

theorem allocFrame_mono {static : Option FrameAllocator} (hfuel : fuel ≤ fuel')
    {outcome : Option ℕ × Option FrameAllocator × Mem}
    (h : Frames.allocFrame fuel static m = .ok outcome) :
    Frames.allocFrame fuel' static m = .ok outcome := by
  cases static with
  | none => exact h
  | some allocator =>
    cases hfree : allocator.free with
    | none =>
      rw [alloc_of_free_none hfree] at h ⊢
      exact allocContiguous_mono hfuel h
    | some node =>
      rw [Frames.allocFrame] at h ⊢
      simp only [alloc, hfree] at h ⊢
      exact h

end Budget

end FrameAllocator

end RustBL
