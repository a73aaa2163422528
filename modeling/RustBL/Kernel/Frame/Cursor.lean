import RustBL.Kernel.Frame.Allocator
import RustBL.Kernel.Frame.Accounting

/-!
# The bump cursor

Where the cursor of `bump` goes does not depend on the stack of free frames or on what is in memory.
`StandsAt` says at which run an allocator stands and which runs follow, and `stepped` is the list of
runs a request steps over: those before the first one with room. `loop_bumpTurn` follows both loops
of `bump` by induction on the runs not reached yet: the cursor moves as in the list version, and the
frames of the runs stepped over are pushed, oldest first.

The inner loop compares the end of the frame after the cursor with the end of the run. That sum is
no word for a run that ends on the last page boundary, so such a run cannot be stepped over:
`loop_bumpTurn_overflow`. No map and no memory is excluded here.
-/

set_option autoImplicit false
set_option relaxedAutoImplicit false

namespace RustBL

/-- The runs a request for `frames` frames steps over, of those in front of the cursor. -/
def stepped (frames : ℕ) (pending : List FrameRun) : List FrameRun :=
  pending.takeWhile (·.frames < frames)

section Stepped

variable {frames : ℕ} {run current : FrameRun} {rest pending : List FrameRun}

theorem stepped_cons_of_fits (hle : frames ≤ run.frames) : stepped frames (run :: rest) = [] := by
  rw [stepped, List.takeWhile_cons_of_neg]
  simpa using hle

theorem stepped_cons_of_short (hlt : run.frames < frames) :
    stepped frames (run :: rest) = run :: stepped frames rest := by
  rw [stepped, List.takeWhile_cons_of_pos (by simpa using hlt), stepped]

theorem stepped_subset : stepped frames pending ⊆ pending :=
  List.takeWhile_subset _

namespace ListAllocator

/-- The stack of the list version after the cursor moved: the frames stepped over are on top. -/
theorem bumpFrom_stack (frames inUse : ℕ) (rest : List FrameRun) (current : FrameRun)
    (stack : List ℕ) : (bumpFrom frames inUse rest current stack).2.stack =
      ((stepped frames (current :: rest)).flatMap FrameRun.list).reverse ++ stack := by
  induction rest generalizing current stack with
  | nil =>
    rw [bumpFrom]
    split_ifs with hle
    · rw [stepped_cons_of_fits hle]
      rfl
    · rw [stepped_cons_of_short (not_le.mp hle)]
      simp [stepped]
  | cons run rest ih =>
    rw [bumpFrom]
    split_ifs with hle
    · rw [stepped_cons_of_fits hle]
      rfl
    · rw [ih, stepped_cons_of_short (not_le.mp hle), List.flatMap_cons, List.reverse_append,
        List.append_assoc]

theorem bumpFrom_inUse (frames inUse : ℕ) (rest : List FrameRun) (current : FrameRun)
    (stack : List ℕ) : (bumpFrom frames inUse rest current stack).2.inUse = inUse := by
  induction rest generalizing current stack with
  | nil =>
    rw [bumpFrom]
    split_ifs <;> rfl
  | cons run rest ih =>
    rw [bumpFrom]
    split_ifs
    · rfl
    · exact ih _ _

end ListAllocator

end Stepped

namespace FrameAllocator

/-! ### Pushing frames -/

/-- Push frames one after the other. -/
def pushAll (allocator : FrameAllocator) (m : Mem) : List ℕ → FrameAllocator × Mem
  | [] => (allocator, m)
  | frame :: frames =>
    pushAll (allocator.pushFree m frame).1 (allocator.pushFree m frame).2 frames

section Push

variable {allocator : FrameAllocator} {m : Mem}

/-- Pushing frames changes the top of the stack only. -/
theorem pushAll_eq (allocator : FrameAllocator) (m : Mem) (frames : List ℕ) :
    (allocator.pushAll m frames).1 =
      { allocator with free := (allocator.pushAll m frames).1.free } := by
  induction frames generalizing allocator m with
  | nil => rfl
  | cons frame frames ih =>
    rw [pushAll]
    exact ih _ _

/-- What pushing does to the stack and the memory depends on the top of the stack only. -/
theorem pushAll_congr {other : FrameAllocator} (hfree : allocator.free = other.free) (m : Mem)
    (frames : List ℕ) : (allocator.pushAll m frames).1.free = (other.pushAll m frames).1.free ∧
      (allocator.pushAll m frames).2 = (other.pushAll m frames).2 := by
  induction frames generalizing allocator other m with
  | nil => exact ⟨hfree, rfl⟩
  | cons frame frames ih =>
    have hmem : (allocator.pushFree m frame).2 = (other.pushFree m frame).2 := by
      rw [pushFree, pushFree, hfree]
    have htop : (allocator.pushFree m frame).1.free = (other.pushFree m frame).1.free := rfl
    rw [pushAll, pushAll, hmem]
    exact ih htop _

theorem pushAll_append (allocator : FrameAllocator) (m : Mem) (front back : List ℕ) :
    allocator.pushAll m (front ++ back) =
      (allocator.pushAll m front).1.pushAll (allocator.pushAll m front).2 back := by
  induction front generalizing allocator m with
  | nil => rfl
  | cons frame front ih =>
    rw [List.cons_append, pushAll, pushAll]
    exact ih _ _

end Push

/-! ### The inner loop -/

/-- The allocator stands at the run `current`, and the runs `rest` follow. -/
structure StandsAt (allocator : FrameAllocator) (current : FrameRun) (rest : List FrameRun) :
    Prop where
  rest_eq : allocator.runs.rest = rest
  cursor_eq : allocator.cursor = current.start
  runEnd_eq : allocator.runEnd = current.stop

/-- The runs ahead of the cursor: what is left of the current one, and those not reached yet. -/
def pending (allocator : FrameAllocator) : List FrameRun :=
  ⟨allocator.cursor, (allocator.runEnd - allocator.cursor) / PAGE_SIZE⟩ :: allocator.runs.rest

section Drain

variable {allocator : FrameAllocator} {m : Mem} {frames fuel : ℕ}

/-- One turn of the inner loop with a frame left. -/
theorem drainTurn_again (hend : allocator.cursor + PAGE_SIZE ≤ allocator.runEnd)
    (hfits : allocator.runEnd < 2 ^ 64) : drainTurn (allocator, m) = .ok (.again (pushFree
      { allocator with cursor := allocator.cursor + PAGE_SIZE } m allocator.cursor)) := by
  rw [drainTurn, Word.add_eq (by omega), ok_bind, if_pos hend]
  rfl

/-- The inner loop of `bump` pushes the frames left in the current run. -/
theorem loop_drainTurn (allocator : FrameAllocator) (m : Mem)
    (hend : allocator.cursor + frames * PAGE_SIZE = allocator.runEnd)
    (hfits : allocator.runEnd + PAGE_SIZE < 2 ^ 64) (hfuel : frames < fuel) :
    loop drainTurn fuel (allocator, m) =
      .ok (pushAll { allocator with cursor := allocator.runEnd } m
        (framesFrom allocator.cursor frames)) := by
  induction frames generalizing allocator m fuel with
  | zero =>
    obtain ⟨turns, rfl⟩ : ∃ turns, fuel = turns + 1 := ⟨fuel - 1, by omega⟩
    have hcursor : allocator.cursor = allocator.runEnd := by omega
    have hpage : 0 < PAGE_SIZE := by decide
    have hself : { allocator with cursor := allocator.runEnd } = allocator := by
      obtain ⟨runs, cursor, runEnd, free, inUse⟩ := allocator
      obtain rfl : cursor = runEnd := hcursor
      rfl
    rw [hself]
    refine loop_done turns ?_
    rw [drainTurn, Word.add_eq (by omega), ok_bind, if_neg (by omega)]
    rfl
  | succ frames ih =>
    obtain ⟨turns, rfl⟩ : ∃ turns, fuel = turns + 1 := ⟨fuel - 1, by omega⟩
    rw [Nat.add_mul] at hend
    rw [loop_again turns (drainTurn_again (by omega) (by omega)), framesFrom, pushAll]
    exact ih _ _ (by simp only; omega) hfits (by omega)

/-- The inner loop overflows at the end of a run that ends on the last page boundary. -/
theorem loop_drainTurn_overflow (allocator : FrameAllocator) (m : Mem)
    (hend : allocator.cursor + frames * PAGE_SIZE = allocator.runEnd)
    (hfits : allocator.runEnd < 2 ^ 64) (hlast : 2 ^ 64 ≤ allocator.runEnd + PAGE_SIZE)
    (hfuel : frames < fuel) : loop drainTurn fuel (allocator, m) = .error .overflow := by
  induction frames generalizing allocator m fuel with
  | zero =>
    obtain ⟨turns, rfl⟩ : ∃ turns, fuel = turns + 1 := ⟨fuel - 1, by omega⟩
    have hsum : Word.add allocator.cursor PAGE_SIZE = .error .overflow := by
      rw [Word.add, if_neg (by omega)]
    rw [loop, drainTurn, hsum, error_bind, error_bind]
  | succ frames ih =>
    obtain ⟨turns, rfl⟩ : ∃ turns, fuel = turns + 1 := ⟨fuel - 1, by omega⟩
    rw [Nat.add_mul] at hend
    rw [loop_again turns (drainTurn_again (by omega) hfits)]
    exact ih _ _ (by simp only; omega) hfits hlast (by omega)

end Drain

/-! ### The outer loop -/

section Bump

variable {allocator : FrameAllocator} {m : Mem} {frames fuel fuel' : ℕ} {current : FrameRun}
  {rest : List FrameRun}

/-- The length of the rest of the current run, in bytes. -/
theorem StandsAt.length_eq (h : StandsAt allocator current rest) :
    allocator.runEnd - allocator.cursor = current.frames * PAGE_SIZE := by
  rw [h.runEnd_eq, h.cursor_eq, FrameRun.stop, Nat.add_sub_cancel_left]

theorem StandsAt.pending_eq (h : StandsAt allocator current rest) :
    allocator.pending = current :: rest := by
  rw [pending, h.length_eq, Nat.mul_div_cancel _ (by decide), h.cursor_eq, h.rest_eq]

/-- The current run has room exactly when it has the frames. -/
theorem StandsAt.fits_iff (h : StandsAt allocator current rest) :
    frames * PAGE_SIZE ≤ allocator.runEnd - allocator.cursor ↔ frames ≤ current.frames := by
  rw [h.length_eq]
  exact Nat.mul_le_mul_right_iff (by decide)

/-- The cursor moved to where it is in the list version, and these frames were pushed. -/
structure Bumps (allocator : FrameAllocator) (m : Mem) (pushed : List ℕ) (list : ListAllocator)
    (allocator' : FrameAllocator) (m' : Mem) : Prop where
  standsAt : StandsAt allocator' list.current list.rest
  free_eq : allocator'.free = (pushAll allocator m pushed).1.free
  mem_eq : m' = (pushAll allocator m pushed).2
  inUse_eq : allocator'.inUse = allocator.inUse

theorem Bumps.trans {next last : FrameAllocator} {m' m'' : Mem} {pushed more : List ℕ}
    {list list' : ListAllocator} (h : Bumps allocator m pushed list next m')
    (h' : Bumps next m' more list' last m'') :
    Bumps allocator m (pushed ++ more) list' last m'' := by
  obtain ⟨hfree, hmem⟩ := pushAll_congr h.free_eq m' more
  rw [h.mem_eq] at hfree hmem
  refine ⟨h'.standsAt, ?_, ?_, h'.inUse_eq.trans h.inUse_eq⟩
  · rw [h'.free_eq, h.mem_eq, pushAll_append, hfree]
  · rw [h'.mem_eq, h.mem_eq, pushAll_append, hmem]

/-- One turn of the outer loop, when the current run has room. -/
theorem bumpTurn_fits (m : Mem) (fuel inUse : ℕ) (stack : List ℕ)
    (h : StandsAt allocator current rest) (hstop : current.stop < 2 ^ 64)
    (hle : frames ≤ current.frames) : ∃ allocator',
      bumpTurn fuel (frames * PAGE_SIZE) (allocator, m) =
        .ok (.done (some current.start, allocator', m)) ∧
      Bumps allocator m [] ⟨rest, current.skip frames, stack, inUse⟩ allocator' m := by
  have hmul : frames * PAGE_SIZE ≤ current.frames * PAGE_SIZE := Nat.mul_le_mul_right _ hle
  have hcursor := h.cursor_eq
  have hend : allocator.runEnd = (current.skip frames).stop := by
    rw [FrameRun.stop_skip hle]
    exact h.runEnd_eq
  rw [FrameRun.stop] at hstop
  refine ⟨{ allocator with cursor := current.start + frames * PAGE_SIZE }, ?_,
    ⟨⟨h.rest_eq, rfl, hend⟩, rfl, rfl, rfl⟩⟩
  rw [bumpTurn, if_pos (h.fits_iff.mpr hle), Word.add_eq (by omega), ok_bind, ← hcursor]
  rfl

/-- What is left of the current run is pushed. -/
theorem StandsAt.drain (h : StandsAt allocator current rest) (m : Mem)
    (hstop : current.stop + PAGE_SIZE < 2 ^ 64) (hfuel : current.frames < fuel) :
    ∃ drained m', loop drainTurn fuel (allocator, m) = .ok (drained, m') ∧
      drained.runs = allocator.runs ∧ drained.cursor = current.stop ∧
      drained.runEnd = current.stop ∧ drained.inUse = allocator.inUse ∧
      drained.free = (pushAll allocator m current.list).1.free ∧
      m' = (pushAll allocator m current.list).2 := by
  have hend : allocator.cursor + current.frames * PAGE_SIZE = allocator.runEnd := by
    rw [h.cursor_eq, h.runEnd_eq, FrameRun.stop]
  have hloop := loop_drainTurn allocator m hend (by rw [h.runEnd_eq]; exact hstop) hfuel
  have htop : { allocator with cursor := allocator.runEnd }.free = allocator.free := rfl
  obtain ⟨hfree, hmem⟩ := pushAll_congr htop m current.list
  have hfields := pushAll_eq { allocator with cursor := allocator.runEnd } m current.list
  rw [h.cursor_eq, ← FrameRun.list] at hloop
  refine ⟨_, _, hloop, ?_, ?_, ?_, ?_, hfree, hmem⟩
  · rw [hfields]
  · rw [hfields]
    exact h.runEnd_eq
  · rw [hfields]
    exact h.runEnd_eq
  · rw [hfields]

/-- One turn of the outer loop, when the last run is too short. -/
theorem bumpTurn_last (m : Mem) (inUse : ℕ) (stack : List ℕ) (h : StandsAt allocator current [])
    (hstop : current.stop + PAGE_SIZE < 2 ^ 64) (hfuel : current.frames < fuel)
    (hlt : current.frames < frames) : ∃ allocator' m',
      bumpTurn fuel (frames * PAGE_SIZE) (allocator, m) = .ok (.done (none, allocator', m')) ∧
      Bumps allocator m current.list ⟨[], current.skip current.frames, stack, inUse⟩
        allocator' m' := by
  obtain ⟨drained, m', hdrain, hruns, hcursor, hrunEnd, hinUse, hfree, hmem⟩ :=
    h.drain m hstop hfuel
  obtain ⟨after, hnext, _, hafter⟩ := drained.runs.next_eq
  rw [hruns, h.rest_eq] at hnext hafter
  rw [← FrameRun.stop_skip (le_refl current.frames)] at hrunEnd
  refine ⟨{ drained with runs := after }, m', ?_, ⟨⟨hafter, hcursor, hrunEnd⟩, hfree, hmem, hinUse⟩⟩
  rw [bumpTurn, if_neg (mt h.fits_iff.mp (not_le.mpr hlt)), hdrain, ok_bind]
  simp only
  rw [hruns, hnext, ok_bind]
  rfl

/-- One turn of the outer loop, when the current run is too short and another one follows. -/
theorem bumpTurn_next {run : FrameRun} (m : Mem) (inUse : ℕ) (stack : List ℕ)
    (h : StandsAt allocator current (run :: rest)) (hstop : current.stop + PAGE_SIZE < 2 ^ 64)
    (hnextStop : run.stop < 2 ^ 64) (hfuel : current.frames < fuel)
    (hlt : current.frames < frames) : ∃ allocator' m',
      bumpTurn fuel (frames * PAGE_SIZE) (allocator, m) = .ok (.again (allocator', m')) ∧
      Bumps allocator m current.list ⟨rest, run, stack, inUse⟩ allocator' m' := by
  obtain ⟨drained, m', hdrain, hruns, _, _, hinUse, hfree, hmem⟩ := h.drain m hstop hfuel
  obtain ⟨after, hnext, _, hafter⟩ := drained.runs.next_eq
  rw [hruns, h.rest_eq] at hnext hafter
  refine ⟨{ drained with runs := after, cursor := run.start, runEnd := run.stop }, m', ?_,
    ⟨⟨hafter, rfl, rfl⟩, hfree, hmem, hinUse⟩⟩
  rw [FrameRun.stop] at hnextStop
  rw [bumpTurn, if_neg (mt h.fits_iff.mp (not_le.mpr hlt)), hdrain, ok_bind]
  simp only
  rw [hruns, hnext, ok_bind]
  simp only [List.head?_cons]
  rw [Word.mul_eq (by omega), ok_bind, Word.add_eq hnextStop, ok_bind]
  rfl

/-- One turn of the outer loop overflows when it has to step over a run that ends on the last page
boundary. -/
theorem bumpTurn_overflow (m : Mem) (h : StandsAt allocator current rest)
    (hstop : current.stop < 2 ^ 64) (hlast : 2 ^ 64 ≤ current.stop + PAGE_SIZE)
    (hfuel : current.frames < fuel) (hlt : current.frames < frames) :
    bumpTurn fuel (frames * PAGE_SIZE) (allocator, m) = .error .overflow := by
  have hend : allocator.cursor + current.frames * PAGE_SIZE = allocator.runEnd := by
    rw [h.cursor_eq, h.runEnd_eq, FrameRun.stop]
  rw [← h.runEnd_eq] at hstop hlast
  rw [bumpTurn, if_neg (mt h.fits_iff.mp (not_le.mpr hlt)),
    loop_drainTurn_overflow allocator m hend hstop hlast hfuel, error_bind]

/-- The outer loop of `bump`, by induction on the runs not reached yet. Assumes: no run stepped over
ends on the last page boundary. -/
theorem loop_bumpTurn (inUse : ℕ) (stack : List ℕ) (h : StandsAt allocator current rest)
    (hstop : ∀ run ∈ current :: rest, run.stop < 2 ^ 64)
    (hclear : ∀ run ∈ stepped frames (current :: rest), run.stop + PAGE_SIZE < 2 ^ 64)
    (hfuel : current.frames + (rest.map FrameRun.frames).sum < fuel)
    (hfuel' : rest.length < fuel') :
    ∃ allocator' m', loop (bumpTurn fuel (frames * PAGE_SIZE)) fuel' (allocator, m) =
        .ok ((ListAllocator.bumpFrom frames inUse rest current stack).1, allocator', m') ∧
      Bumps allocator m ((stepped frames (current :: rest)).flatMap FrameRun.list)
        (ListAllocator.bumpFrom frames inUse rest current stack).2 allocator' m' := by
  induction rest generalizing allocator m current stack fuel' with
  | nil =>
    obtain ⟨turns, rfl⟩ : ∃ turns, fuel' = turns + 1 := ⟨fuel' - 1, by omega⟩
    rw [ListAllocator.bumpFrom]
    split_ifs with hle
    · obtain ⟨allocator', hturn, hbumps⟩ :=
        bumpTurn_fits m fuel inUse stack h (hstop current List.mem_cons_self) hle
      rw [stepped_cons_of_fits hle]
      exact ⟨allocator', m, loop_done turns hturn, hbumps⟩
    · rw [stepped_cons_of_short (not_le.mp hle)] at hclear ⊢
      have hpushed : (current :: stepped frames []).flatMap FrameRun.list = current.list :=
        List.flatMap_singleton _ _
      have hcurrent : current.frames < fuel := lt_of_le_of_lt (Nat.le_add_right _ _) hfuel
      obtain ⟨allocator', m', hturn, hbumps⟩ := bumpTurn_last m inUse
        (current.list.reverse ++ stack) h (hclear current List.mem_cons_self) hcurrent
        (not_le.mp hle)
      rw [hpushed]
      exact ⟨allocator', m', loop_done turns hturn, hbumps⟩
  | cons run rest ih =>
    obtain ⟨turns, rfl⟩ : ∃ turns, fuel' = turns + 1 := ⟨fuel' - 1, by omega⟩
    rw [ListAllocator.bumpFrom]
    rw [List.map_cons, List.sum_cons] at hfuel
    rw [List.length_cons] at hfuel'
    split_ifs with hle
    · obtain ⟨allocator', hturn, hbumps⟩ :=
        bumpTurn_fits m fuel inUse stack h (hstop current List.mem_cons_self) hle
      rw [stepped_cons_of_fits hle]
      exact ⟨allocator', m, loop_done turns hturn, hbumps⟩
    · rw [stepped_cons_of_short (not_le.mp hle)] at hclear ⊢
      rw [List.forall_mem_cons] at hclear hstop
      obtain ⟨moved, m', hturn, hbumps⟩ := bumpTurn_next m inUse stack h hclear.1
        (hstop.2 run List.mem_cons_self) (by omega : current.frames < fuel) (not_le.mp hle)
      have hstands : StandsAt moved run rest := hbumps.standsAt
      obtain ⟨allocator', m'', hloop, hbumps'⟩ := ih (current.list.reverse ++ stack)
        hstands hstop.2 hclear.2 (by omega) (by omega : rest.length < turns)
      refine ⟨allocator', m'', ?_, ?_⟩
      · rw [loop_again turns hturn]
        exact hloop
      · rw [List.flatMap_cons]
        exact hbumps.trans hbumps'

/-- The outer loop overflows when it has to step over a run that ends on the last page boundary. -/
theorem loop_bumpTurn_overflow (h : StandsAt allocator current rest)
    (hstop : ∀ run ∈ current :: rest, run.stop < 2 ^ 64) {last : FrameRun}
    (hmem : last ∈ stepped frames (current :: rest)) (hlast : 2 ^ 64 ≤ last.stop + PAGE_SIZE)
    (hfuel : current.frames + (rest.map FrameRun.frames).sum < fuel)
    (hfuel' : rest.length < fuel') :
    loop (bumpTurn fuel (frames * PAGE_SIZE)) fuel' (allocator, m) = .error .overflow := by
  induction rest generalizing allocator m current fuel' with
  | nil =>
    obtain ⟨turns, rfl⟩ : ∃ turns, fuel' = turns + 1 := ⟨fuel' - 1, by omega⟩
    by_cases hle : frames ≤ current.frames
    · rw [stepped_cons_of_fits hle] at hmem
      exact nomatch hmem
    · rw [stepped_cons_of_short (not_le.mp hle)] at hmem
      obtain rfl : last = current := List.mem_singleton.mp hmem
      have hturn := bumpTurn_overflow m h (hstop last List.mem_cons_self) hlast
        (lt_of_le_of_lt (Nat.le_add_right _ _) hfuel) (not_le.mp hle)
      rw [loop, hturn, error_bind]
  | cons run rest ih =>
    obtain ⟨turns, rfl⟩ : ∃ turns, fuel' = turns + 1 := ⟨fuel' - 1, by omega⟩
    rw [List.map_cons, List.sum_cons] at hfuel
    rw [List.length_cons] at hfuel'
    rw [List.forall_mem_cons] at hstop
    by_cases hle : frames ≤ current.frames
    · rw [stepped_cons_of_fits hle] at hmem
      exact nomatch hmem
    have hcurrent : current.frames < fuel := by omega
    by_cases hhere : 2 ^ 64 ≤ current.stop + PAGE_SIZE
    · have hturn := bumpTurn_overflow m h hstop.1 hhere hcurrent (not_le.mp hle)
      rw [loop, hturn, error_bind]
    · rw [stepped_cons_of_short (not_le.mp hle)] at hmem
      rcases List.mem_cons.mp hmem with rfl | hlater
      · exact absurd hlast hhere
      obtain ⟨moved, m', hturn, hbumps⟩ := bumpTurn_next m 0 [] h (not_le.mp hhere)
        (hstop.2 run List.mem_cons_self) hcurrent (not_le.mp hle)
      have hstands : StandsAt moved run rest := hbumps.standsAt
      rw [loop_again turns hturn]
      exact ih hstands hstop.2 hlater (by omega) (by omega : rest.length < turns)

end Bump

end FrameAllocator

/-! ### Initialisation -/

section Init

variable {regions : List MemoryRegion}

/-- The loop that sums the frames of all runs. -/
theorem loop_totalTurn (iterator : UsableRegions) (total : ℕ) {fuel : ℕ}
    (hfuel : iterator.rest.length < fuel)
    (hfits : total + (iterator.rest.map FrameRun.frames).sum < 2 ^ 64) :
    loop Frames.totalTurn fuel (total, iterator) =
      .ok (total + (iterator.rest.map FrameRun.frames).sum) := by
  induction fuel generalizing iterator total with
  | zero => exact absurd hfuel (Nat.not_lt_zero _)
  | succ turns ih =>
    obtain ⟨after, hnext, _, hrest⟩ := iterator.next_eq
    cases hruns : iterator.rest with
    | nil =>
      rw [hruns] at hnext
      refine loop_done turns ?_
      rw [Frames.totalTurn, hnext, ok_bind]
      rfl
    | cons run runs =>
      rw [hruns] at hnext hrest hfuel hfits
      rw [List.map_cons, List.sum_cons] at hfits
      have hturn : Frames.totalTurn (total, iterator) =
          .ok (.again (total + run.frames, after)) := by
        rw [Frames.totalTurn, hnext, ok_bind]
        simp only [List.head?_cons]
        rw [Word.add_eq (by omega), ok_bind]
        rfl
      have htail : after.rest = runs := hrest
      rw [loop_again turns hturn, ih after _ (by rw [htail]; exact Nat.lt_of_succ_lt_succ hfuel)
        (by rw [htail]; omega), htail, List.map_cons, List.sum_cons, Nat.add_assoc]

/-- What `frame::init` installs over these runs: an allocator at the first run, with an empty stack.
-/
def Installed : List FrameRun → Option FrameAllocator → Prop
  | [], allocator => allocator = none
  | run :: rest, allocator => ∃ installed : FrameAllocator, allocator = some installed ∧
      installed.StandsAt run rest ∧ installed.free = none ∧ installed.inUse = 0

/-- `frame::init` returns the number of usable frames and installs an allocator at the first run, on
every map whose number of usable frames is a word. -/
theorem Frames.init_eq (hfits : (usableFrames regions).length < 2 ^ 64) : ∃ allocator,
    (∀ fuel, (runs regions).length < fuel →
      Frames.init fuel regions = .ok ((usableFrames regions).length, allocator)) ∧
    Installed (runs regions) allocator := by
  rw [length_usableFrames] at hfits ⊢
  have htotal : ∀ fuel, (runs regions).length < fuel →
      loop Frames.totalTurn fuel (0, .new regions) =
        .ok ((runs regions).map FrameRun.frames).sum := by
    intro fuel hfuel
    have hloop := loop_totalTurn (.new regions) 0 (by rwa [UsableRegions.rest_new])
      (by rw [UsableRegions.rest_new]; omega)
    rwa [UsableRegions.rest_new, Nat.zero_add] at hloop
  obtain ⟨after, hnext, _, hafter⟩ := (UsableRegions.new regions).next_eq
  rw [UsableRegions.rest_new] at hnext hafter
  cases hruns : runs regions with
  | nil =>
    refine ⟨none, fun fuel hfuel ↦ ?_, rfl⟩
    rw [← hruns] at hfuel
    rw [Frames.init, htotal fuel hfuel, ok_bind, hruns]
    rfl
  | cons run rest =>
    have hfirst : run ∈ runs regions := hruns ▸ List.mem_cons_self
    have hstop := stop_lt_of_mem_runs hfirst
    obtain ⟨region, _, hrun⟩ := List.mem_filterMap.mp hfirst
    obtain ⟨_, _, _, _, hframes, _⟩ := runOf_eq_some hrun
    rw [hruns] at hnext hafter
    rw [FrameRun.stop] at hstop
    refine ⟨some ⟨after, run.start, run.stop, none, 0⟩, fun fuel hfuel ↦ ?_,
      ⟨_, rfl, ⟨hafter, rfl, rfl⟩, rfl, rfl⟩⟩
    rw [← hruns] at hfuel
    have hpos : ((runs regions).map FrameRun.frames).sum ≠ 0 := by
      rw [hruns, List.map_cons, List.sum_cons]
      omega
    rw [Frames.init, htotal fuel hfuel, ok_bind, if_neg hpos, hnext, ok_bind, hruns]
    simp only [List.head?_cons]
    rw [Word.mul_eq (by omega), ok_bind, Word.add_eq hstop, ok_bind]
    rfl

end Init

end RustBL
