import RustBL.Kernel.Frame.Contiguous

/-!
# The self-test of the frame allocator

`Frames.selftest` takes a frame, returns it and takes it again, then holds two frames at once and
returns both. It gives every frame back, but the cursor does not move back: the two frames are on
the stack afterwards, where no contiguous request finds them. `behind` is what is left of the runs
of a map behind its first frames, and `selftest_of_two` says that the cursor stands behind the first
two frames after a self-test that passes.

The proofs follow the list version: each call is a step of it (`Stands.answer`), and the state
between two calls is written out.
-/

set_option autoImplicit false
set_option relaxedAutoImplicit false

namespace RustBL

namespace Frames

/-- The first half of `frame::selftest`: freeing and reallocating hands the same frame straight
back. -/
def selftestReuse (fuel : ℕ) (allocator : Option FrameAllocator) (m : Mem) (first : ℕ) :
    Checked (Except String Unit × Option FrameAllocator × Mem) :=
  let (allocator, m) := deallocFrame allocator m first
  do
    let (again, allocator, m) ← allocFrame fuel allocator m
    match again with
    | none => return (.error "alloc_frame returned None after a dealloc", allocator, m)
    | some again =>
      if again ≠ first then
        return (.error "a freed frame was not the next frame handed out", allocator, m)
      else return (.ok (), deallocFrame allocator m again)

/-- The second half of `frame::selftest`: two live frames are distinct. -/
def selftestDistinct (fuel : ℕ) (allocator : Option FrameAllocator) (m : Mem) :
    Checked (Except String Unit × Option FrameAllocator × Mem) := do
  let (a, allocator, m) ← allocFrame fuel allocator m
  match a with
  | none => return (.error "alloc_frame returned None for the first of two frames", allocator, m)
  | some a =>
    let (b, allocator, m) ← allocFrame fuel allocator m
    match b with
    | none => return (.error "alloc_frame returned None for the second of two frames", allocator, m)
    | some b =>
      if a = b then
        return (.error "two consecutive allocations returned the same frame", allocator, m)
      else
        let (allocator, m) := deallocFrame allocator m b
        return (.ok (), deallocFrame allocator m a)

/-- `frame::selftest`: the violated invariant, if there is one, and the allocator and the memory
afterwards. -/
def selftest (fuel : ℕ) (allocator : Option FrameAllocator) (m : Mem) :
    Checked (Except String Unit × Option FrameAllocator × Mem) := do
  let (first, allocator, m) ← allocFrame fuel allocator m
  match first with
  | none => return (.error "alloc_frame returned None on a fresh allocator", allocator, m)
  | some first =>
    if first % PAGE_SIZE ≠ 0 then
      return (.error "allocated frame is not page aligned", allocator, m)
    else if first = 0 then return (.error "allocated frame is the null frame", allocator, m)
    else do
      let (reuse, allocator, m) ← selftestReuse fuel allocator m first
      match reuse with
      | .error reason => return (.error reason, allocator, m)
      | .ok () => selftestDistinct fuel allocator m

end Frames

/-! ### What is left behind the first frames -/

/-- What is left of these runs behind their first `frames` frames. -/
def behind : ℕ → List FrameRun → List FrameRun
  | _, [] => []
  | frames, run :: rest =>
    if frames ≤ run.frames then run.skip frames :: rest else behind (frames - run.frames) rest

theorem behind_behind (front frames : ℕ) (pending : List FrameRun) :
    behind frames (behind front pending) = behind (front + frames) pending := by
  induction pending generalizing front with
  | nil => rfl
  | cons run rest ih =>
    have hleft : (run.skip front).frames = run.frames - front := rfl
    rw [behind, behind]
    by_cases hfront : front ≤ run.frames
    · rw [if_pos hfront, behind, hleft, FrameRun.skip_skip]
      by_cases hboth : front + frames ≤ run.frames
      · rw [if_pos (by omega), if_pos hboth]
      · rw [if_neg (by omega), if_neg hboth]
        congr 1
        omega
    · rw [if_neg hfront, if_neg (by omega), ih]
      congr 1
      omega

/-- One frame from the cursor: the stack stays, and the cursor stands behind that frame. -/
theorem ListAllocator.bumpFrom_one (inUse : ℕ) (rest : List FrameRun) (current : FrameRun)
    (stack : List ℕ) :
    (behind 1 (current :: rest) = [] ∧ (bumpFrom 1 inUse rest current stack).1 = none) ∨
      ∃ frame run rest', behind 1 (current :: rest) = run :: rest' ∧
        bumpFrom 1 inUse rest current stack = (some frame, ⟨rest', run, stack, inUse⟩) := by
  have hdrained : ¬ 1 ≤ current.frames → current.list = [] ∧ 1 - current.frames = 1 := by
    intro hempty
    have hzero : current.frames = 0 := by omega
    rw [FrameRun.list, hzero]
    exact ⟨rfl, rfl⟩
  induction rest generalizing current with
  | nil =>
    rw [bumpFrom, behind]
    split_ifs with hle
    · exact Or.inr ⟨_, _, _, rfl, rfl⟩
    · exact Or.inl ⟨rfl, rfl⟩
  | cons run rest ih =>
    rw [bumpFrom, behind]
    split_ifs with hle
    · exact Or.inr ⟨_, _, _, rfl, rfl⟩
    · obtain ⟨hlist, hone⟩ := hdrained hle
      rw [hlist, hone]
      refine ih run fun hempty ↦ ?_
      have hzero : run.frames = 0 := by omega
      rw [FrameRun.list, hzero]
      exact ⟨rfl, rfl⟩

/-! ### One call -/

/-- A static allocator and a memory that stand for an accounted state of the list version. -/
def Stands (regions : List MemoryRegion) (allocator : Option FrameAllocator) (m : Mem)
    (t : ListState) : Prop :=
  FramesRelated regions ⟨allocator, m, t.ledger⟩ t

section Calls

variable {regions : List MemoryRegion} {allocator : Option FrameAllocator} {m : Mem}
  {t next : ListState} {reply : Option ℕ}

/-- A call is a step of the list version, with every large enough turn budget. -/
theorem Stands.answer (h : Stands regions allocator m t) (hmap : FirmwareMap regions)
    {request : FrameRequest} (hallows : t.ledger.Allows request)
    (hserve : t.serve request = (reply, next)) : ∃ bound allocator' m', (∀ fuel, bound ≤ fuel →
        FrameState.answer fuel allocator m request = .ok (reply, allocator', m')) ∧
      Stands regions allocator' m' next := by
  obtain ⟨bound, after, hanswer, hrelated, _⟩ := serve_refines h hmap hallows
  rw [hserve] at hanswer hrelated
  refine ⟨bound, after.allocator, after.mem, fun fuel hfuel ↦ ?_, ?_⟩
  · obtain ⟨⟨reply', allocator', m'⟩, hran, hafter⟩ := bind_eq_ok.mp (hanswer fuel hfuel)
    obtain ⟨rfl, rfl⟩ := Prod.mk.inj (Except.ok.inj hafter)
    exact hran
  · rw [Stands, ← hrelated.ledger_eq]
    exact hrelated

theorem Stands.alloc (h : Stands regions allocator m t) (hmap : FirmwareMap regions)
    (hserve : t.serve .allocFrame = (reply, next)) : ∃ bound allocator' m', (∀ fuel, bound ≤ fuel →
        Frames.allocFrame fuel allocator m = .ok (reply, allocator', m')) ∧
      Stands regions allocator' m' next := by
  have hallows : t.ledger.Allows .allocFrame := trivial
  exact h.answer hmap hallows hserve

theorem Stands.dealloc (h : Stands regions allocator m t) (hmap : FirmwareMap regions) {addr : ℕ}
    (hlive : addr ∈ t.ledger.live) (hserve : t.serve (.deallocFrame addr) = (reply, next)) :
    Stands regions (Frames.deallocFrame allocator m addr).1
      (Frames.deallocFrame allocator m addr).2 next := by
  have hallows : t.ledger.Allows (.deallocFrame addr) := hlive
  obtain ⟨bound, allocator', m', hran, hnext⟩ := h.answer hmap hallows hserve
  obtain ⟨_, heq⟩ := Prod.mk.inj (Except.ok.inj (hran bound le_rfl))
  rw [heq]
  exact hnext

/-- A frame that is held is a whole frame. -/
theorem Stands.isFrame (h : Stands regions allocator m t) (hmap : FirmwareMap regions) {frame : ℕ}
    (hlive : frame ∈ t.ledger.live) : IsFrame frame :=
  h.accounted.isFrame hmap (List.mem_append_left _ (List.mem_append_left _ hlive))

theorem Stands.nodup (h : Stands regions allocator m t) (hmap : FirmwareMap regions) :
    t.ledger.live.Nodup :=
  (h.accounted.nodup hmap).of_append_left.of_append_left

end Calls

/-! ### The states between the calls -/

namespace ListState

variable {run run' : FrameRun} {rest rest' : List FrameRun} {stack live : List ℕ} {inUse frame : ℕ}

/-- A state in which clients hold single frames only. -/
def single (run : FrameRun) (rest : List FrameRun) (stack : List ℕ) (inUse : ℕ) (live : List ℕ) :
    ListState :=
  ⟨some ⟨rest, run, stack, inUse⟩, ⟨live, []⟩⟩

theorem serve_pop : (single run rest (frame :: stack) inUse live).serve .allocFrame =
    (some frame, single run rest stack (inUse + 1) (frame :: live)) :=
  rfl

theorem serve_push :
    (single run rest stack (inUse + 1) (frame :: live)).serve (.deallocFrame frame) =
      (none, single run rest (frame :: stack) inUse live) := by
  simp [single, serve, answer, ListAllocator.dealloc, Ledger.record]

/-- With an empty stack `alloc_frame` takes the next frame from the cursor. -/
theorem serve_cursor (hbehind : behind 1 (run :: rest) = run' :: rest') : ∃ frame,
    (single run rest [] inUse live).serve .allocFrame =
      (some frame, single run' rest' [] (inUse + 1) (frame :: live)) := by
  have hfits : 1 * PAGE_SIZE < 2 ^ 64 := by decide
  rcases ListAllocator.bumpFrom_one inUse rest run [] with
    ⟨hnone, _⟩ | ⟨frame, found, later, hfound, hbump⟩
  · rw [hbehind] at hnone
    exact nomatch hnone
  · obtain ⟨rfl, rfl⟩ := List.cons.inj (hbehind.symm.trans hfound)
    have halloc : ListAllocator.alloc ⟨rest, run, [], inUse⟩ =
        (some frame, ⟨rest', run', [], inUse + 1⟩) := by
      rw [ListAllocator.alloc]
      simp only
      rw [ListAllocator.take_eq_some hfits hbump]
    refine ⟨frame, ?_⟩
    simp only [single, serve, answer, Option.bind_some, Option.map_some, halloc]
    rfl

theorem serve_exhausted (hbehind : behind 1 (run :: rest) = []) : ∃ next,
    (single run rest [] inUse live).serve .allocFrame = (none, next) := by
  have hfits : 1 * PAGE_SIZE < 2 ^ 64 := by decide
  rcases ListAllocator.bumpFrom_one inUse rest run [] with
    ⟨_, hnone⟩ | ⟨frame, found, later, hfound, _⟩
  · refine ⟨_, Prod.ext ?_ rfl⟩
    simp only [single, serve, answer, Option.bind_some, ListAllocator.alloc, ListAllocator.take,
      ListAllocator.bump, if_pos hfits]
    exact hnone
  · rw [hbehind] at hfound
    exact absurd hfound.symm (List.cons_ne_nil _ _)

end ListState

/-! ### The self-test -/

section Selftest

variable {regions : List MemoryRegion} {allocator : Option FrameAllocator} {m : Mem}
  {run run' : FrameRun} {rest rest' : List FrameRun} {first : ℕ}

/-- A frame that is returned is the next one handed out. -/
theorem selftestReuse_ok (hmap : FirmwareMap regions)
    (h : Stands regions allocator m (.single run rest [] 1 [first])) :
    ∃ bound allocator' m', (∀ fuel, bound ≤ fuel →
        Frames.selftestReuse fuel allocator m first = .ok (.ok (), allocator', m')) ∧
      Stands regions allocator' m' (.single run rest [first] 0 []) := by
  have hfreed := h.dealloc hmap List.mem_cons_self ListState.serve_push
  obtain ⟨bound, allocator', m', hagain, htaken⟩ :=
    hfreed.alloc hmap ListState.serve_pop
  have hreturned := htaken.dealloc hmap List.mem_cons_self ListState.serve_push
  refine ⟨bound, _, _, fun fuel hfuel ↦ ?_, hreturned⟩
  rw [Frames.selftestReuse]
  simp only
  rw [hagain fuel hfuel, ok_bind]
  simp only
  rw [if_neg (not_not.mpr rfl)]
  rfl

/-- Two frames at once: the freed one and the next one from the cursor. -/
theorem selftestDistinct_ok (hmap : FirmwareMap regions)
    (h : Stands regions allocator m (.single run rest [first] 0 []))
    (hbehind : behind 1 (run :: rest) = run' :: rest') :
    ∃ bound allocator' m' second, (∀ fuel, bound ≤ fuel →
        Frames.selftestDistinct fuel allocator m = .ok (.ok (), allocator', m')) ∧
      Stands regions allocator' m' (.single run' rest' [first, second] 0 []) := by
  obtain ⟨second, hserve⟩ : ∃ second, (ListState.single run rest [] 1 [first]).serve .allocFrame =
    (some second, .single run' rest' [] 2 [second, first]) := ListState.serve_cursor hbehind
  obtain ⟨bound, allocator₁, m₁, hfirst, hone⟩ :=
    h.alloc hmap ListState.serve_pop
  obtain ⟨bound', allocator₂, m₂, hsecond, htwo⟩ :=
    hone.alloc hmap hserve
  have hne : first ≠ second := by
    intro heq
    have hnodup : [second, first].Nodup := htwo.nodup hmap
    rw [heq] at hnodup
    simp at hnodup
  have hback := htwo.dealloc hmap List.mem_cons_self ListState.serve_push
  have hboth := hback.dealloc hmap List.mem_cons_self ListState.serve_push
  refine ⟨max bound bound', _, _, second, fun fuel hfuel ↦ ?_, hboth⟩
  rw [Frames.selftestDistinct, hfirst fuel ((le_max_left _ _).trans hfuel), ok_bind]
  simp only
  rw [hsecond fuel ((le_max_right _ _).trans hfuel), ok_bind]
  simp only
  rw [if_neg hne]
  rfl

/-- With one usable frame the second of two frames is missing. -/
theorem selftestDistinct_error (hmap : FirmwareMap regions)
    (h : Stands regions allocator m (.single run rest [first] 0 []))
    (hbehind : behind 1 (run :: rest) = []) : ∃ bound reason after, ∀ fuel, bound ≤ fuel →
      Frames.selftestDistinct fuel allocator m = .ok (.error reason, after) := by
  obtain ⟨next, hserve⟩ : ∃ next, (ListState.single run rest [] 1 [first]).serve .allocFrame =
    (none, next) := ListState.serve_exhausted hbehind
  obtain ⟨bound, allocator₁, m₁, hfirst, hone⟩ :=
    h.alloc hmap ListState.serve_pop
  obtain ⟨bound', allocator₂, m₂, hsecond, _⟩ :=
    hone.alloc hmap hserve
  refine ⟨max bound bound', "alloc_frame returned None for the second of two frames",
    (allocator₂, m₂), fun fuel hfuel ↦ ?_⟩
  rw [Frames.selftestDistinct, hfirst fuel ((le_max_left _ _).trans hfuel), ok_bind]
  simp only
  rw [hsecond fuel ((le_max_right _ _).trans hfuel), ok_bind]
  rfl

/-- The first frame of a map passes the checks of the self-test and is taken again. -/
theorem selftest_first (hmap : FirmwareMap regions)
    (h : Stands regions allocator m (.init regions))
    (hbehind : behind 1 (runs regions) = run :: rest) : ∃ bound allocator' m' first,
      (∀ fuel, bound ≤ fuel → Frames.selftest fuel allocator m =
        Frames.selftestDistinct fuel allocator' m') ∧
      Stands regions allocator' m' (.single run rest [first] 0 []) := by
  cases hruns : runs regions with
  | nil =>
    rw [hruns] at hbehind
    exact nomatch hbehind
  | cons current later =>
    rw [hruns] at hbehind
    have hinit : ListState.init regions = .single current later [] 0 [] := by
      rw [ListState.init, hruns]
      rfl
    rw [hinit] at h
    obtain ⟨first, hserve⟩ : ∃ first, (ListState.single current later [] 0 []).serve .allocFrame =
      (some first, .single run rest [] 1 [first]) := ListState.serve_cursor hbehind
    obtain ⟨bound, allocator₁, m₁, hfirst, hone⟩ :=
      h.alloc hmap hserve
    obtain ⟨bound', allocator₂, m₂, hreuse, hback⟩ := selftestReuse_ok hmap hone
    have hframe := hone.isFrame hmap List.mem_cons_self
    have haligned : first % PAGE_SIZE = 0 := Nat.mod_eq_zero_of_dvd hframe.page_dvd
    have hpos : first ≠ 0 := by
      have hpage : 0 < PAGE_SIZE := by decide
      have hle := hframe.page_le
      omega
    refine ⟨max bound bound', allocator₂, m₂, first, fun fuel hfuel ↦ ?_, hback⟩
    rw [Frames.selftest, hfirst fuel ((le_max_left _ _).trans hfuel), ok_bind]
    simp only
    rw [if_neg (not_not.mpr haligned), if_neg hpos,
      hreuse fuel ((le_max_right _ _).trans hfuel), ok_bind]

/-- A map with two usable frames passes the self-test, which leaves the cursor behind its first two
frames. -/
theorem selftest_of_two (hmap : FirmwareMap regions)
    (h : Stands regions allocator m (.init regions))
    (hbehind : behind 2 (runs regions) = run :: rest) :
    ∃ bound allocator' m' first second, (∀ fuel, bound ≤ fuel →
        Frames.selftest fuel allocator m = .ok (.ok (), allocator', m')) ∧
      Stands regions allocator' m' (.single run rest [first, second] 0 []) := by
  rw [← behind_behind 1 1] at hbehind
  cases hone : behind 1 (runs regions) with
  | nil =>
    rw [hone] at hbehind
    exact nomatch hbehind
  | cons current later =>
    rw [hone] at hbehind
    obtain ⟨bound, allocator₁, m₁, first, hfirst, hback⟩ := selftest_first hmap h hone
    obtain ⟨bound', allocator₂, m₂, second, hdistinct, hboth⟩ :=
      selftestDistinct_ok hmap hback hbehind
    refine ⟨max bound bound', allocator₂, m₂, first, second, fun fuel hfuel ↦ ?_, hboth⟩
    rw [hfirst fuel ((le_max_left _ _).trans hfuel),
      hdistinct fuel ((le_max_right _ _).trans hfuel)]

/-- A map with fewer usable frames does not pass it. -/
theorem selftest_of_few (hmap : FirmwareMap regions)
    (h : Stands regions allocator m (.init regions)) (hruns : runs regions ≠ [])
    (hbehind : behind 2 (runs regions) = []) : ∃ bound reason after, ∀ fuel, bound ≤ fuel →
      Frames.selftest fuel allocator m = .ok (.error reason, after) := by
  rw [← behind_behind 1 1] at hbehind
  cases hone : behind 1 (runs regions) with
  | nil =>
    -- Every run of a map has a frame.
    exfalso
    cases hpending : runs regions with
    | nil => exact hruns hpending
    | cons current later =>
      have hmem : current ∈ runs regions := hpending ▸ List.mem_cons_self
      obtain ⟨region, _, heq⟩ := List.mem_filterMap.mp hmem
      obtain ⟨_, _, _, _, hframes, _⟩ := runOf_eq_some heq
      have hle : 1 ≤ current.frames := hframes
      rw [hpending, behind, if_pos hle] at hone
      exact nomatch hone
  | cons current later =>
    rw [hone] at hbehind
    obtain ⟨bound, allocator₁, m₁, first, hfirst, hback⟩ := selftest_first hmap h hone
    obtain ⟨bound', reason, after, hdistinct⟩ := selftestDistinct_error hmap hback hbehind
    refine ⟨max bound bound', reason, after, fun fuel hfuel ↦ ?_⟩
    rw [hfirst fuel ((le_max_left _ _).trans hfuel),
      hdistinct fuel ((le_max_right _ _).trans hfuel)]

end Selftest

end RustBL
