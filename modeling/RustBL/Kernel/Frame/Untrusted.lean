import RustBL.Kernel.Frame.Safety
import Mathlib.Algebra.Order.BigOperators.Group.List

/-!
# Untrusted memory maps

The memory map comes from another binary, so nothing is assumed of it here but the number of its
regions: they may overlap, wrap, or end anywhere. `frame::init` adds up at most 341 runs of less
than `2 ^ 52` frames and never overflows. What `bump` adds stays in the address space as long as it
does not step over a run that ends on the last page boundary, `2 ^ 64 - 4096`: the frame behind the
end of such a run has no end address.

`Clears` says of a state that a request meets no such run, and that the number of frames in use
stays a word. `serve_decided` is the step: every request is answered with every large enough turn
budget when it clears, and stops with an overflow otherwise. `untrusted_map_iff` is the law for
whole sequences of requests, by induction on the sequence.
-/

set_option autoImplicit false
set_option relaxedAutoImplicit false

namespace RustBL

/-- The runs ahead of the cursor end inside the address space. -/
def Charted (allocator : Option FrameAllocator) : Prop :=
  ∀ installed, allocator = some installed → ∃ current rest,
    installed.StandsAt current rest ∧ ∀ run ∈ current :: rest, run.stop < 2 ^ 64

/-- Taking frames from the cursor meets no overflow: the runs it steps over do not end on the last
page boundary, and when some run has room the number of frames in use stays a word. A request whose
length in bytes is no word is refused at once. -/
def FrameAllocator.Clears (allocator : FrameAllocator) (frames : ℕ) : Prop :=
  frames * PAGE_SIZE < 2 ^ 64 →
    (∀ run ∈ stepped frames allocator.pending, run.stop + PAGE_SIZE < 2 ^ 64) ∧
    ((∃ run ∈ allocator.pending, frames ≤ run.frames) → allocator.inUse + frames < 2 ^ 64)

namespace FrameState

/-- A request meets no overflow in this state. -/
def Clears (s : FrameState) : FrameRequest → Prop
  | .allocFrame => ∀ allocator, s.allocator = some allocator →
      if allocator.free = none then allocator.Clears 1 else allocator.inUse + 1 < 2 ^ 64
  | .allocContiguous frames => ∀ allocator, s.allocator = some allocator → allocator.Clears frames
  | .deallocFrame _ => True
  | .write _ _ => True

/-- Serve one request after the other. -/
def serveAll (fuel : ℕ) : FrameState → List FrameRequest → Checked FrameState
  | s, [] => return s
  | s, request :: requests => do
    let (_, next) ← s.serve fuel request
    serveAll fuel next requests

/-- Along these requests none meets an overflow. -/
def AllClear : FrameState → List FrameRequest → Prop
  | _, [] => True
  | s, request :: requests => s.Clears request ∧
      ∀ fuel reply next, s.serve fuel request = .ok (reply, next) → AllClear next requests

end FrameState

/-! ### The cursor -/

namespace FrameAllocator

section Cursor

variable {allocator : FrameAllocator} {current : FrameRun} {rest : List FrameRun}

/-- `bump` on an allocator that stands at arbitrary runs inside the address space. -/
theorem StandsAt.bump_ok (h : StandsAt allocator current rest)
    (hstop : ∀ run ∈ current :: rest, run.stop < 2 ^ 64) (m : Mem) (frames : ℕ)
    (hclear : frames * PAGE_SIZE < 2 ^ 64 →
      ∀ run ∈ stepped frames (current :: rest), run.stop + PAGE_SIZE < 2 ^ 64) :
    ∃ bound reply allocator' m', (∀ fuel, bound ≤ fuel →
        allocator.bump fuel m frames = .ok (reply, allocator', m')) ∧
      Charted (some allocator') ∧ allocator'.inUse = allocator.inUse ∧
      (reply = none ↔
        frames * PAGE_SIZE < 2 ^ 64 → ∀ run ∈ current :: rest, run.frames < frames) := by
  have hmul : Word.checkedMul frames PAGE_SIZE =
      if frames * PAGE_SIZE < 2 ^ 64 then some (frames * PAGE_SIZE) else none := rfl
  by_cases hfits : frames * PAGE_SIZE < 2 ^ 64
  swap
  · refine ⟨0, none, allocator, m, fun fuel _ ↦ ?_, ?_, rfl, ?_⟩
    · rw [FrameAllocator.bump, hmul, if_neg hfits]
      rfl
    · intro installed heq
      obtain rfl := Option.some.inj heq
      exact ⟨current, rest, h, hstop⟩
    · exact ⟨fun _ hword ↦ absurd hword hfits, fun _ ↦ rfl⟩
  obtain ⟨bound, hframes, hlength⟩ : ∃ bound,
      current.frames + (rest.map FrameRun.frames).sum < bound ∧ rest.length < bound :=
    ⟨current.frames + (rest.map FrameRun.frames).sum + rest.length + 1, by omega, by omega⟩
  obtain ⟨allocator', m', hloop, hbumps⟩ :=
    loop_bumpTurn (m := m) 0 [] h hstop (hclear hfits) hframes hlength
  have hspec : Bumped frames _ _ _ := ListAllocator.bumpFrom_spec 0 rest current []
  refine ⟨bound, (ListAllocator.bumpFrom frames 0 rest current []).1, allocator', m',
    fun fuel hfuel ↦ bump_mono hfuel ?_, ?_, hbumps.inUse_eq, ?_⟩
  · rw [FrameAllocator.bump, hmul, if_pos hfits]
    exact hloop
  · intro installed heq
    obtain rfl := Option.some.inj heq
    refine ⟨_, _, hbumps.standsAt, fun run hrun ↦ ?_⟩
    obtain ⟨before, hbefore, hsame⟩ := hspec.stop_eq run hrun
    rw [hsame]
    exact hstop before hbefore
  · rw [ListAllocator.bumpFrom_eq_none]
    exact ⟨fun hshort _ ↦ hshort, fun hshort ↦ hshort hfits⟩

/-- `bump` overflows when it has to step over a run that ends on the last page boundary. -/
theorem StandsAt.bump_overflow (h : StandsAt allocator current rest)
    (hstop : ∀ run ∈ current :: rest, run.stop < 2 ^ 64) (m : Mem) {frames : ℕ}
    (hfits : frames * PAGE_SIZE < 2 ^ 64) {last : FrameRun}
    (hlast : last ∈ stepped frames (current :: rest)) (hend : 2 ^ 64 ≤ last.stop + PAGE_SIZE) :
    ∃ bound, ∀ fuel, bound ≤ fuel → allocator.bump fuel m frames = .error .overflow := by
  have hmul : Word.checkedMul frames PAGE_SIZE = some (frames * PAGE_SIZE) := if_pos hfits
  refine ⟨current.frames + (rest.map FrameRun.frames).sum + rest.length + 1, fun fuel hfuel ↦ ?_⟩
  rw [FrameAllocator.bump, hmul]
  exact loop_bumpTurn_overflow h hstop hlast hend (by omega) (by omega)

/-- Contiguous requests are answered when they clear, and stop with an overflow otherwise. -/
theorem StandsAt.contiguous_decided (h : StandsAt allocator current rest)
    (hstop : ∀ run ∈ current :: rest, run.stop < 2 ^ 64) (m : Mem) (frames : ℕ) :
    (allocator.Clears frames ∧ ∃ bound reply allocator' m', (∀ fuel, bound ≤ fuel →
        Frames.allocContiguous fuel (some allocator) m frames = .ok (reply, allocator', m')) ∧
      Charted allocator') ∨
    (¬ allocator.Clears frames ∧ ∃ bound, ∀ fuel, bound ≤ fuel →
      Frames.allocContiguous fuel (some allocator) m frames = .error .overflow) := by
  rw [Clears, h.pending_eq]
  by_cases hclear : frames * PAGE_SIZE < 2 ^ 64 →
    ∀ run ∈ stepped frames (current :: rest), run.stop + PAGE_SIZE < 2 ^ 64
  swap
  · rw [Classical.not_imp] at hclear
    obtain ⟨hfits, hend⟩ := hclear
    rw [not_forall₂] at hend
    obtain ⟨last, hlast, hend⟩ := hend
    obtain ⟨bound, hbump⟩ := h.bump_overflow hstop m hfits hlast (not_lt.mp hend)
    exact Or.inr ⟨fun hall ↦ hend ((hall hfits).1 last hlast), bound,
      fun fuel hfuel ↦ allocContiguous_of_bump_error (hbump fuel hfuel)⟩
  obtain ⟨bound, reply, allocator', m', hbump, hcharted, hinUse, hreply⟩ :=
    h.bump_ok hstop m frames hclear
  cases reply with
  | none =>
    refine Or.inl ⟨fun hfits ↦ ⟨hclear hfits, ?_⟩, bound, none, some allocator', m',
      fun fuel hfuel ↦ allocContiguous_of_bump_none (hbump fuel hfuel), hcharted⟩
    rintro ⟨run, hrun, hroom⟩
    exact absurd hroom (not_le.mpr (hreply.mp rfl hfits run hrun))
  | some addr =>
    have hserved : frames * PAGE_SIZE < 2 ^ 64 ∧ ∃ run ∈ current :: rest, frames ≤ run.frames := by
      by_contra hnone
      refine absurd (hreply.mpr fun hfits run hrun ↦ ?_) (Option.some_ne_none addr)
      exact not_le.mp fun hroom ↦ hnone ⟨hfits, run, hrun, hroom⟩
    by_cases hcount : allocator.inUse + frames < 2 ^ 64
    · refine Or.inl ⟨fun hfits ↦ ⟨hclear hfits, fun _ ↦ hcount⟩, bound, some addr,
        some { allocator' with inUse := allocator'.inUse + frames }, m', fun fuel hfuel ↦ ?_, ?_⟩
      · rw [allocContiguous_of_bump_some (hbump fuel hfuel), Word.add_eq (by omega), ok_bind]
        rfl
      · intro installed heq
        obtain rfl := Option.some.inj heq
        obtain ⟨current', rest', hstands, hstop'⟩ := hcharted allocator' rfl
        exact ⟨current', rest', ⟨hstands.rest_eq, hstands.cursor_eq, hstands.runEnd_eq⟩, hstop'⟩
    · refine Or.inr ⟨fun hall ↦ hcount ((hall hserved.1).2 hserved.2), bound, fun fuel hfuel ↦ ?_⟩
      have hsum : Word.add allocator'.inUse frames = .error .overflow := by
        rw [Word.add, if_neg (by omega)]
      rw [allocContiguous_of_bump_some (hbump fuel hfuel), hsum, error_bind]

end Cursor

end FrameAllocator

/-! ### One request -/

section Request

variable {s next : FrameState}

/-- `alloc_frame` with a frame on the stack. -/
theorem allocFrame_of_free {allocator : FrameAllocator} {node fuel : ℕ} {m : Mem}
    (hfree : allocator.free = some node) : Frames.allocFrame fuel (some allocator) m = do
      let inUse ← Word.add allocator.inUse 1
      return (some node, some { allocator with free := FreeFrame.read m node, inUse }, m) := by
  rw [Frames.allocFrame]
  simp only [FrameAllocator.alloc, hfree]
  cases Word.add allocator.inUse 1 <;> rfl

/-- Every operation is answered when it clears, and stops with an overflow otherwise. -/
theorem answer_decided (h : Charted s.allocator) (request : FrameRequest) :
    (s.Clears request ∧ ∃ bound reply allocator' m', (∀ fuel, bound ≤ fuel →
        FrameState.answer fuel s.allocator s.mem request = .ok (reply, allocator', m')) ∧
      Charted allocator') ∨
    (¬ s.Clears request ∧ ∃ bound, ∀ fuel, bound ≤ fuel →
      FrameState.answer fuel s.allocator s.mem request = .error .overflow) := by
  obtain ⟨allocator, m, ledger⟩ := s
  cases allocator with
  | none =>
    refine Or.inl ⟨?_, 0, ?_⟩
    · cases request <;> simp [FrameState.Clears]
    · cases request with
      | write addr byte => exact ⟨_, none, _, fun _ _ ↦ rfl, h⟩
      | _ => exact ⟨_, none, _, fun _ _ ↦ rfl, h⟩
  | some allocator =>
    obtain ⟨current, rest, hstands, hstop⟩ := h allocator rfl
    have hsame : ∀ allocator' : FrameAllocator, allocator'.runs = allocator.runs →
        allocator'.cursor = allocator.cursor → allocator'.runEnd = allocator.runEnd →
        Charted (some allocator') := by
      intro allocator' hruns hcursor hrunEnd installed heq
      obtain rfl := Option.some.inj heq
      exact ⟨current, rest, ⟨by rw [hruns]; exact hstands.rest_eq,
        hcursor.trans hstands.cursor_eq, hrunEnd.trans hstands.runEnd_eq⟩, hstop⟩
    cases request with
    | allocFrame =>
      have hclears : FrameState.Clears ⟨some allocator, m, ledger⟩ .allocFrame ↔
          if allocator.free = none then allocator.Clears 1 else allocator.inUse + 1 < 2 ^ 64 :=
        ⟨fun hall ↦ hall allocator rfl, fun hone installed heq ↦ Option.some.inj heq ▸ hone⟩
      rw [hclears]
      cases hfree : allocator.free with
      | none =>
        rw [if_pos rfl]
        simp only [FrameState.answer, FrameAllocator.alloc_of_free_none hfree]
        exact hstands.contiguous_decided hstop m 1
      | some node =>
        rw [if_neg (Option.some_ne_none node)]
        simp only [FrameState.answer, allocFrame_of_free hfree]
        by_cases hcount : allocator.inUse + 1 < 2 ^ 64
        · rw [Word.add_eq hcount]
          exact Or.inl ⟨hcount, 0, _, _, m, fun _ _ ↦ rfl, hsame _ rfl rfl rfl⟩
        · rw [Word.add, if_neg hcount]
          exact Or.inr ⟨hcount, 0, fun _ _ ↦ rfl⟩
    | deallocFrame addr => exact Or.inl ⟨trivial, 0, _, _, _, fun _ _ ↦ rfl, hsame _ rfl rfl rfl⟩
    | allocContiguous frames =>
      have hclears : FrameState.Clears ⟨some allocator, m, ledger⟩ (.allocContiguous frames) ↔
          allocator.Clears frames :=
        ⟨fun hall ↦ hall allocator rfl, fun hone installed heq ↦ Option.some.inj heq ▸ hone⟩
      rw [hclears]
      exact hstands.contiguous_decided hstop m frames
    | write addr byte => exact Or.inl ⟨trivial, 0, _, _, _, fun _ _ ↦ rfl, h⟩

/-- Every request is answered when it clears, and stops with an overflow otherwise. -/
theorem serve_decided (h : Charted s.allocator) (request : FrameRequest) :
    (s.Clears request ∧ ∃ bound reply next, (∀ fuel, bound ≤ fuel →
        s.serve fuel request = .ok (reply, next)) ∧ Charted next.allocator) ∨
    (¬ s.Clears request ∧ ∃ bound, ∀ fuel, bound ≤ fuel →
      s.serve fuel request = .error .overflow) := by
  rcases answer_decided h request with
    ⟨hclears, bound, reply, allocator', m', hanswer, hcharted⟩ | ⟨hclears, bound, hanswer⟩
  · refine Or.inl ⟨hclears, bound, reply, ⟨allocator', m', s.ledger.record request reply⟩,
      fun fuel hfuel ↦ ?_, hcharted⟩
    rw [FrameState.serve, hanswer fuel hfuel, ok_bind]
    rfl
  · refine Or.inr ⟨hclears, bound, fun fuel hfuel ↦ ?_⟩
    rw [FrameState.serve, hanswer fuel hfuel, error_bind]

/-- A request that was answered cleared, and its answer does not depend on the turn budget. -/
theorem serve_answered (h : Charted s.allocator) {request : FrameRequest} {fuel : ℕ}
    {reply : Option ℕ} (hserve : s.serve fuel request = .ok (reply, next)) :
    s.Clears request ∧ Charted next.allocator := by
  rcases serve_decided h request with
    ⟨hclears, bound, reply', next', hanswer, hcharted⟩ | ⟨_, bound, hanswer⟩
  · have hmax := serve_mono (le_max_left fuel bound) hserve
    rw [hanswer _ (le_max_right fuel bound)] at hmax
    obtain ⟨rfl, rfl⟩ := Prod.mk.inj (Except.ok.inj hmax)
    exact ⟨hclears, hcharted⟩
  · have hmax := serve_mono (le_max_left fuel bound) hserve
    rw [hanswer _ (le_max_right fuel bound)] at hmax
    exact nomatch hmax

end Request

/-! ### Sequences of requests -/

section Requests

variable {regions : List MemoryRegion}

/-- A sequence of requests is answered, with every large enough turn budget, exactly when none of
them meets an overflow. -/
theorem serveAll_iff {s : FrameState} (h : Charted s.allocator) (requests : List FrameRequest) :
    (∃ bound last, ∀ fuel, bound ≤ fuel → s.serveAll fuel requests = .ok last) ↔
      s.AllClear requests := by
  induction requests generalizing s with
  | nil => exact ⟨fun _ ↦ trivial, fun _ ↦ ⟨0, s, fun _ _ ↦ rfl⟩⟩
  | cons request requests ih =>
    constructor
    · rintro ⟨bound, last, hall⟩
      obtain ⟨⟨reply, next⟩, hserve, _⟩ := bind_eq_ok.mp (hall bound le_rfl)
      refine ⟨(serve_answered h hserve).1, fun fuel reply' next' hserve' ↦ ?_⟩
      refine (ih (serve_answered h hserve').2).mp ⟨max bound fuel, last, fun fuel' hfuel' ↦ ?_⟩
      obtain ⟨⟨reply'', next''⟩, hserve'', hrest⟩ :=
        bind_eq_ok.mp (hall fuel' ((le_max_left _ _).trans hfuel'))
      have hsame := serve_mono ((le_max_right _ _).trans hfuel') hserve'
      rw [hserve''] at hsame
      obtain ⟨rfl, rfl⟩ := Prod.mk.inj (Except.ok.inj hsame)
      exact hrest
    · rintro ⟨hclears, hnext⟩
      rcases serve_decided h request with
        ⟨_, bound, reply, next, hserve, hcharted⟩ | ⟨hblocked, _⟩
      swap
      · exact absurd hclears hblocked
      obtain ⟨bound', last, hrest⟩ :=
        (ih hcharted).mpr (hnext bound reply next (hserve bound le_rfl))
      refine ⟨max bound bound', last, fun fuel hfuel ↦ ?_⟩
      rw [FrameState.serveAll, hserve fuel ((le_max_left _ _).trans hfuel), ok_bind]
      exact hrest fuel ((le_max_right _ _).trans hfuel)

/-- The frames of any map of at most 341 regions are counted by a word. -/
theorem length_usableFrames_lt (hlength : regions.length ≤ 341) :
    (usableFrames regions).length < 2 ^ 64 := by
  have hframes : ∀ frames ∈ (runs regions).map FrameRun.frames, frames ≤ 2 ^ 52 := by
    intro frames hmem
    obtain ⟨run, hrun, rfl⟩ := List.mem_map.mp hmem
    have hstop := stop_lt_of_mem_runs hrun
    simp only [FrameRun.stop, PAGE_SIZE] at hstop
    omega
  have hsum := List.sum_le_card_nsmul _ _ hframes
  have hruns : (runs regions).length ≤ regions.length := List.length_filterMap_le _ _
  rw [List.length_map, nsmul_eq_mul, Nat.cast_id] at hsum
  rw [length_usableFrames]
  omega

theorem Installed.charted {allocator : Option FrameAllocator}
    (h : Installed (runs regions) allocator) : Charted allocator := by
  have hstop : ∀ run ∈ runs regions, run.stop < 2 ^ 64 := fun run hrun ↦ stop_lt_of_mem_runs hrun
  intro installed heq
  cases hruns : runs regions with
  | nil =>
    rw [hruns] at h
    obtain rfl : allocator = none := h
    exact nomatch heq
  | cons run rest =>
    rw [hruns] at h hstop
    obtain ⟨installed', rfl, hstands, _⟩ := h
    obtain rfl := Option.some.inj heq
    exact ⟨run, rest, hstands, hstop⟩

/-- Over every memory map of at most 341 regions `frame::init` returns the number of usable frames,
and a sequence of requests runs to its end exactly when no request has to step over a run that ends
on the last page boundary, and the number of frames in use stays a word. That clients keep to their
ledger is not needed. -/
theorem untrusted_map_iff (hlength : regions.length ≤ 341) : ∃ allocator,
    (∀ fuel, (runs regions).length < fuel →
      Frames.init fuel regions = .ok ((usableFrames regions).length, allocator)) ∧
    ∀ m requests, (∃ bound last, ∀ fuel, bound ≤ fuel →
        (FrameState.start allocator m).serveAll fuel requests = .ok last) ↔
      (FrameState.start allocator m).AllClear requests := by
  obtain ⟨allocator, hinit, hinstalled⟩ := Frames.init_eq (length_usableFrames_lt hlength)
  have hcharted : Charted allocator := hinstalled.charted
  exact ⟨allocator, hinit, fun m requests ↦ serveAll_iff hcharted requests⟩

/-- A map with the last whole frame below the last page boundary. -/
def lastPageMap : List MemoryRegion :=
  [⟨0xffffffffffffe000, 1, MemoryRegion.CONVENTIONAL⟩]

/-- What `frame::init` installs over it. -/
def lastPageAllocator : FrameAllocator :=
  ⟨⟨lastPageMap, 1⟩, 0xffffffffffffe000, 0xfffffffffffff000, none, 0⟩

theorem init_lastPageMap : Frames.init 2 lastPageMap = .ok (1, some lastPageAllocator) := by
  decide +kernel

theorem untrusted_map_iff_lastPageMap : ∃ bound last, ∀ fuel, bound ≤ fuel →
    (FrameState.start (some lastPageAllocator) fun _ ↦ 0).serveAll fuel [.allocFrame] =
      .ok last := by
  have hlength : lastPageMap.length ≤ 341 := by decide
  obtain ⟨allocator, hinit, hrequests⟩ := untrusted_map_iff hlength
  have hsame := hinit 2 (by decide)
  rw [init_lastPageMap] at hsame
  obtain ⟨_, rfl⟩ := Prod.mk.inj (Except.ok.inj hsame)
  refine (hrequests (fun _ ↦ 0) [.allocFrame]).mpr ⟨fun allocator heq ↦ ?_, fun _ _ _ _ ↦ trivial⟩
  obtain rfl := Option.some.inj heq
  have hempty : lastPageAllocator.free = none := rfl
  rw [if_pos hempty]
  exact fun _ ↦ ⟨by decide, fun _ ↦ by decide⟩

/-- On a map of one region that ends on the last page boundary the second `alloc_frame` overflows,
whatever the memory and with every turn budget. -/
theorem lastPageMap_overflows : lastPageMap.length ≤ 341 ∧
    Frames.init 2 lastPageMap = .ok (1, some lastPageAllocator) ∧
    ∀ m fuel, 1 ≤ fuel → (FrameState.start (some lastPageAllocator) m).serveAll fuel
      [.allocFrame, .allocFrame] = .error .overflow := by
  refine ⟨by decide, init_lastPageMap, fun m fuel hfuel ↦ ?_⟩
  have hfirst : (FrameState.start (some lastPageAllocator) m).serve 1 .allocFrame =
      .ok (some 0xffffffffffffe000,
        ⟨some ⟨⟨lastPageMap, 1⟩, 0xfffffffffffff000, 0xfffffffffffff000, none, 1⟩, m,
          ⟨[0xffffffffffffe000], []⟩⟩) := by rfl
  have hstands : FrameAllocator.StandsAt
      ⟨⟨lastPageMap, 1⟩, 0xfffffffffffff000, 0xfffffffffffff000, none, 1⟩
      ⟨0xfffffffffffff000, 0⟩ [] := ⟨rfl, rfl, rfl⟩
  have hbump : FrameAllocator.bump fuel
      ⟨⟨lastPageMap, 1⟩, 0xfffffffffffff000, 0xfffffffffffff000, none, 1⟩ m 1 =
        .error .overflow :=
    FrameAllocator.loop_bumpTurn_overflow hstands (by decide) List.mem_cons_self (by decide)
      (by simp; omega) (by simp; omega)
  rw [FrameState.serveAll, serve_mono (by omega) hfirst, ok_bind]
  simp only [FrameState.serveAll, FrameState.serve, FrameState.answer]
  rw [FrameAllocator.alloc_of_free_none rfl, FrameAllocator.allocContiguous_of_bump_error hbump,
    error_bind, error_bind]

end Requests

end RustBL
