import RustBL.Kernel.Heap.Safety
import RustBL.Kernel.Startup

/-!
# The state in which memory management comes up

`kernelMainMemory_up` says which state `kernel_main` hands to the rest of the kernel when memory
management has come up: the frame allocator stands for an accounted state in which the run of the
heap is all that is held, the heap is one free block over the frames of that run, and only usable
frames were written.

The self-test is a client like any other. Its calls are a run of `frameMachine`, whatever it finds
(`selftest_client`), so nothing about it has to be proved again.
-/

set_option autoImplicit false
set_option relaxedAutoImplicit false

namespace RustBL

/-! ### The bytes of held frames -/

/-- A run of frames as a span of bytes. -/
def FrameRun.span (run : FrameRun) : Span :=
  ⟨run.start, run.frames * PAGE_SIZE⟩

theorem FrameRun.mem_span {run : FrameRun} {addr : ℕ} :
    addr ∈ run.span.bytes ↔ ∃ frame ∈ run.list, addr ∈ frameBytes frame := by
  have hpage : 0 < PAGE_SIZE := by decide
  constructor
  · rintro ⟨hlow, hhigh⟩
    have hoffset : addr - run.start < run.frames * PAGE_SIZE := by
      simp only [span, Span.stop] at hlow hhigh
      omega
    have hsplit := Nat.div_add_mod (addr - run.start) PAGE_SIZE
    have hmod := Nat.mod_lt (addr - run.start) hpage
    rw [Nat.mul_comm] at hsplit
    refine ⟨_, mem_framesFrom.mpr ⟨_, (Nat.div_lt_iff_lt_mul hpage).mpr hoffset, rfl⟩, ?_⟩
    simp only [span] at hlow
    exact ⟨by omega, by omega⟩
  · rintro ⟨frame, hframe, hlow, hhigh⟩
    obtain ⟨index, hindex, rfl⟩ := mem_framesFrom.mp hframe
    have hlast : (index + 1) * PAGE_SIZE ≤ run.frames * PAGE_SIZE :=
      Nat.mul_le_mul_right _ hindex
    rw [Nat.add_mul] at hlast
    show run.start ≤ addr ∧ addr < run.start + run.frames * PAGE_SIZE
    omega

section Held

variable {regions : List MemoryRegion} {s : FrameState} {t : ListState}

/-- The allocator depends on the frames that nobody holds. -/
theorem FramesRelated.congr (h : FramesRelated regions s t) {m : Mem}
    (hagree : ∀ frame ∈ t.unused, ∀ addr ∈ frameBytes frame, m addr = s.mem addr) :
    FramesRelated regions ⟨s.allocator, m, s.ledger⟩ t := by
  refine ⟨h.accounted, h.ledger_eq, ?_⟩
  have hpage : 8 ≤ PAGE_SIZE := by decide
  rcases h.split with ⟨hs, ht⟩ | ⟨allocator, list, hs, ht, hrep⟩
  · rw [hs, ht]
    trivial
  · rw [hs, ht]
    refine ⟨hrep.rest_eq, hrep.cursor_eq, hrep.runEnd_eq,
      hrep.stack.congr fun frame hframe addr hlow hhigh ↦ ?_, hrep.inUse_eq⟩
    refine (hagree frame ?_ addr ⟨hlow, by omega⟩).symm
    rw [ListState.unused, ht]
    exact List.mem_append_left _ hframe

/-- A frame that is held has no byte in common with one that is not. -/
theorem Accounted.disjoint_unused (h : Accounted regions t) (hmap : FirmwareMap regions)
    {frame other : ℕ} (hframe : frame ∈ t.ledger.frames) (hother : other ∈ t.unused) :
    Disjoint (frameBytes frame) (frameBytes other) := by
  obtain ⟨_, _, hdisjoint⟩ := List.nodup_append.mp (h.nodup hmap)
  exact disjoint_frameBytes (h.isFrame hmap (List.mem_append_left _ hframe)).page_dvd
    (h.isFrame hmap (List.mem_append_right _ hother)).page_dvd (hdisjoint frame hframe other hother)

/-- Writes to frames that are held do not concern the allocator. -/
theorem FramesRelated.of_held (h : FramesRelated regions s t) (hmap : FirmwareMap regions)
    {S : Set ℕ} {m : Mem} (hsame : Mem.SameOff S s.mem m)
    (hheld : ∀ addr ∈ S, ∃ frame ∈ s.ledger.frames, addr ∈ frameBytes frame) :
    FramesRelated regions ⟨s.allocator, m, s.ledger⟩ t := by
  refine h.congr fun frame hframe addr haddr ↦ hsame addr fun hin ↦ ?_
  obtain ⟨other, hother, haddr'⟩ := hheld addr hin
  rw [h.ledger_eq] at hother
  exact Set.disjoint_left.mp (h.accounted.disjoint_unused hmap hother hframe) haddr' haddr

theorem Accounted.isFrame_run (h : Accounted regions t) (hmap : FirmwareMap regions)
    {run : FrameRun} (hrun : run ∈ t.ledger.contiguous) {frame : ℕ} (hframe : frame ∈ run.list) :
    IsFrame frame :=
  h.isFrame hmap (List.mem_append_left _ (List.mem_append_right _
    (List.mem_flatMap.mpr ⟨run, hrun, hframe⟩)))

/-- A run that was granted begins and ends on frames below `2 ^ 52`. -/
theorem Accounted.run_bounds (h : Accounted regions t) (hmap : FirmwareMap regions)
    {run : FrameRun} (hrun : run ∈ t.ledger.contiguous) (hpos : 0 < run.frames) :
    PAGE_SIZE ∣ run.start ∧ 0 < run.start ∧ run.span.stop ≤ 2 ^ 52 := by
  have hpage : 0 < PAGE_SIZE := by decide
  have hfirst : run.start ∈ run.list := mem_framesFrom.mpr ⟨0, hpos, by omega⟩
  have hlast : run.start + (run.frames - 1) * PAGE_SIZE ∈ run.list :=
    mem_framesFrom.mpr ⟨run.frames - 1, by omega, rfl⟩
  have hfirst' := h.isFrame_run hmap hrun hfirst
  have hlast' := (h.isFrame_run hmap hrun hlast).below
  have hle := hfirst'.page_le
  have hstop : run.span.stop = run.start + ((run.frames - 1) * PAGE_SIZE + PAGE_SIZE) := by
    rw [← Nat.succ_mul, Nat.succ_eq_add_one, Nat.sub_add_cancel hpos]
    rfl
  exact ⟨hfirst'.page_dvd, by omega, by omega⟩

/-- The bytes of a run that was granted are usable. -/
theorem Accounted.span_subset (h : Accounted regions t) {run : FrameRun}
    (hrun : run ∈ t.ledger.contiguous) : run.span.bytes ⊆ usableBytes regions := by
  intro addr haddr
  obtain ⟨frame, hframe, hin⟩ := FrameRun.mem_span.mp haddr
  have hheld : frame ∈ t.ledger.frames :=
    List.mem_append_right _ (List.mem_flatMap.mpr ⟨run, hrun, hframe⟩)
  exact ⟨frame, h.partition.mem_iff.mp (List.mem_append_left _ hheld), hin⟩

end Held

/-! ### Clients as runs -/

section Clients

variable {start s : FrameState} {fuel : ℕ} {reply : Option ℕ} {allocator : Option FrameAllocator}
  {m : Mem}

/-- A call a client may make extends the run. -/
theorem FrameState.reachable_answer (h : frameMachine.Reachable start s) {request : FrameRequest}
    (hallows : s.ledger.Allows request)
    (hran : FrameState.answer fuel s.allocator s.mem request = .ok (reply, allocator, m)) :
    frameMachine.Reachable start ⟨allocator, m, s.ledger.record request reply⟩ := by
  have hserve : s.serve fuel request =
      .ok (reply, ⟨allocator, m, s.ledger.record request reply⟩) := by
    rw [FrameState.serve, hran, ok_bind]
    rfl
  exact h.step ⟨hallows, fuel, hserve⟩

theorem FrameState.reachable_alloc (h : frameMachine.Reachable start s)
    (hran : Frames.allocFrame fuel s.allocator s.mem = .ok (reply, allocator, m)) :
    frameMachine.Reachable start ⟨allocator, m, s.ledger.record .allocFrame reply⟩ := by
  have hallows : s.ledger.Allows .allocFrame := trivial
  exact reachable_answer h hallows hran

theorem FrameState.reachable_dealloc (h : frameMachine.Reachable start s) {addr : ℕ}
    (hlive : addr ∈ s.ledger.live) : frameMachine.Reachable start
      ⟨(Frames.deallocFrame s.allocator s.mem addr).1,
        (Frames.deallocFrame s.allocator s.mem addr).2,
        s.ledger.record (.deallocFrame addr) none⟩ := by
  have hallows : s.ledger.Allows (.deallocFrame addr) := hlive
  have hran : FrameState.answer 0 s.allocator s.mem (.deallocFrame addr) =
    .ok (none, Frames.deallocFrame s.allocator s.mem addr) := rfl
  exact reachable_answer h hallows hran

/-- The first half of the self-test is a client that returns the frame it was given. -/
theorem selftestReuse_client {first : ℕ} (h : frameMachine.Reachable start s)
    (hledger : s.ledger = ⟨[first], []⟩) {result : Except String Unit}
    (hran : Frames.selftestReuse fuel s.allocator s.mem first = .ok (result, allocator, m)) :
    ∃ ledger, frameMachine.Reachable start ⟨allocator, m, ledger⟩ ∧
      (result = .ok () → ledger = ⟨[], []⟩) := by
  have hlive : first ∈ s.ledger.live := by rw [hledger]; exact List.mem_singleton_self first
  have hfreed := FrameState.reachable_dealloc h hlive
  rw [Frames.selftestReuse] at hran
  obtain ⟨⟨again, allocator₁, m₁⟩, hagain, hthen⟩ := bind_eq_ok.mp hran
  have htaken := FrameState.reachable_alloc hfreed hagain
  rw [hledger] at htaken
  cases again with
  | none =>
    obtain ⟨rfl, hrest⟩ := Prod.mk.inj (Except.ok.inj hthen)
    obtain ⟨rfl, rfl⟩ := Prod.mk.inj hrest
    exact ⟨_, htaken, fun hok ↦ by cases hok⟩
  | some again =>
    simp only at hthen
    split_ifs at hthen with hsame
    · obtain ⟨rfl, hrest⟩ := Prod.mk.inj (Except.ok.inj hthen)
      obtain ⟨rfl, rfl⟩ := Prod.mk.inj hrest
      exact ⟨_, htaken, fun hok ↦ by cases hok⟩
    · obtain rfl : again = first := not_not.mp hsame
      have hback := FrameState.reachable_dealloc htaken List.mem_cons_self
      obtain ⟨rfl, heq⟩ := Prod.mk.inj (Except.ok.inj hthen)
      simp only [heq] at hback
      refine ⟨_, hback, fun _ ↦ ?_⟩
      simp [Ledger.record]

/-- The second half of the self-test returns both frames it was given. -/
theorem selftestDistinct_client (h : frameMachine.Reachable start s)
    (hledger : s.ledger = ⟨[], []⟩) {result : Except String Unit}
    (hran : Frames.selftestDistinct fuel s.allocator s.mem = .ok (result, allocator, m)) :
    ∃ ledger, frameMachine.Reachable start ⟨allocator, m, ledger⟩ ∧
      (result = .ok () → ledger = ⟨[], []⟩) := by
  rw [Frames.selftestDistinct] at hran
  obtain ⟨⟨a, allocator₁, m₁⟩, ha, hthen⟩ := bind_eq_ok.mp hran
  have hone := FrameState.reachable_alloc h ha
  rw [hledger] at hone
  cases a with
  | none =>
    obtain ⟨rfl, hrest⟩ := Prod.mk.inj (Except.ok.inj hthen)
    obtain ⟨rfl, rfl⟩ := Prod.mk.inj hrest
    exact ⟨_, hone, fun hok ↦ by cases hok⟩
  | some a =>
    obtain ⟨⟨b, allocator₂, m₂⟩, hb, hlast⟩ := bind_eq_ok.mp hthen
    have htwo := FrameState.reachable_alloc hone hb
    cases b with
    | none =>
      obtain ⟨rfl, hrest⟩ := Prod.mk.inj (Except.ok.inj hlast)
      obtain ⟨rfl, rfl⟩ := Prod.mk.inj hrest
      exact ⟨_, htwo, fun hok ↦ by cases hok⟩
    | some b =>
      simp only at hlast
      split_ifs at hlast with hsame
      · obtain ⟨rfl, hrest⟩ := Prod.mk.inj (Except.ok.inj hlast)
        obtain ⟨rfl, rfl⟩ := Prod.mk.inj hrest
        exact ⟨_, htwo, fun hok ↦ by cases hok⟩
      · have hback := FrameState.reachable_dealloc htwo List.mem_cons_self
        have hlive : a ∈ (Ledger.record ⟨[b, a], []⟩ (.deallocFrame b) none).live := by
          simp [Ledger.record]
        have hboth := FrameState.reachable_dealloc hback hlive
        obtain ⟨rfl, heq⟩ := Prod.mk.inj (Except.ok.inj hlast)
        simp only [heq] at hboth
        refine ⟨_, hboth, fun _ ↦ ?_⟩
        simp [Ledger.record]

/-- The self-test is a client that keeps to its ledger, and one that passes returns every frame. -/
theorem selftest_client {result : Except String Unit}
    (hran : Frames.selftest fuel s.allocator s.mem = .ok (result, allocator, m))
    (h : frameMachine.Reachable start s) (hledger : s.ledger = ⟨[], []⟩) :
    ∃ ledger, frameMachine.Reachable start ⟨allocator, m, ledger⟩ ∧
      (result = .ok () → ledger = ⟨[], []⟩) := by
  rw [Frames.selftest] at hran
  obtain ⟨⟨first, allocator₁, m₁⟩, hfirst, hthen⟩ := bind_eq_ok.mp hran
  have hone := FrameState.reachable_alloc h hfirst
  rw [hledger] at hone
  cases first with
  | none =>
    obtain ⟨rfl, hrest⟩ := Prod.mk.inj (Except.ok.inj hthen)
    obtain ⟨rfl, rfl⟩ := Prod.mk.inj hrest
    exact ⟨_, hone, fun hok ↦ by cases hok⟩
  | some first =>
    simp only at hthen
    split_ifs at hthen with haligned hnull
    · obtain ⟨rfl, hrest⟩ := Prod.mk.inj (Except.ok.inj hthen)
      obtain ⟨rfl, rfl⟩ := Prod.mk.inj hrest
      exact ⟨_, hone, fun hok ↦ by cases hok⟩
    · obtain ⟨rfl, hrest⟩ := Prod.mk.inj (Except.ok.inj hthen)
      obtain ⟨rfl, rfl⟩ := Prod.mk.inj hrest
      exact ⟨_, hone, fun hok ↦ by cases hok⟩
    · obtain ⟨⟨reuse, allocator₂, m₂⟩, hreuse, hlast⟩ := bind_eq_ok.mp hthen
      obtain ⟨ledger, hafter, hempty⟩ := selftestReuse_client hone rfl hreuse
      cases reuse with
      | error reason =>
        obtain ⟨rfl, hrest⟩ := Prod.mk.inj (Except.ok.inj hlast)
        obtain ⟨rfl, rfl⟩ := Prod.mk.inj hrest
        exact ⟨_, hafter, fun hok ↦ by cases hok⟩
      | ok =>
        obtain rfl := hempty rfl
        exact selftestDistinct_client hafter rfl hlast

end Clients

/-! ### Memory management is up -/

/-- `frame::init` keeps its result with every larger turn budget. -/
theorem Frames.init_mono {regions : List MemoryRegion} {fuel fuel' : ℕ} (hfuel : fuel ≤ fuel')
    {outcome : ℕ × Option FrameAllocator} (h : Frames.init fuel regions = .ok outcome) :
    Frames.init fuel' regions = .ok outcome :=
  bind_mono (fun _ htotal ↦ loop_mono (fun _ _ hturn ↦ hturn) hfuel htotal) h

/-- The state of memory when `kernel_main` has claimed the heap: the heap is one free block over the
run it was granted, which is all that is held, and only usable frames were written since `m`. -/
structure MemoryUp (regions : List MemoryRegion) (m : Mem) (start : ℕ) (memory : KernelMemory) :
    Prop where
  aligned : PAGE_SIZE ∣ start
  pos : 0 < start
  below : start + HEAP_FRAMES * PAGE_SIZE ≤ 2 ^ 63
  heap : Heap.Chain memory.mem memory.heap.head [⟨start, HEAP_FRAMES * PAGE_SIZE⟩]
  frames : ∃ t, FramesRelated regions
    ⟨memory.frames, memory.mem, ⟨[], [⟨start, HEAP_FRAMES⟩]⟩⟩ t
  sameOff : Mem.SameOff (usableBytes regions) m memory.mem

section Up

variable {regions : List MemoryRegion} {m : Mem} {fuel : ℕ} {start size : ℕ}
  {memory : KernelMemory}

/-- `heap::init` on a state in which nothing is held. -/
theorem kernelHeap_init_up (hmap : FirmwareMap regions) {s : FrameState} {heap : Heap}
    (hledger : s.ledger = ⟨[], []⟩)
    {origin : Option FrameAllocator} (hinit : FramesRelated regions (FrameState.start origin m)
      (ListState.init regions))
    (hs : frameMachine.Reachable (FrameState.start origin m) s)
    (hran : KernelHeap.init fuel ⟨s.allocator, heap, s.mem⟩ = .ok (some (start, size), memory)) :
    size = HEAP_FRAMES * PAGE_SIZE ∧ MemoryUp regions m start memory := by
  rw [KernelHeap.init] at hran
  obtain ⟨⟨reply, allocator, m₁⟩, hframes, hthen⟩ := bind_eq_ok.mp hran
  have hallows : s.ledger.Allows (.allocContiguous HEAP_FRAMES) := trivial
  have hnext := FrameState.reachable_answer hs hallows hframes
  cases reply with
  | none => cases (Prod.mk.inj (Except.ok.inj hthen)).1
  | some found =>
    obtain ⟨hregion, rfl⟩ := Prod.mk.inj (Except.ok.inj hthen)
    obtain ⟨rfl, rfl⟩ := Prod.mk.inj (Option.some.inj hregion)
    rw [hledger] at hnext
    obtain ⟨hsame, t, hrelated⟩ := frame_run_sameOff hmap hinit hnext
    have hgranted : (⟨found, HEAP_FRAMES⟩ : FrameRun) ∈ t.ledger.contiguous := by
      rw [← hrelated.ledger_eq]
      exact List.mem_singleton_self _
    have hcount : 0 < HEAP_FRAMES := by decide
    obtain ⟨haligned, hpos, hstop⟩ := hrelated.accounted.run_bounds hmap hgranted hcount
    have hbelow : found + HEAP_FRAMES * PAGE_SIZE ≤ 2 ^ 63 :=
      hstop.trans (Nat.pow_le_pow_right (by decide) (by decide))
    -- The header of the one free block lies in the first frame of the run.
    have hheader : Mem.SameOff (Set.Ico found (found + 16)) m₁
        (Heap.init m₁ found (HEAP_FRAMES * PAGE_SIZE)).2 := FreeBlock.sameOff_write _ _ _
    have hinside : Set.Ico found (found + 16) ⊆
        (FrameRun.span ⟨found, HEAP_FRAMES⟩).bytes := by
      have hroom : 16 ≤ HEAP_FRAMES * PAGE_SIZE := by decide
      exact Set.Ico_subset_Ico_right (Nat.add_le_add_left hroom found)
    refine ⟨rfl, haligned, hpos, hbelow, ?_, ⟨t, ?_⟩, hsame.trans (hheader.mono ?_)⟩
    · exact (related_init (.ofFrames found haligned hpos hbelow) m₁).chain
    · refine hrelated.of_held hmap hheader fun addr haddr ↦ ?_
      obtain ⟨frame, hframe, hin⟩ := FrameRun.mem_span.mp (hinside haddr)
      rw [hrelated.ledger_eq]
      exact ⟨frame, List.mem_append_right _ (List.mem_flatMap.mpr ⟨_, hgranted, hframe⟩), hin⟩
    · exact hinside.trans (hrelated.accounted.span_subset hgranted)

/-- When memory management comes up, the heap has its run and nothing else is held. -/
theorem kernelMainMemory_up (hmap : FirmwareMap regions)
    (hran : kernelMainMemory fuel regions m = .ok (.ok (start, size), memory)) :
    size = HEAP_FRAMES * PAGE_SIZE ∧ MemoryUp regions m start memory := by
  rw [kernelMainMemory] at hran
  obtain ⟨⟨total, allocator⟩, hinit, hthen⟩ := bind_eq_ok.mp hran
  simp only at hthen
  split_ifs at hthen with hzero
  · cases (Prod.mk.inj (Except.ok.inj hthen)).1
  · obtain ⟨installed, hinstalled, hrelated⟩ := init_refines hmap
    have hmax := Frames.init_mono (le_max_left fuel ((runs regions).length + 1)) hinit
    rw [hinstalled _ (lt_of_lt_of_le (Nat.lt_succ_self _) (le_max_right _ _))] at hmax
    obtain ⟨-, rfl⟩ := Prod.mk.inj (Except.ok.inj hmax)
    rw [kernelMainHeap] at hthen
    obtain ⟨⟨checked, frames, m₁⟩, hselftest, hlast⟩ := bind_eq_ok.mp hthen
    obtain ⟨ledger, hafter, hempty⟩ :=
      selftest_client hselftest (Machine.Reachable.start _ (FrameState.start installed m)) rfl
    cases checked with
    | error reason => cases (Prod.mk.inj (Except.ok.inj hlast)).1
    | ok =>
      obtain rfl := hempty rfl
      obtain ⟨⟨region, memory'⟩, hheap, hreport⟩ := bind_eq_ok.mp hlast
      cases region with
      | none => cases (Prod.mk.inj (Except.ok.inj hreport)).1
      | some region =>
        obtain ⟨hregion, rfl⟩ := Prod.mk.inj (Except.ok.inj hreport)
        obtain rfl := Except.ok.inj hregion
        exact kernelHeap_init_up hmap rfl (hrelated m) hafter hheap

end Up

end RustBL
