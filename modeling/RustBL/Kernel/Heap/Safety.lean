import RustBL.Kernel.Heap.Refinement
import Mathlib.Algebra.Order.BigOperators.Group.List

/-!
# Safety of the heap over whole runs

`heapMachine` is the kernel heap with its client: the free list lives in memory, and the client
allocates, frees live allocations and writes any byte of a live block at any time. Its runs start
from `heap::init` over an arbitrary memory.

`heapMachine_simulates` is the refinement step: a state is `Related` to a state of the list version
when the headers in memory list its free blocks and the two agree on what is live. Every step of the
machine is a step of the list version with the same request and the same reply, because the heap
writes to free memory only and a client never does. Safety, canonicity and refinement over whole
runs follow from it and from the invariant of the list version.
-/

set_option autoImplicit false
set_option relaxedAutoImplicit false

namespace RustBL

/-- The heap in memory, and the allocations handed out and not freed. -/
structure HeapState where
  /-- The head of the free list. -/
  heap : Heap
  /-- The memory, which holds the block headers and what clients wrote. -/
  mem : Mem
  /-- The live allocations. -/
  live : List Allocation

/-- The steps of the heap and its client. A client frees live allocations only, and writes only to
bytes of live blocks. -/
inductive HeapStep : HeapState → HeapRequest → ℕ → HeapState → Prop
  | alloc {s : HeapState} {layout : Layout} {fuel p : ℕ} {heap : Heap} {mem : Mem}
      (ran : Heap.alloc fuel s.heap s.mem layout = .ok (p, heap, mem)) :
      HeapStep s (.alloc layout) p ⟨heap, mem, if p = 0 then s.live else ⟨p, layout⟩ :: s.live⟩
  | dealloc {s : HeapState} {a : Allocation} {fuel : ℕ} {heap : Heap} {mem : Mem}
      (live : a ∈ s.live) (ran : Heap.dealloc fuel s.heap s.mem a.ptr a.layout = .ok (heap, mem)) :
      HeapStep s (.dealloc a) 0 ⟨heap, mem, s.live.erase a⟩
  | write {s : HeapState} {a : Allocation} {addr : ℕ} {byte : UInt8} (live : a ∈ s.live)
      (inside : addr ∈ a.block.bytes) :
      HeapStep s (.write addr byte) 0 ⟨s.heap, Function.update s.mem addr byte, s.live⟩

/-- The heap in memory with its client. -/
def heapMachine : Machine HeapState HeapRequest ℕ :=
  ⟨HeapStep⟩

/-- The state `heap::init` leaves over the memory `m`. -/
def heapInit (arena : Arena) (m : Mem) : HeapState :=
  ⟨(Heap.init m arena.start arena.size).1, (Heap.init m arena.start arena.size).2, []⟩

/-- The free list of a state, read along the chain of headers from the head. -/
def FreeList (s : HeapState) (free : List Span) : Prop :=
  Heap.Chain s.mem s.heap.head free

/-- The headers in memory list the free blocks of a canonical list state, with the same allocations
live. -/
structure Related (arena : Arena) (s : HeapState) (t : BlockState) : Prop where
  canonical : Canonical arena t
  live_eq : s.live = t.live
  chain : FreeList s t.free

section Simulation

variable {arena : Arena} {s : HeapState} {t : BlockState}

theorem Canonical.placed (h : Canonical arena t) : Heap.Placed t.free :=
  ⟨h.separated, h.onGrid, fun _ hb ↦ h.bounds hb⟩

/-- A live block starts off the null page and ends at or below `2 ^ 63`. -/
theorem Canonical.live_bounds (h : Canonical arena t) {a : Allocation} (ha : a ∈ t.live) :
    arena.start ≤ a.ptr ∧ a.block.stop ≤ arena.start + arena.size :=
  Span.bounds_of_subset a.block_size_pos (h.inside a ha)

theorem related_init (arena : Arena) (m : Mem) :
    Related arena (heapInit arena m) (blockInit arena) := by
  have hsize : arena.size < 2 ^ 64 := by
    have hpos := arena.pos
    have hbelow := arena.below
    omega
  have hread : FreeBlock.read (FreeBlock.write m arena.start ⟨arena.size, 0⟩) arena.start =
      ⟨arena.size, 0⟩ := FreeBlock.read_write hsize (by norm_num)
  exact ⟨canonical_init arena, rfl, arena.pos.ne', rfl, congrArg FreeBlock.size hread,
    congrArg FreeBlock.next hread⟩

/-- `alloc` on a related state: the outcome is the outcome of the list version, and only free memory
is written. -/
theorem Related.alloc (h : Related arena s t) (layout : Layout) {fuel : ℕ}
    (hfuel : t.free.length < fuel) :
    (Heap.alloc fuel s.heap s.mem layout = .ok (0, s.heap, s.mem) ∧
        blockMachine.Step t (.alloc layout) 0 t) ∨
      ∃ p heap mem free, Heap.alloc fuel s.heap s.mem layout = .ok (p, heap, mem) ∧ p ≠ 0 ∧
        blockMachine.Step t (.alloc layout) p ⟨free, ⟨p, layout⟩ :: t.live⟩ ∧
        Heap.Chain mem heap.head free ∧ Mem.SameOff (cover t.free) s.mem mem := by
  obtain ⟨hnone, hsome⟩ := Heap.alloc_refines layout h.canonical.placed h.chain hfuel
  cases halloc : BlockList.alloc layout.blockSize layout.blockAlign t.free with
  | none => exact Or.inl ⟨hnone halloc, .outOfMemory halloc⟩
  | some found =>
    obtain ⟨p, free⟩ := found
    obtain ⟨heap, mem, hran, hchain, hsame⟩ := hsome p free halloc
    have hp : p ≠ 0 := by
      have hlow := ((h.canonical.alloc halloc).live_bounds List.mem_cons_self).1
      have hpos := arena.pos
      simp only at hlow
      omega
    exact Or.inr ⟨p, heap, mem, free, hran, hp, .alloc halloc, hchain, hsame⟩

/-- `dealloc` of a live allocation on a related state: the outcome is the outcome of the list
version, and only free memory and the returned block are written. -/
theorem Related.dealloc (h : Related arena s t) {a : Allocation} (ha : a ∈ t.live) {fuel : ℕ}
    (hfuel : t.free.length < fuel) :
    ∃ heap mem, Heap.dealloc fuel s.heap s.mem a.ptr a.layout = .ok (heap, mem) ∧
      Heap.Chain mem heap.head (BlockList.dealloc a.ptr a.layout.blockSize t.free) ∧
      Mem.SameOff (cover t.free ∪ a.block.bytes) s.mem mem := by
  obtain ⟨hlow, hhigh⟩ := h.canonical.live_bounds ha
  have hpos := arena.pos
  have hbelow := arena.below
  have hstop : a.block.stop = a.ptr + a.layout.blockSize := rfl
  exact Heap.dealloc_refines a.layout h.canonical.placed h.chain hfuel (by omega) (by omega)
    fun b hb ↦ h.canonical.apart_free ha hb

/-- Every step of the heap in memory is a step of the list version. -/
theorem heapMachine_simulates {request : HeapRequest} {reply : ℕ} {next : HeapState}
    (h : Related arena s t) (hstep : heapMachine.Step s request reply next) :
    ∃ next', blockMachine.Step t request reply next' ∧ Related arena next next' := by
  cases hstep with
  | @alloc layout fuel _ heap mem ran =>
    rcases h.alloc layout (Nat.lt_succ_self _) with ⟨hran, hblock⟩ |
        ⟨p', heap', mem', free, hran, hp, hblock, hchain, _⟩
    · obtain ⟨rfl, rfl, rfl⟩ := Heap.alloc_unique ran hran
      exact ⟨t, hblock, h⟩
    · obtain ⟨rfl, rfl, rfl⟩ := Heap.alloc_unique ran hran
      refine ⟨_, hblock, canonical_step h.canonical hblock, ?_, hchain⟩
      rw [if_neg hp, h.live_eq]
  | @dealloc a fuel heap mem live ran =>
    rw [h.live_eq] at live
    obtain ⟨heap', mem', hran, hchain, _⟩ := h.dealloc live (Nat.lt_succ_self _)
    obtain ⟨rfl, rfl⟩ := Heap.dealloc_unique ran hran
    exact ⟨_, .dealloc live, canonical_step h.canonical (.dealloc live), by rw [h.live_eq], hchain⟩
  | @write a addr byte live inside =>
    rw [h.live_eq] at live
    refine ⟨t, .write live inside, h.canonical, h.live_eq, ?_⟩
    -- The client writes inside a live block, so every header keeps its bytes.
    have hsame : Mem.SameOff a.block.bytes s.mem (Function.update s.mem addr byte) := by
      intro other hother
      have hne : other ≠ addr := fun heq ↦ hother (heq.symm ▸ inside)
      exact Function.update_of_ne hne _ _
    exact h.chain.of_sameOff hsame h.canonical.placed.grain_le fun b hb ↦
      (h.canonical.apart_free live hb).disjoint

/-- Every run of the heap in memory is matched by a run of the list version with the same trace. -/
theorem run_related {m : Mem} {trace : List (HeapRequest × ℕ)}
    (hrun : heapMachine.Run (heapInit arena m) trace s) :
    ∃ t, blockMachine.Run (blockInit arena) trace t ∧ Related arena s t :=
  hrun.simulate (Related arena) (fun _ _ _ _ _ h hstep ↦ heapMachine_simulates h hstep)
    (related_init arena m)

theorem reachable_related {m : Mem} (hs : heapMachine.Reachable (heapInit arena m) s) :
    ∃ t, Related arena s t := by
  obtain ⟨trace, hrun⟩ := hs
  obtain ⟨t, _, h⟩ := run_related hrun
  exact ⟨t, h⟩

end Simulation

/-! ### Whole runs -/

/-- What the heap promises of a live allocation: it is aligned as asked and on the grid, its block
is at least as long as asked and lies inside the arena, and the block meets neither the block of
another live allocation nor a free block. -/
structure Served (arena : Arena) (live : List Allocation) (free : List Span) (a : Allocation) :
    Prop where
  align_dvd : a.layout.align ∣ a.ptr
  grain_dvd : GRAIN ∣ a.ptr
  size_le : a.layout.size ≤ a.block.size
  inside : arena.start ≤ a.ptr ∧ a.block.stop ≤ arena.start + arena.size
  apart_live : ∀ b ∈ live.erase a, a.block.Apart b.block
  apart_free : ∀ b ∈ free, a.block.Apart b

section Runs

variable {arena : Arena} {m : Mem} {s : HeapState} {t : BlockState}

theorem Canonical.served (h : Canonical arena t) {a : Allocation} (ha : a ∈ t.live) :
    Served arena t.live t.free a := by
  have hsym : ∀ {x y : Allocation}, x.block.Apart y.block → y.block.Apart x.block :=
    fun hxy ↦ hxy.symm
  have hothers := (List.perm_cons_erase ha).pairwise_iff hsym |>.mp h.apart
  exact ⟨(h.aligned a ha).1, (h.aligned a ha).2, a.layout.size_le_blockSize, h.live_bounds ha,
    (List.pairwise_cons.mp hothers).1, fun b hb ↦ (h.apart_free ha hb).symm⟩

theorem Related.served (h : Related arena s t) {a : Allocation} (ha : a ∈ s.live) :
    Served arena s.live t.free a := by
  rw [h.live_eq] at ha ⊢
  exact h.canonical.served ha

/-- A related state answers every request a client may make. -/
theorem Related.answers (h : Related arena s t) :
    (∀ layout, ∃ p next, heapMachine.Step s (.alloc layout) p next) ∧
      ∀ a ∈ s.live, ∃ next, heapMachine.Step s (.dealloc a) 0 next := by
  refine ⟨fun layout ↦ ?_, fun a ha ↦ ?_⟩
  · rcases h.alloc layout (Nat.lt_succ_self _) with ⟨hran, _⟩ | ⟨p, heap, mem, _, hran, _⟩
    · exact ⟨0, _, .alloc hran⟩
    · exact ⟨p, _, .alloc hran⟩
  · obtain ⟨heap, mem, hran, _⟩ := h.dealloc (h.live_eq ▸ ha) (Nat.lt_succ_self _)
    exact ⟨_, .dealloc ha hran⟩

/-- The free bytes and the live bytes of a related state make up the arena. -/
theorem Related.freeBytes_eq (h : Related arena s t) :
    BlockList.freeBytes t.free = arena.size - ((liveBlocks s.live).map Span.size).sum := by
  have hbalance := h.canonical.balance
  rw [h.live_eq]
  simp only [BlockList.freeBytes] at hbalance ⊢
  omega

theorem Related.freeBytes_le (h : Related arena s t) :
    BlockList.freeBytes t.free ≤ arena.size := by
  have hbalance := h.canonical.balance
  omega

/-- Every block has a byte of its own, so there are no more blocks than free bytes. -/
theorem Canonical.length_free_le (h : Canonical arena t) :
    t.free.length ≤ BlockList.freeBytes t.free := by
  have hpos : ∀ size ∈ t.free.map Span.size, 1 ≤ size := by
    intro size hsize
    obtain ⟨b, hb, rfl⟩ := List.mem_map.mp hsize
    exact h.separated.nonempty b hb
  have hcard := List.card_nsmul_le_sum _ 1 hpos
  simpa [BlockList.freeBytes] using hcard

/-- Both measuring walks of a related state end with the measure of the list of free blocks. -/
theorem Related.measures (h : Related arena s t) {fuel : ℕ} (hfuel : t.free.length < fuel) :
    Heap.freeBytes fuel s.heap s.mem = .ok (BlockList.freeBytes t.free) ∧
      Heap.freeBlocks fuel s.heap s.mem = .ok t.free.length := by
  have hbytes := h.freeBytes_le
  have hlength := h.canonical.length_free_le
  have hbelow := arena.below
  constructor
  · rw [Heap.freeBytes, Heap.loop_freeBytesTurn h.chain hfuel (by omega), Nat.zero_add]
  · rw [Heap.freeBlocks, Heap.loop_freeBlocksTurn h.chain hfuel (by omega), Nat.zero_add]

/-- An `alloc` or a `dealloc` leaves every byte of an allocation that stays live as it was. -/
theorem Related.keeps_live (h : Related arena s t) {request : HeapRequest} {reply : ℕ}
    {next : HeapState} (hstep : heapMachine.Step s request reply next)
    (hheap : ∀ addr byte, request ≠ .write addr byte) {a : Allocation} (ha : a ∈ s.live)
    (hnext : a ∈ next.live) {addr : ℕ} (haddr : addr ∈ a.block.bytes) :
    next.mem addr = s.mem addr := by
  have hfree : addr ∉ cover t.free :=
    Set.disjoint_left.mp (h.canonical.disjoint_free (h.live_eq ▸ ha)) haddr
  cases hstep with
  | @alloc layout fuel _ heap mem ran =>
    rcases h.alloc layout (Nat.lt_succ_self _) with ⟨hran, _⟩ |
        ⟨p, heap', mem', free, hran, _, _, _, hsame⟩
    · obtain ⟨rfl, rfl, rfl⟩ := Heap.alloc_unique ran hran
      rfl
    · obtain ⟨rfl, rfl, rfl⟩ := Heap.alloc_unique ran hran
      exact hsame addr hfree
  | @dealloc b fuel heap mem live ran =>
    obtain ⟨heap', mem', hran, _, hsame⟩ := h.dealloc (h.live_eq ▸ live) (Nat.lt_succ_self _)
    obtain ⟨rfl, rfl⟩ := Heap.dealloc_unique ran hran
    refine hsame addr ?_
    rintro (hin | hin)
    · exact hfree hin
    · exact Set.disjoint_left.mp ((h.served live).apart_live a hnext).disjoint hin haddr
  | @write _ addr' byte => exact absurd rfl (hheap addr' byte)

/-- Safety of the heap over whole runs. In every reachable state each live allocation is served,
every request is answered, and a non-null reply of `alloc` is live and served in the next state. -/
theorem heap_safe (arena : Arena) (m : Mem)
    (hs : heapMachine.Reachable (heapInit arena m) s) :
    (∃ free, FreeList s free ∧ ∀ a ∈ s.live, Served arena s.live free a) ∧
      (∀ layout, ∃ p next, heapMachine.Step s (.alloc layout) p next) ∧
      (∀ a ∈ s.live, ∃ next, heapMachine.Step s (.dealloc a) 0 next) ∧
      ∀ layout p next, heapMachine.Step s (.alloc layout) p next → p ≠ 0 →
        next.live = ⟨p, layout⟩ :: s.live ∧
          ∃ free, FreeList next free ∧ Served arena next.live free ⟨p, layout⟩ := by
  obtain ⟨t, h⟩ := reachable_related hs
  refine ⟨⟨t.free, h.chain, fun a ha ↦ h.served ha⟩, h.answers.1, h.answers.2, ?_⟩
  intro layout p next hstep hp
  obtain ⟨t', h'⟩ := reachable_related (hs.step hstep)
  have hlive : next.live = ⟨p, layout⟩ :: s.live := by
    cases hstep with
    | alloc => exact if_neg hp
  exact ⟨hlive, t'.free, h'.chain, h'.served (hlive ▸ List.mem_cons_self)⟩

/-- The arena of the first megabyte boundary. -/
def megabyteArena : Arena :=
  .ofFrames 0x100000 (by decide) (by decide) (by decide)

/-- A request for three words. -/
def threeWords : Layout :=
  ⟨24, 8, ⟨3, by decide, rfl⟩, by decide⟩

/-- The state after `threeWords` has been allocated from `megabyteArena`. -/
def afterThreeWords : HeapState :=
  ⟨⟨0x100020⟩, FreeBlock.write (heapInit megabyteArena fun _ ↦ 0).mem 0x100020 ⟨0xfffe0, 0⟩,
    [⟨0x100000, threeWords⟩]⟩

/-- The heap gets from its start to `afterThreeWords` in one step. -/
theorem run_threeWords : heapMachine.Run (heapInit megabyteArena fun _ ↦ 0)
    [(.alloc threeWords, 0x100000)] afterThreeWords :=
  .snoc .nil (@HeapStep.alloc (heapInit megabyteArena fun _ ↦ 0) threeWords 1 0x100000 ⟨0x100020⟩
    afterThreeWords.mem rfl)

theorem heap_safe_threeWords :
    ∃ free, FreeList afterThreeWords free ∧
      Served megabyteArena afterThreeWords.live free ⟨0x100000, threeWords⟩ := by
  obtain ⟨⟨free, hfree, hserved⟩, _⟩ := heap_safe megabyteArena _ ⟨_, run_threeWords⟩
  exact ⟨free, hfree, hserved _ List.mem_cons_self⟩

/-- The free list is canonical. In every reachable state it is the address-ordered list of the
maximal gaps between the live blocks; its bytes and the live bytes make up the arena; every other
history over the arena that leaves the same blocks live leaves the same list; and with nothing live
it is the single block of `heap::init`. -/
theorem heap_free_list_canonical (arena : Arena) (m : Mem)
    (hs : heapMachine.Reachable (heapInit arena m) s) :
    ∃ free, FreeList s free ∧
      (free.Pairwise fun b c ↦ b.stop < c.start) ∧
      (∀ b, b ∈ free ↔ IsMaximalIn (arena.span.bytes \ cover (liveBlocks s.live)) b) ∧
      ((liveBlocks s.live).map Span.size).sum ≤ arena.size ∧
      (∀ fuel, free.length < fuel → Heap.freeBytes fuel s.heap s.mem =
        .ok (arena.size - ((liveBlocks s.live).map Span.size).sum)) ∧
      (∀ m' s', heapMachine.Reachable (heapInit arena m') s' →
        (∀ b, b ∈ liveBlocks s.live ↔ b ∈ liveBlocks s'.live) → FreeList s' free) ∧
      (s.live = [] → free = [arena.span] ∧
        ∀ fuel, 1 < fuel → Heap.freeBlocks fuel s.heap s.mem = .ok 1) := by
  obtain ⟨t, h⟩ := reachable_related hs
  refine ⟨t.free, h.chain, h.canonical.separated.gaps, fun b ↦ ?_, ?_, fun fuel hfuel ↦ ?_, ?_, ?_⟩
  · rw [h.live_eq]
    exact h.canonical.mem_free_iff
  · rw [h.live_eq]
    exact (Nat.le_add_left _ _).trans_eq h.canonical.balance
  · rw [(h.measures hfuel).1, h.freeBytes_eq]
  · intro m' s' hs' hlive
    obtain ⟨t', h'⟩ := reachable_related hs'
    rw [h.live_eq, h'.live_eq] at hlive
    rw [h.canonical.free_eq h'.canonical hlive]
    exact h'.chain
  · intro hlive
    have hfree : t.free = [arena.span] := h.canonical.free_of_live_nil (h.live_eq ▸ hlive)
    have hlength : t.free.length = 1 := by rw [hfree]; rfl
    refine ⟨hfree, fun fuel hfuel ↦ ?_⟩
    rw [(h.measures (hlength.trans_lt hfuel)).2, hlength]

theorem heap_free_list_canonical_threeWords :
    ∃ free, FreeList afterThreeWords free ∧
      ∀ fuel, free.length < fuel →
        Heap.freeBytes fuel afterThreeWords.heap afterThreeWords.mem = .ok 0xfffe0 := by
  obtain ⟨free, hfree, _, _, _, hbytes, _⟩ :=
    heap_free_list_canonical megabyteArena _ ⟨_, run_threeWords⟩
  exact ⟨free, hfree, hbytes⟩

/-- The heap in memory refines the list version. Every run is a run of the list version with the
same pointers, the chain of headers reads exactly its free blocks, every walk over the chain ends,
and no `alloc` or `dealloc` changes a byte of an allocation that stays live. -/
theorem heap_refines_blocks (arena : Arena) (m : Mem) {trace : List (HeapRequest × ℕ)}
    (hrun : heapMachine.Run (heapInit arena m) trace s) :
    ∃ t, blockMachine.Run (blockInit arena) trace t ∧ s.live = t.live ∧ FreeList s t.free ∧
      (∀ fuel, t.free.length < fuel →
        (∀ layout, ∃ outcome, Heap.alloc fuel s.heap s.mem layout = .ok outcome) ∧
        (∀ a ∈ s.live, ∃ outcome, Heap.dealloc fuel s.heap s.mem a.ptr a.layout = .ok outcome) ∧
        Heap.freeBytes fuel s.heap s.mem = .ok (BlockList.freeBytes t.free) ∧
        Heap.freeBlocks fuel s.heap s.mem = .ok t.free.length) ∧
      ∀ request reply next, heapMachine.Step s request reply next →
        (∀ addr byte, request ≠ .write addr byte) →
        ∀ a ∈ s.live, a ∈ next.live → ∀ addr ∈ a.block.bytes, next.mem addr = s.mem addr := by
  obtain ⟨t, hblocks, h⟩ := run_related hrun
  refine ⟨t, hblocks, h.live_eq, h.chain, fun fuel hfuel ↦ ⟨?_, ?_, h.measures hfuel⟩, ?_⟩
  · intro layout
    rcases h.alloc layout hfuel with ⟨hran, _⟩ | ⟨p, heap, mem, _, hran, _⟩
    · exact ⟨_, hran⟩
    · exact ⟨_, hran⟩
  · intro a ha
    obtain ⟨heap, mem, hran, _⟩ := h.dealloc (h.live_eq ▸ ha) hfuel
    exact ⟨_, hran⟩
  · intro request reply next hstep hheap a ha hnext addr haddr
    exact h.keeps_live hstep hheap ha hnext haddr

theorem heap_refines_blocks_threeWords :
    ∃ t, blockMachine.Run (blockInit megabyteArena) [(.alloc threeWords, 0x100000)] t ∧
      FreeList afterThreeWords t.free := by
  obtain ⟨t, hblocks, _, hfree, _⟩ := heap_refines_blocks megabyteArena _ run_threeWords
  exact ⟨t, hblocks, hfree⟩

end Runs

end RustBL
