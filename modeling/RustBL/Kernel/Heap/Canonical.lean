import RustBL.Kernel.Heap.BlockList
import RustBL.Library.Runs
import Mathlib.Data.List.Perm.Basic

/-!
# The free list of a run is canonical

A client of the heap makes requests: it allocates, frees an allocation that is live, and writes into
the blocks of its live allocations. `blockMachine` answers them with the operations on a plain list
of blocks.

`Canonical` is the invariant of its runs. The free list is separated and on the grid, it covers
exactly the part of the arena that no live block covers, live blocks are aligned, inside the arena
and apart from each other, and the free and the live bytes add up to the arena. `canonical_step`
preserves it, one case for each request.

A separated list is determined by what it covers, so a canonical free list is determined by the live
blocks: it is the list of the maximal gaps between them (`Canonical.mem_free_iff`), two histories
that leave the same blocks live leave the same list (`Canonical.free_eq`), and with nothing live the
list is the arena again (`Canonical.free_of_live_nil`).
-/

set_option autoImplicit false
set_option relaxedAutoImplicit false

namespace RustBL

/-- A memory region `Heap::init` can take over: page-aligned, not null, of a size on the grid, and
below `2 ^ 63`. -/
structure Arena where
  /-- The address of the first byte. -/
  start : ℕ
  /-- The number of bytes. -/
  size : ℕ
  aligned : PAGE_SIZE ∣ start
  size_dvd : GRAIN ∣ size
  pos : 0 < start
  size_pos : 0 < size
  below : start + size ≤ 2 ^ 63

namespace Arena

/-- The region `heap::init` claims, from its first frame on. -/
def ofFrames (start : ℕ) (aligned : PAGE_SIZE ∣ start) (pos : 0 < start)
    (below : start + HEAP_FRAMES * PAGE_SIZE ≤ 2 ^ 63) : Arena :=
  ⟨start, HEAP_FRAMES * PAGE_SIZE, aligned, by decide, pos, by decide, below⟩

/-- The arena as one block. -/
def span (arena : Arena) : Span :=
  ⟨arena.start, arena.size⟩

theorem grain_dvd (arena : Arena) : GRAIN ∣ arena.span.start ∧ GRAIN ∣ arena.span.size :=
  ⟨dvd_trans (by decide) arena.aligned, arena.size_dvd⟩

end Arena

/-- An allocation: the pointer it returned and the layout it was asked for. -/
structure Allocation where
  /-- The pointer. -/
  ptr : ℕ
  /-- The layout. -/
  layout : Layout
  deriving DecidableEq

/-- The block an allocation takes: its normalised size from its pointer on. -/
def Allocation.block (a : Allocation) : Span :=
  ⟨a.ptr, a.layout.blockSize⟩

theorem Allocation.block_size_pos (a : Allocation) : 0 < a.block.size :=
  lt_of_lt_of_le (by decide) a.layout.grain_le_blockSize

/-- What a client asks of the heap, or does to the memory of a live allocation. -/
inductive HeapRequest
  /-- `alloc(layout)`. -/
  | alloc (layout : Layout)
  /-- `dealloc(a.ptr, a.layout)`. -/
  | dealloc (a : Allocation)
  /-- The client writes `byte` to `addr`. -/
  | write (addr : ℕ) (byte : UInt8)

/-- The list version of the heap: the free blocks, and the allocations handed out and not freed. -/
structure BlockState where
  /-- The free list. -/
  free : List Span
  /-- The live allocations. -/
  live : List Allocation

/-- The live blocks of a list of allocations. -/
def liveBlocks (live : List Allocation) : List Span :=
  live.map Allocation.block

@[simp] theorem liveBlocks_cons (a : Allocation) (live : List Allocation) :
    liveBlocks (a :: live) = a.block :: liveBlocks live :=
  rfl

/-- The steps of the list version. A `dealloc` names a live allocation and a write goes to a byte of
one; an `alloc` that finds no block replies null. -/
inductive BlockStep : BlockState → HeapRequest → ℕ → BlockState → Prop
  | alloc {s : BlockState} {layout : Layout} {p : ℕ} {free : List Span}
      (found : BlockList.alloc layout.blockSize layout.blockAlign s.free = some (p, free)) :
      BlockStep s (.alloc layout) p ⟨free, ⟨p, layout⟩ :: s.live⟩
  | outOfMemory {s : BlockState} {layout : Layout}
      (full : BlockList.alloc layout.blockSize layout.blockAlign s.free = none) :
      BlockStep s (.alloc layout) 0 s
  | dealloc {s : BlockState} {a : Allocation} (live : a ∈ s.live) :
      BlockStep s (.dealloc a) 0
        ⟨BlockList.dealloc a.ptr a.layout.blockSize s.free, s.live.erase a⟩
  | write {s : BlockState} {a : Allocation} {addr : ℕ} {byte : UInt8} (live : a ∈ s.live)
      (inside : addr ∈ a.block.bytes) : BlockStep s (.write addr byte) 0 s

/-- The heap on a plain list of blocks. -/
def blockMachine : Machine BlockState HeapRequest ℕ :=
  ⟨BlockStep⟩

/-- The list version after `heap::init`: one free block, nothing live. -/
def blockInit (arena : Arena) : BlockState :=
  ⟨[arena.span], []⟩

/-! ### The invariant -/

/-- The free list and the live allocations of a heap over `arena`. -/
structure Canonical (arena : Arena) (s : BlockState) : Prop where
  separated : Separated s.free
  onGrid : BlockList.OnGrid s.free
  cover_free : cover s.free = arena.span.bytes \ cover (liveBlocks s.live)
  inside : ∀ a ∈ s.live, a.block.bytes ⊆ arena.span.bytes
  aligned : ∀ a ∈ s.live, a.layout.align ∣ a.ptr ∧ GRAIN ∣ a.ptr
  apart : s.live.Pairwise fun a b ↦ a.block.Apart b.block
  balance : BlockList.freeBytes s.free + BlockList.freeBytes (liveBlocks s.live) = arena.size

theorem canonical_init (arena : Arena) : Canonical arena (blockInit arena) where
  separated := separated_singleton arena.size_pos
  onGrid := BlockList.onGrid_cons.mpr ⟨arena.grain_dvd, fun _ hc ↦ nomatch hc⟩
  cover_free := by simp [blockInit, liveBlocks]
  inside := fun _ ha ↦ nomatch ha
  aligned := fun _ ha ↦ nomatch ha
  apart := List.Pairwise.nil
  balance := rfl

section Canonical

variable {arena : Arena} {s : BlockState}

/-- A free block lies inside the arena and starts off the null page. -/
theorem Canonical.bounds (h : Canonical arena s) {b : Span} (hb : b ∈ s.free) :
    0 < b.start ∧ b.stop ≤ 2 ^ 63 := by
  have hsub : b.bytes ⊆ arena.span.bytes := by
    refine (bytes_subset_cover hb).trans ?_
    rw [h.cover_free]
    exact Set.sdiff_subset
  obtain ⟨hlow, hhigh⟩ := Span.bounds_of_subset (h.separated.nonempty b hb) hsub
  have hpos := arena.pos
  have hbelow := arena.below
  simp only [Arena.span, Span.stop] at hlow hhigh ⊢
  omega

/-- A live block meets no free block. -/
theorem Canonical.disjoint_free (h : Canonical arena s) {a : Allocation} (ha : a ∈ s.live) :
    Disjoint a.block.bytes (cover s.free) := by
  rw [h.cover_free]
  refine Set.disjoint_of_subset_left ?_ Set.disjoint_sdiff_right
  exact bytes_subset_cover (List.mem_map_of_mem ha)

theorem Canonical.apart_free (h : Canonical arena s) {a : Allocation} (ha : a ∈ s.live) {b : Span}
    (hb : b ∈ s.free) : b.Apart a.block :=
  Span.apart_of_disjoint (h.separated.nonempty b hb) a.block_size_pos
    ((h.disjoint_free ha).mono_right (bytes_subset_cover hb)).symm

/-- A carved block becomes live. -/
theorem Canonical.alloc (h : Canonical arena s) {layout : Layout} {p : ℕ} {free : List Span}
    (halloc : BlockList.alloc layout.blockSize layout.blockAlign s.free = some (p, free)) :
    Canonical arena ⟨free, ⟨p, layout⟩ :: s.live⟩ := by
  have hpos : 0 < layout.blockSize := layout.normalised.size_pos
  obtain ⟨hlayout, hgrain⟩ := layout.dvd_blockAlign
  obtain ⟨⟨b, hb, hp, hinside⟩, hsep, hgrid, hcover, hbytes⟩ :=
    BlockList.alloc_spec layout.normalised h.separated h.onGrid halloc
  have hdvd : layout.blockAlign ∣ p := by
    rw [hp]
    exact dvd_roundUp _ layout.normalised.align_pos
  have hfree : (Span.mk p layout.blockSize).bytes ⊆ cover s.free :=
    hinside.trans (bytes_subset_cover hb)
  refine ⟨hsep, hgrid, ?_, ?_, ?_, ?_, ?_⟩
  · rw [hcover, h.cover_free, liveBlocks_cons, cover_cons, Set.sdiff_sdiff, Set.union_comm]
    rfl
  · refine List.forall_mem_cons.mpr ⟨?_, h.inside⟩
    rw [h.cover_free] at hfree
    exact hfree.trans Set.sdiff_subset
  · exact List.forall_mem_cons.mpr ⟨⟨hlayout.trans hdvd, hgrain.trans hdvd⟩, h.aligned⟩
  · refine List.pairwise_cons.mpr ⟨fun a ha ↦ ?_, h.apart⟩
    exact Span.apart_of_disjoint hpos a.block_size_pos
      (Set.disjoint_of_subset_left hfree (h.disjoint_free ha).symm)
  · have hbalance := h.balance
    simp only [liveBlocks_cons, BlockList.freeBytes_cons, Allocation.block] at hbalance ⊢
    omega

/-- A returned block becomes free. -/
theorem Canonical.dealloc (h : Canonical arena s) {a : Allocation} (ha : a ∈ s.live) :
    Canonical arena ⟨BlockList.dealloc a.ptr a.layout.blockSize s.free, s.live.erase a⟩ := by
  have hpos : 0 < a.layout.blockSize := a.block_size_pos
  obtain ⟨hsep, hgrid, hcover, hbytes⟩ := BlockList.dealloc_spec hpos (h.aligned a ha).2
    a.layout.grain_dvd_blockSize h.separated h.onGrid fun b hb ↦ h.apart_free ha hb
  have hperm : s.live.Perm (a :: s.live.erase a) := List.perm_cons_erase ha
  have hblocks : (liveBlocks s.live).Perm (a.block :: liveBlocks (s.live.erase a)) :=
    hperm.map Allocation.block
  have hsym : ∀ {x y : Allocation}, x.block.Apart y.block → y.block.Apart x.block :=
    fun hxy ↦ hxy.symm
  obtain ⟨haway, hrest⟩ := List.pairwise_cons.mp ((hperm.pairwise_iff hsym).mp h.apart)
  have hsubset : s.live.erase a ⊆ s.live := List.erase_subset
  refine ⟨hsep, hgrid, ?_, fun b hb ↦ h.inside b (hsubset hb), fun b hb ↦ h.aligned b (hsubset hb),
    hrest, ?_⟩
  · -- The returned block lies in the arena and meets no block that stays live.
    have hlive : cover (liveBlocks s.live) =
        a.block.bytes ∪ cover (liveBlocks (s.live.erase a)) := by
      rw [cover_congr fun b ↦ hblocks.mem_iff, cover_cons]
    have hdisjoint : Disjoint a.block.bytes (cover (liveBlocks (s.live.erase a))) := by
      rw [Set.disjoint_left]
      rintro addr haddr ⟨b, hb, hin⟩
      obtain ⟨c, hc, rfl⟩ := List.mem_map.mp hb
      exact Set.disjoint_left.mp (haway c hc).disjoint haddr hin
    have hinside := h.inside a ha
    rw [hcover, h.cover_free, hlive]
    ext addr
    have hin : addr ∈ a.block.bytes → addr ∈ arena.span.bytes ∧
        addr ∉ cover (liveBlocks (s.live.erase a)) :=
      fun haddr ↦ ⟨hinside haddr, Set.disjoint_left.mp hdisjoint haddr⟩
    have hblock : (Span.mk a.ptr a.layout.blockSize).bytes = a.block.bytes := rfl
    rw [hblock]
    simp only [Set.mem_union, Set.mem_sdiff]
    tauto
  · have hsum : BlockList.freeBytes (liveBlocks s.live) =
        a.block.size + BlockList.freeBytes (liveBlocks (s.live.erase a)) := by
      rw [← BlockList.freeBytes_cons, BlockList.freeBytes, BlockList.freeBytes,
        (hblocks.map Span.size).sum_nat]
    have hsize : a.block.size = a.layout.blockSize := rfl
    have hbalance := h.balance
    simp only
    omega

/-- Every step of the list version keeps the invariant. -/
theorem canonical_step {request : HeapRequest} {reply : ℕ} {next : BlockState}
    (h : Canonical arena s) (hstep : blockMachine.Step s request reply next) :
    Canonical arena next := by
  cases hstep with
  | alloc found => exact h.alloc found
  | outOfMemory => exact h
  | dealloc live => exact h.dealloc live
  | write => exact h

/-! ### What a canonical list is -/

/-- The members of the free list are the maximal gaps between the live blocks. -/
theorem Canonical.mem_free_iff (h : Canonical arena s) {b : Span} :
    b ∈ s.free ↔ IsMaximalIn (arena.span.bytes \ cover (liveBlocks s.live)) b := by
  rw [h.separated.mem_iff_isMaximalIn, h.cover_free]

/-- The free list depends on the set of live blocks only. -/
theorem Canonical.free_eq {t : BlockState} (h : Canonical arena s) (h' : Canonical arena t)
    (hlive : ∀ b, b ∈ liveBlocks s.live ↔ b ∈ liveBlocks t.live) : s.free = t.free := by
  refine h.separated.eq_of_cover_eq h'.separated ?_
  rw [h.cover_free, h'.cover_free, cover_congr hlive]

/-- With nothing live the free list is the one block of `heap::init`. -/
theorem Canonical.free_of_live_nil (h : Canonical arena s) (hlive : s.live = []) :
    s.free = [arena.span] :=
  h.free_eq (canonical_init arena) fun b ↦ by rw [hlive]; rfl

end Canonical

end RustBL
