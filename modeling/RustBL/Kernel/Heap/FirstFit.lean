import RustBL.Kernel.Heap.Safety
import Mathlib.Order.Bounds.Basic

/-!
# The heap serves the lowest address

`Heap.alloc` looks at one address of each free block, the first aligned one, and stops at the first
block in which the request fits from there. That misses nothing. A block inside the free part of the
arena lies inside one free block, because free blocks leave gaps (`BlockList.fits_of_subset_cover`);
inside a free block the first aligned address is the lowest; and the list is in address order. So a
reply is the least address at which the request could be served at all, and null means that there is
no such address (`heap_first_fit`).
-/

set_option autoImplicit false
set_option relaxedAutoImplicit false

namespace RustBL

/-! ### First fit on a list -/

namespace BlockList

section FirstFit

variable {size align p : ℕ} {blocks blocks' : List Span}

/-- A request that has room at an aligned address fits in the free block around it, from the first
aligned address of that block on. -/
theorem fits_of_subset_cover (hsep : Separated blocks) (hsize : 0 < size) (hdvd : align ∣ p)
    (hsub : (Span.mk p size).bytes ⊆ cover blocks) :
    ∃ b ∈ blocks, b.start ≤ p ∧ roundUp b.start align ≤ p ∧ Fits size align b := by
  obtain ⟨b, hb, hstart, hstop⟩ := hsep.exists_of_subset_cover hsize hsub
  have hround : roundUp b.start align ≤ p := roundUp_le hstart hdvd
  refine ⟨b, hb, hstart, hround, ?_⟩
  have hle := le_roundUp b.start align
  simp only [Span.stop] at hstop
  rw [Fits]
  omega

/-- `alloc` returns the least aligned address with room for the request in the free part. -/
theorem alloc_isLeast (hnorm : Normalised size align) (hsep : Separated blocks)
    (hgrid : OnGrid blocks) (h : alloc size align blocks = some (p, blocks')) :
    IsLeast {q | align ∣ q ∧ (Span.mk q size).bytes ⊆ cover blocks} p := by
  obtain ⟨⟨b, hb, hp, hinside⟩, _⟩ := alloc_spec hnorm hsep hgrid h
  have hdvd : align ∣ p := hp ▸ dvd_roundUp _ hnorm.align_pos
  refine ⟨⟨hdvd, hinside.trans (bytes_subset_cover hb)⟩, ?_⟩
  rintro q ⟨hq, hsub⟩
  obtain ⟨before, first, after, rfl, hbefore, hfits, hpayload, _⟩ := alloc_eq_some h
  obtain ⟨c, hc, hstart, hround, hroom⟩ := fits_of_subset_cover hsep hnorm.size_pos hq hsub
  rcases List.mem_append.mp hc with hin | hin
  · exact absurd hroom (hbefore c hin)
  rcases List.mem_cons.mp hin with rfl | hlater
  · exact hpayload.trans_le hround
  · -- The block around `q` begins behind the block that was chosen.
    have hgap := (separated_cons.mp (separated_append.mp hsep).2.1).2.2 c hlater
    rw [Fits] at hfits
    simp only [Span.stop] at hgap
    omega

/-- `alloc` finds nothing exactly when no aligned address has room in the free part. -/
theorem alloc_eq_none_iff (hnorm : Normalised size align) (hsep : Separated blocks)
    (hgrid : OnGrid blocks) : alloc size align blocks = none ↔
      ∀ q, ¬ (align ∣ q ∧ (Span.mk q size).bytes ⊆ cover blocks) := by
  constructor
  · rintro hnone q ⟨hq, hsub⟩
    obtain ⟨b, hb, _, _, hfits⟩ := fits_of_subset_cover hsep hnorm.size_pos hq hsub
    exact alloc_eq_none.mp hnone b hb hfits
  · intro hno
    cases halloc : alloc size align blocks with
    | none => rfl
    | some found => exact absurd (alloc_isLeast hnorm hsep hgrid halloc).1 (hno found.1)

end FirstFit

end BlockList

/-! ### First fit of the heap -/

/-- An address at which a layout could be served: a multiple of the served alignment, with a block
inside the arena that meets no live block. -/
structure Available (arena : Arena) (live : List Allocation) (layout : Layout) (p : ℕ) : Prop where
  align_dvd : layout.blockAlign ∣ p
  inside : (Span.mk p layout.blockSize).bytes ⊆ arena.span.bytes
  apart : ∀ a ∈ live, Disjoint (Span.mk p layout.blockSize).bytes a.block.bytes

section Available

variable {arena : Arena} {s : HeapState} {t : BlockState} {layout : Layout} {p : ℕ}

/-- A layout could be served where the free part of the arena has room for it. -/
theorem Canonical.available_iff (h : Canonical arena t) : Available arena t.live layout p ↔
    layout.blockAlign ∣ p ∧ (Span.mk p layout.blockSize).bytes ⊆ cover t.free := by
  rw [h.cover_free]
  constructor
  · intro havailable
    refine ⟨havailable.align_dvd, fun addr haddr ↦ ⟨havailable.inside haddr, ?_⟩⟩
    rintro ⟨b, hb, hin⟩
    obtain ⟨a, ha, rfl⟩ := List.mem_map.mp hb
    exact Set.disjoint_left.mp (havailable.apart a ha) haddr hin
  · rintro ⟨hdvd, hsub⟩
    refine ⟨hdvd, hsub.trans Set.sdiff_subset, fun a ha ↦ ?_⟩
    rw [Set.disjoint_left]
    intro addr haddr hin
    exact (hsub haddr).2 (bytes_subset_cover (List.mem_map_of_mem ha) hin)

/-- An available address is not null. -/
theorem Available.ne_zero (h : Available arena s.live layout p) : p ≠ 0 := by
  have hpos : 0 < layout.blockSize := layout.normalised.size_pos
  have hbounds := Span.bounds_of_subset hpos h.inside
  have hstart := arena.pos
  simp only [Arena.span] at hbounds
  omega

/-- Lowest-address first fit. In every reachable state every `alloc` returns, and it returns the
least address at which the layout could be served, or null, with nothing changed, when there is no
such address. -/
theorem heap_first_fit (arena : Arena) (m : Mem)
    (hs : heapMachine.Reachable (heapInit arena m) s) (layout : Layout) :
    (∃ p next, heapMachine.Step s (.alloc layout) p next) ∧
      ∀ p next, heapMachine.Step s (.alloc layout) p next →
        (p ≠ 0 ∧ IsLeast {q | Available arena s.live layout q} p) ∨
          (p = 0 ∧ next = s ∧ ∀ q, ¬ Available arena s.live layout q) := by
  obtain ⟨t, h⟩ := reachable_related hs
  refine ⟨h.answers.1 layout, fun p next hstep ↦ ?_⟩
  have havailable (q : ℕ) : Available arena s.live layout q ↔
      layout.blockAlign ∣ q ∧ (Span.mk q layout.blockSize).bytes ⊆ cover t.free := by
    rw [h.live_eq]
    exact h.canonical.available_iff
  have hnorm := layout.normalised
  have hsep := h.canonical.separated
  have hgrid := h.canonical.onGrid
  obtain ⟨hnone, hsome⟩ :=
    Heap.alloc_refines layout h.canonical.placed h.chain (Nat.lt_succ_self _)
  cases hstep with
  | @alloc _ fuel _ heap mem ran =>
  cases halloc : BlockList.alloc layout.blockSize layout.blockAlign t.free with
  | none =>
    obtain ⟨rfl, rfl, rfl⟩ := Heap.alloc_unique ran (hnone halloc)
    refine Or.inr ⟨rfl, rfl, fun q hq ↦ ?_⟩
    exact (BlockList.alloc_eq_none_iff hnorm hsep hgrid).mp halloc q ((havailable q).mp hq)
  | some found =>
    obtain ⟨p', free⟩ := found
    obtain ⟨heap', mem', hran, _⟩ := hsome p' free halloc
    obtain ⟨rfl, _, _⟩ := Heap.alloc_unique ran hran
    have hleast := BlockList.alloc_isLeast hnorm hsep hgrid halloc
    simp only [← havailable] at hleast
    exact Or.inl ⟨hleast.1.ne_zero, hleast⟩

/-- After the first three words were served, the next three go to the first address behind them. -/
theorem heap_first_fit_threeWords :
    IsLeast {q | Available megabyteArena afterThreeWords.live threeWords q} 0x100020 := by
  have hstep : heapMachine.Step afterThreeWords (.alloc threeWords) 0x100020 _ :=
    @HeapStep.alloc afterThreeWords threeWords 1 0x100020 ⟨0x100040⟩
      (FreeBlock.write afterThreeWords.mem 0x100040 ⟨0xfffc0, 0⟩) rfl
  rcases (heap_first_fit megabyteArena _ ⟨_, run_threeWords⟩ threeWords).2 _ _ hstep with
    ⟨_, hleast⟩ | ⟨hnull, _⟩
  · exact hleast
  · exact absurd hnull (by decide)

end Available

end RustBL
