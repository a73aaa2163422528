import RustBL.Kernel.Heap.Safety

/-!
# The arithmetic of the heap is exact

A walk of the heap that is given too few turns is cut off, and no other fault is possible: neither
`alloc` nor `dealloc` meets an overflow in a reachable state, for any layout, any arena below
`2 ^ 63` and any turn budget (`heap_arithmetic_exact`). A sum of a size and an alignment near the
limits of a layout stays inside a word because the two are bounded jointly
(`Normalised.bound`).

On the grid both remainders of a carve are multiples of the grain, so each is zero or a whole block.
-/

set_option autoImplicit false
set_option relaxedAutoImplicit false

namespace RustBL

namespace Heap

section Faults

variable {fuel fuel' : ℕ} {heap : Heap} {m : Mem} {fault : Fault}

/-- A fault of `alloc` other than a budget that is used up is met with every larger budget. -/
theorem alloc_error_mono {layout : Layout} (hfuel : fuel ≤ fuel') (hfault : fault ≠ .diverged)
    (h : alloc fuel heap m layout = .error fault) : alloc fuel' heap m layout = .error fault := by
  rw [alloc, normalise_eq, ok_bind] at h ⊢
  exact loop_error_mono hfuel hfault h

theorem dealloc_error_mono {ptr : ℕ} {layout : Layout} (hfuel : fuel ≤ fuel')
    (hfault : fault ≠ .diverged) (h : dealloc fuel heap m ptr layout = .error fault) :
    dealloc fuel' heap m ptr layout = .error fault := by
  rw [dealloc, normalise_eq, ok_bind] at h ⊢
  refine bind_error_mono (fun found hfound ↦ ?_) (fun hseek ↦ ?_) h
  · exact loop_mono (fun _ _ hturn ↦ hturn) hfuel hfound
  · exact loop_error_mono hfuel hfault hseek

end Faults

end Heap

section Arithmetic

variable {arena : Arena} {s : HeapState} {t : BlockState} {fuel : ℕ} {fault : Fault}

theorem Related.alloc_error (h : Related arena s t) {layout : Layout}
    (herror : Heap.alloc fuel s.heap s.mem layout = .error fault) : fault = .diverged := by
  by_contra hfault
  have hlater := Heap.alloc_error_mono (le_max_left fuel (t.free.length + 1)) hfault herror
  have henough : t.free.length < max fuel (t.free.length + 1) := by omega
  rcases h.alloc layout henough with ⟨hran, _⟩ | ⟨_, _, _, _, hran, _⟩ <;>
    exact nomatch hlater.symm.trans hran

theorem Related.dealloc_error (h : Related arena s t) {a : Allocation} (ha : a ∈ s.live)
    (herror : Heap.dealloc fuel s.heap s.mem a.ptr a.layout = .error fault) :
    fault = .diverged := by
  by_contra hfault
  have hlater := Heap.dealloc_error_mono (le_max_left fuel (t.free.length + 1)) hfault herror
  have henough : t.free.length < max fuel (t.free.length + 1) := by omega
  obtain ⟨_, _, hran, _⟩ := h.dealloc (h.live_eq ▸ ha) henough
  exact nomatch hlater.symm.trans hran

/-- Both remainders of a carve of a free block are zero or large enough to be a block. -/
theorem Canonical.remainders (h : Canonical arena t) {layout : Layout} {b : Span} (hb : b ∈ t.free)
    (hfits : BlockList.Fits layout.blockSize layout.blockAlign b) :
    (roundUp b.start layout.blockAlign - b.start = 0 ∨
        GRAIN ≤ roundUp b.start layout.blockAlign - b.start) ∧
      (b.size - (roundUp b.start layout.blockAlign - b.start) - layout.blockSize = 0 ∨
        GRAIN ≤ b.size - (roundUp b.start layout.blockAlign - b.start) - layout.blockSize) := by
  obtain ⟨hstart, hsize⟩ := h.onGrid b hb
  have hcarving := BlockList.carving_of_fits layout.normalised hstart hsize hfits
  have htail : GRAIN ∣ b.size - (roundUp b.start layout.blockAlign - b.start) - layout.blockSize :=
    Nat.dvd_sub (Nat.dvd_sub hsize hcarving.front_dvd) hcarving.size_dvd
  exact ⟨BlockList.eq_zero_or_grain_le hcarving.front_dvd, BlockList.eq_zero_or_grain_le htail⟩

/-- Exact arithmetic over whole runs. In every reachable state no `alloc` of any layout and no
`dealloc` of a live allocation overflows, with any number of turns, and both succeed once the turns
exceed the number of free blocks. A carve of any free block leaves remainders that are zero or at
least one grain. -/
theorem heap_arithmetic_exact (arena : Arena) (m : Mem)
    (hs : heapMachine.Reachable (heapInit arena m) s) : ∃ free, FreeList s free ∧
      (∀ fuel layout fault, Heap.alloc fuel s.heap s.mem layout = .error fault →
        fault = .diverged ∧ fuel ≤ free.length) ∧
      (∀ fuel, ∀ a ∈ s.live, ∀ fault,
        Heap.dealloc fuel s.heap s.mem a.ptr a.layout = .error fault →
          fault = .diverged ∧ fuel ≤ free.length) ∧
      ∀ layout : Layout, ∀ b ∈ free, BlockList.Fits layout.blockSize layout.blockAlign b →
        let front := roundUp b.start layout.blockAlign - b.start
        let tail := b.size - front - layout.blockSize
        (front = 0 ∨ 16 ≤ front) ∧ (tail = 0 ∨ 16 ≤ tail) := by
  obtain ⟨t, h⟩ := reachable_related hs
  refine ⟨t.free, h.chain, ?_, ?_, fun layout b hb hfits ↦ h.canonical.remainders hb hfits⟩
  · intro fuel layout fault herror
    refine ⟨h.alloc_error herror, not_lt.mp fun henough ↦ ?_⟩
    rcases h.alloc layout henough with ⟨hran, _⟩ | ⟨_, _, _, _, hran, _⟩ <;>
      exact nomatch herror.symm.trans hran
  · intro fuel a ha fault herror
    refine ⟨h.dealloc_error ha herror, not_lt.mp fun henough ↦ ?_⟩
    obtain ⟨_, _, hran, _⟩ := h.dealloc (h.live_eq ▸ ha) henough
    exact nomatch herror.symm.trans hran

/-- After three words were allocated no layout makes `alloc` overflow. -/
theorem heap_arithmetic_exact_threeWords : ∃ free, FreeList afterThreeWords free ∧
    ∀ fuel layout fault,
      Heap.alloc fuel afterThreeWords.heap afterThreeWords.mem layout = .error fault →
        fault = .diverged ∧ fuel ≤ free.length := by
  obtain ⟨free, hfree, halloc, _⟩ := heap_arithmetic_exact megabyteArena _ ⟨_, run_threeWords⟩
  exact ⟨free, hfree, halloc⟩

end Arithmetic

end RustBL
