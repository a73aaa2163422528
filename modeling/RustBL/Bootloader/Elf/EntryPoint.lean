import RustBL.Bootloader.Elf.Firmware

/-!
# The test of the entry point

The loader keeps the lowest first page and the highest end of the segments, and accepts an entry
point between the two. `EntryOutOfRange` promises more: an entry point inside a loaded segment.

The two differ on an entry point in the page padding in front of a segment, and on one in a gap
between two segments. `entry_in_segment_iff` says that these are the only ways in which an accepted
image has its entry point in no segment, for every behaviour of the page allocator.
-/

set_option autoImplicit false
set_option relaxedAutoImplicit false

namespace RustBL

namespace Elf

/-! ### Where an entry point can lie -/

namespace Image

section Places

variable (image : Image)

/-- An address in the page padding in front of a `PT_LOAD` segment. -/
def InPadding (addr : ℕ) : Prop :=
  ∃ index < image.phnum, image.IsLoad index ∧ (image.segment index).pageStart ≤ addr ∧
    addr < (image.segment index).vaddr

/-- An address between the end of a `PT_LOAD` segment and the beginning of another. -/
def InGap (addr : ℕ) : Prop :=
  (∃ index < image.phnum, image.IsLoad index ∧
      (image.segment index).vaddr + (image.segment index).memsz ≤ addr) ∧
    ∃ index < image.phnum, image.IsLoad index ∧ addr < (image.segment index).vaddr

/-- Every check passes but the one of the entry point, which is left out. -/
structure Passes {σ : Type} (allocator : PageAllocator σ) (firmware : σ) : Prop where
  header : ∀ check ∈ image.headerChecks, check.1
  segments : ∀ check ∈ walkChecks allocator image image.phnum 0 firmware, check.1
  ends_fit : ∀ segment ∈ image.segments,
    segment.vaddr + segment.memsz + (PAGE_SIZE - 1) < 2 ^ 64

end Places

variable {image : Image}

/-- The hull of the segments holds, besides the segments, page padding and gaps. -/
theorem hull_iff {addr : ℕ} (hout : ¬ image.InSegment addr) :
    ((∃ segment ∈ image.segments, segment.pageStart ≤ addr) ∧
        ∃ segment ∈ image.segments, addr < segment.vaddr + segment.memsz) ↔
      image.InPadding addr ∨ image.InGap addr := by
  rw [exists_segment, exists_segment]
  constructor
  · rintro ⟨⟨low, hlow, hloadLow, hstart⟩, high, hhigh, hloadHigh, hend⟩
    by_cases hpadding : addr < (image.segment low).vaddr
    · exact Or.inl ⟨low, hlow, hloadLow, hstart, hpadding⟩
    · refine Or.inr ⟨⟨low, hlow, hloadLow, ?_⟩, high, hhigh, hloadHigh, ?_⟩
      · by_contra hinside
        exact hout ⟨low, hlow, hloadLow, not_lt.mp hpadding, not_le.mp hinside⟩
      · by_contra hinside
        exact hout ⟨high, hhigh, hloadHigh, not_lt.mp hinside, hend⟩
  · rintro (⟨index, hindex, hload, hstart, hbelow⟩ |
      ⟨⟨low, hlow, hloadLow, habove⟩, high, hhigh, hloadHigh, hbelow⟩)
    · exact ⟨⟨index, hindex, hload, hstart⟩, index, hindex, hload, Nat.lt_add_right _ hbelow⟩
    · have hstart := (image.segment low).pageStart_le
      exact ⟨⟨low, hlow, hloadLow, by omega⟩, high, hhigh, hloadHigh, Nat.lt_add_right _ hbelow⟩

end Image

/-! ### The test against the segments -/

section Entry

variable {σ : Type} {allocator : PageAllocator σ} {image : Image} {s : LoaderState σ}

/-- An image is accepted exactly when the entry point lies in the hull of its segments and every
other check passes. The loader then reports the entry point of the image. -/
theorem loadKernel_ok_iff {kernel : LoadedKernel} :
    (∃ s', loadKernel allocator image s = .ok kernel s') ↔
      (image.Passes allocator s.firmware ∧
        (∃ segment ∈ image.segments, segment.pageStart ≤ image.entry) ∧
        ∃ segment ∈ image.segments, image.entry < segment.vaddr + segment.memsz) ∧
      kernel = ⟨image.entry, image.extent.lowest,
        roundUp image.extent.highest PAGE_SIZE - image.extent.lowest⟩ := by
  have hchecks : firstFailure (kernelChecks allocator image s.firmware) = none ↔
      image.Passes allocator s.firmware ∧
        (∃ segment ∈ image.segments, segment.pageStart ≤ image.entry) ∧
        ∃ segment ∈ image.segments, image.entry < segment.vaddr + segment.memsz := by
    rw [firstFailure_eq_none, kernelChecks, List.forall_mem_append, List.forall_mem_append,
      Image.finalChecks, image.highest_fits]
    simp only [List.forall_mem_cons, List.not_mem_nil, false_implies, implies_true, and_true]
    constructor
    · rintro ⟨hheader, hwalk, _, hentry, hfits⟩
      exact ⟨⟨hheader, hwalk, hfits⟩, hentry⟩
    · rintro ⟨hpasses, hentry⟩
      obtain ⟨segment, hmem, _⟩ := hentry.1
      exact ⟨hpasses.header, hpasses.segments, List.ne_nil_of_mem hmem, hentry, hpasses.ends_fit⟩
  rw [← hchecks]
  constructor
  · rintro ⟨s', hok⟩
    obtain ⟨hpassed, hkernel, _⟩ := loadKernel_ok allocator image hok
    exact ⟨hpassed, hkernel⟩
  · rintro ⟨hpassed, rfl⟩
    have hran := loadKernel_eq allocator image s
    rw [hpassed] at hran
    exact ⟨_, hran⟩

/-- An accepted image has its entry point in a `PT_LOAD` segment, except when every check passes
that is not about the entry point and the entry point lies in no segment, but in the page padding in
front of one or in a gap between two. -/
theorem entry_in_segment_iff :
    (∀ kernel s', loadKernel allocator image s = .ok kernel s' → image.InSegment kernel.entry) ↔
      ¬ (image.Passes allocator s.firmware ∧ ¬ image.InSegment image.entry ∧
        (image.InPadding image.entry ∨ image.InGap image.entry)) := by
  constructor
  · rintro hall ⟨hpasses, hout, hplace⟩
    obtain ⟨s', hok⟩ := loadKernel_ok_iff.mpr ⟨⟨hpasses, (Image.hull_iff hout).mpr hplace⟩, rfl⟩
    exact hout (hall _ s' hok)
  · intro hno kernel s' hok
    obtain ⟨⟨hpasses, hhull⟩, rfl⟩ := loadKernel_ok_iff.mp ⟨s', hok⟩
    by_contra hout
    exact hno ⟨hpasses, hout, (Image.hull_iff hout).mp hhull⟩

end Entry

/-- The image has one segment, the byte at `0x1001`, and is accepted with the entry point `0x1000`.
-/
theorem entry_outside_segment :
    ¬ ∀ kernel s', loadKernel freeListAllocator (smallImage 0 1 0 1) ⟨fun _ ↦ 0, {1}, []⟩ =
      .ok kernel s' → (smallImage 0 1 0 1).InSegment kernel.entry := by
  intro hall
  have hran : (loadKernel freeListAllocator (smallImage 0 1 0 1)).run' ⟨fun _ ↦ 0, {1}, []⟩ =
      some ⟨0x1000, 0x1000, 0x1000⟩ := by
    decide +kernel
  have hout : ¬ (smallImage 0 1 0 1).InSegment 0x1000 := by decide +kernel
  obtain ⟨s', hok⟩ := ok_of_run' hran
  exact hout (hall _ s' hok)

end Elf

end RustBL
