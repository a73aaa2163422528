import RustBL.Boot.Reservation
import RustBL.Bootloader.Elf.Placement
import RustBL.Bootloader.Elf.Safety
import RustBL.Bootloader.Main

/-!
# The pages of the bootloader

`BootFirmware.Honest` is what the firmware promises the bootloader, in terms of the pages that are
held as `LOADER_DATA`: a grant consists of physical pages that were not held, and they are held from
then on; the final memory map describes the pages held as `LOADER_DATA`, and `ExitBootServices`
leaves their bytes alone.

`Owned` is what the bootloader may rely on in between: its grants are whole pages below `2 ^ 52`,
the firmware holds all of them, and no two of them share an address. A grant keeps it
(`Owned.grant`), and so does a run of the loader (`owned_loadKernel`), by induction on the segments.
-/

set_option autoImplicit false
set_option relaxedAutoImplicit false

namespace RustBL

/-- The UEFI memory type of what a loader allocates. -/
def MemoryRegion.LOADER_DATA : UInt32 := 2

namespace Bootloader

open Elf

/-- The addresses of a grant. -/
def grantSpan (grant : ℕ × ℕ) : Span :=
  ⟨grant.1, grant.2 * PAGE_SIZE⟩

/-- What the firmware promises, where `held` gives the pages held as `LOADER_DATA`. -/
structure Honest {σ : Type} (firmware : BootFirmware σ) (held : σ → Set ℕ) : Prop where
  fixed_free : ∀ (state : σ) (addr pages : ℕ), PAGE_SIZE ∣ addr → 0 < pages →
    (firmware.allocator.allocatePages state addr pages).1 = true →
      pagesOf (grantSpan (addr, pages)) ⊆ physicalPages \ held state
  fixed_held : ∀ (state : σ) (addr pages : ℕ), PAGE_SIZE ∣ addr → 0 < pages →
    (firmware.allocator.allocatePages state addr pages).1 = true →
      held (firmware.allocator.allocatePages state addr pages).2 =
        held state ∪ pagesOf (grantSpan (addr, pages))
  any_aligned : ∀ (state : σ) (pages addr : ℕ), 0 < pages →
    (firmware.allocateAny state pages).1 = .ok addr → PAGE_SIZE ∣ addr ∧ addr ≠ 0
  any_free : ∀ (state : σ) (pages addr : ℕ), 0 < pages →
    (firmware.allocateAny state pages).1 = .ok addr →
      pagesOf (grantSpan (addr, pages)) ⊆ physicalPages \ held state
  any_held : ∀ (state : σ) (pages addr : ℕ), 0 < pages →
    (firmware.allocateAny state pages).1 = .ok addr →
      held (firmware.allocateAny state pages).2 = held state ∪ pagesOf (grantSpan (addr, pages))
  buffer_allocated : ∀ (state : σ) (size : ℕ),
    held (firmware.bufferAllocated state size) = held state
  buffer_freed : ∀ (state : σ) (size : ℕ), held (firmware.bufferFreed state size) = held state
  map_apart : ∀ (state : σ) (m : Mem), (firmware.exitBootServices state m).1.Pairwise
    fun descriptor other ↦ Disjoint descriptor.span.bytes other.span.bytes
  map_below : ∀ (state : σ) (m : Mem), ∀ descriptor ∈ (firmware.exitBootServices state m).1,
    descriptor.span.stop ≤ 2 ^ 52
  map_held : ∀ (state : σ) (m : Mem), ∀ page ∈ held state, ∀ addr ∈ frameBytes (page * PAGE_SIZE),
    ∃ descriptor ∈ (firmware.exitBootServices state m).1,
      descriptor.ty = MemoryRegion.LOADER_DATA ∧ addr ∈ descriptor.span.bytes
  exit_keeps : ∀ (state : σ) (m : Mem) (addr : ℕ), addr / PAGE_SIZE ∈ held state →
    (firmware.exitBootServices state m).2 addr = m addr

/-- The grants are whole pages below `2 ^ 52` that the firmware holds, and share no address. -/
structure Owned {σ : Type} (held : σ → Set ℕ) (s : LoaderState σ) : Prop where
  aligned : ∀ grant ∈ s.granted, PAGE_SIZE ∣ grant.1
  below : ∀ grant ∈ s.granted, (grantSpan grant).stop ≤ 2 ^ 52
  held : ∀ grant ∈ s.granted, pagesOf (grantSpan grant) ⊆ held s.firmware
  apart : s.granted.Pairwise fun grant other ↦
    Disjoint (grantSpan grant).bytes (grantSpan other).bytes

/-! ### Pages of whole-page ranges -/

section Pages

variable {range other : Span} {addr pages : ℕ}

/-- The page of an address in a range that starts on a page boundary begins in the range. -/
theorem page_mem_pagesOf (hstart : PAGE_SIZE ∣ range.start) (haddr : addr ∈ range.bytes) :
    addr / PAGE_SIZE ∈ pagesOf range := by
  obtain ⟨first, hfirst⟩ := hstart
  have hdiv := Nat.div_add_mod addr PAGE_SIZE
  have hmod := Nat.mod_lt addr (show 0 < PAGE_SIZE by decide)
  rw [Span.mem_bytes] at haddr
  rw [mem_pagesOf]
  simp only [PAGE_SIZE] at *
  omega

/-- Ranges that start on page boundaries and share no page share no address. -/
theorem disjoint_of_pages (hrange : PAGE_SIZE ∣ range.start) (hother : PAGE_SIZE ∣ other.start)
    (h : Disjoint (pagesOf range) (pagesOf other)) : Disjoint range.bytes other.bytes := by
  rw [Set.disjoint_left]
  intro addr hin hin'
  exact Set.disjoint_left.mp h (page_mem_pagesOf hrange hin) (page_mem_pagesOf hother hin')

/-- Physical pages end below `2 ^ 52`. -/
theorem stop_le_of_physical (haddr : PAGE_SIZE ∣ addr) (hpages : 0 < pages)
    (h : pagesOf (grantSpan (addr, pages)) ⊆ physicalPages) :
    (grantSpan (addr, pages)).stop ≤ 2 ^ 52 := by
  obtain ⟨first, rfl⟩ := haddr
  have hlast : first + pages - 1 ∈ pagesOf (grantSpan (PAGE_SIZE * first, pages)) := by
    rw [mem_pagesOf]
    simp only [grantSpan, Span.stop_mk, PAGE_SIZE]
    omega
  have hbelow : (first + pages - 1) * PAGE_SIZE < 2 ^ 52 := h hlast
  simp only [grantSpan, Span.stop_mk, PAGE_SIZE] at hbelow ⊢
  omega

end Pages

/-! ### Steps that keep the pages -/

section Steps

variable {σ : Type} {firmware : BootFirmware σ} {held : σ → Set ℕ} {s : LoaderState σ} {m : Mem}
  {after : σ} {addr pages : ℕ}

/-- A step that grants nothing. -/
theorem Owned.keep (h : Owned held s) (hheld : held after = held s.firmware) :
    Owned held ⟨m, after, s.granted⟩ where
  aligned := h.aligned
  below := h.below
  held grant hgrant := hheld ▸ h.held grant hgrant
  apart := h.apart

/-- A grant of pages that were not held. -/
theorem Owned.grant (h : Owned held s) (haddr : PAGE_SIZE ∣ addr) (hpages : 0 < pages)
    (hfree : pagesOf (grantSpan (addr, pages)) ⊆ physicalPages \ held s.firmware)
    (hheld : held after = held s.firmware ∪ pagesOf (grantSpan (addr, pages))) :
    Owned held ⟨m, after, s.granted ++ [(addr, pages)]⟩ := by
  have hlast {P : ℕ × ℕ → Prop} (hold : ∀ grant ∈ s.granted, P grant) (hnew : P (addr, pages)) :
      ∀ grant ∈ s.granted ++ [(addr, pages)], P grant := by
    intro grant hgrant
    rcases List.mem_append.mp hgrant with hgrant | hgrant
    · exact hold grant hgrant
    · rw [List.mem_singleton.mp hgrant]
      exact hnew
  refine ⟨hlast h.aligned haddr,
    hlast h.below (stop_le_of_physical haddr hpages (hfree.trans Set.sdiff_subset)), ?_, ?_⟩
  · change ∀ grant ∈ s.granted ++ [(addr, pages)], pagesOf (grantSpan grant) ⊆ held after
    rw [hheld]
    exact hlast (fun grant hgrant ↦ (h.held grant hgrant).trans Set.subset_union_left)
      Set.subset_union_right
  · refine List.pairwise_append.mpr ⟨h.apart, List.pairwise_singleton _ _, ?_⟩
    intro grant hgrant new hnew
    rw [List.mem_singleton.mp hnew]
    -- The new pages were not held, and those of the older grants were.
    refine disjoint_of_pages (h.aligned grant hgrant) haddr (Set.disjoint_left.mpr ?_)
    intro page hpage hin
    exact (hfree hin).2 (h.held grant hgrant hpage)

/-- The promise in the terms of the loader: what is not held is free. -/
theorem Honest.sound (hhonest : Honest firmware held) :
    firmware.allocator.Sound fun state ↦ (held state)ᶜ where
  granted_free state addr pages haddr hpages hgranted := by
    intro page hpage
    have hfree := hhonest.fixed_free state addr pages haddr hpages hgranted hpage
    exact ⟨hfree.2, hfree.1⟩
  granted_used state addr pages haddr hpages hgranted := by
    rw [hhonest.fixed_held state addr pages haddr hpages hgranted, Set.compl_union, Set.sdiff_eq]
    rfl

theorem Honest.grantsBelow (hhonest : Honest firmware held) :
    firmware.allocator.GrantsBelow := by
  intro state addr pages haddr hpages hgranted
  exact stop_le_of_physical haddr hpages
    ((hhonest.fixed_free state addr pages haddr hpages hgranted).trans Set.sdiff_subset)

/-! ### The loader -/

/-- Loading a segment whose pages are granted. -/
theorem Owned.loaded (h : Owned held s) (hhonest : Honest firmware held) {image : Image}
    {segment : LoadSegment} (hgrants : segment.Grants firmware.allocator s.firmware) :
    Owned held (LoadSegment.loaded firmware.allocator image s segment) := by
  by_cases hempty : segment.pageCount = 0
  · rw [LoadSegment.loaded, LoadSegment.grant, if_pos hempty, List.append_nil]
    refine h.keep ?_
    rw [LoadSegment.firmwareAfter, if_pos hempty]
  · have hpages := Nat.pos_of_ne_zero hempty
    rw [LoadSegment.loaded, LoadSegment.grant, if_neg hempty, LoadSegment.firmwareAfter,
      if_neg hempty]
    exact h.grant segment.page_dvd_pageStart hpages
      (hhonest.fixed_free _ _ _ segment.page_dvd_pageStart hpages (hgrants hempty))
      (hhonest.fixed_held _ _ _ segment.page_dvd_pageStart hpages (hgrants hempty))

/-- A loop of the loader that passes its checks. -/
theorem owned_walk (hhonest : Honest firmware held) {image : Image} (remaining index : ℕ)
    (s : LoaderState σ) (h : Owned held s)
    (hpassed : firstFailure (walkChecks firmware.allocator image remaining index s.firmware) =
      none) :
    Owned held ((image.loads remaining index).foldl
      (LoadSegment.loaded firmware.allocator image) s) := by
  induction remaining generalizing index s with
  | zero => exact h
  | succ remaining ih =>
    have hchecks := firstFailure_eq_none.mp hpassed
    rw [walkChecks, List.forall_mem_append] at hchecks
    by_cases hload : image.IsLoad index
    · rw [if_pos hload, List.forall_mem_cons, List.forall_mem_cons] at hchecks
      obtain ⟨_, hgrants, _, hwalk⟩ := hchecks
      rw [image.loads_succ_of_load hload, List.foldl_cons]
      exact ih _ _ (h.loaded hhonest hgrants) (firstFailure_eq_none.mpr hwalk)
    · rw [if_neg hload] at hchecks
      rw [image.loads_succ_of_not_load hload]
      exact ih _ _ h (firstFailure_eq_none.mpr hchecks.2)

/-- A run of the loader that returns. -/
theorem owned_loadKernel (hhonest : Honest firmware held) {image : Image} {s' : LoaderState σ}
    {loaded : LoadedKernel} (h : Owned held s)
    (hran : loadKernel firmware.allocator image s = .ok loaded s') : Owned held s' := by
  obtain ⟨hpassed, _, rfl⟩ := loadKernel_ok firmware.allocator image hran
  have hchecks := firstFailure_eq_none.mp hpassed
  rw [kernelChecks, List.forall_mem_append, List.forall_mem_append] at hchecks
  exact owned_walk hhonest image.phnum 0 s h (firstFailure_eq_none.mpr hchecks.2.1)

end Steps

end Bootloader

end RustBL
