import RustBL.Bootloader.Elf.Loading
import Mathlib.Order.Interval.Finset.Nat

/-!
# What the firmware promises

The loader asks the firmware for whole pages at a fixed address. `PageAllocator.Sound` is the
promise that a grant consists of pages that were free and lie below `2 ^ 52`, and that they are free
no longer; `PageAllocator.Exact` adds that such pages are never refused. Both are stated for a
predicate that gives the free pages in every state of the firmware, and only for the requests the
loader makes: an aligned address and at least one page.

A page is named by its number, and `pagesOf` is the set of the pages of an address range. For the
range of a segment, which starts and ends on page boundaries, the pages determine the range.
-/

set_option autoImplicit false
set_option relaxedAutoImplicit false

namespace RustBL

namespace Elf

/-- The numbers of the pages that begin in an address range. -/
def pagesOf (range : Span) : Set ℕ :=
  {page | page * PAGE_SIZE ∈ range.bytes}

/-- The pages below `2 ^ 52`. -/
def physicalPages : Set ℕ :=
  {page | page * PAGE_SIZE < 2 ^ 52}

section Promises

variable {σ : Type}

/-- A grant consists of free pages below `2 ^ 52`, and marks them used. -/
structure PageAllocator.Sound (allocator : PageAllocator σ) (free : σ → Set ℕ) : Prop where
  granted_free : ∀ (firmware : σ) (addr pages : ℕ), PAGE_SIZE ∣ addr → 0 < pages →
    (allocator.allocatePages firmware addr pages).1 = true →
      pagesOf ⟨addr, pages * PAGE_SIZE⟩ ⊆ free firmware ∩ physicalPages
  granted_used : ∀ (firmware : σ) (addr pages : ℕ), PAGE_SIZE ∣ addr → 0 < pages →
    (allocator.allocatePages firmware addr pages).1 = true →
      free (allocator.allocatePages firmware addr pages).2 =
        free firmware \ pagesOf ⟨addr, pages * PAGE_SIZE⟩

/-- Pages are granted exactly when they are free and below `2 ^ 52`, and are then marked used. -/
structure PageAllocator.Exact (allocator : PageAllocator σ) (free : σ → Set ℕ) : Prop
    extends allocator.Sound free where
  grants_free : ∀ (firmware : σ) (addr pages : ℕ), PAGE_SIZE ∣ addr → 0 < pages →
    pagesOf ⟨addr, pages * PAGE_SIZE⟩ ⊆ free firmware ∩ physicalPages →
      (allocator.allocatePages firmware addr pages).1 = true

end Promises

theorem mem_pagesOf {range : Span} {page : ℕ} :
    page ∈ pagesOf range ↔ range.start ≤ page * PAGE_SIZE ∧ page * PAGE_SIZE < range.stop :=
  Iff.rfl

/-! ### The pages of a segment -/

namespace LoadSegment

section Pages

variable (segment : LoadSegment)

theorem pages_eq : segment.pages = ⟨segment.pageStart, segment.pageCount * PAGE_SIZE⟩ := by
  rw [← segment.pages_size_eq]
  rfl

/-- The page of an address in the pages of a segment is one of its pages. -/
theorem page_mem_pagesOf {addr : ℕ} (haddr : addr ∈ segment.pages.bytes) :
    addr / PAGE_SIZE ∈ pagesOf segment.pages := by
  have hdiv := Nat.div_add_mod addr PAGE_SIZE
  have hmod := Nat.mod_lt addr (show 0 < PAGE_SIZE by decide)
  rw [Span.mem_bytes, pages_eq, Span.stop_mk] at haddr
  rw [mem_pagesOf, pages_eq, Span.stop_mk]
  obtain ⟨first, hfirst⟩ := segment.page_dvd_pageStart
  rw [hfirst] at haddr ⊢
  simp only [PAGE_SIZE] at *
  omega

/-- A segment without pages has none. -/
theorem pagesOf_eq_empty (hempty : segment.pageCount = 0) : pagesOf segment.pages = ∅ := by
  ext page
  rw [mem_pagesOf, pages_eq, hempty, Nat.zero_mul, Span.stop_mk, Nat.add_zero]
  exact ⟨fun h ↦ absurd h.2 (not_lt.mpr h.1), fun h ↦ absurd h (Set.notMem_empty page)⟩

/-- Segments share an address exactly when they share a page. -/
theorem disjoint_pagesOf (other : LoadSegment) :
    Disjoint (pagesOf segment.pages) (pagesOf other.pages) ↔
      Disjoint segment.pages.bytes other.pages.bytes := by
  rw [Set.disjoint_left, Set.disjoint_left]
  constructor
  · intro hpages addr haddr hother
    exact hpages (segment.page_mem_pagesOf haddr) (other.page_mem_pagesOf hother)
  · intro hbytes page hpage hother
    exact hbytes hpage hother

/-- The pages of a segment end below `2 ^ 52` when they are physical. Assumes: it has pages. -/
theorem pages_stop_le (hpages : segment.pageCount ≠ 0)
    (hphysical : pagesOf segment.pages ⊆ physicalPages) : segment.pages.stop ≤ 2 ^ 52 := by
  obtain ⟨first, hfirst⟩ := segment.page_dvd_pageStart
  have hstop : segment.pages.stop = PAGE_SIZE * first + segment.pageCount * PAGE_SIZE := by
    rw [pages_eq, hfirst, Span.stop_mk]
  have hlast : first + segment.pageCount - 1 ∈ pagesOf segment.pages := by
    rw [mem_pagesOf, hstop, pages_eq, hfirst]
    simp only [PAGE_SIZE]
    omega
  have hbelow : (first + segment.pageCount - 1) * PAGE_SIZE < 2 ^ 52 := hphysical hlast
  simp only [PAGE_SIZE] at hbelow hstop
  omega

/-- The length of physical pages is a word. -/
theorem pages_size_lt (hphysical : pagesOf segment.pages ⊆ physicalPages) :
    segment.pages.size < 2 ^ 64 := by
  by_cases hempty : segment.pageCount = 0
  · rw [segment.pages_size_eq, hempty, Nat.zero_mul]
    decide
  · have hstop := segment.pages_stop_le hempty hphysical
    have hspan : segment.pages.stop = segment.pageStart + segment.pages.size := rfl
    omega

/-- The end of a segment can be rounded up to a page without overflow, when its pages are physical.
A segment without pages ends on a page boundary. -/
theorem stop_add_lt (hvaddr : segment.vaddr < 2 ^ 64)
    (hphysical : pagesOf segment.pages ⊆ physicalPages) :
    segment.vaddr + segment.memsz + (PAGE_SIZE - 1) < 2 ^ 64 := by
  by_cases hempty : segment.pageCount = 0
  · have hzero := segment.pageCount_eq_zero.mp hempty
    have hstart := segment.pageStart_le
    obtain ⟨first, hfirst⟩ := segment.page_dvd_pageStart
    simp only [PAGE_SIZE] at hfirst ⊢
    omega
  · have hstop := segment.pages_stop_le hempty hphysical
    have hround := le_roundUp (segment.vaddr + segment.memsz) PAGE_SIZE
    rw [segment.pages_stop] at hstop
    simp only [PAGE_SIZE] at *
    omega

end Pages

/-! ### Requests for the pages of a segment -/

section Requests

variable {σ : Type} {allocator : PageAllocator σ} {free : σ → Set ℕ} {segment : LoadSegment}
  {firmware : σ}

/-- A segment whose pages are granted lies on free physical pages. -/
theorem Grants.pages_free (hsound : allocator.Sound free)
    (hgrants : segment.Grants allocator firmware) :
    pagesOf segment.pages ⊆ free firmware ∩ physicalPages := by
  by_cases hempty : segment.pageCount = 0
  · rw [segment.pagesOf_eq_empty hempty]
    exact Set.empty_subset _
  · rw [segment.pages_eq]
    exact hsound.granted_free firmware _ _ segment.page_dvd_pageStart (Nat.pos_of_ne_zero hempty)
      (hgrants hempty)

/-- After the pages of a segment were granted, the others are free as before. -/
theorem Grants.free_after (hsound : allocator.Sound free)
    (hgrants : segment.Grants allocator firmware) :
    free (segment.firmwareAfter allocator firmware) = free firmware \ pagesOf segment.pages := by
  by_cases hempty : segment.pageCount = 0
  · rw [firmwareAfter, if_pos hempty, segment.pagesOf_eq_empty hempty, Set.sdiff_empty]
  · rw [firmwareAfter, if_neg hempty, segment.pages_eq]
    exact hsound.granted_used firmware _ _ segment.page_dvd_pageStart (Nat.pos_of_ne_zero hempty)
      (hgrants hempty)

/-- An exact firmware grants the pages of a segment exactly when they are free and physical. -/
theorem grants_iff (hexact : allocator.Exact free) : segment.Grants allocator firmware ↔
    pagesOf segment.pages ⊆ free firmware ∩ physicalPages := by
  constructor
  · intro hgrants
    exact hgrants.pages_free hexact.toSound
  · intro hpages hne
    rw [segment.pages_eq] at hpages
    exact hexact.grants_free firmware _ _ segment.page_dvd_pageStart (Nat.pos_of_ne_zero hne) hpages

end Requests

end LoadSegment

/-! ### A firmware that keeps its promises -/

/-- A firmware whose state is the set of its free pages. -/
def freeListAllocator : PageAllocator (Finset ℕ) where
  allocatePages firmware addr pages :=
    let first := addr / PAGE_SIZE
    if (∀ page ∈ Finset.Ico first (first + pages), page ∈ firmware ∧ page * PAGE_SIZE < 2 ^ 52) then
      (true, firmware \ Finset.Ico first (first + pages))
    else (false, firmware)

section FreeList

variable {firmware : Finset ℕ} {addr pages : ℕ}

theorem freeListAllocator_granted :
    (freeListAllocator.allocatePages firmware addr pages).1 = true ↔
      ∀ page ∈ Finset.Ico (addr / PAGE_SIZE) (addr / PAGE_SIZE + pages),
        page ∈ firmware ∧ page * PAGE_SIZE < 2 ^ 52 := by
  simp only [freeListAllocator]
  split <;> rename_i hall
  · exact iff_of_true rfl hall
  · exact iff_of_false Bool.false_ne_true hall

theorem freeListAllocator_after
    (hgranted : (freeListAllocator.allocatePages firmware addr pages).1 = true) :
    (freeListAllocator.allocatePages firmware addr pages).2 =
      firmware \ Finset.Ico (addr / PAGE_SIZE) (addr / PAGE_SIZE + pages) := by
  have hall := freeListAllocator_granted.mp hgranted
  simp only [freeListAllocator]
  rw [if_pos hall]

theorem mem_pagesOf_request {page : ℕ} (haddr : PAGE_SIZE ∣ addr) :
    page ∈ pagesOf ⟨addr, pages * PAGE_SIZE⟩ ↔
      page ∈ Finset.Ico (addr / PAGE_SIZE) (addr / PAGE_SIZE + pages) := by
  obtain ⟨first, rfl⟩ := haddr
  rw [mem_pagesOf, Span.stop_mk, Finset.mem_Ico, Nat.mul_div_cancel_left _ (by decide)]
  simp only [PAGE_SIZE]
  omega

end FreeList

/-- `freeListAllocator` is exact for the pages in its state. -/
theorem freeListAllocator_exact : freeListAllocator.Exact fun firmware ↦ (firmware : Set ℕ) where
  granted_free firmware addr pages haddr _ hgranted := by
    intro page hpage
    exact freeListAllocator_granted.mp hgranted page ((mem_pagesOf_request haddr).mp hpage)
  granted_used firmware addr pages haddr _ hgranted := by
    ext page
    rw [freeListAllocator_after hgranted, Finset.coe_sdiff, Set.mem_sdiff, Set.mem_sdiff,
      mem_pagesOf_request haddr]
    rfl
  grants_free firmware addr pages haddr _ hpages := by
    apply freeListAllocator_granted.mpr
    intro page hpage
    exact hpages ((mem_pagesOf_request haddr).mpr hpage)

end Elf

end RustBL
