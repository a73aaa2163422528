import RustBL.Bootloader.Elf.Firmware

/-!
# The loader never faults

The loader mixes checked operations with plain ones. The plain ones (the length of the pages of a
segment, the rounding of the highest end, the offsets inside a program header, the source and the
target of the copy) are safe through facts established elsewhere: a header that was read lies in the
file, and a segment that was granted lies below `2 ^ 52`. A segment that asks for no pages starts on
a page boundary and is empty, so the end it contributes can still be rounded up.

`Harmless` says of a list of checks that its first failure is an `ElfError`.
`loadKernel_never_faults` follows for arbitrary bytes and every allocator that grants pages below
`2 ^ 52` only, also when some later check rejects the image.
-/

set_option autoImplicit false
set_option relaxedAutoImplicit false

namespace RustBL

namespace Elf

/-- Every grant lies below `2 ^ 52`. -/
def PageAllocator.GrantsBelow {σ : Type} (allocator : PageAllocator σ) : Prop :=
  ∀ (firmware : σ) (addr pages : ℕ), PAGE_SIZE ∣ addr → 0 < pages →
    (allocator.allocatePages firmware addr pages).1 = true → addr + pages * PAGE_SIZE ≤ 2 ^ 52

/-! ### Checks that fail with an error only -/

/-- The first check that fails, if there is one, fails with an `ElfError`. -/
def Harmless (checks : List Check) : Prop :=
  ∀ fault, firstFailure checks ≠ some (.fault fault)

section Harmless

variable {condition : Prop} {stop : Stop} {left right rest : List Check}

theorem harmless_nil : Harmless [] :=
  fun _ hfailure ↦ nomatch hfailure

theorem Harmless.append (hleft : Harmless left)
    (hright : firstFailure left = none → Harmless right) : Harmless (left ++ right) := by
  intro fault
  rw [firstFailure_append]
  cases hfailure : firstFailure left with
  | none => exact hright hfailure fault
  | some stop =>
    have hharmless := hleft fault
    rwa [hfailure] at hharmless

theorem Harmless.cons_elf {error : ElfError} (hrest : condition → Harmless rest) :
    Harmless ((condition, .elf error) :: rest) := by
  intro fault
  by_cases h : condition
  · rw [firstFailure_cons_pos h]
    exact hrest h fault
  · rw [firstFailure_cons_neg h]
    exact fun heq ↦ nomatch heq

theorem Harmless.cons_pos (h : condition) (hrest : Harmless rest) :
    Harmless ((condition, stop) :: rest) := by
  intro fault
  rw [firstFailure_cons_pos h]
  exact hrest fault

end Harmless

/-! ### The checks of the loader -/

section Loader

variable {σ : Type} {allocator : PageAllocator σ} {firmware : σ} (image : Image)

/-- A segment whose pages are granted lies on physical pages. -/
theorem LoadSegment.Grants.pages_physical {segment : LoadSegment} (hbelow : allocator.GrantsBelow)
    (hgrants : segment.Grants allocator firmware) : pagesOf segment.pages ⊆ physicalPages := by
  by_cases hempty : segment.pageCount = 0
  · rw [segment.pagesOf_eq_empty hempty]
    exact Set.empty_subset _
  · intro page hpage
    have hstop := hbelow firmware _ _ segment.page_dvd_pageStart (Nat.pos_of_ne_zero hempty)
      (hgrants hempty)
    rw [segment.pages_eq] at hpage
    exact lt_of_lt_of_le (mem_pagesOf.mp hpage).2 hstop

theorem harmless_headerChecks : Harmless image.headerChecks := by
  rw [Image.headerChecks]
  repeat refine Harmless.cons_elf fun _ ↦ ?_
  exact harmless_nil

theorem harmless_sanityChecks (index : ℕ) : Harmless (image.sanityChecks index) := by
  rw [Image.sanityChecks]
  refine Harmless.cons_elf fun _ ↦ ?_
  split_ifs
  · rw [Image.loadChecks]
    repeat refine Harmless.cons_elf fun _ ↦ ?_
    exact harmless_nil
  · exact harmless_nil

/-- The length of the pages of every segment is a word once the pages are granted. -/
theorem harmless_walkChecks (hbelow : allocator.GrantsBelow) (remaining index : ℕ) (firmware : σ) :
    Harmless (walkChecks allocator image remaining index firmware) := by
  induction remaining generalizing index firmware with
  | zero => exact harmless_nil
  | succ remaining ih =>
    rw [walkChecks]
    refine (harmless_sanityChecks image index).append fun _ ↦ ?_
    split_ifs
    · refine Harmless.cons_elf fun hgrants ↦ Harmless.cons_pos ?_ (ih _ _)
      exact (image.segment index).pages_size_lt (hgrants.pages_physical hbelow)
    · exact ih _ _

/-- When the loop passes, every segment lies on physical pages. -/
theorem walk_physical (hbelow : allocator.GrantsBelow) (remaining index : ℕ) (firmware : σ)
    (hpassed : firstFailure (walkChecks allocator image remaining index firmware) = none) :
    ∀ segment ∈ image.loads remaining index, pagesOf segment.pages ⊆ physicalPages := by
  induction remaining generalizing index firmware with
  | zero => exact fun _ hmem ↦ absurd hmem List.not_mem_nil
  | succ remaining ih =>
    have hchecks := firstFailure_eq_none.mp hpassed
    rw [walkChecks, List.forall_mem_append] at hchecks
    by_cases hload : image.IsLoad index
    · rw [if_pos hload, List.forall_mem_cons, List.forall_mem_cons] at hchecks
      obtain ⟨_, hgrants, _, hwalk⟩ := hchecks
      have hgranted : (image.segment index).Grants allocator firmware := hgrants
      rw [image.loads_succ_of_load hload, List.forall_mem_cons]
      exact ⟨hgranted.pages_physical hbelow, ih _ _ (firstFailure_eq_none.mpr hwalk)⟩
    · rw [if_neg hload] at hchecks
      rw [image.loads_succ_of_not_load hload]
      exact ih _ _ (firstFailure_eq_none.mpr hchecks.2)

theorem harmless_kernelChecks (hbelow : allocator.GrantsBelow) :
    Harmless (kernelChecks allocator image firmware) := by
  rw [kernelChecks]
  refine (harmless_headerChecks image).append fun _ ↦
    (harmless_walkChecks image hbelow _ _ _).append fun hwalk ↦ ?_
  have hfits : image.extent.highest + (PAGE_SIZE - 1) < 2 ^ 64 := by
    rw [image.highest_fits]
    intro segment hmem
    obtain ⟨index, _, _, rfl⟩ := Image.mem_segments.mp hmem
    exact (image.segment index).stop_add_lt (image.segment_vaddr_lt index)
      (walk_physical image hbelow _ _ _ hwalk _ hmem)
  rw [Image.finalChecks]
  refine Harmless.cons_elf fun _ ↦ Harmless.cons_elf fun _ ↦ Harmless.cons_pos hfits ?_
  exact harmless_nil

/-- The loader never faults: on arbitrary bytes no arithmetic overflows, no index leaves the image,
and no copy leaves the image or the pages just granted. Assumes: every grant lies below `2 ^ 52`. -/
theorem loadKernel_never_faults (hbelow : allocator.GrantsBelow) (s s' : LoaderState σ)
    (fault : Fault) : loadKernel allocator image s ≠ .error (.fault fault) s' := by
  intro hfault
  have hran := loadKernel_eq allocator image s
  cases hfailure : firstFailure (kernelChecks allocator image s.firmware) with
  | none =>
    rw [hfailure] at hran
    rw [hfault] at hran
    exact nomatch hran
  | some stop =>
    rw [hfailure] at hran
    obtain ⟨s'', hstopped⟩ := hran
    rw [hfault] at hstopped
    injection hstopped with hstop
    exact harmless_kernelChecks image hbelow fault (hfailure.trans (congrArg some hstop.symm))

end Loader

/-- The firmware that keeps a list of free pages grants pages below `2 ^ 52` only. -/
theorem freeListAllocator_grantsBelow : freeListAllocator.GrantsBelow := by
  rintro firmware addr pages ⟨first, rfl⟩ hpages hgranted
  have hall := freeListAllocator_granted.mp hgranted
  rw [Nat.mul_div_cancel_left _ (by decide)] at hall
  obtain ⟨_, hlast⟩ := hall (first + pages - 1) (Finset.mem_Ico.mpr ⟨by omega, by omega⟩)
  simp only [PAGE_SIZE] at hlast ⊢
  omega

theorem loadKernel_never_faults_smallImage : freeListAllocator.GrantsBelow ∧
    loadKernel freeListAllocator (smallImage 0 0 4 8) ⟨fun _ ↦ 0, {1}, []⟩ ≠
      .error (.fault .overflow) ⟨fun _ ↦ 0, ∅, [(0x1000, 1)]⟩ :=
  ⟨freeListAllocator_grantsBelow, loadKernel_never_faults (smallImage 0 0 4 8)
    freeListAllocator_grantsBelow ⟨fun _ ↦ 0, {1}, []⟩ ⟨fun _ ↦ 0, ∅, [(0x1000, 1)]⟩ .overflow⟩

end Elf

end RustBL
