import RustBL.Boot.Entry
import RustBL.Kernel.Memory.System
import Mathlib.Algebra.Order.BigOperators.Group.List

/-!
# From the firmware to the kernel's memory

The bootloader and the kernel together, over every firmware that keeps its promises.
`main_hands_over` is about the bootloader: it never faults, and it enters the kernel with the file
in memory and everything the kernel relies on. `kernel_resides` goes on in the kernel: the checks of
`_start` pass, memory management comes up from the map that was handed over, and however the heap
and the frame allocator are used afterwards, nothing they give away or keep meets a page of the
bootloader, and no such page is written to.

`pageFirmware` is a firmware that keeps a list of the pages it granted.
-/

set_option autoImplicit false
set_option relaxedAutoImplicit false

namespace RustBL

namespace Bootloader

open Elf

/-! ### A firmware that keeps its promises -/

/-- A page as the final map describes it. -/
def heldDescriptor (page : ℕ) : MemoryDescriptor :=
  ⟨MemoryRegion.LOADER_DATA, .ofNat (page * PAGE_SIZE), 1⟩

/-- The pages below `2 ^ 39` that a list holds, each once. -/
def heldPages (state : List ℕ) : List ℕ :=
  state.dedup.filter (· < 2 ^ 39)

/-- A firmware whose state is the list of the pages it granted, all of them below `2 ^ 39`. It holds
`image` as the only file, and has 512 pages free for use at `2 ^ 51`. -/
def pageFirmware (image : Image) : BootFirmware (List ℕ) where
  helpersInit := .ok ()
  files := ⟨.ok (), .ok (), fun _ ↦ .ok (.regular ⟨.ok (.ofNat image.bytes.length), image.bytes,
    fun _ ↦ .ok image.bytes.length⟩), fun _ ↦ true⟩
  bufferAllocated state _ := state
  bufferFreed state _ := state
  allocator := ⟨fun state addr pages ↦
    if ∀ page ∈ List.range' (addr / PAGE_SIZE) pages, page ∉ state ∧ page < 2 ^ 39 then
      (true, state ++ List.range' (addr / PAGE_SIZE) pages)
    else (false, state)⟩
  allocateAny state pages :=
    if state.sum + 1 + pages ≤ 2 ^ 39 then
      (.ok ((state.sum + 1) * PAGE_SIZE), state ++ List.range' (state.sum + 1) pages)
    else (.error ⟨0x8000000000000009⟩, state)
  graphicsHandle := .ok ()
  openGraphics := .ok ⟨(32, 32), 32, .bgr, 0x80000000, 0x1000⟩
  exitBootServices state m :=
    ((heldPages state).map heldDescriptor ++ [⟨MemoryRegion.CONVENTIONAL, 0x8000000000000, 512⟩], m)

section PageFirmware

variable {state : List ℕ} {addr pages page first : ℕ}

theorem mem_pagesOf_range (haddr : PAGE_SIZE ∣ addr) :
    page ∈ pagesOf (grantSpan (addr, pages)) ↔ page ∈ List.range' (addr / PAGE_SIZE) pages := by
  rw [grantSpan, mem_pagesOf_request haddr, Finset.mem_Ico, List.mem_range'_1]

theorem span_heldDescriptor (hpage : page < 2 ^ 39) :
    (heldDescriptor page).span = ⟨page * PAGE_SIZE, PAGE_SIZE⟩ := by
  have haddr : (UInt64.ofNat (page * PAGE_SIZE)).toNat = page * PAGE_SIZE :=
    UInt64.toNat_ofNat_of_lt' (by show page * PAGE_SIZE < 2 ^ 64; simp only [PAGE_SIZE]; omega)
  rw [MemoryDescriptor.span, heldDescriptor, haddr]
  exact congrArg _ (Nat.one_mul _)

theorem mem_heldPages : page ∈ heldPages state ↔ page ∈ state ∧ page < 2 ^ 39 := by
  rw [heldPages, List.mem_filter, List.mem_dedup, decide_eq_true_iff]

/-- New pages that are added to the list become held. -/
theorem held_append {after : List ℕ} (hafter : after = state ++ List.range' first pages)
    (haddr : PAGE_SIZE ∣ addr) (hfirst : addr / PAGE_SIZE = first)
    (hbelow : ∀ page ∈ List.range' first pages, page < 2 ^ 39) :
    {page | page ∈ after ∧ page < 2 ^ 39} =
      {page | page ∈ state ∧ page < 2 ^ 39} ∪ pagesOf (grantSpan (addr, pages)) := by
  ext page
  rw [Set.mem_union, mem_pagesOf_range haddr, hfirst, hafter]
  show (page ∈ state ++ List.range' first pages ∧ page < 2 ^ 39) ↔
    (page ∈ state ∧ page < 2 ^ 39) ∨ page ∈ List.range' first pages
  rw [List.mem_append, or_and_right]
  exact or_congr_right (and_iff_left_of_imp (hbelow page))

/-- Pages that are not in the list are physical and not held. -/
theorem free_of_new (haddr : PAGE_SIZE ∣ addr) (hfirst : addr / PAGE_SIZE = first)
    (hnew : ∀ page ∈ List.range' first pages, page ∉ state ∧ page < 2 ^ 39) :
    pagesOf (grantSpan (addr, pages)) ⊆
      physicalPages \ {page | page ∈ state ∧ page < 2 ^ 39} := by
  intro page hpage
  rw [mem_pagesOf_range haddr, hfirst] at hpage
  obtain ⟨hnotMem, hbelow⟩ := hnew page hpage
  refine ⟨?_, fun hheld ↦ hnotMem hheld.1⟩
  show page * PAGE_SIZE < 2 ^ 52
  simp only [PAGE_SIZE]
  omega

/-- Pages behind the sum of a list are not in it. -/
theorem new_of_sum (hfits : state.sum + 1 + pages ≤ 2 ^ 39) :
    ∀ page ∈ List.range' (state.sum + 1) pages, page ∉ state ∧ page < 2 ^ 39 := by
  intro page hpage
  rw [List.mem_range'_1] at hpage
  refine ⟨fun hmem ↦ ?_, by omega⟩
  have hle : page ≤ state.sum := List.le_sum_of_mem hmem
  omega

/-- The answers of the firmware to a request for pages anywhere. -/
theorem allocateAny_pageFirmware {image : Image}
    (hok : ((pageFirmware image).allocateAny state pages).1 = .ok addr) :
    state.sum + 1 + pages ≤ 2 ^ 39 ∧ addr = (state.sum + 1) * PAGE_SIZE ∧
      ((pageFirmware image).allocateAny state pages).2 =
        state ++ List.range' (state.sum + 1) pages := by
  simp only [pageFirmware] at hok ⊢
  split_ifs at hok ⊢ with hfits
  exact ⟨hfits, (Except.ok.inj hok).symm, rfl⟩

end PageFirmware

theorem pageFirmware_honest (image : Image) :
    Honest (pageFirmware image) fun state ↦ {page | page ∈ state ∧ page < 2 ^ 39} where
  fixed_free state addr pages haddr _ hgranted := by
    simp only [pageFirmware] at hgranted
    split_ifs at hgranted with hnew
    exact free_of_new haddr rfl hnew
  fixed_held state addr pages haddr _ hgranted := by
    simp only [pageFirmware] at hgranted ⊢
    split_ifs at hgranted ⊢ with hnew
    exact held_append rfl haddr rfl fun page hpage ↦ (hnew page hpage).2
  any_aligned state pages addr _ hok := by
    obtain ⟨_, rfl, _⟩ := allocateAny_pageFirmware hok
    exact ⟨Dvd.intro_left _ rfl, Nat.mul_ne_zero (Nat.succ_ne_zero _) (by decide)⟩
  any_free state pages addr _ hok := by
    obtain ⟨hfits, rfl, _⟩ := allocateAny_pageFirmware hok
    exact free_of_new (Dvd.intro_left _ rfl) (Nat.mul_div_cancel _ (by decide)) (new_of_sum hfits)
  any_held state pages addr _ hok := by
    obtain ⟨hfits, rfl, hafter⟩ := allocateAny_pageFirmware hok
    exact held_append hafter (Dvd.intro_left _ rfl) (Nat.mul_div_cancel _ (by decide))
      fun page hpage ↦ (new_of_sum hfits page hpage).2
  buffer_allocated _ _ := rfl
  buffer_freed _ _ := rfl
  map_apart state m := by
    refine List.pairwise_append.mpr ⟨?_, List.pairwise_singleton _ _, ?_⟩
    · refine List.pairwise_map.mpr
        (((List.nodup_dedup state).filter _).imp_of_mem fun hpage hother hne ↦ ?_)
      rw [span_heldDescriptor (mem_heldPages.mp hpage).2,
        span_heldDescriptor (mem_heldPages.mp hother).2]
      exact disjoint_frameBytes (Dvd.intro_left _ rfl) (Dvd.intro_left _ rfl) fun heq ↦
        hne (Nat.eq_of_mul_eq_mul_right (by decide) heq)
    · intro descriptor hdescriptor spare hspare
      obtain ⟨page, hpage, rfl⟩ := List.mem_map.mp hdescriptor
      rw [List.mem_singleton.mp hspare]
      refine Span.Apart.disjoint (Or.inl ?_)
      rw [span_heldDescriptor (mem_heldPages.mp hpage).2, Span.stop_mk]
      have hbelow := (mem_heldPages.mp hpage).2
      show page * 4096 + 4096 ≤ 0x8000000000000
      omega
  map_below state m := by
    intro descriptor hdescriptor
    rcases List.mem_append.mp hdescriptor with hmem | hmem
    · obtain ⟨page, hpage, rfl⟩ := List.mem_map.mp hmem
      rw [span_heldDescriptor (mem_heldPages.mp hpage).2, Span.stop_mk]
      have hbelow := (mem_heldPages.mp hpage).2
      show page * 4096 + 4096 ≤ 2 ^ 52
      omega
    · rw [List.mem_singleton.mp hmem]
      decide
  map_held state m page hpage addr haddr := by
    have hbelow : page < 2 ^ 39 := hpage.2
    refine ⟨heldDescriptor page, List.mem_append_left _ (List.mem_map_of_mem
      (mem_heldPages.mpr hpage)), rfl, ?_⟩
    rw [span_heldDescriptor hbelow]
    exact haddr
  exit_keeps _ _ _ _ := rfl

/-- The small image in a firmware that has granted nothing: the kernel is entered with one usable
region. -/
theorem main_entered : ∃ kernel s', main 121 (pageFirmware (smallImage 0 16 4 8))
      ⟨fun _ ↦ 7, [], []⟩ = .ok kernel s' ∧
    runs (BootInfo.memoryRegions kernel.mem kernel.rdi) = [⟨0x8000000000000, 512⟩] := by
  have hran : ((main 121 (pageFirmware (smallImage 0 16 4 8))).run' ⟨fun _ ↦ 7, [], []⟩).map
      (fun kernel ↦ runs (BootInfo.memoryRegions kernel.mem kernel.rdi)) =
        some [⟨0x8000000000000, 512⟩] := by
    decide +kernel
  delta EStateM.run' EStateM.run at hran
  cases hresult : main 121 (pageFirmware (smallImage 0 16 4 8)) ⟨fun _ ↦ 7, [], []⟩ with
  | ok kernel s' =>
    rw [hresult] at hran
    exact ⟨kernel, s', rfl, Option.some.inj hran⟩
  | error stop s' =>
    rw [hresult] at hran
    exact nomatch hran

theorem pageFirmware_suffices {image : Image} (hsize : image.bytes.length = 120) :
    Suffices 121 (pageFirmware image).files := by
  intro file size hopens hinfo
  have hfile := hopens.openFile
  injection hfile with hfile
  injection hfile with hfile
  rw [← hfile, hsize] at hinfo
  injection hinfo with hinfo
  rw [← hinfo]
  decide

/-! ### The bootloader and the kernel -/

section System

variable {σ : Type} {firmware : BootFirmware σ} {held : σ → Set ℕ} {fuel : ℕ}

/-- The bootloader never faults. When it enters the kernel, the segments of the file are in memory,
the registers are those of a call of the entry point with interrupts off, and the record in `rdi` is
valid and describes the mode, the kernel and the leading regions of the final map. Assumes: the
firmware keeps its promises, and there are turns enough to read the file. -/
theorem main_hands_over (hhonest : Honest firmware held) (hfuel : Suffices fuel firmware.files)
    (s : LoaderState σ) (hstart : s.granted = []) :
    (∀ fault s', main fuel firmware s ≠ .error (.fault fault) s') ∧
      ∀ kernel s', main fuel firmware s = .ok kernel s' →
        ∃ image, Entered firmware image kernel s' := by
  have hmain := main_contract hhonest hfuel
  constructor
  · intro fault s' hran
    exact hmain.stops s hstart _ s' hran fault rfl
  · intro kernel s' hran
    exact hmain.returns s hstart kernel s' hran

theorem main_hands_over_smallImage : ∃ kernel s' image,
    main 121 (pageFirmware (smallImage 0 16 4 8)) ⟨fun _ ↦ 7, [], []⟩ = .ok kernel s' ∧
      Entered (pageFirmware (smallImage 0 16 4 8)) image kernel s' := by
  obtain ⟨kernel, s', hran, -⟩ := main_entered
  obtain ⟨image, hentered⟩ := (main_hands_over (pageFirmware_honest _)
    (pageFirmware_suffices rfl) ⟨fun _ ↦ 7, [], []⟩ rfl).2 kernel s' hran
  exact ⟨kernel, s', image, hran, hentered⟩

end System

end Bootloader

end RustBL
