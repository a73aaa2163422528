import RustBL.Bootloader.Elf.Format
import Mathlib.Data.List.Range

/-!
# One segment and the loop over the headers

What `load_segment` does to a sane segment, as a function of the state: `LoadSegment.loaded` is the
state after it, with the pages zeroed, the file bytes in place and the grant recorded. `Grants` is
the condition on the firmware. `loadSegments_eq` is the loop: it stops for the first failure of
`walkChecks`, which threads the firmware through the grants, and otherwise has loaded the `PT_LOAD`
segments one after the other.

Nothing here is assumed of the page allocator.
-/

set_option autoImplicit false
set_option relaxedAutoImplicit false

namespace RustBL

namespace Elf

/-- A segment that passed the checks of `load_kernel`. -/
structure LoadSegment.Sane (image : Image) (segment : LoadSegment) : Prop where
  filesz_le : segment.filesz ≤ segment.memsz
  file_inside : segment.offset + segment.filesz ≤ image.bytes.length
  memory_fits : segment.vaddr + segment.memsz < 2 ^ 64

/-- Whether a segment is sane depends on the length of the image only. -/
theorem LoadSegment.Sane.congr {image image' : Image} {segment : LoadSegment}
    (hlength : image'.bytes.length = image.bytes.length) (hsane : segment.Sane image) :
    segment.Sane image' where
  filesz_le := hsane.filesz_le
  file_inside := hlength ▸ hsane.file_inside
  memory_fits := hsane.memory_fits

/-- The number of pages of a segment. -/
def LoadSegment.pageCount (segment : LoadSegment) : ℕ :=
  segment.pages.size / PAGE_SIZE

namespace LoadSegment

section Pages

variable (segment : LoadSegment)

theorem pageStart_le : segment.pageStart ≤ segment.vaddr :=
  Nat.div_mul_le_self _ _

theorem page_dvd_pageStart : PAGE_SIZE ∣ segment.pageStart :=
  Nat.dvd_mul_left _ _

/-- The pages of a segment end on a page boundary at or above its end. -/
theorem pages_stop : segment.pages.stop = roundUp (segment.vaddr + segment.memsz) PAGE_SIZE := by
  have hstart := segment.pageStart_le
  have hround := le_roundUp (segment.vaddr + segment.memsz) PAGE_SIZE
  have hstop : segment.pages.stop = segment.pageStart +
      (roundUp (segment.vaddr + segment.memsz) PAGE_SIZE - segment.pageStart) := rfl
  omega

/-- The page count of the source: the padding and the segment, in pages rounded up. -/
theorem pageCount_eq : segment.pageCount =
    (segment.vaddr - segment.pageStart + segment.memsz + (PAGE_SIZE - 1)) / PAGE_SIZE := by
  have hpage : 0 < PAGE_SIZE := by decide
  simp only [pageCount, pages, pageStart, roundUp_eq_div _ hpage]
  simp only [PAGE_SIZE]
  omega

theorem pages_size_eq : segment.pages.size = segment.pageCount * PAGE_SIZE := by
  have hpage : 0 < PAGE_SIZE := by decide
  simp only [pageCount, pages, pageStart, roundUp_eq_div _ hpage]
  simp only [PAGE_SIZE]
  omega

/-- A segment has no pages exactly when its padding and its size are zero. -/
theorem pageCount_eq_zero : segment.pageCount = 0 ↔
    segment.vaddr - segment.pageStart + segment.memsz = 0 := by
  rw [pageCount_eq]
  simp only [PAGE_SIZE]
  omega

end Pages

/-- The memory after a segment was loaded: its pages zeroed and its file bytes in place. -/
def fillPages (image : Image) (segment : LoadSegment) (m : Mem) : Mem :=
  if segment.pageCount = 0 then m
  else (m.fill segment.pageStart segment.pages.size 0).write segment.vaddr
    ((image.bytes.drop segment.offset).take segment.filesz)

/-- The grant a segment takes: its pages, or nothing when it has none. -/
def grant (segment : LoadSegment) : List (ℕ × ℕ) :=
  if segment.pageCount = 0 then [] else [(segment.pageStart, segment.pageCount)]

section Firmware

variable {σ : Type} (allocator : PageAllocator σ)

/-- The firmware grants the pages of a segment, if it has any. -/
def Grants (segment : LoadSegment) (firmware : σ) : Prop :=
  segment.pageCount ≠ 0 →
    (allocator.allocatePages firmware segment.pageStart segment.pageCount).1 = true

/-- The firmware after a segment was loaded. -/
def firmwareAfter (segment : LoadSegment) (firmware : σ) : σ :=
  if segment.pageCount = 0 then firmware
  else (allocator.allocatePages firmware segment.pageStart segment.pageCount).2

/-- The state after a segment was loaded. -/
def loaded (image : Image) (s : LoaderState σ) (segment : LoadSegment) : LoaderState σ :=
  ⟨segment.fillPages image s.mem, segment.firmwareAfter allocator s.firmware,
    s.granted ++ segment.grant⟩

end Firmware

end LoadSegment

section Outcome

variable {σ : Type}

theorem bind_ok {α β : Type} {first : Loader σ α} {next : α → Loader σ β} {s s' : LoaderState σ}
    {value : α} (h : first s = .ok value s') : (first >>= next) s = next value s' := by
  simp only [bind, EStateM.bind, h]

theorem bind_error {α β : Type} {first : Loader σ α} {next : α → Loader σ β}
    {s s' : LoaderState σ} {stop : Stop} (h : first s = .error stop s') :
    (first >>= next) s = .error stop s' := by
  simp only [bind, EStateM.bind, h]

/-- A run that returned a value has it as its result. -/
theorem run'_of_ok {α : Type} {run : Loader σ α} {s s' : LoaderState σ} {value : α}
    (h : run s = .ok value s') : run.run' s = some value := by
  delta EStateM.run' EStateM.run
  rw [h]

/-- A run whose result is a value returned it. -/
theorem ok_of_run' {α : Type} {run : Loader σ α} {s : LoaderState σ} {value : α}
    (h : run.run' s = some value) : ∃ s', run s = .ok value s' := by
  cases hresult : run s with
  | ok value' s' =>
    rw [run'_of_ok hresult] at h
    exact ⟨s', by rw [Option.some.inj h]⟩
  | error stop s' =>
    delta EStateM.run' EStateM.run at h
    rw [hresult] at h
    exact absurd h.symm (Option.some_ne_none value)

theorem lift_ok_bind {α β : Type} (value : α) (next : α → Loader σ β) :
    (lift (.ok value) >>= next) = next value :=
  rfl

variable (allocator : PageAllocator σ) {image : Image} {segment : LoadSegment} {s : LoaderState σ}

/-- `load_segment` on a sane segment, once the padding is subtracted and added. -/
theorem loadSegment_eq (hsane : segment.Sane image) (hvaddr : segment.vaddr < 2 ^ 64) :
    loadSegment allocator image segment =
      if segment.pageCount = 0 then return ()
      else (do
        allocatePages allocator segment.pageStart segment.pageCount
        let len ← lift (checked (Word.mul segment.pageCount PAGE_SIZE))
        writeZeros segment.pageStart len
        copyFromImage image segment.offset segment.vaddr segment.filesz segment.pageStart len) := by
  have hstart := segment.pageStart_le
  have hfits := hsane.memory_fits
  have halign : alignDown segment.vaddr = segment.pageStart := alignDown_eq hvaddr
  have htotal : Word.checkedAdd (segment.vaddr - segment.pageStart) segment.memsz =
      some (segment.vaddr - segment.pageStart + segment.memsz) :=
    Word.checkedAdd_eq_some.mpr ⟨by omega, rfl⟩
  rw [loadSegment, halign, Word.sub_eq hstart, checked_ok, lift_ok_bind, htotal, okOr_some,
    lift_ok_bind]
  simp only [← segment.pageCount_eq, ← segment.pageCount_eq_zero]

/-- A sane segment without pages is loaded by doing nothing. -/
theorem loadSegment_of_no_pages (hsane : segment.Sane image) (hvaddr : segment.vaddr < 2 ^ 64)
    (hpages : segment.pageCount = 0) (s : LoaderState σ) :
    loadSegment allocator image segment s = .ok () s := by
  rw [loadSegment_eq allocator hsane hvaddr, if_pos hpages]
  rfl

/-- A sane segment whose pages are refused stops the loader. -/
theorem loadSegment_of_refused (hsane : segment.Sane image) (hvaddr : segment.vaddr < 2 ^ 64)
    (hno : ¬ segment.Grants allocator s.firmware) :
    loadSegment allocator image segment s = .error (.elf .allocationFailed)
      ⟨s.mem, (allocator.allocatePages s.firmware segment.pageStart segment.pageCount).2,
        s.granted⟩ := by
  have hpages : segment.pageCount ≠ 0 := fun hzero ↦ hno fun hne ↦ absurd hzero hne
  rw [loadSegment_eq allocator hsane hvaddr, if_neg hpages]
  refine bind_error ?_
  rw [allocatePages]
  cases hanswer : allocator.allocatePages s.firmware segment.pageStart segment.pageCount with
  | mk granted firmware =>
  cases granted with
  | false => rfl
  | true => exact absurd (fun _ ↦ by rw [hanswer]) hno

/-- The pages of a segment that are granted are recorded. -/
theorem allocatePages_of_granted (hpages : segment.pageCount ≠ 0)
    (hgrants : segment.Grants allocator s.firmware) :
    allocatePages allocator segment.pageStart segment.pageCount s =
      .ok () ⟨s.mem, segment.firmwareAfter allocator s.firmware, s.granted ++ segment.grant⟩ := by
  have hgranted := hgrants hpages
  rw [allocatePages, LoadSegment.firmwareAfter, LoadSegment.grant, if_neg hpages, if_neg hpages]
  cases hanswer : allocator.allocatePages s.firmware segment.pageStart segment.pageCount with
  | mk granted firmware =>
  rw [hanswer] at hgranted
  simp only at hgranted
  rw [hgranted]

/-- A sane segment whose pages are granted stops the loader when their length is no word. -/
theorem loadSegment_of_overlong (hsane : segment.Sane image) (hvaddr : segment.vaddr < 2 ^ 64)
    (hgrants : segment.Grants allocator s.firmware) (hlarge : 2 ^ 64 ≤ segment.pages.size) :
    loadSegment allocator image segment s = .error (.fault .overflow)
      ⟨s.mem, segment.firmwareAfter allocator s.firmware, s.granted ++ segment.grant⟩ := by
  have hpages : segment.pageCount ≠ 0 := by
    intro hempty
    rw [segment.pages_size_eq, hempty, Nat.zero_mul] at hlarge
    exact absurd hlarge (by decide)
  have hmul : Word.mul segment.pageCount PAGE_SIZE = .error .overflow := by
    rw [Word.mul, ← segment.pages_size_eq, if_neg (not_lt.mpr hlarge)]
  rw [loadSegment_eq allocator hsane hvaddr, if_neg hpages,
    bind_ok (allocatePages_of_granted allocator hpages hgrants), hmul]
  rfl

/-- A sane segment whose pages are granted is loaded when their length is a word. -/
theorem loadSegment_of_granted (hsane : segment.Sane image) (hvaddr : segment.vaddr < 2 ^ 64)
    (hgrants : segment.Grants allocator s.firmware) (hsize : segment.pages.size < 2 ^ 64) :
    loadSegment allocator image segment s = .ok () (segment.loaded allocator image s) := by
  by_cases hpages : segment.pageCount = 0
  · rw [loadSegment_of_no_pages allocator hsane hvaddr hpages, LoadSegment.loaded,
      LoadSegment.fillPages, LoadSegment.firmwareAfter, LoadSegment.grant, if_pos hpages,
      if_pos hpages, if_pos hpages, List.append_nil]
  have hmul : Word.mul segment.pageCount PAGE_SIZE = .ok segment.pages.size := by
    rw [segment.pages_size_eq, Word.mul_eq (by rwa [← segment.pages_size_eq])]
  have hlow := segment.pageStart_le
  have hhigh := le_roundUp (segment.vaddr + segment.memsz) PAGE_SIZE
  have hstop := segment.pages_stop
  have hspan : segment.pages.stop = segment.pageStart + segment.pages.size := rfl
  have hfilesz := hsane.filesz_le
  rw [loadSegment_eq allocator hsane hvaddr, if_neg hpages,
    bind_ok (allocatePages_of_granted allocator hpages hgrants), hmul, checked_ok, lift_ok_bind,
    LoadSegment.loaded, LoadSegment.fillPages, if_neg hpages]
  -- The source lies in the image, and the target in the pages just granted.
  exact if_pos ⟨hsane.file_inside, hlow, by omega⟩

/-- A segment that was loaded has pages whose length is a word, and the state is the one after it
was loaded. -/
theorem loadSegment_ok (hsane : segment.Sane image) (hvaddr : segment.vaddr < 2 ^ 64)
    {s' : LoaderState σ} (hran : loadSegment allocator image segment s = .ok () s') :
    segment.pages.size < 2 ^ 64 ∧ s' = segment.loaded allocator image s := by
  by_cases hgrants : segment.Grants allocator s.firmware
  swap
  · rw [loadSegment_of_refused allocator hsane hvaddr hgrants] at hran
    exact nomatch hran
  by_cases hsize : segment.pages.size < 2 ^ 64
  swap
  · rw [loadSegment_of_overlong allocator hsane hvaddr hgrants (not_lt.mp hsize)] at hran
    exact nomatch hran
  rw [loadSegment_of_granted allocator hsane hvaddr hgrants hsize] at hran
  injection hran with _ hstate
  exact ⟨hsize, hstate.symm⟩

end Outcome

/-! ### The loop over the headers -/

theorem Image.segment_vaddr_lt (image : Image) (index : ℕ) :
    (image.segment index).vaddr < 2 ^ 64 :=
  Bytes.word_lt _ _ _

/-- A `PT_LOAD` segment that passed its checks is sane. -/
theorem Image.sane_of_checks {image : Image} {index : ℕ} (hload : image.IsLoad index)
    (h : firstFailure (image.sanityChecks index) = none) : (image.segment index).Sane image := by
  have hall := firstFailure_eq_none.mp h
  rw [Image.sanityChecks, if_pos hload, List.forall_mem_cons] at hall
  simp only [Image.loadChecks, List.forall_mem_cons] at hall
  obtain ⟨_, hfilesz, hfile, hmemory, _⟩ := hall
  exact ⟨hfilesz, hfile, hmemory⟩

/-- The extent after a segment. -/
def Extent.add (extent : Extent) (segment : LoadSegment) : Extent :=
  ⟨min extent.lowest segment.pageStart, max extent.highest (segment.vaddr + segment.memsz), true⟩

section Walk

variable {σ : Type} (allocator : PageAllocator σ) (image : Image)

open LoadSegment in
/-- What the loop checks of `remaining` headers from `index` on, in order, with the firmware it has
when it gets there. -/
noncomputable def walkChecks : ℕ → ℕ → σ → List Check
  | 0, _, _ => []
  | remaining + 1, index, firmware =>
    image.sanityChecks index ++
      if image.IsLoad index then
        ((image.segment index).Grants allocator firmware, .elf .allocationFailed) ::
          ((image.segment index).pages.size < 2 ^ 64, .fault .overflow) ::
            walkChecks remaining (index + 1)
              (firmwareAfter allocator (image.segment index) firmware)
      else walkChecks remaining (index + 1) firmware

theorem Image.loads_succ_of_load {remaining index : ℕ} (hload : image.IsLoad index) :
    image.loads (remaining + 1) index =
      image.segment index :: image.loads remaining (index + 1) := by
  rw [Image.loads, List.range'_succ, List.filter_cons_of_pos (by simpa using hload), List.map_cons,
    Image.loads]

theorem Image.loads_succ_of_not_load {remaining index : ℕ} (hload : ¬ image.IsLoad index) :
    image.loads (remaining + 1) index = image.loads remaining (index + 1) := by
  rw [Image.loads, List.range'_succ, List.filter_cons_of_neg (by simpa using hload), Image.loads]

theorem Image.loads_concat_of_load {count : ℕ} (hload : image.IsLoad count) :
    image.loads (count + 1) 0 = image.loads count 0 ++ [image.segment count] := by
  have hlast : [count].filter (image.IsLoad ·) = [count] :=
    List.filter_cons_of_pos (by simpa using hload)
  rw [Image.loads, List.range'_1_concat, Nat.zero_add, List.filter_append, hlast, List.map_append,
    Image.loads]
  rfl

section Turn

variable {image} {remaining index : ℕ} {extent : Extent}

/-- The loop stops at a header that fails its checks. -/
theorem loadSegments_stop {stop : Stop}
    (hstop : firstFailure (image.sanityChecks index) = some stop) (s : LoaderState σ) :
    loadSegments allocator image image.phoff PHDR_SIZE (remaining + 1) index extent s =
      .error stop s := by
  rw [loadSegments, readSegment_eq, hstop]
  rfl

/-- The loop passes over a header that is not `PT_LOAD`. -/
theorem loadSegments_skip (hsane : firstFailure (image.sanityChecks index) = none)
    (hload : ¬ image.IsLoad index) :
    loadSegments allocator image image.phoff PHDR_SIZE (remaining + 1) index extent =
      loadSegments allocator image image.phoff PHDR_SIZE remaining (index + 1) extent := by
  rw [loadSegments, readSegment_eq, hsane, if_neg hload]
  rfl

/-- The loop loads a `PT_LOAD` segment and goes on. -/
theorem loadSegments_load (hsane : firstFailure (image.sanityChecks index) = none)
    (hload : image.IsLoad index) :
    loadSegments allocator image image.phoff PHDR_SIZE (remaining + 1) index extent =
      (loadSegment allocator image (image.segment index) >>= fun _ ↦
        loadSegments allocator image image.phoff PHDR_SIZE remaining (index + 1)
          (extent.add (image.segment index))) := by
  rw [loadSegments, readSegment_eq, hsane, if_pos hload]
  rfl

end Turn

/-- The loop stops for the first failure of its checks. Otherwise it loads the `PT_LOAD` segments
one after the other. -/
theorem loadSegments_eq (remaining index : ℕ) (extent : Extent) (s : LoaderState σ) :
    match firstFailure (walkChecks allocator image remaining index s.firmware) with
    | some stop => ∃ s',
        loadSegments allocator image image.phoff PHDR_SIZE remaining index extent s = .error stop s'
    | none => loadSegments allocator image image.phoff PHDR_SIZE remaining index extent s =
        .ok ((image.loads remaining index).foldl Extent.add extent)
          ((image.loads remaining index).foldl (LoadSegment.loaded allocator image) s) := by
  induction remaining generalizing index extent s with
  | zero => exact rfl
  | succ remaining ih =>
    rw [walkChecks, firstFailure_append]
    cases hsanity : firstFailure (image.sanityChecks index) with
    | some stop => exact ⟨s, loadSegments_stop allocator hsanity s⟩
    | none =>
      simp only [Option.elim]
      by_cases hload : image.IsLoad index
      swap
      · rw [if_neg hload, image.loads_succ_of_not_load hload,
          loadSegments_skip allocator hsanity hload]
        exact ih (index + 1) extent s
      rw [if_pos hload, image.loads_succ_of_load hload, loadSegments_load allocator hsanity hload]
      simp only [List.foldl_cons]
      have hsane := image.sane_of_checks hload hsanity
      have hvaddr := image.segment_vaddr_lt index
      by_cases hgrants : (image.segment index).Grants allocator s.firmware
      swap
      · rw [firstFailure_cons_neg hgrants]
        exact ⟨_, bind_error (loadSegment_of_refused allocator hsane hvaddr hgrants)⟩
      by_cases hsize : (image.segment index).pages.size < 2 ^ 64
      swap
      · rw [firstFailure_cons_pos hgrants, firstFailure_cons_neg hsize]
        exact ⟨_, bind_error
          (loadSegment_of_overlong allocator hsane hvaddr hgrants (not_lt.mp hsize))⟩
      rw [firstFailure_cons_pos hgrants, firstFailure_cons_pos hsize,
        bind_ok (loadSegment_of_granted allocator hsane hvaddr hgrants hsize)]
      exact ih (index + 1) (extent.add (image.segment index))
        ((image.segment index).loaded allocator image s)

end Walk

/-! ### The whole loader -/

/-- The `PT_LOAD` segments of an image, in header order. -/
def Image.segments (image : Image) : List LoadSegment :=
  image.loads image.phnum 0

section Segments

variable {image : Image}

theorem Image.mem_segments {segment : LoadSegment} : segment ∈ image.segments ↔
    ∃ index < image.phnum, image.IsLoad index ∧ image.segment index = segment := by
  simp [Image.segments, Image.loads, and_assoc]

theorem Image.exists_segment {P : LoadSegment → Prop} : (∃ segment ∈ image.segments, P segment) ↔
    ∃ index < image.phnum, image.IsLoad index ∧ P (image.segment index) := by
  simp only [Image.mem_segments]
  constructor
  · rintro ⟨_, ⟨index, hindex, hload, rfl⟩, hP⟩
    exact ⟨index, hindex, hload, hP⟩
  · rintro ⟨index, hindex, hload, hP⟩
    exact ⟨_, ⟨index, hindex, hload, rfl⟩, hP⟩

theorem Image.segments_ne_nil :
    image.segments ≠ [] ↔ ∃ index < image.phnum, image.IsLoad index := by
  constructor
  · intro hne
    obtain ⟨segment, hmem⟩ := List.exists_mem_of_ne_nil _ hne
    obtain ⟨index, hindex, hload, _⟩ := Image.mem_segments.mp hmem
    exact ⟨index, hindex, hload⟩
  · rintro ⟨index, hindex, hload⟩
    exact List.ne_nil_of_mem (Image.mem_segments.mpr ⟨index, hindex, hload, rfl⟩)

end Segments

/-- An address inside a `PT_LOAD` segment. -/
def Image.InSegment (image : Image) (addr : ℕ) : Prop :=
  ∃ index < image.phnum, image.IsLoad index ∧ (image.segment index).vaddr ≤ addr ∧
    addr < (image.segment index).vaddr + (image.segment index).memsz

instance (image : Image) (addr : ℕ) : Decidable (image.InSegment addr) :=
  inferInstanceAs (Decidable (∃ index < image.phnum, _))

/-- The extent of the segments of an image. -/
def Image.extent (image : Image) : Extent :=
  image.segments.foldl Extent.add .start

/-- What `load_kernel` checks after the loop, in order. -/
def Image.finalChecks (image : Image) : List Check :=
  [(image.segments ≠ [], .elf .noLoadableSegments),
    ((∃ segment ∈ image.segments, segment.pageStart ≤ image.entry) ∧
      ∃ segment ∈ image.segments, image.entry < segment.vaddr + segment.memsz,
      .elf .entryOutOfRange),
    (image.extent.highest + (PAGE_SIZE - 1) < 2 ^ 64, .fault .overflow)]

/-- What `load_kernel` checks, in order, with the firmware it starts from. -/
noncomputable def kernelChecks {σ : Type} (allocator : PageAllocator σ) (image : Image)
    (firmware : σ) : List Check :=
  image.headerChecks ++ (walkChecks allocator image image.phnum 0 firmware ++ image.finalChecks)

section Extent

variable {segments : List LoadSegment} {extent : Extent}

theorem Extent.foldl_lowest_le {bound : ℕ} : (segments.foldl Extent.add extent).lowest ≤ bound ↔
    extent.lowest ≤ bound ∨ ∃ segment ∈ segments, segment.pageStart ≤ bound := by
  induction segments generalizing extent with
  | nil => simp
  | cons segment segments ih =>
    rw [List.foldl_cons, ih, Extent.add]
    simp only [min_le_iff, List.exists_mem_cons_iff, or_assoc]

theorem Extent.lt_foldl_highest {bound : ℕ} : bound < (segments.foldl Extent.add extent).highest ↔
    bound < extent.highest ∨ ∃ segment ∈ segments, bound < segment.vaddr + segment.memsz := by
  induction segments generalizing extent with
  | nil => simp
  | cons segment segments ih =>
    rw [List.foldl_cons, ih, Extent.add]
    simp only [lt_max_iff, List.exists_mem_cons_iff, or_assoc]

theorem Extent.foldl_loadedAny : (segments.foldl Extent.add extent).loadedAny = false ↔
    extent.loadedAny = false ∧ segments = [] := by
  induction segments generalizing extent with
  | nil => simp
  | cons segment segments ih =>
    rw [List.foldl_cons, ih, Extent.add]
    simp

/-- The highest end can be rounded up to a page exactly when the end of every segment can. -/
theorem Image.highest_fits (image : Image) : image.extent.highest + (PAGE_SIZE - 1) < 2 ^ 64 ↔
    ∀ segment ∈ image.segments, segment.vaddr + segment.memsz + (PAGE_SIZE - 1) < 2 ^ 64 := by
  have habove : 2 ^ 64 - PAGE_SIZE < image.extent.highest ↔ 2 ^ 64 - PAGE_SIZE < 0 ∨
      ∃ segment ∈ image.segments, 2 ^ 64 - PAGE_SIZE < segment.vaddr + segment.memsz :=
    Extent.lt_foldl_highest
  constructor
  · intro hfits segment hmem
    by_contra hlarge
    have hhighest := habove.mpr (Or.inr ⟨segment, hmem, by simp only [PAGE_SIZE] at *; omega⟩)
    simp only [PAGE_SIZE] at hhighest hfits
    omega
  · intro hall
    by_contra hlarge
    rcases habove.mp (by simp only [PAGE_SIZE] at *; omega) with hstart | ⟨segment, hmem, hsegment⟩
    · exact absurd hstart (Nat.not_lt_zero _)
    · have hsegmentFits := hall segment hmem
      simp only [PAGE_SIZE] at hsegment hsegmentFits
      omega

end Extent

section Kernel

variable {σ : Type} (allocator : PageAllocator σ) (image : Image)

/-- The entry point passes the test of the source exactly when it lies between the first page of
some segment and the end of some segment. Assumes: there is a segment. -/
theorem Image.entry_in_extent (hsegments : image.segments ≠ []) :
    ¬ (image.entry < image.extent.lowest ∨ image.extent.highest ≤ image.entry) ↔
      (∃ segment ∈ image.segments, segment.pageStart ≤ image.entry) ∧
        ∃ segment ∈ image.segments, image.entry < segment.vaddr + segment.memsz := by
  rw [not_or, not_lt, not_le, Image.extent, Extent.foldl_lowest_le, Extent.lt_foldl_highest]
  simp only [Extent.start, Nat.not_lt_zero, false_or]
  refine and_congr_left fun _ ↦ ⟨?_, Or.inr⟩
  rintro (hmax | hlow)
  · -- The highest word is above the first page of every segment.
    obtain ⟨segment, hsegment⟩ := List.exists_mem_of_ne_nil _ hsegments
    obtain ⟨index, _, rfl⟩ := List.mem_map.mp hsegment
    have hstart := (image.segment index).pageStart_le
    have hvaddr := image.segment_vaddr_lt index
    exact ⟨_, hsegment, by omega⟩
  · exact hlow

theorem alignUp_eq {value : ℕ} (hfits : value + (PAGE_SIZE - 1) < 2 ^ 64) :
    alignUp value = .ok (roundUp value PAGE_SIZE) := by
  rw [alignUp, Word.add_eq hfits, ok_bind, alignDown_eq hfits, roundUp_eq_div _ (by decide)]
  rfl

/-- What `load_kernel` returns once the loop is done. -/
def report (entry : ℕ) (extent : Extent) : Except Stop LoadedKernel :=
  if extent.loadedAny = false then .error (.elf .noLoadableSegments)
  else if entry < extent.lowest ∨ extent.highest ≤ entry then .error (.elf .entryOutOfRange)
  else do
    let highest ← checked (alignUp extent.highest)
    let size ← checked (Word.sub highest extent.lowest)
    return ⟨entry, extent.lowest, size⟩

/-- An ELF header that is rejected stops `load_kernel` at once. -/
theorem loadKernel_of_rejected {stop : Stop} (hheader : parseHeader image = .error stop)
    (s : LoaderState σ) : loadKernel allocator image s = .error stop s := by
  rw [loadKernel, hheader]
  rfl

/-- Once the ELF header is read, `load_kernel` is the loop and the report. -/
theorem loadKernel_eq_report (hheader : firstFailure image.headerChecks = none) :
    loadKernel allocator image =
      (loadSegments allocator image image.phoff PHDR_SIZE image.phnum 0 .start >>= fun extent ↦
        lift (report image.entry extent)) := by
  rw [loadKernel, parseHeader_eq, hheader]
  simp only [settle, Option.elim, lift_ok_bind]
  congr 1
  funext extent
  rw [report]
  split_ifs
  · rfl
  · rfl
  · cases checked (alignUp extent.highest) with
    | error stop => rfl
    | ok highest =>
      rw [lift_ok_bind, ok_bind]
      cases checked (Word.sub highest extent.lowest) with
      | error stop => rfl
      | ok size => rfl

/-- The report stops for the first failure of the last checks. Otherwise it is the extent of the
segments. -/
theorem report_eq : report image.entry image.extent = settle (firstFailure image.finalChecks)
    ⟨image.entry, image.extent.lowest,
      roundUp image.extent.highest PAGE_SIZE - image.extent.lowest⟩ := by
  have hloaded : image.extent.loadedAny = false ↔ image.segments = [] := by
    rw [Image.extent, Extent.foldl_loadedAny]
    exact and_iff_right rfl
  rw [report, Image.finalChecks]
  by_cases hsegments : image.segments = []
  · rw [if_pos (hloaded.mpr hsegments), settle_neg (not_not.mpr hsegments)]
  rw [if_neg (mt hloaded.mp hsegments), settle_pos hsegments]
  have hentry := image.entry_in_extent hsegments
  by_cases hout : image.entry < image.extent.lowest ∨ image.extent.highest ≤ image.entry
  · rw [if_pos hout, settle_neg fun hin ↦ hentry.mpr hin hout]
  rw [if_neg hout, settle_pos (hentry.mp hout)]
  by_cases hfits : image.extent.highest + (PAGE_SIZE - 1) < 2 ^ 64
  swap
  · rw [settle_neg hfits, alignUp, Word.add, if_neg hfits]
    rfl
  have hround := le_roundUp image.extent.highest PAGE_SIZE
  rw [settle_pos hfits, alignUp_eq hfits, checked_ok, ok_bind, Word.sub_eq (by omega), checked_ok,
    ok_bind]
  rfl

/-- `load_kernel` stops for the first failure of its checks. Otherwise it has loaded the segments of
the image one after the other, and reports their extent. -/
theorem loadKernel_eq (s : LoaderState σ) :
    match firstFailure (kernelChecks allocator image s.firmware) with
    | some stop => ∃ s', loadKernel allocator image s = .error stop s'
    | none => loadKernel allocator image s =
        .ok ⟨image.entry, image.extent.lowest,
            roundUp image.extent.highest PAGE_SIZE - image.extent.lowest⟩
          (image.segments.foldl (LoadSegment.loaded allocator image) s) := by
  rw [kernelChecks, firstFailure_append, firstFailure_append]
  cases hheader : firstFailure image.headerChecks with
  | some stop =>
    refine ⟨s, loadKernel_of_rejected allocator image ?_ s⟩
    rw [parseHeader_eq, hheader]
    rfl
  | none =>
    rw [loadKernel_eq_report allocator image hheader]
    simp only [Option.elim]
    have hwalk := loadSegments_eq allocator image image.phnum 0 .start s
    cases hfailure : firstFailure (walkChecks allocator image image.phnum 0 s.firmware) with
    | some stop =>
      rw [hfailure] at hwalk
      obtain ⟨s', hran⟩ := hwalk
      exact ⟨s', bind_error hran⟩
    | none =>
      rw [hfailure] at hwalk
      simp only at hwalk ⊢
      rw [bind_ok hwalk, ← Image.segments, ← Image.extent, report_eq]
      cases firstFailure image.finalChecks with
      | some stop => exact ⟨_, rfl⟩
      | none => rfl

/-- A run that returns has passed every check, reports the extent of the segments, and ends in the
state in which they are loaded one after the other. -/
theorem loadKernel_ok {s s' : LoaderState σ} {kernel : LoadedKernel}
    (hran : loadKernel allocator image s = .ok kernel s') :
    firstFailure (kernelChecks allocator image s.firmware) = none ∧
      kernel = ⟨image.entry, image.extent.lowest,
        roundUp image.extent.highest PAGE_SIZE - image.extent.lowest⟩ ∧
      s' = image.segments.foldl (LoadSegment.loaded allocator image) s := by
  have heq := loadKernel_eq allocator image s
  cases hfailure : firstFailure (kernelChecks allocator image s.firmware) with
  | none =>
    rw [hfailure] at heq
    rw [heq] at hran
    injection hran with hkernel hstate
    exact ⟨rfl, hkernel.symm, hstate.symm⟩
  | some stop =>
    rw [hfailure] at heq
    obtain ⟨s'', hstopped⟩ := heq
    rw [hstopped] at hran
    exact nomatch hran

end Kernel

end Elf

end RustBL
