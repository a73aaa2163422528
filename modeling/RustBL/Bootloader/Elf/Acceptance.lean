import RustBL.Bootloader.Elf.Firmware

/-!
# Which images are accepted

`Image.Loadable` is the format the loader accepts, in terms of the image and the pages that are free
when the loader starts. It does not mention the order of the segments or what the firmware answers
in between.

`loadKernel_accepts` says that, on a firmware that keeps its promises, the loader accepts exactly
the loadable images, and otherwise stops for the first check of `Image.formatChecks` that fails. The
induction is on the headers left to read: the pages that are free when the loop reaches a header are
the pages free at the start, less those of the segments before it.
-/

set_option autoImplicit false
set_option relaxedAutoImplicit false

namespace RustBL

namespace Elf

namespace Image

/-! ### The format -/

section Format

variable (image : Image) (free : Set ℕ)

/-- The pages of the segment of a header are there to be granted: they are free at the start, and no
segment before it lies on them. -/
structure PagesLeft (index : ℕ) : Prop where
  free : pagesOf (image.segment index).pages ⊆ free ∩ physicalPages
  apart : ∀ earlier < index, image.IsLoad earlier →
    Disjoint (image.segment earlier).pages.bytes (image.segment index).pages.bytes

/-- What is demanded of a program header, in order. -/
def headerWalk (index : ℕ) : List Check :=
  image.sanityChecks index ++
    if image.IsLoad index then [(image.PagesLeft free index, .elf .allocationFailed)] else []

/-- What is demanded of an image, in order. -/
def formatChecks : List Check :=
  image.headerChecks ++ ((List.range' 0 image.phnum).flatMap (image.headerWalk free) ++
    [(∃ index < image.phnum, image.IsLoad index, .elf .noLoadableSegments),
      ((∃ index < image.phnum, image.IsLoad index ∧
          (image.segment index).pageStart ≤ image.entry) ∧
        ∃ index < image.phnum, image.IsLoad index ∧
          image.entry < (image.segment index).vaddr + (image.segment index).memsz,
        .elf .entryOutOfRange)])

/-- The images the loader accepts, with `free` the pages that are free at the start. -/
structure Loadable : Prop where
  size : EHDR_SIZE ≤ image.bytes.length
  magic : image.bytes.take 4 = ELF_MAGIC
  elfClass : image.bytes[EI_CLASS]? = some ELFCLASS64
  encoding : image.bytes[EI_DATA]? = some ELFDATA2LSB
  executable : Bytes.word image.bytes 16 2 = ET_EXEC
  machine : Bytes.word image.bytes 18 2 = EM_X86_64
  entry_size : Bytes.word image.bytes 54 2 = PHDR_SIZE
  headers_inside : ∀ index < image.phnum, image.header index + PHDR_SIZE ≤ image.bytes.length
  segments_sane : ∀ index < image.phnum, image.IsLoad index → (image.segment index).Sane image
  pages_free : ∀ index < image.phnum, image.IsLoad index →
    pagesOf (image.segment index).pages ⊆ free ∩ physicalPages
  pages_apart : ∀ index < image.phnum, ∀ other < image.phnum, image.IsLoad index →
    image.IsLoad other → index ≠ other →
      Disjoint (image.segment index).pages.bytes (image.segment other).pages.bytes
  some_load : ∃ index < image.phnum, image.IsLoad index
  entry_above : ∃ index < image.phnum, image.IsLoad index ∧
    (image.segment index).pageStart ≤ image.entry
  entry_below : ∃ index < image.phnum, image.IsLoad index ∧
    image.entry < (image.segment index).vaddr + (image.segment index).memsz

end Format

section Demands

variable {image : Image} {free : Set ℕ}

/-- What a header demands of the image. -/
theorem headerWalk_hold {index : ℕ} : (∀ check ∈ image.headerWalk free index, check.1) ↔
    image.header index + PHDR_SIZE ≤ image.bytes.length ∧
      (image.IsLoad index → (image.segment index).Sane image ∧ image.PagesLeft free index) := by
  rw [headerWalk, sanityChecks]
  by_cases hload : image.IsLoad index
  · simp only [if_pos hload, loadChecks, List.cons_append, List.nil_append, List.forall_mem_cons]
    constructor
    · rintro ⟨hin, hfilesz, hfile, hmemory, hleft, _⟩
      exact ⟨hin, fun _ ↦ ⟨⟨hfilesz, hfile, hmemory⟩, hleft⟩⟩
    · rintro ⟨hin, hall⟩
      obtain ⟨⟨hfilesz, hfile, hmemory⟩, hleft⟩ := hall hload
      exact ⟨hin, hfilesz, hfile, hmemory, hleft, List.forall_mem_nil _⟩
  · simp only [if_neg hload, List.append_nil, List.forall_mem_cons]
    exact ⟨fun hin ↦ ⟨hin.1, fun h ↦ absurd h hload⟩, fun h ↦ ⟨h.1, List.forall_mem_nil _⟩⟩

/-- The headers together demand that the segments are sane, on free pages, and apart. -/
theorem flatMap_headerWalk_hold {count : ℕ} :
    (∀ check ∈ (List.range' 0 count).flatMap (image.headerWalk free), check.1) ↔
      ∀ index < count, image.header index + PHDR_SIZE ≤ image.bytes.length ∧
        (image.IsLoad index → (image.segment index).Sane image ∧ image.PagesLeft free index) := by
  simp only [← headerWalk_hold]
  constructor
  · intro hall index hindex check hcheck
    exact hall check (List.mem_flatMap.mpr ⟨index, by simpa using hindex, hcheck⟩)
  · intro hall check hcheck
    obtain ⟨index, hindex, hmem⟩ := List.mem_flatMap.mp hcheck
    exact hall index (by simpa using hindex) check hmem

/-- The format is what the checks demand. -/
theorem loadable_iff : image.Loadable free ↔ firstFailure (image.formatChecks free) = none := by
  rw [firstFailure_eq_none, formatChecks, List.forall_mem_append, List.forall_mem_append,
    flatMap_headerWalk_hold]
  simp only [headerChecks, List.forall_mem_cons, List.not_mem_nil, false_implies, implies_true,
    and_true]
  constructor
  · intro h
    refine ⟨⟨h.size, h.magic, h.elfClass, h.encoding, h.executable, h.machine, h.entry_size⟩,
      fun index hindex ↦ ⟨h.headers_inside index hindex, fun hload ↦
        ⟨h.segments_sane index hindex hload, h.pages_free index hindex hload, ?_⟩⟩,
      h.some_load, ⟨h.entry_above, h.entry_below⟩⟩
    intro earlier hearlier hloadEarlier
    exact h.pages_apart earlier (hearlier.trans hindex) index hindex hloadEarlier hload hearlier.ne
  · rintro ⟨⟨hsize, hmagic, hclass, hencoding, htype, hmachine, hentsize⟩, hwalk, hload, hentry⟩
    refine ⟨hsize, hmagic, hclass, hencoding, htype, hmachine, hentsize,
      fun index hindex ↦ (hwalk index hindex).1,
      fun index hindex hload ↦ ((hwalk index hindex).2 hload).1,
      fun index hindex hload ↦ ((hwalk index hindex).2 hload).2.free, ?_, hload, hentry.1, hentry.2⟩
    intro index hindex other hother hloadIndex hloadOther hne
    rcases lt_or_gt_of_ne hne with hlt | hlt
    · exact ((hwalk other hother).2 hloadOther).2.apart index hlt hloadIndex
    · exact (((hwalk index hindex).2 hloadIndex).2.apart other hlt hloadOther).symm

end Demands

end Image

/-! ### The loop against the format -/

section Walk

variable {σ : Type} {allocator : PageAllocator σ} {free : σ → Set ℕ}

/-- The pages of the segments before a header. -/
def takenBefore (image : Image) (index : ℕ) : Set ℕ :=
  {page | ∃ earlier < index, image.IsLoad earlier ∧ page ∈ pagesOf (image.segment earlier).pages}

theorem takenBefore_zero (image : Image) : takenBefore image 0 = ∅ := by
  ext page
  simp [takenBefore]

theorem takenBefore_succ_of_load {image : Image} {index : ℕ} (hload : image.IsLoad index) :
    takenBefore image (index + 1) =
      takenBefore image index ∪ pagesOf (image.segment index).pages := by
  ext page
  constructor
  · rintro ⟨earlier, hearlier, hloadEarlier, hpage⟩
    rcases Nat.lt_succ_iff_lt_or_eq.mp hearlier with hlt | rfl
    · exact Or.inl ⟨earlier, hlt, hloadEarlier, hpage⟩
    · exact Or.inr hpage
  · rintro (⟨earlier, hearlier, hloadEarlier, hpage⟩ | hpage)
    · exact ⟨earlier, hearlier.trans (Nat.lt_succ_self index), hloadEarlier, hpage⟩
    · exact ⟨index, Nat.lt_succ_self index, hload, hpage⟩

theorem takenBefore_succ_of_not_load {image : Image} {index : ℕ} (hload : ¬ image.IsLoad index) :
    takenBefore image (index + 1) = takenBefore image index := by
  ext page
  constructor
  · rintro ⟨earlier, hearlier, hloadEarlier, hpage⟩
    rcases Nat.lt_succ_iff_lt_or_eq.mp hearlier with hlt | rfl
    · exact ⟨earlier, hlt, hloadEarlier, hpage⟩
    · exact absurd hloadEarlier hload
  · rintro ⟨earlier, hearlier, hloadEarlier, hpage⟩
    exact ⟨earlier, hearlier.trans (Nat.lt_succ_self index), hloadEarlier, hpage⟩

/-- What is left of the free pages holds a segment exactly when the segment is on free pages and
apart from the segments before it. -/
theorem pagesLeft_iff {image : Image} {initial : Set ℕ} {index : ℕ} :
    pagesOf (image.segment index).pages ⊆ (initial \ takenBefore image index) ∩ physicalPages ↔
      image.PagesLeft initial index := by
  constructor
  · intro hsub
    refine ⟨fun page hpage ↦ ⟨(hsub hpage).1.1, (hsub hpage).2⟩, fun earlier hearlier hload ↦ ?_⟩
    rw [← LoadSegment.disjoint_pagesOf, Set.disjoint_left]
    intro page hearlierPage hpage
    exact (hsub hpage).1.2 ⟨earlier, hearlier, hload, hearlierPage⟩
  · intro hleft page hpage
    refine ⟨⟨(hleft.free hpage).1, ?_⟩, (hleft.free hpage).2⟩
    rintro ⟨earlier, hearlier, hload, hearlierPage⟩
    have hapart := hleft.apart earlier hearlier hload
    rw [← LoadSegment.disjoint_pagesOf, Set.disjoint_left] at hapart
    exact hapart hearlierPage hpage

/-- The loop over the remaining headers fails as the format says, if the free pages it starts from
are those left by the segments before. -/
theorem firstFailure_walkChecks (hexact : allocator.Exact free) (image : Image)
    {initial : Set ℕ} (remaining index : ℕ) (firmware : σ)
    (hfree : free firmware = initial \ takenBefore image index) :
    firstFailure (walkChecks allocator image remaining index firmware) =
      firstFailure ((List.range' index remaining).flatMap (image.headerWalk initial)) := by
  induction remaining generalizing index firmware with
  | zero => rfl
  | succ remaining ih =>
    rw [walkChecks, List.range'_succ, List.flatMap_cons, Image.headerWalk, List.append_assoc]
    apply firstFailure_append_congr
    intro _
    by_cases hload : image.IsLoad index
    · rw [if_pos hload, if_pos hload, List.singleton_append]
      have hgrants : (image.segment index).Grants allocator firmware ↔
          image.PagesLeft initial index := by
        rw [LoadSegment.grants_iff hexact, hfree, pagesLeft_iff]
      refine firstFailure_cons_congr hgrants fun hgranted ↦ ?_
      have hpages := hgranted.pages_free hexact.toSound
      have hsize := (image.segment index).pages_size_lt (hpages.trans Set.inter_subset_right)
      rw [firstFailure_cons_pos hsize]
      apply ih
      rw [hgranted.free_after hexact.toSound, hfree, takenBefore_succ_of_load hload,
        Set.sdiff_sdiff]
    · rw [if_neg hload, if_neg hload, List.nil_append]
      apply ih
      rw [hfree, takenBefore_succ_of_not_load hload]

/-- The loader checks an image as the format says: the arithmetic after the loop cannot overflow. -/
theorem firstFailure_kernelChecks (hexact : allocator.Exact free) (image : Image) (firmware : σ) :
    firstFailure (kernelChecks allocator image firmware) =
      firstFailure (image.formatChecks (free firmware)) := by
  rw [kernelChecks, Image.formatChecks]
  refine firstFailure_append_congr fun _ ↦ ?_
  have hstart : free firmware = free firmware \ takenBefore image 0 := by
    rw [takenBefore_zero, Set.sdiff_empty]
  have hwalk := firstFailure_walkChecks hexact image image.phnum 0 firmware hstart
  rw [firstFailure_append, hwalk, ← firstFailure_append]
  refine firstFailure_append_congr fun hpassed ↦ ?_
  have hall := Image.flatMap_headerWalk_hold.mp (firstFailure_eq_none.mp hpassed)
  have hfits : image.extent.highest + (PAGE_SIZE - 1) < 2 ^ 64 := by
    rw [Image.highest_fits]
    intro segment hmem
    obtain ⟨index, hindex, hload, rfl⟩ := Image.mem_segments.mp hmem
    have hpages := ((hall index hindex).2 hload).2.free
    exact (image.segment index).stop_add_lt (image.segment_vaddr_lt index)
      (hpages.trans Set.inter_subset_right)
  rw [Image.finalChecks]
  refine firstFailure_cons_congr Image.segments_ne_nil fun _ ↦
    firstFailure_cons_congr (and_congr Image.exists_segment Image.exists_segment) fun _ ↦ ?_
  rw [firstFailure_cons_pos hfits]

/-- Every failure of the format is an `ElfError`. -/
theorem elf_of_firstFailure {image : Image} {initial : Set ℕ} {stop : Stop}
    (h : firstFailure (image.formatChecks initial) = some stop) : ∃ error, stop = .elf error := by
  obtain ⟨check, hcheck, rfl⟩ := exists_of_firstFailure h
  rw [Image.formatChecks, List.mem_append, List.mem_append, List.mem_flatMap] at hcheck
  rcases hcheck with hheader | ⟨index, _, hwalk⟩ | hfinal
  · simp only [Image.headerChecks, List.mem_cons, List.not_mem_nil, or_false] at hheader
    rcases hheader with rfl | rfl | rfl | rfl | rfl | rfl | rfl <;> exact ⟨_, rfl⟩
  · rw [Image.headerWalk, Image.sanityChecks, Image.loadChecks] at hwalk
    by_cases hload : image.IsLoad index
    · simp only [if_pos hload, List.cons_append, List.nil_append, List.mem_cons, List.not_mem_nil,
        or_false] at hwalk
      rcases hwalk with rfl | rfl | rfl | rfl | rfl <;> exact ⟨_, rfl⟩
    · simp only [if_neg hload, List.append_nil, List.mem_singleton] at hwalk
      exact ⟨_, congrArg Prod.snd hwalk⟩
  · simp only [List.mem_cons, List.not_mem_nil, or_false] at hfinal
    rcases hfinal with rfl | rfl <;> exact ⟨_, rfl⟩

end Walk

/-! ### Acceptance -/

/-- The loader accepts exactly the loadable images. It rejects every other image with the error of
the first check that fails. Assumes: the firmware keeps its promises. -/
theorem loadKernel_accepts {σ : Type} {allocator : PageAllocator σ} {free : σ → Set ℕ}
    (hexact : allocator.Exact free) (image : Image) (s : LoaderState σ) :
    ((∃ kernel s', loadKernel allocator image s = .ok kernel s') ↔
        image.Loadable (free s.firmware)) ∧
      (¬ image.Loadable (free s.firmware) → ∃ error s',
        loadKernel allocator image s = .error (.elf error) s' ∧
          firstFailure (image.formatChecks (free s.firmware)) = some (.elf error)) := by
  have hran := loadKernel_eq allocator image s
  rw [firstFailure_kernelChecks hexact] at hran
  rw [Image.loadable_iff]
  cases hfailure : firstFailure (image.formatChecks (free s.firmware)) with
  | none =>
    rw [hfailure] at hran
    exact ⟨iff_of_true ⟨_, _, hran⟩ rfl, fun hno ↦ absurd rfl hno⟩
  | some stop =>
    rw [hfailure] at hran
    obtain ⟨s', hstopped⟩ := hran
    obtain ⟨error, rfl⟩ := elf_of_firstFailure hfailure
    refine ⟨iff_of_false ?_ (Option.some_ne_none _), fun _ ↦ ⟨error, s', hstopped, rfl⟩⟩
    rintro ⟨kernel, s'', hok⟩
    rw [hstopped] at hok
    exact nomatch hok

/-- The small image is accepted where page 1 is free. -/
theorem loadKernel_accepts_smallImage : ∃ kernel s',
    loadKernel freeListAllocator (smallImage 0 0 4 8) ⟨fun _ ↦ 0, {1}, []⟩ = .ok kernel s' := by
  apply (loadKernel_accepts freeListAllocator_exact (smallImage 0 0 4 8)
    ⟨fun _ ↦ 0, {1}, []⟩).1.mpr
  have hphnum : (smallImage 0 0 4 8).phnum = 1 := by decide +kernel
  have hsegment : (smallImage 0 0 4 8).segment 0 = ⟨0, 0x1000, 4, 8⟩ := by decide +kernel
  have hall (P : ℕ → Prop) (hzero : P 0) : ∀ index < (smallImage 0 0 4 8).phnum, P index := by
    intro index hindex
    rw [hphnum, Nat.lt_one_iff] at hindex
    rwa [hindex]
  have hpages : pagesOf (LoadSegment.pages ⟨0, 0x1000, 4, 8⟩) ⊆
      (({1} : Finset ℕ) : Set ℕ) ∩ physicalPages := by
    intro page hpage
    have hbounds : 0x1000 ≤ page * 4096 ∧ page * 4096 < 0x2000 := hpage
    have hone : page = 1 := by omega
    rw [hone]
    exact ⟨Finset.mem_singleton_self 1, show 1 * PAGE_SIZE < 2 ^ 52 by decide⟩
  refine ⟨by decide +kernel, by decide +kernel, by decide +kernel, by decide +kernel,
    by decide +kernel, by decide +kernel, by decide +kernel, by decide +kernel, ?_, ?_, ?_,
    by decide +kernel, by decide +kernel, by decide +kernel⟩
  · exact hall _ fun _ ↦ ⟨by decide +kernel, by decide +kernel, by decide +kernel⟩
  · apply hall
    intro _
    rw [hsegment]
    exact hpages
  · exact hall _ (hall _ fun _ _ hne ↦ absurd rfl hne)

end Elf

end RustBL
