import RustBL.Bootloader.Elf.Firmware
import Mathlib.Data.List.Pairwise

/-!
# The memory of a loaded kernel

What the memory holds after the loader returned, for all segments at once. Loading a segment zeroes
whole pages, so an earlier segment survives only because no later segment shares a page with it.
That follows from the firmware: it grants no page twice (`walk_apart`). Over segments that are
apart, every address keeps what the segment on its page put there (`foldl_fillPages_mem`).
-/

set_option autoImplicit false
set_option relaxedAutoImplicit false

namespace RustBL

namespace Elf

/-! ### One segment in memory -/

namespace LoadSegment

/-- What a segment puts at an address: its byte of the file, or zero after the end of the file bytes
and in the padding. -/
def byteAt (image : Image) (segment : LoadSegment) (addr : ℕ) : UInt8 :=
  if segment.vaddr ≤ addr ∧ addr < segment.vaddr + segment.filesz then
    image.bytes.getD (segment.offset + (addr - segment.vaddr)) 0
  else 0

section Fill

variable {image : Image} {segment : LoadSegment} {m : Mem} {addr : ℕ}

/-- The file bytes of a sane segment. -/
theorem Sane.length_file (hsane : segment.Sane image) :
    ((image.bytes.drop segment.offset).take segment.filesz).length = segment.filesz := by
  have hfile := hsane.file_inside
  rw [List.length_take, List.length_drop]
  omega

/-- A segment lies in its pages. -/
theorem Sane.file_in_pages (hsane : segment.Sane image) :
    segment.pages.start ≤ segment.vaddr ∧
      segment.vaddr + segment.filesz ≤ segment.pages.stop := by
  have hround := le_roundUp (segment.vaddr + segment.memsz) PAGE_SIZE
  have hfilesz := hsane.filesz_le
  rw [segment.pages_stop]
  exact ⟨segment.pageStart_le, by omega⟩

/-- Every byte of a segment lies in its pages. -/
theorem mem_pages {i : ℕ} (hi : i < segment.memsz) : segment.vaddr + i ∈ segment.pages.bytes := by
  have hround := le_roundUp (segment.vaddr + segment.memsz) PAGE_SIZE
  rw [Span.mem_bytes, segment.pages_stop]
  exact ⟨segment.pageStart_le.trans (Nat.le_add_right _ _), by omega⟩

/-- The file bytes are those of the image. -/
theorem Sane.byteAt_file (hsane : segment.Sane image) {i : ℕ} (hi : i < segment.filesz) :
    image.bytes[segment.offset + i]? = some (segment.byteAt image (segment.vaddr + i)) := by
  have hfile := hsane.file_inside
  have hin : segment.offset + i < image.bytes.length := by omega
  rw [byteAt, if_pos ⟨Nat.le_add_right _ _, Nat.add_lt_add_left hi _⟩, Nat.add_sub_cancel_left,
    List.getD_eq_getElem _ _ hin, List.getElem?_eq_getElem hin]

/-- After the file bytes there are zeros. -/
theorem byteAt_zero {i : ℕ} (hi : segment.filesz ≤ i) :
    segment.byteAt image (segment.vaddr + i) = 0 := by
  rw [byteAt, if_neg (by omega)]

theorem pageCount_ne_zero_of_mem (haddr : addr ∈ segment.pages.bytes) : segment.pageCount ≠ 0 := by
  intro hempty
  have hsize := segment.pages_size_eq
  rw [hempty, Nat.zero_mul] at hsize
  rw [Span.mem_bytes, Span.stop, hsize, Nat.add_zero] at haddr
  exact absurd haddr.2 (not_lt.mpr haddr.1)

/-- Loading a segment puts its bytes in its pages. -/
theorem fillPages_mem (hsane : segment.Sane image) (haddr : addr ∈ segment.pages.bytes) :
    segment.fillPages image m addr = segment.byteAt image addr := by
  have hlength := hsane.length_file
  have hfile := hsane.file_inside
  rw [fillPages, if_neg (pageCount_ne_zero_of_mem haddr), byteAt]
  by_cases hin : segment.vaddr ≤ addr ∧ addr < segment.vaddr + segment.filesz
  · have hoffset : addr - segment.vaddr <
        ((image.bytes.drop segment.offset).take segment.filesz).length := by omega
    rw [if_pos hin, Mem.write_apply_mem hin.1 hoffset, List.getElem_take, List.getElem_drop,
      List.getD_eq_getElem]
  · have hout : addr < segment.vaddr ∨ segment.vaddr +
        ((image.bytes.drop segment.offset).take segment.filesz).length ≤ addr := by omega
    rw [if_neg hin, Mem.write_apply_of_not_mem hout]
    exact Mem.fill_apply_mem haddr.1 haddr.2

/-- Loading a segment leaves every address outside its pages alone. -/
theorem fillPages_of_not_mem (hsane : segment.Sane image) (haddr : addr ∉ segment.pages.bytes) :
    segment.fillPages image m addr = m addr := by
  rw [fillPages]
  split_ifs with hempty
  · rfl
  · have hlength := hsane.length_file
    have hinside := hsane.file_in_pages
    have hstart : segment.pages.start = segment.pageStart := rfl
    have hspan : segment.pages.stop = segment.pageStart + segment.pages.size := rfl
    rw [Span.mem_bytes] at haddr
    rw [Mem.write_apply_of_not_mem (by omega), Mem.fill_apply_of_not_mem (by omega)]

end Fill

end LoadSegment

/-! ### All segments in memory -/

section All

variable {image : Image} {segments : List LoadSegment} {m : Mem} {addr : ℕ}

theorem foldl_fillPages_of_not_mem (hsane : ∀ segment ∈ segments, segment.Sane image)
    (haddr : ∀ segment ∈ segments, addr ∉ segment.pages.bytes) :
    segments.foldl (fun m segment ↦ segment.fillPages image m) m addr = m addr := by
  induction segments generalizing m with
  | nil => rfl
  | cons segment segments ih =>
    rw [List.forall_mem_cons] at hsane haddr
    rw [List.foldl_cons, ih hsane.2 haddr.2, LoadSegment.fillPages_of_not_mem hsane.1 haddr.1]

/-- Of segments that share no address, each keeps its bytes. -/
theorem foldl_fillPages_mem {segment : LoadSegment}
    (hsane : ∀ segment ∈ segments, segment.Sane image)
    (hapart : segments.Pairwise fun segment other ↦ Disjoint segment.pages.bytes other.pages.bytes)
    (hmem : segment ∈ segments) (haddr : addr ∈ segment.pages.bytes) :
    segments.foldl (fun m segment ↦ segment.fillPages image m) m addr =
      segment.byteAt image addr := by
  induction segments generalizing m with
  | nil => exact absurd hmem List.not_mem_nil
  | cons first segments ih =>
    rw [List.forall_mem_cons] at hsane
    rw [List.pairwise_cons] at hapart
    rw [List.foldl_cons]
    rcases List.mem_cons.mp hmem with rfl | hlater
    · -- No later segment meets the pages of the first.
      rw [foldl_fillPages_of_not_mem hsane.2 fun other hother ↦
        Set.disjoint_left.mp (hapart.1 other hother) haddr]
      exact LoadSegment.fillPages_mem hsane.1 haddr
    · exact ih hsane.2 hapart.2 hlater

end All

/-! ### What the run of the loader gives -/

/-- The bytes of the pages of some grants. -/
def grantedBytes (grants : List (ℕ × ℕ)) : Set ℕ :=
  {addr | ∃ grant ∈ grants, grant.1 ≤ addr ∧ addr < grant.1 + grant.2 * PAGE_SIZE}

theorem LoadSegment.mem_grantedBytes_grant {segment : LoadSegment} {addr : ℕ} :
    addr ∈ grantedBytes segment.grant ↔ addr ∈ segment.pages.bytes := by
  rw [LoadSegment.grant]
  split_ifs with hempty
  · refine iff_of_false ?_ fun haddr ↦ LoadSegment.pageCount_ne_zero_of_mem haddr hempty
    rintro ⟨grant, hgrant, _⟩
    exact absurd hgrant List.not_mem_nil
  · rw [segment.pages_eq]
    constructor
    · rintro ⟨grant, hgrant, hbounds⟩
      rw [List.mem_singleton] at hgrant
      rw [hgrant] at hbounds
      exact hbounds
    · intro haddr
      exact ⟨_, List.mem_singleton_self _, haddr⟩

/-- The grants of some segments cover the pages of the segments. -/
theorem mem_grantedBytes_flatMap {segments : List LoadSegment} {addr : ℕ} :
    addr ∈ grantedBytes (segments.flatMap LoadSegment.grant) ↔
      ∃ segment ∈ segments, addr ∈ segment.pages.bytes := by
  simp only [← LoadSegment.mem_grantedBytes_grant]
  constructor
  · rintro ⟨grant, hgrant, hbounds⟩
    obtain ⟨segment, hsegment, hmem⟩ := List.mem_flatMap.mp hgrant
    exact ⟨segment, hsegment, grant, hmem, hbounds⟩
  · rintro ⟨segment, hsegment, grant, hmem, hbounds⟩
    exact ⟨grant, List.mem_flatMap.mpr ⟨segment, hsegment, hmem⟩, hbounds⟩

section Run

variable {σ : Type} {allocator : PageAllocator σ} {free : σ → Set ℕ} {image : Image}

theorem foldl_loaded_mem (segments : List LoadSegment) (s : LoaderState σ) :
    (segments.foldl (LoadSegment.loaded allocator image) s).mem =
      segments.foldl (fun m segment ↦ segment.fillPages image m) s.mem := by
  induction segments generalizing s with
  | nil => rfl
  | cons segment segments ih => rw [List.foldl_cons, List.foldl_cons, ih]; rfl

theorem foldl_loaded_granted (segments : List LoadSegment) (s : LoaderState σ) :
    (segments.foldl (LoadSegment.loaded allocator image) s).granted =
      s.granted ++ segments.flatMap LoadSegment.grant := by
  induction segments generalizing s with
  | nil => exact (List.append_nil _).symm
  | cons segment segments ih =>
    rw [List.foldl_cons, ih, List.flatMap_cons, ← List.append_assoc]
    rfl

/-- The segments of a loop that passed its checks are sane, lie on pages that were free when it
began, and share no address. -/
theorem walk_apart (hsound : allocator.Sound free) (remaining index : ℕ) (firmware : σ)
    (hpassed : firstFailure (walkChecks allocator image remaining index firmware) = none) :
    (∀ segment ∈ image.loads remaining index,
        segment.Sane image ∧ pagesOf segment.pages ⊆ free firmware) ∧
      (image.loads remaining index).Pairwise fun segment other ↦
        Disjoint segment.pages.bytes other.pages.bytes := by
  induction remaining generalizing index firmware with
  | zero => exact ⟨fun _ hmem ↦ absurd hmem List.not_mem_nil, List.Pairwise.nil⟩
  | succ remaining ih =>
    have hchecks := firstFailure_eq_none.mp hpassed
    rw [walkChecks, List.forall_mem_append] at hchecks
    obtain ⟨hsanity, hrest⟩ := hchecks
    by_cases hload : image.IsLoad index
    · rw [if_pos hload, List.forall_mem_cons, List.forall_mem_cons] at hrest
      obtain ⟨hgrants, _, hwalk⟩ := hrest
      have hgranted : (image.segment index).Grants allocator firmware := hgrants
      obtain ⟨hlater, hapart⟩ := ih (index + 1) _ (firstFailure_eq_none.mpr hwalk)
      have hafter := hgranted.free_after hsound
      rw [hafter] at hlater
      rw [image.loads_succ_of_load hload, List.forall_mem_cons, List.pairwise_cons]
      refine ⟨⟨⟨image.sane_of_checks hload (firstFailure_eq_none.mpr hsanity),
        (hgranted.pages_free hsound).trans Set.inter_subset_left⟩, fun segment hmem ↦
          ⟨(hlater segment hmem).1, (hlater segment hmem).2.trans Set.sdiff_subset⟩⟩, ?_, hapart⟩
      intro segment hmem
      rw [← LoadSegment.disjoint_pagesOf, Set.disjoint_right]
      intro page hpage
      exact ((hlater segment hmem).2 hpage).2
    · rw [if_neg hload] at hrest
      rw [image.loads_succ_of_not_load hload]
      exact ih (index + 1) firmware (firstFailure_eq_none.mpr hrest)

end Run

/-! ### The reported range -/

section Reported

variable {image : Image}

theorem Extent.foldl_lowest_eq {segments : List LoadSegment} {extent : Extent} :
    (segments.foldl Extent.add extent).lowest = extent.lowest ∨
      ∃ segment ∈ segments, (segments.foldl Extent.add extent).lowest = segment.pageStart := by
  induction segments generalizing extent with
  | nil => exact Or.inl rfl
  | cons segment segments ih =>
    have hrest : (segments.foldl Extent.add (extent.add segment)).lowest =
        (extent.add segment).lowest ∨ ∃ other ∈ segments,
          (segments.foldl Extent.add (extent.add segment)).lowest = other.pageStart := ih
    rw [List.foldl_cons]
    rcases hrest with hfirst | ⟨other, hmem, heq⟩
    · rcases min_choice extent.lowest segment.pageStart with hmin | hmin
      · exact Or.inl (hfirst.trans hmin)
      · exact Or.inr ⟨segment, List.mem_cons_self, hfirst.trans hmin⟩
    · exact Or.inr ⟨other, List.mem_cons_of_mem _ hmem, heq⟩

/-- The lowest address is a page boundary. Assumes: there is a segment. -/
theorem Image.page_dvd_lowest (hsegments : image.segments ≠ []) :
    PAGE_SIZE ∣ image.extent.lowest := by
  have hlowest : image.extent.lowest = 2 ^ 64 - 1 ∨
      ∃ segment ∈ image.segments, image.extent.lowest = segment.pageStart :=
    Extent.foldl_lowest_eq
  rcases hlowest with hstart | ⟨segment, _, heq⟩
  · -- The first page of a segment is below the highest word.
    obtain ⟨index, hindex, hload⟩ := Image.segments_ne_nil.mp hsegments
    have hle : image.extent.lowest ≤ (image.segment index).pageStart :=
      Extent.foldl_lowest_le.mpr
        (Or.inr ⟨_, Image.mem_segments.mpr ⟨index, hindex, hload, rfl⟩, le_rfl⟩)
    have hpage := (image.segment index).pageStart_le
    have hvaddr := image.segment_vaddr_lt index
    obtain ⟨first, hfirst⟩ := (image.segment index).page_dvd_pageStart
    simp only [PAGE_SIZE] at hfirst
    omega
  · rw [heq]
    exact segment.page_dvd_pageStart

/-- The pages of every segment lie in the extent. -/
theorem Image.pages_in_extent {segment : LoadSegment} (hmem : segment ∈ image.segments) :
    segment.pages.bytes ⊆ Span.bytes ⟨image.extent.lowest,
      roundUp image.extent.highest PAGE_SIZE - image.extent.lowest⟩ := by
  have hlow : image.extent.lowest ≤ segment.pageStart :=
    Extent.foldl_lowest_le.mpr (Or.inr ⟨segment, hmem, le_rfl⟩)
  have hhigh : segment.vaddr + segment.memsz ≤ image.extent.highest := by
    by_contra hbelow
    have habove : image.extent.highest < image.extent.highest :=
      Extent.lt_foldl_highest.mpr (Or.inr ⟨segment, hmem, not_le.mp hbelow⟩)
    exact lt_irrefl _ habove
  have hround : roundUp (segment.vaddr + segment.memsz) PAGE_SIZE ≤
      roundUp image.extent.highest PAGE_SIZE :=
    roundUp_le (hhigh.trans (le_roundUp _ _)) (dvd_roundUp _ (by decide))
  apply Span.subset_of_bounds hlow
  rw [segment.pages_stop, Span.stop_mk]
  omega

end Reported

/-! ### Faithful loading -/

/-- The memory `after` the loader holds the image: every segment has its file bytes and zeros after
them, the rest of the granted pages is zero, and nothing else changed. The granted pages lie in the
range that is reported, which consists of whole pages. -/
structure Image.Placed (image : Image) (before after : Mem) (grants : List (ℕ × ℕ))
    (kernel : LoadedKernel) : Prop where
  file_bytes : ∀ index < image.phnum, image.IsLoad index → ∀ i < (image.segment index).filesz,
    image.bytes[(image.segment index).offset + i]? = some (after ((image.segment index).vaddr + i))
  zero_bytes : ∀ index < image.phnum, image.IsLoad index → ∀ i,
    (image.segment index).filesz ≤ i → i < (image.segment index).memsz →
      after ((image.segment index).vaddr + i) = 0
  others_zero : ∀ addr ∈ grantedBytes grants, ¬ image.InSegment addr → after addr = 0
  unchanged : before.SameOff (grantedBytes grants) after
  inside : grantedBytes grants ⊆ Span.bytes ⟨kernel.base, kernel.size⟩
  base_dvd : PAGE_SIZE ∣ kernel.base
  size_dvd : PAGE_SIZE ∣ kernel.size

/-- When the loader returns, there is a segment, and the segments are sane and share no address. -/
theorem segments_of_ok {σ : Type} {allocator : PageAllocator σ} {free : σ → Set ℕ}
    (hsound : allocator.Sound free) {image : Image} {s : LoaderState σ}
    (hpassed : firstFailure (kernelChecks allocator image s.firmware) = none) :
    image.segments ≠ [] ∧ (∀ segment ∈ image.segments, segment.Sane image) ∧
      image.segments.Pairwise fun segment other ↦
        Disjoint segment.pages.bytes other.pages.bytes := by
  have hchecks := firstFailure_eq_none.mp hpassed
  rw [kernelChecks, List.forall_mem_append, List.forall_mem_append] at hchecks
  obtain ⟨_, hwalk, hfinal⟩ := hchecks
  obtain ⟨hall, hapart⟩ := walk_apart hsound image.phnum 0 s.firmware
    (firstFailure_eq_none.mpr hwalk)
  exact ⟨hfinal _ List.mem_cons_self, fun segment hmem ↦ (hall segment hmem).1, hapart⟩

/-- When the loader returns, the memory holds the image. Assumes: the firmware grants only free
pages below `2 ^ 52`, and marks them used. -/
theorem loadKernel_places {σ : Type} {allocator : PageAllocator σ} {free : σ → Set ℕ}
    (hsound : allocator.Sound free) (image : Image) (s s' : LoaderState σ) (kernel : LoadedKernel)
    (hran : loadKernel allocator image s = .ok kernel s') :
    ∃ grants, s'.granted = s.granted ++ grants ∧ image.Placed s.mem s'.mem grants kernel := by
  obtain ⟨hpassed, hkernel, hstate⟩ := loadKernel_ok allocator image hran
  obtain ⟨hsegments, hsane, hapart⟩ := segments_of_ok hsound hpassed
  have hmem {index : ℕ} (hindex : index < image.phnum) (hload : image.IsLoad index) :
      image.segment index ∈ image.segments := Image.mem_segments.mpr ⟨index, hindex, hload, rfl⟩
  have hbyte {segment : LoadSegment} {addr : ℕ} (hsegment : segment ∈ image.segments)
      (haddr : addr ∈ segment.pages.bytes) : s'.mem addr = segment.byteAt image addr := by
    rw [hstate, foldl_loaded_mem]
    exact foldl_fillPages_mem hsane hapart hsegment haddr
  refine ⟨image.segments.flatMap LoadSegment.grant, by rw [hstate, foldl_loaded_granted], ?_⟩
  refine ⟨?_, ?_, ?_, ?_, ?_, ?_, ?_⟩
  · intro index hindex hload i hi
    have hsaneIndex := hsane _ (hmem hindex hload)
    rw [hbyte (hmem hindex hload) (LoadSegment.mem_pages (hi.trans_le hsaneIndex.filesz_le))]
    exact hsaneIndex.byteAt_file hi
  · intro index hindex hload i hlow hi
    rw [hbyte (hmem hindex hload) (LoadSegment.mem_pages hi)]
    exact LoadSegment.byteAt_zero hlow
  · intro addr hgranted hout
    obtain ⟨segment, hsegment, haddr⟩ := mem_grantedBytes_flatMap.mp hgranted
    obtain ⟨index, hindex, hload, rfl⟩ := Image.mem_segments.mp hsegment
    have hfilesz := (hsane _ hsegment).filesz_le
    rw [hbyte hsegment haddr, LoadSegment.byteAt, if_neg]
    rintro ⟨hlow, hhigh⟩
    exact hout ⟨index, hindex, hload, hlow, by omega⟩
  · intro addr haddr
    rw [hstate, foldl_loaded_mem]
    refine foldl_fillPages_of_not_mem hsane fun segment hsegment hin ↦ haddr ?_
    exact mem_grantedBytes_flatMap.mpr ⟨segment, hsegment, hin⟩
  · intro addr hgranted
    obtain ⟨segment, hsegment, haddr⟩ := mem_grantedBytes_flatMap.mp hgranted
    rw [hkernel]
    exact Image.pages_in_extent hsegment haddr
  · rw [hkernel]
    exact Image.page_dvd_lowest hsegments
  · rw [hkernel]
    exact Nat.dvd_sub (dvd_roundUp _ (by decide)) (Image.page_dvd_lowest hsegments)

/-- The small image is placed where page 1 is free. -/
theorem loadKernel_places_smallImage : ∃ kernel s' grants,
    loadKernel freeListAllocator (smallImage 0 16 4 8) ⟨fun _ ↦ 7, {1}, []⟩ = .ok kernel s' ∧
      s'.granted = [] ++ grants ∧
      (smallImage 0 16 4 8).Placed (fun _ ↦ 7) s'.mem grants kernel := by
  have hran : (loadKernel freeListAllocator (smallImage 0 16 4 8)).run' ⟨fun _ ↦ 7, {1}, []⟩ =
      some ⟨0x1000, 0x1000, 0x1000⟩ := by
    decide +kernel
  obtain ⟨s', hok⟩ := ok_of_run' hran
  obtain ⟨grants, hgrants, hplaced⟩ := loadKernel_places freeListAllocator_exact.toSound
    (smallImage 0 16 4 8) ⟨fun _ ↦ 7, {1}, []⟩ s' _ hok
  exact ⟨_, s', grants, hok, hgrants, hplaced⟩

end Elf

end RustBL
