import RustBL.Bootloader.Elf.Retype
import RustBL.Library.Coupling

/-!
# The loader on two images

The loop of the loader on an image and on the one that omits an empty segment, side by side.
`Image.Reaches` says how far the loader gets when the firmware never refuses, and so which segments
matter. `loadSegments_alike` takes what loading one segment does to a relation between the two
states and gives what the loop does to it over headers that both images have;
`loadSegments_omitted` starts at the omitted header.

`loops_alike` is the case of equal states: the loops run in the same state when the empty segment
asks for no pages and no segment copies a byte in which the images differ.
-/

set_option autoImplicit false
set_option relaxedAutoImplicit false

namespace RustBL

namespace Elf

/-! ### How far the loader gets -/

/-- The loader gets past `count` headers when the firmware grants every request. -/
structure Image.Reaches (image : Image) (count : ℕ) : Prop where
  header : ∀ check ∈ image.headerChecks, check.1
  sane : ∀ k < count, ∀ check ∈ image.sanityChecks k, check.1
  length_fits : ∀ k < count, image.IsLoad k → (image.segment k).pages.size < 2 ^ 64

namespace Image

section Reaches

variable {image : Image} {count k : ℕ}

theorem Reaches.mono (hreach : image.Reaches count) (hle : k ≤ count) : image.Reaches k where
  header := hreach.header
  sane j hj := hreach.sane j (hj.trans_le hle)
  length_fits j hj := hreach.length_fits j (hj.trans_le hle)

theorem Reaches.passes (hreach : image.Reaches count) : firstFailure image.headerChecks = none :=
  firstFailure_eq_none.mpr hreach.header

theorem Reaches.sane_at (hreach : image.Reaches count) (hk : k < count) :
    firstFailure (image.sanityChecks k) = none :=
  firstFailure_eq_none.mpr (hreach.sane k hk)

theorem reaches_zero (hpasses : firstFailure image.headerChecks = none) : image.Reaches 0 where
  header := firstFailure_eq_none.mp hpasses
  sane j hj := absurd hj (Nat.not_lt_zero j)
  length_fits j hj := absurd hj (Nat.not_lt_zero j)

/-- The loader gets past one more header. -/
theorem Reaches.succ (hreach : image.Reaches count)
    (hsane : firstFailure (image.sanityChecks count) = none)
    (hfits : image.IsLoad count → (image.segment count).pages.size < 2 ^ 64) :
    image.Reaches (count + 1) where
  header := hreach.header
  sane k hk := by
    rcases Nat.lt_succ_iff_lt_or_eq.mp hk with hlt | rfl
    · exact hreach.sane k hlt
    · exact firstFailure_eq_none.mp hsane
  length_fits k hk := by
    rcases Nat.lt_succ_iff_lt_or_eq.mp hk with hlt | rfl
    · exact hreach.length_fits k hlt
    · exact hfits

/-- The pages of an empty segment are at most one. -/
theorem Omits.size_lt {image' : Image} {index : ℕ} (homits : image.Omits image' index) :
    (image.segment index).pages.size < 2 ^ 64 := by
  have hstart : (image.segment index).vaddr - (image.segment index).pageStart < PAGE_SIZE := by
    have hmod := Nat.mod_lt (image.segment index).vaddr (show 0 < PAGE_SIZE by decide)
    have hdiv := Nat.div_add_mod (image.segment index).vaddr PAGE_SIZE
    rw [LoadSegment.pageStart, Nat.mul_comm]
    omega
  rw [LoadSegment.pages_size_eq, LoadSegment.pageCount_eq, homits.memsz_eq]
  simp only [PAGE_SIZE] at hstart ⊢
  omega

/-- The loader gets as far on the second image. -/
theorem Omits.reaches {image' : Image} {index : ℕ} (homits : image.Omits image' index)
    (hreach : image.Reaches count) : image'.Reaches count where
  header := firstFailure_eq_none.mp homits.passes'
  sane k hk := by
    by_cases hne : k = index
    · rw [hne]
      exact firstFailure_eq_none.mp homits.sane'
    · rw [homits.sanityChecks_eq hne]
      exact hreach.sane k hk
  length_fits k hk hload := by
    have hne : k ≠ index := fun heq ↦ homits.not_load (heq ▸ hload)
    rw [homits.segment_eq k hne]
    exact hreach.length_fits k hk ((homits.load_iff k hne).mp hload)

end Reaches

end Image

/-! ### The loop on both images -/

/-- Wherever the loader gets to, loading a segment of the first image other than the omitted one
ends alike in both images. -/
def StepsAlike {σ : Type} (allocator : PageAllocator σ) (image image' : Image) (index : ℕ)
    (R : LoaderState σ → LoaderState σ → Prop) : Prop :=
  ∀ k < image.phnum, k ≠ index → image.Reaches k → image.IsLoad k →
    firstFailure (image.sanityChecks k) = none → ∀ s s', R s s' →
      Alike R (loadSegment allocator image (image.segment k) s)
        (loadSegment allocator image' (image.segment k) s')

section Loop

variable {σ : Type} {allocator : PageAllocator σ} {image image' : Image} {index : ℕ}

/-- A loop that returns got past its headers. -/
theorem reaches_of_ok {remaining k : ℕ} {extent extent' : Extent} {s t : LoaderState σ}
    (hreach : image.Reaches k)
    (hran : loadSegments allocator image image.phoff PHDR_SIZE remaining k extent s =
      .ok extent' t) : image.Reaches (k + remaining) := by
  induction remaining generalizing k extent s with
  | zero => exact hreach
  | succ remaining ih =>
    have hcount : k + (remaining + 1) = k + 1 + remaining := by omega
    rw [hcount]
    cases hsane : firstFailure (image.sanityChecks k) with
    | some stop =>
      rw [loadSegments_stop allocator hsane] at hran
      exact nomatch hran
    | none =>
    by_cases hload : image.IsLoad k
    swap
    · rw [loadSegments_skip allocator hsane hload] at hran
      exact ih (hreach.succ hsane fun h ↦ absurd h hload) hran
    rw [loadSegments_load allocator hsane hload] at hran
    cases hsegment : loadSegment allocator image (image.segment k) s with
    | error stop s' =>
      rw [bind_error hsegment] at hran
      exact nomatch hran
    | ok _ s' =>
      rw [bind_ok hsegment] at hran
      have hloaded := loadSegment_ok allocator (image.sane_of_checks hload hsane)
        (image.segment_vaddr_lt k) hsegment
      exact ih (hreach.succ hsane fun _ ↦ hloaded.1) hran

/-- Over headers that both images have, the loops end alike when loading one segment does. -/
theorem loadSegments_alike {R : LoaderState σ → LoaderState σ → Prop}
    (homits : image.Omits image' index)
    (hstep : StepsAlike allocator image image' index R)
    {remaining k : ℕ} (hle : k + remaining ≤ image.phnum)
    (hout : index < k ∨ k + remaining ≤ index) (hreach : image.Reaches k)
    {extent extent' : Extent} {s s' : LoaderState σ} (hR : R s s') :
    Alike R (loadSegments allocator image image.phoff PHDR_SIZE remaining k extent s)
      (loadSegments allocator image' image'.phoff PHDR_SIZE remaining k extent' s') := by
  induction remaining generalizing k extent extent' s s' with
  | zero => exact hR
  | succ remaining ih =>
    have hne : k ≠ index := by omega
    have hsame := homits.sanityChecks_eq hne
    cases hsane : firstFailure (image.sanityChecks k) with
    | some stop =>
      rw [loadSegments_stop allocator hsane, loadSegments_stop allocator (hsame ▸ hsane)]
      exact ⟨rfl, hR⟩
    | none =>
    by_cases hload : image.IsLoad k
    swap
    · rw [loadSegments_skip allocator hsane hload, loadSegments_skip allocator (hsame ▸ hsane)
        (mt (homits.load_iff k hne).mp hload)]
      exact ih (by omega) (by omega) (hreach.succ hsane fun h ↦ absurd h hload) hR
    rw [loadSegments_load allocator hsane hload, loadSegments_load allocator (hsame ▸ hsane)
      ((homits.load_iff k hne).mpr hload), homits.segment_eq k hne]
    refine Alike.bind (hstep k (by omega) hne hreach hload hsane s s' hR) ?_
    intro _ t _ t' hran _ hRt
    have hloaded := loadSegment_ok allocator (image.sane_of_checks hload hsane)
      (image.segment_vaddr_lt k) hran
    exact ih (by omega) (by omega) (hreach.succ hsane fun _ ↦ hloaded.1) hRt

/-- From the omitted header on, the loops end alike when the first one has loaded the empty segment
and loading the others does. -/
theorem loadSegments_omitted {R : LoaderState σ → LoaderState σ → Prop}
    (homits : image.Omits image' index)
    (hstep : StepsAlike allocator image image' index R)
    {rest : ℕ} (hle : index + (rest + 1) ≤ image.phnum) (hreach : image.Reaches index)
    {extent extent' : Extent} {s loaded s' : LoaderState σ}
    (hran : loadSegment allocator image (image.segment index) s = .ok () loaded)
    (hR : R loaded s') :
    Alike R (loadSegments allocator image image.phoff PHDR_SIZE (rest + 1) index extent s)
      (loadSegments allocator image' image'.phoff PHDR_SIZE (rest + 1) index extent' s') := by
  rw [loadSegments_load allocator homits.sane homits.load,
    loadSegments_skip allocator homits.sane' homits.not_load, bind_ok hran]
  exact loadSegments_alike homits hstep (by omega) (Or.inl (Nat.lt_succ_self index))
    (hreach.succ homits.sane fun _ ↦ homits.size_lt) hR

/-- The loop runs over `count` headers and then over the rest. -/
theorem loadSegments_add (count rest k : ℕ) (extent : Extent) :
    loadSegments allocator image image.phoff PHDR_SIZE (count + rest) k extent =
      (loadSegments allocator image image.phoff PHDR_SIZE count k extent >>= fun extent' ↦
        loadSegments allocator image image.phoff PHDR_SIZE rest (k + count) extent') := by
  induction count generalizing k extent with
  | zero => rw [Nat.zero_add, Nat.add_zero, loadSegments, pure_bind]
  | succ count ih =>
    have hcount : count + 1 + rest = count + rest + 1 := by omega
    have hk : k + (count + 1) = k + 1 + count := by omega
    rw [hcount, hk, loadSegments, loadSegments, bind_assoc]
    congr 1
    funext found
    cases found with
    | none => exact ih (k + 1) extent
    | some read =>
      obtain ⟨segment, segStart, segEnd⟩ := read
      simp only [bind_assoc]
      congr 1
      funext _
      exact ih (k + 1) _

end Loop

/-! ### The whole run -/

section Run

variable {σ : Type} {allocator : PageAllocator σ} {image image' : Image} {index : ℕ}

/-- A step without effects gives its result away. -/
theorem lift_inj {α : Type} {step step' : Except Stop α} {s s' : LoaderState σ}
    (h : lift step s = lift step' s') : step = step' := by
  cases step <;> cases step' <;> simp_all [lift]

/-- The loader ends in the state the loop ends in. -/
theorem finalState_loadKernel (hpasses : firstFailure image.headerChecks = none)
    (s : LoaderState σ) : finalState (loadKernel allocator image s) =
      finalState (loadSegments allocator image image.phoff PHDR_SIZE image.phnum 0 .start s) := by
  rw [loadKernel_eq_report allocator image hpasses]
  cases hran : loadSegments allocator image image.phoff PHDR_SIZE image.phnum 0 .start s with
  | error stop s' => rw [bind_error hran]; rfl
  | ok extent s' =>
    rw [bind_ok hran]
    cases report image.entry extent <;> rfl

/-- A loop over all headers that returns has the extent of the segments. -/
theorem extent_of_ok {s s' : LoaderState σ} {extent : Extent}
    (hran : loadSegments allocator image image.phoff PHDR_SIZE image.phnum 0 .start s =
      .ok extent s') : extent = image.extent := by
  have hloop := loadSegments_eq allocator image image.phnum 0 .start s
  cases hfailure : firstFailure (walkChecks allocator image image.phnum 0 s.firmware) with
  | none =>
    rw [hfailure] at hloop
    rw [hloop] at hran
    injection hran with hextent
    exact hextent.symm
  | some stop =>
    rw [hfailure] at hloop
    obtain ⟨s'', hstopped⟩ := hloop
    exact nomatch hstopped.symm.trans hran

/-- Loading a segment depends on its part of the file only, and only when the length of its pages is
a word. -/
theorem loadSegment_congr {segment : LoadSegment}
    (hlength : image'.bytes.length = image.bytes.length) (hsane : segment.Sane image)
    (hvaddr : segment.vaddr < 2 ^ 64)
    (hfile : segment.pages.size < 2 ^ 64 → ∀ a, segment.offset ≤ a →
      a < segment.offset + segment.filesz → image'.bytes[a]? = image.bytes[a]?)
    (s : LoaderState σ) :
    loadSegment allocator image' segment s = loadSegment allocator image segment s := by
  have hsane' : segment.Sane image' := hsane.congr hlength
  by_cases hgrants : segment.Grants allocator s.firmware
  swap
  · rw [loadSegment_of_refused allocator hsane hvaddr hgrants,
      loadSegment_of_refused allocator hsane' hvaddr hgrants]
  by_cases hsize : segment.pages.size < 2 ^ 64
  swap
  · rw [loadSegment_of_overlong allocator hsane hvaddr hgrants (not_lt.mp hsize),
      loadSegment_of_overlong allocator hsane' hvaddr hgrants (not_lt.mp hsize)]
  have hcopied : (image'.bytes.drop segment.offset).take segment.filesz =
      (image.bytes.drop segment.offset).take segment.filesz :=
    Bytes.part_congr (hfile hsize)
  rw [loadSegment_of_granted allocator hsane hvaddr hgrants hsize,
    loadSegment_of_granted allocator hsane' hvaddr hgrants hsize, LoadSegment.loaded,
    LoadSegment.loaded, LoadSegment.fillPages, LoadSegment.fillPages, hcopied]

/-- When the empty segment is aligned and no changed byte is copied, both loops end alike in the
same state. -/
theorem loops_alike (allocator : PageAllocator σ) (homits : image.Omits image' index)
    (haligned : image.Reaches index → (image.segment index).pageCount = 0)
    (huncopied : ∀ k < image.phnum, image.Reaches (k + 1) → image.IsLoad k →
      ∀ a, (image.segment k).offset ≤ a → a < (image.segment k).offset + (image.segment k).filesz →
        image'.bytes[a]? = image.bytes[a]?) (s : LoaderState σ) :
    Alike (· = ·) (loadSegments allocator image image.phoff PHDR_SIZE image.phnum 0 .start s)
      (loadSegments allocator image' image'.phoff PHDR_SIZE image'.phnum 0 .start s) := by
  obtain ⟨rest, hrest⟩ : ∃ rest, image.phnum = index + (rest + 1) :=
    ⟨image.phnum - index - 1, by have hlt := homits.index_lt; omega⟩
  have hstep : StepsAlike allocator image image' index (· = ·) := by
    rintro k hk hne hreach hload hsane s _ rfl
    rw [loadSegment_congr homits.length_eq (image.sane_of_checks hload hsane)
      (image.segment_vaddr_lt k) fun hfits ↦ huncopied k hk (hreach.succ hsane fun _ ↦ hfits) hload]
    exact Alike.refl _
  have hzero := Image.reaches_zero homits.passes
  rw [homits.phnum_eq, hrest, loadSegments_add, loadSegments_add]
  refine Alike.bind (loadSegments_alike homits hstep (by omega) (Or.inr (by omega)) hzero rfl) ?_
  rintro extent t extent' _ hran _ rfl
  have hreach : image.Reaches (0 + index) := reaches_of_ok hzero hran
  rw [Nat.zero_add] at hreach ⊢
  exact loadSegments_omitted homits hstep hrest.ge hreach
    (loadSegment_of_no_pages allocator (image.sane_of_checks homits.load homits.sane)
      (image.segment_vaddr_lt index) (haligned hreach) t) rfl

end Run

end Elf

end RustBL
