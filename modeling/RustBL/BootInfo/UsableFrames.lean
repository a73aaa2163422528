import RustBL.BootInfo.MemoryMap
import RustBL.Library.Spans
import Mathlib.Data.Finset.Card
import Mathlib.Data.Finset.Range

/-!
# The frames of a memory map

A run is a list of frames, and the usable frames of a map are the frames of its runs in order. A
usable frame is a whole page off page 0 inside a `CONVENTIONAL` region (`mem_usableFrames`).

`FirmwareMap` is what firmware guarantees of a map: usable regions do not overlap and lie below
`2 ^ 52`. Under it no frame occurs twice (`FirmwareMap.nodup`).
-/

set_option autoImplicit false
set_option relaxedAutoImplicit false

namespace RustBL

/-- The addresses of `frames` frames in a row. -/
def framesFrom (start : ℕ) : ℕ → List ℕ
  | 0 => []
  | frames + 1 => start :: framesFrom (start + PAGE_SIZE) frames

/-- The frames of a run. -/
def FrameRun.list (run : FrameRun) : List ℕ :=
  framesFrom run.start run.frames

/-- The frames of the usable runs of a map. -/
def usableFrames (regions : List MemoryRegion) : List ℕ :=
  (runs regions).flatMap FrameRun.list

/-- The bytes of the frame at `frame`. -/
def frameBytes (frame : ℕ) : Set ℕ :=
  Set.Ico frame (frame + PAGE_SIZE)

/-- The address of a whole frame: on a page boundary, off page 0 and below `2 ^ 52`. -/
structure IsFrame (frame : ℕ) : Prop where
  page_dvd : PAGE_SIZE ∣ frame
  page_le : PAGE_SIZE ≤ frame
  below : frame + PAGE_SIZE ≤ 2 ^ 52

/-! ### Frames in a row -/

section FramesFrom

variable {start frames frame : ℕ}

theorem mem_framesFrom : frame ∈ framesFrom start frames ↔
    ∃ index < frames, frame = start + index * PAGE_SIZE := by
  induction frames generalizing start with
  | zero => simp [framesFrom]
  | succ frames ih =>
    rw [framesFrom, List.mem_cons, ih]
    constructor
    · rintro (rfl | ⟨index, hindex, rfl⟩)
      · exact ⟨0, by omega, by omega⟩
      · exact ⟨index + 1, by omega, by rw [Nat.add_mul]; omega⟩
    · rintro ⟨index, hindex, rfl⟩
      cases index with
      | zero => exact Or.inl (by omega)
      | succ index => exact Or.inr ⟨index, by omega, by rw [Nat.add_mul]; omega⟩

@[simp] theorem length_framesFrom (start frames : ℕ) :
    (framesFrom start frames).length = frames := by
  induction frames generalizing start with
  | zero => rfl
  | succ frames ih => rw [framesFrom, List.length_cons, ih]

/-- A row of frames splits into a front and what follows it. -/
theorem framesFrom_add (start front frames : ℕ) : framesFrom start (front + frames) =
    framesFrom start front ++ framesFrom (start + front * PAGE_SIZE) frames := by
  induction front generalizing start with
  | zero => simp [framesFrom]
  | succ front ih =>
    have hshift : start + (front + 1) * PAGE_SIZE = start + PAGE_SIZE + front * PAGE_SIZE := by
      rw [Nat.add_mul]
      omega
    rw [Nat.add_right_comm, framesFrom, framesFrom, ih, hshift, List.cons_append]

theorem nodup_framesFrom (start frames : ℕ) : (framesFrom start frames).Nodup := by
  induction frames generalizing start with
  | zero => exact List.nodup_nil
  | succ frames ih =>
    refine List.nodup_cons.mpr ⟨fun hmem ↦ ?_, ih _⟩
    obtain ⟨index, _, heq⟩ := mem_framesFrom.mp hmem
    have hpage : 0 < PAGE_SIZE := by decide
    omega

end FramesFrom

/-- Distinct frames have no byte in common. -/
theorem disjoint_frameBytes {frame other : ℕ} (hframe : PAGE_SIZE ∣ frame)
    (hother : PAGE_SIZE ∣ other) (hne : frame ≠ other) :
    Disjoint (frameBytes frame) (frameBytes other) := by
  obtain ⟨index, rfl⟩ := hframe
  obtain ⟨index', rfl⟩ := hother
  rw [Set.disjoint_left]
  rintro addr ⟨hlow, hhigh⟩ ⟨hlow', hhigh'⟩
  have hindex : index = index' := by
    simp only [PAGE_SIZE] at hlow hhigh hlow' hhigh'
    omega
  exact hne (hindex ▸ rfl)

/-! ### The frames of a region -/

/-- The region as a span of bytes. -/
def MemoryRegion.span (region : MemoryRegion) : Span :=
  ⟨region.start.toNat, region.pages.toNat * PAGE_SIZE⟩

/-- The frame at `frame` is a whole page of a `CONVENTIONAL` region, and not page 0. -/
structure IsFrameOf (region : MemoryRegion) (frame : ℕ) : Prop where
  usable : region.isUsable = true
  page_dvd : PAGE_SIZE ∣ frame
  page_le : PAGE_SIZE ≤ frame
  inside : frameBytes frame ⊆ region.span.bytes

/-- A frame of the run of a region is a frame of the region. -/
theorem isFrameOf_of_mem_run {region : MemoryRegion} {run : FrameRun} {frame : ℕ}
    (hrun : runOf region = some run) (hframe : frame ∈ run.list) : IsFrameOf region frame := by
  obtain ⟨husable, _, hpage, hdvd, _, hstart, hstop⟩ := runOf_eq_some hrun
  obtain ⟨index, hindex, rfl⟩ := mem_framesFrom.mp hframe
  refine ⟨husable, (Nat.dvd_add_right hdvd).mpr (Nat.dvd_mul_left _ _), by omega, ?_⟩
  rintro addr ⟨hlow, hhigh⟩
  have hlast : (index + 1) * PAGE_SIZE ≤ run.frames * PAGE_SIZE := Nat.mul_le_mul_right _ hindex
  have hend : runStop region ≤ region.stop := runStop_le region
  rw [Nat.add_mul] at hlast
  simp only [FrameRun.stop] at hstop
  simp only [MemoryRegion.stop] at hend
  rw [Span.mem_bytes]
  simp only [MemoryRegion.span, Span.stop]
  omega

/-- A usable frame is a frame of one of the regions. -/
theorem mem_usableFrames {regions : List MemoryRegion} {frame : ℕ}
    (hframe : frame ∈ usableFrames regions) : ∃ region ∈ regions, IsFrameOf region frame := by
  obtain ⟨run, hrun, hin⟩ := List.mem_flatMap.mp hframe
  obtain ⟨region, hregion, heq⟩ := List.mem_filterMap.mp hrun
  exact ⟨region, hregion, isFrameOf_of_mem_run heq hin⟩

/-- What firmware guarantees of a memory map. -/
structure FirmwareMap (regions : List MemoryRegion) : Prop where
  apart : (regions.filter MemoryRegion.isUsable).Pairwise
    fun region other ↦ Disjoint region.span.bytes other.span.bytes
  below : ∀ region ∈ regions, region.isUsable = true → region.stop ≤ 2 ^ 52

section FirmwareMap

variable {regions : List MemoryRegion}

theorem FirmwareMap.isFrame (h : FirmwareMap regions) {frame : ℕ}
    (hframe : frame ∈ usableFrames regions) : IsFrame frame := by
  obtain ⟨region, hregion, hof⟩ := mem_usableFrames hframe
  have hbelow := h.below region hregion hof.usable
  have hpage : 0 < PAGE_SIZE := by decide
  have hlast : frame + PAGE_SIZE - 1 ∈ region.span.bytes := hof.inside ⟨by omega, by omega⟩
  have hstop := (Span.mem_bytes.mp hlast).2
  simp only [MemoryRegion.span, Span.stop] at hstop
  simp only [MemoryRegion.stop] at hbelow
  exact ⟨hof.page_dvd, hof.page_le, by omega⟩

/-- A run of the map ends below `2 ^ 52`. -/
theorem FirmwareMap.run_stop_le (h : FirmwareMap regions) {run : FrameRun}
    (hrun : run ∈ runs regions) : run.stop ≤ 2 ^ 52 := by
  obtain ⟨region, hregion, heq⟩ := List.mem_filterMap.mp hrun
  obtain ⟨husable, _, _, _, _, _, hstop⟩ := runOf_eq_some heq
  rw [hstop]
  exact (runStop_le region).trans (h.below region hregion husable)

/-- No usable frame occurs twice. -/
theorem FirmwareMap.nodup (h : FirmwareMap regions) : (usableFrames regions).Nodup := by
  refine List.nodup_flatMap.mpr ⟨fun run _ ↦ nodup_framesFrom _ _, ?_⟩
  rw [runs, List.pairwise_filterMap]
  refine (List.pairwise_filter.mp h.apart).imp fun {region other} hapart run hrun run' hrun' ↦ ?_
  -- A frame of both runs would put its first byte into both regions.
  intro frame hframe hframe'
  have hof := isFrameOf_of_mem_run hrun hframe
  have hof' := isFrameOf_of_mem_run hrun' hframe'
  have hfirst : frame ∈ frameBytes frame := ⟨le_rfl, Nat.lt_add_of_pos_right (by decide)⟩
  exact Set.disjoint_left.mp (hapart hof.usable hof'.usable) (hof.inside hfirst)
    (hof'.inside hfirst)

theorem length_usableFrames (regions : List MemoryRegion) :
    (usableFrames regions).length = ((runs regions).map FrameRun.frames).sum := by
  rw [usableFrames, List.length_flatMap]
  congr 2
  funext run
  exact length_framesFrom _ _

/-- There are fewer usable frames than addresses below `2 ^ 52`. -/
theorem FirmwareMap.length_le (h : FirmwareMap regions) :
    (usableFrames regions).length ≤ 2 ^ 52 := by
  have hsubset : (usableFrames regions).toFinset ⊆ Finset.range (2 ^ 52) := by
    intro frame hframe
    have hbelow := (h.isFrame (List.mem_toFinset.mp hframe)).below
    have hpage : 0 < PAGE_SIZE := by decide
    exact Finset.mem_range.mpr (by omega)
  have hcard := Finset.card_le_card hsubset
  rwa [List.toFinset_card_of_nodup h.nodup, Finset.card_range] at hcard

end FirmwareMap

end RustBL
