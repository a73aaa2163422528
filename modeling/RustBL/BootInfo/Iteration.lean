import RustBL.BootInfo.UsableFrames
import Mathlib.Data.List.Forall2
import Mathlib.Data.List.ReduceOption

/-!
# Iterating over a memory map

`Treats` says what the iterator has to do with one region: yield the run of exactly the frames that
lie whole inside the region and off page 0, or skip the region when it is not `CONVENTIONAL`, leaves
the address space, or holds no such frame. `treats_runOf` proves it of the rounding in the code, for
every start and every number of pages.

`UsableRegions.replies` calls the iterator any number of times. The calls hand out the runs of the
regions that were not skipped, in map order, and then `None` for ever (`usableRegions_exact`).
-/

set_option autoImplicit false
set_option relaxedAutoImplicit false

namespace RustBL

/-- The bytes of a run. -/
def FrameRun.bytes (run : FrameRun) : Set ℕ :=
  Set.Ico run.start run.stop

/-- The region is usable, and the run holds its frames. -/
structure Yields (region : MemoryRegion) (run : FrameRun) : Prop where
  usable : region.isUsable = true
  fits : region.stop < 2 ^ 64
  start_pos : 0 < run.start
  start_dvd : PAGE_SIZE ∣ run.start
  frames_pos : 1 ≤ run.frames
  mem_iff : ∀ frame, frame ∈ run.list ↔ IsFrameOf region frame

/-- What the iterator has to do with a region. -/
def Treats (region : MemoryRegion) : Option FrameRun → Prop
  | some run => Yields region run
  | none => region.isUsable = true → region.stop < 2 ^ 64 → ∀ frame, ¬ IsFrameOf region frame

/-! ### One region -/

section Region

variable {region other : MemoryRegion} {run run' : FrameRun} {frame : ℕ}

/-- A frame of a region lies between the rounded bounds of the region. -/
theorem IsFrameOf.bounds (h : IsFrameOf region frame) :
    runStart region ≤ frame ∧ frame + PAGE_SIZE ≤ runStop region := by
  have hpage : 0 < PAGE_SIZE := by decide
  have hfirst : frame ∈ region.span.bytes := h.inside ⟨le_rfl, by omega⟩
  have hlast : frame + PAGE_SIZE - 1 ∈ region.span.bytes := h.inside ⟨by omega, by omega⟩
  have hstart : max region.start.toNat PAGE_SIZE ≤ frame := max_le hfirst.1 h.page_le
  have hstop : frame + PAGE_SIZE ≤ region.stop := by
    have hlt := (Span.mem_bytes.mp hlast).2
    simp only [MemoryRegion.span, Span.stop] at hlt
    simp only [MemoryRegion.stop]
    omega
  refine ⟨roundUp_le hstart h.page_dvd, ?_⟩
  -- The end of the frame is a page boundary, so rounding the end of the region down keeps it.
  have hdvd : PAGE_SIZE ∣ frame + PAGE_SIZE := (Nat.dvd_add_left (dvd_refl _)).mpr h.page_dvd
  have hfloor : runStop region = region.stop / PAGE_SIZE * PAGE_SIZE := by
    simp only [runStop, PAGE_SIZE]
    omega
  rw [hfloor]
  calc frame + PAGE_SIZE = (frame + PAGE_SIZE) / PAGE_SIZE * PAGE_SIZE :=
        (Nat.div_mul_cancel hdvd).symm
    _ ≤ region.stop / PAGE_SIZE * PAGE_SIZE :=
        Nat.mul_le_mul_right _ (Nat.div_le_div_right hstop)

/-- Every frame of a region is a frame of its run. -/
theorem IsFrameOf.mem_run (h : IsFrameOf region frame) (hrun : runOf region = some run) :
    frame ∈ run.list := by
  obtain ⟨_, _, _, hdvd, _, _, hstop⟩ := runOf_eq_some hrun
  obtain ⟨hlow, hhigh⟩ := h.bounds
  have hstart : run.start = runStart region := by
    unfold runOf at hrun
    split_ifs at hrun
    exact (congrArg FrameRun.start (Option.some.inj hrun)).symm
  obtain ⟨first, hfirst⟩ := hdvd
  obtain ⟨index, rfl⟩ := h.page_dvd
  rw [FrameRun.stop] at hstop
  refine mem_framesFrom.mpr ⟨index - first, ?_, ?_⟩ <;> simp only [PAGE_SIZE] at * <;> omega

/-- The rounding in the code treats every region as it has to. -/
theorem treats_runOf (region : MemoryRegion) : Treats region (runOf region) := by
  cases hrun : runOf region with
  | some run =>
    obtain ⟨husable, hfits, hpage, hdvd, hframes, _, _⟩ := runOf_eq_some hrun
    have hpos : 0 < PAGE_SIZE := by decide
    exact ⟨husable, hfits, lt_of_lt_of_le hpos hpage, hdvd, hframes,
      fun frame ↦ ⟨isFrameOf_of_mem_run hrun, fun h ↦ h.mem_run hrun⟩⟩
  | none =>
    intro husable hfits frame hframe
    obtain ⟨hlow, hhigh⟩ := hframe.bounds
    have hpos : 0 < PAGE_SIZE := by decide
    rw [runOf, if_pos ⟨husable, hfits, by omega⟩] at hrun
    exact nomatch hrun

/-- The run of a region lies inside the region. -/
theorem Yields.bytes_subset (h : Yields region run) : run.bytes ⊆ region.span.bytes := by
  rintro addr ⟨hlow, hhigh⟩
  have hpage : 0 < PAGE_SIZE := by decide
  -- The address lies in the frame that its distance from the start of the run names.
  have hindex : (addr - run.start) / PAGE_SIZE < run.frames := by
    rw [Nat.div_lt_iff_lt_mul hpage]
    rw [FrameRun.stop] at hhigh
    omega
  have hframe := (h.mem_iff _).mp (mem_framesFrom.mpr ⟨_, hindex, rfl⟩)
  have hsplit := Nat.div_add_mod' (addr - run.start) PAGE_SIZE
  have hmod := Nat.mod_lt (addr - run.start) hpage
  exact hframe.inside ⟨by omega, by omega⟩

end Region

/-! ### Whole maps -/

namespace UsableRegions

/-- The replies to `count` calls of `next`, one after the other. -/
def replies : ℕ → UsableRegions → Checked (List (Option FrameRun))
  | 0, _ => return []
  | count + 1, iterator => do
    let (run, after) ← iterator.next
    let later ← replies count after
    return run :: later

/-- The calls hand out the remaining runs in order, and `None` from then on. -/
theorem replies_eq (iterator : UsableRegions) (count : ℕ) :
    iterator.replies count = .ok ((List.range count).map fun call ↦ iterator.rest[call]?) := by
  induction count generalizing iterator with
  | zero => rfl
  | succ count ih =>
    obtain ⟨after, hnext, _, hrest⟩ := iterator.next_eq
    rw [replies, hnext, ok_bind]
    simp only
    rw [ih after, ok_bind, hrest, List.range_succ_eq_map, List.map_cons, List.map_map,
      List.head?_eq_getElem?]
    simp [Function.comp_def]

end UsableRegions

/-- The iterator over an arbitrary map treats every region as it has to, in map order, never faults,
and keeps returning `None` when the runs are used up. Runs of disjoint regions are disjoint. -/
theorem usableRegions_exact (regions : List MemoryRegion) : ∃ found : List (Option FrameRun),
    List.Forall₂ Treats regions found ∧
    (∀ count, (UsableRegions.new regions).replies count =
      .ok ((List.range count).map fun call ↦ found.reduceOption[call]?)) ∧
    ((regions.filter MemoryRegion.isUsable).Pairwise
        (fun region other ↦ Disjoint region.span.bytes other.span.bytes) →
      found.reduceOption.Pairwise fun run other ↦ Disjoint run.bytes other.bytes) := by
  have hfound : (regions.map runOf).reduceOption = runs regions := by
    rw [List.reduceOption, List.filterMap_map]
    rfl
  refine ⟨regions.map runOf, ?_, fun count ↦ ?_, fun hapart ↦ ?_⟩
  · rw [List.forall₂_map_right_iff, List.forall₂_same]
    exact fun region _ ↦ treats_runOf region
  · rw [hfound]
    exact UsableRegions.replies_eq _ count
  · rw [hfound, runs, List.pairwise_filterMap]
    refine (List.pairwise_filter.mp hapart).imp fun {region other} hdisjoint run hrun run' hrun' ↦
      ?_
    have hyields : Treats region (some run) := hrun ▸ treats_runOf region
    have hyields' : Treats other (some run') := hrun' ▸ treats_runOf other
    exact (hdisjoint hyields.usable hyields'.usable).mono hyields.bytes_subset hyields'.bytes_subset

end RustBL
