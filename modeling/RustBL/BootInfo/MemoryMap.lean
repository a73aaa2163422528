import RustBL.Library.Checked
import Mathlib.Data.Nat.Init

/-!
# The memory map handed over by the bootloader

`MemoryRegion` is one entry of the UEFI memory map, and `UsableRegions` the iterator over the usable
runs of a map. The start, the page count and the kind of a region come from another binary and are
arbitrary; the iterator skips a region whose kind is not `CONVENTIONAL`, whose span leaves the
address space, or that rounds away to nothing.

`UsableRegions.next` is the iterator of the source, with checked arithmetic. `runOf` is the run of
one region as a plain function and `runs` the runs of a whole map in order; `UsableRegions.next_eq`
says that the iterator never faults and hands out the elements of `runs` one after the other.
-/

set_option autoImplicit false
set_option relaxedAutoImplicit false

namespace RustBL

/-- The page size of UEFI region sizes and of the frame allocator. -/
def PAGE_SIZE : ℕ := 4096

/-- One entry of the UEFI memory map. -/
structure MemoryRegion where
  /-- The physical address of the first byte. -/
  start : UInt64
  /-- The number of pages. -/
  pages : UInt64
  /-- The raw UEFI memory type. -/
  kind : UInt32
  deriving DecidableEq, Repr

namespace MemoryRegion

/-- The UEFI memory type of memory that is free for use. -/
def CONVENTIONAL : UInt32 := 7

/-- `MemoryRegion::is_usable`. -/
def isUsable (region : MemoryRegion) : Bool :=
  region.kind == CONVENTIONAL

/-- One past the last byte of the region, as an exact integer. -/
def stop (region : MemoryRegion) : ℕ :=
  region.start.toNat + region.pages.toNat * PAGE_SIZE

end MemoryRegion

/-- A page-aligned run of whole frames. -/
structure FrameRun where
  /-- The address of the first frame. -/
  start : ℕ
  /-- The number of frames. -/
  frames : ℕ
  deriving DecidableEq, Repr

/-- One past the last byte of a run. -/
def FrameRun.stop (run : FrameRun) : ℕ :=
  run.start + run.frames * PAGE_SIZE

/-- The iterator over the usable runs of a memory map. -/
structure UsableRegions where
  /-- The memory map. -/
  regions : List MemoryRegion
  /-- The index of the first region not looked at yet. -/
  index : ℕ
  deriving DecidableEq, Repr

namespace UsableRegions

/-- `UsableRegions::new`. -/
def new (regions : List MemoryRegion) : UsableRegions :=
  ⟨regions, 0⟩

/-- One turn of the loop in `UsableRegions::next`: the run of a region, or `none` where the source
continues with the next region. -/
def usableRun (region : MemoryRegion) : Checked (Option FrameRun) :=
  if !region.isUsable then return none
  else match Word.checkedMul region.pages.toNat PAGE_SIZE with
    | none => return none
    | some span =>
      match Word.checkedAdd region.start.toNat span with
      | none => return none
      | some stop =>
        -- Physical page 0 is never yielded: a frame address must not be null.
        match Word.checkedNextMultipleOf (max region.start.toNat PAGE_SIZE) PAGE_SIZE with
        | none => return none
        | some start => do
          let stop ← Word.sub stop (stop % PAGE_SIZE)
          if stop ≤ start then return none
          else
            let span ← Word.sub stop start
            return some ⟨start, span / PAGE_SIZE⟩

/-- The loop of `UsableRegions::next` over the regions from `index` on. -/
def scan : List MemoryRegion → ℕ → Checked (Option FrameRun × ℕ)
  | [], index => return (none, index)
  | region :: rest, index => do
    match ← usableRun region with
    | some run => return (some run, index + 1)
    | none => scan rest (index + 1)

/-- `UsableRegions::next`. -/
def next (iterator : UsableRegions) : Checked (Option FrameRun × UsableRegions) := do
  let (run, index) ← scan (iterator.regions.drop iterator.index) iterator.index
  return (run, ⟨iterator.regions, index⟩)

end UsableRegions

/-! ### The runs of a map -/

/-- The address the frames of a region start at: its start, moved off page 0 and rounded up. -/
def runStart (region : MemoryRegion) : ℕ :=
  roundUp (max region.start.toNat PAGE_SIZE) PAGE_SIZE

/-- The address the frames of a region stop at: its end, rounded down. -/
def runStop (region : MemoryRegion) : ℕ :=
  region.stop - region.stop % PAGE_SIZE

/-- The run of a region, if it has one. -/
def runOf (region : MemoryRegion) : Option FrameRun :=
  if region.isUsable ∧ region.stop < 2 ^ 64 ∧ runStart region < runStop region then
    some ⟨runStart region, (runStop region - runStart region) / PAGE_SIZE⟩
  else none

/-- The runs of a map, in map order. -/
def runs (regions : List MemoryRegion) : List FrameRun :=
  regions.filterMap runOf

/-- A run begins after page 0, on a page boundary, holds at least one frame, lies inside its region
and ends on the last page boundary of it. -/
theorem runOf_eq_some {region : MemoryRegion} {run : FrameRun} (h : runOf region = some run) :
    region.isUsable = true ∧ region.stop < 2 ^ 64 ∧ PAGE_SIZE ≤ run.start ∧ PAGE_SIZE ∣ run.start ∧
      0 < run.frames ∧ region.start.toNat ≤ run.start ∧ run.stop = runStop region := by
  unfold runOf at h
  split_ifs at h with hrun
  obtain ⟨husable, hstop, hlt⟩ := hrun
  obtain rfl := Option.some.inj h
  have hpage : 0 < PAGE_SIZE := by decide
  have hmax : max region.start.toNat PAGE_SIZE ≤ runStart region := le_roundUp _ _
  have hstart : PAGE_SIZE ∣ runStart region := dvd_roundUp _ hpage
  have hdiff : PAGE_SIZE ∣ runStop region - runStart region :=
    Nat.dvd_sub (Nat.dvd_sub_mod _) hstart
  have hframes : (runStop region - runStart region) / PAGE_SIZE * PAGE_SIZE =
      runStop region - runStart region := Nat.div_mul_cancel hdiff
  refine ⟨husable, hstop, le_trans (le_max_right _ _) hmax, hstart, ?_,
    le_trans (le_max_left _ _) hmax, ?_⟩
  · exact Nat.div_pos (Nat.le_of_dvd (by omega) hdiff) hpage
  · rw [FrameRun.stop, hframes, Nat.add_sub_cancel' hlt.le]

theorem runStop_le (region : MemoryRegion) : runStop region ≤ region.stop :=
  Nat.sub_le _ _

/-- A run of a map ends inside the address space. -/
theorem stop_lt_of_mem_runs {regions : List MemoryRegion} {run : FrameRun}
    (hrun : run ∈ runs regions) : run.stop < 2 ^ 64 := by
  obtain ⟨region, _, heq⟩ := List.mem_filterMap.mp hrun
  obtain ⟨_, hbelow, _, _, _, _, hstop⟩ := runOf_eq_some heq
  rw [hstop]
  exact lt_of_le_of_lt (runStop_le region) hbelow

namespace UsableRegions

/-- One turn of the loop never faults and computes `runOf`. -/
theorem usableRun_eq (region : MemoryRegion) : usableRun region = .ok (runOf region) := by
  unfold usableRun runOf
  by_cases husable : region.isUsable
  · simp only [husable, Bool.not_true, Bool.false_eq_true, if_false, true_and]
    have hpages : Word.checkedMul region.pages.toNat PAGE_SIZE =
        if region.pages.toNat * PAGE_SIZE < 2 ^ 64 then some (region.pages.toNat * PAGE_SIZE)
        else none := rfl
    have hadd : Word.checkedAdd region.start.toNat (region.pages.toNat * PAGE_SIZE) =
        if region.stop < 2 ^ 64 then some region.stop else none := rfl
    have hstart : max region.start.toNat PAGE_SIZE < 2 ^ 64 := by
      have hlt := region.start.toNat_lt
      have hpage : PAGE_SIZE < 2 ^ 64 := by decide
      omega
    have hpage : 0 < PAGE_SIZE := by decide
    have hnext := Word.checkedNextMultipleOf_eq hpage hstart
    by_cases hfits : region.stop < 2 ^ 64
    · have hspan : region.pages.toNat * PAGE_SIZE < 2 ^ 64 :=
        lt_of_le_of_lt (Nat.le_add_left _ _) hfits
      have hsub : Word.sub region.stop (region.stop % PAGE_SIZE) = .ok (runStop region) :=
        Word.sub_eq (Nat.mod_le _ _)
      rw [hpages, if_pos hspan]
      simp only
      rw [hadd, if_pos hfits]
      simp only
      rw [hnext]
      by_cases hround : runStart region < 2 ^ 64
      · rw [runStart] at hround
        rw [if_pos hround]
        simp only
        rw [hsub, ok_bind, ← runStart]
        by_cases hlt : runStart region < runStop region
        · rw [if_neg (by omega), Word.sub_eq (by omega), ok_bind, if_pos ⟨hfits, hlt⟩]
          rfl
        · rw [if_pos (by omega), if_neg fun h ↦ hlt h.2]
          rfl
      · have hno : ¬ runStart region < runStop region := by
          have := runStop_le region
          omega
        rw [runStart] at hround
        rw [if_neg hround, if_neg fun h ↦ hno h.2]
        rfl
    · rw [if_neg fun h ↦ hfits h.1, hpages]
      split_ifs with hspan
      · simp only
        rw [hadd, if_neg hfits]
        rfl
      · rfl
  · simp [husable]

/-- The loop stops at the first region with a run. -/
theorem scan_eq (regions : List MemoryRegion) (index : ℕ) :
    ∃ index', scan regions index = .ok ((runs regions).head?, index') ∧
      index ≤ index' ∧ index' ≤ index + regions.length ∧
      runs (regions.drop (index' - index)) = (runs regions).tail := by
  induction regions generalizing index with
  | nil => exact ⟨index, rfl, le_rfl, by simp, by simp [runs]⟩
  | cons region rest ih =>
    rw [scan, usableRun_eq, ok_bind]
    cases hrun : runOf region with
    | some run =>
      refine ⟨index + 1, ?_, by omega, by simp, ?_⟩
      · simp [runs, hrun]
      · simp [runs, hrun]
    | none =>
      obtain ⟨index', hscan, hlow, hhigh, htail⟩ := ih (index + 1)
      refine ⟨index', ?_, by omega, by simp only [List.length_cons]; omega, ?_⟩
      · simpa [runs, hrun] using hscan
      · have hdrop : index' - index = index' - (index + 1) + 1 := by omega
        rw [hdrop, List.drop_succ_cons, htail]
        simp [runs, hrun]

/-- The runs an iterator has still to hand out. -/
def rest (iterator : UsableRegions) : List FrameRun :=
  runs (iterator.regions.drop iterator.index)

/-- `next` never faults, hands out the first of the remaining runs and leaves the others. -/
theorem next_eq (iterator : UsableRegions) :
    ∃ after, next iterator = .ok (iterator.rest.head?, after) ∧
      after.regions = iterator.regions ∧ after.rest = iterator.rest.tail := by
  obtain ⟨index', hscan, hlow, _, htail⟩ :=
    scan_eq (iterator.regions.drop iterator.index) iterator.index
  refine ⟨⟨iterator.regions, index'⟩, ?_, rfl, ?_⟩
  · rw [next, hscan, ok_bind]
    rfl
  · rw [rest, rest, ← htail, List.drop_drop]
    simp only
    congr 2
    omega

@[simp] theorem rest_new (regions : List MemoryRegion) : (new regions).rest = runs regions :=
  rfl

end UsableRegions

end RustBL
