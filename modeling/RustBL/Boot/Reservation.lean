import RustBL.Bootloader.Handoff
import RustBL.Kernel.Frame.Safety
import Mathlib.Data.List.Pairwise

/-!
# Nothing the kernel runs on is handed out

The bootloader obtains pages for the kernel segments, the stack, the handoff record and the region
array, and the final memory map marks all of them with a type that is not `CONVENTIONAL`. The kernel
builds its frame allocator from the region array alone, and keeps reading the array while frames are
handed out.

`reservation` follows a handoff through both binaries. After `exit_and_jump` the array holds the
leading descriptors of the map; in every state the frame allocator then reaches, every frame that is
handed out or free is a whole page of a `CONVENTIONAL` descriptor and meets no page of the
bootloader, and the array still reads as it did.
-/

set_option autoImplicit false
set_option relaxedAutoImplicit false

namespace RustBL

/-- The bytes a descriptor describes. -/
def MemoryDescriptor.span (descriptor : MemoryDescriptor) : Span :=
  ⟨descriptor.physStart.toNat, descriptor.pageCount.toNat * PAGE_SIZE⟩

/-- What the bootloader leaves behind: its pages, and in them the handoff record and the region
array. -/
structure Handover where
  /-- The pages obtained as `LOADER_DATA`. -/
  pages : List ℕ
  /-- The address of the handoff record. -/
  bootInfoPtr : ℕ
  /-- The address of the region array. -/
  regionsPtr : UInt64
  /-- The number of regions the array has room for. -/
  regionsCapacity : ℕ
  capacity_lt : regionsCapacity < 2 ^ 64
  record_inside : ∀ addr ∈ Set.Ico bootInfoPtr (bootInfoPtr + BootInfo.SIZE),
    ∃ page ∈ pages, addr ∈ frameBytes page
  array_inside : ∀ addr ∈ Set.Ico regionsPtr.toNat
    (regionsPtr.toNat + regionsCapacity * REGION_SIZE), ∃ page ∈ pages, addr ∈ frameBytes page
  apart : regionsPtr.toNat + regionsCapacity * REGION_SIZE ≤ bootInfoPtr ∨
    bootInfoPtr + BootInfo.SIZE ≤ regionsPtr.toNat

/-- A final memory map in which the bootloader's pages are not free for use: its descriptors do not
overlap, lie below `2 ^ 52`, and every byte of a page is described with another type than
`CONVENTIONAL`. -/
structure FinalMap (pages : List ℕ) (memoryMap : List MemoryDescriptor) : Prop where
  apart : memoryMap.Pairwise fun descriptor other ↦ Disjoint descriptor.span.bytes other.span.bytes
  below : ∀ descriptor ∈ memoryMap, descriptor.span.stop ≤ 2 ^ 52
  covered : ∀ page ∈ pages, ∀ addr ∈ frameBytes page, ∃ descriptor ∈ memoryMap,
    descriptor.ty ≠ MemoryRegion.CONVENTIONAL ∧ addr ∈ descriptor.span.bytes

/-- A frame the kernel may use: a whole page off page 0, inside a `CONVENTIONAL` descriptor of the
map, that meets none of the bootloader's pages. -/
structure Spare (pages : List ℕ) (memoryMap : List MemoryDescriptor) (frame : ℕ) : Prop where
  page_dvd : PAGE_SIZE ∣ frame
  ne_zero : frame ≠ 0
  inside : ∃ descriptor ∈ memoryMap, descriptor.ty = MemoryRegion.CONVENTIONAL ∧
    frameBytes frame ⊆ descriptor.span.bytes
  disjoint : ∀ page ∈ pages, Disjoint (frameBytes frame) (frameBytes page)

section FinalMap

variable {pages : List ℕ} {memoryMap : List MemoryDescriptor}

/-- The regions of the leading descriptors are a firmware map. -/
theorem FinalMap.firmwareMap (h : FinalMap pages memoryMap) (capacity : ℕ) :
    FirmwareMap ((memoryMap.map MemoryDescriptor.region).take capacity) where
  apart := by
    have hall : (memoryMap.map MemoryDescriptor.region).Pairwise
        fun region other ↦ Disjoint region.span.bytes other.span.bytes :=
      List.pairwise_map.mpr h.apart
    exact (hall.sublist (List.take_sublist _ _)).filter _
  below := by
    intro region hregion _
    obtain ⟨descriptor, hdescriptor, rfl⟩ := List.mem_map.mp (List.mem_of_mem_take hregion)
    exact h.below descriptor hdescriptor

/-- A byte lies in one descriptor only. -/
theorem FinalMap.eq_of_mem (h : FinalMap pages memoryMap) {descriptor other : MemoryDescriptor}
    (hdescriptor : descriptor ∈ memoryMap) (hother : other ∈ memoryMap) {addr : ℕ}
    (hin : addr ∈ descriptor.span.bytes) (hin' : addr ∈ other.span.bytes) :
    descriptor = other := by
  by_contra hne
  have : Std.Symm fun left right : MemoryDescriptor ↦
    Disjoint left.span.bytes right.span.bytes := ⟨fun _ _ hpair ↦ hpair.symm⟩
  have hdisjoint := h.apart.forall hdescriptor hother hne
  exact Set.disjoint_left.mp hdisjoint hin hin'

/-- The frames of the leading descriptors are spare. -/
theorem FinalMap.spare (h : FinalMap pages memoryMap) {capacity frame : ℕ}
    (hframe : frame ∈ usableFrames ((memoryMap.map MemoryDescriptor.region).take capacity)) :
    Spare pages memoryMap frame := by
  obtain ⟨region, hregion, hof⟩ := mem_usableFrames hframe
  obtain ⟨descriptor, hdescriptor, rfl⟩ := List.mem_map.mp (List.mem_of_mem_take hregion)
  have hpage : 0 < PAGE_SIZE := by decide
  have hle := hof.page_le
  have hconventional : descriptor.ty = MemoryRegion.CONVENTIONAL := by
    simpa [MemoryRegion.isUsable, MemoryDescriptor.region] using hof.usable
  refine ⟨hof.page_dvd, by omega, ⟨descriptor, hdescriptor, hconventional, hof.inside⟩, ?_⟩
  intro page hpages
  rw [Set.disjoint_left]
  intro addr haddr hin
  -- The byte would be described as free and as not free.
  obtain ⟨other, hother, hne, hmem⟩ := h.covered page hpages addr hin
  have heq := h.eq_of_mem hdescriptor hother (hof.inside haddr) hmem
  exact hne (heq ▸ hconventional)

/-- A range inside the bootloader's pages meets no usable frame. -/
theorem FinalMap.disjoint_usableBytes (h : FinalMap pages memoryMap) (capacity : ℕ)
    {range : Set ℕ} (hinside : ∀ addr ∈ range, ∃ page ∈ pages, addr ∈ frameBytes page) :
    Disjoint range (usableBytes ((memoryMap.map MemoryDescriptor.region).take capacity)) := by
  rw [Set.disjoint_left]
  rintro addr haddr ⟨frame, hframe, hin⟩
  obtain ⟨page, hpage, hmem⟩ := hinside addr haddr
  exact Set.disjoint_left.mp ((h.spare hframe).disjoint page hpage) hin hmem

end FinalMap

/-- A handoff through both binaries. `exit_and_jump` stores at most the capacity as the count and
fills the array with the leading descriptors of the map. From any memory that still has the record
and the array, every frame the allocator of the kernel holds out or keeps free is spare, and the
array it reads never changes. -/
theorem reservation (handover : Handover) (memoryMap : List MemoryDescriptor)
    (hmap : FinalMap handover.pages memoryMap) (m : Mem) (framebuffer : FrameBufferInfo)
    (kernelBase kernelSize : UInt64) (entry stackTop : ℕ) :
    ∃ kernel, exitAndJump (BootInfo.write m handover.bootInfoPtr
          (.new framebuffer handover.regionsPtr 0 kernelBase kernelSize)) memoryMap
        handover.bootInfoPtr handover.regionsPtr.toNat handover.regionsCapacity entry stackTop =
        .ok kernel ∧
      kernel.rdi = handover.bootInfoPtr ∧
      BootInfo.loadMemoryRegionsLen kernel.mem handover.bootInfoPtr ≤ handover.regionsCapacity ∧
      BootInfo.memoryRegions kernel.mem handover.bootInfoPtr =
        (memoryMap.map MemoryDescriptor.region).take handover.regionsCapacity ∧
      ∃ allocator, (∀ fuel, memoryMap.length < fuel → ∃ total, Frames.init fuel
          (BootInfo.memoryRegions kernel.mem handover.bootInfoPtr) = .ok (total, allocator)) ∧
        ∀ m', Mem.AgreeOn kernel.mem m' handover.bootInfoPtr BootInfo.SIZE →
          Mem.AgreeOn kernel.mem m' handover.regionsPtr.toNat
            (handover.regionsCapacity * REGION_SIZE) →
          ∀ s, frameMachine.Reachable (FrameState.start allocator m') s →
            (∃ stack, s.Stack stack ∧ ∀ frame ∈ s.ledger.frames ++ stack,
              Spare handover.pages memoryMap frame) ∧
            BootInfo.memoryRegions s.mem handover.bootInfoPtr =
              (memoryMap.map MemoryDescriptor.region).take handover.regionsCapacity := by
  have hfirmware := hmap.firmwareMap handover.regionsCapacity
  obtain ⟨m₁, hexit, hptr, hlen, harray⟩ := exitAndJump_spec _ memoryMap handover.capacity_lt
    handover.apart (BootInfo.loadMemoryRegionsPtr_write m handover.bootInfoPtr
      (.new framebuffer handover.regionsPtr 0 kernelBase kernelSize))
  obtain ⟨allocator, hinit, hstart⟩ := init_refines hfirmware
  have hcount : BootInfo.loadMemoryRegionsLen m₁ handover.bootInfoPtr ≤
      handover.regionsCapacity := by
    rw [hlen]
    exact Nat.min_le_right _ _
  refine ⟨_, hexit, rfl, hcount, harray, allocator, fun fuel hfuel ↦ ?_, ?_⟩
  · rw [harray]
    refine ⟨_, hinit fuel (lt_of_le_of_lt ?_ hfuel)⟩
    refine (List.length_filterMap_le _ _).trans ((List.length_take_le' _ _).trans ?_)
    rw [List.length_map]
  · intro m' hrecord hregions s hs
    obtain ⟨hsame, t, h⟩ := frame_run_sameOff hfirmware (hstart m') hs
    refine ⟨⟨t.stack, h.stack, fun frame hframe ↦ ?_⟩, ?_⟩
    · refine hmap.spare (h.accounted.partition.mem_iff.mp ?_)
      rw [h.unused_eq, ← h.ledger_eq, ← List.append_assoc]
      exact List.mem_append_left _ hframe
    · -- A run writes to usable frames only, and the record and the array meet none.
      have hrecord' := hrecord.trans (hsame.agreeOn
        (hmap.disjoint_usableBytes handover.regionsCapacity handover.record_inside))
      have hregions' := hregions.trans (hsame.agreeOn
        (hmap.disjoint_usableBytes handover.regionsCapacity handover.array_inside))
      have hbytes : BootInfo.loadMemoryRegionsLen m₁ handover.bootInfoPtr * REGION_SIZE ≤
          handover.regionsCapacity * REGION_SIZE := Nat.mul_le_mul_right _ hcount
      rw [← BootInfo.memoryRegions_congr hrecord' ?_, harray]
      rw [hptr]
      exact hregions'.mono le_rfl (Nat.add_le_add_left hbytes _)

/-- The record in page 1 and an array with room for one region in page 2. -/
def lowHandover : Handover where
  pages := [0x1000, 0x2000]
  bootInfoPtr := 0x1000
  regionsPtr := 0x2000
  regionsCapacity := 2
  capacity_lt := by decide
  record_inside := fun addr haddr ↦ ⟨0x1000, by decide, haddr.1, haddr.2.trans (by decide)⟩
  array_inside := fun addr haddr ↦ ⟨0x2000, by decide, haddr.1, haddr.2.trans (by decide)⟩
  apart := Or.inr (by decide)

/-- A map that reserves the two low pages and has one free region, and more descriptors than the
array of `lowHandover` has room for. -/
def lowMap : List MemoryDescriptor :=
  [⟨2, 0x1000, 2⟩, ⟨MemoryRegion.CONVENTIONAL, 0x100000, 2⟩, ⟨2, 0x200000, 1⟩]

theorem finalMap_lowMap : FinalMap lowHandover.pages lowMap where
  apart := by
    have hapart : lowMap.Pairwise fun descriptor other ↦
        descriptor.span.stop ≤ other.span.start := by decide
    exact hapart.imp fun hstop ↦ Span.Apart.disjoint (Or.inl hstop)
  below := by decide
  covered := by
    intro page hpage addr haddr
    have hstart : 0x1000 ≤ page ∧ page ≤ 0x2000 := by
      rcases List.mem_cons.mp hpage with rfl | hpage
      · decide
      · rw [List.mem_singleton.mp hpage]
        decide
    refine ⟨⟨2, 0x1000, 2⟩, by decide, by decide, Span.mem_bytes.mpr ⟨hstart.1.trans haddr.1, ?_⟩⟩
    exact haddr.2.trans_le ((Nat.add_le_add_right hstart.2 _).trans (by decide))

theorem reservation_lowMap : ∃ kernel : KernelEntry,
    BootInfo.memoryRegions kernel.mem lowHandover.bootInfoPtr =
        [⟨0x1000, 2, 2⟩, ⟨0x100000, 2, MemoryRegion.CONVENTIONAL⟩] ∧
      ∃ allocator, ∀ s, frameMachine.Reachable (FrameState.start allocator kernel.mem) s →
        ∃ stack, s.Stack stack ∧ ∀ frame ∈ s.ledger.frames ++ stack,
          Spare lowHandover.pages lowMap frame := by
  obtain ⟨kernel, _, _, _, harray, allocator, _, hruns⟩ := reservation lowHandover lowMap
    finalMap_lowMap (fun _ ↦ 0) ⟨0x80000000, 0x1000, 32, 32, 32, 4, 0⟩ 0x300000 0x1000 0x300000
    0x400000
  refine ⟨kernel, harray, allocator, fun s hs ↦ ?_⟩
  exact (hruns kernel.mem (Mem.AgreeOn.refl _ _ _) (Mem.AgreeOn.refl _ _ _) s hs).1

end RustBL
