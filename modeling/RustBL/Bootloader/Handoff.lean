import RustBL.BootInfo.Layout
import RustBL.Library.Checked

/-!
# Leaving the firmware

`exitAndJump` is the last thing the bootloader does. It copies the descriptors of the final firmware
memory map into the region array, stops when the array is full, stores the count in the handoff
record, and enters the kernel. The map is an argument, since `ExitBootServices` returns it.

`copyRegions_spec` is the copy loop by induction on the descriptors not copied yet: the array holds
the leading descriptors in order, the count is the number of them, and nothing outside the array is
written.
-/

set_option autoImplicit false
set_option relaxedAutoImplicit false

namespace RustBL

/-- The part of a UEFI memory descriptor the bootloader reads. -/
structure MemoryDescriptor where
  /-- The memory type. -/
  ty : UInt32
  /-- The physical address of the first byte. -/
  physStart : UInt64
  /-- The number of pages. -/
  pageCount : UInt64
  deriving DecidableEq, Repr

/-- The region a descriptor is flattened to. -/
def MemoryDescriptor.region (descriptor : MemoryDescriptor) : MemoryRegion :=
  ⟨descriptor.physStart, descriptor.pageCount, descriptor.ty⟩

/-- The state of the machine when the kernel is entered. -/
structure KernelEntry where
  /-- The memory. -/
  mem : Mem
  /-- The instruction pointer. -/
  rip : ℕ
  /-- The stack pointer. -/
  rsp : ℕ
  /-- The frame pointer. -/
  rbp : ℕ
  /-- The first argument. -/
  rdi : ℕ
  /-- The interrupt flag. -/
  interrupts : Bool

/-- The loop over the descriptors: the memory and the number of regions written. -/
def copyRegions (regionsPtr regionsCapacity : ℕ) :
    List MemoryDescriptor → Mem → ℕ → Checked (Mem × ℕ)
  | [], m, count => return (m, count)
  | descriptor :: rest, m, count =>
    -- Out of room: truncate.
    if regionsCapacity ≤ count then return (m, count)
    else do
      let m := MemoryRegion.write m (regionsPtr + count * REGION_SIZE) descriptor.region
      let count ← Word.add count 1
      copyRegions regionsPtr regionsCapacity rest m count

/-- `exit_and_jump`, given the final memory map. -/
def exitAndJump (m : Mem) (memoryMap : List MemoryDescriptor)
    (bootInfoPtr regionsPtr regionsCapacity entry stackTop : ℕ) : Checked KernelEntry := do
  let (m, count) ← copyRegions regionsPtr regionsCapacity memoryMap m 0
  let m := BootInfo.setMemoryRegionsLen m bootInfoPtr count
  return ⟨m, entry, stackTop, 0, bootInfoPtr, false⟩

section Copy

variable {regionsPtr regionsCapacity : ℕ}

/-- The copy loop, with `count` regions written before it. It writes the leading descriptors that
have room, in order, and nothing before or after them. -/
theorem copyRegions_spec (regionsPtr : ℕ) (rest : List MemoryDescriptor) (m : Mem) {count : ℕ}
    (hcount : count ≤ regionsCapacity) (hcapacity : regionsCapacity < 2 ^ 64) :
    ∃ m', copyRegions regionsPtr regionsCapacity rest m count =
        .ok (m', count + min rest.length (regionsCapacity - count)) ∧
      MemoryRegion.readArray m' (regionsPtr + count * REGION_SIZE)
          (min rest.length (regionsCapacity - count)) =
        (rest.map MemoryDescriptor.region).take (regionsCapacity - count) ∧
      Mem.SameOff (Set.Ico (regionsPtr + count * REGION_SIZE)
        (regionsPtr + regionsCapacity * REGION_SIZE)) m m' := by
  induction rest generalizing m count with
  | nil =>
    refine ⟨m, ?_, ?_, Mem.SameOff.refl _ _⟩
    · rw [copyRegions, List.length_nil, Nat.zero_min]
      rfl
    · rw [List.length_nil, Nat.zero_min, List.map_nil, List.take_nil]
      rfl
  | cons descriptor rest ih =>
    by_cases hfull : regionsCapacity ≤ count
    · have hroom : regionsCapacity - count = 0 := Nat.sub_eq_zero_of_le hfull
      refine ⟨m, ?_, ?_, Mem.SameOff.refl _ _⟩
      · rw [copyRegions, if_pos hfull, hroom, Nat.min_zero]
        rfl
      · rw [hroom, Nat.min_zero, List.take_zero]
        rfl
    · obtain ⟨room, hroom⟩ : ∃ room, regionsCapacity - count = room + 1 :=
        ⟨regionsCapacity - count - 1, by omega⟩
      have hnext : regionsCapacity - (count + 1) = room := by omega
      have haddr : regionsPtr + (count + 1) * REGION_SIZE =
          regionsPtr + count * REGION_SIZE + REGION_SIZE := by
        rw [Nat.add_mul, Nat.one_mul, Nat.add_assoc]
      obtain ⟨m', hcopy, harray, hsame⟩ := ih
        (MemoryRegion.write m (regionsPtr + count * REGION_SIZE) descriptor.region)
        (by omega : count + 1 ≤ regionsCapacity)
      rw [hnext] at hcopy harray
      rw [haddr] at harray hsame
      have hmin : min (descriptor :: rest).length (regionsCapacity - count) =
          min rest.length room + 1 := by
        rw [hroom, List.length_cons, Nat.succ_min_succ]
      -- The region just written is below everything the rest of the loop writes.
      have hfirst :
          MemoryRegion.read m' (regionsPtr + count * REGION_SIZE) = descriptor.region := by
        rw [← MemoryRegion.read_congr (hsame.agreeOn ?_), MemoryRegion.read_write]
        exact Set.disjoint_left.mpr fun other hother hin ↦ absurd hother.2 (not_lt.mpr hin.1)
      refine ⟨m', ?_, ?_, ?_⟩
      · rw [copyRegions, if_neg hfull]
        simp only
        rw [Word.add_eq (by omega), ok_bind, hcopy, hmin]
        congr 2
        omega
      · rw [hmin, MemoryRegion.readArray, hfirst, harray, hroom, List.map_cons,
          List.take_succ_cons]
      · have hlast : (count + 1) * REGION_SIZE ≤ regionsCapacity * REGION_SIZE :=
          Nat.mul_le_mul_right _ (by omega)
        rw [Nat.add_mul, Nat.one_mul] at hlast
        refine ((MemoryRegion.sameOff_write _ _ _).mono ?_).trans (hsame.mono ?_)
        · exact Set.Ico_subset_Ico_right (by omega)
        · exact Set.Ico_subset_Ico_left (by omega)

/-- `exit_and_jump` never faults. It leaves the count in the record and the leading descriptors in
the array, and writes to these two only. Assumes: the record and the array do not overlap. -/
theorem exitAndJump_spec (m : Mem) (memoryMap : List MemoryDescriptor)
    {bootInfoPtr entry stackTop : ℕ} (hcapacity : regionsCapacity < 2 ^ 64)
    (hapart : regionsPtr + regionsCapacity * REGION_SIZE ≤ bootInfoPtr ∨
      bootInfoPtr + BootInfo.SIZE ≤ regionsPtr)
    (hptr : BootInfo.loadMemoryRegionsPtr m bootInfoPtr = regionsPtr) :
    ∃ m', exitAndJump m memoryMap bootInfoPtr regionsPtr regionsCapacity entry stackTop =
        .ok ⟨m', entry, stackTop, 0, bootInfoPtr, false⟩ ∧
      BootInfo.loadMemoryRegionsPtr m' bootInfoPtr = regionsPtr ∧
      BootInfo.loadMemoryRegionsLen m' bootInfoPtr = min memoryMap.length regionsCapacity ∧
      BootInfo.memoryRegions m' bootInfoPtr =
        (memoryMap.map MemoryDescriptor.region).take regionsCapacity := by
  obtain ⟨m', hcopy, harray, hsame⟩ := copyRegions_spec regionsPtr memoryMap m
    (Nat.zero_le regionsCapacity) hcapacity
  simp only [Nat.zero_mul, Nat.add_zero, Nat.zero_add, Nat.sub_zero] at hcopy harray hsame
  have hsize : BootInfo.SIZE = 88 := rfl
  have hcount : min memoryMap.length regionsCapacity < 256 ^ 8 :=
    lt_of_le_of_lt (Nat.min_le_right _ _) hcapacity
  have hcountLe : min memoryMap.length regionsCapacity * REGION_SIZE ≤
      regionsCapacity * REGION_SIZE := Nat.mul_le_mul_right _ (Nat.min_le_right _ _)
  have hlen : BootInfo.loadMemoryRegionsLen
      (BootInfo.setMemoryRegionsLen m' bootInfoPtr (min memoryMap.length regionsCapacity))
      bootInfoPtr = min memoryMap.length regionsCapacity := Mem.load_store_of_lt hcount
  have hptr' : BootInfo.loadMemoryRegionsPtr
      (BootInfo.setMemoryRegionsLen m' bootInfoPtr (min memoryMap.length regionsCapacity))
      bootInfoPtr = regionsPtr := by
    have hkept : Mem.AgreeOn m m' (bootInfoPtr + 56) 8 :=
      hsame.agreeOn (Set.disjoint_left.mpr fun other hother hin ↦ by
        have := hother.1
        have := hother.2
        have := hin.1
        have := hin.2
        omega)
    rw [BootInfo.loadMemoryRegionsPtr, BootInfo.setMemoryRegionsLen,
      Mem.load_store_of_disjoint (by omega), ← Mem.load_congr hkept]
    exact hptr
  refine ⟨_, ?_, hptr', hlen, ?_⟩
  · rw [exitAndJump, hcopy, ok_bind]
    rfl
  · rw [BootInfo.memoryRegions, hptr', hlen, ← harray]
    refine MemoryRegion.readArray_congr (Mem.agreeOn_store ?_)
    omega

/-- Besides the array, `exit_and_jump` changes the count of the record only. Assumes: the record and
the array do not overlap. -/
theorem exitAndJump_keeps {m : Mem} {memoryMap : List MemoryDescriptor}
    {bootInfoPtr entry stackTop : ℕ} {kernel : KernelEntry} (hcapacity : regionsCapacity < 2 ^ 64)
    (hapart : regionsPtr + regionsCapacity * REGION_SIZE ≤ bootInfoPtr ∨
      bootInfoPtr + BootInfo.SIZE ≤ regionsPtr)
    (hran : exitAndJump m memoryMap bootInfoPtr regionsPtr regionsCapacity entry stackTop =
      .ok kernel) :
    Mem.SameOff (Set.Ico regionsPtr (regionsPtr + regionsCapacity * REGION_SIZE) ∪
        Set.Ico bootInfoPtr (bootInfoPtr + BootInfo.SIZE)) m kernel.mem ∧
      BootInfo.read kernel.mem bootInfoPtr = { BootInfo.read m bootInfoPtr with
        memoryRegionsLen := .ofNat (min memoryMap.length regionsCapacity) } := by
  obtain ⟨m', hcopy, _, hsame⟩ := copyRegions_spec regionsPtr memoryMap m
    (Nat.zero_le regionsCapacity) hcapacity
  simp only [Nat.zero_mul, Nat.add_zero, Nat.zero_add, Nat.sub_zero] at hcopy hsame
  rw [exitAndJump, hcopy, ok_bind] at hran
  obtain rfl := Except.ok.inj hran
  have hsize : BootInfo.SIZE = 88 := rfl
  have hrecord : Mem.AgreeOn m m' bootInfoPtr BootInfo.SIZE :=
    hsame.agreeOn (Set.disjoint_left.mpr fun other hother hin ↦ by
      have := hother.1
      have := hother.2
      have := hin.1
      have := hin.2
      omega)
  constructor
  · refine (hsame.mono Set.subset_union_left).trans
      ((Mem.sameOff_store _ _ _ _).mono (subset_trans ?_ Set.subset_union_right))
    exact Set.Ico_subset_Ico (Nat.le_add_right _ _) (by omega)
  · rw [BootInfo.read_congr hrecord]
    exact BootInfo.read_setMemoryRegionsLen m' bootInfoPtr _
      (lt_of_le_of_lt (Nat.min_le_right _ _) hcapacity)

end Copy

end RustBL
