import RustBL.BootInfo.MemoryMap
import RustBL.Library.Memory

/-!
# The handoff record and its layout in memory

`BootInfo` is the record the bootloader leaves for the kernel, with the framebuffer description and
the array of memory regions. All of it is `repr(C)`: the record takes 88 bytes, a framebuffer
description 40 and a memory region 24.

The record is written and read back whole (`BootInfo.read_write`), and the region array is written
one region at a time and read back as a list. `read_write` is the round trip of one region, and
`readArray_congr` says that the list depends on the bytes of the array only.
-/

set_option autoImplicit false
set_option relaxedAutoImplicit false

namespace RustBL

/-! ### The framebuffer description -/

/-- How pixels are laid out in the framebuffer. -/
inductive PixelFormatKind
  /-- Byte order red, green, blue, reserved. -/
  | rgb
  /-- Byte order blue, green, red, reserved. -/
  | bgr
  deriving DecidableEq, Repr

/-- `PixelFormatKind::from_u32`. -/
def PixelFormatKind.fromU32 (value : UInt32) : Option PixelFormatKind :=
  if value = 0 then some .rgb
  else if value = 1 then some .bgr
  else none

/-- `pixel_format as u32`. -/
def PixelFormatKind.toU32 : PixelFormatKind → UInt32
  | .rgb => 0
  | .bgr => 1

/-- Everything the kernel needs to draw to the screen. -/
structure FrameBufferInfo where
  /-- The physical address of the first pixel. -/
  addr : UInt64
  /-- The size of the framebuffer in bytes. -/
  size : UInt64
  /-- The width in pixels. -/
  width : UInt32
  /-- The height in pixels. -/
  height : UInt32
  /-- The pixels of a scanline, padding included. -/
  stride : UInt32
  /-- The bytes of a pixel. -/
  bytesPerPixel : UInt32
  /-- The raw pixel format. -/
  pixelFormatRaw : UInt32
  deriving DecidableEq, Repr

namespace FrameBufferInfo

/-- `FrameBufferInfo::new`. -/
def new (addr size : UInt64) (width height stride bytesPerPixel : UInt32)
    (pixelFormat : PixelFormatKind) : FrameBufferInfo :=
  ⟨addr, size, width, height, stride, bytesPerPixel, pixelFormat.toU32⟩

/-- `FrameBufferInfo::pixel_format`. -/
def pixelFormat (info : FrameBufferInfo) : Option PixelFormatKind :=
  PixelFormatKind.fromU32 info.pixelFormatRaw

/-- Write a description, with its padding word. -/
def write (m : Mem) (addr : ℕ) (info : FrameBufferInfo) : Mem :=
  let m := m.store addr 8 info.addr.toNat
  let m := m.store (addr + 8) 8 info.size.toNat
  let m := m.store (addr + 16) 4 info.width.toNat
  let m := m.store (addr + 20) 4 info.height.toNat
  let m := m.store (addr + 24) 4 info.stride.toNat
  let m := m.store (addr + 28) 4 info.bytesPerPixel.toNat
  let m := m.store (addr + 32) 4 info.pixelFormatRaw.toNat
  m.store (addr + 36) 4 0

/-- Read a description. -/
def read (m : Mem) (addr : ℕ) : FrameBufferInfo :=
  ⟨.ofNat (m.load addr 8), .ofNat (m.load (addr + 8) 8), .ofNat (m.load (addr + 16) 4),
    .ofNat (m.load (addr + 20) 4), .ofNat (m.load (addr + 24) 4), .ofNat (m.load (addr + 28) 4),
    .ofNat (m.load (addr + 32) 4)⟩

theorem read_write (m : Mem) (addr : ℕ) (info : FrameBufferInfo) :
    read (write m addr info) addr = info := by
  have haddr := info.addr.toNat_lt
  have hsize := info.size.toNat_lt
  have hwidth := info.width.toNat_lt
  have hheight := info.height.toNat_lt
  have hstride := info.stride.toNat_lt
  have hbytes := info.bytesPerPixel.toNat_lt
  have hformat := info.pixelFormatRaw.toNat_lt
  unfold read write
  simp (disch := omega) only [Mem.load_store_of_disjoint, Mem.load_store_of_lt, UInt64.ofNat_toNat,
    UInt32.ofNat_toNat]

/-- Writing a description changes its own 40 bytes only. -/
theorem sameOff_write (m : Mem) (addr : ℕ) (info : FrameBufferInfo) :
    Mem.SameOff (Set.Ico addr (addr + 40)) m (write m addr info) := by
  intro other hother
  have hout : other < addr ∨ addr + 40 ≤ other := by
    by_contra hin
    exact hother ⟨by omega, by omega⟩
  unfold write
  simp (disch := omega) only [Mem.store_apply_of_not_mem]

theorem read_congr {m m' : Mem} {addr : ℕ} (h : Mem.AgreeOn m m' addr 40) :
    read m addr = read m' addr := by
  have hload : ∀ offset width, offset + width ≤ 40 →
      m.load (addr + offset) width = m'.load (addr + offset) width := fun offset width hin ↦
    Mem.load_congr (h.mono (Nat.le_add_right _ _) (by omega))
  have hfirst : m.load addr 8 = m'.load addr 8 := hload 0 8 (by omega)
  unfold read
  rw [hfirst, hload 8 8 (by omega), hload 16 4 (by omega), hload 20 4 (by omega),
    hload 24 4 (by omega), hload 28 4 (by omega), hload 32 4 (by omega)]

end FrameBufferInfo

/-! ### Memory regions -/

/-- `size_of::<MemoryRegion>()`. -/
def REGION_SIZE : ℕ := 24

namespace MemoryRegion

/-- Write a region, with its padding word. -/
def write (m : Mem) (addr : ℕ) (region : MemoryRegion) : Mem :=
  let m := m.store addr 8 region.start.toNat
  let m := m.store (addr + 8) 8 region.pages.toNat
  let m := m.store (addr + 16) 4 region.kind.toNat
  m.store (addr + 20) 4 0

/-- Read a region. -/
def read (m : Mem) (addr : ℕ) : MemoryRegion :=
  ⟨.ofNat (m.load addr 8), .ofNat (m.load (addr + 8) 8), .ofNat (m.load (addr + 16) 4)⟩

/-- Read the array of `count` regions at `addr`. -/
def readArray (m : Mem) (addr : ℕ) : ℕ → List MemoryRegion
  | 0 => []
  | count + 1 => read m addr :: readArray m (addr + REGION_SIZE) count

theorem read_write (m : Mem) (addr : ℕ) (region : MemoryRegion) :
    read (write m addr region) addr = region := by
  have hstart : (write m addr region).load addr 8 = region.start.toNat := by
    rw [write, Mem.load_store_of_disjoint (by omega), Mem.load_store_of_disjoint (by omega),
      Mem.load_store_of_disjoint (by omega), Mem.load_store_of_lt region.start.toNat_lt]
  have hpages : (write m addr region).load (addr + 8) 8 = region.pages.toNat := by
    rw [write, Mem.load_store_of_disjoint (by omega), Mem.load_store_of_disjoint (by omega),
      Mem.load_store_of_lt region.pages.toNat_lt]
  have hkind : (write m addr region).load (addr + 16) 4 = region.kind.toNat := by
    rw [write, Mem.load_store_of_disjoint (by omega), Mem.load_store_of_lt region.kind.toNat_lt]
  rw [read, hstart, hpages, hkind, UInt64.ofNat_toNat, UInt64.ofNat_toNat, UInt32.ofNat_toNat]

/-- Writing a region changes its own 24 bytes only. -/
theorem sameOff_write (m : Mem) (addr : ℕ) (region : MemoryRegion) :
    Mem.SameOff (Set.Ico addr (addr + REGION_SIZE)) m (write m addr region) := by
  intro other hother
  have hout : other < addr ∨ addr + 24 ≤ other := by
    by_contra hin
    exact hother ⟨by omega, by simp only [REGION_SIZE]; omega⟩
  rw [write, Mem.store_apply_of_not_mem (by omega), Mem.store_apply_of_not_mem (by omega),
    Mem.store_apply_of_not_mem (by omega), Mem.store_apply_of_not_mem (by omega)]

theorem read_congr {m m' : Mem} {addr : ℕ} (h : Mem.AgreeOn m m' addr REGION_SIZE) :
    read m addr = read m' addr := by
  simp only [REGION_SIZE] at h
  rw [read, read, Mem.load_congr (h.mono le_rfl (by omega)),
    Mem.load_congr (h.mono (Nat.le_add_right _ _) (by omega)),
    Mem.load_congr (h.mono (Nat.le_add_right _ _) (by omega))]

/-- An array depends on its own bytes only. -/
theorem readArray_congr {m m' : Mem} {addr count : ℕ}
    (h : Mem.AgreeOn m m' addr (count * REGION_SIZE)) :
    readArray m addr count = readArray m' addr count := by
  induction count generalizing addr with
  | zero => rfl
  | succ count ih =>
    rw [Nat.add_mul, Nat.one_mul] at h
    rw [readArray, readArray, read_congr (h.mono le_rfl (by omega)),
      ih (h.mono (by omega) (by omega))]

end MemoryRegion

/-! ### The handoff record -/

/-- The value the kernel checks on entry. -/
def BOOT_INFO_MAGIC : UInt64 := 0x52555354425f4c30

/-- The version of the layout. -/
def BOOT_INFO_VERSION : UInt32 := 1

/-- The root handoff record. -/
structure BootInfo where
  /-- The value the kernel checks on entry. -/
  magic : UInt64
  /-- The version of the layout. -/
  version : UInt32
  /-- The framebuffer. -/
  framebuffer : FrameBufferInfo
  /-- The address of the region array. -/
  memoryRegionsPtr : UInt64
  /-- The number of regions in the array. -/
  memoryRegionsLen : UInt64
  /-- The lowest address of the loaded kernel. -/
  kernelBase : UInt64
  /-- The span of the loaded kernel. -/
  kernelSize : UInt64

namespace BootInfo

/-- `size_of::<BootInfo>()`. -/
def SIZE : ℕ := 88

/-- `BootInfo::new`. -/
def new (framebuffer : FrameBufferInfo)
    (memoryRegionsPtr memoryRegionsLen kernelBase kernelSize : UInt64) : BootInfo where
  magic := BOOT_INFO_MAGIC
  version := BOOT_INFO_VERSION
  framebuffer := framebuffer
  memoryRegionsPtr := memoryRegionsPtr
  memoryRegionsLen := memoryRegionsLen
  kernelBase := kernelBase
  kernelSize := kernelSize

/-- `BootInfo::is_valid`. -/
def isValid (info : BootInfo) : Bool :=
  info.magic == BOOT_INFO_MAGIC && info.version == BOOT_INFO_VERSION &&
    info.framebuffer.pixelFormat.isSome

/-- Write a record, with its padding word. -/
def write (m : Mem) (addr : ℕ) (info : BootInfo) : Mem :=
  let m := m.store addr 8 info.magic.toNat
  let m := m.store (addr + 8) 4 info.version.toNat
  let m := m.store (addr + 12) 4 0
  let m := info.framebuffer.write m (addr + 16)
  let m := m.store (addr + 56) 8 info.memoryRegionsPtr.toNat
  let m := m.store (addr + 64) 8 info.memoryRegionsLen.toNat
  let m := m.store (addr + 72) 8 info.kernelBase.toNat
  m.store (addr + 80) 8 info.kernelSize.toNat

/-- Read a record. -/
def read (m : Mem) (addr : ℕ) : BootInfo where
  magic := .ofNat (m.load addr 8)
  version := .ofNat (m.load (addr + 8) 4)
  framebuffer := FrameBufferInfo.read m (addr + 16)
  memoryRegionsPtr := .ofNat (m.load (addr + 56) 8)
  memoryRegionsLen := .ofNat (m.load (addr + 64) 8)
  kernelBase := .ofNat (m.load (addr + 72) 8)
  kernelSize := .ofNat (m.load (addr + 80) 8)

/-- `(*boot_info).memory_regions_len = len`. -/
def setMemoryRegionsLen (m : Mem) (addr len : ℕ) : Mem :=
  m.store (addr + 64) 8 len

/-- The `memory_regions_ptr` of the record at `addr`. -/
def loadMemoryRegionsPtr (m : Mem) (addr : ℕ) : ℕ :=
  m.load (addr + 56) 8

/-- The `memory_regions_len` of the record at `addr`. -/
def loadMemoryRegionsLen (m : Mem) (addr : ℕ) : ℕ :=
  m.load (addr + 64) 8

/-- `BootInfo::memory_regions` of the record at `addr`. -/
def memoryRegions (m : Mem) (addr : ℕ) : List MemoryRegion :=
  MemoryRegion.readArray m (loadMemoryRegionsPtr m addr) (loadMemoryRegionsLen m addr)

/-- A fresh record points at its region array. -/
theorem loadMemoryRegionsPtr_write (m : Mem) (addr : ℕ) (info : BootInfo) :
    loadMemoryRegionsPtr (write m addr info) addr = info.memoryRegionsPtr.toNat := by
  rw [loadMemoryRegionsPtr, write, Mem.load_store_of_disjoint (by omega),
    Mem.load_store_of_disjoint (by omega), Mem.load_store_of_disjoint (by omega),
    Mem.load_store_of_lt info.memoryRegionsPtr.toNat_lt]

/-- The round trip of a record. -/
theorem read_write (m : Mem) (addr : ℕ) (info : BootInfo) :
    read (write m addr info) addr = info := by
  have hmagic := info.magic.toNat_lt
  have hversion := info.version.toNat_lt
  have hptr := info.memoryRegionsPtr.toNat_lt
  have hlen := info.memoryRegionsLen.toNat_lt
  have hbase := info.kernelBase.toNat_lt
  have hsize := info.kernelSize.toNat_lt
  -- The four words behind the framebuffer description leave it alone.
  have hbehind : ∀ (m : Mem) (ptr len base size : ℕ), FrameBufferInfo.read
      ((((m.store (addr + 56) 8 ptr).store (addr + 64) 8 len).store (addr + 72) 8 base).store
        (addr + 80) 8 size) (addr + 16) = FrameBufferInfo.read m (addr + 16) := by
    intro m ptr len base size
    refine FrameBufferInfo.read_congr fun other hlow hhigh ↦ ?_
    simp (disch := omega) only [Mem.store_apply_of_not_mem]
  have hbefore : ∀ (m : Mem) (start width : ℕ), start + width ≤ addr + 16 →
      (info.framebuffer.write m (addr + 16)).load start width = m.load start width :=
    fun m start width hin ↦ (Mem.load_congr ((FrameBufferInfo.sameOff_write _ _ _).agreeOn
      (Set.disjoint_left.mpr fun other hother hin' ↦ by
        have := hother.2
        have := hin'.1
        omega))).symm
  unfold read write
  simp only [hbehind, FrameBufferInfo.read_write]
  simp (disch := omega) only [Mem.load_store_of_disjoint, Mem.load_store_of_lt, hbefore,
    UInt64.ofNat_toNat, UInt32.ofNat_toNat]

/-- Writing a record changes its own 88 bytes only. -/
theorem sameOff_write (m : Mem) (addr : ℕ) (info : BootInfo) :
    Mem.SameOff (Set.Ico addr (addr + SIZE)) m (write m addr info) := by
  intro other hother
  have hout : other < addr ∨ addr + 88 ≤ other := by
    by_contra hin
    exact hother ⟨by omega, by simp only [SIZE]; omega⟩
  unfold write
  simp (disch := omega) only [Mem.store_apply_of_not_mem]
  rw [FrameBufferInfo.sameOff_write _ _ _ other fun hin ↦ by
    have := hin.1
    have := hin.2
    omega]
  simp (disch := omega) only [Mem.store_apply_of_not_mem]

/-- A record depends on its own bytes only. -/
theorem read_congr {m m' : Mem} {addr : ℕ} (h : Mem.AgreeOn m m' addr SIZE) :
    read m addr = read m' addr := by
  have hsize : SIZE = 88 := rfl
  have hload : ∀ offset width, offset + width ≤ 88 →
      m.load (addr + offset) width = m'.load (addr + offset) width := fun offset width hin ↦
    Mem.load_congr (h.mono (Nat.le_add_right _ _) (by omega))
  have hfirst : m.load addr 8 = m'.load addr 8 := hload 0 8 (by omega)
  unfold read
  rw [hfirst, hload 8 4 (by omega), hload 56 8 (by omega), hload 64 8 (by omega),
    hload 72 8 (by omega), hload 80 8 (by omega),
    FrameBufferInfo.read_congr (h.mono (by omega) (by omega))]

/-- Storing the number of regions changes that field of the record. -/
theorem read_setMemoryRegionsLen (m : Mem) (addr len : ℕ) (hlen : len < 2 ^ 64) :
    read (setMemoryRegionsLen m addr len) addr =
      { read m addr with memoryRegionsLen := .ofNat len } := by
  have hframebuffer : FrameBufferInfo.read (m.store (addr + 64) 8 len) (addr + 16) =
      FrameBufferInfo.read m (addr + 16) :=
    FrameBufferInfo.read_congr (Mem.agreeOn_store (by omega))
  unfold read setMemoryRegionsLen
  simp (disch := omega) only [hframebuffer, Mem.load_store_of_disjoint, Mem.load_store_of_lt]

/-- The array of a record survives a change of memory that leaves the record and the array alone. -/
theorem memoryRegions_congr {m m' : Mem} {addr : ℕ} (hrecord : Mem.AgreeOn m m' addr SIZE)
    (harray : Mem.AgreeOn m m' (loadMemoryRegionsPtr m addr)
      (loadMemoryRegionsLen m addr * REGION_SIZE)) :
    memoryRegions m addr = memoryRegions m' addr := by
  have hsize : SIZE = 88 := rfl
  have hptr : loadMemoryRegionsPtr m addr = loadMemoryRegionsPtr m' addr :=
    Mem.load_congr (hrecord.mono (by omega) (by omega))
  have hlen : loadMemoryRegionsLen m addr = loadMemoryRegionsLen m' addr :=
    Mem.load_congr (hrecord.mono (by omega) (by omega))
  rw [memoryRegions, memoryRegions, ← hptr, ← hlen, MemoryRegion.readArray_congr harray]

end BootInfo

end RustBL
