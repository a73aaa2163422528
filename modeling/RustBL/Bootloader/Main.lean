import RustBL.Bootloader.Elf.Loader
import RustBL.Bootloader.File
import RustBL.Bootloader.Handoff

/-!
# The bootloader

`Bootloader.main` is the bootloader from its first instruction to the jump into the kernel: it reads
`kernel.elf`, loads it, opens the framebuffer, allocates the region array, the stack and the handoff
record, fills the record, and leaves the firmware. Every step that the firmware refuses ends the
bootloader with a report, and `BootStop` has one case for each of them.

The firmware is a parameter, with a state of its own. The memory changes by the writes of the
bootloader, and in `ExitBootServices`. The grants are recorded as the loader records them.
-/

set_option autoImplicit false
set_option relaxedAutoImplicit false

namespace RustBL

/-- `Status::UNSUPPORTED`. -/
def Status.UNSUPPORTED : Status := ⟨0x8000000000000003⟩

/-! ### The firmware -/

/-- The pixel format of a graphics mode. -/
inductive PixelFormat
  | rgb
  | bgr
  | bitmask
  | bltOnly
  deriving DecidableEq

/-- The current mode of the Graphics Output Protocol, and its framebuffer. -/
structure GraphicsMode where
  /-- `mode.resolution()`. -/
  resolution : ℕ × ℕ
  /-- `mode.stride()`. -/
  stride : ℕ
  /-- `mode.pixel_format()`. -/
  pixelFormat : PixelFormat
  /-- `framebuffer.as_mut_ptr()`. -/
  address : UInt64
  /-- `framebuffer.size()`. -/
  size : UInt64

/-- The firmware that the bootloader runs on, with states in `σ`. -/
structure BootFirmware (σ : Type) where
  /-- `uefi::helpers::init()`. -/
  helpersInit : Except Status Unit
  /-- The file that the kernel is read from. -/
  files : FileFirmware
  /-- The state after a buffer of this length was allocated for a file. -/
  bufferAllocated : σ → ℕ → σ
  /-- The state after the buffer was freed. -/
  bufferFreed : σ → ℕ → σ
  /-- `boot::allocate_pages(AllocateType::Address(addr), MemoryType::LOADER_DATA, pages)`. -/
  allocator : Elf.PageAllocator σ
  /-- `boot::allocate_pages(AllocateType::AnyPages, MemoryType::LOADER_DATA, pages)`. -/
  allocateAny : σ → ℕ → Except Status ℕ × σ
  /-- `boot::get_handle_for_protocol::<GraphicsOutput>()`. -/
  graphicsHandle : Except Status Unit
  /-- `boot::open_protocol_exclusive::<GraphicsOutput>(handle)`. -/
  openGraphics : Except Status GraphicsMode
  /-- `boot::exit_boot_services(Some(MemoryType::LOADER_DATA))`: the final memory map, and the
  memory afterwards. -/
  exitBootServices : σ → Mem → List MemoryDescriptor × Mem

namespace Bootloader

/-! ### The services -/

/-- Why a function that calls the firmware does not return. -/
inductive CallStop
  /-- `Err(status)`. -/
  | status (status : Status)
  /-- The function itself fails. -/
  | fault (fault : Fault)
  deriving DecidableEq

/-- A function that calls the firmware. -/
abbrev Call (σ α : Type) := EStateM CallStop (Elf.LoaderState σ) α

/-- A checked step. -/
def checked {σ α : Type} (step : Checked α) : Call σ α := fun s ↦
  match step with
  | .ok value => .ok value s
  | .error fault => .error (.fault fault) s

/-- `result.map_err(|e| e.status())?`. -/
def mapErr {σ α : Type} (reply : Except Status α) : Call σ α := fun s ↦
  match reply with
  | .ok value => .ok value s
  | .error status => .error (.status status) s

section Services

variable {σ : Type} (firmware : BootFirmware σ)

/-- `boot::allocate_pages(AllocateType::AnyPages, MemoryType::LOADER_DATA, pages)`: the address of
the first page. -/
def allocateAny (pages : ℕ) : Call σ ℕ := fun s ↦
  match firmware.allocateAny s.firmware pages with
  | (.ok addr, after) => .ok addr ⟨s.mem, after, s.granted ++ [(addr, pages)]⟩
  | (.error status, after) => .error (.status status) ⟨s.mem, after, s.granted⟩

/-- The choice of the pixel format in `open_framebuffer`. -/
def drawableFormat : PixelFormat → Call σ PixelFormatKind
  | .rgb => pure .rgb
  | .bgr => pure .bgr
  | .bitmask => mapErr (.error .UNSUPPORTED)
  | .bltOnly => mapErr (.error .UNSUPPORTED)

/-- `open_framebuffer`. -/
def openFramebuffer : Call σ FrameBufferInfo := do
  mapErr firmware.graphicsHandle
  let mode ← mapErr firmware.openGraphics
  let pixelFormat ← drawableFormat mode.pixelFormat
  return .new mode.address mode.size (.ofNat mode.resolution.1) (.ofNat mode.resolution.2)
    (.ofNat mode.stride) 4 pixelFormat

/-- How many entries to reserve room for. -/
def REGION_CAPACITY : ℕ := 256

/-- `allocate_region_array`: the address of the array, and the number of entries it has room
for. -/
def allocateRegionArray (capacity : ℕ) : Call σ (ℕ × ℕ) := do
  let bytes ← checked (Word.mul capacity REGION_SIZE)
  let pages := bytes / PAGE_SIZE + if bytes % PAGE_SIZE = 0 then 0 else 1
  let ptr ← allocateAny firmware pages
  let room ← checked (Word.mul pages PAGE_SIZE)
  return (ptr, room / REGION_SIZE)

/-- The pages of the stack of the kernel. -/
def KERNEL_STACK_PAGES : ℕ := 16

/-- `allocate_kernel_stack`: the address to load into `rsp`. -/
def allocateKernelStack : Call σ ℕ := do
  let bottom ← allocateAny firmware KERNEL_STACK_PAGES
  let size ← checked (Word.mul KERNEL_STACK_PAGES PAGE_SIZE)
  let top ← checked (Word.add bottom size)
  -- No return address is pushed, so the bias of 8 stands in for it.
  checked (Word.sub (top &&& (2 ^ 64 - 16)) 8)

end Services

/-! ### The program -/

/-- Why the kernel is not entered. -/
inductive BootStop
  /-- `uefi::helpers::init` fails. -/
  | helpers
  /-- `failed to read kernel.elf`. -/
  | readFile (status : Status)
  /-- `failed to load kernel ELF`. -/
  | loadKernel (error : Elf.ElfError)
  /-- `failed to open framebuffer`. -/
  | openFramebuffer (status : Status)
  /-- `failed to allocate memory-region array`. -/
  | allocateRegionArray (status : Status)
  /-- `failed to allocate kernel stack`. -/
  | allocateKernelStack (status : Status)
  /-- `failed to allocate BootInfo`. -/
  | allocateBootInfo (status : Status)
  /-- The memory for the image is refused, which stops the bootloader. -/
  | outOfMemory
  /-- The bootloader itself fails. -/
  | fault (fault : Fault)
  deriving DecidableEq

/-- A step of `main`. -/
abbrev Boot (σ α : Type) := EStateM BootStop (Elf.LoaderState σ) α

/-- Report a status that a function returned. -/
def reportStatus (report : Status → BootStop) : CallStop → BootStop
  | .status status => report status
  | .fault fault => .fault fault

/-- Report an error of the loader. -/
def reportElf : Elf.Stop → BootStop
  | .elf error => .loadKernel error
  | .fault fault => .fault fault

/-- `cstr16!("kernel.elf")`. -/
def KERNEL_NAME : List UInt16 :=
  [0x6b, 0x65, 0x72, 0x6e, 0x65, 0x6c, 0x2e, 0x65, 0x6c, 0x66]

section Program

variable {σ : Type} (fuel : ℕ) (firmware : BootFirmware σ)

/-- `uefi::helpers::init()`. -/
def helpersInit : Boot σ Unit := fun s ↦
  match firmware.helpersInit with
  | .ok () => .ok () s
  | .error _ => .error .helpers s

/-- `read_file(kernel_name)`. No buffer has `2 ^ 63` bytes or more. -/
def readKernel : Boot σ Elf.Image := fun s ↦
  match (readFile fuel firmware.files KERNEL_NAME).run with
  | .error fault => .error (.fault fault) s
  | .ok (.error (.status status)) => .error (.readFile status) s
  | .ok (.error .outOfMemory) => .error .outOfMemory s
  | .ok (.ok bytes) =>
    if h : bytes.length < 2 ^ 63 then
      .ok ⟨bytes, h⟩ ⟨s.mem, firmware.bufferAllocated s.firmware bytes.length, s.granted⟩
    else .error .outOfMemory s

/-- `drop(kernel_image)`. -/
def dropImage (image : Elf.Image) : Boot σ Unit := fun s ↦
  .ok () ⟨s.mem, firmware.bufferFreed s.firmware image.bytes.length, s.granted⟩

/-- `boot_info_ptr.write(info)`. -/
def writeBootInfo (bootInfoPtr : ℕ) (info : BootInfo) : Boot σ Unit := fun s ↦
  .ok () ⟨info.write s.mem bootInfoPtr, s.firmware, s.granted⟩

/-- `exit_and_jump`, after the firmware returned the final memory map. -/
def leaveFirmware (bootInfoPtr regionsPtr regionsCapacity entry stackTop : ℕ) :
    Boot σ KernelEntry := fun s ↦
  let final := firmware.exitBootServices s.firmware s.mem
  match exitAndJump final.2 final.1 bootInfoPtr regionsPtr regionsCapacity entry stackTop with
  | .ok kernel => .ok kernel ⟨kernel.mem, s.firmware, s.granted⟩
  | .error fault => .error (.fault fault) s

/-- `main`: the state the kernel is entered in. -/
def main : Boot σ KernelEntry := do
  helpersInit firmware
  let kernelImage ← readKernel fuel firmware
  let loaded ← EStateM.adaptExcept reportElf (Elf.loadKernel firmware.allocator kernelImage)
  dropImage firmware kernelImage
  let framebuffer ← EStateM.adaptExcept (reportStatus .openFramebuffer) (openFramebuffer firmware)
  let regions ← EStateM.adaptExcept (reportStatus .allocateRegionArray)
    (allocateRegionArray firmware REGION_CAPACITY)
  let stackTop ← EStateM.adaptExcept (reportStatus .allocateKernelStack)
    (allocateKernelStack firmware)
  let bootInfoPtr ← EStateM.adaptExcept (reportStatus .allocateBootInfo) (allocateAny firmware 1)
  -- The number of regions is filled in when the map is final.
  writeBootInfo bootInfoPtr (.new framebuffer (.ofNat regions.1) 0 (.ofNat loaded.base)
    (.ofNat loaded.size))
  leaveFirmware firmware bootInfoPtr regions.1 regions.2 loaded.entry stackTop

end Program

end Bootloader

end RustBL
