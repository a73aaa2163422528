import RustBL.BootInfo.MemoryMap
import RustBL.Library.Bytes
import RustBL.Library.Memory

/-!
# The ELF loader

`loadKernel` validates an ELF64 image, copies every `PT_LOAD` segment to the physical address it
asks for, and reports where the kernel landed. The image is a byte string that nobody vouches for.

The loader runs on a memory and on the firmware, whose page allocator is a parameter
(`PageAllocator`). The state also records the pages that were granted. A run that stops keeps the
state it stopped in, and stops either with an `ElfError` or with a fault: an arithmetic overflow, an
index outside the image, or a copy that leaves the image or the pages it was granted.
-/

set_option autoImplicit false
set_option relaxedAutoImplicit false

namespace RustBL

namespace Elf

/-- The four bytes an image begins with. -/
def ELF_MAGIC : List UInt8 := [0x7f, 0x45, 0x4c, 0x46]
/-- The index of the class byte. -/
def EI_CLASS : ℕ := 4
/-- The index of the data encoding byte. -/
def EI_DATA : ℕ := 5
/-- The class of 64-bit images. -/
def ELFCLASS64 : UInt8 := 2
/-- The little-endian data encoding. -/
def ELFDATA2LSB : UInt8 := 1
/-- The type of executable images. -/
def ET_EXEC : ℕ := 2
/-- The machine of x86-64 images. -/
def EM_X86_64 : ℕ := 0x3e
/-- The type of loadable segments. -/
def PT_LOAD : ℕ := 1
/-- The size of the ELF header. -/
def EHDR_SIZE : ℕ := 64
/-- The size of a program header. -/
def PHDR_SIZE : ℕ := 56

/-- Why an image is rejected. -/
inductive ElfError
  | tooSmall
  | badMagic
  | not64Bit
  | notLittleEndian
  | notExecutable
  | wrongArchitecture
  | badProgramHeaders
  /-- A segment claims more bytes in the file than the file contains. -/
  | segmentOutOfBounds
  /-- `p_filesz` exceeds `p_memsz`. -/
  | segmentTooLarge
  /-- There is no `PT_LOAD` segment. -/
  | noLoadableSegments
  /-- The firmware refused the pages a segment asked for. -/
  | allocationFailed
  /-- The entry point does not fall inside any loaded segment. -/
  | entryOutOfRange
  deriving DecidableEq, Repr

/-- Why a run of the loader stops. -/
inductive Stop
  /-- The image is rejected. -/
  | elf (error : ElfError)
  /-- The loader itself fails. -/
  | fault (fault : Fault)
  deriving DecidableEq, Repr

/-- Where a loaded kernel ended up. -/
structure LoadedKernel where
  /-- The entry point. -/
  entry : ℕ
  /-- The lowest address of any loaded segment, rounded down to a page. -/
  base : ℕ
  /-- The span from `base` to the end of the highest segment. -/
  size : ℕ
  deriving DecidableEq, Repr

/-- One `PT_LOAD` program header. -/
structure LoadSegment where
  /-- The offset of the segment in the file. -/
  offset : ℕ
  /-- The address of its first byte in memory. -/
  vaddr : ℕ
  /-- The number of its bytes in the file. -/
  filesz : ℕ
  /-- The number of its bytes in memory. -/
  memsz : ℕ
  deriving DecidableEq, Repr

/-- A byte string a program can hold: shorter than `2 ^ 63`. -/
structure Image where
  /-- The bytes. -/
  bytes : List UInt8
  length_lt : bytes.length < 2 ^ 63

/-- The firmware's `allocate_pages(Address(addr), LOADER_DATA, pages)`: whether the pages are
granted, and the firmware afterwards. -/
structure PageAllocator (σ : Type) where
  /-- Ask for `pages` pages at `addr`. -/
  allocatePages : σ → ℕ → ℕ → Bool × σ

/-- What the loader runs on. -/
structure LoaderState (σ : Type) where
  /-- The memory. -/
  mem : Mem
  /-- The firmware. -/
  firmware : σ
  /-- The grants, as address and number of pages, oldest first. -/
  granted : List (ℕ × ℕ)

/-- A computation of the loader. -/
abbrev Loader (σ α : Type) := EStateM Stop (LoaderState σ) α

/-- A step without effects. -/
def lift {σ α : Type} (step : Except Stop α) : Loader σ α := fun s ↦
  match step with
  | .ok value => .ok value s
  | .error stop => .error stop s

/-- A checked step. -/
def checked {α : Type} : Checked α → Except Stop α
  | .ok value => .ok value
  | .error fault => .error (.fault fault)

/-- `option.ok_or(error)`. -/
def okOr {α : Type} (error : ElfError) : Option α → Except Stop α
  | some value => .ok value
  | none => .error (.elf error)

@[simp] theorem checked_ok {α : Type} (value : α) : checked (.ok value) = .ok value :=
  rfl

@[simp] theorem okOr_some {α : Type} (error : ElfError) (value : α) :
    okOr error (some value) = .ok value :=
  rfl

/-! ### Reading the headers -/

/-- `read_u16`. -/
def readU16 (bytes : List UInt8) (offset : ℕ) : Checked (Option ℕ) :=
  Bytes.readWord 2 bytes offset

/-- `read_u32`. -/
def readU32 (bytes : List UInt8) (offset : ℕ) : Checked (Option ℕ) :=
  Bytes.readWord 4 bytes offset

/-- `read_u64`. -/
def readU64 (bytes : List UInt8) (offset : ℕ) : Checked (Option ℕ) :=
  Bytes.readWord 8 bytes offset

/-- `parse_header`: the entry point, and the offset, the entry size and the number of the program
headers. -/
def parseHeader (image : Image) : Except Stop (ℕ × ℕ × ℕ × ℕ) :=
  if image.bytes.length < EHDR_SIZE then .error (.elf .tooSmall)
  else do
    let magic ← checked (Bytes.range image.bytes 0 4)
    if magic ≠ ELF_MAGIC then .error (.elf .badMagic)
    else do
      let elfClass ← checked (Bytes.index image.bytes EI_CLASS)
      if elfClass ≠ ELFCLASS64 then .error (.elf .not64Bit)
      else do
        let encoding ← checked (Bytes.index image.bytes EI_DATA)
        if encoding ≠ ELFDATA2LSB then .error (.elf .notLittleEndian)
        else do
          let eType ← okOr .tooSmall (← checked (readU16 image.bytes 16))
          if eType ≠ ET_EXEC then .error (.elf .notExecutable)
          else do
            let eMachine ← okOr .tooSmall (← checked (readU16 image.bytes 18))
            if eMachine ≠ EM_X86_64 then .error (.elf .wrongArchitecture)
            else do
              let eEntry ← okOr .tooSmall (← checked (readU64 image.bytes 24))
              let ePhoff ← okOr .tooSmall (← checked (readU64 image.bytes 32))
              let ePhentsize ← okOr .tooSmall (← checked (readU16 image.bytes 54))
              let ePhnum ← okOr .tooSmall (← checked (readU16 image.bytes 56))
              if ePhentsize ≠ PHDR_SIZE then .error (.elf .badProgramHeaders)
              else return (eEntry, ePhoff, ePhentsize, ePhnum)

/-- `align_down`. -/
def alignDown (value : ℕ) : ℕ :=
  value &&& (2 ^ 64 - PAGE_SIZE)

/-- `align_up`. -/
def alignUp (value : ℕ) : Checked ℕ := do
  let last ← Word.add value (PAGE_SIZE - 1)
  return alignDown last

/-- The part of the loop of `load_kernel` that reads and checks one program header: the segment with
its first page and its end in memory, or `none` where the source continues with the next header. -/
def readSegment (image : Image) (phoff phentsize index : ℕ) :
    Except Stop (Option (LoadSegment × ℕ × ℕ)) := do
  let skipped ← okOr .badProgramHeaders (Word.checkedMul index phentsize)
  let base ← okOr .badProgramHeaders (Word.checkedAdd phoff skipped)
  let headerEnd ← okOr .badProgramHeaders (Word.checkedAdd base PHDR_SIZE)
  if image.bytes.length < headerEnd then .error (.elf .badProgramHeaders)
  else do
    let pType ← okOr .badProgramHeaders (← checked (readU32 image.bytes base))
    if pType ≠ PT_LOAD then return none
    else do
      let at8 ← checked (Word.add base 8)
      let offset ← okOr .badProgramHeaders (← checked (readU64 image.bytes at8))
      let at16 ← checked (Word.add base 16)
      let vaddr ← okOr .badProgramHeaders (← checked (readU64 image.bytes at16))
      let at32 ← checked (Word.add base 32)
      let filesz ← okOr .badProgramHeaders (← checked (readU64 image.bytes at32))
      let at40 ← checked (Word.add base 40)
      let memsz ← okOr .badProgramHeaders (← checked (readU64 image.bytes at40))
      if memsz < filesz then .error (.elf .segmentTooLarge)
      else do
        let fileEnd ← okOr .segmentOutOfBounds (Word.checkedAdd offset filesz)
        if image.bytes.length < fileEnd then .error (.elf .segmentOutOfBounds)
        else do
          let segStart := alignDown vaddr
          let segEnd ← okOr .segmentOutOfBounds (Word.checkedAdd vaddr memsz)
          return some (⟨offset, vaddr, filesz, memsz⟩, segStart, segEnd)

/-! ### Loading -/

section Load

variable {σ : Type} (allocator : PageAllocator σ)

/-- `boot::allocate_pages(AllocateType::Address(addr), MemoryType::LOADER_DATA, pages)`. -/
def allocatePages (addr pages : ℕ) : Loader σ Unit := fun s ↦
  match allocator.allocatePages s.firmware addr pages with
  | (true, firmware) => .ok () ⟨s.mem, firmware, s.granted ++ [(addr, pages)]⟩
  | (false, firmware) => .error (.elf .allocationFailed) ⟨s.mem, firmware, s.granted⟩

/-- `ptr::write_bytes(addr, 0, len)`. -/
def writeZeros (addr len : ℕ) : Loader σ Unit := fun s ↦
  .ok () { s with mem := s.mem.fill addr len 0 }

/-- `ptr::copy_nonoverlapping(image + offset, addr, len)`. It faults unless the source lies in the
image and the target in the `room` bytes from `start` on. -/
def copyFromImage (image : Image) (offset addr len start room : ℕ) : Loader σ Unit := fun s ↦
  if offset + len ≤ image.bytes.length ∧ start ≤ addr ∧ addr + len ≤ start + room then
    .ok () { s with mem := s.mem.write addr ((image.bytes.drop offset).take len) }
  else .error (.fault .outOfBounds) s

/-- `load_segment`. -/
def loadSegment (image : Image) (segment : LoadSegment) : Loader σ Unit := do
  let pageStart := alignDown segment.vaddr
  let padding ← lift (checked (Word.sub segment.vaddr pageStart))
  let total ← lift (okOr .segmentOutOfBounds (Word.checkedAdd padding segment.memsz))
  -- An empty segment needs no pages.
  if total = 0 then return ()
  else do
    let pages := (total + (PAGE_SIZE - 1)) / PAGE_SIZE
    allocatePages allocator pageStart pages
    let len ← lift (checked (Word.mul pages PAGE_SIZE))
    writeZeros pageStart len
    copyFromImage image segment.offset segment.vaddr segment.filesz pageStart len

/-- What the loop of `load_kernel` keeps: the lowest and the highest address, and whether a segment
was loaded. -/
structure Extent where
  /-- The lowest first page of a loaded segment. -/
  lowest : ℕ
  /-- The highest end of a loaded segment. -/
  highest : ℕ
  /-- Whether a segment was loaded. -/
  loadedAny : Bool

/-- The extent before the loop. -/
def Extent.start : Extent :=
  ⟨2 ^ 64 - 1, 0, false⟩

/-- The loop of `load_kernel`, with `remaining` headers left from `index` on. -/
def loadSegments (image : Image) (phoff phentsize : ℕ) : ℕ → ℕ → Extent → Loader σ Extent
  | 0, _, extent => return extent
  | remaining + 1, index, extent => do
    match ← lift (readSegment image phoff phentsize index) with
    | none => loadSegments image phoff phentsize remaining (index + 1) extent
    | some (segment, segStart, segEnd) => do
      loadSegment allocator image segment
      loadSegments image phoff phentsize remaining (index + 1)
        ⟨min extent.lowest segStart, max extent.highest segEnd, true⟩

/-- `load_kernel`. -/
def loadKernel (image : Image) : Loader σ LoadedKernel := do
  let (entry, phoff, phentsize, phnum) ← lift (parseHeader image)
  let extent ← loadSegments allocator image phoff phentsize phnum 0 .start
  if extent.loadedAny = false then lift (.error (.elf .noLoadableSegments))
  else if entry < extent.lowest ∨ extent.highest ≤ entry then
    lift (.error (.elf .entryOutOfRange))
  else do
    let highest ← lift (checked (alignUp extent.highest))
    let size ← lift (checked (Word.sub highest extent.lowest))
    return ⟨entry, extent.lowest, size⟩

end Load

end Elf

end RustBL
