import RustBL.Boot.Promises
import RustBL.Library.Contract
import RustBL.Library.Fields

/-!
# What the kernel is entered with

A run of `main` from start to end. `Handed` is what the kernel finds when it is entered: its
segments hold the bytes of the file, the instruction pointer is the entry point, the stack pointer
stands at the top of pages of its own with the alignment of a call, interrupts are off, and the
first argument is the address of a valid record that names the framebuffer, the range of the kernel
and an array with the leading descriptors of the final memory map. All of these lie in pages of the
bootloader, no two of which overlap, and the map describes none of them as free.

Every step of `main` has its contract, and `main_contract` puts them together.
-/

set_option autoImplicit false
set_option relaxedAutoImplicit false

namespace RustBL

/-- The format of the pixels of a mode, when they can be drawn to directly. -/
def PixelFormat.kind : PixelFormat → Option PixelFormatKind
  | .rgb => some .rgb
  | .bgr => some .bgr
  | .bitmask => none
  | .bltOnly => none

/-- The framebuffer of a mode, as the kernel is told about it. -/
def GraphicsMode.framebuffer (mode : GraphicsMode) (format : PixelFormatKind) : FrameBufferInfo :=
  .new mode.address mode.size (.ofNat mode.resolution.1) (.ofNat mode.resolution.2)
    (.ofNat mode.stride) 4 format

namespace Bootloader

open Elf

/-! ### Reports -/

/-- A function stops with a status only. -/
def ByStatus (stop : CallStop) : Prop :=
  ∃ status, stop = .status status

/-- `main` stops with a report, or because memory is refused. -/
def Reported (stop : BootStop) : Prop :=
  ∀ fault, stop ≠ .fault fault

theorem reported_status {report : Status → BootStop} (hreport : ∀ status, Reported (report status))
    (stop : CallStop) (h : ByStatus stop) : Reported (reportStatus report stop) := by
  obtain ⟨status, rfl⟩ := h
  exact hreport status

theorem reported_elf (stop : Stop) (h : ∀ fault, stop ≠ .fault fault) :
    Reported (reportElf stop) := by
  cases stop with
  | elf error => exact fun fault hfault ↦ nomatch hfault
  | fault fault => exact absurd rfl (h fault)

/-! ### The pages along a run -/

/-- The kernel is in memory: the pages of its segments, which were granted for it, hold the bytes of
the file and zeros, and lie in the range that is reported, with the entry point. -/
structure InMemory (image : Image) (loaded : LoadedKernel) (grants : List (ℕ × ℕ)) (m : Mem) :
    Prop where
  bytes : ∀ segment ∈ image.segments, ∀ addr ∈ segment.pages.bytes,
    m addr = segment.byteAt image addr
  granted : ∀ addr, addr ∈ grantedBytes grants ↔ ∃ segment ∈ image.segments,
    addr ∈ segment.pages.bytes
  inside : grantedBytes grants ⊆ Span.bytes ⟨loaded.base, loaded.size⟩
  entry : loaded.entry = image.entry
  entry_inside : loaded.entry ∈ Span.bytes ⟨loaded.base, loaded.size⟩

/-- The kernel was loaded, and `later` was granted since. -/
structure Prepared {σ : Type} (held : σ → Set ℕ) (image : Image) (loaded : LoadedKernel)
    (later : List (ℕ × ℕ)) (s : LoaderState σ) : Prop where
  owned : Owned held s
  kernel : ∃ grants, s.granted = grants ++ later ∧ InMemory image loaded grants s.mem

section Steps

variable {σ : Type} {firmware : BootFirmware σ} {held : σ → Set ℕ} {image : Image}
  {loaded : LoadedKernel} {later : List (ℕ × ℕ)} {fuel : ℕ}

/-- A checked step that succeeds. -/
theorem checked_contract {α : Type} {pre : LoaderState σ → Prop} {step : Checked α} {value : α}
    {stopped : CallStop → Prop} (h : step = .ok value) :
    Contract pre (checked step : Call σ α) (fun result s ↦ result = value ∧ pre s) stopped := by
  subst h
  constructor
  · intro s hs result s' hran
    injection hran with hresult hstate
    rw [← hresult, ← hstate]
    exact ⟨rfl, hs⟩
  · intro s _ reason s' hran
    exact nomatch hran

theorem mapErr_contract {α : Type} {pre : LoaderState σ → Prop} (reply : Except Status α) :
    Contract pre (mapErr reply : Call σ α) (fun result s ↦ reply = .ok result ∧ pre s)
      ByStatus := by
  cases reply with
  | ok value =>
    constructor
    · intro s hs result s' hran
      injection hran with hresult hstate
      rw [← hresult, ← hstate]
      exact ⟨rfl, hs⟩
    · intro s _ reason s' hran
      exact nomatch hran
  | error status =>
    constructor
    · intro s _ result s' hran
      exact nomatch hran
    · intro s _ reason s' hran
      injection hran with hreason
      exact ⟨status, hreason.symm⟩

/-- Pages wherever the firmware likes: whole pages of their own, off page 0. -/
theorem allocateAny_contract (hhonest : Honest firmware held) {pages : ℕ} (hpages : 0 < pages) :
    Contract (Prepared held image loaded later) (allocateAny firmware pages)
      (fun addr s ↦ addr ≠ 0 ∧ Prepared held image loaded (later ++ [(addr, pages)]) s)
      ByStatus := by
  constructor
  · intro s hs addr s' hran
    rw [allocateAny] at hran
    obtain ⟨reply, after, hreply⟩ : ∃ reply after,
      firmware.allocateAny s.firmware pages = (reply, after) := ⟨_, _, rfl⟩
    rw [hreply] at hran
    cases reply with
    | error status => exact nomatch hran
    | ok first =>
      injection hran with haddr hstate
      obtain rfl := haddr
      have hok : (firmware.allocateAny s.firmware pages).1 = .ok first := by rw [hreply]
      obtain ⟨haligned, hne⟩ := hhonest.any_aligned _ _ _ hpages hok
      have hheld := hhonest.any_held _ _ _ hpages hok
      rw [hreply] at hheld
      obtain ⟨grants, hgranted, hkernel⟩ := hs.kernel
      rw [← hstate]
      refine ⟨hne, hs.owned.grant haligned hpages (hhonest.any_free _ _ _ hpages hok) hheld,
        grants, ?_, hkernel⟩
      rw [hgranted, List.append_assoc]
  · intro s _ reason s' hran
    rw [allocateAny] at hran
    obtain ⟨reply, after, hreply⟩ : ∃ reply after,
      firmware.allocateAny s.firmware pages = (reply, after) := ⟨_, _, rfl⟩
    rw [hreply] at hran
    cases reply with
    | ok first => exact nomatch hran
    | error status =>
      injection hran with hreason
      exact ⟨status, hreason.symm⟩

theorem drawableFormat_contract {pre : LoaderState σ → Prop} (format : PixelFormat) :
    Contract pre (drawableFormat format : Call σ PixelFormatKind)
      (fun kind s ↦ format.kind = some kind ∧ pre s) ByStatus := by
  cases format with
  | rgb => exact Contract.done fun s h ↦ ⟨rfl, h⟩
  | bgr => exact Contract.done fun s h ↦ ⟨rfl, h⟩
  | bitmask =>
    exact (mapErr_contract (.error .UNSUPPORTED)).weaken (fun s h ↦ h) fun _ _ h ↦ nomatch h.1
  | bltOnly =>
    exact (mapErr_contract (.error .UNSUPPORTED)).weaken (fun s h ↦ h) fun _ _ h ↦ nomatch h.1

/-- The framebuffer is that of the current mode, in a format that can be drawn to. -/
theorem openFramebuffer_contract {pre : LoaderState σ → Prop} :
    Contract pre (openFramebuffer firmware) (fun framebuffer s ↦
      (∃ mode format, firmware.openGraphics = .ok mode ∧ mode.pixelFormat.kind = some format ∧
        framebuffer = mode.framebuffer format) ∧ pre s) ByStatus := by
  refine (mapErr_contract firmware.graphicsHandle).bind fun _ ↦
    ((mapErr_contract firmware.openGraphics).weaken (fun s h ↦ h.2) fun _ _ h ↦ h).bind
      fun mode ↦ (drawableFormat_contract mode.pixelFormat).bind fun format ↦ ?_
  exact Contract.done fun s h ↦ ⟨⟨mode, format, h.2.1, h.1, rfl⟩, h.2.2⟩

/-- The region array takes two pages, and has room for what fits in them. -/
theorem allocateRegionArray_contract (hhonest : Honest firmware held) :
    Contract (Prepared held image loaded later) (allocateRegionArray firmware REGION_CAPACITY)
      (fun regions s ↦ regions.2 = 341 ∧
        Prepared held image loaded (later ++ [(regions.1, 2)]) s) ByStatus := by
  have hbytes : Word.mul REGION_CAPACITY REGION_SIZE = .ok 6144 := rfl
  have hroom : Word.mul 2 PAGE_SIZE = .ok 8192 := rfl
  refine (checked_contract hbytes).bind fun bytes ↦ Contract.assume (fun s h ↦ h.1) ?_
  rintro rfl
  refine ((allocateAny_contract hhonest (by decide)).weaken (fun s h ↦ h.2) fun _ _ h ↦ h).bind
    fun ptr ↦ (checked_contract hroom).bind fun room ↦ Contract.assume (fun s h ↦ h.1) ?_
  rintro rfl
  exact Contract.done fun s h ↦ ⟨rfl, h.2.2⟩

/-- The stack pointer stands 8 bytes below the end of its pages. -/
theorem allocateKernelStack_contract (hhonest : Honest firmware held) :
    Contract (Prepared held image loaded later) (allocateKernelStack firmware)
      (fun stackTop s ↦ ∃ bottom, stackTop + 8 = bottom + KERNEL_STACK_PAGES * PAGE_SIZE ∧
        stackTop % 16 = 8 ∧
        Prepared held image loaded (later ++ [(bottom, KERNEL_STACK_PAGES)]) s)
      ByStatus := by
  have hsize : Word.mul KERNEL_STACK_PAGES PAGE_SIZE = .ok 65536 := rfl
  refine (allocateAny_contract hhonest (by decide)).bind fun bottom ↦
    (checked_contract hsize).bind fun size ↦ Contract.assume (fun s h ↦ h.1) ?_
  rintro rfl
  have hend : (grantSpan (bottom, KERNEL_STACK_PAGES)).stop = bottom + 65536 := by
    simp only [grantSpan, Span.stop_mk, KERNEL_STACK_PAGES, PAGE_SIZE]
  refine Contract.assume (P := (grantSpan (bottom, KERNEL_STACK_PAGES)).stop ≤ 2 ^ 52 ∧
    PAGE_SIZE ∣ bottom) (fun s h ↦ ?_) ?_
  · obtain ⟨grants, hgranted, _⟩ := h.2.2.kernel
    have hmem : (bottom, KERNEL_STACK_PAGES) ∈ s.granted := by
      rw [hgranted]
      exact List.mem_append_right _ (List.mem_append_right _ (List.mem_singleton_self _))
    exact ⟨h.2.2.owned.below _ hmem, h.2.2.owned.aligned _ hmem⟩
  rintro ⟨hbelow, first, hfirst⟩
  rw [hend] at hbelow
  simp only [PAGE_SIZE] at hfirst
  -- The end of the pages is aligned already, so the mask leaves it.
  have hmask : (bottom + 65536) &&& (2 ^ 64 - 16) = bottom + 65536 := by
    have hround : (bottom + 65536) &&& (2 ^ 64 - 2 ^ 4) = (bottom + 65536) / 2 ^ 4 * 2 ^ 4 :=
      and_high_mask (by decide) (by omega)
    have hexact : (bottom + 65536) / 2 ^ 4 * 2 ^ 4 = bottom + 65536 := by omega
    exact hround.trans hexact
  have htop : Word.add bottom 65536 = .ok (bottom + 65536) := Word.add_eq (by omega)
  refine (checked_contract htop).bind fun top ↦ Contract.assume (fun s h ↦ h.1) ?_
  rintro rfl
  have hsub : Word.sub ((bottom + 65536) &&& (2 ^ 64 - 16)) 8 = .ok (bottom + 65528) := by
    rw [hmask, Word.sub_eq (by omega)]
    rfl
  refine (checked_contract hsub).weaken (fun s h ↦ h) ?_
  rintro stackTop s ⟨rfl, _, _, _, hs⟩
  exact ⟨bottom, by simp only [KERNEL_STACK_PAGES, PAGE_SIZE], by omega, hs⟩

theorem helpersInit_contract {pre : LoaderState σ → Prop} :
    Contract pre (helpersInit firmware) (fun _ s ↦ pre s) Reported := by
  constructor
  · intro s hs value s' hran
    unfold helpersInit at hran
    cases hinit : firmware.helpersInit with
    | error status =>
      rw [hinit] at hran
      exact nomatch hran
    | ok _ =>
      rw [hinit] at hran
      injection hran with _ hstate
      rw [← hstate]
      exact hs
  · intro s _ reason s' hran
    unfold helpersInit at hran
    cases hinit : firmware.helpersInit with
    | error status =>
      rw [hinit] at hran
      injection hran with hreason
      rw [← hreason]
      exact fun fault hfault ↦ nomatch hfault
    | ok _ =>
      rw [hinit] at hran
      exact nomatch hran

/-- The image is the file: its first bytes, as many as the reported size. -/
structure ReadFrom (files : FileFirmware) (image : Image) (file : RegularFile) (size : UInt64) :
    Prop where
  opens : files.Opens KERNEL_NAME file
  info : file.info = .ok size
  bytes : image.bytes = file.content.take size.toNat
  length : image.bytes.length = size.toNat

/-- There are turns enough to read the file. -/
def Suffices (fuel : ℕ) (files : FileFirmware) : Prop :=
  ∀ file size, files.Opens KERNEL_NAME file → file.info = .ok size → size.toNat < fuel

theorem readKernel_contract (hhonest : Honest firmware held)
    (hfuel : Suffices fuel firmware.files) :
    Contract (fun s : LoaderState σ ↦ Owned held s ∧ s.granted = [])
      (readKernel fuel firmware)
      (fun image s ↦ (∃ file size, ReadFrom firmware.files image file size) ∧
        Owned held s ∧ s.granted = []) Reported := by
  obtain ⟨outcome, hreturns⟩ := readFile_returns hfuel
  constructor
  · rintro s ⟨howned, hgranted⟩ image s' hran
    rw [readKernel, hreturns] at hran
    match outcome, hreturns, hran with
    | .error (.status status), _, hran => exact nomatch hran
    | .error .outOfMemory, _, hran => exact nomatch hran
    | .ok bytes, hreturns, hran =>
      simp only at hran
      split_ifs at hran with hlength
      injection hran with himage hstate
      obtain ⟨file, size, hopens, hinfo⟩ := opens_of_readFile hreturns
      obtain ⟨hbytes, hsize⟩ :=
        readFile_content hopens hinfo (hfuel file size hopens hinfo) hreturns
      rw [← himage, ← hstate]
      exact ⟨⟨file, size, hopens, hinfo, hbytes, hsize⟩,
        howned.keep (hhonest.buffer_allocated _ _), hgranted⟩
  · rintro s _ reason s' hran
    rw [readKernel, hreturns] at hran
    match outcome, hran with
    | .error (.status status), hran =>
      injection hran with hreason
      exact fun fault hfault ↦ nomatch hreason.trans hfault
    | .error .outOfMemory, hran =>
      injection hran with hreason
      exact fun fault hfault ↦ nomatch hreason.trans hfault
    | .ok bytes, hran =>
      simp only at hran
      split_ifs at hran with hlength
      injection hran with hreason
      exact fun fault hfault ↦ nomatch hreason.trans hfault

/-- The loader, from a state without grants. -/
theorem loadKernel_contract (hhonest : Honest firmware held) :
    Contract (fun s : LoaderState σ ↦ Owned held s ∧ s.granted = [])
      (loadKernel firmware.allocator image)
      (fun loaded s ↦ Prepared held image loaded [] s)
      (fun stop ↦ ∀ fault, stop ≠ .fault fault) := by
  constructor
  · rintro s ⟨howned, hgranted⟩ loaded s' hran
    have howned' := owned_loadKernel hhonest howned hran
    obtain ⟨hpassed, rfl, rfl⟩ := loadKernel_ok firmware.allocator image hran
    obtain ⟨hsegments, hsane, hapart⟩ := segments_of_ok hhonest.sound hpassed
    have hchecks := firstFailure_eq_none.mp hpassed
    rw [kernelChecks, List.forall_mem_append, List.forall_mem_append, Image.finalChecks,
      List.forall_mem_cons, List.forall_mem_cons] at hchecks
    have hentry := (image.entry_in_extent hsegments).mpr hchecks.2.2.2.1
    rw [not_or, not_lt, not_le] at hentry
    refine ⟨howned', image.segments.flatMap LoadSegment.grant, ?_, ?_, ?_, ?_, rfl, ?_⟩
    · rw [foldl_loaded_granted, hgranted, List.nil_append, List.append_nil]
    · intro segment hmem addr haddr
      rw [foldl_loaded_mem]
      exact foldl_fillPages_mem hsane hapart hmem haddr
    · exact fun addr ↦ mem_grantedBytes_flatMap
    · intro addr haddr
      obtain ⟨segment, hmem, hin⟩ := mem_grantedBytes_flatMap.mp haddr
      exact Image.pages_in_extent hmem hin
    · have hround := le_roundUp image.extent.highest PAGE_SIZE
      rw [Span.mem_bytes, Span.stop_mk]
      dsimp only
      omega
  · rintro s _ reason s' hran fault rfl
    exact loadKernel_never_faults image hhonest.grantsBelow s s' fault hran

theorem dropImage_contract (hhonest : Honest firmware held) (image' : Image) :
    Contract (Prepared held image loaded later) (dropImage firmware image')
      (fun _ s ↦ Prepared held image loaded later s) Reported := by
  constructor
  · intro s hs value s' hran
    injection hran with _ hstate
    rw [← hstate]
    exact ⟨hs.owned.keep (hhonest.buffer_freed _ _), hs.kernel⟩
  · intro s _ reason s' hran
    exact nomatch hran

end Steps

/-! ### The state the kernel is entered in -/

/-- The number of regions that the array has room for. -/
def regionsRoom : ℕ :=
  2 * PAGE_SIZE / REGION_SIZE

/-- The addresses of the pages of some grants. -/
def grantPages (grants : List (ℕ × ℕ)) : List ℕ :=
  grants.flatMap fun grant ↦ framesFrom grant.1 grant.2

/-- The grants of a run: those of the kernel, the array, the stack and the record. -/
def allGrants (grants : List (ℕ × ℕ)) (regionsPtr bottom bootInfoPtr : ℕ) : List (ℕ × ℕ) :=
  grants ++ [(regionsPtr, 2), (bottom, KERNEL_STACK_PAGES), (bootInfoPtr, 1)]

/-- What the kernel finds when it is entered. -/
structure Handed (image : Image) (loaded : LoadedKernel) (grants : List (ℕ × ℕ))
    (framebuffer : FrameBufferInfo) (regionsPtr bottom : ℕ) (memoryMap : List MemoryDescriptor)
    (kernel : KernelEntry) : Prop where
  in_memory : InMemory image loaded grants kernel.mem
  rip : kernel.rip = loaded.entry
  rsp : kernel.rsp + 8 = bottom + KERNEL_STACK_PAGES * PAGE_SIZE
  rsp_mod : kernel.rsp % 16 = 8
  rbp : kernel.rbp = 0
  interrupts : kernel.interrupts = false
  rdi_ne : kernel.rdi ≠ 0
  info : BootInfo.read kernel.mem kernel.rdi = .new framebuffer (.ofNat regionsPtr)
    (.ofNat (min memoryMap.length regionsRoom)) (.ofNat loaded.base) (.ofNat loaded.size)
  regions : BootInfo.memoryRegions kernel.mem kernel.rdi =
    (memoryMap.map MemoryDescriptor.region).take regionsRoom
  apart : (allGrants grants regionsPtr bottom kernel.rdi).Pairwise fun grant other ↦
    Disjoint (grantSpan grant).bytes (grantSpan other).bytes
  final : FinalMap (grantPages (allGrants grants regionsPtr bottom kernel.rdi)) memoryMap

section Leave

variable {σ : Type} {firmware : BootFirmware σ} {held : σ → Set ℕ} {s : LoaderState σ}

/-- The final map describes the pages of the bootloader, and none of them as free. -/
theorem finalMap_of_owned (hhonest : Honest firmware held) (howned : Owned held s) (m : Mem) :
    FinalMap (grantPages s.granted) (firmware.exitBootServices s.firmware m).1 where
  apart := hhonest.map_apart s.firmware m
  below := hhonest.map_below s.firmware m
  covered := by
    intro page hpage addr haddr
    obtain ⟨grant, hgrant, hin⟩ := List.mem_flatMap.mp hpage
    obtain ⟨i, hi, rfl⟩ := mem_framesFrom.mp hin
    obtain ⟨first, hfirst⟩ := howned.aligned grant hgrant
    have hnumber : grant.1 + i * PAGE_SIZE = (first + i) * PAGE_SIZE := by
      rw [hfirst, Nat.add_mul, Nat.mul_comm]
    have hheld : first + i ∈ held s.firmware := by
      refine howned.held grant hgrant ?_
      rw [mem_pagesOf, grantSpan, Span.stop_mk, ← hnumber]
      exact ⟨Nat.le_add_right _ _,
        Nat.add_lt_add_left (Nat.mul_lt_mul_of_pos_right hi (by decide)) _⟩
    rw [hnumber] at haddr
    obtain ⟨descriptor, hdescriptor, hty, hmem⟩ :=
      hhonest.map_held s.firmware m _ hheld addr haddr
    exact ⟨descriptor, hdescriptor, by rw [hty]; decide, hmem⟩

/-- `ExitBootServices` leaves the pages of the bootloader alone. -/
theorem exit_keeps_granted (hhonest : Honest firmware held) (howned : Owned held s) (m : Mem)
    {grant : ℕ × ℕ} (hgrant : grant ∈ s.granted) {addr : ℕ}
    (haddr : addr ∈ (grantSpan grant).bytes) :
    (firmware.exitBootServices s.firmware m).2 addr = m addr :=
  hhonest.exit_keeps _ _ _
    (howned.held grant hgrant (page_mem_pagesOf (howned.aligned grant hgrant) haddr))

end Leave

section Layout

variable {grants : List (ℕ × ℕ)} {regionsPtr bottom bootInfoPtr : ℕ}

/-- The array lies in its pages. -/
theorem array_subset : Set.Ico regionsPtr (regionsPtr + regionsRoom * REGION_SIZE) ⊆
    (grantSpan (regionsPtr, 2)).bytes := by
  have hroom : regionsRoom * REGION_SIZE ≤ 2 * PAGE_SIZE := by decide
  exact Set.Ico_subset_Ico_right (Nat.add_le_add_left hroom _)

/-- The record lies in its page. -/
theorem record_subset : Set.Ico bootInfoPtr (bootInfoPtr + BootInfo.SIZE) ⊆
    (grantSpan (bootInfoPtr, 1)).bytes := by
  have hsize : BootInfo.SIZE ≤ 1 * PAGE_SIZE := by decide
  exact Set.Ico_subset_Ico_right (Nat.add_le_add_left hsize _)

/-- In pages that do not overlap, the array, the record and the pages of the kernel are apart. -/
theorem layout_of_apart (hapart : (allGrants grants regionsPtr bottom bootInfoPtr).Pairwise
      fun grant other ↦ Disjoint (grantSpan grant).bytes (grantSpan other).bytes) :
    (regionsPtr + regionsRoom * REGION_SIZE ≤ bootInfoPtr ∨
      bootInfoPtr + BootInfo.SIZE ≤ regionsPtr) ∧
    ∀ grant ∈ grants, ∀ addr ∈ (grantSpan grant).bytes,
      addr ∉ (grantSpan (regionsPtr, 2)).bytes ∧ addr ∉ (grantSpan (bootInfoPtr, 1)).bytes := by
  obtain ⟨_, hlast, hkernel⟩ := List.pairwise_append.mp hapart
  constructor
  · have hdisjoint : Disjoint (grantSpan (regionsPtr, 2)).bytes
        (grantSpan (bootInfoPtr, 1)).bytes :=
      (List.pairwise_cons.mp hlast).1 _ (by simp)
    have hspans := Span.apart_of_disjoint (show 0 < 2 * PAGE_SIZE by decide)
      (show 0 < 1 * PAGE_SIZE by decide) hdisjoint
    have hroom : regionsRoom * REGION_SIZE ≤ 2 * PAGE_SIZE := by decide
    have hsize : BootInfo.SIZE ≤ 1 * PAGE_SIZE := by decide
    simp only [Span.Apart, grantSpan, Span.stop_mk] at hspans
    omega
  · intro grant hgrant addr haddr
    exact ⟨Set.disjoint_left.mp (hkernel grant hgrant _ (by simp)) haddr,
      Set.disjoint_left.mp (hkernel grant hgrant _ (by simp)) haddr⟩

/-- The kernel stays in memory while its pages keep their bytes. -/
theorem InMemory.congr {image : Image} {loaded : LoadedKernel} {m m' : Mem}
    (h : InMemory image loaded grants m)
    (hsame : ∀ grant ∈ grants, ∀ addr ∈ (grantSpan grant).bytes, m' addr = m addr) :
    InMemory image loaded grants m' := by
  refine ⟨fun segment hmem addr haddr ↦ ?_, h.granted, h.inside, h.entry, h.entry_inside⟩
  obtain ⟨grant, hgrant, hin⟩ := (h.granted addr).mpr ⟨segment, hmem, haddr⟩
  rw [hsame grant hgrant addr hin]
  exact h.bytes segment hmem addr haddr

end Layout

section Leave

variable {σ : Type} {firmware : BootFirmware σ} {held : σ → Set ℕ} {s : LoaderState σ}
  {image : Image} {loaded : LoadedKernel} {grants : List (ℕ × ℕ)} {framebuffer : FrameBufferInfo}
  {regionsPtr bottom stackTop bootInfoPtr : ℕ}

/-- Leaving the firmware once everything is allocated. -/
theorem leaveFirmware_handed (hhonest : Honest firmware held) (howned : Owned held s)
    (hgranted : s.granted = allGrants grants regionsPtr bottom bootInfoPtr)
    (hkernel : InMemory image loaded grants s.mem)
    (hrsp : stackTop + 8 = bottom + KERNEL_STACK_PAGES * PAGE_SIZE) (hmod : stackTop % 16 = 8)
    (hne : bootInfoPtr ≠ 0) {m : Mem}
    (hm : m = BootInfo.write s.mem bootInfoPtr (.new framebuffer (.ofNat regionsPtr) 0
      (.ofNat loaded.base) (.ofNat loaded.size))) :
    ∃ kernel, leaveFirmware firmware bootInfoPtr regionsPtr regionsRoom loaded.entry stackTop
        ⟨m, s.firmware, s.granted⟩ = .ok kernel ⟨kernel.mem, s.firmware, s.granted⟩ ∧
      kernel.rdi = bootInfoPtr ∧ Handed image loaded grants framebuffer regionsPtr bottom
        (firmware.exitBootServices s.firmware m).1 kernel := by
  have hcapacity : regionsRoom < 2 ^ 64 := by decide
  have hgrants : (allGrants grants regionsPtr bottom bootInfoPtr).Pairwise
      fun grant other ↦ Disjoint (grantSpan grant).bytes (grantSpan other).bytes :=
    hgranted ▸ howned.apart
  obtain ⟨hapart, hout⟩ := layout_of_apart hgrants
  have harray : (regionsPtr, 2) ∈ s.granted := by simp [hgranted, allGrants]
  have hrecord : (bootInfoPtr, 1) ∈ s.granted := by simp [hgranted, allGrants]
  have hfinal := finalMap_of_owned hhonest howned m
  have hkept : ∀ grant ∈ s.granted, ∀ addr ∈ (grantSpan grant).bytes,
      (firmware.exitBootServices s.firmware m).2 addr = m addr :=
    fun grant hgrant addr haddr ↦ exit_keeps_granted hhonest howned m hgrant haddr
  obtain ⟨memoryMap, m', hexit⟩ : ∃ memoryMap m', firmware.exitBootServices s.firmware m =
    (memoryMap, m') := ⟨_, _, rfl⟩
  rw [hexit] at hfinal hkept ⊢
  have hread : Mem.AgreeOn m m' bootInfoPtr BootInfo.SIZE := fun addr hlow hhigh ↦
    (hkept _ hrecord addr (record_subset ⟨hlow, hhigh⟩)).symm
  have hptr : BootInfo.loadMemoryRegionsPtr m' bootInfoPtr = regionsPtr := by
    have hsize : BootInfo.SIZE = 88 := rfl
    have hbelow : regionsPtr + 2 * PAGE_SIZE ≤ 2 ^ 52 := howned.below _ harray
    have hload := Mem.load_congr (hread.mono (Nat.le_add_right _ 56) (by omega) : Mem.AgreeOn m m'
      (bootInfoPtr + 56) 8)
    have hwritten := BootInfo.loadMemoryRegionsPtr_write s.mem bootInfoPtr
      (.new framebuffer (.ofNat regionsPtr) 0 (.ofNat loaded.base) (.ofNat loaded.size))
    rw [← hm] at hwritten
    exact hload.symm.trans (hwritten.trans
      (UInt64.toNat_ofNat_of_lt' (by show regionsPtr < 2 ^ 64; omega)))
  obtain ⟨m'', hjump, _, _, hregions⟩ := exitAndJump_spec m' memoryMap hcapacity hapart hptr
  obtain ⟨hsame, hrecordAfter⟩ := exitAndJump_keeps hcapacity hapart hjump
  refine ⟨⟨m'', loaded.entry, stackTop, 0, bootInfoPtr, false⟩, ?_, rfl, ?_⟩
  · rw [leaveFirmware, hexit]
    simp only
    rw [hjump]
  · refine ⟨hkernel.congr fun grant hgrant addr haddr ↦ ?_, rfl, hrsp, hmod, rfl, rfl, hne, ?_,
      hregions, hgrants, hgranted ▸ hfinal⟩
    · -- No write since the kernel was loaded was in its pages.
      obtain ⟨hnotArray, hnotRecord⟩ := hout grant hgrant addr haddr
      have hmem : grant ∈ s.granted := hgranted ▸ List.mem_append_left _ hgrant
      have hjumped : m'' addr = m' addr := hsame addr fun hin ↦
        hin.elim (fun hin ↦ hnotArray (array_subset hin)) fun hin ↦ hnotRecord (record_subset hin)
      have hwritten : m addr = s.mem addr :=
        hm ▸ BootInfo.sameOff_write _ _ _ addr fun hin ↦ hnotRecord (record_subset hin)
      exact hjumped.trans ((hkept grant hmem addr haddr).trans hwritten)
    · show BootInfo.read m'' bootInfoPtr = _
      rw [hrecordAfter, ← BootInfo.read_congr hread, hm, BootInfo.read_write]
      rfl

/-- The last two steps of `main`. -/
theorem leave_contract (hhonest : Honest firmware held)
    (hrsp : stackTop + 8 = bottom + KERNEL_STACK_PAGES * PAGE_SIZE) (hmod : stackTop % 16 = 8)
    (hne : bootInfoPtr ≠ 0) :
    Contract (Prepared held image loaded
        [(regionsPtr, 2), (bottom, KERNEL_STACK_PAGES), (bootInfoPtr, 1)])
      (do
        writeBootInfo bootInfoPtr (.new framebuffer (.ofNat regionsPtr) 0 (.ofNat loaded.base)
          (.ofNat loaded.size))
        leaveFirmware firmware bootInfoPtr regionsPtr regionsRoom loaded.entry stackTop)
      (fun kernel s ↦ ∃ grants m, s.granted = allGrants grants regionsPtr bottom kernel.rdi ∧
        Handed image loaded grants framebuffer regionsPtr bottom
          (firmware.exitBootServices s.firmware m).1 kernel) Reported := by
  have hruns : ∀ s : LoaderState σ, Prepared held image loaded
      [(regionsPtr, 2), (bottom, KERNEL_STACK_PAGES), (bootInfoPtr, 1)] s →
      ∃ kernel grants m, s.granted = allGrants grants regionsPtr bottom kernel.rdi ∧
        Handed image loaded grants framebuffer regionsPtr bottom
          (firmware.exitBootServices s.firmware m).1 kernel ∧
        leaveFirmware firmware bootInfoPtr regionsPtr regionsRoom loaded.entry stackTop
          ⟨BootInfo.write s.mem bootInfoPtr (.new framebuffer (.ofNat regionsPtr) 0
            (.ofNat loaded.base) (.ofNat loaded.size)), s.firmware, s.granted⟩ =
          .ok kernel ⟨kernel.mem, s.firmware, s.granted⟩ := by
    rintro s ⟨howned, grants, hgranted, hkernel⟩
    obtain ⟨kernel, hran, hrdi, hhanded⟩ :=
      leaveFirmware_handed hhonest howned hgranted hkernel hrsp hmod hne rfl
    exact ⟨kernel, grants, _, hrdi ▸ hgranted, hhanded, hran⟩
  constructor
  · intro s hs kernel s' hran
    obtain ⟨kernel', grants, m, hgranted, hhanded, hleaves⟩ := hruns s hs
    have hran' := hleaves.symm.trans hran
    injection hran' with hkernel hstate
    rw [← hkernel, ← hstate]
    exact ⟨grants, m, hgranted, hhanded⟩
  · intro s hs reason s' hran
    obtain ⟨kernel', _, _, _, _, hleaves⟩ := hruns s hs
    exact nomatch hleaves.symm.trans hran

end Leave

/-! ### The run -/

/-- The kernel was entered with a file, a mode and the pages of this run. -/
structure Entered {σ : Type} (firmware : BootFirmware σ) (image : Image) (kernel : KernelEntry)
    (s : LoaderState σ) : Prop where
  read : ∃ file size, ReadFrom firmware.files image file size
  handed : ∃ mode format loaded grants regionsPtr bottom m, firmware.openGraphics = .ok mode ∧
    mode.pixelFormat.kind = some format ∧
    s.granted = allGrants grants regionsPtr bottom kernel.rdi ∧
    Handed image loaded grants (mode.framebuffer format) regionsPtr bottom
      (firmware.exitBootServices s.firmware m).1 kernel

section Run

variable {σ : Type} {firmware : BootFirmware σ} {held : σ → Set ℕ} {fuel : ℕ}

/-- `main` reports, or enters the kernel as promised. -/
theorem main_contract (hhonest : Honest firmware held) (hfuel : Suffices fuel firmware.files) :
    Contract (fun s ↦ s.granted = []) (main fuel firmware)
      (fun kernel s ↦ ∃ image, Entered firmware image kernel s) Reported := by
  have howned : ∀ s : LoaderState σ, s.granted = [] → Owned held s ∧ s.granted = [] := by
    intro s hgranted
    refine ⟨⟨?_, ?_, ?_, ?_⟩, hgranted⟩ <;> rw [hgranted]
    · exact fun _ hmem ↦ absurd hmem List.not_mem_nil
    · exact fun _ hmem ↦ absurd hmem List.not_mem_nil
    · exact fun _ hmem ↦ absurd hmem List.not_mem_nil
    · exact List.Pairwise.nil
  refine helpersInit_contract.bind fun _ ↦
    ((readKernel_contract hhonest hfuel).weaken howned fun _ _ h ↦ h).bind fun image ↦
      Contract.assume (fun s h ↦ h.1) fun hread ↦ ?_
  refine (((loadKernel_contract hhonest).weaken (fun s h ↦ h.2) fun _ _ h ↦ h).adapt
    reported_elf).bind fun loaded ↦ (dropImage_contract hhonest image).bind fun _ ↦ ?_
  have hopens : ∀ stop, ByStatus stop → Reported (reportStatus .openFramebuffer stop) :=
    reported_status fun _ _ h ↦ nomatch h
  have harray : ∀ stop, ByStatus stop → Reported (reportStatus .allocateRegionArray stop) :=
    reported_status fun _ _ h ↦ nomatch h
  have hstacks : ∀ stop, ByStatus stop → Reported (reportStatus .allocateKernelStack stop) :=
    reported_status fun _ _ h ↦ nomatch h
  have hrecord : ∀ stop, ByStatus stop → Reported (reportStatus .allocateBootInfo stop) :=
    reported_status fun _ _ h ↦ nomatch h
  refine (openFramebuffer_contract.adapt hopens).bind fun framebuffer ↦
    Contract.assume (fun s h ↦ h.1) ?_
  rintro ⟨mode, format, hmode, hformat, rfl⟩
  refine (((allocateRegionArray_contract hhonest).weaken (fun s h ↦ h.2) fun _ _ h ↦ h).adapt
    harray).bind fun regions ↦ Contract.assume (fun s h ↦ h.1) fun hroom ↦ ?_
  refine (((allocateKernelStack_contract hhonest).weaken (fun s h ↦ h.2) fun _ _ h ↦ h).adapt
    hstacks).bind fun stackTop ↦ Contract.of_exists fun bottom ↦
      Contract.assume (fun s h ↦ h.1) fun hrsp ↦ Contract.assume (fun s h ↦ h.2.1) fun hmod ↦ ?_
  refine (((allocateAny_contract hhonest (by decide)).weaken (fun s h ↦ h.2.2) fun _ _ h ↦ h).adapt
    hrecord).bind fun bootInfoPtr ↦ Contract.assume (fun s h ↦ h.1) fun hne ↦ ?_
  rw [hroom]
  refine (leave_contract hhonest hrsp hmod hne).weaken (fun s h ↦ h.2) ?_
  rintro kernel s ⟨grants, m, hgranted, hhanded⟩
  exact ⟨image, hread, mode, format, loaded, grants, _, bottom, m, hmode, hformat, hgranted,
    hhanded⟩

end Run

end Bootloader

end RustBL
