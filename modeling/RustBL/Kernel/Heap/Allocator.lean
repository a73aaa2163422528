import RustBL.BootInfo.MemoryMap
import RustBL.Library.Loop
import RustBL.Library.Memory

/-!
# The kernel heap

The heap is an address-ordered list of free blocks. A free block keeps its header, its size and the
address of the next free block, in its own first sixteen bytes, so the list lives in the memory it
manages and only its head is held outside. `Heap.alloc` takes the first block that fits and splits
it; `Heap.dealloc` merges the returned block with both neighbours.

Functions take the memory as an argument and return the memory they leave. Pointers are addresses,
the null pointer is `0`, and all arithmetic is checked. The list walks are loops with a turn budget
(`fuel`); that every walk ends is proved where the invariant of the list is.
-/

set_option autoImplicit false
set_option relaxedAutoImplicit false

namespace RustBL

/-- The size of the heap in frames. -/
def HEAP_FRAMES : ℕ := 256

/-- The granularity of block starts and sizes, and the size of a block header. -/
def GRAIN : ℕ := 16

/-- `isize::MAX`. -/
def isizeMax : ℕ := 2 ^ 63 - 1

/-- `core::alloc::Layout`: the alignment is a power of two that fits a word, and the size rounded up
to it is at most `isize::MAX`. -/
structure Layout where
  /-- The size in bytes. -/
  size : ℕ
  /-- The alignment in bytes. -/
  align : ℕ
  align_pow : ∃ exponent < 64, align = 2 ^ exponent
  size_le : roundUp size align ≤ isizeMax
  deriving DecidableEq

/-- Round a request up onto the grid, and raise its alignment onto it too. -/
def normalise (layout : Layout) : Checked (ℕ × ℕ) := do
  let size ← Word.nextMultipleOf (max layout.size GRAIN) GRAIN
  let align := max layout.align GRAIN
  return (size, align)

/-! ### Block headers -/

/-- A free block's header. Both fields are words; they are laid out in the order in which the source
declares them. -/
structure FreeBlock where
  /-- The size of the block. -/
  size : ℕ
  /-- The address of the next free block, or null. -/
  next : ℕ

namespace FreeBlock

/-- The address of the `size` field of the header at `block`. -/
def sizeAt (block : ℕ) : ℕ := block

/-- The address of the `next` field of the header at `block`. -/
def nextAt (block : ℕ) : ℕ := block + 8

/-- Read the header at `block`. -/
def read (m : Mem) (block : ℕ) : FreeBlock :=
  ⟨m.load (sizeAt block) 8, m.load (nextAt block) 8⟩

/-- `(*block).size = size`. -/
def setSize (m : Mem) (block size : ℕ) : Mem :=
  m.store (sizeAt block) 8 size

/-- `(*block).next = next`. -/
def setNext (m : Mem) (block next : ℕ) : Mem :=
  m.store (nextAt block) 8 next

/-- `block.write(header)`. -/
def write (m : Mem) (block : ℕ) (header : FreeBlock) : Mem :=
  setNext (setSize m block header.size) block header.next

end FreeBlock

/-! ### The heap -/

/-- The heap: the address of the first free block, or null. -/
structure Heap where
  /-- The address of the first free block, or null. -/
  head : ℕ
  deriving DecidableEq, Repr

namespace Heap

/-- The heap before `heap::init`. -/
def HEAP : Heap := ⟨0⟩

/-- `Heap::init`: the whole region becomes one free block. -/
def init (m : Mem) (start size : ℕ) : Heap × Mem :=
  (⟨start⟩, FreeBlock.write m start ⟨size, 0⟩)

/-- Make `target` follow `prev`, where a null `prev` stands for the head of the list. -/
def link (heap : Heap) (m : Mem) (prev target : ℕ) : Heap × Mem :=
  if prev = 0 then (⟨target⟩, m) else (heap, FreeBlock.setNext m prev target)

/-- What follows the carved payload: the tail as a block of its own, or the next free block. -/
def keepTail (m : Mem) (payload size tail next : ℕ) : Checked (ℕ × Mem) :=
  if GRAIN ≤ tail then do
    let tailBlock ← Word.add payload size
    return (tailBlock, FreeBlock.write m tailBlock ⟨tail, next⟩)
  else return (next, m)

/-- One turn of the loop in `Heap::alloc`, at the block `cur` behind `prev`. -/
def allocTurn (heap : Heap) (m : Mem) (size align : ℕ) :
    ℕ × ℕ → Checked (Turn (ℕ × ℕ) (ℕ × Heap × Mem))
  | (prev, cur) =>
    -- Out of memory: the contract is to return null.
    if cur = 0 then return .done (0, heap, m)
    else do
      let block := FreeBlock.read m cur
      let payload ← Word.nextMultipleOf cur align
      let front ← Word.sub payload cur
      let needed ← Word.add front size
      if needed ≤ block.size then
        let rest ← Word.sub block.size front
        let tail ← Word.sub rest size
        let (remainder, m) ← keepTail m payload size tail block.next
        if GRAIN ≤ front then
          -- The front stays a free block of its own, shrunk to fit.
          let m := FreeBlock.setSize m cur front
          let m := FreeBlock.setNext m cur remainder
          return .done (payload, heap, m)
        else
          let (heap, m) := link heap m prev remainder
          return .done (payload, heap, m)
      else return .again (cur, block.next)

/-- `Heap::alloc`. -/
def alloc (fuel : ℕ) (heap : Heap) (m : Mem) (layout : Layout) : Checked (ℕ × Heap × Mem) := do
  let (size, align) ← normalise layout
  loop (allocTurn heap m size align) fuel (0, heap.head)

/-- One turn of the loop in `Heap::dealloc` that looks for the insertion point of `start`. -/
def seekTurn (m : Mem) (start : ℕ) : ℕ × ℕ → Checked (Turn (ℕ × ℕ) (ℕ × ℕ))
  | (prev, cur) =>
    if cur ≠ 0 ∧ cur < start then return .again (cur, (FreeBlock.read m cur).next)
    else return .done (prev, cur)

/-- Merge forward: a block that runs exactly up to `cur` takes it over. -/
def mergeForward (m : Mem) (start size cur : ℕ) : Checked (ℕ × ℕ) :=
  if cur = 0 then return (size, cur)
  else do
    let stop ← Word.add start size
    if stop = cur then
      let block := FreeBlock.read m cur
      let size ← Word.add size block.size
      return (size, block.next)
    else return (size, cur)

/-- Write a header for the block and link it behind `prev`. -/
def insert (heap : Heap) (m : Mem) (prev start size next : ℕ) : Heap × Mem :=
  link heap (FreeBlock.write m start ⟨size, next⟩) prev start

/-- Merge backward: when `prev` runs exactly up to `start` it grows in place, and otherwise the
block is inserted behind it. -/
def mergeBackward (heap : Heap) (m : Mem) (prev start size next : ℕ) : Checked (Heap × Mem) :=
  if prev = 0 then return insert heap m prev start size next
  else do
    let block := FreeBlock.read m prev
    let prevEnd ← Word.add prev block.size
    if prevEnd = start then
      let size ← Word.add block.size size
      let m := FreeBlock.setSize m prev size
      let m := FreeBlock.setNext m prev next
      return (heap, m)
    else return insert heap m prev start size next

/-- `Heap::dealloc`. -/
def dealloc (fuel : ℕ) (heap : Heap) (m : Mem) (ptr : ℕ) (layout : Layout) :
    Checked (Heap × Mem) := do
  let (size, _) ← normalise layout
  let (prev, cur) ← loop (seekTurn m ptr) fuel (0, heap.head)
  let (size, next) ← mergeForward m ptr size cur
  mergeBackward heap m prev ptr size next

/-- One turn of the loop in `Heap::free_bytes`. -/
def freeBytesTurn (m : Mem) : ℕ × ℕ → Checked (Turn (ℕ × ℕ) ℕ)
  | (total, cur) =>
    if cur = 0 then return .done total
    else do
      let block := FreeBlock.read m cur
      let total ← Word.add total block.size
      return .again (total, block.next)

/-- `Heap::free_bytes`. -/
def freeBytes (fuel : ℕ) (heap : Heap) (m : Mem) : Checked ℕ :=
  loop (freeBytesTurn m) fuel (0, heap.head)

/-- One turn of the loop in `Heap::free_blocks`. -/
def freeBlocksTurn (m : Mem) : ℕ × ℕ → Checked (Turn (ℕ × ℕ) ℕ)
  | (count, cur) =>
    if cur = 0 then return .done count
    else do
      let count ← Word.add count 1
      return .again (count, (FreeBlock.read m cur).next)

/-- `Heap::free_blocks`. -/
def freeBlocks (fuel : ℕ) (heap : Heap) (m : Mem) : Checked ℕ :=
  loop (freeBlocksTurn m) fuel (0, heap.head)

end Heap

/-! ### Layouts on the grid -/

namespace Layout

/-- The size of the block a layout takes. -/
def blockSize (layout : Layout) : ℕ :=
  roundUp (max layout.size GRAIN) GRAIN

/-- The alignment a layout is served with. -/
def blockAlign (layout : Layout) : ℕ :=
  max layout.align GRAIN

theorem align_pos (layout : Layout) : 0 < layout.align := by
  obtain ⟨exponent, _, heq⟩ := layout.align_pow
  rw [heq]
  exact Nat.two_pow_pos exponent

theorem grain_dvd_blockSize (layout : Layout) : GRAIN ∣ layout.blockSize :=
  dvd_roundUp _ (by decide)

theorem size_le_blockSize (layout : Layout) : layout.size ≤ layout.blockSize :=
  le_trans (le_max_left _ _) (le_roundUp _ _)

theorem grain_le_blockSize (layout : Layout) : GRAIN ≤ layout.blockSize :=
  le_trans (le_max_right _ _) (le_roundUp _ _)

/-- The served alignment is a multiple of the requested one and of the grain. -/
theorem dvd_blockAlign (layout : Layout) :
    layout.align ∣ layout.blockAlign ∧ GRAIN ∣ layout.blockAlign := by
  obtain ⟨exponent, _, heq⟩ := layout.align_pow
  have hgrain : GRAIN = 2 ^ 4 := rfl
  rw [blockAlign, heq, hgrain]
  rcases le_total exponent 4 with hle | hle
  · rw [max_eq_right (Nat.pow_le_pow_right (by decide) hle)]
    exact ⟨pow_dvd_pow 2 hle, dvd_rfl⟩
  · rw [max_eq_left (Nat.pow_le_pow_right (by decide) hle)]
    exact ⟨dvd_rfl, pow_dvd_pow 2 hle⟩

/-- The joint bound on the size and the alignment of a layout, on the grid: a block and one stride
of its alignment together stay inside a word. -/
theorem blockSize_add_blockAlign_le (layout : Layout) :
    layout.blockSize + layout.blockAlign ≤ 2 ^ 63 + GRAIN := by
  obtain ⟨exponent, hexponent, heq⟩ := layout.align_pow
  have hround := layout.size_le
  have hsize := le_roundUp layout.size layout.align
  have hwhole : layout.align ∣ 2 ^ 63 := by
    rw [heq]
    exact pow_dvd_pow 2 (by omega)
  -- The padded size is a multiple of the alignment below 2 ^ 63, so one more stride fits.
  have hstride : layout.align ≤ 2 ^ 63 - roundUp layout.size layout.align :=
    Nat.le_of_dvd (by simp only [isizeMax] at hround; omega)
      (Nat.dvd_sub hwhole (dvd_roundUp _ layout.align_pos))
  simp only [isizeMax] at hround
  rcases le_total layout.align GRAIN with hsmall | hlarge
  · have hblock : layout.blockSize ≤ 2 ^ 63 :=
      roundUp_le (max_le (by omega) (by decide)) (by decide)
    rw [blockAlign, max_eq_right hsmall]
    exact Nat.add_le_add_right hblock GRAIN
  · have hgrain : GRAIN ∣ layout.align := by
      have hdvd := layout.dvd_blockAlign.2
      rwa [blockAlign, max_eq_left hlarge] at hdvd
    have hblock : layout.blockSize ≤ max (roundUp layout.size layout.align) GRAIN := by
      refine roundUp_le (max_le_max hsize le_rfl) ?_
      rcases max_choice (roundUp layout.size layout.align) GRAIN with hmax | hmax <;> rw [hmax]
      exact hgrain.trans (dvd_roundUp _ layout.align_pos)
    rw [blockAlign, max_eq_left hlarge]
    omega

end Layout

/-- What `normalise` guarantees of a size and an alignment: both are on the grid, neither is zero,
and together they stay inside a word. -/
structure Normalised (size align : ℕ) : Prop where
  size_dvd : GRAIN ∣ size
  size_pos : 0 < size
  align_dvd : GRAIN ∣ align
  align_pos : 0 < align
  bound : size + align ≤ 2 ^ 63 + GRAIN

theorem Layout.normalised (layout : Layout) :
    Normalised layout.blockSize layout.blockAlign where
  size_dvd := layout.grain_dvd_blockSize
  size_pos := lt_of_lt_of_le (by decide) layout.grain_le_blockSize
  align_dvd := layout.dvd_blockAlign.2
  align_pos := lt_of_lt_of_le (by decide) (le_max_right _ _)
  bound := layout.blockSize_add_blockAlign_le

theorem Normalised.grain_le {size align : ℕ} (h : Normalised size align) : GRAIN ≤ size :=
  Nat.le_of_dvd h.size_pos h.size_dvd

/-- `normalise` never faults. -/
theorem normalise_eq (layout : Layout) :
    normalise layout = .ok (layout.blockSize, layout.blockAlign) := by
  have hbound := layout.normalised.bound
  have halign := layout.normalised.align_pos
  have hgrainEq : GRAIN = 16 := rfl
  have hfits : layout.blockSize < 2 ^ 64 := by omega
  rw [Layout.blockSize] at hfits
  rw [normalise, Word.nextMultipleOf_eq hfits, ok_bind]
  rfl

end RustBL
