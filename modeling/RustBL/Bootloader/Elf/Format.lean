import RustBL.Bootloader.Elf.Loader
import RustBL.Library.Spans
import Mathlib.Data.Nat.Bitwise

/-!
# The accepted format as a list of checks

The fields of an image as plain functions of its bytes, and what the loader demands of them as a
list of checks with exact integers. A check is a proposition with the reason to stop when it fails,
and `firstFailure` is the reason of the first check that fails.

`parseHeader_eq` and `readSegment_eq` say that the code computes exactly this: it stops for the
first failure of its checks, and otherwise returns the fields.
-/

set_option autoImplicit false
set_option relaxedAutoImplicit false

namespace RustBL

namespace Elf

/-! ### Checks -/

/-- A condition and the reason to stop when it fails. -/
abbrev Check := Prop × Stop

open Classical in
/-- The reason of the first check that fails. -/
noncomputable def firstFailure : List Check → Option Stop
  | [] => none
  | (condition, stop) :: rest => if condition then firstFailure rest else some stop

section Checks

variable {condition : Prop} {stop : Stop} {left right rest : List Check}

@[simp] theorem firstFailure_nil : firstFailure [] = none :=
  rfl

theorem firstFailure_cons_pos (h : condition) :
    firstFailure ((condition, stop) :: rest) = firstFailure rest :=
  if_pos h

theorem firstFailure_cons_neg (h : ¬ condition) :
    firstFailure ((condition, stop) :: rest) = some stop :=
  if_neg h

/-- Two lists fail alike when their first checks hold alike and, if they do, the rest fails alike.
-/
theorem firstFailure_cons_congr {condition' : Prop} {rest' : List Check}
    (h : condition ↔ condition') (hrest : condition → firstFailure rest = firstFailure rest') :
    firstFailure ((condition, stop) :: rest) = firstFailure ((condition', stop) :: rest') := by
  by_cases hcondition : condition
  · rw [firstFailure_cons_pos hcondition, firstFailure_cons_pos (h.mp hcondition),
      hrest hcondition]
  · rw [firstFailure_cons_neg hcondition, firstFailure_cons_neg (mt h.mpr hcondition)]

/-- The checks of a sequence run one after the other. -/
theorem firstFailure_append : firstFailure (left ++ right) =
    (firstFailure left).elim (firstFailure right) some := by
  induction left with
  | nil => rfl
  | cons check left ih =>
    obtain ⟨condition, stop⟩ := check
    by_cases h : condition
    · rw [List.cons_append, firstFailure_cons_pos h, firstFailure_cons_pos h, ih]
    · rw [List.cons_append, firstFailure_cons_neg h, firstFailure_cons_neg h]
      rfl

/-- Nothing fails exactly when every check holds. -/
theorem firstFailure_eq_none : firstFailure left = none ↔ ∀ check ∈ left, check.1 := by
  induction left with
  | nil => simp
  | cons check left ih =>
    obtain ⟨condition, stop⟩ := check
    rw [List.forall_mem_cons]
    by_cases h : condition
    · rw [firstFailure_cons_pos h, ih]
      exact (and_iff_right h).symm
    · rw [firstFailure_cons_neg h]
      exact ⟨fun heq ↦ (nomatch heq), fun hall ↦ absurd hall.1 h⟩

/-- Two sequences of checks with the same beginning fail alike when, if the beginning passes, the
rest fails alike. -/
theorem firstFailure_append_congr {right' : List Check}
    (h : firstFailure left = none → firstFailure right = firstFailure right') :
    firstFailure (left ++ right) = firstFailure (left ++ right') := by
  rw [firstFailure_append, firstFailure_append]
  cases hleft : firstFailure left with
  | none => exact h hleft
  | some stop => rfl

/-- The reason of a failure is the reason of one of the checks. -/
theorem exists_of_firstFailure (h : firstFailure left = some stop) :
    ∃ check ∈ left, check.2 = stop := by
  induction left with
  | nil => exact nomatch h
  | cons check left ih =>
    obtain ⟨condition, reason⟩ := check
    by_cases hcondition : condition
    · rw [firstFailure_cons_pos hcondition] at h
      obtain ⟨check, hmem, hreason⟩ := ih h
      exact ⟨check, List.mem_cons_of_mem _ hmem, hreason⟩
    · rw [firstFailure_cons_neg hcondition] at h
      exact ⟨_, List.mem_cons_self, Option.some.inj h⟩

end Checks

/-! ### Fields -/

/-- The first page of a segment. -/
def LoadSegment.pageStart (segment : LoadSegment) : ℕ :=
  segment.vaddr / PAGE_SIZE * PAGE_SIZE

/-- The pages of a segment: from its first page to the end of its last one. -/
def LoadSegment.pages (segment : LoadSegment) : Span :=
  ⟨segment.pageStart, roundUp (segment.vaddr + segment.memsz) PAGE_SIZE - segment.pageStart⟩

namespace Image

variable (image : Image)

/-- `e_entry`. -/
def entry : ℕ := Bytes.word image.bytes 24 8

/-- `e_phoff`. -/
def phoff : ℕ := Bytes.word image.bytes 32 8

/-- `e_phnum`. -/
def phnum : ℕ := Bytes.word image.bytes 56 2

/-- The offset of a program header, as an exact integer. -/
def header (index : ℕ) : ℕ := image.phoff + index * PHDR_SIZE

/-- The program header is `PT_LOAD`. -/
def IsLoad (index : ℕ) : Prop := Bytes.word image.bytes (image.header index) 4 = PT_LOAD

instance (index : ℕ) : Decidable (image.IsLoad index) :=
  inferInstanceAs (Decidable (_ = _))

/-- The fields of a program header. -/
def segment (index : ℕ) : LoadSegment where
  offset := Bytes.word image.bytes (image.header index + 8) 8
  vaddr := Bytes.word image.bytes (image.header index + 16) 8
  filesz := Bytes.word image.bytes (image.header index + 32) 8
  memsz := Bytes.word image.bytes (image.header index + 40) 8

/-- The `PT_LOAD` segments among `remaining` headers from `index` on. -/
def loads (remaining index : ℕ) : List LoadSegment :=
  ((List.range' index remaining).filter (image.IsLoad ·)).map image.segment

/-- What `parse_header` checks, in order. -/
def headerChecks : List Check :=
  [(EHDR_SIZE ≤ image.bytes.length, .elf .tooSmall),
    (image.bytes.take 4 = ELF_MAGIC, .elf .badMagic),
    (image.bytes[EI_CLASS]? = some ELFCLASS64, .elf .not64Bit),
    (image.bytes[EI_DATA]? = some ELFDATA2LSB, .elf .notLittleEndian),
    (Bytes.word image.bytes 16 2 = ET_EXEC, .elf .notExecutable),
    (Bytes.word image.bytes 18 2 = EM_X86_64, .elf .wrongArchitecture),
    (Bytes.word image.bytes 54 2 = PHDR_SIZE, .elf .badProgramHeaders)]

/-- What `load_kernel` checks of a `PT_LOAD` header before it loads the segment, in order. -/
def loadChecks (index : ℕ) : List Check :=
  [((image.segment index).filesz ≤ (image.segment index).memsz, .elf .segmentTooLarge),
    ((image.segment index).offset + (image.segment index).filesz ≤ image.bytes.length,
      .elf .segmentOutOfBounds),
    ((image.segment index).vaddr + (image.segment index).memsz < 2 ^ 64, .elf .segmentOutOfBounds)]

/-- What `load_kernel` checks of a program header before it loads the segment, in order. -/
def sanityChecks (index : ℕ) : List Check :=
  (image.header index + PHDR_SIZE ≤ image.bytes.length, .elf .badProgramHeaders) ::
    if image.IsLoad index then image.loadChecks index else []

end Image

/-- An image of 120 bytes with one program header, which is `PT_LOAD`. The arguments are the lowest
bytes of `e_entry` and `p_vaddr`, both in page 1, and of `p_filesz` and `p_memsz`. -/
def smallImage (entry vaddr filesz memsz : UInt8) : Image where
  bytes := [0x7f, 0x45, 0x4c, 0x46, 2, 1, 1, 0, 0, 0, 0, 0, 0, 0, 0, 0, 2, 0, 0x3e, 0, 1, 0, 0, 0,
    entry, 0x10, 0, 0, 0, 0, 0, 0, 64, 0, 0, 0, 0, 0, 0, 0, 0, 0, 0, 0, 0, 0, 0, 0,
    0, 0, 0, 0, 64, 0, 56, 0, 1, 0, 0, 0, 0, 0, 0, 0, 1, 0, 0, 0, 5, 0, 0, 0,
    0, 0, 0, 0, 0, 0, 0, 0, vaddr, 0x10, 0, 0, 0, 0, 0, 0, vaddr, 0x10, 0, 0, 0, 0, 0, 0,
    filesz, 0, 0, 0, 0, 0, 0, 0, memsz, 0, 0, 0, 0, 0, 0, 0, 0, 0x10, 0, 0, 0, 0, 0, 0]
  length_lt := by simp only [List.length_cons, List.length_nil]; omega

/-! ### Reading -/

/-- Clearing the low bits rounds down to a page. -/
theorem alignDown_eq {value : ℕ} (hvalue : value < 2 ^ 64) :
    alignDown value = value / PAGE_SIZE * PAGE_SIZE := by
  have hmask : 2 ^ 64 - PAGE_SIZE = (2 ^ 52 - 1) <<< 12 := by decide
  have hdiv : value / PAGE_SIZE * PAGE_SIZE = (value >>> 12) <<< 12 := by
    rw [Nat.shiftLeft_eq, Nat.shiftRight_eq_div_pow]
    rfl
  rw [alignDown, hmask, hdiv]
  refine Nat.eq_of_testBit_eq fun bit ↦ ?_
  rw [Nat.testBit_and, Nat.testBit_shiftLeft, Nat.testBit_shiftLeft, Nat.testBit_shiftRight,
    Nat.testBit_two_pow_sub_one]
  by_cases hlow : 12 ≤ bit
  · have hbit : 12 + (bit - 12) = bit := by omega
    by_cases hhigh : bit < 64
    · have hmask : bit - 12 < 52 := by omega
      simp [hlow, hmask, hbit]
    · have hzero : value.testBit bit = false :=
        Nat.testBit_lt_two_pow (hvalue.trans_le (Nat.pow_le_pow_right (by decide) (by omega)))
      simp [hzero, hbit]
  · simp [hlow]

section Reading

variable (image : Image)

theorem readU16_eq (offset : ℕ) : checked (readU16 image.bytes offset) =
    .ok (if offset + 2 ≤ image.bytes.length then some (Bytes.word image.bytes offset 2)
      else none) := by
  have hlength := image.length_lt
  rw [readU16, Bytes.readWord_eq (by omega)]
  rfl

theorem readU32_eq (offset : ℕ) : checked (readU32 image.bytes offset) =
    .ok (if offset + 4 ≤ image.bytes.length then some (Bytes.word image.bytes offset 4)
      else none) := by
  have hlength := image.length_lt
  rw [readU32, Bytes.readWord_eq (by omega)]
  rfl

theorem readU64_eq (offset : ℕ) : checked (readU64 image.bytes offset) =
    .ok (if offset + 8 ≤ image.bytes.length then some (Bytes.word image.bytes offset 8)
      else none) := by
  have hlength := image.length_lt
  rw [readU64, Bytes.readWord_eq (by omega)]
  rfl

/-- Stop for a failure, and otherwise go on with a value. -/
def settle {α : Type} (failure : Option Stop) (value : α) : Except Stop α :=
  failure.elim (.ok value) .error

theorem settle_pos {α : Type} {condition : Prop} {stop : Stop} {rest : List Check} {value : α}
    (h : condition) : settle (firstFailure ((condition, stop) :: rest)) value =
      settle (firstFailure rest) value := by
  rw [firstFailure_cons_pos h]

theorem settle_neg {α : Type} {condition : Prop} {stop : Stop} {rest : List Check} {value : α}
    (h : ¬ condition) : settle (firstFailure ((condition, stop) :: rest)) value = .error stop := by
  rw [firstFailure_cons_neg h]
  rfl

/-- `parse_header` stops for the first failure of its checks and otherwise returns the fields. -/
theorem parseHeader_eq : parseHeader image = settle (firstFailure image.headerChecks)
    (image.entry, image.phoff, PHDR_SIZE, image.phnum) := by
  rw [parseHeader, Image.headerChecks]
  by_cases hsize : EHDR_SIZE ≤ image.bytes.length
  swap
  · rw [if_pos (not_le.mp hsize), settle_neg hsize]
  have hlength : 64 ≤ image.bytes.length := hsize
  rw [if_neg (not_lt.mpr hsize), settle_pos hsize,
    Bytes.range_eq (Nat.zero_le 4) (by omega : 4 ≤ image.bytes.length), checked_ok, ok_bind,
    List.drop_zero, Nat.sub_zero]
  by_cases hmagic : image.bytes.take 4 = ELF_MAGIC
  swap
  · rw [if_pos hmagic, settle_neg hmagic]
  have hclassAt : EI_CLASS < image.bytes.length := by simp only [EI_CLASS]; omega
  rw [if_neg (not_not.mpr hmagic), settle_pos hmagic, Bytes.index_eq hclassAt, checked_ok, ok_bind,
    List.getElem?_eq_getElem hclassAt]
  by_cases hclass : image.bytes[EI_CLASS] = ELFCLASS64
  swap
  · rw [if_pos hclass, settle_neg fun h ↦ hclass (Option.some.inj h)]
  have hdataAt : EI_DATA < image.bytes.length := by simp only [EI_DATA]; omega
  rw [if_neg (not_not.mpr hclass), settle_pos (congrArg some hclass), Bytes.index_eq hdataAt,
    checked_ok, ok_bind, List.getElem?_eq_getElem hdataAt]
  by_cases hdata : image.bytes[EI_DATA] = ELFDATA2LSB
  swap
  · rw [if_pos hdata, settle_neg fun h ↦ hdata (Option.some.inj h)]
  rw [if_neg (not_not.mpr hdata), settle_pos (congrArg some hdata), readU16_eq, ok_bind,
    if_pos (by omega), okOr_some, ok_bind]
  by_cases htype : Bytes.word image.bytes 16 2 = ET_EXEC
  swap
  · rw [if_pos htype, settle_neg htype]
  rw [if_neg (not_not.mpr htype), settle_pos htype, readU16_eq, ok_bind, if_pos (by omega),
    okOr_some, ok_bind]
  by_cases hmachine : Bytes.word image.bytes 18 2 = EM_X86_64
  swap
  · rw [if_pos hmachine, settle_neg hmachine]
  rw [if_neg (not_not.mpr hmachine), settle_pos hmachine, readU64_eq, ok_bind, if_pos (by omega),
    okOr_some, ok_bind, readU64_eq, ok_bind, if_pos (by omega), okOr_some, ok_bind, readU16_eq,
    ok_bind, if_pos (by omega), okOr_some, ok_bind, readU16_eq, ok_bind, if_pos (by omega),
    okOr_some, ok_bind]
  by_cases hentsize : Bytes.word image.bytes 54 2 = PHDR_SIZE
  swap
  · rw [if_pos hentsize, settle_neg hentsize]
  rw [if_neg (not_not.mpr hentsize), settle_pos hentsize, hentsize]
  rfl

/-- A program header that leaves the file is rejected, also when its offset is no word. -/
theorem readSegment_outside {index : ℕ}
    (hout : ¬ image.header index + PHDR_SIZE ≤ image.bytes.length) :
    readSegment image image.phoff PHDR_SIZE index = .error (.elf .badProgramHeaders) := by
  have hheader : image.header index = image.phoff + index * PHDR_SIZE := rfl
  rw [readSegment]
  cases hmul : Word.checkedMul index PHDR_SIZE with
  | none => rfl
  | some skipped =>
    obtain ⟨_, rfl⟩ := Word.checkedMul_eq_some.mp hmul
    rw [okOr_some, ok_bind]
    cases hadd : Word.checkedAdd image.phoff (index * PHDR_SIZE) with
    | none => rfl
    | some base =>
      obtain ⟨_, rfl⟩ := Word.checkedAdd_eq_some.mp hadd
      rw [okOr_some, ok_bind]
      cases hend : Word.checkedAdd (image.phoff + index * PHDR_SIZE) PHDR_SIZE with
      | none => rfl
      | some headerEnd =>
        obtain ⟨_, rfl⟩ := Word.checkedAdd_eq_some.mp hend
        rw [okOr_some, ok_bind, if_pos (by omega)]

/-- The checks of a `PT_LOAD` segment, once its fields are read. -/
theorem checkSegment_eq (index : ℕ) :
    (if (image.segment index).memsz < (image.segment index).filesz then
        Except.error (Stop.elf .segmentTooLarge)
      else do
        let fileEnd ← okOr .segmentOutOfBounds
          (Word.checkedAdd (image.segment index).offset (image.segment index).filesz)
        if image.bytes.length < fileEnd then .error (.elf .segmentOutOfBounds)
        else do
          let segEnd ← okOr .segmentOutOfBounds
            (Word.checkedAdd (image.segment index).vaddr (image.segment index).memsz)
          return some (image.segment index, alignDown (image.segment index).vaddr, segEnd)) =
      settle (firstFailure (image.loadChecks index))
        (some (image.segment index, (image.segment index).pageStart,
          (image.segment index).vaddr + (image.segment index).memsz)) := by
  have hlength := image.length_lt
  have hvaddr : (image.segment index).vaddr < 2 ^ 64 := Bytes.word_lt _ _ _
  rw [Image.loadChecks]
  by_cases hsize : (image.segment index).filesz ≤ (image.segment index).memsz
  swap
  · rw [if_pos (not_le.mp hsize), settle_neg hsize]
  rw [if_neg (not_lt.mpr hsize), settle_pos hsize]
  by_cases hfile : (image.segment index).offset + (image.segment index).filesz ≤ image.bytes.length
  swap
  · rw [settle_neg hfile]
    cases hadd : Word.checkedAdd (image.segment index).offset (image.segment index).filesz with
    | none => rfl
    | some fileEnd =>
      obtain ⟨_, rfl⟩ := Word.checkedAdd_eq_some.mp hadd
      rw [okOr_some, ok_bind, if_pos (not_le.mp hfile)]
  rw [settle_pos hfile, Word.checkedAdd_eq_some.mpr ⟨by omega, rfl⟩, okOr_some, ok_bind,
    if_neg (not_lt.mpr hfile)]
  by_cases hmem : (image.segment index).vaddr + (image.segment index).memsz < 2 ^ 64
  swap
  · rw [settle_neg hmem, Word.checkedAdd_eq_none.mpr (not_lt.mp hmem)]
    rfl
  rw [settle_pos hmem, Word.checkedAdd_eq_some.mpr ⟨hmem, rfl⟩, okOr_some, ok_bind,
    alignDown_eq hvaddr]
  rfl

/-- Reading a program header stops for the first failure of its checks. Otherwise it skips a header
that is not `PT_LOAD`, and returns the segment with its first page and its end. -/
theorem readSegment_eq (index : ℕ) : readSegment image image.phoff PHDR_SIZE index =
    settle (firstFailure (image.sanityChecks index))
      (if image.IsLoad index then some (image.segment index, (image.segment index).pageStart,
        (image.segment index).vaddr + (image.segment index).memsz) else none) := by
  have hlength := image.length_lt
  have hheader : image.header index = image.phoff + index * PHDR_SIZE := rfl
  have hphdr : PHDR_SIZE = 56 := rfl
  rw [Image.sanityChecks]
  by_cases hin : image.header index + PHDR_SIZE ≤ image.bytes.length
  swap
  · rw [settle_neg hin, readSegment_outside image hin]
  have hmul : Word.checkedMul index PHDR_SIZE = some (index * PHDR_SIZE) :=
    Word.checkedMul_eq_some.mpr ⟨by omega, rfl⟩
  have hadd : Word.checkedAdd image.phoff (index * PHDR_SIZE) = some (image.header index) :=
    Word.checkedAdd_eq_some.mpr ⟨by omega, rfl⟩
  have hend : Word.checkedAdd (image.header index) PHDR_SIZE =
      some (image.header index + PHDR_SIZE) := Word.checkedAdd_eq_some.mpr ⟨by omega, rfl⟩
  rw [settle_pos hin, readSegment, hmul, okOr_some, ok_bind, hadd, okOr_some, ok_bind, hend,
    okOr_some, ok_bind, if_neg (not_lt.mpr hin), readU32_eq, ok_bind, if_pos (by omega), okOr_some,
    ok_bind]
  by_cases hload : image.IsLoad index
  swap
  · have htype : Bytes.word image.bytes (image.header index) 4 ≠ PT_LOAD := hload
    rw [if_pos htype, if_neg hload, if_neg hload]
    rfl
  have htype : Bytes.word image.bytes (image.header index) 4 = PT_LOAD := hload
  rw [if_neg (not_not.mpr htype), if_pos hload, if_pos hload, Word.add_eq (by omega), checked_ok,
    ok_bind, readU64_eq, ok_bind, if_pos (by omega), okOr_some, ok_bind, Word.add_eq (by omega),
    checked_ok, ok_bind, readU64_eq, ok_bind, if_pos (by omega), okOr_some, ok_bind,
    Word.add_eq (by omega), checked_ok, ok_bind, readU64_eq, ok_bind, if_pos (by omega), okOr_some,
    ok_bind, Word.add_eq (by omega), checked_ok, ok_bind, readU64_eq, ok_bind, if_pos (by omega),
    okOr_some, ok_bind]
  exact checkSegment_eq image index

end Reading

end Elf

end RustBL
