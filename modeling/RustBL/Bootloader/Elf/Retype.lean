import RustBL.Bootloader.Elf.Loading

/-!
# An image with one segment left out

`Image.retype` changes the type of one program header and no other byte. When the header was an
empty `PT_LOAD` segment and the new type is another one, the new image has the segments of the old
one except for the empty segment: `Image.Omits` collects what this means for the fields the loader
reads, and `omits_retype` derives it from the bytes.
-/

set_option autoImplicit false
set_option relaxedAutoImplicit false

namespace RustBL

namespace Elf

namespace Image

/-- The image with the type of a program header changed. -/
def retype (image : Image) (index ptype : ℕ) : Image where
  bytes := image.bytes.mapIdx fun a byte ↦
    if image.header index ≤ a ∧ a < image.header index + 4 then
      UInt8.ofNat (ptype / 256 ^ (a - image.header index))
    else byte
  length_lt := by
    rw [List.length_mapIdx]
    exact image.length_lt

/-- A `PT_LOAD` header of size zero, which is not the only `PT_LOAD` header. -/
structure IsEmptyLoad (image : Image) (index : ℕ) : Prop where
  index_lt : index < image.phnum
  in_file : image.header index + PHDR_SIZE ≤ image.bytes.length
  load : image.IsLoad index
  filesz_eq : (image.segment index).filesz = 0
  memsz_eq : (image.segment index).memsz = 0
  offset_le : (image.segment index).offset ≤ image.bytes.length
  beside : ∃ other < image.phnum, other ≠ index ∧ image.IsLoad other

/-- A type that is not `PT_LOAD`, and whose bytes change nothing of the ELF header: the two may
overlap in an image whose program headers begin inside the ELF header. -/
structure Retypes (image : Image) (index ptype : ℕ) : Prop where
  ptype_lt : ptype < 2 ^ 32
  ptype_ne : ptype ≠ PT_LOAD
  header_eq : parseHeader (image.retype index ptype) = parseHeader image

/-- The second image has the program headers of the first except for the one at `index`, which is an
empty `PT_LOAD` header in the first and no `PT_LOAD` header in the second. -/
structure Omits (image image' : Image) (index : ℕ) : Prop where
  passes : firstFailure image.headerChecks = none
  passes' : firstFailure image'.headerChecks = none
  length_eq : image'.bytes.length = image.bytes.length
  entry_eq : image'.entry = image.entry
  phoff_eq : image'.phoff = image.phoff
  phnum_eq : image'.phnum = image.phnum
  index_lt : index < image.phnum
  load : image.IsLoad index
  not_load : ¬ image'.IsLoad index
  sane : firstFailure (image.sanityChecks index) = none
  memsz_eq : (image.segment index).memsz = 0
  beside : ∃ other < image.phnum, other ≠ index ∧ image.IsLoad other
  load_iff : ∀ k ≠ index, image'.IsLoad k ↔ image.IsLoad k
  segment_eq : ∀ k ≠ index, image'.segment k = image.segment k

/-! ### The bytes of the new image -/

section Retype

variable {image : Image} {index ptype : ℕ}

theorem length_retype : (image.retype index ptype).bytes.length = image.bytes.length :=
  List.length_mapIdx

theorem retype_getElem? (a : ℕ) : (image.retype index ptype).bytes[a]? = image.bytes[a]?.map
    fun byte ↦ if image.header index ≤ a ∧ a < image.header index + 4 then
      UInt8.ofNat (ptype / 256 ^ (a - image.header index)) else byte :=
  List.getElem?_mapIdx

/-- A word beside the type keeps its value. -/
theorem word_retype {offset width : ℕ}
    (hout : offset + width ≤ image.header index ∨ image.header index + 4 ≤ offset) :
    Bytes.word (image.retype index ptype).bytes offset width =
      Bytes.word image.bytes offset width := by
  refine Bytes.word_congr fun a hlow hhigh ↦ ?_
  rw [retype_getElem?]
  have hbeside : ¬ (image.header index ≤ a ∧ a < image.header index + 4) := by omega
  simp only [if_neg hbeside, Option.map_id']

/-- The type of the header is the new one. -/
theorem word_retype_type (hin : image.header index + PHDR_SIZE ≤ image.bytes.length)
    (hptype : ptype < 2 ^ 32) :
    Bytes.word (image.retype index ptype).bytes (image.header index) 4 = ptype := by
  have hphdr : PHDR_SIZE = 56 := rfl
  have hdigits : ∀ j < 4, (image.retype index ptype).bytes[image.header index + j]? =
      some (UInt8.ofNat (ptype / 256 ^ j)) := by
    intro j hj
    have hinside : image.header index ≤ image.header index + j ∧
        image.header index + j < image.header index + 4 := by omega
    have hlt : image.header index + j < image.bytes.length := by omega
    rw [retype_getElem?, List.getElem?_eq_getElem hlt, Option.map_some, if_pos hinside,
      Nat.add_sub_cancel_left]
  rw [Bytes.word_of_digits hdigits]
  exact Nat.mod_eq_of_lt hptype

/-- When the program header lies behind the ELF header, every other type will do. -/
theorem retypes_of_le (hbehind : EHDR_SIZE ≤ image.header index) (hptype : ptype < 2 ^ 32)
    (hne : ptype ≠ PT_LOAD) : image.Retypes index ptype := by
  have hsize : EHDR_SIZE = 64 := rfl
  have hword : ∀ offset width, offset + width ≤ 64 →
      Bytes.word (image.retype index ptype).bytes offset width =
        Bytes.word image.bytes offset width :=
    fun offset width hle ↦ word_retype (Or.inl (by omega))
  have hbyte : ∀ a < 64, (image.retype index ptype).bytes[a]? = image.bytes[a]? := by
    intro a ha
    have hbeside : ¬ (image.header index ≤ a ∧ a < image.header index + 4) := by omega
    rw [retype_getElem?]
    simp only [if_neg hbeside, Option.map_id']
  have hmagic : (image.retype index ptype).bytes.take 4 = image.bytes.take 4 := by
    refine List.ext_getElem? fun a ↦ ?_
    rw [List.getElem?_take, List.getElem?_take]
    split_ifs with ha
    · exact hbyte a (by omega)
    · rfl
  have hchecks : (image.retype index ptype).headerChecks = image.headerChecks := by
    rw [headerChecks, headerChecks, length_retype, hmagic, hbyte EI_CLASS (by decide),
      hbyte EI_DATA (by decide), hword 16 2 (by decide), hword 18 2 (by decide),
      hword 54 2 (by decide)]
  refine ⟨hptype, hne, ?_⟩
  rw [parseHeader_eq, parseHeader_eq, hchecks, entry, entry, phoff, phoff, phnum, phnum,
    hword 24 8 (by decide), hword 32 8 (by decide), hword 56 2 (by decide)]

/-- Two program headers do not overlap. -/
theorem header_apart {k : ℕ} (hne : k ≠ index) :
    image.header k + PHDR_SIZE ≤ image.header index ∨
      image.header index + PHDR_SIZE ≤ image.header k := by
  have hphdr : PHDR_SIZE = 56 := rfl
  rw [header, header, hphdr]
  rcases lt_or_gt_of_ne hne with hlt | hgt <;> omega

/-- An empty segment passes its checks. -/
theorem IsEmptyLoad.sane (hempty : image.IsEmptyLoad index) :
    firstFailure (image.sanityChecks index) = none := by
  rw [sanityChecks, firstFailure_cons_pos hempty.in_file, if_pos hempty.load, loadChecks,
    hempty.filesz_eq, hempty.memsz_eq, Nat.add_zero, Nat.add_zero, firstFailure_cons_pos le_rfl,
    firstFailure_cons_pos hempty.offset_le, firstFailure_cons_pos (image.segment_vaddr_lt index),
    firstFailure_nil]

/-- An image whose ELF header is accepted and the image with the empty segment retyped have the
same segments, except for the empty one. -/
theorem omits_retype (hempty : image.IsEmptyLoad index) (hretype : image.Retypes index ptype)
    (hpasses : firstFailure image.headerChecks = none) :
    image.Omits (image.retype index ptype) index := by
  have hphdr : PHDR_SIZE = 56 := rfl
  have hparse := hretype.header_eq
  rw [parseHeader_eq, parseHeader_eq, hpasses] at hparse
  cases hpasses' : firstFailure (image.retype index ptype).headerChecks with
  | some stop =>
    rw [hpasses'] at hparse
    exact nomatch hparse
  | none =>
  rw [hpasses'] at hparse
  have hfields := Except.ok.inj hparse
  simp only [Prod.mk.injEq, true_and] at hfields
  obtain ⟨hentry, hphoff, hphnum⟩ := hfields
  have hheader : ∀ k, (image.retype index ptype).header k = image.header k := by
    intro k
    rw [header, header, hphoff]
  have hword : ∀ k ≠ index, ∀ skip width, skip + width ≤ PHDR_SIZE →
      Bytes.word (image.retype index ptype).bytes (image.header k + skip) width =
        Bytes.word image.bytes (image.header k + skip) width := by
    intro k hne skip width hle
    have hapart := image.header_apart hne
    exact word_retype (by omega)
  exact {
    passes := hpasses
    passes' := hpasses'
    length_eq := length_retype
    entry_eq := hentry
    phoff_eq := hphoff
    phnum_eq := hphnum
    index_lt := hempty.index_lt
    load := hempty.load
    not_load := by
      rw [IsLoad, hheader, word_retype_type hempty.in_file hretype.ptype_lt]
      exact hretype.ptype_ne
    sane := hempty.sane
    memsz_eq := hempty.memsz_eq
    beside := hempty.beside
    load_iff := fun k hne ↦ by
      have htype := hword k hne 0 4 (by decide)
      rw [Nat.add_zero] at htype
      rw [IsLoad, IsLoad, hheader, htype]
    segment_eq := fun k hne ↦ by
      rw [segment, segment, hheader, hword k hne 8 8 (by decide), hword k hne 16 8 (by decide),
        hword k hne 32 8 (by decide), hword k hne 40 8 (by decide)] }

end Retype

/-! ### The segments of the new image -/

namespace Omits

variable {image image' : Image} {index : ℕ} (homits : image.Omits image' index)
include homits

theorem header_eq (k : ℕ) : image'.header k = image.header k := by
  rw [header, header, homits.phoff_eq]

/-- The checks of the other headers are the same. -/
theorem sanityChecks_eq {k : ℕ} (hne : k ≠ index) :
    image'.sanityChecks k = image.sanityChecks k := by
  rw [sanityChecks, sanityChecks, homits.header_eq, homits.length_eq, loadChecks, loadChecks,
    homits.segment_eq k hne, homits.length_eq]
  simp only [homits.load_iff k hne]

/-- The omitted header passes its checks in both images. -/
theorem sane' : firstFailure (image'.sanityChecks index) = none := by
  have hsane := firstFailure_eq_none.mp homits.sane
  rw [sanityChecks, List.forall_mem_cons] at hsane
  rw [sanityChecks, if_neg homits.not_load, homits.header_eq, homits.length_eq,
    firstFailure_cons_pos hsane.1, firstFailure_nil]

/-- The segments of the first image are the empty one and those of the second. -/
theorem exists_segment_iff {P : LoadSegment → Prop} : (∃ segment ∈ image.segments, P segment) ↔
    P (image.segment index) ∨ ∃ segment ∈ image'.segments, P segment := by
  rw [exists_segment, exists_segment, homits.phnum_eq]
  constructor
  · rintro ⟨k, hk, hload, hP⟩
    by_cases hne : k = index
    · exact Or.inl (hne ▸ hP)
    · refine Or.inr ⟨k, hk, (homits.load_iff k hne).mpr hload, ?_⟩
      rwa [homits.segment_eq k hne]
  · rintro (hP | ⟨k, hk, hload, hP⟩)
    · exact ⟨index, homits.index_lt, homits.load, hP⟩
    · have hne : k ≠ index := fun heq ↦ homits.not_load (heq ▸ hload)
      rw [homits.segment_eq k hne] at hP
      exact ⟨k, hk, (homits.load_iff k hne).mp hload, hP⟩

theorem segments_ne_nil : image.segments ≠ [] :=
  Image.segments_ne_nil.mpr ⟨index, homits.index_lt, homits.load⟩

theorem segments_ne_nil' : image'.segments ≠ [] := by
  obtain ⟨other, hother, hne, hload⟩ := homits.beside
  refine Image.segments_ne_nil.mpr ⟨other, ?_, (homits.load_iff other hne).mpr hload⟩
  rwa [homits.phnum_eq]

/-- The lowest address counts the first page of the empty segment too. -/
theorem lowest_eq :
    image.extent.lowest = min (image.segment index).pageStart image'.extent.lowest := by
  refine eq_of_forall_ge_iff fun bound ↦ ?_
  rw [extent, extent, Extent.foldl_lowest_le, min_le_iff, Extent.foldl_lowest_le,
    homits.exists_segment_iff]
  exact or_left_comm

/-- The highest address counts the address of the empty segment too. -/
theorem highest_eq :
    image.extent.highest = max (image.segment index).vaddr image'.extent.highest := by
  refine eq_of_forall_lt_iff fun bound ↦ ?_
  rw [extent, extent, Extent.lt_foldl_highest, lt_max_iff, Extent.lt_foldl_highest,
    homits.exists_segment_iff, homits.memsz_eq, Nat.add_zero]
  exact or_left_comm

end Omits

end Image

end Elf

end RustBL
