import RustBL.Bootloader.Elf.Answering
import RustBL.Bootloader.Elf.Firmware
import RustBL.Bootloader.Elf.Placement

/-!
# Empty segments

A `PT_LOAD` segment of size zero has nothing to load, and the comment on `load_segment` promises
that it needs no allocation. The early return behind the comment tests the padding and the size
together, so an empty segment that begins inside a page is granted a page; and whether or not it has
pages, the loop counts its address towards the lowest and the highest one.

`loadKernel_retype_iff` compares the loader on an image with an empty segment and on the image where
that header has another type. It says exactly when no firmware and no memory tells the two apart
(`Image.Inert`). In one direction the two loops run in the same state side by side. In the other
direction every way to fail the condition is exposed by a firmware that answers its requests from a
fixed sequence (`answering`).
-/

set_option autoImplicit false
set_option relaxedAutoImplicit false

namespace RustBL

namespace Elf

namespace Image

/-- An address between the first page of some segment and the end of some segment. -/
def InHull (image : Image) (addr : ℕ) : Prop :=
  (∃ segment ∈ image.segments, segment.pageStart ≤ addr) ∧
    ∃ segment ∈ image.segments, addr < segment.vaddr + segment.memsz

/-- The empty segment at `index` is not noticed when its type is changed to `ptype`. -/
structure Inert (image : Image) (index ptype : ℕ) : Prop where
  /-- It begins on a page boundary, if the loader gets to it. -/
  aligned : image.Reaches index → PAGE_SIZE ∣ (image.segment index).vaddr
  /-- No segment that is loaded has the changed bytes in its part of the file. -/
  uncopied : ∀ k < image.phnum, image.Reaches (k + 1) → image.IsLoad k →
    ∀ a, (image.segment k).offset ≤ a → a < (image.segment k).offset + (image.segment k).filesz →
      (image.retype index ptype).bytes[a]? = image.bytes[a]?
  /-- If the loader gets past all headers, the entry point lies outside the hull of all segments, or
  it lies in the hull of the other segments and either the end of one of these cannot be rounded up
  or their pages begin at or below the empty segment and end at or above it. -/
  hull : image.Reaches image.phnum → ¬ image.InHull image.entry ∨
    (image.retype index ptype).InHull image.entry ∧
      ((∃ segment ∈ (image.retype index ptype).segments,
          2 ^ 64 ≤ segment.vaddr + segment.memsz + (PAGE_SIZE - 1)) ∨
        (∃ segment ∈ (image.retype index ptype).segments,
            segment.pageStart ≤ (image.segment index).vaddr) ∧
          ∃ segment ∈ (image.retype index ptype).segments,
            (image.segment index).vaddr ≤ segment.pages.stop)

end Image

/-! ### What is reported -/

section Report

variable {image image' : Image} {index : ℕ}

/-- An empty segment has no pages exactly when it begins on a page boundary. -/
theorem Image.Omits.pageCount_eq_zero_iff (homits : image.Omits image' index) :
    (image.segment index).pageCount = 0 ↔ PAGE_SIZE ∣ (image.segment index).vaddr := by
  have hdiv := Nat.div_add_mod (image.segment index).vaddr PAGE_SIZE
  rw [LoadSegment.pageCount_eq_zero, homits.memsz_eq, LoadSegment.pageStart,
    Nat.dvd_iff_mod_eq_zero, Nat.mul_comm]
  omega

/-- The rounded highest end is the end of the pages of some segment, so it is at or above an address
exactly when one of these is. -/
theorem Image.le_roundUp_highest (hsegments : image.segments ≠ []) {addr : ℕ} :
    addr ≤ roundUp image.extent.highest PAGE_SIZE ↔
      ∃ segment ∈ image.segments, addr ≤ segment.pages.stop := by
  have hpage : 0 < PAGE_SIZE := by decide
  constructor
  · intro haddr
    by_cases hzero : image.extent.highest = 0
    · obtain ⟨segment, hmem⟩ := List.exists_mem_of_ne_nil _ hsegments
      rw [hzero] at haddr
      exact ⟨segment, hmem, haddr.trans (Nat.zero_le _)⟩
    · have habove : image.extent.highest - 1 < image.extent.highest := by omega
      rcases Extent.lt_foldl_highest.mp habove with hstart | ⟨segment, hmem, hend⟩
      · exact absurd hstart (Nat.not_lt_zero _)
      · refine ⟨segment, hmem, haddr.trans ?_⟩
        have hle : image.extent.highest ≤ segment.vaddr + segment.memsz := by omega
        rw [segment.pages_stop]
        exact roundUp_le (hle.trans (le_roundUp _ _)) (dvd_roundUp _ hpage)
  · rintro ⟨segment, hmem, haddr⟩
    refine haddr.trans ?_
    have hle : segment.vaddr + segment.memsz ≤ image.extent.highest := by
      by_contra hbelow
      exact lt_irrefl _ (Extent.lt_foldl_highest.mpr (Or.inr ⟨segment, hmem, not_le.mp hbelow⟩))
    rw [segment.pages_stop]
    exact roundUp_le (hle.trans (le_roundUp _ _)) (dvd_roundUp _ hpage)

/-- The lowest address is at or below a page boundary exactly when some first page is. -/
theorem Image.lowest_le_of_dvd {addr : ℕ} (hword : addr < 2 ^ 64) (haddr : PAGE_SIZE ∣ addr) :
    image.extent.lowest ≤ addr ↔ ∃ segment ∈ image.segments, segment.pageStart ≤ addr := by
  have hstart : ¬ Extent.start.lowest ≤ addr := by
    obtain ⟨page, rfl⟩ := haddr
    simp only [Extent.start, PAGE_SIZE] at *
    omega
  rw [Image.extent, Extent.foldl_lowest_le, or_iff_right hstart]

theorem Image.InHull.segments_ne_nil {addr : ℕ} (hin : image.InHull addr) :
    image.segments ≠ [] := by
  obtain ⟨segment, hmem, _⟩ := hin.1
  exact List.ne_nil_of_mem hmem

/-- An entry point outside the hull is rejected. -/
theorem report_of_out (hsegments : image.segments ≠ []) (hout : ¬ image.InHull image.entry) :
    report image.entry image.extent = .error (.elf .entryOutOfRange) := by
  rw [report_eq, Image.finalChecks, settle_pos hsegments]
  exact settle_neg hout

/-- A highest end that cannot be rounded up is a fault. -/
theorem report_of_overflow (hin : image.InHull image.entry)
    (hlarge : ¬ image.extent.highest + (PAGE_SIZE - 1) < 2 ^ 64) :
    report image.entry image.extent = .error (.fault .overflow) := by
  rw [report_eq, Image.finalChecks, settle_pos hin.segments_ne_nil]
  exact (settle_pos hin).trans (settle_neg hlarge)

/-- Otherwise the extent of the segments is reported. -/
theorem report_of_fits (hin : image.InHull image.entry)
    (hfits : image.extent.highest + (PAGE_SIZE - 1) < 2 ^ 64) :
    report image.entry image.extent = .ok ⟨image.entry, image.extent.lowest,
      roundUp image.extent.highest PAGE_SIZE - image.extent.lowest⟩ := by
  rw [report_eq, Image.finalChecks, settle_pos hin.segments_ne_nil]
  exact (settle_pos hin).trans (settle_pos hfits)

/-- The hull reaches from the lowest address to the highest end. -/
theorem Image.InHull.bounds {addr : ℕ} (hin : image.InHull addr) :
    image.extent.lowest ≤ addr ∧ addr < image.extent.highest :=
  ⟨Extent.foldl_lowest_le.mpr (Or.inr hin.1), Extent.lt_foldl_highest.mpr (Or.inr hin.2)⟩

/-- Both images are reported alike exactly when the entry point lies outside the hull, or inside the
hull of the other segments, and these fault or enclose the empty segment. Assumes: the empty segment
begins on a page boundary. -/
theorem report_eq_iff (homits : image.Omits image' index)
    (haligned : PAGE_SIZE ∣ (image.segment index).vaddr) :
    report image.entry image.extent = report image'.entry image'.extent ↔
      ¬ image.InHull image.entry ∨ image'.InHull image.entry ∧
        ((∃ segment ∈ image'.segments, 2 ^ 64 ≤ segment.vaddr + segment.memsz + (PAGE_SIZE - 1)) ∨
          (∃ segment ∈ image'.segments, segment.pageStart ≤ (image.segment index).vaddr) ∧
            ∃ segment ∈ image'.segments, (image.segment index).vaddr ≤ segment.pages.stop) := by
  have hpage : 0 < PAGE_SIZE := by decide
  have hword := image.segment_vaddr_lt index
  have hfirst : (image.segment index).pageStart = (image.segment index).vaddr :=
    Nat.div_mul_cancel haligned
  have hlowest := homits.lowest_eq
  have hhighest := homits.highest_eq
  rw [hfirst] at hlowest
  have hfits : image.extent.highest + (PAGE_SIZE - 1) < 2 ^ 64 ↔
      image'.extent.highest + (PAGE_SIZE - 1) < 2 ^ 64 := by
    obtain ⟨page, hvaddr⟩ := haligned
    rw [hhighest]
    simp only [PAGE_SIZE] at hvaddr ⊢
    omega
  have hoverflow : (∃ segment ∈ image'.segments,
      2 ^ 64 ≤ segment.vaddr + segment.memsz + (PAGE_SIZE - 1)) ↔
        ¬ image'.extent.highest + (PAGE_SIZE - 1) < 2 ^ 64 := by
    rw [image'.highest_fits]
    push Not
    rfl
  rw [hoverflow, ← Image.lowest_le_of_dvd hword haligned,
    ← Image.le_roundUp_highest homits.segments_ne_nil']
  by_cases hin : image.InHull image.entry
  swap
  · -- What lies outside the hull of all segments lies outside the hull of the others.
    have hout : ¬ image'.InHull image'.entry := by
      rw [homits.entry_eq]
      exact fun hin' ↦ hin ⟨homits.exists_segment_iff.mpr (Or.inr hin'.1),
        homits.exists_segment_iff.mpr (Or.inr hin'.2)⟩
    rw [report_of_out homits.segments_ne_nil hin, report_of_out homits.segments_ne_nil' hout]
    exact iff_of_true rfl (Or.inl hin)
  rw [or_iff_right (not_not.mpr hin)]
  by_cases hother : image'.InHull image.entry
  swap
  · have hout : ¬ image'.InHull image'.entry := by rwa [homits.entry_eq]
    rw [report_of_out homits.segments_ne_nil' hout]
    refine iff_of_false (fun heq ↦ ?_) fun h ↦ hother h.1
    by_cases hhigh : image.extent.highest + (PAGE_SIZE - 1) < 2 ^ 64
    · rw [report_of_fits hin hhigh] at heq
      cases heq
    · rw [report_of_overflow hin hhigh] at heq
      cases heq
  have hin' : image'.InHull image'.entry := by rwa [homits.entry_eq]
  rw [and_iff_right hother]
  by_cases hhigh : image'.extent.highest + (PAGE_SIZE - 1) < 2 ^ 64
  swap
  · rw [report_of_overflow hin (mt hfits.mp hhigh), report_of_overflow hin' hhigh]
    exact iff_of_true rfl (Or.inl hhigh)
  have hbounds := hin'.bounds
  have hround := le_roundUp image'.extent.highest PAGE_SIZE
  rw [or_iff_right (not_not.mpr hhigh), report_of_fits hin (hfits.mpr hhigh),
    report_of_fits hin' hhigh, Except.ok.injEq, LoadedKernel.mk.injEq, homits.entry_eq, hlowest,
    hhighest, roundUp_max_of_dvd haligned]
  clear hoverflow
  omega

end Report

section Inert

variable {σ : Type} {allocator : PageAllocator σ} {image : Image} {index : ℕ}

/-- One direction of the comparison: an inert empty segment is not noticed. -/
theorem loadKernel_eq_of_inert {ptype : ℕ} (hempty : image.IsEmptyLoad index)
    (hretype : image.Retypes index ptype) (hinert : image.Inert index ptype) (s : LoaderState σ) :
    loadKernel allocator image s = loadKernel allocator (image.retype index ptype) s := by
  cases hpasses : firstFailure image.headerChecks with
  | some stop =>
    have hparse : parseHeader image = .error stop := by
      rw [parseHeader_eq, hpasses]
      rfl
    rw [loadKernel_of_rejected allocator image hparse,
      loadKernel_of_rejected allocator _ (hretype.header_eq.trans hparse)]
  | none =>
  have homits := Image.omits_retype hempty hretype hpasses
  have halike := loops_alike allocator homits
    (fun hreach ↦ homits.pageCount_eq_zero_iff.mpr (hinert.aligned hreach)) hinert.uncopied s
  rw [loadKernel_eq_report allocator image hpasses,
    loadKernel_eq_report allocator _ homits.passes']
  cases hran : loadSegments allocator image image.phoff PHDR_SIZE image.phnum 0 .start s with
  | error stop t =>
    rw [hran] at halike
    obtain ⟨t', hran', rfl⟩ := halike.of_error
    rw [bind_error hran, bind_error hran']
  | ok extent t =>
    rw [hran] at halike
    obtain ⟨extent', t', hran', rfl⟩ := halike.of_ok
    have hreach : image.Reaches (0 + image.phnum) :=
      reaches_of_ok (Image.reaches_zero hpasses) hran
    rw [Nat.zero_add] at hreach
    have hreport := (report_eq_iff homits (hinert.aligned (hreach.mono homits.index_lt.le))).mpr
      (hinert.hull hreach)
    rw [bind_ok hran, bind_ok hran', extent_of_ok hran, extent_of_ok hran', hreport]

end Inert

/-! ### What a firmware can notice -/

section Notice

variable {image image' : Image} {index : ℕ}

/-- The firmware grants everything in both states, and the first has `surplus` grants more. -/
def Ahead (surplus : ℕ) (s s' : LoaderState (ℕ → Bool)) : Prop :=
  s.firmware = (fun _ ↦ true) ∧ s'.firmware = (fun _ ↦ true) ∧
    s.granted.length = s'.granted.length + surplus

/-- Every other segment takes the same grants in both images, so a surplus stays. -/
theorem stepsAlike_ahead (homits : image.Omits image' index) (surplus : ℕ) :
    StepsAlike answering image image' index (Ahead surplus) := by
  rintro k _ _ _ hload hsane s s' ⟨hyes, hyes', hgranted⟩
  have hsegment := image.sane_of_checks hload hsane
  have hvaddr := image.segment_vaddr_lt k
  have hgrants : (image.segment k).Grants answering s.firmware :=
    grants_answering fun n _ ↦ congrFun hyes n
  have hgrants' : (image.segment k).Grants answering s'.firmware :=
    grants_answering fun n _ ↦ congrFun hyes' n
  have hafter : (image.segment k).firmwareAfter answering s.firmware = fun _ ↦ true := by
    rw [firmwareAfter_answering, hyes]
  have hafter' : (image.segment k).firmwareAfter answering s'.firmware = fun _ ↦ true := by
    rw [firmwareAfter_answering, hyes']
  have hcount : (s.granted ++ (image.segment k).grant).length =
      (s'.granted ++ (image.segment k).grant).length + surplus := by
    rw [List.length_append, List.length_append]
    omega
  have hsegment' := hsegment.congr homits.length_eq
  by_cases hsize : (image.segment k).pages.size < 2 ^ 64
  · rw [loadSegment_of_granted answering hsegment hvaddr hgrants hsize,
      loadSegment_of_granted answering hsegment' hvaddr hgrants' hsize]
    exact ⟨hafter, hafter', hcount⟩
  · rw [loadSegment_of_overlong answering hsegment hvaddr hgrants (not_lt.mp hsize),
      loadSegment_of_overlong answering hsegment' hvaddr hgrants' (not_lt.mp hsize)]
    exact ⟨rfl, hafter, hafter', hcount⟩

/-- A segment that begins inside a page takes one grant more than no segment. -/
theorem granted_ne (homits : image.Omits image' index) (hreach : image.Reaches index)
    (hpages : (image.segment index).pageCount ≠ 0) :
    (finalState (loadKernel answering image grantingAll)).granted ≠
      (finalState (loadKernel answering image' grantingAll)).granted := by
  obtain ⟨rest, hrest⟩ : ∃ rest, image.phnum = index + (rest + 1) :=
    ⟨image.phnum - index - 1, by have hlt := homits.index_lt; omega⟩
  have hran := loop_answering hreach (s := grantingAll) fun _ _ ↦ rfl
  have hbefore : Alike (Ahead 0)
      (loadSegments answering image image.phoff PHDR_SIZE index 0 .start grantingAll)
      (loadSegments answering image' image'.phoff PHDR_SIZE index 0 .start grantingAll) :=
    loadSegments_alike homits (stepsAlike_ahead homits 0) (by omega) (Or.inr (by omega))
      (Image.reaches_zero homits.passes) ⟨rfl, rfl, rfl⟩
  rw [hran] at hbefore
  obtain ⟨extent', s', hran', hyes, hyes', hgranted⟩ := hbefore.of_ok
  -- Here the first image takes its page, and the second image goes on.
  have hgrants : (image.segment index).Grants answering
      ((image.loads index 0).foldl (LoadSegment.loaded answering image) grantingAll).firmware :=
    grants_answering fun n _ ↦ congrFun hyes n
  have hloaded := loadSegment_of_granted answering (image.sane_of_checks homits.load homits.sane)
    (image.segment_vaddr_lt index) hgrants homits.size_lt
  have hahead : Ahead 1 ((image.segment index).loaded answering image
      ((image.loads index 0).foldl (LoadSegment.loaded answering image) grantingAll)) s' := by
    have hgrant : (image.segment index).grant.length = 1 := by
      rw [LoadSegment.grant, if_neg hpages, List.length_singleton]
    refine ⟨?_, hyes', ?_⟩
    · rw [LoadSegment.loaded, firmwareAfter_answering, hyes]
    · rw [LoadSegment.loaded, List.length_append, hgranted, hgrant]
  have hafter : Alike (Ahead 1)
      (loadSegments answering image image.phoff PHDR_SIZE (rest + 1) index
        ((image.loads index 0).foldl Extent.add .start)
        ((image.loads index 0).foldl (LoadSegment.loaded answering image) grantingAll))
      (loadSegments answering image' image'.phoff PHDR_SIZE (rest + 1) index extent' s') :=
    loadSegments_omitted homits (stepsAlike_ahead homits 1) hrest.ge hreach hloaded hahead
  rw [finalState_loadKernel homits.passes, finalState_loadKernel homits.passes', homits.phnum_eq,
    hrest, loadSegments_add, loadSegments_add, bind_ok hran, bind_ok hran', Nat.zero_add]
  intro heq
  obtain ⟨_, _, hlength⟩ := hafter.finalState
  rw [heq] at hlength
  omega

/-- A firmware that grants the requests up to a segment and no more leaves the bytes of the segment
in memory. -/
theorem mem_loadKernel {k : ℕ} (hk : k < image.phnum) (hreach : image.Reaches (k + 1))
    (hload : image.IsLoad k) {addr : ℕ} (haddr : addr ∈ (image.segment k).pages.bytes) :
    (finalState (loadKernel answering image
        (grantingFirst (image.requests (k + 1) 0)))).mem addr =
      (image.segment k).byteAt image addr := by
  obtain ⟨rest, hrest⟩ : ∃ rest, image.phnum = k + 1 + rest :=
    ⟨image.phnum - (k + 1), by omega⟩
  have hsane := image.sane_of_checks hload (hreach.sane_at (Nat.lt_succ_self k))
  have hran := loop_answering hreach fun _ ↦ grantingFirst_granted
  -- After the granted requests every answer is a refusal.
  have hno : ((image.loads (k + 1) 0).foldl (LoadSegment.loaded answering image)
      (grantingFirst (image.requests (k + 1) 0))).firmware = fun _ ↦ false := by
    rw [firmware_foldl_answering]
    funext n
    exact grantingFirst_refused (Nat.le_add_left _ n)
  rw [finalState_loadKernel hreach.passes, hrest, loadSegments_add, bind_ok hran,
    mem_of_refused hno, foldl_loaded_mem, image.loads_concat_of_load hload, List.foldl_append]
  exact LoadSegment.fillPages_mem hsane haddr

/-- An empty segment without pages makes no request, if it is among the headers. -/
theorem Image.Omits.requests_eq (homits : image.Omits image' index) {remaining k : ℕ}
    (hpages : k ≤ index → index < k + remaining → (image.segment index).pageCount = 0) :
    image'.requests remaining k = image.requests remaining k := by
  refine congrArg List.length ?_
  induction remaining generalizing k with
  | zero => rfl
  | succ remaining ih =>
    have hrest := ih (k := k + 1) fun hle hlt ↦ hpages (by omega) (by omega)
    by_cases hne : k = index
    · have hgrant : (image.segment index).grant = [] :=
        if_pos (hpages hne.le (by omega))
      subst hne
      rw [image.loads_succ_of_load homits.load, image'.loads_succ_of_not_load homits.not_load,
        List.flatMap_cons, hgrant, List.nil_append, hrest]
    by_cases hload : image.IsLoad k
    · rw [image.loads_succ_of_load hload,
        image'.loads_succ_of_load ((homits.load_iff k hne).mpr hload), homits.segment_eq k hne,
        List.flatMap_cons, List.flatMap_cons, hrest]
    · rw [image.loads_succ_of_not_load hload,
        image'.loads_succ_of_not_load (mt (homits.load_iff k hne).mp hload), hrest]

/-- On a firmware that grants everything the loader reports the segments, if it gets to the end. -/
theorem loadKernel_grantingAll (hreach : image.Reaches image.phnum) :
    ∃ s, loadKernel answering image grantingAll = lift (report image.entry image.extent) s := by
  have hran := loop_answering hreach (s := grantingAll) fun _ _ ↦ rfl
  rw [loadKernel_eq_report answering image hreach.passes, bind_ok hran, extent_of_ok hran]
  exact ⟨_, rfl⟩

/-- The other direction: an empty segment that is not noticed is inert. -/
theorem inert_of_loadKernel_eq {ptype : ℕ} (hempty : image.IsEmptyLoad index)
    (hretype : image.Retypes index ptype)
    (hsame : ∀ s, loadKernel answering image s =
      loadKernel answering (image.retype index ptype) s) :
    image.Inert index ptype := by
  have hpages : image.Reaches index → (image.segment index).pageCount = 0 := by
    intro hreach
    by_contra hpages
    refine granted_ne (Image.omits_retype hempty hretype hreach.passes) hreach hpages ?_
    rw [hsame grantingAll]
  refine ⟨fun hreach ↦ ?_, ?_, fun hreach ↦ ?_⟩
  · exact (Image.omits_retype hempty hretype hreach.passes).pageCount_eq_zero_iff.mp (hpages hreach)
  · intro k hk hreach hload a hlow hhigh
    have homits := Image.omits_retype hempty hretype hreach.passes
    have hne : k ≠ index := by
      rintro rfl
      rw [hempty.filesz_eq] at hhigh
      exact absurd hlow (not_le.mpr hhigh)
    have hload' := (homits.load_iff k hne).mpr hload
    have hk' : k < (image.retype index ptype).phnum := by rwa [homits.phnum_eq]
    have hsane := image.sane_of_checks hload (hreach.sane_at (Nat.lt_succ_self k))
    have hinside : a - (image.segment k).offset < (image.segment k).filesz := by omega
    have haddr := LoadSegment.mem_pages (hinside.trans_le hsane.filesz_le)
    have haddr' := haddr
    rw [← homits.segment_eq k hne] at haddr'
    -- Both runs stop with the bytes of this segment in memory.
    have hmem := mem_loadKernel hk hreach hload haddr
    have hmem' := mem_loadKernel hk' (homits.reaches hreach) hload' haddr'
    rw [homits.requests_eq fun _ hlt ↦ hpages (hreach.mono (by omega)), homits.segment_eq k hne,
      ← hsame] at hmem'
    have hbyte := hsane.byteAt_file hinside
    have hbyte' := (hsane.congr homits.length_eq).byteAt_file hinside
    rw [Nat.add_sub_cancel' hlow] at hbyte hbyte'
    rw [hbyte, hbyte', ← hmem, ← hmem']
  · have homits := Image.omits_retype hempty hretype hreach.passes
    have hreach' : (image.retype index ptype).Reaches (image.retype index ptype).phnum := by
      rw [homits.phnum_eq]
      exact homits.reaches hreach
    have haligned := homits.pageCount_eq_zero_iff.mp (hpages (hreach.mono homits.index_lt.le))
    refine (report_eq_iff homits haligned).mp ?_
    obtain ⟨s, hran⟩ := loadKernel_grantingAll hreach
    obtain ⟨s', hran'⟩ := loadKernel_grantingAll hreach'
    exact lift_inj (hran.symm.trans ((hsame grantingAll).trans hran'))

/-- The loader does the same on an image with an empty `PT_LOAD` segment and on the image where that
header has another type, for every firmware and every memory, exactly when the empty segment is
inert. -/
theorem loadKernel_retype_iff {ptype : ℕ} (hempty : image.IsEmptyLoad index)
    (hretype : image.Retypes index ptype) :
    (∀ (σ : Type) (allocator : PageAllocator σ) (s : LoaderState σ),
        loadKernel allocator image s = loadKernel allocator (image.retype index ptype) s) ↔
      image.Inert index ptype :=
  ⟨fun hsame ↦ inert_of_loadKernel_eq hempty hretype (hsame _ answering),
    fun hinert _ _ s ↦ loadKernel_eq_of_inert hempty hretype hinert s⟩

end Notice

/-! ### An image with an empty segment -/

/-- An image of 176 bytes with two `PT_LOAD` headers: eight bytes at `0x1000`, where it is entered,
and an empty segment at `0x2001`. -/
def spareImage : Image where
  bytes := [0x7f, 0x45, 0x4c, 0x46, 2, 1, 1, 0, 0, 0, 0, 0, 0, 0, 0, 0, 2, 0, 0x3e, 0, 1, 0, 0, 0,
    0, 0x10, 0, 0, 0, 0, 0, 0, 64, 0, 0, 0, 0, 0, 0, 0, 0, 0, 0, 0, 0, 0, 0, 0,
    0, 0, 0, 0, 64, 0, 56, 0, 2, 0, 0, 0, 0, 0, 0, 0,
    1, 0, 0, 0, 5, 0, 0, 0, 0, 0, 0, 0, 0, 0, 0, 0, 0, 0x10, 0, 0, 0, 0, 0, 0,
    0, 0x10, 0, 0, 0, 0, 0, 0, 4, 0, 0, 0, 0, 0, 0, 0, 8, 0, 0, 0, 0, 0, 0, 0,
    0, 0x10, 0, 0, 0, 0, 0, 0,
    1, 0, 0, 0, 6, 0, 0, 0, 0, 0, 0, 0, 0, 0, 0, 0, 1, 0x20, 0, 0, 0, 0, 0, 0,
    1, 0x20, 0, 0, 0, 0, 0, 0, 0, 0, 0, 0, 0, 0, 0, 0, 0, 0, 0, 0, 0, 0, 0, 0,
    0, 0x10, 0, 0, 0, 0, 0, 0]
  length_lt := by decide +kernel

theorem spareImage_isEmptyLoad : spareImage.IsEmptyLoad 1 where
  index_lt := by decide +kernel
  in_file := by decide +kernel
  load := by decide +kernel
  filesz_eq := by decide +kernel
  memsz_eq := by decide +kernel
  offset_le := by decide +kernel
  beside := ⟨0, by decide +kernel, Nat.zero_ne_one, by decide +kernel⟩

/-- The second header of the image lies behind the ELF header, so its type can be changed to zero.
-/
theorem spareImage_retypes : spareImage.Retypes 1 0 :=
  Image.retypes_of_le (by decide +kernel) (by decide) (by decide)

/-- On the image, the empty segment is noticed exactly when it is not inert. -/
theorem loadKernel_retype_iff_spareImage :
    (∀ (σ : Type) (allocator : PageAllocator σ) (s : LoaderState σ),
        loadKernel allocator spareImage s = loadKernel allocator (spareImage.retype 1 0) s) ↔
      spareImage.Inert 1 0 :=
  loadKernel_retype_iff spareImage_isEmptyLoad spareImage_retypes

/-- The firmware has page 1 free and no other. It refuses the page of the empty segment, and the
image is not loaded; without the empty segment it is. -/
theorem spareImage_refused : spareImage.IsEmptyLoad 1 ∧ spareImage.Retypes 1 0 ∧
    ¬ ∀ s : LoaderState (Finset ℕ), loadKernel freeListAllocator spareImage s =
      loadKernel freeListAllocator (spareImage.retype 1 0) s := by
  refine ⟨spareImage_isEmptyLoad, spareImage_retypes, fun hsame ↦ ?_⟩
  have hrefused : (loadKernel freeListAllocator spareImage).run' ⟨fun _ ↦ 0, {1}, []⟩ = none := by
    decide +kernel
  have hloaded : (loadKernel freeListAllocator (spareImage.retype 1 0)).run'
      ⟨fun _ ↦ 0, {1}, []⟩ = some ⟨0x1000, 0x1000, 0x1000⟩ := by
    decide +kernel
  obtain ⟨s', hok⟩ := ok_of_run' hloaded
  have hloadedToo := run'_of_ok ((hsame ⟨fun _ ↦ 0, {1}, []⟩).trans hok)
  rw [hrefused] at hloadedToo
  exact nomatch hloadedToo

end Elf

end RustBL
