import RustBL.Kernel.Heap.Canonical

/-!
# The heap in memory refines the heap on a list

`Segment m p blocks q` says that the headers in memory list `blocks` from the pointer `p` on, with
the last one linking to `q`, and `Chain m p blocks` that the list is null-terminated. Headers lie in
the first sixteen bytes of the blocks they describe, and blocks do not meet, so a write into one
block leaves the headers of all others alone (`Segment.of_sameOff`). That is the separation argument
behind every lemma here.

`loop_allocTurn` and `loop_seekTurn` are the two list walks, by induction on the part of the list
that is still ahead, with the part behind as a segment. `alloc_refines` and `dealloc_refines` put
them together: on a chain that satisfies `Placed` the operations in memory never fault, end within
one turn for each block and one more, compute the operations on lists, and write to free memory
only.
-/

set_option autoImplicit false
set_option relaxedAutoImplicit false

namespace RustBL

/-! ### Headers -/

namespace FreeBlock

theorem read_congr {m m' : Mem} {block : ℕ} (h : Mem.AgreeOn m m' block 16) :
    read m block = read m' block := by
  have hsize : m.load (sizeAt block) 8 = m'.load (sizeAt block) 8 :=
    Mem.load_congr (h.mono (le_refl _) (by simp only [sizeAt]; omega))
  have hnext : m.load (nextAt block) 8 = m'.load (nextAt block) 8 :=
    Mem.load_congr (h.mono (by simp only [nextAt]; omega) (by simp only [nextAt]; omega))
  rw [read, read, hsize, hnext]

theorem read_next_lt (m : Mem) (block : ℕ) : (read m block).next < 2 ^ 64 :=
  Mem.load_lt m (nextAt block) 8

theorem read_setSize {m : Mem} {block size : ℕ} (hsize : size < 2 ^ 64) :
    read (setSize m block size) block = ⟨size, (read m block).next⟩ := by
  unfold read setSize
  rw [Mem.load_store_of_lt (by simpa using hsize),
    Mem.load_store_of_disjoint (by simp only [sizeAt, nextAt]; omega)]

theorem read_setNext {m : Mem} {block next : ℕ} (hnext : next < 2 ^ 64) :
    read (setNext m block next) block = ⟨(read m block).size, next⟩ := by
  unfold read setNext
  rw [Mem.load_store_of_lt (by simpa using hnext),
    Mem.load_store_of_disjoint (by simp only [sizeAt, nextAt]; omega)]

theorem read_write {m : Mem} {block : ℕ} {header : FreeBlock} (hsize : header.size < 2 ^ 64)
    (hnext : header.next < 2 ^ 64) : read (write m block header) block = header := by
  rw [write, read_setNext hnext, read_setSize hsize]

/-- Every update of a header stays in its sixteen bytes. -/
theorem sameOff_setSize (m : Mem) (block size : ℕ) :
    Mem.SameOff (Set.Ico block (block + 16)) m (setSize m block size) :=
  (Mem.sameOff_store m _ 8 size).mono
    (Set.Ico_subset_Ico (by simp only [sizeAt]; omega) (by simp only [sizeAt]; omega))

theorem sameOff_setNext (m : Mem) (block next : ℕ) :
    Mem.SameOff (Set.Ico block (block + 16)) m (setNext m block next) :=
  (Mem.sameOff_store m _ 8 next).mono
    (Set.Ico_subset_Ico (by simp only [nextAt]; omega) (by simp only [nextAt]; omega))

theorem sameOff_write (m : Mem) (block : ℕ) (header : FreeBlock) :
    Mem.SameOff (Set.Ico block (block + 16)) m (write m block header) :=
  (sameOff_setSize m block header.size).trans (sameOff_setNext _ block header.next)

end FreeBlock

namespace Heap

/-! ### Lists of blocks in memory -/

/-- From the pointer `p` the headers in memory list `blocks`, and the last one links to `q`. -/
def Segment (m : Mem) : ℕ → List Span → ℕ → Prop
  | p, [], q => p = q
  | p, b :: rest, q =>
    p ≠ 0 ∧ p = b.start ∧ (FreeBlock.read m p).size = b.size ∧
      Segment m (FreeBlock.read m p).next rest q

/-- From the pointer `p` the headers in memory list `blocks`, and the list is null-terminated. -/
def Chain (m : Mem) (p : ℕ) (blocks : List Span) : Prop :=
  Segment m p blocks 0

/-- The pointer a list of blocks ends in: the start of its last block, or null. -/
def lastStart (blocks : List Span) : ℕ :=
  (blocks.getLast?.map Span.start).getD 0

/-- The pointer a list of blocks begins with: the start of its first block, or null. -/
def headStart (blocks : List Span) : ℕ :=
  (blocks.head?.map Span.start).getD 0

@[simp] theorem lastStart_nil : lastStart [] = 0 :=
  rfl

@[simp] theorem lastStart_concat (initial : List Span) (b : Span) :
    lastStart (initial ++ [b]) = b.start := by
  simp [lastStart]

/-- A list of blocks the heap can hold: separated, on the grid, off the null page and below
`2 ^ 63`. -/
structure Placed (blocks : List Span) : Prop where
  separated : Separated blocks
  onGrid : BlockList.OnGrid blocks
  bounds : ∀ b ∈ blocks, 0 < b.start ∧ b.stop ≤ 2 ^ 63

section Segment

variable {m m' : Mem} {p q : ℕ}

theorem segment_append {left right : List Span} :
    Segment m p (left ++ right) q ↔ ∃ r, Segment m p left r ∧ Segment m r right q := by
  induction left generalizing p with
  | nil => simp [Segment]
  | cons b rest ih =>
    simp only [List.cons_append, Segment, ih]
    constructor
    · rintro ⟨hp, hstart, hsize, r, hleft, hright⟩
      exact ⟨r, ⟨hp, hstart, hsize, hleft⟩, hright⟩
    · rintro ⟨r, ⟨hp, hstart, hsize, hleft⟩, hright⟩
      exact ⟨hp, hstart, hsize, r, hleft, hright⟩

/-- A list depends on the headers of its blocks only. -/
theorem Segment.congr {blocks : List Span}
    (hheaders : ∀ b ∈ blocks, Mem.AgreeOn m m' b.start 16) (h : Segment m p blocks q) :
    Segment m' p blocks q := by
  induction blocks generalizing p with
  | nil => exact h
  | cons b rest ih =>
    obtain ⟨hp, rfl, hsize, hrest⟩ := h
    have hread := FreeBlock.read_congr (hheaders b List.mem_cons_self)
    rw [hread] at hsize hrest
    exact ⟨hp, rfl, hsize, ih (fun c hc ↦ hheaders c (List.mem_cons_of_mem _ hc)) hrest⟩

/-- A write that misses the blocks of a list leaves the list alone. -/
theorem Segment.of_sameOff {blocks : List Span} {S : Set ℕ} (hsame : Mem.SameOff S m m')
    (hsize : ∀ b ∈ blocks, GRAIN ≤ b.size) (hmiss : ∀ b ∈ blocks, Disjoint b.bytes S)
    (h : Segment m p blocks q) : Segment m' p blocks q := by
  refine h.congr fun b hb ↦ hsame.agreeOn (Set.disjoint_of_subset_left ?_ (hmiss b hb))
  have hgrain := hsize b hb
  have hgrainEq : GRAIN = 16 := rfl
  exact Set.Ico_subset_Ico le_rfl (by simp only [Span.stop]; omega)

/-- A chain determines the blocks it lists. -/
theorem Chain.unique {left right : List Span} (hleft : Chain m p left) (hright : Chain m p right) :
    left = right := by
  induction left generalizing p right with
  | nil =>
    cases right with
    | nil => rfl
    | cons c rest => exact absurd hleft hright.1
  | cons b rest ih =>
    cases right with
    | nil => exact absurd hright hleft.1
    | cons c rest' =>
      obtain ⟨_, hb, hbSize, hbRest⟩ := hleft
      obtain ⟨_, hc, hcSize, hcRest⟩ := hright
      rw [ih hbRest hcRest, Span.ext (hb.symm.trans hc) (hbSize.symm.trans hcSize)]

/-- A chain starts with the address of its first block. -/
theorem Chain.head_eq {blocks : List Span} (h : Chain m p blocks) : p = headStart blocks := by
  cases blocks with
  | nil => exact h
  | cons b rest => exact h.2.1

end Segment

section Placed

variable {blocks left right : List Span}

theorem Placed.grain_le (h : Placed blocks) : ∀ b ∈ blocks, GRAIN ≤ b.size :=
  fun b hb ↦ Nat.le_of_dvd (h.separated.nonempty b hb) (h.onGrid b hb).2

theorem Placed.of_append_left (h : Placed (left ++ right)) : Placed left :=
  ⟨(separated_append.mp h.separated).1, (BlockList.onGrid_append.mp h.onGrid).1,
    fun b hb ↦ h.bounds b (List.mem_append_left _ hb)⟩

theorem Placed.of_append_right (h : Placed (left ++ right)) : Placed right :=
  ⟨(separated_append.mp h.separated).2.1, (BlockList.onGrid_append.mp h.onGrid).2,
    fun b hb ↦ h.bounds b (List.mem_append_right _ hb)⟩

/-- The blocks of two parts of a list do not meet. -/
theorem Placed.disjoint (h : Placed (left ++ right)) {b c : Span} (hb : b ∈ left)
    (hc : c ∈ right) : Disjoint b.bytes c.bytes :=
  Span.Apart.disjoint (Or.inl ((separated_append.mp h.separated).2.2 b hb c hc).le)

theorem Placed.disjoint_cover (h : Placed (left ++ right)) {c : Span} (hc : c ∈ right) :
    Disjoint c.bytes (cover left) := by
  rw [Set.disjoint_right]
  rintro a ⟨b, hb, ha⟩ hin
  exact Set.disjoint_left.mp (h.disjoint hb hc) ha hin

end Placed

/-- Linking `target` behind the blocks before the cursor replaces where they lead. Only the header
of the last of them is written. -/
theorem link_spec {heap : Heap} {m : Mem} {before : List Span} {cur : ℕ} (target : ℕ)
    (hplaced : Placed before) (hbefore : Segment m heap.head before cur)
    (htarget : target < 2 ^ 64) :
    Segment (link heap m (lastStart before) target).2 (link heap m (lastStart before) target).1.head
        before target ∧
      Mem.SameOff (cover before) m (link heap m (lastStart before) target).2 := by
  rcases List.eq_nil_or_concat before with rfl | ⟨initial, prev, rfl⟩
  · exact ⟨rfl, Mem.SameOff.refl _ _⟩
  · rw [List.concat_eq_append] at *
    have hprev : prev ∈ initial ++ [prev] := List.mem_append_right _ List.mem_cons_self
    have hpos := (hplaced.bounds prev hprev).1
    have hgrain := hplaced.grain_le prev hprev
    have hgrainEq : GRAIN = 16 := rfl
    have hwrite := FreeBlock.sameOff_setNext m prev.start target
    have hheader : Set.Ico prev.start (prev.start + 16) ⊆ prev.bytes :=
      Set.Ico_subset_Ico le_rfl (by simp only [Span.stop]; omega)
    rw [lastStart_concat, link, if_neg hpos.ne']
    obtain ⟨r, hinitial, hp, rfl, hsize, _⟩ := segment_append.mp hbefore
    refine ⟨segment_append.mpr ⟨prev.start, ?_, hp, rfl, ?_, ?_⟩, ?_⟩
    · refine hinitial.of_sameOff hwrite hplaced.of_append_left.grain_le fun b hb ↦ ?_
      exact Set.disjoint_of_subset_right hheader (hplaced.disjoint hb List.mem_cons_self)
    · rw [FreeBlock.read_setNext htarget]
      exact hsize
    · rw [FreeBlock.read_setNext htarget]
      exact rfl
    · exact hwrite.mono (hheader.trans (bytes_subset_cover hprev))

/-! ### Allocation -/

section Alloc

variable {heap : Heap} {m : Mem} {size align : ℕ}

/-- What follows the payload after a carve: the tail block, when there is one, in front of the
blocks that followed the carved one. Only the tail is written. -/
theorem keepTail_spec {b : Span} {p next : ℕ} {rest : List Span}
    (hplaced : Placed ([b] ++ rest)) (hcarving : BlockList.Carving b p size)
    (hnext : next < 2 ^ 64) (hrest : Chain m next rest) :
    ∃ remainder m', keepTail m p size (b.size - (p - b.start) - size) next = .ok (remainder, m') ∧
      remainder < 2 ^ 64 ∧
      Chain m' remainder
        ((if GRAIN ≤ b.size - (p - b.start) - size then
          [⟨p + size, b.size - (p - b.start) - size⟩] else []) ++ rest) ∧
      Mem.SameOff (Set.Ico (p + size) b.stop) m m' := by
  have hb : b ∈ [b] ++ rest := List.mem_append_left _ List.mem_cons_self
  obtain ⟨hpos, hstop⟩ := hplaced.bounds b hb
  have hstart := hcarving.start_le
  have hend := hcarving.stop_le
  have hgrainEq : GRAIN = 16 := rfl
  unfold keepTail
  split_ifs with htail
  · have htailStop : p + size + (b.size - (p - b.start) - size) = b.stop := by
      simp only [Span.stop] at hend ⊢
      omega
    have hwrite := FreeBlock.sameOff_write m (p + size) ⟨b.size - (p - b.start) - size, next⟩
    have hheader : Set.Ico (p + size) (p + size + 16) ⊆ Set.Ico (p + size) b.stop :=
      Set.Ico_subset_Ico le_rfl (by omega)
    have hfits : b.size - (p - b.start) - size < 2 ^ 64 := by omega
    refine ⟨p + size, _, by rw [Word.add_eq (by omega), ok_bind, pure_eq_ok], by omega, ?_,
      hwrite.mono hheader⟩
    refine ⟨by omega, rfl, by rw [FreeBlock.read_write hfits hnext], ?_⟩
    rw [FreeBlock.read_write hfits hnext]
    refine hrest.of_sameOff hwrite hplaced.of_append_right.grain_le fun c hc ↦ ?_
    refine Set.disjoint_of_subset_right (hheader.trans ?_)
      (hplaced.disjoint List.mem_cons_self hc).symm
    exact Set.Ico_subset_Ico (by omega) le_rfl
  · exact ⟨next, m, rfl, hnext, hrest, Mem.SameOff.refl _ _⟩

/-- A turn at a block that does not fit moves on to the next block. -/
theorem allocTurn_not_fits (heap : Heap) {b : Span} (prev : ℕ) (hpos : 0 < b.start)
    (hstop : b.stop ≤ 2 ^ 63) (hnorm : Normalised size align)
    (hsize : (FreeBlock.read m b.start).size = b.size)
    (hfits : ¬ BlockList.Fits size align b) :
    allocTurn heap m size align (prev, b.start) =
      .ok (.again (b.start, (FreeBlock.read m b.start).next)) := by
  have hgrainEq : GRAIN = 16 := rfl
  have hbound := hnorm.bound
  have hgrain := hnorm.grain_le
  have hround := roundUp_lt b.start hnorm.align_pos
  have hle := le_roundUp b.start align
  simp only [Span.stop] at hstop
  unfold BlockList.Fits at hfits
  rw [allocTurn, if_neg hpos.ne']
  simp only
  rw [Word.nextMultipleOf_eq (by omega), ok_bind, Word.sub_eq hle, ok_bind,
    Word.add_eq (by omega), ok_bind, hsize, if_neg hfits]
  rfl

/-- A turn at a block that fits keeps the tail, and then either shrinks the block to its front or
links what follows behind the block before. -/
theorem allocTurn_carves {b : Span} {prev remainder : ℕ} {m₁ : Mem} (hpos : 0 < b.start)
    (hstop : b.stop ≤ 2 ^ 63) (hnorm : Normalised size align)
    (hsize : (FreeBlock.read m b.start).size = b.size) (hfits : BlockList.Fits size align b)
    (hkeep : keepTail m (roundUp b.start align) size
      (b.size - (roundUp b.start align - b.start) - size) (FreeBlock.read m b.start).next =
        .ok (remainder, m₁)) :
    allocTurn heap m size align (prev, b.start) =
      if GRAIN ≤ roundUp b.start align - b.start then
        .ok (.done (roundUp b.start align, heap,
          FreeBlock.write m₁ b.start ⟨roundUp b.start align - b.start, remainder⟩))
      else .ok (.done (roundUp b.start align, link heap m₁ prev remainder)) := by
  have hgrainEq : GRAIN = 16 := rfl
  have hbound := hnorm.bound
  have hgrain := hnorm.grain_le
  have hround := roundUp_lt b.start hnorm.align_pos
  have hle := le_roundUp b.start align
  have hbStop : b.stop = b.start + b.size := rfl
  unfold BlockList.Fits at hfits
  rw [allocTurn, if_neg hpos.ne']
  simp only
  rw [Word.nextMultipleOf_eq (by omega), ok_bind, Word.sub_eq hle, ok_bind,
    Word.add_eq (by omega), ok_bind, hsize, if_pos hfits, Word.sub_eq (by omega), ok_bind,
    Word.sub_eq (by omega), ok_bind, hkeep, ok_bind]
  rfl

/-- The blocks behind the payload are large enough for a header, and clear of everything before the
payload. -/
theorem behind_payload {before rest : List Span} {b : Span} {p : ℕ}
    (hplaced : Placed (before ++ b :: rest)) (hcarving : BlockList.Carving b p size) :
    ∀ c ∈ (if GRAIN ≤ b.size - (p - b.start) - size then
        [(⟨p + size, b.size - (p - b.start) - size⟩ : Span)] else []) ++ rest,
      GRAIN ≤ c.size ∧ Disjoint c.bytes (cover before ∪ Set.Ico b.start p) := by
  have hplacedRest : Placed ([b] ++ rest) := hplaced.of_append_right
  have hstart := hcarving.start_le
  have hend := hcarving.stop_le
  have hbStop : b.stop = b.start + b.size := rfl
  intro c hc
  rw [Set.disjoint_union_right]
  rcases List.mem_append.mp hc with htail | hrest
  · split_ifs at htail with hlarge
    · obtain rfl := List.mem_singleton.mp htail
      refine ⟨hlarge, ?_, ?_⟩
      · refine Set.disjoint_of_subset_left ?_ (hplaced.disjoint_cover List.mem_cons_self)
        exact Span.subset_of_bounds (by simp only; omega) (by simp only [Span.stop_mk]; omega)
      · rw [Set.disjoint_left]
        rintro a ⟨hlow, _⟩ ⟨_, hhigh⟩
        simp only at hlow
        omega
    · exact absurd htail List.not_mem_nil
  · refine ⟨hplacedRest.of_append_right.grain_le c hrest,
      hplaced.disjoint_cover (List.mem_cons_of_mem _ hrest), ?_⟩
    refine Set.disjoint_of_subset_right ?_ (hplacedRest.disjoint List.mem_cons_self hrest).symm
    exact Set.Ico_subset_Ico le_rfl (by omega)

/-- Shrinking a block to its front keeps the blocks before it and puts the front ahead of what
follows. Only the header of the block is written. -/
theorem shrink_spec {before behind : List Span} {start front remainder : ℕ}
    (hpos : 0 < start) (hfront : GRAIN ≤ front) (hfits : front < 2 ^ 64)
    (hremainder : remainder < 2 ^ 64) (hbefore : Segment m heap.head before start)
    (hlarge : ∀ c ∈ before, GRAIN ≤ c.size)
    (hclear : ∀ c ∈ before, Disjoint c.bytes (Set.Ico start (start + front)))
    (hchain : Chain m remainder behind)
    (hbehind : ∀ c ∈ behind, GRAIN ≤ c.size ∧ Disjoint c.bytes (Set.Ico start (start + front))) :
    Chain (FreeBlock.write m start ⟨front, remainder⟩) heap.head
        (before ++ ⟨start, front⟩ :: behind) ∧
      Mem.SameOff (Set.Ico start (start + front)) m
        (FreeBlock.write m start ⟨front, remainder⟩) := by
  have hheader : Set.Ico start (start + 16) ⊆ Set.Ico start (start + front) :=
    Set.Ico_subset_Ico le_rfl (Nat.add_le_add_left hfront start)
  have hwrite : Mem.SameOff (Set.Ico start (start + front)) m
      (FreeBlock.write m start ⟨front, remainder⟩) :=
    (FreeBlock.sameOff_write m start ⟨front, remainder⟩).mono hheader
  have hread : FreeBlock.read (FreeBlock.write m start ⟨front, remainder⟩) start =
      ⟨front, remainder⟩ := FreeBlock.read_write hfits hremainder
  refine ⟨segment_append.mpr ⟨start, hbefore.of_sameOff hwrite hlarge hclear, ?_⟩, hwrite⟩
  refine ⟨hpos.ne', rfl, congrArg FreeBlock.size hread, ?_⟩
  rw [hread]
  exact hchain.of_sameOff hwrite (fun c hc ↦ (hbehind c hc).1) fun c hc ↦ (hbehind c hc).2

/-- A turn at a block that fits leaves the loop with the first aligned address in the block. The
list in memory is then the list without the payload, and only free memory was written. -/
theorem allocTurn_fits {before rest : List Span} {b : Span}
    (hplaced : Placed (before ++ b :: rest)) (hnorm : Normalised size align)
    (hbefore : Segment m heap.head before b.start)
    (hsize : (FreeBlock.read m b.start).size = b.size)
    (hrest : Chain m (FreeBlock.read m b.start).next rest) (hfits : BlockList.Fits size align b) :
    ∃ heap' m', allocTurn heap m size align (lastStart before, b.start) =
        .ok (.done (roundUp b.start align, heap', m')) ∧
      Chain m' heap'.head
        (before ++ (BlockList.carve b (roundUp b.start align) size ++ rest)) ∧
      Mem.SameOff (cover (before ++ b :: rest)) m m' := by
  have hb : b ∈ before ++ b :: rest := List.mem_append_right _ List.mem_cons_self
  obtain ⟨hpos, hstop⟩ := hplaced.bounds b hb
  obtain ⟨hgridStart, hgridSize⟩ := hplaced.onGrid b hb
  have hcarving := BlockList.carving_of_fits hnorm hgridStart hgridSize hfits
  have hstart := hcarving.start_le
  have hend := hcarving.stop_le
  have hcover : b.bytes ⊆ cover (before ++ b :: rest) := bytes_subset_cover hb
  obtain ⟨remainder, m₁, hkeep, hremainder, hchain, hsame⟩ :=
    keepTail_spec hplaced.of_append_right hcarving (FreeBlock.read_next_lt m b.start) hrest
  have hinside : Set.Ico (roundUp b.start align + size) b.stop ⊆ b.bytes :=
    Set.Ico_subset_Ico (by omega) le_rfl
  -- The tail is written inside `b`, so the list up to `b` is unchanged.
  have hlargeBefore := hplaced.of_append_left.grain_le
  have hbefore₁ : Segment m₁ heap.head before b.start :=
    hbefore.of_sameOff (hsame.mono hinside) hlargeBefore
      fun c hc ↦ hplaced.disjoint hc List.mem_cons_self
  have hbehind := behind_payload hplaced hcarving
  rw [allocTurn_carves hpos hstop hnorm hsize hfits hkeep]
  simp only [BlockList.carve]
  by_cases hfront : GRAIN ≤ roundUp b.start align - b.start
  · have hfrontIco : Set.Ico b.start (b.start + (roundUp b.start align - b.start)) =
        Set.Ico b.start (roundUp b.start align) := by
      rw [Nat.add_sub_cancel' hstart]
    have hfrontIn : Set.Ico b.start (b.start + (roundUp b.start align - b.start)) ⊆ b.bytes :=
      Set.Ico_subset_Ico le_rfl (by omega)
    obtain ⟨hlist, hwrite⟩ := shrink_spec hpos hfront (by omega) hremainder hbefore₁ hlargeBefore
      (fun c hc ↦ Set.disjoint_of_subset_right hfrontIn (hplaced.disjoint hc List.mem_cons_self))
      hchain fun c hc ↦ ⟨(hbehind c hc).1, Set.disjoint_of_subset_right
        (hfrontIco ▸ Set.subset_union_right) (hbehind c hc).2⟩
    rw [if_pos hfront, if_pos hfront]
    exact ⟨heap, _, rfl, hlist,
      (hsame.mono (hinside.trans hcover)).trans (hwrite.mono (hfrontIn.trans hcover))⟩
  · obtain ⟨hseg, hlink⟩ := link_spec remainder hplaced.of_append_left hbefore₁ hremainder
    rw [if_neg hfront, if_neg hfront]
    refine ⟨_, _, rfl, segment_append.mpr ⟨remainder, hseg, ?_⟩, ?_⟩
    · exact hchain.of_sameOff hlink (fun c hc ↦ (hbehind c hc).1) fun c hc ↦
        Set.disjoint_of_subset_right Set.subset_union_left (hbehind c hc).2
    · refine (hsame.mono (hinside.trans hcover)).trans (hlink.mono ?_)
      rw [cover_append]
      exact Set.subset_union_left

/-- The walk of `Heap::alloc` over the blocks ahead, with the blocks it has passed as a segment.
With one turn for each block and one more it ends, either at null after the last block or with the
carve of the first block that fits. -/
theorem loop_allocTurn (before : List Span) {blocks : List Span} {cur fuel : ℕ}
    (hplaced : Placed (before ++ blocks)) (hnorm : Normalised size align)
    (hbefore : Segment m heap.head before cur) (hblocks : Chain m cur blocks)
    (hfuel : blocks.length < fuel) :
    (BlockList.alloc size align blocks = none →
      loop (allocTurn heap m size align) fuel (lastStart before, cur) = .ok (0, heap, m)) ∧
    ∀ p blocks', BlockList.alloc size align blocks = some (p, blocks') →
      ∃ heap' m', loop (allocTurn heap m size align) fuel (lastStart before, cur) =
          .ok (p, heap', m') ∧
        Chain m' heap'.head (before ++ blocks') ∧
        Mem.SameOff (cover (before ++ blocks)) m m' := by
  induction blocks generalizing before cur fuel with
  | nil =>
    obtain ⟨turns, rfl⟩ : ∃ turns, fuel = turns + 1 := ⟨fuel - 1, by simp at hfuel; omega⟩
    obtain rfl : cur = 0 := hblocks
    refine ⟨fun _ ↦ loop_done _ rfl, fun p blocks' h ↦ ?_⟩
    simp [BlockList.alloc] at h
  | cons b rest ih =>
    obtain ⟨turns, rfl⟩ : ∃ turns, fuel = turns + 1 := ⟨fuel - 1, by omega⟩
    obtain ⟨hcur, rfl, hsize, hrest⟩ := hblocks
    have hb : b ∈ before ++ b :: rest := List.mem_append_right _ List.mem_cons_self
    obtain ⟨hpos, hstop⟩ := hplaced.bounds b hb
    rw [BlockList.alloc]
    by_cases hfits : BlockList.Fits size align b
    · obtain ⟨heap', m', hturn, hchain, hsame⟩ :=
        allocTurn_fits hplaced hnorm hbefore hsize hrest hfits
      rw [if_pos hfits]
      refine ⟨fun h ↦ absurd h (Option.some_ne_none _), fun p blocks' h ↦ ?_⟩
      obtain ⟨rfl, rfl⟩ := Prod.mk.inj (Option.some.inj h)
      exact ⟨heap', m', loop_done _ hturn, hchain, hsame⟩
    · have hturn := allocTurn_not_fits heap (lastStart before) hpos hstop hnorm hsize hfits
      have hsplit : before ++ b :: rest = (before ++ [b]) ++ rest := by simp
      have hsegment : Segment m heap.head (before ++ [b]) (FreeBlock.read m b.start).next :=
        segment_append.mpr ⟨b.start, hbefore, hcur, rfl, hsize, rfl⟩
      rw [hsplit] at hplaced ⊢
      obtain ⟨hnone, hsome⟩ := ih _ hplaced hsegment hrest (Nat.lt_of_succ_lt_succ hfuel)
      rw [lastStart_concat] at hnone hsome
      rw [loop_again turns hturn, if_neg hfits]
      refine ⟨fun h ↦ hnone (Option.map_eq_none_iff.mp h), fun p blocks' h ↦ ?_⟩
      obtain ⟨⟨p', found⟩, halloc, heq⟩ := Option.map_eq_some_iff.mp h
      obtain ⟨rfl, rfl⟩ := Prod.mk.inj heq
      obtain ⟨heap', m', hloop, hchain, hsame⟩ := hsome _ _ halloc
      exact ⟨heap', m', hloop, by simpa using hchain, hsame⟩

/-- `Heap::alloc` in memory computes `alloc` on the list, with one turn for each block and one more,
and writes to free memory only. -/
theorem alloc_refines {blocks : List Span} {fuel : ℕ} (layout : Layout)
    (hplaced : Placed blocks) (hchain : Chain m heap.head blocks) (hfuel : blocks.length < fuel) :
    (BlockList.alloc layout.blockSize layout.blockAlign blocks = none →
      alloc fuel heap m layout = .ok (0, heap, m)) ∧
    ∀ p blocks', BlockList.alloc layout.blockSize layout.blockAlign blocks = some (p, blocks') →
      ∃ heap' m', alloc fuel heap m layout = .ok (p, heap', m') ∧ Chain m' heap'.head blocks' ∧
        Mem.SameOff (cover blocks) m m' := by
  have hbefore : Segment m heap.head [] heap.head := rfl
  have hloop := loop_allocTurn [] hplaced layout.normalised hbefore hchain hfuel
  have halloc : alloc fuel heap m layout =
      loop (allocTurn heap m layout.blockSize layout.blockAlign) fuel (0, heap.head) := by
    rw [alloc, normalise_eq, ok_bind]
  rw [halloc]
  exact hloop

end Alloc

/-! ### Deallocation -/

section Dealloc

variable {heap : Heap} {m : Mem} {start size : ℕ} {before after next : List Span}

/-- The walk of `Heap::dealloc` passes the blocks below `start`, with one turn for each and one
more. -/
theorem loop_seekTurn (start : ℕ) (before : List Span) {blocks : List Span} {cur fuel : ℕ}
    (hblocks : Chain m cur blocks) (hfuel : blocks.length < fuel) :
    loop (seekTurn m start) fuel (lastStart before, cur) =
      .ok (lastStart (before ++ blocks.takeWhile (·.start < start)),
        headStart (blocks.dropWhile (·.start < start))) := by
  induction blocks generalizing before cur fuel with
  | nil =>
    obtain ⟨turns, rfl⟩ : ∃ turns, fuel = turns + 1 := ⟨fuel - 1, by simp at hfuel; omega⟩
    obtain rfl : cur = 0 := hblocks
    rw [List.takeWhile_nil, List.append_nil]
    exact loop_done _ rfl
  | cons b rest ih =>
    obtain ⟨turns, rfl⟩ : ∃ turns, fuel = turns + 1 := ⟨fuel - 1, by omega⟩
    obtain ⟨hcur, rfl, _, hrest⟩ := hblocks
    by_cases hlt : b.start < start
    · have hturn : seekTurn m start (lastStart before, b.start) =
          .ok (.again (lastStart (before ++ [b]), (FreeBlock.read m b.start).next)) := by
        rw [seekTurn, if_pos ⟨hcur, hlt⟩, lastStart_concat]
        rfl
      rw [loop_again turns hturn, ih _ hrest (Nat.lt_of_succ_lt_succ hfuel),
        List.takeWhile_cons_of_pos (by simpa using hlt),
        List.dropWhile_cons_of_pos (by simpa using hlt), List.append_assoc, List.singleton_append]
    · have hturn : seekTurn m start (lastStart before, b.start) =
          .ok (.done (lastStart before, b.start)) := by
        rw [seekTurn, if_neg fun h ↦ hlt h.2]
        rfl
      rw [loop_done turns hturn, List.takeWhile_cons_of_neg (by simpa using hlt),
        List.dropWhile_cons_of_neg (by simpa using hlt), List.append_nil]
      rfl

/-- The forward merge in memory computes the forward merge on the list. -/
theorem mergeForward_refines {cur : ℕ} (hplaced : Placed after) (hafter : Chain m cur after)
    (hstop : start + size ≤ 2 ^ 63) :
    ∃ link, mergeForward m start size cur =
        .ok ((BlockList.mergeForward start size after).1, link) ∧
      Chain m link (BlockList.mergeForward start size after).2 ∧
      start + (BlockList.mergeForward start size after).1 ≤ 2 ^ 63 ∧
      (BlockList.mergeForward start size after).2 ⊆ after := by
  cases after with
  | nil =>
    obtain rfl : cur = 0 := hafter
    exact ⟨0, rfl, rfl, hstop, fun _ hc ↦ hc⟩
  | cons b rest =>
    have hchain := hafter
    obtain ⟨hcur, rfl, hsize, hrest⟩ := hafter
    obtain ⟨_, hb⟩ := hplaced.bounds b List.mem_cons_self
    simp only [Span.stop] at hb
    rw [mergeForward, if_neg hcur, Word.add_eq (by omega), ok_bind, BlockList.mergeForward]
    split_ifs with htouch
    · refine ⟨(FreeBlock.read m b.start).next, ?_, hrest, by simp only; omega,
        List.subset_cons_self _ _⟩
      simp only
      rw [hsize, Word.add_eq (by omega), ok_bind]
      rfl
    · exact ⟨b.start, rfl, hchain, hstop, fun _ hc ↦ hc⟩

/-- Inserting a block behind the blocks below it, in front of the blocks above it. -/
theorem insert_refines {cur link : ℕ} (hplaced : Placed before)
    (hbefore : Segment m heap.head before cur) (hnext : Chain m link next)
    (hgrain : ∀ c ∈ next, GRAIN ≤ c.size) (hlink : link < 2 ^ 64) (hpos : 0 < start)
    (hsize : GRAIN ≤ size) (hstop : start + size ≤ 2 ^ 63) (hlow : ∀ c ∈ before, c.stop ≤ start)
    (hhigh : ∀ c ∈ next, start + size < c.start) :
    Chain (insert heap m (lastStart before) start size link).2
        (insert heap m (lastStart before) start size link).1.head
        (before ++ ⟨start, size⟩ :: next) ∧
      Mem.SameOff (cover before ∪ (Span.mk start size).bytes) m
        (insert heap m (lastStart before) start size link).2 := by
  have hgrainEq : GRAIN = 16 := rfl
  have hwrite := FreeBlock.sameOff_write m start ⟨size, link⟩
  have hheader : Set.Ico start (start + 16) ⊆ (Span.mk start size).bytes :=
    Set.Ico_subset_Ico le_rfl (by simp only [Span.stop_mk]; omega)
  have hread : FreeBlock.read (FreeBlock.write m start ⟨size, link⟩) start = ⟨size, link⟩ :=
    FreeBlock.read_write (by simp only; omega) hlink
  have hbeforeMiss : ∀ c ∈ before, Disjoint c.bytes (Span.mk start size).bytes :=
    fun c hc ↦ Span.Apart.disjoint (Or.inl (hlow c hc))
  have hnextMiss : ∀ c ∈ next, Disjoint c.bytes (Span.mk start size).bytes :=
    fun c hc ↦ Span.Apart.disjoint (Or.inr (hhigh c hc).le)
  have hcoverMiss : ∀ c : Span, start ≤ c.start → Disjoint c.bytes (cover before) := by
    intro c hc
    rw [Set.disjoint_right]
    rintro a ⟨d, hd, ha⟩ hin
    have := hlow d hd
    rw [Span.mem_bytes] at ha hin
    omega
  have hbefore₁ : Segment (FreeBlock.write m start ⟨size, link⟩) heap.head before cur :=
    hbefore.of_sameOff hwrite hplaced.grain_le fun c hc ↦
      Set.disjoint_of_subset_right hheader (hbeforeMiss c hc)
  obtain ⟨hsegment, hsame⟩ := link_spec start hplaced hbefore₁ (by omega)
  refine ⟨segment_append.mpr ⟨start, hsegment, ?_⟩, ?_⟩
  · -- The new block and what follows it are written before the link and lie above it.
    have hchain : Chain (FreeBlock.write m start ⟨size, link⟩) start (⟨start, size⟩ :: next) := by
      refine ⟨hpos.ne', rfl, congrArg FreeBlock.size hread, ?_⟩
      rw [hread]
      exact hnext.of_sameOff hwrite hgrain fun c hc ↦
        Set.disjoint_of_subset_right hheader (hnextMiss c hc)
    refine hchain.of_sameOff hsame (List.forall_mem_cons.mpr ⟨hsize, hgrain⟩) ?_
    refine List.forall_mem_cons.mpr ⟨hcoverMiss _ le_rfl, fun c hc ↦ hcoverMiss c ?_⟩
    have := hhigh c hc
    omega
  · exact (hwrite.mono (hheader.trans Set.subset_union_right)).trans
      (hsame.mono Set.subset_union_left)

/-- The backward merge in memory computes the backward merge on the list. -/
theorem mergeBackward_refines {cur link : ℕ} (hplaced : Placed before)
    (hbefore : Segment m heap.head before cur) (hnext : Chain m link next)
    (hgrain : ∀ c ∈ next, GRAIN ≤ c.size) (hlink : link < 2 ^ 64) (hpos : 0 < start)
    (hsize : GRAIN ≤ size) (hstop : start + size ≤ 2 ^ 63) (hlow : ∀ c ∈ before, c.stop ≤ start)
    (hhigh : ∀ c ∈ next, start + size < c.start) :
    ∃ heap' m', mergeBackward heap m (lastStart before) start size link = .ok (heap', m') ∧
      Chain m' heap'.head (BlockList.mergeBackward before start size next) ∧
      Mem.SameOff (cover before ∪ (Span.mk start size).bytes) m m' := by
  have hinsert := insert_refines hplaced hbefore hnext hgrain hlink hpos hsize hstop hlow hhigh
  rcases List.eq_nil_or_concat before with rfl | ⟨initial, prev, rfl⟩
  · exact ⟨_, _, rfl, hinsert⟩
  · rw [List.concat_eq_append] at *
    have hprev : prev ∈ initial ++ [prev] := List.mem_append_right _ List.mem_cons_self
    obtain ⟨hprevPos, hprevStop⟩ := hplaced.bounds prev hprev
    have hprevGrain := hplaced.grain_le prev hprev
    have hprevLow := hlow prev hprev
    obtain ⟨r, hinitial, hp, rfl, hprevSize, _⟩ := segment_append.mp hbefore
    have hgrainEq : GRAIN = 16 := rfl
    simp only [Span.stop] at hprevStop hprevLow
    rw [lastStart_concat] at hinsert ⊢
    simp only [mergeBackward, BlockList.mergeBackward, List.getLast?_concat, List.dropLast_concat,
      if_neg hp, hprevSize]
    rw [Word.add_eq (by omega), ok_bind]
    split_ifs with htouch
    · have hheader : Set.Ico prev.start (prev.start + 16) ⊆ prev.bytes :=
        Set.Ico_subset_Ico le_rfl (by simp only [Span.stop]; omega)
      have hwrite := FreeBlock.sameOff_write m prev.start ⟨prev.size + size, link⟩
      have hread : FreeBlock.read (FreeBlock.write m prev.start ⟨prev.size + size, link⟩)
          prev.start = ⟨prev.size + size, link⟩ :=
        FreeBlock.read_write (by simp only; omega) hlink
      rw [Word.add_eq (by omega), ok_bind]
      refine ⟨heap, FreeBlock.write m prev.start ⟨prev.size + size, link⟩, rfl,
        segment_append.mpr ⟨prev.start, ?_, hp, rfl, congrArg FreeBlock.size hread, ?_⟩, ?_⟩
      · exact hinitial.of_sameOff hwrite hplaced.of_append_left.grain_le fun c hc ↦
          Set.disjoint_of_subset_right hheader (hplaced.disjoint hc List.mem_cons_self)
      · rw [hread]
        refine hnext.of_sameOff hwrite hgrain fun c hc ↦ ?_
        refine Set.disjoint_of_subset_right hheader (Span.Apart.disjoint (Or.inr ?_))
        have := hhigh c hc
        simp only [Span.stop]
        omega
      · exact hwrite.mono
          ((hheader.trans (bytes_subset_cover hprev)).trans Set.subset_union_left)
    · exact ⟨_, _, rfl, hinsert⟩

/-- `Heap::dealloc` in memory computes `dealloc` on the list, with one turn for each block and one
more, and writes to free memory and to the returned block only. -/
theorem dealloc_refines {blocks : List Span} {fuel : ℕ} {ptr : ℕ} (layout : Layout)
    (hplaced : Placed blocks) (hchain : Chain m heap.head blocks) (hfuel : blocks.length < fuel)
    (hptr : 0 < ptr) (hstop : ptr + layout.blockSize ≤ 2 ^ 63)
    (hapart : ∀ c ∈ blocks, Span.Apart c ⟨ptr, layout.blockSize⟩) :
    ∃ heap' m', dealloc fuel heap m ptr layout = .ok (heap', m') ∧
      Chain m' heap'.head (BlockList.dealloc ptr layout.blockSize blocks) ∧
      Mem.SameOff (cover blocks ∪ (Span.mk ptr layout.blockSize).bytes) m m' := by
  have hseek := loop_seekTurn ptr [] hchain hfuel
  have hbounds := BlockList.before_after_bounds hplaced.separated hapart
  have hsplit : blocks.takeWhile (·.start < ptr) ++ blocks.dropWhile (·.start < ptr) = blocks :=
    List.takeWhile_append_dropWhile
  unfold BlockList.dealloc
  generalize blocks.takeWhile (·.start < ptr) = before at hbounds hsplit hseek ⊢
  generalize blocks.dropWhile (·.start < ptr) = after at hbounds hsplit hseek ⊢
  subst hsplit
  obtain ⟨hlow, hhigh⟩ := hbounds
  obtain ⟨cur, hbefore, hafter⟩ := segment_append.mp hchain
  have hafterChain : Chain m cur after := hafter
  have hcur : cur = headStart after := hafterChain.head_eq
  have hplacedAfter := hplaced.of_append_right
  have hnorm := layout.normalised
  obtain ⟨hsepNext, hgridNext, hposNext, hdvdNext, hgapNext, hcoverNext, _⟩ :=
    BlockList.mergeForward_spec hnorm.size_pos hnorm.size_dvd hplacedAfter.separated
      hplacedAfter.onGrid hhigh
  obtain ⟨link, hforward, hnext, hstopNext, hsubset⟩ :=
    mergeForward_refines hplacedAfter hafterChain hstop
  have hlink : link < 2 ^ 64 := by
    rw [hnext.head_eq, headStart]
    cases hhead : (BlockList.mergeForward ptr layout.blockSize after).2 with
    | nil => simp
    | cons c rest =>
      have hc := (hplacedAfter.bounds c (hsubset (by rw [hhead]; exact List.mem_cons_self))).2
      simp only [Span.stop] at hc
      simp only [List.head?_cons, Option.map_some, Option.getD_some]
      omega
  obtain ⟨heap', m', hbackward, hresult, hsame⟩ :=
    mergeBackward_refines hplaced.of_append_left hbefore hnext
      (fun c hc ↦ hplacedAfter.grain_le c (hsubset hc)) hlink hptr
      (Nat.le_of_dvd hposNext hdvdNext) hstopNext hlow hgapNext
  refine ⟨heap', m', ?_, hresult, hsame.mono ?_⟩
  · rw [dealloc, normalise_eq, ok_bind]
    simp only
    rw [lastStart_nil, List.nil_append] at hseek
    rw [hseek, ok_bind]
    simp only
    rw [← hcur, hforward, ok_bind]
    exact hbackward
  · rw [cover_append, Set.union_assoc, Set.union_comm (cover after), ← hcoverNext]
    exact Set.union_subset_union_right _ Set.subset_union_left

end Dealloc

/-! ### Budgets -/

/-- The outcome of an `alloc` does not depend on the budget. -/
theorem alloc_unique {heap : Heap} {m : Mem} {layout : Layout} {fuel fuel' : ℕ}
    {left right : ℕ × Heap × Mem} (hleft : alloc fuel heap m layout = .ok left)
    (hright : alloc fuel' heap m layout = .ok right) : left = right := by
  rw [alloc, normalise_eq, ok_bind] at hleft hright
  exact loop_unique hleft hright

/-- The outcome of a `dealloc` does not depend on the budget. -/
theorem dealloc_unique {heap : Heap} {m : Mem} {layout : Layout} {ptr fuel fuel' : ℕ}
    {left right : Heap × Mem} (hleft : dealloc fuel heap m ptr layout = .ok left)
    (hright : dealloc fuel' heap m ptr layout = .ok right) : left = right := by
  rw [dealloc, normalise_eq, ok_bind] at hleft hright
  simp only at hleft hright
  cases hseek : loop (seekTurn m ptr) fuel (0, heap.head) with
  | error fault => rw [hseek, error_bind] at hleft; cases hleft
  | ok found =>
    cases hseek' : loop (seekTurn m ptr) fuel' (0, heap.head) with
    | error fault => rw [hseek', error_bind] at hright; cases hright
    | ok found' =>
      obtain rfl := loop_unique hseek hseek'
      rw [hseek] at hleft
      rw [hseek', hleft] at hright
      exact Except.ok.inj hright

/-! ### The two measuring walks -/

section Measure

variable {m : Mem} {cur fuel total : ℕ} {blocks : List Span}

/-- A loop whose turns add the weight of the block in front of them adds up the weights. -/
theorem loop_weigh {turn : ℕ × ℕ → Checked (Turn (ℕ × ℕ) ℕ)} {weight : Span → ℕ}
    (hend : ∀ total, turn (total, 0) = .ok (.done total))
    (hturn : ∀ total b, b.start ≠ 0 → (FreeBlock.read m b.start).size = b.size →
      total + weight b < 2 ^ 64 → turn (total, b.start) =
        .ok (.again (total + weight b, (FreeBlock.read m b.start).next)))
    (hblocks : Chain m cur blocks) (hfuel : blocks.length < fuel)
    (hfits : total + (blocks.map weight).sum < 2 ^ 64) :
    loop turn fuel (total, cur) = .ok (total + (blocks.map weight).sum) := by
  induction blocks generalizing cur fuel total with
  | nil =>
    obtain ⟨turns, rfl⟩ : ∃ turns, fuel = turns + 1 := ⟨fuel - 1, by simp at hfuel; omega⟩
    obtain rfl : cur = 0 := hblocks
    exact loop_done _ (hend total)
  | cons b rest ih =>
    obtain ⟨turns, rfl⟩ : ∃ turns, fuel = turns + 1 := ⟨fuel - 1, by omega⟩
    obtain ⟨hcur, rfl, hsize, hrest⟩ := hblocks
    rw [List.map_cons, List.sum_cons] at hfits ⊢
    rw [loop_again turns (hturn total b hcur hsize (by omega)),
      ih hrest (Nat.lt_of_succ_lt_succ hfuel) (by omega), Nat.add_assoc]

/-- `Heap::free_bytes` adds up the sizes of the blocks. -/
theorem loop_freeBytesTurn (hblocks : Chain m cur blocks) (hfuel : blocks.length < fuel)
    (hfits : total + BlockList.freeBytes blocks < 2 ^ 64) :
    loop (freeBytesTurn m) fuel (total, cur) = .ok (total + BlockList.freeBytes blocks) := by
  refine loop_weigh (fun _ ↦ rfl) (fun total b hcur hsize hsum ↦ ?_) hblocks hfuel hfits
  rw [freeBytesTurn, if_neg hcur]
  simp only
  rw [hsize, Word.add_eq hsum, ok_bind]
  rfl

/-- `Heap::free_blocks` counts the blocks. -/
theorem loop_freeBlocksTurn (hblocks : Chain m cur blocks) (hfuel : blocks.length < fuel)
    (hfits : total + blocks.length < 2 ^ 64) :
    loop (freeBlocksTurn m) fuel (total, cur) = .ok (total + blocks.length) := by
  have hcount : blocks.length = (blocks.map fun _ ↦ 1).sum := by
    rw [List.map_const', List.sum_replicate_nat, Nat.mul_one]
  rw [hcount] at hfits ⊢
  refine loop_weigh (fun _ ↦ rfl) (fun total b hcur _ hsum ↦ ?_) hblocks hfuel hfits
  rw [freeBlocksTurn, if_neg hcur, Word.add_eq hsum, ok_bind]
  rfl

end Measure

end Heap

end RustBL
