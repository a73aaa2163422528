import RustBL.Kernel.Heap.Allocator
import RustBL.Library.Spans
import Mathlib.Data.List.TakeWhile

/-!
# The heap on a plain list of blocks

The heap's operations with the free list as a list of spans and no memory. `BlockList.alloc` carves
the first block that fits and `BlockList.dealloc` inserts a block and merges it with its neighbours,
both in the steps of the source and on exact numbers.

`alloc_eq_some` says what a successful `alloc` does in one place: the blocks before the chosen one
do not fit, and the chosen one is replaced by what is left of it in front and behind. `alloc_spec`
and `dealloc_spec` are the two steps on the set the list covers: `alloc` takes away the carved block
and `dealloc` adds the returned one, and both keep the list separated, on the grid and in balance.
-/

set_option autoImplicit false
set_option relaxedAutoImplicit false

namespace RustBL

namespace BlockList

/-! ### The operations -/

/-- The first aligned address of a block, with `size` bytes behind it, lies in the block. -/
def Fits (size align : ℕ) (b : Span) : Prop :=
  roundUp b.start align - b.start + size ≤ b.size

instance (size align : ℕ) (b : Span) : Decidable (Fits size align b) :=
  inferInstanceAs (Decidable (_ ≤ _))

/-- What is left of a block when `size` bytes at `payload` are carved out of it: the front and the
tail, each when it is large enough to be a block. -/
def carve (b : Span) (payload size : ℕ) : List Span :=
  let front := payload - b.start
  let tail := b.size - front - size
  (if GRAIN ≤ front then [⟨b.start, front⟩] else []) ++
    (if GRAIN ≤ tail then [⟨payload + size, tail⟩] else [])

/-- `Heap::alloc` on a list: the payload and the new list, or `none` when no block fits. -/
def alloc (size align : ℕ) : List Span → Option (ℕ × List Span)
  | [] => none
  | b :: rest =>
    let payload := roundUp b.start align
    if Fits size align b then some (payload, carve b payload size ++ rest)
    else (alloc size align rest).map fun (p, blocks) ↦ (p, b :: blocks)

/-- The forward merge of `Heap::dealloc` on a list. -/
def mergeForward (start size : ℕ) : List Span → ℕ × List Span
  | [] => (size, [])
  | cur :: rest => if start + size = cur.start then (size + cur.size, rest) else (size, cur :: rest)

/-- The backward merge and the insertion of `Heap::dealloc` on a list. -/
def mergeBackward (before : List Span) (start size : ℕ) (next : List Span) : List Span :=
  match before.getLast? with
  | none => ⟨start, size⟩ :: next
  | some prev =>
    if prev.start + prev.size = start then
      before.dropLast ++ ⟨prev.start, prev.size + size⟩ :: next
    else before ++ ⟨start, size⟩ :: next

/-- `Heap::dealloc` on a list. -/
def dealloc (start size : ℕ) (blocks : List Span) : List Span :=
  let before := blocks.takeWhile (·.start < start)
  let after := blocks.dropWhile (·.start < start)
  let (size, next) := mergeForward start size after
  mergeBackward before start size next

/-- `Heap::free_bytes` on a list. -/
def freeBytes (blocks : List Span) : ℕ :=
  (blocks.map Span.size).sum

/-- Every block starts on the grid and has a size on the grid. -/
def OnGrid (blocks : List Span) : Prop :=
  ∀ b ∈ blocks, GRAIN ∣ b.start ∧ GRAIN ∣ b.size

@[simp] theorem freeBytes_nil : freeBytes [] = 0 :=
  rfl

@[simp] theorem freeBytes_cons (b : Span) (blocks : List Span) :
    freeBytes (b :: blocks) = b.size + freeBytes blocks :=
  rfl

@[simp] theorem freeBytes_append (left right : List Span) :
    freeBytes (left ++ right) = freeBytes left + freeBytes right := by
  simp [freeBytes]

theorem onGrid_append {left right : List Span} :
    OnGrid (left ++ right) ↔ OnGrid left ∧ OnGrid right :=
  List.forall_mem_append

theorem onGrid_cons {b : Span} {blocks : List Span} :
    OnGrid (b :: blocks) ↔ (GRAIN ∣ b.start ∧ GRAIN ∣ b.size) ∧ OnGrid blocks :=
  List.forall_mem_cons

/-! ### Allocation -/

section Alloc

variable {size align : ℕ}

/-- A successful `alloc` carves the first block that fits and changes no other. -/
theorem alloc_eq_some {blocks blocks' : List Span} {p : ℕ}
    (h : alloc size align blocks = some (p, blocks')) :
    ∃ before b after, blocks = before ++ b :: after ∧ (∀ c ∈ before, ¬ Fits size align c) ∧
      Fits size align b ∧ p = roundUp b.start align ∧
      blocks' = before ++ (carve b p size ++ after) := by
  induction blocks generalizing blocks' with
  | nil => simp [alloc] at h
  | cons b rest ih =>
    rw [alloc] at h
    split_ifs at h with hfits
    · obtain ⟨rfl, rfl⟩ := Prod.mk.inj (Option.some.inj h)
      exact ⟨[], b, rest, rfl, by simp, hfits, rfl, rfl⟩
    · obtain ⟨⟨p', found⟩, halloc, heq⟩ := Option.map_eq_some_iff.mp h
      obtain ⟨rfl, rfl⟩ := Prod.mk.inj heq
      obtain ⟨before, c, after, rfl, hbefore, hc, hp, rfl⟩ := ih halloc
      exact ⟨b :: before, c, after, rfl, List.forall_mem_cons.mpr ⟨hfits, hbefore⟩, hc, hp, rfl⟩

/-- `alloc` fails exactly when no block fits. -/
theorem alloc_eq_none {blocks : List Span} :
    alloc size align blocks = none ↔ ∀ b ∈ blocks, ¬ Fits size align b := by
  induction blocks with
  | nil => simp [alloc]
  | cons b rest ih =>
    rw [alloc, List.forall_mem_cons]
    split_ifs with hfits
    · simp [hfits]
    · simp [hfits, ih]

/-- A multiple of the grain is zero or at least one grain. -/
theorem eq_zero_or_grain_le {n : ℕ} (h : GRAIN ∣ n) : n = 0 ∨ GRAIN ≤ n := by
  rcases Nat.eq_zero_or_pos n with hzero | hpos
  · exact Or.inl hzero
  · exact Or.inr (Nat.le_of_dvd hpos h)

variable {b : Span} {p : ℕ}

/-- The numbers of a carve on the grid: the payload lies in the block, and both remainders are
multiples of the grain. -/
structure Carving (b : Span) (p size : ℕ) : Prop where
  start_le : b.start ≤ p
  stop_le : p + size ≤ b.stop
  front_dvd : GRAIN ∣ p - b.start
  tail_dvd : GRAIN ∣ b.stop - (p + size)
  start_dvd : GRAIN ∣ b.start
  payload_dvd : GRAIN ∣ p
  size_dvd : GRAIN ∣ size

theorem carving_of_fits (hnorm : Normalised size align) (hstart : GRAIN ∣ b.start)
    (hspan : GRAIN ∣ b.size) (hfits : Fits size align b) :
    Carving b (roundUp b.start align) size := by
  have hle := le_roundUp b.start align
  have hp : GRAIN ∣ roundUp b.start align := dvd_roundUp_of_dvd hstart hnorm.align_dvd
  unfold Fits at hfits
  refine ⟨hle, by simp only [Span.stop]; omega, Nat.dvd_sub hp hstart, ?_, hstart, hp,
    hnorm.size_dvd⟩
  exact Nat.dvd_sub (Nat.dvd_add hstart hspan) (Nat.dvd_add hp hnorm.size_dvd)

/-- The block `[start, start + size)`, left out when it is empty. -/
def remnant (start size : ℕ) : List Span :=
  if size = 0 then [] else [⟨start, size⟩]

theorem mem_remnant {start size : ℕ} {c : Span} :
    c ∈ remnant start size ↔ 0 < size ∧ c = ⟨start, size⟩ := by
  unfold remnant
  split_ifs with hzero
  · simp [hzero]
  · simp [Nat.pos_of_ne_zero hzero]

@[simp] theorem cover_remnant (start size : ℕ) :
    cover (remnant start size) = (Span.mk start size).bytes := by
  unfold remnant
  split_ifs with hzero
  · simp [Span.bytes, hzero]
  · simp

@[simp] theorem freeBytes_remnant (start size : ℕ) : freeBytes (remnant start size) = size := by
  unfold remnant
  split_ifs with hzero <;> simp [hzero]

/-- On the grid a carve keeps both remainders, whatever their size. -/
theorem carve_eq (h : Carving b p size) :
    carve b p size =
      remnant b.start (p - b.start) ++ remnant (p + size) (b.stop - (p + size)) := by
  have htail : b.size - (p - b.start) - size = b.stop - (p + size) := by
    have hstart := h.start_le
    have hstop := h.stop_le
    simp only [Span.stop] at *
    omega
  have hgrain : 0 < GRAIN := by decide
  unfold carve remnant
  simp only [htail]
  congr 1
  · rcases eq_zero_or_grain_le h.front_dvd with hzero | hle
    · rw [if_neg (by omega), if_pos hzero]
    · rw [if_pos hle, if_neg (by omega)]
  · rcases eq_zero_or_grain_le h.tail_dvd with hzero | hle
    · rw [if_neg (by omega), if_pos hzero]
    · rw [if_pos hle, if_neg (by omega)]

/-- The remainders of a carve are nonempty, and each reaches from one end of the carved block to the
payload. -/
theorem mem_carve (h : Carving b p size) {c : Span} (hc : c ∈ carve b p size) :
    0 < c.size ∧ ((c.start = b.start ∧ c.stop = p) ∨ (c.start = p + size ∧ c.stop = b.stop)) := by
  rw [carve_eq h, List.mem_append, mem_remnant, mem_remnant] at hc
  rcases hc with ⟨hpos, rfl⟩ | ⟨hpos, rfl⟩
  · exact ⟨hpos, Or.inl ⟨rfl, Nat.add_sub_of_le h.start_le⟩⟩
  · exact ⟨hpos, Or.inr ⟨rfl, Nat.add_sub_of_le h.stop_le⟩⟩

/-- The remainders of a carve are separated, because the payload lies between them. -/
theorem separated_carve (h : Carving b p size) (hsize : 0 < size) :
    Separated (carve b p size) := by
  have hone : ∀ start size, Separated (remnant start size) := by
    intro start size
    unfold remnant
    split_ifs with hzero
    · exact separated_nil
    · exact separated_singleton (Nat.pos_of_ne_zero hzero)
  rw [carve_eq h]
  refine separated_append.mpr ⟨hone _ _, hone _ _, fun c hc d hd ↦ ?_⟩
  obtain ⟨_, rfl⟩ := mem_remnant.mp hc
  obtain ⟨_, rfl⟩ := mem_remnant.mp hd
  have hstart := h.start_le
  simp only [Span.stop_mk]
  omega

/-- A carve leaves the block without the payload. -/
theorem cover_carve (h : Carving b p size) :
    cover (carve b p size) = b.bytes \ (Span.mk p size).bytes := by
  have hstart := h.start_le
  have hstop := h.stop_le
  ext a
  rw [carve_eq h, cover_append, cover_remnant, cover_remnant, Set.mem_union, Set.mem_sdiff]
  simp only [Span.mem_bytes, Span.stop_mk]
  omega

theorem onGrid_carve (h : Carving b p size) : OnGrid (carve b p size) := by
  have hrest : GRAIN ∣ p + size := Nat.dvd_add h.payload_dvd h.size_dvd
  rw [carve_eq h]
  refine onGrid_append.mpr ⟨fun c hc ↦ ?_, fun c hc ↦ ?_⟩
  · obtain ⟨_, rfl⟩ := mem_remnant.mp hc
    exact ⟨h.start_dvd, h.front_dvd⟩
  · obtain ⟨_, rfl⟩ := mem_remnant.mp hc
    exact ⟨hrest, h.tail_dvd⟩

theorem freeBytes_carve (h : Carving b p size) : freeBytes (carve b p size) + size = b.size := by
  have hstart := h.start_le
  have hstop := h.stop_le
  rw [carve_eq h, freeBytes_append, freeBytes_remnant, freeBytes_remnant]
  simp only [Span.stop] at *
  omega

/-- One `alloc` on a separated list on the grid. The payload is aligned, its block lies in one free
block, and the new list is separated, on the grid, covers what was free without the carved block,
and has that many bytes less. -/
theorem alloc_spec {blocks blocks' : List Span} (hnorm : Normalised size align)
    (hsep : Separated blocks) (hgrid : OnGrid blocks)
    (h : alloc size align blocks = some (p, blocks')) :
    (∃ b ∈ blocks, p = roundUp b.start align ∧ (Span.mk p size).bytes ⊆ b.bytes) ∧
      Separated blocks' ∧ OnGrid blocks' ∧
      cover blocks' = cover blocks \ (Span.mk p size).bytes ∧
      freeBytes blocks' + size = freeBytes blocks := by
  obtain ⟨before, b, after, rfl, _, hfits, hp, rfl⟩ := alloc_eq_some h
  have hb : b ∈ before ++ b :: after := List.mem_append_right _ List.mem_cons_self
  obtain ⟨hgridBefore, hgridRest⟩ := onGrid_append.mp hgrid
  obtain ⟨⟨hstart, hspan⟩, hgridAfter⟩ := onGrid_cons.mp hgridRest
  have hcarving : Carving b p size := by
    rw [hp]
    exact carving_of_fits hnorm hstart hspan hfits
  have hinside : (Span.mk p size).bytes ⊆ b.bytes :=
    Span.subset_of_bounds hcarving.start_le hcarving.stop_le
  refine ⟨⟨b, hb, hp, hinside⟩, ?_, ?_, ?_, ?_⟩
  · refine hsep.refine (separated_carve hcarving hnorm.size_pos) fun c hc ↦ ?_
    have hstop := hcarving.stop_le
    have hstart := hcarving.start_le
    rcases (mem_carve hcarving hc).2 with ⟨hl, hr⟩ | ⟨hl, hr⟩ <;> omega
  · exact onGrid_append.mpr ⟨hgridBefore, onGrid_append.mpr ⟨onGrid_carve hcarving, hgridAfter⟩⟩
  · -- The payload lies in `b`, so it meets none of the other blocks.
    obtain ⟨_, hrest, hcross⟩ := separated_append.mp hsep
    obtain ⟨_, _, hhead⟩ := separated_cons.mp hrest
    have hother : ∀ c ∈ before ++ after, Disjoint c.bytes (Span.mk p size).bytes := by
      intro c hc
      refine Set.disjoint_of_subset_right hinside (Span.Apart.disjoint ?_)
      rcases List.mem_append.mp hc with hc | hc
      · exact Or.inl (hcross c hc b List.mem_cons_self).le
      · exact Or.inr (hhead c hc).le
    have hmiss : ∀ blocks ⊆ before ++ after,
        cover blocks \ (Span.mk p size).bytes = cover blocks := by
      intro part hpart
      rw [sdiff_eq_left, Set.disjoint_left]
      rintro a ⟨c, hc, ha⟩ hpay
      exact Set.disjoint_left.mp (hother c (hpart hc)) ha hpay
    simp only [cover_append, cover_cons, cover_carve hcarving, Set.union_sdiff_distrib]
    rw [hmiss before (List.subset_append_left _ _), hmiss after (List.subset_append_right _ _)]
  · have hbytes := freeBytes_carve hcarving
    simp only [freeBytes_append, freeBytes_cons]
    omega

end Alloc

/-! ### Deallocation -/

section Dealloc

variable {start size : ℕ} {before after : List Span}

/-- The forward merge. The merged block starts where the returned one does, is apart from what
follows, and takes the first following block over exactly when the two touch. -/
theorem mergeForward_spec (hpos : 0 < size) (hsize : GRAIN ∣ size) (hsep : Separated after)
    (hgrid : OnGrid after) (hafter : ∀ c ∈ after, start + size ≤ c.start) :
    Separated (mergeForward start size after).2 ∧ OnGrid (mergeForward start size after).2 ∧
      0 < (mergeForward start size after).1 ∧ GRAIN ∣ (mergeForward start size after).1 ∧
      (∀ c ∈ (mergeForward start size after).2,
        start + (mergeForward start size after).1 < c.start) ∧
      (Span.mk start (mergeForward start size after).1).bytes ∪
          cover (mergeForward start size after).2 =
        (Span.mk start size).bytes ∪ cover after ∧
      (mergeForward start size after).1 + freeBytes (mergeForward start size after).2 =
        size + freeBytes after := by
  cases after with
  | nil => exact ⟨hsep, hgrid, hpos, hsize, by simp [mergeForward], rfl, rfl⟩
  | cons cur rest =>
    obtain ⟨hcur, hrest, hgap⟩ := separated_cons.mp hsep
    obtain ⟨⟨_, hcurSize⟩, hgridRest⟩ := onGrid_cons.mp hgrid
    rw [mergeForward]
    split_ifs with htouch
    · refine ⟨hrest, hgridRest, by simp only; omega, Nat.dvd_add hsize hcurSize, ?_, ?_, ?_⟩
      · intro c hc
        have := hgap c hc
        simp only [Span.stop] at this ⊢
        omega
      · rw [cover_cons, ← Set.union_assoc]
        congr 1
        ext a
        simp only [Set.mem_union, Span.mem_bytes, Span.stop] at *
        omega
      · simp only [freeBytes_cons]
        omega
    · refine ⟨hsep, hgrid, hpos, hsize, ?_, rfl, rfl⟩
      have hfirst := hafter cur List.mem_cons_self
      refine List.forall_mem_cons.mpr ⟨by simp only; omega, fun c hc ↦ ?_⟩
      have := hgap c hc
      simp only [Span.stop] at this ⊢
      omega

/-- The backward merge. The merged block ends where the returned one does, is apart from what
precedes, and takes the last preceding block over exactly when the two touch. -/
theorem mergeBackward_spec {next : List Span} (hpos : 0 < size) (hstart : GRAIN ∣ start)
    (hsize : GRAIN ∣ size) (hsep : Separated before) (hgrid : OnGrid before)
    (hbefore : ∀ c ∈ before, c.stop ≤ start) (hsepNext : Separated next) (hgridNext : OnGrid next)
    (hnext : ∀ c ∈ next, start + size < c.start) :
    Separated (mergeBackward before start size next) ∧
      OnGrid (mergeBackward before start size next) ∧
      cover (mergeBackward before start size next) =
        cover before ∪ ((Span.mk start size).bytes ∪ cover next) ∧
      freeBytes (mergeBackward before start size next) =
        freeBytes before + (size + freeBytes next) := by
  rcases List.eq_nil_or_concat before with rfl | ⟨initial, prev, rfl⟩
  · refine ⟨?_, onGrid_cons.mpr ⟨⟨hstart, hsize⟩, hgridNext⟩, by simp [mergeBackward], ?_⟩
    · exact separated_cons.mpr ⟨hpos, hsepNext, hnext⟩
    · simp [mergeBackward]
  · rw [List.concat_eq_append] at *
    obtain ⟨hinitial, hprev, hcross⟩ := separated_append.mp hsep
    obtain ⟨hgridInitial, hgridPrev⟩ := onGrid_append.mp hgrid
    obtain ⟨⟨hprevStart, hprevSize⟩, _⟩ := onGrid_cons.mp hgridPrev
    have hprevPos := hprev.nonempty prev List.mem_cons_self
    have hprevStop := hbefore prev (List.mem_append_right _ List.mem_cons_self)
    have hgap : ∀ c ∈ initial, c.stop < prev.start :=
      fun c hc ↦ hcross c hc prev List.mem_cons_self
    simp only [mergeBackward, List.getLast?_concat, List.dropLast_concat]
    split_ifs with htouch
    · refine ⟨?_, ?_, ?_, ?_⟩
      · refine hinitial.append_cons hsepNext (by simp only; omega) hgap fun c hc ↦ ?_
        have := hnext c hc
        simp only [Span.stop_mk]
        omega
      · exact onGrid_append.mpr ⟨hgridInitial,
          onGrid_cons.mpr ⟨⟨hprevStart, Nat.dvd_add hprevSize hsize⟩, hgridNext⟩⟩
      · have hjoin : (Span.mk prev.start (prev.size + size)).bytes =
            prev.bytes ∪ (Span.mk start size).bytes := by
          ext a
          simp only [Set.mem_union, Span.mem_bytes, Span.stop]
          omega
        simp only [cover_append, cover_cons, cover_nil, hjoin, Set.union_empty, Set.union_assoc]
      · simp only [freeBytes_append, freeBytes_cons, freeBytes_nil]
        omega
    · refine ⟨?_, ?_, ?_, ?_⟩
      · refine hsep.append_cons hsepNext hpos (fun c hc ↦ ?_) hnext
        rcases List.mem_append.mp hc with hc | hc
        · have := hgap c hc
          simp only [Span.stop] at hprevStop this ⊢
          omega
        · obtain rfl := List.mem_singleton.mp hc
          simp only [Span.stop] at hprevStop ⊢
          omega
      · exact onGrid_append.mpr ⟨hgrid, onGrid_cons.mpr ⟨⟨hstart, hsize⟩, hgridNext⟩⟩
      · rw [cover_append, cover_cons]
      · simp only [freeBytes_append, freeBytes_cons]

/-- The blocks the walk to the insertion point passes start below the returned block. -/
theorem start_lt_of_mem_takeWhile {blocks : List Span} {c : Span}
    (hc : c ∈ blocks.takeWhile (·.start < start)) : c.start < start := by
  simpa using List.mem_takeWhile_imp hc

/-- The blocks the walk stops before start at or above the returned block. -/
theorem le_start_of_mem_dropWhile {blocks : List Span} {c : Span} (hsep : Separated blocks)
    (hc : c ∈ blocks.dropWhile (·.start < start)) : start ≤ c.start := by
  have hnot := List.head?_dropWhile_not (fun b : Span ↦ decide (b.start < start)) blocks
  have hsuffix : Separated (blocks.dropWhile (·.start < start)) := by
    have hsplit : blocks.takeWhile (·.start < start) ++ blocks.dropWhile (·.start < start) =
        blocks := List.takeWhile_append_dropWhile
    rw [← hsplit] at hsep
    exact (separated_append.mp hsep).2.1
  cases hcase : blocks.dropWhile (·.start < start) with
  | nil => simp [hcase] at hc
  | cons first rest =>
    rw [hcase] at hnot hsuffix hc
    have hfirst : start ≤ first.start := by simpa using hnot
    rcases List.mem_cons.mp hc with rfl | hc
    · exact hfirst
    · have hgap := (separated_cons.mp hsuffix).2.2 c hc
      simp only [Span.stop] at hgap
      omega

/-- A block that meets no free block ends the blocks below it and begins the blocks above it. -/
theorem before_after_bounds {blocks : List Span} (hsep : Separated blocks)
    (hapart : ∀ c ∈ blocks, Span.Apart c ⟨start, size⟩) :
    (∀ c ∈ blocks.takeWhile (·.start < start), c.stop ≤ start) ∧
      ∀ c ∈ blocks.dropWhile (·.start < start), start + size ≤ c.start := by
  constructor
  · intro c hc
    have hlt := start_lt_of_mem_takeWhile hc
    rcases hapart c (List.takeWhile_subset _ hc) with h | h
    · exact h
    · simp only [Span.stop_mk] at h
      omega
  · intro c hc
    have hge := le_start_of_mem_dropWhile hsep hc
    have hin : c ∈ blocks := List.dropWhile_subset _ hc
    rcases hapart c hin with h | h
    · have := hsep.nonempty c hin
      simp only [Span.stop] at h
      omega
    · exact h

/-- One `dealloc` of a block that meets no free block. The new list is separated, on the grid,
covers in addition the returned block, and has that many bytes more. -/
theorem dealloc_spec {blocks : List Span} (hpos : 0 < size) (hstart : GRAIN ∣ start)
    (hsize : GRAIN ∣ size) (hsep : Separated blocks) (hgrid : OnGrid blocks)
    (hapart : ∀ c ∈ blocks, Span.Apart c ⟨start, size⟩) :
    Separated (dealloc start size blocks) ∧ OnGrid (dealloc start size blocks) ∧
      cover (dealloc start size blocks) = cover blocks ∪ (Span.mk start size).bytes ∧
      freeBytes (dealloc start size blocks) = freeBytes blocks + size := by
  have hbounds := before_after_bounds hsep hapart
  have hsplit : blocks.takeWhile (·.start < start) ++ blocks.dropWhile (·.start < start) = blocks :=
    List.takeWhile_append_dropWhile
  unfold dealloc
  generalize blocks.takeWhile (·.start < start) = before at hbounds hsplit ⊢
  generalize blocks.dropWhile (·.start < start) = after at hbounds hsplit ⊢
  subst hsplit
  obtain ⟨hlow, hhigh⟩ := hbounds
  obtain ⟨hsepBefore, hsepAfter, _⟩ := separated_append.mp hsep
  obtain ⟨hgridBefore, hgridAfter⟩ := onGrid_append.mp hgrid
  obtain ⟨hs, hg, hp, hd, hn, hcover, hbytes⟩ :=
    mergeForward_spec hpos hsize hsepAfter hgridAfter hhigh
  obtain ⟨hs', hg', hcover', hbytes'⟩ :=
    mergeBackward_spec hp hstart hd hsepBefore hgridBefore hlow hs hg hn
  refine ⟨hs', hg', ?_, ?_⟩
  · rw [hcover', hcover, cover_append, Set.union_assoc, Set.union_comm (cover after)]
  · rw [hbytes', hbytes, freeBytes_append]
    omega

end Dealloc

end BlockList

end RustBL
