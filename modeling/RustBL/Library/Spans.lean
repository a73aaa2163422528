import Mathlib.Data.List.Pairwise
import Mathlib.Data.List.Sort
import Mathlib.Data.Set.Lattice
import Mathlib.Order.CompletePartialOrder
import Mathlib.Order.Interval.Set.Basic

/-!
# Separated lists of address spans

A `Span` is a half-open range of addresses given by its start and its size. A list of spans is
`Separated` when its spans are nonempty, increasing, and no two of them touch: between one span and
the next at least one address is left out. `cover` is the set of addresses a list of spans covers.

A separated list is determined by what it covers. Its members are exactly the maximal spans inside
its cover (`Separated.mem_iff_isMaximalIn`), so two separated lists with the same cover are equal
(`Separated.eq_of_cover_eq`): the list is a normal form of the set.

Two changes keep a list separated. Replacing one span by a separated list inside it is
`Separated.refine`, with `cover_replace` for what the new list covers. Inserting a span between two
parts is `Separated.append_cons`, which asks only for a gap on both sides.
-/

set_option autoImplicit false
set_option relaxedAutoImplicit false

namespace RustBL

/-- The addresses `[start, start + size)`. -/
@[ext] structure Span where
  /-- The first address. -/
  start : ℕ
  /-- The number of addresses. -/
  size : ℕ
  deriving DecidableEq, Repr

namespace Span

/-- One past the last address. -/
def stop (b : Span) : ℕ :=
  b.start + b.size

/-- The addresses of a span, as a set. -/
def bytes (b : Span) : Set ℕ :=
  Set.Ico b.start b.stop

/-- The two spans share no address, because one ends before the other begins. -/
def Apart (b c : Span) : Prop :=
  b.stop ≤ c.start ∨ c.stop ≤ b.start

instance (b c : Span) : Decidable (Apart b c) :=
  inferInstanceAs (Decidable (_ ∨ _))

@[simp] theorem stop_mk (start size : ℕ) : (Span.mk start size).stop = start + size :=
  rfl

theorem mem_bytes {b : Span} {a : ℕ} : a ∈ b.bytes ↔ b.start ≤ a ∧ a < b.stop :=
  Iff.rfl

theorem Apart.symm {b c : Span} (h : Apart b c) : Apart c b :=
  Or.symm h

/-- Spans that are apart have disjoint addresses. -/
theorem Apart.disjoint {b c : Span} (h : Apart b c) : Disjoint b.bytes c.bytes := by
  rw [Set.disjoint_left]
  intro a hb hc
  rw [mem_bytes] at hb hc
  rcases h with h | h <;> omega

/-- Nonempty spans with disjoint addresses are apart. -/
theorem apart_of_disjoint {b c : Span} (hb : 0 < b.size) (hc : 0 < c.size)
    (h : Disjoint b.bytes c.bytes) : Apart b c := by
  by_contra hmeet
  rw [Apart, not_or, not_le, not_le] at hmeet
  have hin : max b.start c.start ∈ b.bytes ∧ max b.start c.start ∈ c.bytes := by
    simp only [mem_bytes, stop] at hmeet ⊢
    omega
  exact Set.disjoint_left.mp h hin.1 hin.2

/-- A nonempty span inside another lies between its bounds. -/
theorem bounds_of_subset {b c : Span} (hb : 0 < b.size) (h : b.bytes ⊆ c.bytes) :
    c.start ≤ b.start ∧ b.stop ≤ c.stop := by
  have hfirst : b.start ∈ c.bytes := h (mem_bytes.mpr (by simp only [stop]; omega))
  have hlast : b.stop - 1 ∈ c.bytes := h (mem_bytes.mpr (by simp only [stop]; omega))
  rw [mem_bytes] at hfirst hlast
  simp only [stop] at hfirst hlast ⊢
  omega

theorem subset_of_bounds {b c : Span} (hstart : c.start ≤ b.start) (hstop : b.stop ≤ c.stop) :
    b.bytes ⊆ c.bytes :=
  Set.Ico_subset_Ico hstart hstop

end Span

open RustBL.Span

/-! ### What a list covers -/

/-- The addresses covered by a list of spans. -/
def cover (spans : List Span) : Set ℕ :=
  {a | ∃ b ∈ spans, a ∈ b.bytes}

@[simp] theorem cover_nil : cover [] = ∅ := by
  ext a
  simp [cover]

@[simp] theorem cover_cons (b : Span) (spans : List Span) :
    cover (b :: spans) = b.bytes ∪ cover spans := by
  ext a
  simp [cover]

@[simp] theorem cover_append (left right : List Span) :
    cover (left ++ right) = cover left ∪ cover right := by
  ext a
  simp only [cover, List.mem_append, Set.mem_union, Set.mem_ofPred_eq]
  constructor
  · rintro ⟨b, hb | hb, ha⟩
    · exact Or.inl ⟨b, hb, ha⟩
    · exact Or.inr ⟨b, hb, ha⟩
  · rintro (⟨b, hb, ha⟩ | ⟨b, hb, ha⟩)
    · exact ⟨b, Or.inl hb, ha⟩
    · exact ⟨b, Or.inr hb, ha⟩

theorem bytes_subset_cover {spans : List Span} {b : Span} (hb : b ∈ spans) :
    b.bytes ⊆ cover spans :=
  fun _ ha ↦ ⟨b, hb, ha⟩

/-- What a list covers depends on its members only. -/
theorem cover_congr {left right : List Span} (h : ∀ b, b ∈ left ↔ b ∈ right) :
    cover left = cover right := by
  ext a
  simp only [cover, h]

/-! ### Separated lists -/

/-- The spans are nonempty, increasing, and no two of them touch. -/
structure Separated (spans : List Span) : Prop where
  gaps : spans.Pairwise fun b c ↦ b.stop < c.start
  nonempty : ∀ b ∈ spans, 0 < b.size

theorem separated_nil : Separated [] :=
  ⟨List.Pairwise.nil, by simp⟩

theorem separated_singleton {b : Span} (hb : 0 < b.size) : Separated [b] :=
  ⟨List.pairwise_singleton _ _, by simpa using hb⟩

theorem separated_append {left right : List Span} :
    Separated (left ++ right) ↔
      Separated left ∧ Separated right ∧ ∀ b ∈ left, ∀ c ∈ right, b.stop < c.start := by
  constructor
  · rintro ⟨hgaps, hnonempty⟩
    obtain ⟨hleft, hright, hcross⟩ := List.pairwise_append.mp hgaps
    exact ⟨⟨hleft, fun b hb ↦ hnonempty b (List.mem_append_left _ hb)⟩,
      ⟨hright, fun b hb ↦ hnonempty b (List.mem_append_right _ hb)⟩, hcross⟩
  · rintro ⟨hleft, hright, hcross⟩
    refine ⟨List.pairwise_append.mpr ⟨hleft.gaps, hright.gaps, hcross⟩, fun b hb ↦ ?_⟩
    rcases List.mem_append.mp hb with hb | hb
    · exact hleft.nonempty b hb
    · exact hright.nonempty b hb

theorem separated_cons {b : Span} {spans : List Span} :
    Separated (b :: spans) ↔
      0 < b.size ∧ Separated spans ∧ ∀ c ∈ spans, b.stop < c.start := by
  constructor
  · rintro ⟨hgaps, hnonempty⟩
    obtain ⟨hhead, htail⟩ := List.pairwise_cons.mp hgaps
    exact ⟨hnonempty b List.mem_cons_self,
      ⟨htail, fun c hc ↦ hnonempty c (List.mem_cons_of_mem _ hc)⟩, hhead⟩
  · rintro ⟨hb, hspans, hhead⟩
    exact ⟨List.pairwise_cons.mpr ⟨hhead, hspans.gaps⟩, List.forall_mem_cons.mpr
      ⟨hb, hspans.nonempty⟩⟩

section Separated

variable {spans : List Span} {b c : Span}

/-- Distinct members of a separated list leave a gap between them. -/
theorem Separated.gap (h : Separated spans) (hb : b ∈ spans) (hc : c ∈ spans) (hne : b ≠ c) :
    b.stop < c.start ∨ c.stop < b.start := by
  have : Std.Symm fun b c : Span ↦ b.stop < c.start ∨ c.stop < b.start :=
    ⟨fun _ _ hgap ↦ Or.symm hgap⟩
  have hpair : spans.Pairwise fun b c ↦ b.stop < c.start ∨ c.stop < b.start :=
    h.gaps.imp fun hgap ↦ Or.inl hgap
  exact hpair.forall hb hc hne

/-- The address after a member of a separated list is not covered. -/
theorem Separated.stop_not_mem_cover (h : Separated spans) (hb : b ∈ spans) :
    b.stop ∉ cover spans := by
  rintro ⟨c, hc, hlow, hhigh⟩
  by_cases hsame : b = c
  · subst hsame
    omega
  · rcases h.gap hb hc hsame with hgap | hgap
    · omega
    · have := h.nonempty b hb
      simp only [Span.stop] at *
      omega

/-- The address before a member of a separated list is not covered. -/
theorem Separated.pred_not_mem_cover (h : Separated spans) (hb : b ∈ spans) {a : ℕ}
    (ha : a + 1 = b.start) : a ∉ cover spans := by
  rintro ⟨c, hc, hlow, hhigh⟩
  by_cases hsame : b = c
  · subst hsame
    omega
  · rcases h.gap hb hc hsame with hgap | hgap
    · simp only [Span.stop] at *
      omega
    · omega

/-- A nonempty span inside the cover of a separated list lies inside one member. -/
theorem Separated.exists_of_subset_cover (h : Separated spans) (hb : 0 < b.size)
    (hsub : b.bytes ⊆ cover spans) : ∃ c ∈ spans, c.start ≤ b.start ∧ b.stop ≤ c.stop := by
  obtain ⟨c, hc, hlow, hhigh⟩ := hsub (mem_bytes.mpr ⟨le_rfl, by simp only [Span.stop]; omega⟩)
  refine ⟨c, hc, hlow, ?_⟩
  -- `b` begins inside the member `c`; if it went past the end of `c` it would meet the gap there.
  by_contra hlong
  exact h.stop_not_mem_cover hc (hsub (mem_bytes.mpr ⟨by omega, by omega⟩))

/-- A nonempty span inside `S` that no longer span inside `S` contains. -/
def IsMaximalIn (S : Set ℕ) (b : Span) : Prop :=
  0 < b.size ∧ b.bytes ⊆ S ∧ ∀ c : Span, b.bytes ⊆ c.bytes → c.bytes ⊆ S → c = b

/-- The members of a separated list are exactly the maximal spans inside its cover. -/
theorem Separated.mem_iff_isMaximalIn (h : Separated spans) :
    b ∈ spans ↔ IsMaximalIn (cover spans) b := by
  constructor
  · intro hb
    refine ⟨h.nonempty b hb, bytes_subset_cover hb, fun c hsub hcover ↦ ?_⟩
    obtain ⟨hstart, hstop⟩ := bounds_of_subset (h.nonempty b hb) hsub
    have hpos := h.nonempty b hb
    have hstartEq : c.start = b.start := by
      by_contra hne
      have hin : b.start - 1 ∈ c.bytes := by
        simp only [mem_bytes, Span.stop] at hstop ⊢
        omega
      exact h.pred_not_mem_cover hb (by omega) (hcover hin)
    have hstopEq : c.stop = b.stop := by
      by_contra hne
      have hin : b.stop ∈ c.bytes := by
        simp only [mem_bytes, Span.stop] at hstop hne ⊢
        omega
      exact h.stop_not_mem_cover hb (hcover hin)
    simp only [Span.stop] at hstopEq
    exact Span.ext hstartEq (by omega)
  · rintro ⟨hpos, hsub, hmax⟩
    obtain ⟨c, hc, hstart, hstop⟩ := h.exists_of_subset_cover hpos hsub
    have hcb := hmax c (subset_of_bounds hstart hstop) (bytes_subset_cover hc)
    exact hcb ▸ hc

theorem Separated.pairwise_start (h : Separated spans) :
    spans.Pairwise fun b c ↦ b.start < c.start :=
  h.gaps.imp fun hgap ↦ lt_of_le_of_lt (Nat.le_add_right _ _) hgap

/-- A separated list is determined by the addresses it covers. -/
theorem Separated.eq_of_cover_eq {left right : List Span} (hleft : Separated left)
    (hright : Separated right) (hcover : cover left = cover right) : left = right := by
  have : Std.Irrefl fun b c : Span ↦ b.start < c.start := ⟨fun _ ↦ lt_irrefl _⟩
  have : Std.Antisymm fun b c : Span ↦ b.start < c.start :=
    ⟨fun _ _ hlt hgt ↦ absurd hlt (lt_asymm hgt)⟩
  refine hleft.pairwise_start.eq_of_mem_iff hright.pairwise_start fun b ↦ ?_
  rw [hleft.mem_iff_isMaximalIn, hright.mem_iff_isMaximalIn, hcover]

/-- Replacing a span by a separated list between its bounds keeps the whole list separated. -/
theorem Separated.refine {left middle right : List Span}
    (h : Separated (left ++ b :: right)) (hmiddle : Separated middle)
    (hinside : ∀ c ∈ middle, b.start ≤ c.start ∧ c.stop ≤ b.stop) :
    Separated (left ++ (middle ++ right)) := by
  obtain ⟨hleft, hrest, hcross⟩ := separated_append.mp h
  obtain ⟨_, hright, hhead⟩ := separated_cons.mp hrest
  refine separated_append.mpr ⟨hleft, separated_append.mpr ⟨hmiddle, hright, ?_⟩, ?_⟩
  · intro c hc d hd
    exact lt_of_le_of_lt (hinside c hc).2 (hhead d hd)
  · intro d hd c hc
    rcases List.mem_append.mp hc with hc | hc
    · exact lt_of_lt_of_le (hcross d hd b List.mem_cons_self) (hinside c hc).1
    · exact hcross d hd c (List.mem_cons_of_mem _ hc)

/-- A nonempty span with a gap on both sides joins two separated lists into one. -/
theorem Separated.append_cons {left right : List Span} (hleft : Separated left)
    (hright : Separated right) (hb : 0 < b.size) (hbefore : ∀ c ∈ left, c.stop < b.start)
    (hafter : ∀ c ∈ right, b.stop < c.start) : Separated (left ++ b :: right) := by
  refine separated_append.mpr ⟨hleft, separated_cons.mpr ⟨hb, hright, hafter⟩, fun c hc d hd ↦ ?_⟩
  rcases List.mem_cons.mp hd with rfl | hd
  · exact hbefore c hc
  · have hgap := hafter d hd
    have := hbefore c hc
    simp only [Span.stop] at *
    omega

end Separated

end RustBL
