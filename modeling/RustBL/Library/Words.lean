import RustBL.Library.Memory
import Mathlib.Data.List.Induction
import Mathlib.Logic.Function.Basic
import Mathlib.Tactic.Ring

/-!
# Memory as an array of words

`Mem.words` reads a memory as an array of words of one width that begins at a base address. Storing
a word updates the array at one index (`words_store`), and moving whole words moves a range of the
array (`words_move`), so a program that touches memory in aligned words only can be followed on the
array.

`paint` is a sequence of such updates. An index holds what the updates that name it agree on
(`paint_of_mem`), and keeps its word when none does (`paint_of_not_mem`).
-/

set_option autoImplicit false
set_option relaxedAutoImplicit false

namespace RustBL

/-! ### Sequences of updates -/

section Paint

variable {ι α : Type} [DecidableEq ι]

/-- Perform updates, given as index and value, one after the other. -/
def paint (f : ι → α) (updates : List (ι × α)) : ι → α :=
  updates.foldl (fun f update ↦ Function.update f update.1 update.2) f

theorem paint_cons (f : ι → α) (update : ι × α) (updates : List (ι × α)) :
    paint f (update :: updates) = paint (Function.update f update.1 update.2) updates :=
  rfl

theorem paint_append (f : ι → α) (updates later : List (ι × α)) :
    paint f (updates ++ later) = paint (paint f updates) later :=
  List.foldl_append

/-- An index that no update names keeps its value. -/
theorem paint_of_not_mem {f : ι → α} {updates : List (ι × α)} {index : ι}
    (h : ∀ update ∈ updates, update.1 ≠ index) : paint f updates index = f index := by
  induction updates generalizing f with
  | nil => rfl
  | cons update updates ih =>
    rw [List.forall_mem_cons] at h
    rw [paint_cons, ih h.2, Function.update_of_ne h.1.symm]

/-- An index that some update names holds the value the updates agree on. -/
theorem paint_of_mem {f : ι → α} {updates : List (ι × α)} {index : ι} {value : α}
    (hsome : ∃ update ∈ updates, update.1 = index)
    (hagree : ∀ update ∈ updates, update.1 = index → update.2 = value) :
    paint f updates index = value := by
  induction updates generalizing f with
  | nil =>
    obtain ⟨update, hmem, _⟩ := hsome
    exact absurd hmem List.not_mem_nil
  | cons update updates ih =>
    rw [List.forall_mem_cons] at hagree
    rw [paint_cons]
    by_cases hlater : ∃ later ∈ updates, later.1 = index
    · exact ih hlater hagree.2
    · -- The first update is the last that names the index.
      have hfirst : update.1 = index := by
        obtain ⟨other, hmem, hindex⟩ := hsome
        rcases List.mem_cons.mp hmem with rfl | hmem
        · exact hindex
        · exact absurd ⟨other, hmem, hindex⟩ hlater
      have hnone : ∀ later ∈ updates, later.1 ≠ index := fun later hmem hindex ↦
        hlater ⟨later, hmem, hindex⟩
      rw [paint_of_not_mem hnone, hfirst, Function.update_self]
      exact hagree.1 hfirst

/-- An index holds the value of the last update that names it. -/
theorem paint_eq_lookup (f : ι → α) (updates : List (ι × α)) (index : ι) :
    paint f updates index = (updates.reverse.lookup index).getD (f index) := by
  induction updates using List.reverseRecOn with
  | nil => rfl
  | append_singleton updates update ih =>
    rw [paint_append, List.reverse_append, List.reverse_singleton, List.singleton_append,
      List.lookup_cons, paint_cons]
    by_cases hindex : index = update.1
    · rw [hindex, beq_self_eq_true]
      exact Function.update_self _ _ _
    · rw [beq_false_of_ne hindex]
      exact (Function.update_of_ne hindex _ _).trans ih

/-- The same for values that are computed from what a list holds. -/
theorem paint_map_eq_lookup {β : Type} (f : ι → α) (value : β → α) (updates : List (ι × β))
    (index : ι) : paint f (updates.map fun update ↦ (update.1, value update.2)) index =
      ((updates.reverse.lookup index).map value).getD (f index) := by
  rw [paint_eq_lookup, ← List.map_reverse]
  congr 1
  induction updates.reverse with
  | nil => rfl
  | cons update updates ih =>
    rw [List.map_cons, List.lookup_cons, List.lookup_cons, ih]
    cases index == update.1 <;> rfl

end Paint

namespace Mem

/-! ### Words -/

/-- The words of `width` bytes from `base` on. -/
def words (m : Mem) (base width : ℕ) : ℕ → ℕ := fun index ↦
  m.load (base + width * index) width

section Words

variable {m : Mem} {base width : ℕ}

/-- Storing a word updates one index. -/
theorem words_store {index value : ℕ} (hfits : value < 256 ^ width) :
    (m.store (base + width * index) width value).words base width =
      Function.update (m.words base width) index value := by
  funext other
  rw [words]
  by_cases hsame : other = index
  · rw [hsame, Function.update_self, load_store_of_lt hfits]
  · have hapart : base + width * index + width ≤ base + width * other ∨
        base + width * other + width ≤ base + width * index := by
      rcases lt_or_gt_of_ne hsame with hlt | hlt
      · have hle := Nat.mul_le_mul_left width (Nat.succ_le_of_lt hlt)
        rw [Nat.mul_succ] at hle
        omega
      · have hle := Nat.mul_le_mul_left width (Nat.succ_le_of_lt hlt)
        rw [Nat.mul_succ] at hle
        omega
    rw [Function.update_of_ne hsame, load_store_of_disjoint hapart]
    rfl

/-- Moving `count` words down to the base moves a range of the array. -/
theorem words_move {shift count index : ℕ} :
    (m.move (base + width * shift) base (width * count)).words base width index =
      if index < count then m.words base width (index + shift) else m.words base width index := by
  rw [words]
  split_ifs with hin
  · have hend := Nat.mul_le_mul_left width (Nat.succ_le_of_lt hin)
    rw [Nat.mul_succ] at hend
    have hsource : base + width * shift + width * index = base + width * (index + shift) := by ring
    rw [load_move_mem hend, hsource]
    rfl
  · have hbeyond := Nat.mul_le_mul_left width (not_lt.mp hin)
    exact load_congr (agreeOn_move (Or.inl (by omega)))

/-- Storing words one after the other paints them. -/
theorem words_foldl_store {updates : List (ℕ × ℕ)}
    (hfits : ∀ update ∈ updates, update.2 < 256 ^ width) :
    (updates.foldl (fun m update ↦ m.store (base + width * update.1) width update.2) m).words
        base width = paint (m.words base width) updates := by
  induction updates generalizing m with
  | nil => rfl
  | cons update updates ih =>
    rw [List.forall_mem_cons] at hfits
    rw [List.foldl_cons, ih hfits.2, words_store hfits.1, paint_cons]

end Words

end Mem

end RustBL
