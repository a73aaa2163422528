import RustBL.Library.Memory
import Mathlib.Data.Nat.Bitwise
import Mathlib.Tactic.Ring

/-!
# Bit fields of words

`field word low width` is the number in the bits `low, …, low + width - 1` of a word. A word that is
put together from its fields, lowest first, has these fields (`field_of_split`), however the parts
were put together: with additions, with disjunctions of shifted parts (`or_shifted`), or by storing
the parts of a record next to each other (`store_store`, `load_add`). `and_high_mask` is the other
direction, a mask that clears the low fields.
-/

set_option autoImplicit false
set_option relaxedAutoImplicit false

namespace RustBL

/-- The bits `low, …, low + width - 1` of a word. -/
def field (word low width : ℕ) : ℕ :=
  word / 2 ^ low % 2 ^ width

section Fields

variable {word low width below value above : ℕ}

theorem field_lt (word low width : ℕ) : field word low width < 2 ^ width :=
  Nat.mod_lt _ (Nat.two_pow_pos width)

/-- A word that is split at the bounds of a field has the middle part in the field. -/
theorem field_of_split (hword : word = below + 2 ^ low * (value + 2 ^ width * above))
    (hbelow : below < 2 ^ low) (hvalue : value < 2 ^ width) : field word low width = value := by
  have hhigh : word / 2 ^ low = value + 2 ^ width * above := by
    rw [hword, Nat.add_mul_div_left _ _ (Nat.two_pow_pos low), Nat.div_eq_of_lt hbelow,
      Nat.zero_add]
  rw [field, hhigh, Nat.add_mul_mod_self_left, Nat.mod_eq_of_lt hvalue]

/-- A part and one that is shifted past it do not meet. -/
theorem or_shifted (low above : ℕ) (hbelow : below < 2 ^ low) :
    below ||| above * 2 ^ low = below + 2 ^ low * above := by
  rw [Nat.mul_comm above, Nat.or_comm, Nat.add_comm, ← Nat.two_pow_add_eq_or_of_lt hbelow]

/-- A mask of the high bits rounds down. -/
theorem and_high_mask {bits : ℕ} (hbits : bits ≤ width) (hword : word < 2 ^ width) :
    word &&& (2 ^ width - 2 ^ bits) = word / 2 ^ bits * 2 ^ bits := by
  have hmask : 2 ^ width - 2 ^ bits = (2 ^ (width - bits) - 1) <<< bits := by
    rw [Nat.shiftLeft_eq, Nat.sub_mul, ← Nat.pow_add, Nat.sub_add_cancel hbits, Nat.one_mul]
  have hdiv : word / 2 ^ bits * 2 ^ bits = (word >>> bits) <<< bits := by
    rw [Nat.shiftLeft_eq, Nat.shiftRight_eq_div_pow]
  rw [hmask, hdiv]
  refine Nat.eq_of_testBit_eq fun bit ↦ ?_
  rw [Nat.testBit_and, Nat.testBit_shiftLeft, Nat.testBit_shiftLeft, Nat.testBit_shiftRight,
    Nat.testBit_two_pow_sub_one]
  by_cases hlow : bits ≤ bit
  · have hbit : bits + (bit - bits) = bit := by omega
    by_cases hhigh : bit < width
    · have hin : bit - bits < width - bits := by omega
      simp [hlow, hin, hbit]
    · have hzero : word.testBit bit = false :=
        Nat.testBit_lt_two_pow (hword.trans_le (Nat.pow_le_pow_right (by omega) (by omega)))
      simp [hbit, hzero]
  · simp [hlow]

end Fields

namespace Mem

section Parts

variable {m : Mem} {addr width width' value value' : ℕ}

/-- A word is its low part and the part behind it. -/
theorem load_add (m : Mem) (addr width width' : ℕ) :
    m.load addr (width + width') =
      m.load addr width + 256 ^ width * m.load (addr + width) width' := by
  induction width generalizing addr with
  | zero => rw [Nat.zero_add, load, Nat.pow_zero, Nat.one_mul, Nat.add_zero, Nat.zero_add]
  | succ width ih =>
    have haddr : addr + 1 + width = addr + (width + 1) := by omega
    rw [Nat.add_right_comm, load, load, ih, haddr, Nat.pow_succ]
    ring

/-- Storing a word behind another stores both as one word. -/
theorem store_store (hvalue : value < 256 ^ width) :
    (m.store addr width value).store (addr + width) width' value' =
      m.store addr (width + width') (value + 256 ^ width * value') := by
  have hpos : 0 < 256 ^ width := Nat.pow_pos (by decide)
  funext a
  by_cases hbehind : addr + width ≤ a ∧ a < addr + width + width'
  · obtain ⟨skip, rfl⟩ := Nat.exists_eq_add_of_le hbehind.1
    have hskip : addr + width + skip - addr = width + skip := by omega
    rw [store_apply_mem hbehind.1 hbehind.2, store_apply_mem (by omega) (by omega),
      Nat.add_sub_cancel_left, hskip, Nat.pow_add, ← Nat.div_div_eq_div_mul,
      Nat.add_mul_div_left _ _ hpos, Nat.div_eq_of_lt hvalue, Nat.zero_add]
  · rw [store_apply_of_not_mem (by omega)]
    by_cases hfront : addr ≤ a ∧ a < addr + width
    · obtain ⟨skip, rfl⟩ := Nat.exists_eq_add_of_le hfront.1
      have hsplit : 256 ^ width = 256 ^ skip * (256 * 256 ^ (width - skip - 1)) := by
        rw [← Nat.pow_succ', ← Nat.pow_add]
        congr 1
        omega
      rw [store_apply_mem hfront.1 hfront.2, store_apply_mem (by omega) (by omega),
        Nat.add_sub_cancel_left]
      -- The upper word does not reach down to this byte.
      refine UInt8.toNat_inj.mp ?_
      rw [UInt8.toNat_ofNat', UInt8.toNat_ofNat', hsplit, Nat.mul_assoc, Nat.mul_assoc,
        Nat.add_mul_div_left _ _ (Nat.pow_pos (by decide)), Nat.add_mul_mod_self_left]
    · rw [store_apply_of_not_mem (by omega), store_apply_of_not_mem (by omega)]

end Parts

end Mem

end RustBL
