import RustBL.Library.Checked
import Mathlib.Data.Nat.Basic
import Mathlib.Tactic.SplitIfs
import Mathlib.Data.Set.Lattice
import Mathlib.Order.CompletePartialOrder
import Mathlib.Order.Interval.Set.Basic

/-!
# Byte-addressed memory

A memory maps every address to a byte. `Mem.load` and `Mem.store` read and write little-endian words
of any width, `Mem.fill` sets a range to one byte, `Mem.move` copies a range that may overlap its
source, and `Mem.write` places a list of bytes.

Every operation is given by the byte it leaves at each address, so a proof about a memory is a proof
about single addresses. `Mem.AgreeOn` says that two memories hold the same bytes on a range; it is
what an operation preserves away from the range it writes (`agreeOn_store`), and
what a load depends on (`load_congr`). `Mem.SameOff` says that two memories differ at most on a set
of addresses; it is how a whole function states what it may have written. `load_store` is the round
trip of a word, and `load_store_of_disjoint` the frame rule for a word beside it.
-/

set_option autoImplicit false
set_option relaxedAutoImplicit false

namespace RustBL

/-- A byte-addressed memory. -/
abbrev Mem := ℕ → UInt8

namespace Mem

/-- The little-endian value of the `width` bytes from `addr`. -/
def load (m : Mem) (addr : ℕ) : ℕ → ℕ
  | 0 => 0
  | width + 1 => (m addr).toNat + 256 * load m (addr + 1) width

/-- Write the low `width` bytes of `value` from `addr` on, least significant first. -/
def store (m : Mem) (addr width value : ℕ) : Mem := fun a ↦
  if addr ≤ a ∧ a < addr + width then UInt8.ofNat (value / 256 ^ (a - addr)) else m a

/-- Set the `len` bytes from `start` to `byte`. -/
def fill (m : Mem) (start len : ℕ) (byte : UInt8) : Mem := fun a ↦
  if start ≤ a ∧ a < start + len then byte else m a

/-- Copy the `len` bytes from `src` to `dst`; the two ranges may overlap. -/
def move (m : Mem) (src dst len : ℕ) : Mem := fun a ↦
  if dst ≤ a ∧ a < dst + len then m (src + (a - dst)) else m a

/-- Place `bytes` from `start` on. -/
def write (m : Mem) (start : ℕ) (bytes : List UInt8) : Mem := fun a ↦
  if start ≤ a then (bytes[a - start]?).getD (m a) else m a

/-- The two memories hold the same bytes on `[start, start + len)`. -/
def AgreeOn (m m' : Mem) (start len : ℕ) : Prop :=
  ∀ a, start ≤ a → a < start + len → m a = m' a

/-- The second memory differs from the first at most on `S`. -/
def SameOff (S : Set ℕ) (m m' : Mem) : Prop :=
  ∀ a, a ∉ S → m' a = m a

/-! ### Agreement -/

section Agreement

variable {m m' m'' : Mem} {start len : ℕ}

theorem AgreeOn.refl (m : Mem) (start len : ℕ) : AgreeOn m m start len :=
  fun _ _ _ ↦ rfl

theorem AgreeOn.symm (h : AgreeOn m m' start len) : AgreeOn m' m start len :=
  fun a hlow hhigh ↦ (h a hlow hhigh).symm

theorem AgreeOn.trans (h : AgreeOn m m' start len) (h' : AgreeOn m' m'' start len) :
    AgreeOn m m'' start len :=
  fun a hlow hhigh ↦ (h a hlow hhigh).trans (h' a hlow hhigh)

/-- Agreement on a range is agreement on every range inside it. -/
theorem AgreeOn.mono {start' len' : ℕ} (h : AgreeOn m m' start len) (hstart : start ≤ start')
    (hstop : start' + len' ≤ start + len) : AgreeOn m m' start' len' :=
  fun a hlow hhigh ↦ h a (by omega) (by omega)

theorem SameOff.refl (S : Set ℕ) (m : Mem) : SameOff S m m :=
  fun _ _ ↦ rfl

theorem SameOff.trans {S : Set ℕ} (h : SameOff S m m') (h' : SameOff S m' m'') : SameOff S m m'' :=
  fun a ha ↦ (h' a ha).trans (h a ha)

theorem SameOff.mono {S T : Set ℕ} (h : SameOff S m m') (hsub : S ⊆ T) : SameOff T m m' :=
  fun a ha ↦ h a fun hS ↦ ha (hsub hS)

/-- Memories that differ on `S` only agree on a range that misses `S`. -/
theorem SameOff.agreeOn {S : Set ℕ} (h : SameOff S m m')
    (hdisjoint : Disjoint (Set.Ico start (start + len)) S) : AgreeOn m m' start len :=
  fun a hlow hhigh ↦ (h a (Set.disjoint_left.mp hdisjoint ⟨hlow, hhigh⟩)).symm

/-- A load depends on the bytes it reads only. -/
theorem load_congr {m m' : Mem} {addr width : ℕ} (h : AgreeOn m m' addr width) :
    load m addr width = load m' addr width := by
  induction width generalizing addr with
  | zero => rfl
  | succ width ih =>
    have htail : AgreeOn m m' (addr + 1) width := h.mono (by omega) (by omega)
    rw [load, load, h addr le_rfl (by omega), ih htail]

end Agreement

/-! ### Words -/

theorem load_lt (m : Mem) (addr width : ℕ) : load m addr width < 256 ^ width := by
  induction width generalizing addr with
  | zero => simp [load]
  | succ width ih =>
    have hbyte : (m addr).toNat < 256 := (m addr).toNat_lt
    have htail := ih (addr + 1)
    rw [load, Nat.pow_succ]
    omega

/-- Inside the range it writes, a store leaves the bytes of its value. -/
theorem store_apply_mem {m : Mem} {addr width value a : ℕ} (hlow : addr ≤ a)
    (hhigh : a < addr + width) :
    store m addr width value a = UInt8.ofNat (value / 256 ^ (a - addr)) :=
  if_pos ⟨hlow, hhigh⟩

/-- Outside the range it writes, a store changes nothing. -/
theorem store_apply_of_not_mem {m : Mem} {addr width value a : ℕ}
    (hout : a < addr ∨ addr + width ≤ a) : store m addr width value a = m a :=
  if_neg (by omega)

/-- A store agrees with the memory before it on every range it does not meet. -/
theorem agreeOn_store {m : Mem} {addr width value start len : ℕ}
    (hdisjoint : addr + width ≤ start ∨ start + len ≤ addr) :
    AgreeOn (store m addr width value) m start len :=
  fun _ hlow hhigh ↦ store_apply_of_not_mem (by omega)

/-- A store changes the range it writes only. -/
theorem sameOff_store (m : Mem) (addr width value : ℕ) :
    SameOff (Set.Ico addr (addr + width)) m (store m addr width value) :=
  fun _ hout ↦ if_neg hout

/-- Reading back what a store wrote gives the value, cut to the width. -/
theorem load_store (m : Mem) (addr width value : ℕ) :
    load (store m addr width value) addr width = value % 256 ^ width := by
  -- The tail of the word after `skip` bytes is the value with its low `skip` bytes shifted out.
  have htail : ∀ count skip, skip + count = width →
      load (store m addr width value) (addr + skip) count = value / 256 ^ skip % 256 ^ count := by
    intro count
    induction count with
    | zero => intro skip _; simp [load, Nat.mod_one]
    | succ count ih =>
      intro skip hskip
      have hbyte : (store m addr width value (addr + skip)).toNat = value / 256 ^ skip % 256 := by
        rw [store_apply_mem (by omega) (by omega), Nat.add_sub_cancel_left, UInt8.toNat_ofNat']
      rw [load, hbyte, Nat.add_assoc, ih (skip + 1) (by omega), Nat.pow_succ,
        ← Nat.div_div_eq_div_mul, Nat.pow_succ, Nat.mul_comm (256 ^ count), Nat.mod_mul]
  simpa using htail width 0 (by omega)

/-- Reading back a value that fits the width gives the value. -/
theorem load_store_of_lt {m : Mem} {addr width value : ℕ} (hfits : value < 256 ^ width) :
    load (store m addr width value) addr width = value := by
  rw [load_store, Nat.mod_eq_of_lt hfits]

/-- A load beside a store reads what was there before it. -/
theorem load_store_of_disjoint {m : Mem} {addr width value addr' width' : ℕ}
    (hdisjoint : addr + width ≤ addr' ∨ addr' + width' ≤ addr) :
    load (store m addr width value) addr' width' = load m addr' width' :=
  load_congr (agreeOn_store hdisjoint)

/-! ### Ranges -/

theorem fill_apply_mem {m : Mem} {start len a : ℕ} {byte : UInt8} (hlow : start ≤ a)
    (hhigh : a < start + len) : fill m start len byte a = byte :=
  if_pos ⟨hlow, hhigh⟩

theorem fill_apply_of_not_mem {m : Mem} {start len a : ℕ} {byte : UInt8}
    (hout : a < start ∨ start + len ≤ a) : fill m start len byte a = m a :=
  if_neg (by omega)

/-- A word of a moved range is the word of the source. -/
theorem load_move_mem {m : Mem} {src dst len offset width : ℕ} (hin : offset + width ≤ len) :
    load (move m src dst len) (dst + offset) width = load m (src + offset) width := by
  induction width generalizing offset with
  | zero => rfl
  | succ width ih =>
    have hbyte : move m src dst len (dst + offset) = m (src + offset) := by
      rw [move, if_pos (by omega), Nat.add_sub_cancel_left]
    rw [load, load, hbyte, Nat.add_assoc, ih (by omega), Nat.add_assoc]

/-- A move agrees with the memory before it on every range it does not meet. -/
theorem agreeOn_move {m : Mem} {src dst len start' len' : ℕ}
    (hdisjoint : dst + len ≤ start' ∨ start' + len' ≤ dst) :
    AgreeOn (move m src dst len) m start' len' :=
  fun _ hlow hhigh ↦ if_neg (by omega)

theorem write_apply_mem {m : Mem} {start a : ℕ} {bytes : List UInt8} (hlow : start ≤ a)
    (hhigh : a - start < bytes.length) : write m start bytes a = bytes[a - start] := by
  rw [write, if_pos hlow, List.getElem?_eq_getElem hhigh, Option.getD_some]

theorem write_apply_of_not_mem {m : Mem} {start a : ℕ} {bytes : List UInt8}
    (hout : a < start ∨ start + bytes.length ≤ a) : write m start bytes a = m a := by
  unfold write
  split_ifs with hlow
  · rw [List.getElem?_eq_none (by omega), Option.getD_none]
  · rfl

end Mem

end RustBL
