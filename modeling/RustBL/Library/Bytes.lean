import RustBL.Library.Checked
import Mathlib.Data.List.TakeWhile

/-!
# Byte strings and little-endian words

Indexing and slicing of a byte string, with the two outcomes they have in a program: `index` and
`range` stop the program when they leave the string, `slice` returns `none`. `readWord` reads a
little-endian word and returns `none` when the string is too short; `readWord_eq` gives its value as
`word`, a plain function of the string. `splitn` cuts a string at the first separators, and leaves
what is behind them whole (`splitn_append`). `take_drop_flatMap` finds a part of a string of blocks.
-/

set_option autoImplicit false
set_option relaxedAutoImplicit false

namespace RustBL

namespace Bytes

/-- `bytes[i]`. -/
def index (bytes : List UInt8) (i : ℕ) : Checked UInt8 :=
  match bytes[i]? with
  | none => .error .outOfBounds
  | some byte => .ok byte

/-- `bytes.get(start..stop)`. -/
def slice (bytes : List UInt8) (start stop : ℕ) : Option (List UInt8) :=
  if start ≤ stop ∧ stop ≤ bytes.length then some ((bytes.drop start).take (stop - start))
  else none

/-- `&bytes[start..stop]`. -/
def range (bytes : List UInt8) (start stop : ℕ) : Checked (List UInt8) :=
  match slice bytes start stop with
  | none => .error .outOfBounds
  | some part => .ok part

/-- The little-endian value of a byte string. -/
def value : List UInt8 → ℕ
  | [] => 0
  | byte :: rest => byte.toNat + 256 * value rest

/-- The little-endian value of the bytes `i, …, i + width - 1`, indexed one by one. -/
def fromLE (bytes : List UInt8) (i : ℕ) : ℕ → Checked ℕ
  | 0 => return 0
  | width + 1 => do
    let byte ← index bytes i
    let rest ← fromLE bytes (i + 1) width
    return byte.toNat + 256 * rest

/-- Read the little-endian word of `width` bytes at `offset`, or `none` when the string is too
short. -/
def readWord (width : ℕ) (bytes : List UInt8) (offset : ℕ) : Checked (Option ℕ) :=
  match Word.checkedAdd offset width with
  | none => return none
  | some stop =>
    match slice bytes offset stop with
    | none => return none
    | some part => do
      let word ← fromLE part 0 width
      return some word

/-- The little-endian word of `width` bytes at `offset`, as far as the string reaches. -/
def word (bytes : List UInt8) (offset width : ℕ) : ℕ :=
  value ((bytes.drop offset).take width)

/-- The parts of `bytes.splitn(count, |byte| byte == separator)`: the last one is what is left when
all others have been split off. -/
def splitn (separator : UInt8) : ℕ → List UInt8 → List (List UInt8)
  | 0, _ => []
  | 1, bytes => [bytes]
  | count + 2, bytes =>
    match bytes.dropWhile (· ≠ separator) with
    | [] => [bytes]
    | _ :: rest => bytes.takeWhile (· ≠ separator) :: splitn separator (count + 1) rest

section Words

variable {bytes : List UInt8} {offset width i : ℕ}

theorem index_eq (h : i < bytes.length) : index bytes i = .ok bytes[i] := by
  rw [index, List.getElem?_eq_getElem h]

theorem range_eq {start stop : ℕ} (hle : start ≤ stop) (hstop : stop ≤ bytes.length) :
    range bytes start stop = .ok ((bytes.drop start).take (stop - start)) := by
  rw [range, slice, if_pos ⟨hle, hstop⟩]

theorem value_lt (bytes : List UInt8) : value bytes < 256 ^ bytes.length := by
  induction bytes with
  | nil => decide
  | cons byte rest ih =>
    have hbyte : byte.toNat < 256 := byte.toNat_lt
    rw [value, List.length_cons, Nat.pow_succ]
    omega

theorem word_lt (bytes : List UInt8) (offset width : ℕ) : word bytes offset width < 256 ^ width :=
  (value_lt _).trans_le (Nat.pow_le_pow_right (by decide) (List.length_take_le _ _))

/-- A part of a string depends on its own bytes only. -/
theorem part_congr {bytes' : List UInt8}
    (h : ∀ a, offset ≤ a → a < offset + width → bytes'[a]? = bytes[a]?) :
    (bytes'.drop offset).take width = (bytes.drop offset).take width := by
  refine List.ext_getElem? fun i ↦ ?_
  rw [List.getElem?_take, List.getElem?_take, List.getElem?_drop, List.getElem?_drop]
  split_ifs with hi
  · exact h (offset + i) (Nat.le_add_right _ _) (Nat.add_lt_add_left hi _)
  · rfl

/-- A word depends on the bytes it reads only. -/
theorem word_congr {bytes' : List UInt8}
    (h : ∀ a, offset ≤ a → a < offset + width → bytes'[a]? = bytes[a]?) :
    word bytes' offset width = word bytes offset width :=
  congrArg value (part_congr h)

/-- The word of the digits of a value is the value, cut to the width. -/
theorem word_of_digits {number : ℕ}
    (h : ∀ j < width, bytes[offset + j]? = some (UInt8.ofNat (number / 256 ^ j))) :
    word bytes offset width = number % 256 ^ width := by
  induction width generalizing offset number with
  | zero => rw [word, List.take_zero, Nat.pow_zero, Nat.mod_one]; rfl
  | succ width ih =>
    obtain ⟨hin, hfirst⟩ := List.getElem?_eq_some_iff.mp (h 0 (Nat.succ_pos width))
    rw [Nat.add_zero] at hin
    have hrest : word bytes (offset + 1) width = number / 256 % 256 ^ width := by
      refine ih fun j hj ↦ ?_
      rw [Nat.add_assoc, Nat.add_comm 1 j, h (j + 1) (Nat.succ_lt_succ hj), Nat.pow_succ',
        Nat.div_div_eq_div_mul]
    have hbyte : bytes[offset].toNat = number % 256 := by
      have hdigit : bytes[offset] = UInt8.ofNat (number / 256 ^ 0) := hfirst
      rw [hdigit, Nat.pow_zero, Nat.div_one, UInt8.toNat_ofNat']
    rw [word, List.drop_eq_getElem_cons hin, List.take_succ_cons, value, ← word, hrest, hbyte,
      Nat.pow_succ', Nat.mod_mul]

/-- Indexing inside the string never faults. -/
theorem fromLE_eq (h : i + width ≤ bytes.length) :
    fromLE bytes i width = .ok (word bytes i width) := by
  induction width generalizing i with
  | zero => rw [fromLE, word, List.take_zero]; rfl
  | succ width ih =>
    have hi : i < bytes.length := by omega
    rw [fromLE, index_eq hi, ok_bind, ih (by omega), ok_bind, word, word,
      List.drop_eq_getElem_cons hi, List.take_succ_cons, value]
    rfl

/-- Reading a word never faults, and succeeds exactly when the string is long enough. -/
theorem readWord_eq (hlength : bytes.length < 2 ^ 64) (width offset : ℕ) :
    readWord width bytes offset =
      .ok (if offset + width ≤ bytes.length then some (word bytes offset width) else none) := by
  by_cases hin : offset + width ≤ bytes.length
  · have hadd : Word.checkedAdd offset width = some (offset + width) :=
      Word.checkedAdd_eq_some.mpr ⟨by omega, rfl⟩
    have hpart : slice bytes offset (offset + width) = some ((bytes.drop offset).take width) := by
      rw [slice, if_pos ⟨Nat.le_add_right _ _, hin⟩, Nat.add_sub_cancel_left]
    have hlen : 0 + width ≤ ((bytes.drop offset).take width).length := by
      rw [List.length_take, List.length_drop]
      omega
    rw [readWord, hadd, if_pos hin]
    simp only
    rw [hpart]
    simp only
    rw [fromLE_eq hlen, ok_bind, word, word, List.drop_zero, List.take_take, Nat.min_self]
    rfl
  · rw [readWord, if_neg hin]
    cases hadd : Word.checkedAdd offset width with
    | none => rfl
    | some stop =>
      obtain ⟨_, rfl⟩ := Word.checkedAdd_eq_some.mp hadd
      simp only
      rw [slice, if_neg fun h ↦ hin h.2]
      rfl

/-- A slice that is returned lies inside the string. -/
theorem slice_eq_some {start stop : ℕ} {part : List UInt8} : slice bytes start stop = some part ↔
    start ≤ stop ∧ stop ≤ bytes.length ∧ (bytes.drop start).take (stop - start) = part := by
  rw [slice]
  split_ifs with hin
  · exact ⟨fun h ↦ ⟨hin.1, hin.2, Option.some.inj h⟩, fun h ↦ congrArg some h.2.2⟩
  · exact ⟨fun h ↦ (nomatch h), fun h ↦ absurd ⟨h.1, h.2.1⟩ hin⟩

end Words

section Splitn

variable {separator : UInt8} {line rest bytes : List UInt8} {count : ℕ}

/-- A string without a separator is one part. -/
theorem splitn_of_notMem (h : separator ∉ bytes) :
    splitn separator (count + 2) bytes = [bytes] := by
  have hnone : bytes.dropWhile (· ≠ separator) = [] := by
    rw [List.dropWhile_eq_nil_iff]
    exact fun byte hbyte ↦ decide_eq_true fun heq ↦ h (heq ▸ hbyte)
  rw [splitn, hnone]

/-- The bytes before the first separator are the first part. -/
theorem splitn_append (h : separator ∉ line) :
    splitn separator (count + 2) (line ++ separator :: rest) =
      line :: splitn separator (count + 1) rest := by
  have hline : ∀ byte ∈ line, decide (byte ≠ separator) = true :=
    fun byte hbyte ↦ decide_eq_true fun heq ↦ h (heq ▸ hbyte)
  have hseparator : decide (separator ≠ separator) = false := decide_eq_false (not_not.mpr rfl)
  rw [splitn, List.dropWhile_append_of_pos hline, List.takeWhile_append_of_pos hline,
    List.dropWhile_cons, List.takeWhile_cons, hseparator]
  exact congrArg (· :: _) (List.append_nil line)

/-- A string with a separator is split at the first one. -/
theorem splitn_cases (separator : UInt8) (count : ℕ) (bytes : List UInt8) :
    splitn separator (count + 2) bytes = [bytes] ∨ ∃ line rest,
      bytes = line ++ separator :: rest ∧
        splitn separator (count + 2) bytes = line :: splitn separator (count + 1) rest := by
  by_cases hmem : separator ∈ bytes
  · obtain ⟨line, rest, rfl, hline⟩ := List.eq_append_cons_of_mem hmem
    exact Or.inr ⟨line, rest, rfl, splitn_append hline⟩
  · exact Or.inl (splitn_of_notMem hmem)

end Splitn

/-! ### Strings of blocks -/

section Blocks

variable {α : Type} {f : ℕ → List α} {width n k : ℕ}

theorem length_flatMap_range (hwidth : ∀ i, (f i).length = width) (n : ℕ) :
    ((List.range n).flatMap f).length = n * width := by
  induction n with
  | zero =>
    rw [Nat.zero_mul]
    rfl
  | succ n ih =>
    rw [List.range_succ, List.flatMap_append, List.length_append, ih, List.flatMap_singleton,
      hwidth, Nat.succ_mul]

/-- A part of one of several blocks of the same width. -/
theorem take_drop_flatMap (hwidth : ∀ i, (f i).length = width) (hk : k < n) {offset count : ℕ}
    (hcount : offset + count ≤ width) :
    (((List.range n).flatMap f).drop (k * width + offset)).take count =
      ((f k).drop offset).take count := by
  induction n with
  | zero => exact absurd hk (Nat.not_lt_zero k)
  | succ n ih =>
    have hfront := length_flatMap_range hwidth n
    rw [List.range_succ, List.flatMap_append, List.flatMap_singleton]
    rcases Nat.lt_succ_iff_lt_or_eq.mp hk with hlt | rfl
    · -- The part ends before the last block begins.
      have hblock := Nat.mul_le_mul_right width (Nat.succ_le_of_lt hlt)
      rw [Nat.succ_mul] at hblock
      rw [List.drop_append_of_le_length (by omega), List.take_append_of_le_length, ih hlt]
      rw [List.length_drop]
      omega
    · rw [← hfront, List.drop_length_add_append]

end Blocks

end Bytes

end RustBL
