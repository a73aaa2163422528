import RustBL.Kernel.Console.Drawing

/-!
# The console never leaves the framebuffer

`written` is what one byte does to a valid console and the memory, without checks, and
`writeByte_eq` says that the code computes it and does not fault. Every byte keeps the console valid
(`written_valid`), so a console that `Console.new` accepts stays valid over every sequence of bytes.

`console_safe` is the result: no access leaves the surface or the framebuffer, no arithmetic
overflows, and the cursor stays where the next byte can be drawn.
-/

set_option autoImplicit false
set_option relaxedAutoImplicit false

namespace RustBL

open Font

namespace Console

/-! ### The cursor -/

/-- The console with the cursor elsewhere. -/
def moveTo (console : Console) (column row : ℕ) : Console :=
  { console with column := column, row := row }

section Cursor

variable {console : Console} {column row : ℕ}

/-- What a console needs of its framebuffer does not depend on the cursor. -/
theorem Fits.moveTo (hfits : console.Fits) : (console.moveTo column row).Fits :=
  ⟨hfits.width_le, hfits.glyph_width_le, hfits.glyph_height_le, hfits.bytes_le, hfits.end_lt,
    hfits.aligned, hfits.columns_eq, hfits.rows_eq⟩

theorem Fits.valid_moveTo (hfits : console.Fits) (hcolumn : column ≤ console.columns)
    (hrow : row < console.rows) : (console.moveTo column row).Valid :=
  ⟨hfits.moveTo, hcolumn, hrow⟩

end Cursor

/-! ### One byte -/

/-- The console and the memory after a new line was started. -/
def newlined (s : Console × Mem) : Console × Mem :=
  if s.1.row + 1 < s.1.rows then (s.1.moveTo 0 (s.1.row + 1), s.2)
  else (s.1.moveTo 0 s.1.row, s.1.scrolled s.2)

/-- The console and the memory after a glyph was drawn and the cursor moved on. -/
def typed (s : Console × Mem) (byte : UInt8) : Console × Mem :=
  (s.1.moveTo (s.1.column + 1) s.1.row, s.1.drawn s.2 byte)

/-- The console and the memory after the cursor wrapped, if it stood behind the last column. -/
def wrapped (s : Console × Mem) : Console × Mem :=
  if s.1.columns ≤ s.1.column then newlined s else s

/-- The console and the memory after a byte was written. -/
def written (s : Console × Mem) (byte : UInt8) : Console × Mem :=
  if byte = LF then newlined s
  else if byte = CR then s
  else typed (wrapped s) byte

/-- From the first state to the second the console only moved its cursor, is valid again, and
changed bytes of the framebuffer only. -/
structure Keeps (s s' : Console × Mem) : Prop where
  moved : ∃ column row, s'.1 = s.1.moveTo column row
  valid : s'.1.Valid
  sameOff : s.2.SameOff s.1.framebufferBytes s'.2

section Bytes

variable {s s' s'' : Console × Mem} {byte : UInt8}

theorem Keeps.refl (hvalid : s.1.Valid) : Keeps s s :=
  ⟨⟨s.1.column, s.1.row, rfl⟩, hvalid, Mem.SameOff.refl _ _⟩

theorem Keeps.trans (h : Keeps s s') (h' : Keeps s' s'') : Keeps s s'' := by
  obtain ⟨_, _, hmoved⟩ := h.moved
  obtain ⟨column, row, hmoved'⟩ := h'.moved
  have hbytes : s'.1.framebufferBytes = s.1.framebufferBytes := by
    rw [hmoved]
    rfl
  refine ⟨⟨column, row, ?_⟩, h'.valid, h.sameOff.trans (hbytes ▸ h'.sameOff)⟩
  rw [hmoved', hmoved]
  rfl

theorem newlined_keeps (hvalid : s.1.Valid) : Keeps s (newlined s) := by
  rw [newlined]
  split_ifs with hroom
  · exact ⟨⟨_, _, rfl⟩, hvalid.valid_moveTo (Nat.zero_le _) hroom, Mem.SameOff.refl _ _⟩
  · exact ⟨⟨_, _, rfl⟩, hvalid.valid_moveTo (Nat.zero_le _) hvalid.row_lt,
      sameOff_scrolled hvalid.toFits⟩

theorem newlined_column (s : Console × Mem) : (newlined s).1.column = 0 := by
  rw [newlined]
  split_ifs <;> rfl

theorem newlined_columns (s : Console × Mem) : (newlined s).1.columns = s.1.columns := by
  rw [newlined]
  split_ifs <;> rfl

/-- Wrapping makes room for a glyph at the cursor. -/
theorem wrapped_keeps (hvalid : s.1.Valid) :
    Keeps s (wrapped s) ∧ (wrapped s).1.column < (wrapped s).1.columns := by
  rw [wrapped]
  split_ifs with hfull
  · refine ⟨newlined_keeps hvalid, ?_⟩
    rw [newlined_column, newlined_columns]
    exact hvalid.columns_pos
  · exact ⟨Keeps.refl hvalid, not_le.mp hfull⟩

theorem typed_keeps (hvalid : s.1.Valid) (hcolumn : s.1.column < s.1.columns) :
    Keeps s (typed s byte) :=
  ⟨⟨_, _, rfl⟩, hvalid.valid_moveTo hcolumn hvalid.row_lt, sameOff_drawn hvalid hcolumn⟩

/-- Every byte keeps a console valid, and touches the framebuffer only. -/
theorem written_keeps (hvalid : s.1.Valid) : Keeps s (written s byte) := by
  rw [written]
  split_ifs
  · exact newlined_keeps hvalid
  · exact Keeps.refl hvalid
  · obtain ⟨hwrapped, hcolumn⟩ := wrapped_keeps hvalid
    exact hwrapped.trans (typed_keeps hwrapped.valid hcolumn)

/-- In a valid console a new line is started without a fault. -/
theorem newline_eq (hvalid : s.1.Valid) : s.1.newline s.2 = .ok (newlined s) := by
  have hheight := s.1.framebuffer.height.toNat_lt
  have hrows : s.1.rows ≤ s.1.framebuffer.height.toNat := by
    rw [hvalid.rows_eq]
    exact Nat.div_le_self _ _
  have hrow := hvalid.row_lt
  have hfits : s.1.row + 1 < 2 ^ 64 := by omega
  rw [newline, Word.add_eq hfits, ok_bind, newlined]
  by_cases hroom : s.1.row + 1 < s.1.rows
  · rw [if_pos hroom, if_pos hroom]
    rfl
  · rw [if_neg hroom, if_neg hroom]
    have hscroll : (s.1.moveTo 0 s.1.row).scroll s.2 = .ok (s.1.scrolled s.2) :=
      scroll_eq hvalid.moveTo
    exact congrArg (· >>= _) hscroll

theorem wrap_eq (hvalid : s.1.Valid) : s.1.wrap s.2 = .ok (wrapped s) := by
  rw [wrap, wrapped]
  split_ifs
  · exact newline_eq hvalid
  · rfl

/-- In a valid console every byte is written without a fault. -/
theorem writeByte_eq (hvalid : s.1.Valid) : s.1.writeByte s.2 byte = .ok (written s byte) := by
  rw [writeByte, written]
  by_cases hlf : byte = LF
  · rw [if_pos hlf, if_pos hlf]
    exact newline_eq hvalid
  rw [if_neg hlf, if_neg hlf]
  by_cases hcr : byte = CR
  · rw [if_pos hcr, if_pos hcr]
    rfl
  obtain ⟨hkeeps, hcolumn⟩ := wrapped_keeps hvalid
  rw [if_neg hcr, if_neg hcr, wrap_eq hvalid, ok_bind]
  generalize wrapped s = next at hkeeps hcolumn ⊢
  obtain ⟨console, m⟩ := next
  have hwidth := console.framebuffer.width.toNat_lt
  have hcolumns : console.columns ≤ console.framebuffer.width.toNat := by
    rw [hkeeps.valid.columns_eq]
    exact Nat.div_le_self _ _
  have hfits : console.column + 1 < 2 ^ 64 := by
    have hcursor : console.column < console.columns := hcolumn
    omega
  show (console.drawGlyph m byte >>= _) = _
  rw [drawGlyph_eq hkeeps.valid hcolumn, ok_bind, Word.add_eq hfits]
  rfl

/-- In a valid console every sequence of bytes is written without a fault. -/
theorem writeBytes_eq (hvalid : s.1.Valid) (bytes : List UInt8) :
    s.1.writeBytes s.2 bytes = .ok (bytes.foldl written s) ∧ Keeps s (bytes.foldl written s) := by
  refine foldlM_eq_ok (Keeps s) (fun state hstate byte _ ↦ ⟨writeByte_eq hstate.valid, ?_⟩)
    (Keeps.refl hvalid)
  exact hstate.trans (written_keeps hstate.valid)

end Bytes

end Console

/-! ### Safety -/

/-- A console that was accepted writes every sequence of bytes without a fault: no access leaves the
surface or the framebuffer, and no arithmetic overflows. Afterwards the cursor is in the grid or
behind its last column, and no byte outside the framebuffer has changed. -/
theorem console_safe {info : FrameBufferInfo} {console : Console}
    (hnew : Console.new info = some console) (m : Mem) (bytes : List UInt8) :
    ∃ console' m', console.writeBytes m bytes = .ok (console', m') ∧
      console'.framebuffer = info ∧ console'.columns = console.columns ∧
      console'.rows = console.rows ∧ console'.column ≤ console'.columns ∧
      console'.row < console'.rows ∧
      m.SameOff (Set.Ico info.addr.toNat (info.addr.toNat + info.size.toNat)) m' := by
  obtain ⟨hvalid, rfl, _, _⟩ := Console.valid_of_new hnew
  obtain ⟨hran, hkeeps⟩ := Console.writeBytes_eq (s := (console, m)) hvalid bytes
  obtain ⟨column, row, hmoved⟩ := hkeeps.moved
  refine ⟨_, _, hran, ?_, ?_, ?_, hkeeps.valid.column_le, hkeeps.valid.row_lt, hkeeps.sameOff⟩
  · rw [hmoved]
    rfl
  · rw [hmoved]
    rfl
  · rw [hmoved]
    rfl

/-- A framebuffer of one character cell. -/
def oneCellFrameBuffer : FrameBufferInfo :=
  ⟨0x80000000, 512, 8, 16, 8, 4, 1⟩

theorem console_safe_oneCell : ∃ console m', Console.new oneCellFrameBuffer = some console ∧
    console.writeBytes (fun _ ↦ 0) [0x41, 0x42, 0x0a, 0x43] = .ok m' := by
  have hsome : (Console.new oneCellFrameBuffer).isSome := by decide
  obtain ⟨console, hnew⟩ := Option.isSome_iff_exists.mp hsome
  obtain ⟨_, _, hran, _⟩ := console_safe hnew (fun _ ↦ 0) [0x41, 0x42, 0x0a, 0x43]
  exact ⟨console, _, hnew, hran⟩

end RustBL
