import RustBL.Kernel.Console.Layout
import RustBL.Kernel.Console.Safety

/-!
# The screen shows the tail of the text

A console refines a text in lines (`TextLayout`). `Shows` relates the two: the cursor stands behind
the last line, and every pixel of the visible area has the colour of its cell in the grid of the
last lines. The relation is about the whole visible area, so it also says that the band below the
grid is background; that band is what scrolling slides into the last row when the height is not a
multiple of the glyph height.

`shows_written` is the step: a byte keeps the relation. `screen_shows_tail` is the run: whatever
text the serial port is given, in whatever fragments, the screen shows the tail of the lines of the
text.
-/

set_option autoImplicit false
set_option relaxedAutoImplicit false

namespace RustBL

open Font

/-! ### The lines of a text -/

/-- What a byte does to the lines: a line feed starts a new line, a carriage return does nothing,
and every other byte is a character. -/
def TextLayout.byte (columns : ℕ) (layout : TextLayout UInt8) (byte : UInt8) : TextLayout UInt8 :=
  if byte = Console.LF then layout.newline
  else if byte = Console.CR then layout
  else layout.put columns byte

/-- The lines of a text. -/
def layoutText (columns : ℕ) (text : List UInt8) : TextLayout UInt8 :=
  text.foldl (TextLayout.byte columns) .start

theorem layoutText_append (columns : ℕ) (text : List UInt8) (byte : UInt8) :
    layoutText columns (text ++ [byte]) = (layoutText columns text).byte columns byte :=
  List.foldl_append

namespace Console

/-- The colour of a pixel whose cell holds a character or none. -/
def cellColour (console : Console) (cell : Option UInt8) (x y : ℕ) : UInt32 :=
  match cell with
  | some byte => console.glyphColour byte x y
  | none => console.background

/-- The pixel at `(x, y)` in a memory. -/
def pixelAt (console : Console) (m : Mem) (x y : ℕ) : ℕ :=
  console.pixels m (console.index x y)

/-- The console and the memory show the tail of some lines. -/
structure Shows (layout : TextLayout UInt8) (s : Console × Mem) : Prop where
  column_eq : s.1.column = layout.last.length
  row_eq : s.1.row = min layout.finished.length (s.1.rows - 1)
  within : layout.Within s.1.columns
  pixels : ∀ x < s.1.width, ∀ y < s.1.height, s.1.pixelAt s.2 x y =
    (s.1.cellColour (layout.cell s.1.rows (y / GLYPH_HEIGHT) (x / GLYPH_WIDTH)) x y).toNat

/-! ### One byte -/

section Steps

variable {layout : TextLayout UInt8} {s : Console × Mem} {byte : UInt8}

/-- A new console shows the empty text, on a surface painted in the background. -/
theorem shows_start {console : Console} {m : Mem} (hcolumn : console.column = 0)
    (hrow : console.row = 0) (hbackground : ∀ x < console.width, ∀ y < console.height,
      console.pixelAt m x y = console.background.toNat) : Shows .start (console, m) := by
  refine ⟨hcolumn, ?_, TextLayout.within_start, fun x hx y hy ↦ ?_⟩
  · rw [hrow]
    exact (Nat.zero_min _).symm
  · rw [TextLayout.cell_start]
    exact hbackground x hx y hy

/-- The pixels a text row below are those of the cell below. -/
theorem cellColour_below (console : Console) (cell : Option UInt8) (x y : ℕ) :
    console.cellColour cell x (y + GLYPH_HEIGHT) = console.cellColour cell x y := by
  cases cell with
  | none => rfl
  | some byte => simp only [cellColour, glyphColour, Nat.add_mod_right]

/-- Moving the cursor down shows the lines with a new line. Assumes: there is a row below. -/
theorem shows_down (hshows : Shows layout s) (hroom : s.1.row + 1 < s.1.rows) :
    Shows layout.newline (s.1.moveTo 0 (s.1.row + 1), s.2) := by
  have hrow := hshows.row_eq
  have hlength := layout.length_lines
  have hlines : layout.lines.length < s.1.rows := by omega
  refine ⟨rfl, ?_, hshows.within.newline, fun x hx y hy ↦ ?_⟩
  · show s.1.row + 1 = min layout.lines.length (s.1.rows - 1)
    omega
  · have hcell : layout.newline.cell s.1.rows (y / GLYPH_HEIGHT) (x / GLYPH_WIDTH) =
        layout.cell s.1.rows (y / GLYPH_HEIGHT) (x / GLYPH_WIDTH) :=
      TextLayout.cell_newline_of_lt hlines
    exact hcell ▸ hshows.pixels x hx y hy

/-- Scrolling shows the lines with a new line. Assumes: the cursor is in the last row. -/
theorem shows_scrolled (hvalid : s.1.Valid) (hshows : Shows layout s)
    (hfull : ¬ s.1.row + 1 < s.1.rows) :
    Shows layout.newline (s.1.moveTo 0 s.1.row, s.1.scrolled s.2) := by
  have hrow := hshows.row_eq
  have hrowLt := hvalid.row_lt
  have hlength := layout.length_lines
  have hlines : s.1.rows ≤ layout.lines.length := by omega
  refine ⟨rfl, ?_, hshows.within.newline, fun x hx y hy ↦ ?_⟩
  · show s.1.row = min layout.lines.length (s.1.rows - 1)
    omega
  show s.1.pixels (s.1.scrolled s.2) (s.1.index x y) = (s.1.cellColour
    (layout.newline.cell s.1.rows (y / GLYPH_HEIGHT) (x / GLYPH_WIDTH)) x y).toNat
  have hbelow : (y + GLYPH_HEIGHT) / GLYPH_HEIGHT = y / GLYPH_HEIGHT + 1 :=
    Nat.add_div_right y (by decide)
  rw [pixels_scrolled hvalid.toFits hx hy, TextLayout.cell_newline_of_le hlines, ← hbelow]
  split_ifs with hmoved
  · have hpixel := hshows.pixels x hx (y + GLYPH_HEIGHT) hmoved
    rw [cellColour_below] at hpixel
    exact hpixel
  · -- The row below the pixel is below the grid.
    have hrows : s.1.rows ≤ (y + GLYPH_HEIGHT) / GLYPH_HEIGHT := by
      rw [hvalid.rows_eq]
      exact Nat.div_le_div_right (not_lt.mp hmoved)
    rw [TextLayout.cell_of_rows_le hrows]
    rfl

/-- A new line shows the lines with a new line. -/
theorem shows_newlined (hvalid : s.1.Valid) (hshows : Shows layout s) :
    Shows layout.newline (newlined s) := by
  rw [newlined]
  by_cases hroom : s.1.row + 1 < s.1.rows
  · rw [if_pos hroom]
    exact shows_down hshows hroom
  · rw [if_neg hroom]
    exact shows_scrolled hvalid hshows hroom

/-- A glyph shows the lines with its character. Assumes: the last line has room. -/
theorem shows_typed (hvalid : s.1.Valid) (hcolumn : s.1.column < s.1.columns)
    (hshows : Shows layout s) : Shows (layout.append byte) (typed s byte) := by
  have hcolumnEq := hshows.column_eq
  have hroom : layout.last.length < s.1.columns := by omega
  refine ⟨?_, hshows.row_eq, hshows.within.append hroom, fun x hx y hy ↦ ?_⟩
  · show s.1.column + 1 = (layout.last ++ [byte]).length
    rw [List.length_append, List.length_singleton, hcolumnEq]
  · show s.1.pixels (s.1.drawn s.2 byte) (s.1.index x y) = (s.1.cellColour
      ((layout.append byte).cell s.1.rows (y / GLYPH_HEIGHT) (x / GLYPH_WIDTH)) x y).toNat
    rw [pixels_drawn hvalid.toFits hcolumn hx, TextLayout.cell_append hvalid.rows_pos,
      ← hshows.row_eq, ← hcolumnEq]
    split_ifs
    · rfl
    · exact hshows.pixels x hx y hy

/-- Wrapping starts a new line when the last one is full. -/
theorem shows_wrapped (hvalid : s.1.Valid) (hshows : Shows layout s) :
    Shows (if layout.last.length < s.1.columns then layout else layout.newline) (wrapped s) := by
  rw [wrapped, hshows.column_eq]
  by_cases hroom : layout.last.length < s.1.columns
  · rw [if_pos hroom, if_neg (not_le.mpr hroom)]
    exact hshows
  · rw [if_neg hroom, if_pos (not_lt.mp hroom)]
    exact shows_newlined hvalid hshows

/-- Every byte shows the lines with the byte. -/
theorem shows_written (hvalid : s.1.Valid) (hshows : Shows layout s) :
    Shows (layout.byte s.1.columns byte) (written s byte) := by
  rw [written, TextLayout.byte]
  by_cases hlf : byte = LF
  · rw [if_pos hlf, if_pos hlf]
    exact shows_newlined hvalid hshows
  rw [if_neg hlf, if_neg hlf]
  by_cases hcr : byte = CR
  · rw [if_pos hcr, if_pos hcr]
    exact hshows
  rw [if_neg hcr, if_neg hcr]
  obtain ⟨hkeeps, hcolumn⟩ := wrapped_keeps hvalid
  exact shows_typed hkeeps.valid hcolumn (shows_wrapped hvalid hshows)

end Steps

end Console

/-! ### The serial port -/

namespace Output

/-- The output goes to a console with the given surface, which shows the tail of a text. -/
structure Displays (console : Console) (text : List UInt8) (output : Output) (current : Console) :
    Prop where
  console_eq : output.console = some current
  moved : ∃ column row, current = console.moveTo column row
  valid : current.Valid
  shows : Console.Shows (layoutText console.columns text) (current, output.mem)

section Fragments

variable {console current : Console} {text : List UInt8} {output : Output}

theorem consoleWriteByte_eq (hconsole : output.console = some current) (hvalid : current.Valid)
    (byte : UInt8) : output.consoleWriteByte byte =
      .ok { output with
        console := some (Console.written (current, output.mem) byte).1
        mem := (Console.written (current, output.mem) byte).2 } := by
  have hran : current.writeByte output.mem byte =
      .ok (Console.written (current, output.mem) byte) :=
    Console.writeByte_eq (s := (current, output.mem)) hvalid
  rw [consoleWriteByte, hconsole]
  show (current.writeByte output.mem byte >>= _) = _
  rw [hran, ok_bind]
  rfl

/-- The carriage return in front of a line feed changes neither the console nor the memory. -/
theorem writeReturn_eq (hconsole : output.console = some current) (hvalid : current.Valid)
    (byte : UInt8) : ∃ sent, output.writeReturn byte = .ok ⟨sent, some current, output.mem⟩ := by
  rw [writeReturn]
  by_cases hlf : byte = Console.LF
  · have hsent : (output.serialWriteByte Console.CR).console = some current := hconsole
    rw [if_pos hlf, consoleWriteByte_eq hsent hvalid]
    exact ⟨_, rfl⟩
  · rw [if_neg hlf]
    refine ⟨output.sent, ?_⟩
    rw [← hconsole]
    rfl

/-- A byte given to the serial port is displayed. -/
theorem writeStrByte_displays (hdisplays : Displays console text output current) (byte : UInt8) :
    ∃ output' current', output.writeStrByte byte = .ok output' ∧
      Displays console (text ++ [byte]) output' current' := by
  obtain ⟨sent, hreturn⟩ := writeReturn_eq hdisplays.console_eq hdisplays.valid byte
  rw [writeStrByte, hreturn, ok_bind, consoleWriteByte_eq rfl hdisplays.valid]
  refine ⟨_, _, rfl, rfl, ?_, ?_, ?_⟩
  · obtain ⟨column, row, hcurrent⟩ := hdisplays.moved
    obtain ⟨column', row', hmoved⟩ :=
      (Console.written_keeps (s := (current, output.mem)) hdisplays.valid).moved
    refine ⟨column', row', hmoved.trans ?_⟩
    rw [hcurrent]
    rfl
  · exact (Console.written_keeps (s := (current, output.mem)) hdisplays.valid).valid
  · obtain ⟨column, row, hcurrent⟩ := hdisplays.moved
    have hcolumns : current.columns = console.columns := by
      rw [hcurrent]
      rfl
    rw [layoutText_append, ← hcolumns]
    have hshows := hdisplays.shows
    rw [← hcolumns] at hshows
    exact Console.shows_written hdisplays.valid hshows

/-- A fragment given to the serial port is displayed. -/
theorem writeStr_displays (hdisplays : Displays console text output current)
    (bytes : List UInt8) : ∃ output' current', output.writeStr bytes = .ok output' ∧
      Displays console (text ++ bytes) output' current' := by
  induction bytes generalizing text output current with
  | nil => exact ⟨output, current, rfl, by rwa [List.append_nil]⟩
  | cons byte bytes ih =>
    obtain ⟨next, console', hbyte, hnext⟩ := writeStrByte_displays hdisplays byte
    obtain ⟨output', current', hrest, hlast⟩ := ih hnext
    rw [List.append_assoc, List.singleton_append] at hlast
    refine ⟨output', current', ?_, hlast⟩
    rw [writeStr, List.foldlM_cons, hbyte, ok_bind]
    exact hrest

/-- Fragments given to the serial port are displayed as one text. -/
theorem writeFragments_displays (hdisplays : Displays console text output current)
    (fragments : List (List UInt8)) :
    ∃ output' current', output.writeFragments fragments = .ok output' ∧
      Displays console (text ++ fragments.flatten) output' current' := by
  induction fragments generalizing text output current with
  | nil => exact ⟨output, current, rfl, by rwa [List.flatten_nil, List.append_nil]⟩
  | cons fragment fragments ih =>
    obtain ⟨next, console', hfragment, hnext⟩ := writeStr_displays hdisplays fragment
    obtain ⟨output', current', hrest, hlast⟩ := ih hnext
    rw [List.append_assoc, ← List.flatten_cons] at hlast
    refine ⟨output', current', ?_, hlast⟩
    rw [writeFragments, List.foldlM_cons, hfragment, ok_bind]
    exact hrest

end Fragments

end Output

/-! ### The screen -/

/-- Whatever text the serial port is given, in whatever fragments, every pixel of the visible area
afterwards has the colour of its cell in the grid of the last lines of the text, and the background
where it lies outside the grid. Assumes: the console was accepted, and the visible area was painted
in its background. -/
theorem screen_shows_tail {info : FrameBufferInfo} {console : Console}
    (hnew : Console.new info = some console) (m : Mem)
    (hbackground : ∀ x < console.width, ∀ y < console.height,
      console.pixelAt m x y = console.background.toNat)
    (sent : List UInt8) (fragments : List (List UInt8)) :
    ∃ output, Output.writeFragments ⟨sent, some console, m⟩ fragments = .ok output ∧
      ∀ x < console.width, ∀ y < console.height,
        console.pixelAt output.mem x y =
          (console.cellColour ((layoutText console.columns fragments.flatten).cell console.rows
            (y / GLYPH_HEIGHT) (x / GLYPH_WIDTH)) x y).toNat ∧
        (console.columns ≤ x / GLYPH_WIDTH ∨ console.rows ≤ y / GLYPH_HEIGHT →
          console.pixelAt output.mem x y = console.background.toNat) := by
  obtain ⟨hvalid, _, hcolumn, hrow⟩ := Console.valid_of_new hnew
  have hstart : Output.Displays console [] ⟨sent, some console, m⟩ console :=
    ⟨rfl, ⟨console.column, console.row, rfl⟩, hvalid, Console.shows_start hcolumn hrow hbackground⟩
  obtain ⟨output, current, hran, hdisplays⟩ := Output.writeFragments_displays hstart fragments
  rw [List.nil_append] at hdisplays
  obtain ⟨column, row, rfl⟩ := hdisplays.moved
  refine ⟨output, hran, fun x hx y hy ↦ ⟨hdisplays.shows.pixels x hx y hy, fun hout ↦ ?_⟩⟩
  have hempty : (layoutText console.columns fragments.flatten).cell console.rows
      (y / GLYPH_HEIGHT) (x / GLYPH_WIDTH) = none := by
    rcases hout with hcolumn | hrow
    · exact TextLayout.cell_of_columns_le hdisplays.shows.within hcolumn
    · exact TextLayout.cell_of_rows_le hrow
  have hpixel := hdisplays.shows.pixels x hx y hy
  exact hpixel.trans (congrArg (fun cell ↦ (console.cellColour cell x y).toNat) hempty)

/-- A memory painted in the background of the one-cell framebuffer. -/
def paintedMemory : Mem := fun a ↦
  if a % 4 = 0 then 0x99 else if a % 4 = 1 then 0x33 else 0

/-- After the text `AB` and a line feed, the one cell is empty again. -/
theorem screen_shows_tail_oneCell : ∃ console output,
    Console.new oneCellFrameBuffer = some console ∧
      Output.writeFragments ⟨[], some console, paintedMemory⟩ [[0x41], [], [0x42, 0x0a]] =
        .ok output ∧
      ∀ x < console.width, ∀ y < console.height,
        console.pixelAt output.mem x y = console.background.toNat := by
  have hnew : Console.new oneCellFrameBuffer =
      some ⟨oneCellFrameBuffer, 0, 0, 1, 1, 0xe0e0e0, 0x3399⟩ := by decide
  obtain ⟨output, hran, hpixels⟩ := screen_shows_tail hnew paintedMemory (by decide +kernel) []
    [[0x41], [], [0x42, 0x0a]]
  refine ⟨_, output, hnew, hran, fun x hx y hy ↦ ?_⟩
  have hempty : (layoutText 1 [[0x41], [], [0x42, 0x0a]].flatten).cell 1 (y / GLYPH_HEIGHT)
      (x / GLYPH_WIDTH) = none := by
    have hlast : y / GLYPH_HEIGHT = 0 := Nat.div_eq_of_lt hy
    rw [hlast]
    rfl
  rw [(hpixels x hx y hy).1, hempty]
  rfl

end RustBL
