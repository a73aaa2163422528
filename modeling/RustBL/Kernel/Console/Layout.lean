import Mathlib.Data.List.Basic
import Mathlib.Data.Nat.Basic
import Mathlib.Tactic.SplitIfs

/-!
# Text in lines, and the tail of it in a grid

What a console is for, without pixels. A `TextLayout` is a text broken into lines: the finished
lines and the last one, which is still open. A character goes to the end of the last line, or begins
a new one when the line is full (`TextLayout.put`); a line can also be finished by itself
(`TextLayout.newline`).

A grid of some number of rows shows the last lines of a layout, one a row, from the top
(`TextLayout.cell`). `cell_newline_of_le` and `cell_put` say how the grid changes: finishing a line
moves every row up by one once the grid is full, and a character changes the cell at the cursor
only.
-/

set_option autoImplicit false
set_option relaxedAutoImplicit false

namespace RustBL

/-- A text in lines. -/
structure TextLayout (α : Type) where
  /-- The lines before the last one. -/
  finished : List (List α)
  /-- The last line. -/
  last : List α
  deriving DecidableEq, Repr

namespace TextLayout

variable {α : Type}

/-- The empty text: one empty line. -/
def start : TextLayout α :=
  ⟨[], []⟩

/-- All lines. -/
def lines (layout : TextLayout α) : List (List α) :=
  layout.finished ++ [layout.last]

/-- Start a new line. -/
def newline (layout : TextLayout α) : TextLayout α :=
  ⟨layout.lines, []⟩

/-- Add a character to the last line. -/
def append (layout : TextLayout α) (char : α) : TextLayout α :=
  ⟨layout.finished, layout.last ++ [char]⟩

/-- Add a character, on a new line if it would exceed `columns`. -/
def put (columns : ℕ) (layout : TextLayout α) (char : α) : TextLayout α :=
  (if layout.last.length < columns then layout else layout.newline).append char

/-- No line exceeds `columns`. -/
def Within (columns : ℕ) (layout : TextLayout α) : Prop :=
  ∀ line ∈ layout.lines, line.length ≤ columns

/-- The character at a cell of a grid with `rows` rows that shows the last lines. -/
def cell (rows : ℕ) (layout : TextLayout α) (row column : ℕ) : Option α :=
  (layout.lines.drop (layout.lines.length - rows))[row]?.bind (·[column]?)

/-! ### Lines -/

section Lines

variable {columns : ℕ} {layout : TextLayout α}

theorem length_lines (layout : TextLayout α) :
    layout.lines.length = layout.finished.length + 1 := by
  rw [lines, List.length_append, List.length_singleton]

theorem within_start : (start : TextLayout α).Within columns := by
  intro line hline
  have hempty : line = [] := List.mem_singleton.mp hline
  rw [hempty]
  exact Nat.zero_le columns

theorem Within.newline (h : layout.Within columns) : layout.newline.Within columns := by
  intro line hline
  rw [lines, List.mem_append, List.mem_singleton] at hline
  rcases hline with hfinished | rfl
  · exact h line hfinished
  · exact Nat.zero_le columns

theorem Within.append {char : α} (h : layout.Within columns)
    (hroom : layout.last.length < columns) : (layout.append char).Within columns := by
  intro line hline
  rw [lines, List.mem_append, List.mem_singleton] at hline
  rcases hline with hfinished | rfl
  · exact h line (List.mem_append_left _ hfinished)
  · rw [TextLayout.append, List.length_append, List.length_singleton]
    omega

end Lines

/-! ### The grid -/

section Grid

variable {rows columns : ℕ} {layout : TextLayout α} {row column : ℕ}

theorem cell_eq : layout.cell rows row column =
    layout.lines[layout.lines.length - rows + row]?.bind (·[column]?) := by
  rw [cell, List.getElem?_drop]

/-- The empty text shows nothing. -/
theorem cell_start : (start : TextLayout α).cell rows row column = none := by
  rw [cell_eq, start, lines, List.nil_append]
  cases [([] : List α)].length - rows + row with
  | zero => rfl
  | succ index => rfl

/-- Rows outside the grid show nothing. -/
theorem cell_of_rows_le (hrow : rows ≤ row) : layout.cell rows row column = none := by
  rw [cell_eq, List.getElem?_eq_none (by omega)]
  rfl

/-- Columns outside the grid show nothing. -/
theorem cell_of_columns_le (hwithin : layout.Within columns) (hcolumn : columns ≤ column) :
    layout.cell rows row column = none := by
  rw [cell_eq]
  cases hline : layout.lines[layout.lines.length - rows + row]? with
  | none => rfl
  | some line =>
    have hlength := hwithin line (List.mem_of_getElem? hline)
    exact List.getElem?_eq_none (Nat.le_trans hlength hcolumn)

theorem lines_newline (layout : TextLayout α) : layout.newline.lines = layout.lines ++ [[]] :=
  rfl

/-- A new line shows nothing by itself: reading past the lines and reading the new line agree. -/
theorem getElem?_lines_newline (index : ℕ) :
    layout.newline.lines[index]?.bind (·[column]?) = layout.lines[index]?.bind (·[column]?) := by
  rw [lines_newline]
  by_cases hin : index < layout.lines.length
  · rw [List.getElem?_append_left hin]
  · rw [List.getElem?_append_right (not_lt.mp hin), List.getElem?_eq_none (not_lt.mp hin)]
    cases index - layout.lines.length with
    | zero => rfl
    | succ index => rfl

/-- While the grid has room, a new line changes no cell. -/
theorem cell_newline_of_lt (hroom : layout.lines.length < rows) :
    layout.newline.cell rows row column = layout.cell rows row column := by
  have hlength := layout.newline.length_lines
  have hold : layout.newline.finished = layout.lines := rfl
  rw [hold] at hlength
  have hskip : layout.newline.lines.length - rows = layout.lines.length - rows := by omega
  rw [cell_eq, cell_eq, getElem?_lines_newline, hskip]

/-- When the grid is full, a new line moves every row up by one. -/
theorem cell_newline_of_le (hfull : rows ≤ layout.lines.length) :
    layout.newline.cell rows row column = layout.cell rows (row + 1) column := by
  have hlength := layout.newline.length_lines
  have hold : layout.newline.finished = layout.lines := rfl
  rw [hold] at hlength
  have hskip : layout.newline.lines.length - rows + row =
      layout.lines.length - rows + (row + 1) := by omega
  rw [cell_eq, cell_eq, getElem?_lines_newline, hskip]

/-- A character changes the cell at the end of the last line only. Assumes: the grid has a row. -/
theorem cell_append {char : α} (hrows : 0 < rows) :
    (layout.append char).cell rows row column =
      if row = min layout.finished.length (rows - 1) ∧ column = layout.last.length then some char
      else layout.cell rows row column := by
  have hlength := layout.length_lines
  have hlength' : (layout.append char).lines.length = layout.lines.length := by
    rw [length_lines, length_lines]
    rfl
  have hnew : (layout.append char).cell rows row column =
      (layout.finished ++ [layout.last ++ [char]])[layout.lines.length - rows + row]?.bind
        (·[column]?) := by
    rw [cell_eq, hlength']
    rfl
  have hold : layout.cell rows row column =
      (layout.finished ++ [layout.last])[layout.lines.length - rows + row]?.bind (·[column]?) :=
    cell_eq
  rw [hnew, hold]
  by_cases hrow : row = min layout.finished.length (rows - 1)
  · have hindex : layout.lines.length - rows + row = layout.finished.length := by omega
    rw [hindex, List.getElem?_concat_length, List.getElem?_concat_length, Option.bind_some,
      Option.bind_some]
    by_cases hcolumn : column = layout.last.length
    · rw [if_pos ⟨hrow, hcolumn⟩, hcolumn, List.getElem?_concat_length]
    · rw [if_neg fun h ↦ hcolumn h.2]
      by_cases hin : column < layout.last.length
      · rw [List.getElem?_append_left hin]
      · have hlong : (layout.last ++ [char]).length ≤ column := by
          rw [List.length_append, List.length_singleton]
          omega
        rw [List.getElem?_eq_none hlong, List.getElem?_eq_none (not_lt.mp hin)]
  · rw [if_neg fun h ↦ hrow h.1]
    have hindex : layout.lines.length - rows + row ≠ layout.finished.length := by omega
    by_cases hin : layout.lines.length - rows + row < layout.finished.length
    · rw [List.getElem?_append_left hin, List.getElem?_append_left hin]
    · have hout (line : List α) :
          (layout.finished ++ [line]).length ≤ layout.lines.length - rows + row := by
        rw [List.length_append, List.length_singleton]
        omega
      rw [List.getElem?_eq_none (hout _), List.getElem?_eq_none (hout _)]

end Grid

end TextLayout

end RustBL
