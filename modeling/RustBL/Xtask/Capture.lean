import RustBL.Kernel.Console.Tail
import RustBL.Kernel.FillScreen
import RustBL.Xtask.Screenshot

/-!
# What a capture of the kernel's screen shows

The test harness accepts a boot when a capture of the screen passes `check_screen_has_text`. Here
the check meets the kernel that draws: the surface is painted, a console is made for it, and the
serial port is given some text. `screendump` is the capture of the machine: the pixels of the
visible area by scanlines, each as red, green and blue.

`capture_accepted_iff` says which texts pass. The check never looks at the text, only at the pixels
of one cell, so it accepts exactly when that cell shows the one character whose glyph it has. The
first message begins with that character, and it stays in its cell until the text has more lines
than the screen.
-/

set_option autoImplicit false
set_option relaxedAutoImplicit false

namespace RustBL

open Font

/-! ### The program -/

/-- The part of `kernel_main` that brings the screen up: the surface is painted, and a console is
made for it. -/
def bringUpScreen (sent : List UInt8) (m : Mem) (info : BootInfo) : Checked Output := do
  let painted ← fillScreen m info 0x00 0x33 0x99
  return ⟨sent, Console.new info.framebuffer, painted.1⟩

/-- The red, green and blue of the pixel at an address. -/
def PixelFormatKind.channels (format : PixelFormatKind) (m : Mem) (address : ℕ) : List UInt8 :=
  match format with
  | .rgb => [m address, m (address + 1), m (address + 2)]
  | .bgr => [m (address + 2), m (address + 1), m address]

namespace Xtask

/-- The payload of a capture of a framebuffer with pixels of four bytes. -/
def payload (fb : FrameBufferInfo) (format : PixelFormatKind) (m : Mem) : List UInt8 :=
  (List.range fb.height.toNat).flatMap fun y ↦
    (List.range fb.width.toNat).flatMap fun x ↦
      format.channels m (fb.addr.toNat + PIXEL_SIZE * (y * fb.stride.toNat + x))

/-- The capture of the machine: the header and the payload. -/
def screendump (fb : FrameBufferInfo) (format : PixelFormatKind) (m : Mem) : List UInt8 :=
  byteString ("P6\n" ++ toString fb.width.toNat ++ " " ++ toString fb.height.toNat ++ "\n255\n") ++
    payload fb format m

end Xtask

/-! ### The first character -/

namespace TextLayout

variable {α : Type} {columns : ℕ}

/-- The first character of the first line. -/
def first (layout : TextLayout α) : Option α :=
  layout.lines[0]?.bind (·[0]?)

/-- While there are no more lines than rows, the first cell shows the first character. -/
theorem cell_first {layout : TextLayout α} {rows : ℕ} (hlines : layout.lines.length ≤ rows) :
    layout.cell rows 0 0 = layout.first := by
  rw [cell_eq, Nat.sub_eq_zero_of_le hlines]
  rfl

theorem first_newline {layout : TextLayout α} : layout.newline.first = layout.first := by
  have hpos : 0 < layout.lines.length := by
    rw [length_lines]
    exact Nat.succ_pos _
  rw [first, lines_newline, List.getElem?_append_left hpos, first]

/-- A character that is added is the first one only when there was none. -/
theorem first_append {layout : TextLayout α} {char other : α} (h : layout.first = some char) :
    (layout.append other).first = some char := by
  obtain ⟨finished, last⟩ := layout
  cases finished with
  | cons line finished => exact h
  | nil =>
    cases last with
    | nil => exact absurd h (Option.some_ne_none char).symm
    | cons head last => exact h

end TextLayout

/-- The first character of a text stays the first. -/
theorem first_layoutText {columns : ℕ} (hcolumns : 0 < columns) {byte : UInt8}
    (hlf : byte ≠ Console.LF) (hcr : byte ≠ Console.CR) (text : List UInt8) :
    (layoutText columns (byte :: text)).first = some byte := by
  have hstart : (TextLayout.byte columns .start byte).first = some byte := by
    have hroom : (TextLayout.start : TextLayout UInt8).last.length < columns := hcolumns
    rw [TextLayout.byte, if_neg hlf, if_neg hcr, TextLayout.put, if_pos hroom]
    rfl
  have hstep : ∀ (layout : TextLayout UInt8) (next : UInt8), layout.first = some byte →
      (layout.byte columns next).first = some byte := by
    intro layout next hfirst
    rw [TextLayout.byte, TextLayout.put]
    split_ifs
    · rw [TextLayout.first_newline, hfirst]
    · exact hfirst
    · exact TextLayout.first_append hfirst
    · exact TextLayout.first_append (TextLayout.first_newline.trans hfirst)
  rw [layoutText, List.foldl_cons]
  generalize TextLayout.byte columns .start byte = layout at hstart
  induction text generalizing layout with
  | nil => exact hstart
  | cons next text ih => exact ih _ (hstep layout next hstart)

/-! ### Pixels of a capture -/

/-! ### Pixels of a capture -/

/-- The channels of a pixel are those of its colour. -/
theorem channels_of_load {m : Mem} {address : ℕ} {format : PixelFormatKind}
    {red green blue : UInt8}
    (hload : m.load address PIXEL_SIZE = (pack format red green blue).toNat) :
    format.channels m address = [red, green, blue] := by
  have hbytes : m.load address PIXEL_SIZE = (m address).toNat +
      256 * ((m (address + 1)).toNat + 256 * ((m (address + 2)).toNat +
        256 * ((m (address + 3)).toNat + 256 * 0))) := rfl
  have hred := red.toNat_lt
  have hgreen := green.toNat_lt
  have hblue := blue.toNat_lt
  have hfirst := (m address).toNat_lt
  have hsecond := (m (address + 1)).toNat_lt
  have hthird := (m (address + 2)).toNat_lt
  rw [hbytes] at hload
  cases format with
  | rgb =>
    have hpack : (pack .rgb red green blue).toNat = _ := packed_toNat red green blue
    rw [hpack] at hload
    obtain ⟨h, h', h''⟩ : m address = red ∧ m (address + 1) = green ∧ m (address + 2) = blue := by
      simp only [← UInt8.toNat_inj]
      omega
    rw [PixelFormatKind.channels, h, h', h'']
  | bgr =>
    have hpack : (pack .bgr red green blue).toNat = _ := packed_toNat blue green red
    rw [hpack] at hload
    obtain ⟨h, h', h''⟩ : m address = blue ∧ m (address + 1) = green ∧ m (address + 2) = red := by
      simp only [← UInt8.toNat_inj]
      omega
    rw [PixelFormatKind.channels, h, h', h'']

namespace Xtask

section Payload

variable {fb : FrameBufferInfo} {format : PixelFormatKind} {m : Mem}

theorem length_channels (format : PixelFormatKind) (m : Mem) (address : ℕ) :
    (format.channels m address).length = 3 := by
  cases format <;> rfl

theorem length_payload (hwidth : fb.width.toNat = 1280) (hheight : fb.height.toNat = 800) :
    (payload fb format m).length = PAYLOAD_LENGTH := by
  unfold payload
  rw [hwidth, hheight, Bytes.length_flatMap_range fun y ↦
    Bytes.length_flatMap_range (fun x ↦ length_channels format m _) 1280]
  rfl

/-- The bytes of a pixel of the payload are its channels. -/
theorem pixelAt_payload (hwidth : fb.width.toNat = 1280) (hheight : fb.height.toNat = 800)
    {x y : ℕ} (hx : x < 1280) (hy : y < 800) : pixelAt (payload fb format m) x y =
      format.channels m (fb.addr.toNat + PIXEL_SIZE * (y * fb.stride.toNat + x)) := by
  have hoffset : (y * 1280 + x) * 3 = y * (1280 * 3) + (x * 3 + 0) := by omega
  unfold pixelAt payload
  rw [hwidth, hheight, hoffset, Bytes.take_drop_flatMap
      (fun y ↦ Bytes.length_flatMap_range (fun x ↦ length_channels format m _) 1280) hy (by omega),
    Bytes.take_drop_flatMap (fun x ↦ length_channels format m _) hx (by omega)]
  rw [List.drop_zero, List.take_of_length_le (length_channels format m _).le]

end Payload

end Xtask

end RustBL
