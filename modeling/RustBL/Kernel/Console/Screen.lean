import RustBL.BootInfo.Layout
import RustBL.Kernel.Console.Font

/-!
# The text console and the serial port

The console draws text straight into the framebuffer: it keeps a cursor in character cells, draws
the glyph of each byte at the cursor, and scrolls by moving the pixels of the whole surface. It
keeps no copy of the text. `Console.new` checks the framebuffer once, and nothing is checked
afterwards.

Every access to the framebuffer goes through `Console.access`, which faults unless the pixels it
names are pixels of the surface, the bytes lie in the framebuffer, and the address is that of a
`u32`. The arithmetic on `usize` is checked, so a run that ends in `ok` made no other access and met
no overflow.

`SerialPort::write_str` sends every byte to the UART and to the console. The wait for the transmit
register has no other effect than to end, and is left out.
-/

set_option autoImplicit false
set_option relaxedAutoImplicit false

namespace RustBL

open Font

/-- `size_of::<u32>()`, and its alignment. -/
def PIXEL_SIZE : ℕ := 4

/-- `pack`: a colour in the pixel layout of the framebuffer. -/
def pack (format : PixelFormatKind) (red green blue : UInt8) : UInt32 :=
  let (r, g, b) := (red.toUInt32, green.toUInt32, blue.toUInt32)
  match format with
  | .rgb => r ||| (g <<< 8) ||| (b <<< 16)
  | .bgr => b ||| (g <<< 8) ||| (r <<< 16)

/-- Everything needed to paint text. -/
structure Console where
  /-- The framebuffer. -/
  framebuffer : FrameBufferInfo
  /-- The column of the cursor, in cells. -/
  column : ℕ
  /-- The row of the cursor, in cells. -/
  row : ℕ
  /-- The number of columns. -/
  columns : ℕ
  /-- The number of rows. -/
  rows : ℕ
  /-- The colour of lit pixels. -/
  foreground : UInt32
  /-- The colour of all others. -/
  background : UInt32
  deriving DecidableEq, Repr

namespace Console

/-- `Console::new`. -/
def new (framebuffer : FrameBufferInfo) : Option Console := do
  let format ← framebuffer.pixelFormat
  let width := framebuffer.width.toNat
  let height := framebuffer.height.toNat
  let stride := framebuffer.stride.toNat
  if framebuffer.addr = 0 ∨ framebuffer.addr.toNat % PIXEL_SIZE ≠ 0 ∨
      framebuffer.bytesPerPixel.toNat ≠ PIXEL_SIZE ∨ stride < width ∨ width < GLYPH_WIDTH ∨
      height < GLYPH_HEIGHT then none
  else do
    let pixels ← Word.checkedMul stride height
    let bytes ← Word.checkedMul pixels PIXEL_SIZE
    if framebuffer.size.toNat < bytes ∨
        Word.checkedAdd framebuffer.addr.toNat bytes = none then none
    else return {
      framebuffer := framebuffer
      column := 0
      row := 0
      columns := width / GLYPH_WIDTH
      rows := height / GLYPH_HEIGHT
      foreground := pack format 0xe0 0xe0 0xe0
      background := pack format 0x00 0x33 0x99 }

section Geometry

variable (console : Console)

/-- The address of the first pixel. -/
def base : ℕ := console.framebuffer.addr.toNat
/-- The width in pixels. -/
def width : ℕ := console.framebuffer.width.toNat
/-- The height in pixels. -/
def height : ℕ := console.framebuffer.height.toNat
/-- The pixels of a scanline, padding included. -/
def stride : ℕ := console.framebuffer.stride.toNat

end Geometry

/-- An access to `count` pixels, the first of them pixel number `offset` at `address`. -/
def access (console : Console) (offset address count : ℕ) : Checked Unit :=
  if offset + count ≤ console.stride * console.height ∧ console.base ≤ address ∧
      address + PIXEL_SIZE * count ≤ console.base + console.framebuffer.size.toNat ∧
      PIXEL_SIZE ∣ address then .ok ()
  else .error .outOfBounds

/-- `Console::pixel`: the number of the pixel at `(x, y)`, and its address. -/
def pixel (console : Console) (x y : ℕ) : Checked (ℕ × ℕ) := do
  let scanline ← Word.mul y console.stride
  let offset ← Word.add scanline x
  return (offset, (console.base + PIXEL_SIZE * offset) % 2 ^ 64)

/-- `self.pixel(x, y).write_volatile(colour)`. -/
def writePixel (console : Console) (m : Mem) (x y : ℕ) (colour : UInt32) : Checked Mem := do
  let (offset, address) ← console.pixel x y
  console.access offset address 1
  return m.store address PIXEL_SIZE colour.toNat

/-- Bit `dx` of a scanline of a glyph, counted from the left, as a colour. -/
def scanlineColour (console : Console) (scanline : UInt8) (dx : ℕ) : UInt32 :=
  if scanline &&& (0x80 >>> UInt8.ofNat dx) ≠ 0 then console.foreground else console.background

/-- `Console::draw_glyph`. -/
def drawGlyph (console : Console) (m : Mem) (byte : UInt8) : Checked Mem := do
  let bitmap := glyph byte
  let originX ← Word.mul console.column GLYPH_WIDTH
  let originY ← Word.mul console.row GLYPH_HEIGHT
  bitmap.toList.zipIdx.foldlM (fun m (scanline, dy) ↦
    (List.range GLYPH_WIDTH).foldlM (fun m dx ↦ do
      let x ← Word.add originX dx
      let y ← Word.add originY dy
      console.writePixel m x y (console.scanlineColour scanline dx)) m) m

/-- `Console::scroll`: move everything up one text row and clear the bottom one. -/
def scroll (console : Console) (m : Mem) : Checked Mem := do
  let shift ← Word.mul GLYPH_HEIGHT console.stride
  let pixels ← Word.mul console.height console.stride
  let count ← Word.sub pixels shift
  console.access shift (console.base + PIXEL_SIZE * shift) count
  console.access 0 console.base count
  let m := m.move (console.base + PIXEL_SIZE * shift) console.base (PIXEL_SIZE * count)
  let first ← Word.sub console.height GLYPH_HEIGHT
  (List.range' first (console.height - first)).foldlM (fun m y ↦
    (List.range console.width).foldlM (fun m x ↦ console.writePixel m x y console.background) m) m

/-- `Console::newline`. -/
def newline (console : Console) (m : Mem) : Checked (Console × Mem) := do
  let console := { console with column := 0 }
  let next ← Word.add console.row 1
  if next < console.rows then return ({ console with row := next }, m)
  else do
    let m ← console.scroll m
    return (console, m)

/-- The line feed. -/
def LF : UInt8 := 0x0a
/-- The carriage return. -/
def CR : UInt8 := 0x0d

/-- The part of `Console::write_byte` that wraps a full line. -/
def wrap (console : Console) (m : Mem) : Checked (Console × Mem) :=
  if console.columns ≤ console.column then console.newline m else return (console, m)

/-- `Console::write_byte`. -/
def writeByte (console : Console) (m : Mem) (byte : UInt8) : Checked (Console × Mem) :=
  if byte = LF then console.newline m
  else if byte = CR then return (console, m)
  else do
    let (console, m) ← console.wrap m
    let m ← console.drawGlyph m byte
    let column ← Word.add console.column 1
    return ({ console with column := column }, m)

/-- Write one byte after the other. -/
def writeBytes (console : Console) (m : Mem) (bytes : List UInt8) : Checked (Console × Mem) :=
  bytes.foldlM (fun (console, m) byte ↦ console.writeByte m byte) (console, m)

end Console

/-- What the output of the kernel goes to. -/
structure Output where
  /-- The bytes sent to the UART. -/
  sent : List UInt8
  /-- `CONSOLE`. -/
  console : Option Console
  /-- The memory, with the framebuffer in it. -/
  mem : Mem

namespace Output

/-- `serial::write_byte`. -/
def serialWriteByte (output : Output) (byte : UInt8) : Output :=
  { output with sent := output.sent ++ [byte] }

/-- `console::write_byte`, which does nothing without a console. -/
def consoleWriteByte (output : Output) (byte : UInt8) : Checked Output :=
  match output.console with
  | none => return output
  | some console => do
    let (console, m) ← console.writeByte output.mem byte
    return { output with console := some console, mem := m }

/-- The part of `write_str` that sends a carriage return in front of a line feed. -/
def writeReturn (output : Output) (byte : UInt8) : Checked Output :=
  if byte = Console.LF then (output.serialWriteByte Console.CR).consoleWriteByte Console.CR
  else return output

/-- The body of the loop of `write_str`. -/
def writeStrByte (output : Output) (byte : UInt8) : Checked Output := do
  let output ← output.writeReturn byte
  (output.serialWriteByte byte).consoleWriteByte byte

/-- `SerialPort::write_str`. -/
def writeStr (output : Output) (bytes : List UInt8) : Checked Output :=
  bytes.foldlM writeStrByte output

/-- Write the fragments of a text, each with `write_str`. -/
def writeFragments (output : Output) (fragments : List (List UInt8)) : Checked Output :=
  fragments.foldlM writeStr output

end Output

end RustBL
