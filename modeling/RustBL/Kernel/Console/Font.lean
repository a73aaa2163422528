import Mathlib.Data.Nat.Notation
import Mathlib.Tactic.SplitIfs

/-!
# The font

An 8x16 bitmap font for printable ASCII, one byte a scanline, most significant bit leftmost. `glyph`
substitutes the bitmap of `?` for every other byte.
-/

set_option autoImplicit false
set_option relaxedAutoImplicit false

namespace RustBL

namespace Font

/-- The width of a glyph in pixels. -/
def GLYPH_WIDTH : ℕ := 8
/-- The height of a glyph in pixels. -/
def GLYPH_HEIGHT : ℕ := 16
/-- The first byte with a glyph of its own. -/
def FIRST : UInt8 := 0x20
/-- The last byte with a glyph of its own. -/
def LAST : UInt8 := 0x7e

/-- The bitmaps, from that of `FIRST` to that of `LAST`. -/
def GLYPHS : Vector (Vector UInt8 GLYPH_HEIGHT) 95 :=
  #v[
    #v[0, 0, 0, 0, 0, 0, 0, 0, 0, 0, 0, 0, 0, 0, 0, 0],
    #v[0, 0, 0x18, 0x3c, 0x3c, 0x3c, 0x18, 0x18, 0x18, 0, 0x18, 0x18, 0, 0, 0, 0],
    #v[0, 0x66, 0x66, 0x66, 0x24, 0, 0, 0, 0, 0, 0, 0, 0, 0, 0, 0],
    #v[0, 0, 0, 0x6c, 0x6c, 0xfe, 0x6c, 0x6c, 0x6c, 0xfe, 0x6c, 0x6c, 0, 0, 0, 0],
    #v[0x18, 0x18, 0x7c, 0xc6, 0xc2, 0xc0, 0x7c, 0x06, 0x06, 0x86, 0xc6, 0x7c, 0x18, 0x18, 0, 0],
    #v[0, 0, 0, 0, 0xc2, 0xc6, 0x0c, 0x18, 0x30, 0x60, 0xc6, 0x86, 0, 0, 0, 0],
    #v[0, 0, 0x38, 0x6c, 0x6c, 0x38, 0x76, 0xdc, 0xcc, 0xcc, 0xcc, 0x76, 0, 0, 0, 0],
    #v[0, 0x30, 0x30, 0x30, 0x20, 0, 0, 0, 0, 0, 0, 0, 0, 0, 0, 0],
    #v[0, 0, 0x0c, 0x18, 0x30, 0x30, 0x30, 0x30, 0x30, 0x30, 0x18, 0x0c, 0, 0, 0, 0],
    #v[0, 0, 0x30, 0x18, 0x0c, 0x0c, 0x0c, 0x0c, 0x0c, 0x0c, 0x18, 0x30, 0, 0, 0, 0],
    #v[0, 0, 0, 0, 0, 0x66, 0x3c, 0xff, 0x3c, 0x66, 0, 0, 0, 0, 0, 0],
    #v[0, 0, 0, 0, 0, 0x18, 0x18, 0x7e, 0x18, 0x18, 0, 0, 0, 0, 0, 0],
    #v[0, 0, 0, 0, 0, 0, 0, 0, 0, 0x18, 0x18, 0x18, 0x30, 0, 0, 0],
    #v[0, 0, 0, 0, 0, 0, 0, 0xfe, 0, 0, 0, 0, 0, 0, 0, 0],
    #v[0, 0, 0, 0, 0, 0, 0, 0, 0, 0, 0x18, 0x18, 0, 0, 0, 0],
    #v[0, 0, 0, 0, 0x02, 0x06, 0x0c, 0x18, 0x30, 0x60, 0xc0, 0x80, 0, 0, 0, 0],
    #v[0, 0, 0x38, 0x6c, 0xc6, 0xc6, 0xd6, 0xd6, 0xc6, 0xc6, 0x6c, 0x38, 0, 0, 0, 0],
    #v[0, 0, 0x18, 0x38, 0x78, 0x18, 0x18, 0x18, 0x18, 0x18, 0x18, 0x7e, 0, 0, 0, 0],
    #v[0, 0, 0x7c, 0xc6, 0x06, 0x0c, 0x18, 0x30, 0x60, 0xc0, 0xc6, 0xfe, 0, 0, 0, 0],
    #v[0, 0, 0x7c, 0xc6, 0x06, 0x06, 0x3c, 0x06, 0x06, 0x06, 0xc6, 0x7c, 0, 0, 0, 0],
    #v[0, 0, 0x0c, 0x1c, 0x3c, 0x6c, 0xcc, 0xfe, 0x0c, 0x0c, 0x0c, 0x1e, 0, 0, 0, 0],
    #v[0, 0, 0xfe, 0xc0, 0xc0, 0xc0, 0xfc, 0x06, 0x06, 0x06, 0xc6, 0x7c, 0, 0, 0, 0],
    #v[0, 0, 0x38, 0x60, 0xc0, 0xc0, 0xfc, 0xc6, 0xc6, 0xc6, 0xc6, 0x7c, 0, 0, 0, 0],
    #v[0, 0, 0xfe, 0xc6, 0x06, 0x06, 0x0c, 0x18, 0x30, 0x30, 0x30, 0x30, 0, 0, 0, 0],
    #v[0, 0, 0x7c, 0xc6, 0xc6, 0xc6, 0x7c, 0xc6, 0xc6, 0xc6, 0xc6, 0x7c, 0, 0, 0, 0],
    #v[0, 0, 0x7c, 0xc6, 0xc6, 0xc6, 0x7e, 0x06, 0x06, 0x06, 0x0c, 0x78, 0, 0, 0, 0],
    #v[0, 0, 0, 0, 0x18, 0x18, 0, 0, 0, 0x18, 0x18, 0, 0, 0, 0, 0],
    #v[0, 0, 0, 0, 0x18, 0x18, 0, 0, 0, 0x18, 0x18, 0x30, 0, 0, 0, 0],
    #v[0, 0, 0, 0x06, 0x0c, 0x18, 0x30, 0x60, 0x30, 0x18, 0x0c, 0x06, 0, 0, 0, 0],
    #v[0, 0, 0, 0, 0, 0x7e, 0, 0, 0x7e, 0, 0, 0, 0, 0, 0, 0],
    #v[0, 0, 0, 0x60, 0x30, 0x18, 0x0c, 0x06, 0x0c, 0x18, 0x30, 0x60, 0, 0, 0, 0],
    #v[0, 0, 0x7c, 0xc6, 0xc6, 0x0c, 0x18, 0x18, 0x18, 0, 0x18, 0x18, 0, 0, 0, 0],
    #v[0, 0, 0, 0x7c, 0xc6, 0xc6, 0xde, 0xde, 0xde, 0xdc, 0xc0, 0x7c, 0, 0, 0, 0],
    #v[0, 0, 0x10, 0x38, 0x6c, 0xc6, 0xc6, 0xfe, 0xc6, 0xc6, 0xc6, 0xc6, 0, 0, 0, 0],
    #v[0, 0, 0xfc, 0x66, 0x66, 0x66, 0x7c, 0x66, 0x66, 0x66, 0x66, 0xfc, 0, 0, 0, 0],
    #v[0, 0, 0x3c, 0x66, 0xc2, 0xc0, 0xc0, 0xc0, 0xc0, 0xc2, 0x66, 0x3c, 0, 0, 0, 0],
    #v[0, 0, 0xf8, 0x6c, 0x66, 0x66, 0x66, 0x66, 0x66, 0x66, 0x6c, 0xf8, 0, 0, 0, 0],
    #v[0, 0, 0xfe, 0x66, 0x62, 0x68, 0x78, 0x68, 0x60, 0x62, 0x66, 0xfe, 0, 0, 0, 0],
    #v[0, 0, 0xfe, 0x66, 0x62, 0x68, 0x78, 0x68, 0x60, 0x60, 0x60, 0xf0, 0, 0, 0, 0],
    #v[0, 0, 0x3c, 0x66, 0xc2, 0xc0, 0xc0, 0xde, 0xc6, 0xc6, 0x66, 0x3a, 0, 0, 0, 0],
    #v[0, 0, 0xc6, 0xc6, 0xc6, 0xc6, 0xfe, 0xc6, 0xc6, 0xc6, 0xc6, 0xc6, 0, 0, 0, 0],
    #v[0, 0, 0x3c, 0x18, 0x18, 0x18, 0x18, 0x18, 0x18, 0x18, 0x18, 0x3c, 0, 0, 0, 0],
    #v[0, 0, 0x1e, 0x0c, 0x0c, 0x0c, 0x0c, 0x0c, 0xcc, 0xcc, 0xcc, 0x78, 0, 0, 0, 0],
    #v[0, 0, 0xe6, 0x66, 0x66, 0x6c, 0x78, 0x78, 0x6c, 0x66, 0x66, 0xe6, 0, 0, 0, 0],
    #v[0, 0, 0xf0, 0x60, 0x60, 0x60, 0x60, 0x60, 0x60, 0x62, 0x66, 0xfe, 0, 0, 0, 0],
    #v[0, 0, 0xc6, 0xee, 0xfe, 0xfe, 0xd6, 0xc6, 0xc6, 0xc6, 0xc6, 0xc6, 0, 0, 0, 0],
    #v[0, 0, 0xc6, 0xe6, 0xf6, 0xfe, 0xde, 0xce, 0xc6, 0xc6, 0xc6, 0xc6, 0, 0, 0, 0],
    #v[0, 0, 0x7c, 0xc6, 0xc6, 0xc6, 0xc6, 0xc6, 0xc6, 0xc6, 0xc6, 0x7c, 0, 0, 0, 0],
    #v[0, 0, 0xfc, 0x66, 0x66, 0x66, 0x7c, 0x60, 0x60, 0x60, 0x60, 0xf0, 0, 0, 0, 0],
    #v[0, 0, 0x7c, 0xc6, 0xc6, 0xc6, 0xc6, 0xc6, 0xc6, 0xd6, 0xde, 0x7c, 0x0c, 0x0e, 0, 0],
    #v[0, 0, 0xfc, 0x66, 0x66, 0x66, 0x7c, 0x6c, 0x66, 0x66, 0x66, 0xe6, 0, 0, 0, 0],
    #v[0, 0, 0x7c, 0xc6, 0xc6, 0x60, 0x38, 0x0c, 0x06, 0xc6, 0xc6, 0x7c, 0, 0, 0, 0],
    #v[0, 0, 0x7e, 0x7e, 0x5a, 0x18, 0x18, 0x18, 0x18, 0x18, 0x18, 0x3c, 0, 0, 0, 0],
    #v[0, 0, 0xc6, 0xc6, 0xc6, 0xc6, 0xc6, 0xc6, 0xc6, 0xc6, 0xc6, 0x7c, 0, 0, 0, 0],
    #v[0, 0, 0xc6, 0xc6, 0xc6, 0xc6, 0xc6, 0xc6, 0xc6, 0x6c, 0x38, 0x10, 0, 0, 0, 0],
    #v[0, 0, 0xc6, 0xc6, 0xc6, 0xc6, 0xd6, 0xd6, 0xd6, 0xfe, 0xee, 0x6c, 0, 0, 0, 0],
    #v[0, 0, 0xc6, 0xc6, 0x6c, 0x7c, 0x38, 0x38, 0x7c, 0x6c, 0xc6, 0xc6, 0, 0, 0, 0],
    #v[0, 0, 0x66, 0x66, 0x66, 0x66, 0x3c, 0x18, 0x18, 0x18, 0x18, 0x3c, 0, 0, 0, 0],
    #v[0, 0, 0xfe, 0xc6, 0x86, 0x0c, 0x18, 0x30, 0x60, 0xc2, 0xc6, 0xfe, 0, 0, 0, 0],
    #v[0, 0, 0x3c, 0x30, 0x30, 0x30, 0x30, 0x30, 0x30, 0x30, 0x30, 0x3c, 0, 0, 0, 0],
    #v[0, 0, 0, 0x80, 0xc0, 0xe0, 0x70, 0x38, 0x1c, 0x0e, 0x06, 0x02, 0, 0, 0, 0],
    #v[0, 0, 0x3c, 0x0c, 0x0c, 0x0c, 0x0c, 0x0c, 0x0c, 0x0c, 0x0c, 0x3c, 0, 0, 0, 0],
    #v[0x10, 0x38, 0x6c, 0xc6, 0, 0, 0, 0, 0, 0, 0, 0, 0, 0, 0, 0],
    #v[0, 0, 0, 0, 0, 0, 0, 0, 0, 0, 0, 0, 0, 0xff, 0, 0],
    #v[0x30, 0x30, 0x18, 0, 0, 0, 0, 0, 0, 0, 0, 0, 0, 0, 0, 0],
    #v[0, 0, 0, 0, 0, 0x78, 0x0c, 0x7c, 0xcc, 0xcc, 0xcc, 0x76, 0, 0, 0, 0],
    #v[0, 0, 0xe0, 0x60, 0x60, 0x78, 0x6c, 0x66, 0x66, 0x66, 0x66, 0x7c, 0, 0, 0, 0],
    #v[0, 0, 0, 0, 0, 0x7c, 0xc6, 0xc0, 0xc0, 0xc0, 0xc6, 0x7c, 0, 0, 0, 0],
    #v[0, 0, 0x1c, 0x0c, 0x0c, 0x3c, 0x6c, 0xcc, 0xcc, 0xcc, 0xcc, 0x76, 0, 0, 0, 0],
    #v[0, 0, 0, 0, 0, 0x7c, 0xc6, 0xfe, 0xc0, 0xc0, 0xc6, 0x7c, 0, 0, 0, 0],
    #v[0, 0, 0x38, 0x6c, 0x64, 0x60, 0xf0, 0x60, 0x60, 0x60, 0x60, 0xf0, 0, 0, 0, 0],
    #v[0, 0, 0, 0, 0, 0x76, 0xcc, 0xcc, 0xcc, 0xcc, 0xcc, 0x7c, 0x0c, 0xcc, 0x78, 0],
    #v[0, 0, 0xe0, 0x60, 0x60, 0x6c, 0x76, 0x66, 0x66, 0x66, 0x66, 0xe6, 0, 0, 0, 0],
    #v[0, 0, 0x18, 0x18, 0, 0x38, 0x18, 0x18, 0x18, 0x18, 0x18, 0x3c, 0, 0, 0, 0],
    #v[0, 0, 0x06, 0x06, 0, 0x0e, 0x06, 0x06, 0x06, 0x06, 0x06, 0x06, 0x66, 0x66, 0x3c, 0],
    #v[0, 0, 0xe0, 0x60, 0x60, 0x66, 0x6c, 0x78, 0x78, 0x6c, 0x66, 0xe6, 0, 0, 0, 0],
    #v[0, 0, 0x38, 0x18, 0x18, 0x18, 0x18, 0x18, 0x18, 0x18, 0x18, 0x3c, 0, 0, 0, 0],
    #v[0, 0, 0, 0, 0, 0xec, 0xfe, 0xd6, 0xd6, 0xd6, 0xd6, 0xc6, 0, 0, 0, 0],
    #v[0, 0, 0, 0, 0, 0xdc, 0x66, 0x66, 0x66, 0x66, 0x66, 0x66, 0, 0, 0, 0],
    #v[0, 0, 0, 0, 0, 0x7c, 0xc6, 0xc6, 0xc6, 0xc6, 0xc6, 0x7c, 0, 0, 0, 0],
    #v[0, 0, 0, 0, 0, 0xdc, 0x66, 0x66, 0x66, 0x66, 0x66, 0x7c, 0x60, 0x60, 0xf0, 0],
    #v[0, 0, 0, 0, 0, 0x76, 0xcc, 0xcc, 0xcc, 0xcc, 0xcc, 0x7c, 0x0c, 0x0c, 0x1e, 0],
    #v[0, 0, 0, 0, 0, 0xdc, 0x76, 0x66, 0x60, 0x60, 0x60, 0xf0, 0, 0, 0, 0],
    #v[0, 0, 0, 0, 0, 0x7c, 0xc6, 0x60, 0x38, 0x0c, 0xc6, 0x7c, 0, 0, 0, 0],
    #v[0, 0, 0x10, 0x30, 0x30, 0xfc, 0x30, 0x30, 0x30, 0x30, 0x36, 0x1c, 0, 0, 0, 0],
    #v[0, 0, 0, 0, 0, 0xcc, 0xcc, 0xcc, 0xcc, 0xcc, 0xcc, 0x76, 0, 0, 0, 0],
    #v[0, 0, 0, 0, 0, 0x66, 0x66, 0x66, 0x66, 0x66, 0x3c, 0x18, 0, 0, 0, 0],
    #v[0, 0, 0, 0, 0, 0xc6, 0xc6, 0xd6, 0xd6, 0xd6, 0xfe, 0x6c, 0, 0, 0, 0],
    #v[0, 0, 0, 0, 0, 0xc6, 0x6c, 0x38, 0x38, 0x38, 0x6c, 0xc6, 0, 0, 0, 0],
    #v[0, 0, 0, 0, 0, 0xc6, 0xc6, 0xc6, 0xc6, 0xc6, 0xc6, 0x7e, 0x06, 0x0c, 0xf8, 0],
    #v[0, 0, 0, 0, 0, 0xfe, 0xcc, 0x18, 0x30, 0x60, 0xc6, 0xfe, 0, 0, 0, 0],
    #v[0, 0, 0x0e, 0x18, 0x18, 0x18, 0x70, 0x18, 0x18, 0x18, 0x18, 0x0e, 0, 0, 0, 0],
    #v[0, 0, 0x18, 0x18, 0x18, 0x18, 0x18, 0x18, 0x18, 0x18, 0x18, 0x18, 0, 0, 0, 0],
    #v[0, 0, 0x70, 0x18, 0x18, 0x18, 0x0e, 0x18, 0x18, 0x18, 0x18, 0x70, 0, 0, 0, 0],
    #v[0, 0, 0x76, 0xdc, 0, 0, 0, 0, 0, 0, 0, 0, 0, 0, 0, 0]]

/-- The place of a bitmap in the table. -/
def glyphIndex (byte : UInt8) : ℕ :=
  if FIRST ≤ byte ∧ byte ≤ LAST then (byte - FIRST).toNat else (0x3f - FIRST).toNat

theorem glyphIndex_lt (byte : UInt8) : glyphIndex byte < 95 := by
  rw [glyphIndex]
  split_ifs with hprintable
  · have hlow : 0x20 ≤ byte.toNat := UInt8.le_iff_toNat_le.mp hprintable.1
    have hhigh : byte.toNat ≤ 0x7e := UInt8.le_iff_toNat_le.mp hprintable.2
    rw [UInt8.toNat_sub_of_le _ _ hprintable.1]
    show byte.toNat - 0x20 < 95
    omega
  · decide

/-- `glyph`. -/
def glyph (byte : UInt8) : Vector UInt8 GLYPH_HEIGHT :=
  GLYPHS.get ⟨glyphIndex byte, glyphIndex_lt byte⟩

end Font

end RustBL
