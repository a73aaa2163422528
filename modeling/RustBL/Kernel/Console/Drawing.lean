import RustBL.Kernel.Console.Screen
import RustBL.Library.Words

/-!
# What the console draws

`Console.Fits` is what `Console.new` establishes about the framebuffer, and `Console.Valid` adds
that the cursor is in the grid. In a valid console no check of the code fails: drawing a glyph and
scrolling return the memory computed by their plain counterparts `drawn` and `scrolled`, which
perform the same stores without checks.

On the pixels, seen as an array of words, drawing a glyph writes one cell and scrolling moves every
scanline up by a text row and clears the last sixteen. Neither touches a byte outside the
framebuffer.
-/

set_option autoImplicit false
set_option relaxedAutoImplicit false

namespace RustBL

open Font

namespace Console

/-! ### Valid consoles -/

/-- A framebuffer that holds every pixel of the surface, and a grid of whole cells. -/
structure Fits (console : Console) : Prop where
  width_le : console.width ≤ console.stride
  glyph_width_le : GLYPH_WIDTH ≤ console.width
  glyph_height_le : GLYPH_HEIGHT ≤ console.height
  bytes_le : PIXEL_SIZE * (console.stride * console.height) ≤ console.framebuffer.size.toNat
  end_lt : console.base + PIXEL_SIZE * (console.stride * console.height) < 2 ^ 64
  aligned : PIXEL_SIZE ∣ console.base
  columns_eq : console.columns = console.width / GLYPH_WIDTH
  rows_eq : console.rows = console.height / GLYPH_HEIGHT

/-- A console whose cursor is in the grid, or behind the last column. -/
structure Valid (console : Console) : Prop extends console.Fits where
  column_le : console.column ≤ console.columns
  row_lt : console.row < console.rows

/-- The number of the pixel at `(x, y)`. -/
def index (console : Console) (x y : ℕ) : ℕ :=
  y * console.stride + x

/-- The bytes of the framebuffer. -/
def framebufferBytes (console : Console) : Set ℕ :=
  Set.Ico console.base (console.base + console.framebuffer.size.toNat)

/-- The pixels in a memory. -/
def pixels (console : Console) (m : Mem) : ℕ → ℕ :=
  m.words console.base PIXEL_SIZE

section Geometry

variable {console : Console}

theorem Fits.columns_pos (hfits : console.Fits) : 0 < console.columns := by
  rw [hfits.columns_eq]
  exact Nat.div_pos hfits.glyph_width_le (by decide)

theorem Fits.rows_pos (hfits : console.Fits) : 0 < console.rows := by
  rw [hfits.rows_eq]
  exact Nat.div_pos hfits.glyph_height_le (by decide)

/-- The pixels of a cell of the grid are pixels of the surface. -/
theorem Fits.x_lt (hfits : console.Fits) {column dx : ℕ} (hcolumn : column < console.columns)
    (hdx : dx < GLYPH_WIDTH) : column * GLYPH_WIDTH + dx < console.width := by
  rw [hfits.columns_eq] at hcolumn
  simp only [GLYPH_WIDTH] at *
  omega

theorem Fits.y_lt (hfits : console.Fits) {row dy : ℕ} (hrow : row < console.rows)
    (hdy : dy < GLYPH_HEIGHT) : row * GLYPH_HEIGHT + dy < console.height := by
  rw [hfits.rows_eq] at hrow
  simp only [GLYPH_HEIGHT] at *
  omega

theorem index_lt {x y : ℕ} (hx : x < console.stride) (hy : y < console.height) :
    console.index x y < console.stride * console.height := by
  have hrows := Nat.mul_le_mul_right console.stride (Nat.succ_le_of_lt hy)
  rw [Nat.succ_mul] at hrows
  rw [index, Nat.mul_comm console.stride]
  omega

/-- Different pixels have different numbers. -/
theorem index_inj {x y x' y' : ℕ} (hx : x < console.stride) (hx' : x' < console.stride)
    (h : console.index x y = console.index x' y') : x = x' ∧ y = y' := by
  rw [index, index] at h
  have hmod : x = x' := by
    rw [← Nat.mul_add_mod_of_lt hx, h, Nat.mul_add_mod_of_lt hx']
  refine ⟨hmod, ?_⟩
  rw [hmod] at h
  exact Nat.eq_of_mul_eq_mul_right (by omega) (Nat.add_right_cancel h)

end Geometry

/-- A console that is made is valid, with the cursor in the first cell. -/
theorem valid_of_new {info : FrameBufferInfo} {console : Console} (hnew : new info = some console) :
    console.Valid ∧ console.framebuffer = info ∧ console.column = 0 ∧ console.row = 0 := by
  rw [new] at hnew
  obtain ⟨format, _, hnew⟩ := Option.bind_eq_some_iff.mp hnew
  by_cases hbad : info.addr = 0 ∨ info.addr.toNat % PIXEL_SIZE ≠ 0 ∨
      info.bytesPerPixel.toNat ≠ PIXEL_SIZE ∨ info.stride.toNat < info.width.toNat ∨
      info.width.toNat < GLYPH_WIDTH ∨ info.height.toNat < GLYPH_HEIGHT
  · rw [if_pos hbad] at hnew
    exact nomatch hnew
  rw [if_neg hbad] at hnew
  obtain ⟨pixels, hpixels, hnew⟩ := Option.bind_eq_some_iff.mp hnew
  obtain ⟨bytes, hbytes, hnew⟩ := Option.bind_eq_some_iff.mp hnew
  obtain ⟨_, rfl⟩ := Word.checkedMul_eq_some.mp hpixels
  obtain ⟨_, rfl⟩ := Word.checkedMul_eq_some.mp hbytes
  by_cases hlarge : info.size.toNat < info.stride.toNat * info.height.toNat * PIXEL_SIZE ∨
      Word.checkedAdd info.addr.toNat (info.stride.toNat * info.height.toNat * PIXEL_SIZE) = none
  · rw [if_pos hlarge] at hnew
    exact nomatch hnew
  rw [if_neg hlarge] at hnew
  have hconsole := Option.some.inj hnew
  simp only [not_or, not_lt, not_not] at hbad hlarge
  obtain ⟨_, haligned, _, hstride, hwidth, hheight⟩ := hbad
  obtain ⟨hsize, hend⟩ := hlarge
  rw [Word.checkedAdd_eq_none, not_le] at hend
  subst hconsole
  refine ⟨⟨⟨hstride, hwidth, hheight, ?_, ?_, Nat.dvd_of_mod_eq_zero haligned, rfl, rfl⟩,
    Nat.zero_le _, Nat.div_pos hheight (by decide)⟩, rfl, rfl, rfl⟩
  · rw [Nat.mul_comm]
    exact hsize
  · rw [Nat.mul_comm PIXEL_SIZE]
    exact hend

/-! ### Writing pixels -/

/-- Store pixels, given as number and colour, one after the other. -/
def storePixels (console : Console) (m : Mem) (updates : List (ℕ × ℕ)) : Mem :=
  updates.foldl (fun m update ↦
    m.store (console.base + PIXEL_SIZE * update.1) PIXEL_SIZE update.2) m

section Pixels

variable {console : Console} {m : Mem}

/-- The bytes of the surface are bytes of the framebuffer. -/
theorem Fits.bytes_subset (hfits : console.Fits) {offset count : ℕ}
    (hin : offset + count ≤ console.stride * console.height) :
    Set.Ico (console.base + PIXEL_SIZE * offset)
      (console.base + PIXEL_SIZE * offset + PIXEL_SIZE * count) ⊆ console.framebufferBytes := by
  have hbytes := hfits.bytes_le
  have hle := Nat.mul_le_mul_left PIXEL_SIZE hin
  rw [Nat.mul_add] at hle
  exact Set.Ico_subset_Ico (by omega) (by omega)

/-- An access to pixels of the surface is allowed. -/
theorem access_eq (hfits : console.Fits) {offset count : ℕ}
    (hin : offset + count ≤ console.stride * console.height) :
    console.access offset (console.base + PIXEL_SIZE * offset) count = .ok () := by
  have hbytes := hfits.bytes_le
  have hle := Nat.mul_le_mul_left PIXEL_SIZE hin
  rw [Nat.mul_add] at hle
  exact if_pos ⟨hin, Nat.le_add_right _ _, by omega,
    (Nat.dvd_add_right hfits.aligned).mpr (Nat.dvd_mul_right _ _)⟩

/-- The number and the address of a pixel of the surface. -/
theorem pixel_eq (hfits : console.Fits) {x y : ℕ} (hx : x < console.width)
    (hy : y < console.height) : console.pixel x y =
      .ok (console.index x y, console.base + PIXEL_SIZE * console.index x y) := by
  have hindex := index_lt (hx.trans_le hfits.width_le) hy
  have hend := hfits.end_lt
  have hle := Nat.mul_le_mul_left PIXEL_SIZE hindex.le
  have hscanline : y * console.stride ≤ console.index x y := Nat.le_add_right _ _
  have hsmall : console.index x y < 2 ^ 64 := by
    simp only [PIXEL_SIZE] at hle hend
    omega
  have hoffset : y * console.stride + x = console.index x y := rfl
  rw [pixel, Word.mul_eq (by omega), ok_bind, Word.add_eq (by omega), ok_bind, hoffset,
    pure_eq_ok, Nat.mod_eq_of_lt (by omega)]

/-- Writing a pixel of the surface stores its colour. -/
theorem writePixel_eq (hfits : console.Fits) {x y : ℕ} {colour : UInt32} (hx : x < console.width)
    (hy : y < console.height) : console.writePixel m x y colour =
      .ok (m.store (console.base + PIXEL_SIZE * console.index x y) PIXEL_SIZE colour.toNat) := by
  have hindex := index_lt (hx.trans_le hfits.width_le) hy
  rw [writePixel, pixel_eq hfits hx hy, ok_bind]
  show (console.access _ _ 1 >>= fun _ ↦ _) = _
  rw [access_eq hfits (Nat.succ_le_of_lt hindex), ok_bind]
  rfl

/-- Storing pixels of the surface changes bytes of the framebuffer only. -/
theorem sameOff_storePixels (hfits : console.Fits) {updates : List (ℕ × ℕ)}
    (hin : ∀ update ∈ updates, update.1 < console.stride * console.height) :
    m.SameOff console.framebufferBytes (console.storePixels m updates) := by
  induction updates generalizing m with
  | nil => exact Mem.SameOff.refl _ _
  | cons update updates ih =>
    rw [List.forall_mem_cons] at hin
    have hone : update.1 + 1 ≤ console.stride * console.height := hin.1
    have hfirst := hfits.bytes_subset hone
    rw [Nat.mul_one] at hfirst
    exact ((Mem.sameOff_store _ _ _ _).mono hfirst).trans (ih hin.2)

theorem colour_lt (colour : UInt32) : colour.toNat < 256 ^ PIXEL_SIZE :=
  colour.toNat_lt

theorem pixels_storePixels {updates : List (ℕ × ℕ)}
    (hcolours : ∀ update ∈ updates, update.2 < 256 ^ PIXEL_SIZE) :
    console.pixels (console.storePixels m updates) = paint (console.pixels m) updates :=
  Mem.words_foldl_store hcolours

end Pixels

/-! ### Glyphs -/

/-- The colour of a glyph at a pixel of its cell. -/
def glyphColour (console : Console) (byte : UInt8) (x y : ℕ) : UInt32 :=
  console.scanlineColour
    ((glyph byte).get ⟨y % GLYPH_HEIGHT, Nat.mod_lt y (by decide)⟩) (x % GLYPH_WIDTH)

/-- The pixels of a glyph at the cursor. -/
def glyphUpdates (console : Console) (byte : UInt8) : List (ℕ × ℕ) :=
  (glyph byte).toList.zipIdx.flatMap fun (scanline, dy) ↦
    (List.range GLYPH_WIDTH).map fun dx ↦
      (console.index (console.column * GLYPH_WIDTH + dx) (console.row * GLYPH_HEIGHT + dy),
        (console.scanlineColour scanline dx).toNat)

/-- The memory after a glyph was drawn. -/
def drawn (console : Console) (m : Mem) (byte : UInt8) : Mem :=
  console.storePixels m (console.glyphUpdates byte)

section Glyphs

variable {console : Console} {m : Mem} {byte : UInt8}

/-- The pixels of a glyph are those of its cell, with the colours of the glyph. -/
theorem mem_glyphUpdates {update : ℕ × ℕ} : update ∈ console.glyphUpdates byte ↔
    ∃ dx < GLYPH_WIDTH, ∃ dy < GLYPH_HEIGHT,
      update = (console.index (console.column * GLYPH_WIDTH + dx) (console.row * GLYPH_HEIGHT + dy),
        (console.glyphColour byte dx dy).toNat) := by
  rw [glyphUpdates, List.mem_flatMap]
  constructor
  · rintro ⟨⟨scanline, dy⟩, hscanline, hupdate⟩
    obtain ⟨dx, hdx, rfl⟩ := List.mem_map.mp hupdate
    rw [List.mem_range] at hdx
    rw [List.mem_zipIdx_iff_getElem?] at hscanline
    obtain ⟨hdy, hget⟩ := List.getElem?_eq_some_iff.mp hscanline
    rw [Vector.length_toList] at hdy
    refine ⟨dx, hdx, dy, hdy, ?_⟩
    have hline : (glyph byte).get ⟨dy, hdy⟩ = scanline := hget
    simp only [glyphColour, Nat.mod_eq_of_lt hdx, Nat.mod_eq_of_lt hdy, hline]
  · rintro ⟨dx, hdx, dy, hdy, rfl⟩
    refine ⟨((glyph byte).get ⟨dy, hdy⟩, dy), ?_, List.mem_map.mpr ⟨dx, List.mem_range.mpr hdx, ?_⟩⟩
    · rw [List.mem_zipIdx_iff_getElem?, List.getElem?_eq_some_iff]
      exact ⟨by rwa [Vector.length_toList], rfl⟩
    · simp only [glyphColour, Nat.mod_eq_of_lt hdx, Nat.mod_eq_of_lt hdy]

/-- In a cell of the grid, a glyph is drawn without a fault. -/
theorem drawGlyph_eq (hvalid : console.Valid) (hcolumn : console.column < console.columns) :
    console.drawGlyph m byte = .ok (console.drawn m byte) := by
  have hfits := hvalid.toFits
  have hwidth := console.framebuffer.width.toNat_lt
  have hheight := console.framebuffer.height.toNat_lt
  have horiginX := hfits.x_lt hcolumn (show 0 < GLYPH_WIDTH by decide)
  have horiginY := hfits.y_lt hvalid.row_lt (show 0 < GLYPH_HEIGHT by decide)
  have hw : console.width = console.framebuffer.width.toNat := rfl
  have hh : console.height = console.framebuffer.height.toNat := rfl
  rw [drawGlyph, Word.mul_eq (by omega), ok_bind, Word.mul_eq (by omega), ok_bind, drawn,
    storePixels, glyphUpdates, List.foldl_flatMap]
  refine foldlM_eq_foldl fun m line hline ↦ ?_
  obtain ⟨scanline, dy⟩ := line
  obtain ⟨hdy, _⟩ := List.getElem?_eq_some_iff.mp (List.mem_zipIdx_iff_getElem?.mp hline)
  rw [Vector.length_toList] at hdy
  rw [List.foldl_map]
  refine foldlM_eq_foldl fun m dx hdx ↦ ?_
  have hx := hfits.x_lt hcolumn (List.mem_range.mp hdx)
  have hy := hfits.y_lt hvalid.row_lt hdy
  rw [Word.add_eq (by omega), ok_bind, Word.add_eq (by omega), ok_bind, writePixel_eq hfits hx hy]

/-- Drawing a glyph gives the pixels of its cell the colours of the glyph, and leaves every other
pixel alone. -/
theorem pixels_drawn (hfits : console.Fits) (hcolumn : console.column < console.columns)
    {x y : ℕ} (hx : x < console.width) :
    console.pixels (console.drawn m byte) (console.index x y) =
      if y / GLYPH_HEIGHT = console.row ∧ x / GLYPH_WIDTH = console.column then
        (console.glyphColour byte x y).toNat
      else console.pixels m (console.index x y) := by
  have hstride {dx : ℕ} (hdx : dx < GLYPH_WIDTH) :
      console.column * GLYPH_WIDTH + dx < console.stride :=
    (hfits.x_lt hcolumn hdx).trans_le hfits.width_le
  have hx' := hx.trans_le hfits.width_le
  rw [drawn, pixels_storePixels]
  swap
  · intro update hupdate
    obtain ⟨dx, _, dy, _, rfl⟩ := mem_glyphUpdates.mp hupdate
    exact colour_lt _
  have hdiv (a cell size d : ℕ) (hd : d < size) (h : cell * size + d = a) :
      a / size = cell ∧ a % size = d := by
    rw [← h, Nat.mul_comm, Nat.mul_add_div (by omega), Nat.div_eq_of_lt hd, Nat.mul_add_mod,
      Nat.mod_eq_of_lt hd]
    exact ⟨rfl, rfl⟩
  split_ifs with hcell
  · apply paint_of_mem
    · refine ⟨_, mem_glyphUpdates.mpr ⟨x % GLYPH_WIDTH, Nat.mod_lt x (by decide), y % GLYPH_HEIGHT,
        Nat.mod_lt y (by decide), rfl⟩, ?_⟩
      rw [← hcell.1, ← hcell.2, Nat.div_add_mod', Nat.div_add_mod']
    · intro update hupdate hindex
      obtain ⟨dx, hdx, dy, hdy, rfl⟩ := mem_glyphUpdates.mp hupdate
      obtain ⟨heqX, heqY⟩ := index_inj (hstride hdx) hx' hindex
      have hmodX := (hdiv _ _ _ _ hdx heqX).2
      have hmodY := (hdiv _ _ _ _ hdy heqY).2
      simp only [glyphColour, hmodX, hmodY, Nat.mod_eq_of_lt hdx, Nat.mod_eq_of_lt hdy]
  · apply paint_of_not_mem
    intro update hupdate hindex
    obtain ⟨dx, hdx, dy, hdy, rfl⟩ := mem_glyphUpdates.mp hupdate
    obtain ⟨heqX, heqY⟩ := index_inj (hstride hdx) hx' hindex
    exact hcell ⟨(hdiv _ _ _ _ hdy heqY).1, (hdiv _ _ _ _ hdx heqX).1⟩

theorem sameOff_drawn (hvalid : console.Valid) (hcolumn : console.column < console.columns) :
    m.SameOff console.framebufferBytes (console.drawn m byte) := by
  have hfits := hvalid.toFits
  apply sameOff_storePixels hfits
  intro update hupdate
  obtain ⟨dx, hdx, dy, hdy, rfl⟩ := mem_glyphUpdates.mp hupdate
  exact index_lt ((hfits.x_lt hcolumn hdx).trans_le hfits.width_le)
    (hfits.y_lt hvalid.row_lt hdy)

end Glyphs

/-! ### Scrolling -/

/-- The number of pixels that scrolling moves. -/
def kept (console : Console) : ℕ :=
  (console.height - GLYPH_HEIGHT) * console.stride

/-- The pixels of the last sixteen scanlines, cleared. -/
def clearUpdates (console : Console) : List (ℕ × ℕ) :=
  (List.range' (console.height - GLYPH_HEIGHT) GLYPH_HEIGHT).flatMap fun y ↦
    (List.range console.width).map fun x ↦ (console.index x y, console.background.toNat)

/-- The memory after scrolling. -/
def scrolled (console : Console) (m : Mem) : Mem :=
  console.storePixels
    (m.move (console.base + PIXEL_SIZE * (GLYPH_HEIGHT * console.stride)) console.base
      (PIXEL_SIZE * console.kept)) console.clearUpdates

section Scrolling

variable {console : Console} {m : Mem}

/-- The cleared pixels are those of the last sixteen scanlines. -/
theorem mem_clearUpdates (hfits : console.Fits) {update : ℕ × ℕ} : update ∈ console.clearUpdates ↔
    ∃ x < console.width, ∃ y < console.height, console.height ≤ y + GLYPH_HEIGHT ∧
      update = (console.index x y, console.background.toNat) := by
  have hheight := hfits.glyph_height_le
  rw [clearUpdates, List.mem_flatMap]
  constructor
  · rintro ⟨y, hy, hupdate⟩
    obtain ⟨x, hx, rfl⟩ := List.mem_map.mp hupdate
    rw [List.mem_range'_1] at hy
    exact ⟨x, List.mem_range.mp hx, y, by omega, by omega, rfl⟩
  · rintro ⟨x, hx, y, hy, hlow, rfl⟩
    refine ⟨y, ?_, List.mem_map.mpr ⟨x, List.mem_range.mpr hx, rfl⟩⟩
    rw [List.mem_range'_1]
    omega

/-- The pixels that are moved and the first text row are the whole surface. -/
theorem kept_add (hfits : console.Fits) :
    GLYPH_HEIGHT * console.stride + console.kept = console.stride * console.height := by
  rw [kept, ← Nat.add_mul, Nat.add_sub_cancel' hfits.glyph_height_le, Nat.mul_comm]

/-- Scrolling never faults. -/
theorem scroll_eq (hfits : console.Fits) : console.scroll m = .ok (console.scrolled m) := by
  have hheight := hfits.glyph_height_le
  have hkept := kept_add hfits
  have hend := hfits.end_lt
  have hsmall : console.stride * console.height < 2 ^ 64 := by
    simp only [PIXEL_SIZE] at hend
    omega
  have hpixels : console.height * console.stride = console.stride * console.height :=
    Nat.mul_comm _ _
  have hcount : console.stride * console.height - GLYPH_HEIGHT * console.stride = console.kept := by
    omega
  have hread := access_eq hfits hkept.le
  have hwrite := access_eq hfits (show 0 + console.kept ≤ _ by omega)
  rw [Nat.mul_zero, Nat.add_zero] at hwrite
  rw [scroll, Word.mul_eq (by omega), ok_bind, Word.mul_eq (by omega), ok_bind, hpixels,
    Word.sub_eq (by omega), ok_bind, hcount, hread, ok_bind, hwrite, ok_bind,
    Word.sub_eq hheight, ok_bind, Nat.sub_sub_self hheight, scrolled, storePixels, clearUpdates,
    List.foldl_flatMap]
  refine foldlM_eq_foldl fun m y hy ↦ ?_
  rw [List.foldl_map]
  refine foldlM_eq_foldl fun m x hx ↦ ?_
  rw [List.mem_range'_1] at hy
  exact writePixel_eq hfits (List.mem_range.mp hx) (by omega)

/-- Scrolling moves every scanline up by a text row, and clears the last sixteen. -/
theorem pixels_scrolled (hfits : console.Fits) {x y : ℕ} (hx : x < console.width)
    (hy : y < console.height) : console.pixels (console.scrolled m) (console.index x y) =
      if y + GLYPH_HEIGHT < console.height then
        console.pixels m (console.index x (y + GLYPH_HEIGHT))
      else console.background.toNat := by
  have hx' := hx.trans_le hfits.width_le
  rw [scrolled, pixels_storePixels]
  swap
  · intro update hupdate
    obtain ⟨_, _, _, _, _, rfl⟩ := (mem_clearUpdates hfits).mp hupdate
    exact colour_lt _
  split_ifs with hmoved
  · have hkept : console.index x y < console.kept := by
      have hle := Nat.mul_le_mul_right console.stride
        (show y + 1 ≤ console.height - GLYPH_HEIGHT by omega)
      rw [Nat.add_mul, Nat.one_mul] at hle
      rw [index, kept]
      omega
    have hsource : console.index x y + GLYPH_HEIGHT * console.stride =
        console.index x (y + GLYPH_HEIGHT) := by
      rw [index, index, Nat.add_mul]
      omega
    rw [paint_of_not_mem]
    · rw [pixels, Mem.words_move, if_pos hkept, hsource]
      rfl
    · intro update hupdate hindex
      obtain ⟨x', hxUpdate, y', hyUpdate, hlow, rfl⟩ := (mem_clearUpdates hfits).mp hupdate
      have heq := (index_inj (hxUpdate.trans_le hfits.width_le) hx' hindex).2
      omega
  · apply paint_of_mem
    · exact ⟨_, (mem_clearUpdates hfits).mpr ⟨x, hx, y, hy, not_lt.mp hmoved, rfl⟩, rfl⟩
    · intro update hupdate _
      obtain ⟨_, _, _, _, _, rfl⟩ := (mem_clearUpdates hfits).mp hupdate
      rfl

theorem sameOff_scrolled (hfits : console.Fits) :
    m.SameOff console.framebufferBytes (console.scrolled m) := by
  have hkept := kept_add hfits
  have hmove : m.SameOff console.framebufferBytes
      (m.move (console.base + PIXEL_SIZE * (GLYPH_HEIGHT * console.stride)) console.base
        (PIXEL_SIZE * console.kept)) := by
    have hsubset := hfits.bytes_subset (show 0 + console.kept ≤ _ by omega)
    rw [Nat.mul_zero, Nat.add_zero] at hsubset
    intro addr haddr
    exact if_neg fun hin ↦ haddr (hsubset hin)
  refine hmove.trans (sameOff_storePixels hfits fun update hupdate ↦ ?_)
  obtain ⟨x, hx, y, hy, _, rfl⟩ := (mem_clearUpdates hfits).mp hupdate
  exact index_lt (hx.trans_le hfits.width_le) hy

end Scrolling

end Console

end RustBL
