import RustBL.Library.Bytes
import RustBL.Kernel.Console.Font

/-!
# The screen capture

`check_screen_has_text` accepts a capture of the screen when its header is that of the surface the
kernel draws on, its payload has the length of the surface, and the first cell shows the first
character of the first message. The payload is binary and follows the header without a length, so
the split at line feeds must stop behind the header.

`checkScreenHasText_iff` says which captures are accepted. `from_utf8_lossy` is used in the text of
an error only, and is a parameter.
-/

set_option autoImplicit false
set_option relaxedAutoImplicit false

namespace RustBL

namespace Xtask

/-! ### The program -/

/-- A byte string literal. -/
def byteString (text : String) : List UInt8 :=
  text.toUTF8.data.toList

/-- `b'\\n'`. -/
def LF : UInt8 := 0x0a

/-- The dimensions of the surface, as in the header. -/
def KERNEL_SCREENSHOT_DIMENSIONS : List UInt8 := byteString "1280 800"
/-- The width of the surface. -/
def KERNEL_SCREENSHOT_WIDTH : ℕ := 1280
/-- The height of the surface. -/
def KERNEL_SCREENSHOT_HEIGHT : ℕ := 800
/-- The background colour of the console. -/
def KERNEL_BACKGROUND : List UInt8 := [0x00, 0x33, 0x99]
/-- The foreground colour of the console. -/
def KERNEL_FOREGROUND : List UInt8 := [0xe0, 0xe0, 0xe0]
/-- The bitmap of the first character on the screen, the `f` of "framebuffer painted". -/
def KERNEL_FIRST_GLYPH : List UInt8 :=
  [0x00, 0x00, 0x38, 0x6c, 0x64, 0x60, 0xf0, 0x60, 0x60, 0x60, 0x60, 0xf0, 0x00, 0x00, 0x00, 0x00]

/-- A computation that may return a message. -/
abbrev Testing (α : Type) := ExceptT String Checked α

/-- The body of the loops over the first cell. -/
def checkPixel (pixels : List UInt8) (scanline : UInt8) (y x : ℕ) : Testing Unit := do
  let row ← Word.mul y KERNEL_SCREENSHOT_WIDTH
  let pixel ← Word.add row x
  let offset ← Word.mul pixel 3
  let stop ← Word.add offset 3
  let expected :=
    if scanline &&& (0x80 >>> UInt8.ofNat x) ≠ 0 then KERNEL_FOREGROUND else KERNEL_BACKGROUND
  if Bytes.slice pixels offset stop ≠ some expected then
    throw "the kernel's expected first framebuffer glyph is not present"

/-- The loops over the first cell. -/
def checkFirstGlyph (pixels : List UInt8) : Testing Unit :=
  forM KERNEL_FIRST_GLYPH.zipIdx fun (scanline, y) ↦
    forM (List.range 8) fun x ↦ checkPixel pixels scanline y x

/-- `check_screen_has_text`, when `capture` is the result of reading the file at `path`. -/
def checkScreenHasText (fromUtf8Lossy : List UInt8 → String) (path : String)
    (capture : Except String (List UInt8)) : Testing Unit :=
  match capture with
  | .error e => throw ("no screen capture at " ++ path ++ ": " ++ e)
  | .ok data =>
    let parts := Bytes.splitn LF 4 data
    let magic := parts[0]?.getD []
    if magic ≠ byteString "P6" then throw "screen capture is not a P6 PPM"
    else
      let dimensions := parts[1]?.getD []
      if dimensions ≠ KERNEL_SCREENSHOT_DIMENSIONS then
        throw ("screen capture is not the 1280x800 kernel surface (got " ++
          fromUtf8Lossy dimensions ++ ")")
      else
        let maxval := parts[2]?.getD []
        if maxval ≠ byteString "255" then throw "screen capture PPM maxval is not 255"
        else
          let pixels := parts[3]?.getD []
          let product := (Word.checkedMul KERNEL_SCREENSHOT_WIDTH KERNEL_SCREENSHOT_HEIGHT).bind
            fun pixels ↦ Word.checkedMul pixels 3
          match product with
          | none => throw "kernel screenshot dimensions overflowed"
          | some expectedLen =>
            if pixels.length ≠ expectedLen then
              throw ("screen capture pixel payload has " ++ toString pixels.length ++
                " bytes, expected " ++ toString expectedLen)
            else checkFirstGlyph pixels

/-! ### The first cell -/

/-- The bytes of the pixel at `(x, y)` of a payload. -/
def pixelAt (payload : List UInt8) (x y : ℕ) : List UInt8 :=
  (payload.drop ((y * 1280 + x) * 3)).take 3

/-- The number of bytes of the payload. -/
def PAYLOAD_LENGTH : ℕ := 1280 * 800 * 3

section FirstCell

variable {pixels : List UInt8} {x y : ℕ}

/-- The copy of the bitmap is the bitmap the console draws. -/
theorem firstGlyph_eq : KERNEL_FIRST_GLYPH = (Font.glyph 0x66).toList :=
  rfl

/-- The mask of a column selects its bit, counted from the right. -/
theorem scanline_mask (scanline : UInt8) (hx : x < 8) :
    scanline &&& (0x80 >>> UInt8.ofNat x) ≠ 0 ↔ scanline.toNat.testBit (7 - x) = true := by
  have hmask : ∀ x : Fin 8,
      (0x80 >>> UInt8.ofNat x : UInt8).toBitVec = BitVec.twoPow 8 (7 - x) := by decide
  have hpower : ∀ x : Fin 8, BitVec.twoPow 8 (7 - x) ≠ 0#8 := by decide
  have hand : (scanline &&& (0x80 >>> UInt8.ofNat x)).toBitVec =
      if scanline.toBitVec.getLsbD (7 - x) then BitVec.twoPow 8 (7 - x) else 0#8 := by
    rw [UInt8.toBitVec_and, hmask ⟨x, hx⟩, BitVec.and_twoPow]
  have hbit : scanline.toBitVec.getLsbD (7 - x) = scanline.toNat.testBit (7 - x) := rfl
  rw [Ne, ← UInt8.toBitVec_inj, hand, hbit]
  split_ifs with hset
  · exact iff_of_true (hpower ⟨x, hx⟩) hset
  · exact iff_of_false (fun hne ↦ hne rfl) hset

/-- The pixel at `(x, y)` has the colour of a scanline of a glyph. -/
def ShowsPixel (payload : List UInt8) (scanline : UInt8) (x y : ℕ) : Prop :=
  pixelAt payload x y =
    if scanline.toNat.testBit (7 - x) then [0xe0, 0xe0, 0xe0] else [0x00, 0x33, 0x99]

/-- The first cell shows the glyph of a character. -/
def ShowsGlyph (payload : List UInt8) (byte : UInt8) : Prop :=
  ∀ (y : Fin Font.GLYPH_HEIGHT) (x : Fin Font.GLYPH_WIDTH),
    ShowsPixel payload ((Font.glyph byte).get y) x y

instance (payload : List UInt8) (scanline : UInt8) (x y : ℕ) :
    Decidable (ShowsPixel payload scanline x y) :=
  inferInstanceAs (Decidable (_ = _))

instance (payload : List UInt8) (byte : UInt8) : Decidable (ShowsGlyph payload byte) :=
  inferInstanceAs (Decidable (∀ _ _, _))

theorem lift_ok_bind {α β : Type} (value : α) (next : α → Testing β) :
    (liftM (Except.ok value : Checked α) : Testing α) >>= next = next value :=
  rfl

/-- The slice of a pixel of the first cell lies inside the payload. -/
theorem slice_pixel (hpixels : pixels.length = PAYLOAD_LENGTH) (hx : x < 8) (hy : y < 16) :
    Bytes.slice pixels ((y * 1280 + x) * 3) ((y * 1280 + x) * 3 + 3) =
      some (pixelAt pixels x y) := by
  rw [PAYLOAD_LENGTH] at hpixels
  refine Bytes.slice_eq_some.mpr ⟨Nat.le_add_right _ _, by omega, ?_⟩
  rw [Nat.add_sub_cancel_left, pixelAt]

/-- The check of a pixel of the first cell. -/
theorem checkPixel_run (hpixels : pixels.length = PAYLOAD_LENGTH) (scanline : UInt8) (hx : x < 8)
    (hy : y < 16) : (checkPixel pixels scanline y x).run =
      .ok (if ShowsPixel pixels scanline x y then .ok ()
        else .error "the kernel's expected first framebuffer glyph is not present") := by
  have hwidth : KERNEL_SCREENSHOT_WIDTH = 1280 := rfl
  have hexpected : (if scanline &&& (0x80 >>> UInt8.ofNat x) ≠ 0 then KERNEL_FOREGROUND
      else KERNEL_BACKGROUND) = if scanline.toNat.testBit (7 - x) then [0xe0, 0xe0, 0xe0]
        else [0x00, 0x33, 0x99] :=
    if_congr (scanline_mask scanline hx) rfl rfl
  rw [checkPixel, hwidth, Word.mul_eq (by omega), lift_ok_bind, Word.add_eq (by omega),
    lift_ok_bind, Word.mul_eq (by omega), lift_ok_bind, Word.add_eq (by omega), lift_ok_bind,
    slice_pixel hpixels hx hy, hexpected]
  by_cases hpixel : ShowsPixel pixels scanline x y
  · rw [if_pos hpixel]
    exact congrArg ExceptT.run (if_neg (not_not.mpr (congrArg some hpixel)))
  · rw [if_neg hpixel]
    exact congrArg ExceptT.run (if_pos fun heq ↦ hpixel (Option.some.inj heq))

/-- The check of the first cell. -/
theorem checkFirstGlyph_run (hpixels : pixels.length = PAYLOAD_LENGTH) :
    (checkFirstGlyph pixels).run =
      .ok (if ShowsGlyph pixels 0x66 then .ok ()
        else .error "the kernel's expected first framebuffer glyph is not present") := by
  rw [checkFirstGlyph, firstGlyph_eq]
  refine (forM_checks (fun row : UInt8 × ℕ ↦ ∀ x ∈ List.range 8, ShowsPixel pixels row.1 x row.2)
    fun row hrow ↦ ?_).trans (congrArg Except.ok (if_congr ?_ rfl rfl))
  · obtain ⟨hy, _⟩ := List.getElem?_eq_some_iff.mp (List.mem_zipIdx_iff_getElem?.mp hrow)
    rw [Vector.length_toList] at hy
    exact forM_checks _ fun x hx ↦ checkPixel_run hpixels row.1 (List.mem_range.mp hx) hy
  · constructor
    · intro hrows y x
      refine hrows ((Font.glyph 0x66).get y, y) ?_ x (List.mem_range.mpr x.isLt)
      rw [List.mem_zipIdx_iff_getElem?, List.getElem?_eq_some_iff]
      exact ⟨by rw [Vector.length_toList]; exact y.isLt, rfl⟩
    · intro hglyph row hrow x hx
      obtain ⟨hy, hline⟩ := List.getElem?_eq_some_iff.mp (List.mem_zipIdx_iff_getElem?.mp hrow)
      rw [Vector.length_toList] at hy
      have hscanline : (Font.glyph 0x66).get ⟨row.2, hy⟩ = row.1 := hline
      rw [← hscanline]
      exact hglyph ⟨row.2, hy⟩ ⟨x, List.mem_range.mp hx⟩

end FirstCell

/-! ### The header -/

/-- The header of a capture of the surface. -/
def header : List UInt8 :=
  byteString "P6\n1280 800\n255\n"

theorem header_append (payload : List UInt8) : header ++ payload =
    byteString "P6" ++ LF ::
      (KERNEL_SCREENSHOT_DIMENSIONS ++ LF :: (byteString "255" ++ LF :: payload)) :=
  rfl

section Header

variable {data payload : List UInt8}

theorem splitn_header (payload : List UInt8) : Bytes.splitn LF 4 (header ++ payload) =
    [byteString "P6", KERNEL_SCREENSHOT_DIMENSIONS, byteString "255", payload] := by
  have hmagic : LF ∉ byteString "P6" := by decide
  have hdimensions : LF ∉ KERNEL_SCREENSHOT_DIMENSIONS := by decide
  have hmaxval : LF ∉ byteString "255" := by decide
  rw [header_append, Bytes.splitn_append hmagic, Bytes.splitn_append hdimensions,
    Bytes.splitn_append hmaxval, Bytes.splitn]

/-- A capture has the header when the split gives its lines, and something behind them. -/
theorem header_of_splitn {parts : List (List UInt8)} (hparts : Bytes.splitn LF 4 data = parts)
    (hmagic : parts[0]?.getD [] = byteString "P6")
    (hdimensions : parts[1]?.getD [] = KERNEL_SCREENSHOT_DIMENSIONS)
    (hmaxval : parts[2]?.getD [] = byteString "255") (hpayload : parts[3]?.getD [] ≠ []) :
    data = header ++ parts[3]?.getD [] := by
  rcases Bytes.splitn_cases LF 2 data with hone | ⟨magic, rest, rfl, hsplit⟩
  · rw [hparts] at hone
    rw [hone] at hpayload
    exact absurd rfl hpayload
  rcases Bytes.splitn_cases LF 1 rest with hone | ⟨dimensions, rest, rfl, hsplit'⟩
  · rw [hparts, hone] at hsplit
    rw [hsplit] at hpayload
    exact absurd rfl hpayload
  rcases Bytes.splitn_cases LF 0 rest with hone | ⟨maxval, payload, rfl, hsplit''⟩
  · rw [hparts, hsplit', hone] at hsplit
    rw [hsplit] at hpayload
    exact absurd rfl hpayload
  rw [hparts, hsplit', hsplit'', Bytes.splitn] at hsplit
  subst hsplit
  obtain rfl : magic = _ := hmagic
  obtain rfl : dimensions = _ := hdimensions
  obtain rfl : maxval = _ := hmaxval
  exact (header_append payload).symm

/-- A capture that the check of the first cell reaches is the header and a payload. -/
theorem checkScreenHasText_run (fromUtf8Lossy : List UInt8 → String) (path : String)
    (data : List UInt8) :
    (∃ payload, data = header ++ payload ∧ payload.length = PAYLOAD_LENGTH ∧
      checkScreenHasText fromUtf8Lossy path (.ok data) = checkFirstGlyph payload) ∨
    (¬ ∃ payload, data = header ++ payload ∧ payload.length = PAYLOAD_LENGTH) ∧
      ∃ message, checkScreenHasText fromUtf8Lossy path (.ok data) = throw message := by
  have hproduct : (Word.checkedMul KERNEL_SCREENSHOT_WIDTH KERNEL_SCREENSHOT_HEIGHT).bind
      (fun pixels ↦ Word.checkedMul pixels 3) = some PAYLOAD_LENGTH := rfl
  have hparts {payload : List UInt8} (h : data = header ++ payload) : Bytes.splitn LF 4 data =
      [byteString "P6", KERNEL_SCREENSHOT_DIMENSIONS, byteString "255", payload] := by
    rw [h, splitn_header]
  rw [checkScreenHasText]
  simp only [hproduct]
  split_ifs with hmagic hdimensions hmaxval hlength
  · exact Or.inr ⟨fun ⟨_, h, _⟩ ↦ hmagic (by rw [hparts h]; rfl), _, rfl⟩
  · exact Or.inr ⟨fun ⟨_, h, _⟩ ↦ hdimensions (by rw [hparts h]; rfl), _, rfl⟩
  · exact Or.inr ⟨fun ⟨_, h, _⟩ ↦ hmaxval (by rw [hparts h]; rfl), _, rfl⟩
  · refine Or.inr ⟨fun ⟨payload, h, hpayload⟩ ↦ hlength ?_, _, rfl⟩
    rw [hparts h]
    exact hpayload
  · rw [not_not] at hmagic hdimensions hmaxval hlength
    refine Or.inl ⟨_, header_of_splitn rfl hmagic hdimensions hmaxval fun hempty ↦ ?_, hlength, rfl⟩
    rw [hempty] at hlength
    exact absurd hlength (by decide)

/-- A capture is accepted exactly when it is the header and a payload of the length of the surface,
whatever bytes it has, whose first cell shows the `f` of the font. The check never stops, and every
slice that it compares lies inside the payload. -/
theorem checkScreenHasText_iff (fromUtf8Lossy : List UInt8 → String) (path : String)
    (data : List UInt8) :
    ∃ outcome, (checkScreenHasText fromUtf8Lossy path (.ok data)).run = .ok outcome ∧
      (outcome = .ok () ↔ ∃ payload, data = header ++ payload ∧
        payload.length = PAYLOAD_LENGTH ∧ ShowsGlyph payload 0x66) ∧
      ∀ payload : List UInt8, payload.length = PAYLOAD_LENGTH → ∀ x < 8, ∀ y < 16,
        Bytes.slice payload ((y * 1280 + x) * 3) ((y * 1280 + x) * 3 + 3) =
          some (pixelAt payload x y) := by
  have hslices : ∀ payload : List UInt8, payload.length = PAYLOAD_LENGTH → ∀ x < 8, ∀ y < 16,
      Bytes.slice payload ((y * 1280 + x) * 3) ((y * 1280 + x) * 3 + 3) =
        some (pixelAt payload x y) := fun _ hlength _ hx _ hy ↦ slice_pixel hlength hx hy
  rcases checkScreenHasText_run fromUtf8Lossy path data with
    ⟨payload, rfl, hlength, hcheck⟩ | ⟨hother, message, hcheck⟩
  · rw [hcheck, checkFirstGlyph_run hlength]
    refine ⟨_, rfl, ⟨fun hok ↦ ⟨payload, rfl, hlength, ?_⟩, fun ⟨other, hother, _, hglyph⟩ ↦ ?_⟩,
      hslices⟩
    · by_contra hglyph
      rw [if_neg hglyph] at hok
      cases hok
    · rw [List.append_cancel_left hother, if_pos hglyph]
  · rw [hcheck]
    refine ⟨.error message, rfl, iff_of_false (fun hok ↦ ?_) ?_, hslices⟩
    · cases hok
    · exact fun ⟨payload, hdata, hlength, _⟩ ↦ hother ⟨payload, hdata, hlength⟩

end Header

end Xtask

end RustBL
