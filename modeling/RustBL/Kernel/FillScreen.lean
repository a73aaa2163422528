import RustBL.Kernel.Console.Drawing
import Mathlib.Data.Finset.Prod

/-!
# Filling the screen

`fill_screen` copies the bytes of one colour to every pixel of the framebuffer, and counts the
pixels whose end lies beyond its size instead of writing them. Pointers wrap at the end of the
address space, as `addr` is not checked by the handoff.

`fillScreen_eq` gives the memory and the count, for geometries in which the end of the last pixel
fits a word. `fillScreen_safe_iff` says that there is a result for no other geometry, and
`fillScreen_console` that a framebuffer accepted by the console is filled with the colour that the
console computes, at the addresses that the console computes.
-/

set_option autoImplicit false
set_option relaxedAutoImplicit false

namespace RustBL

/-! ### The program -/

/-- The bytes of a pixel in memory. -/
def pixelBytes (format : PixelFormatKind) (red green blue : UInt8) : List UInt8 :=
  match format with
  | .rgb => [red, green, blue, 0]
  | .bgr => [blue, green, red, 0]

/-- The bytes that are copied to an address, with the addresses they get. -/
def copied (address : ℕ) (bytes : List UInt8) : List (ℕ × UInt8) :=
  bytes.zipIdx.map fun (byte, i) ↦ ((address + i) % 2 ^ 64, byte)

/-- `ptr::copy_nonoverlapping(bytes.as_ptr(), address, count)`, for `count <= bytes.len()`. -/
def copyNonoverlapping (m : Mem) (bytes : List UInt8) (address count : ℕ) : Mem :=
  paint m (copied address (bytes.take count))

/-- The pixel at `(x, y)`: the body of the loops of `fill_screen`. -/
def fillPixel (fb : FrameBufferInfo) (pixel : List UInt8) (bytesPerPixel : ℕ)
    (state : Mem × ℕ) (y x : ℕ) : Checked (Mem × ℕ) := do
  let (m, skippedPixels) := state
  let scanline ← Word.mul y fb.stride.toNat
  let pixels ← Word.add scanline x
  let offset ← Word.mul pixels bytesPerPixel
  let stop ← Word.add offset bytesPerPixel
  if fb.size.toNat < stop then do
    let skippedPixels ← Word.add skippedPixels 1
    return (m, skippedPixels)
  else return (copyNonoverlapping m pixel (fb.addr.toNat + offset) bytesPerPixel, skippedPixels)

/-- `fill_screen`: the memory afterwards, the number of pixels skipped, and whether the format had
to be assumed. -/
def fillScreen (m : Mem) (info : BootInfo) (red green blue : UInt8) : Checked (Mem × ℕ × Bool) := do
  let fb := info.framebuffer
  let pixelFormatFellBack := fb.pixelFormat.isNone
  let pixelFormat := fb.pixelFormat.getD .bgr
  let pixel := pixelBytes pixelFormat red green blue
  let bytesPerPixel := min fb.bytesPerPixel.toNat pixel.length
  let (m, skippedPixels) ← (List.range fb.height.toNat).foldlM (fun state y ↦
    (List.range fb.width.toNat).foldlM (fun state x ↦
      fillPixel fb pixel bytesPerPixel state y x) state) (m, 0)
  return (m, skippedPixels, pixelFormatFellBack)

/-! ### What it computes -/

namespace FrameBufferInfo

/-- The number of bytes that are copied for a pixel. -/
def copyLength (fb : FrameBufferInfo) : ℕ :=
  min fb.bytesPerPixel.toNat 4

/-- The offset of the pixel at `(x, y)`. -/
def pixelOffset (fb : FrameBufferInfo) (x y : ℕ) : ℕ :=
  (y * fb.stride.toNat + x) * fb.copyLength

/-- The offset of its end. -/
def pixelEnd (fb : FrameBufferInfo) (x y : ℕ) : ℕ :=
  fb.pixelOffset x y + fb.copyLength

/-- The addresses of the first `size` bytes. -/
def addresses (fb : FrameBufferInfo) : Set ℕ :=
  {address | ∃ offset < fb.size.toNat, address = (fb.addr.toNat + offset) % 2 ^ 64}

/-- The pixels, as row and column, whose end lies beyond the size. -/
def pixelsBeyond (fb : FrameBufferInfo) : Finset (ℕ × ℕ) :=
  (Finset.range fb.height.toNat ×ˢ Finset.range fb.width.toNat).filter fun pixel ↦
    fb.size.toNat < fb.pixelEnd pixel.2 pixel.1

/-- The pixels in the order of the loops. -/
def pixels (fb : FrameBufferInfo) : List (ℕ × ℕ) :=
  List.range fb.height.toNat ×ˢ List.range fb.width.toNat

/-- The bytes that are written for a pixel. -/
def pixelUpdates (fb : FrameBufferInfo) (bytes : List UInt8) (pixel : ℕ × ℕ) : List (ℕ × UInt8) :=
  if fb.size.toNat < fb.pixelEnd pixel.2 pixel.1 then []
  else copied (fb.addr.toNat + fb.pixelOffset pixel.2 pixel.1) (bytes.take fb.copyLength)

/-- The bytes that are written. -/
def fillUpdates (fb : FrameBufferInfo) (bytes : List UInt8) : List (ℕ × UInt8) :=
  fb.pixels.flatMap (fb.pixelUpdates bytes)

end FrameBufferInfo

section Fill

variable {m : Mem} {info : BootInfo} {fb : FrameBufferInfo} {bytes : List UInt8} {x y : ℕ}
  {red green blue : UInt8}

theorem length_pixelBytes (format : PixelFormatKind) (red green blue : UInt8) :
    (pixelBytes format red green blue).length = 4 := by
  cases format <;> rfl

theorem mem_copied {address : ℕ} {update : ℕ × UInt8} : update ∈ copied address bytes ↔
    ∃ i, ∃ h : i < bytes.length, update = ((address + i) % 2 ^ 64, bytes[i]) := by
  rw [copied, List.mem_map]
  constructor
  · rintro ⟨⟨byte, i⟩, hmem, rfl⟩
    obtain ⟨hi, hbyte⟩ := List.getElem?_eq_some_iff.mp (List.mem_zipIdx_iff_getElem?.mp hmem)
    exact ⟨i, hi, Prod.ext rfl hbyte.symm⟩
  · rintro ⟨i, hi, rfl⟩
    exact ⟨(bytes[i], i), List.mem_zipIdx_iff_getElem?.mpr (List.getElem?_eq_getElem hi), rfl⟩

theorem mem_pixels {pixel : ℕ × ℕ} :
    pixel ∈ fb.pixels ↔ pixel.1 < fb.height.toNat ∧ pixel.2 < fb.width.toNat := by
  obtain ⟨y, x⟩ := pixel
  rw [FrameBufferInfo.pixels, List.mem_product, List.mem_range, List.mem_range]

theorem card_pixelsBeyond (fb : FrameBufferInfo) : fb.pixelsBeyond.card =
    fb.pixels.countP fun pixel ↦ fb.size.toNat < fb.pixelEnd pixel.2 pixel.1 := by
  rw [← Multiset.coe_countP, Multiset.countP_eq_card_filter, FrameBufferInfo.pixels,
    ← Multiset.coe_product]
  rfl

/-- The number of a pixel fits a word. -/
theorem pixelNumber_lt (hx : x < fb.width.toNat) (hy : y < fb.height.toNat) :
    y * fb.stride.toNat + x < 2 ^ 64 := by
  have hwidth := fb.width.toNat_lt
  have hheight := fb.height.toNat_lt
  have hstride := fb.stride.toNat_lt
  have hscanline : y * fb.stride.toNat ≤ (2 ^ 32 - 1) * (2 ^ 32 - 1) :=
    Nat.mul_le_mul (by omega) (by omega)
  omega

/-- A pixel whose end fits a word is written or counted. -/
theorem fillPixel_eq (hx : x < fb.width.toNat) (hy : y < fb.height.toNat)
    (hfits : fb.pixelEnd x y < 2 ^ 64) {skipped : ℕ} (hroom : skipped + 1 < 2 ^ 64) :
    fillPixel fb bytes fb.copyLength (m, skipped) y x =
      .ok (paint m (fb.pixelUpdates bytes (y, x)),
        skipped + if fb.size.toNat < fb.pixelEnd x y then 1 else 0) := by
  have hnumber := pixelNumber_lt hx hy
  have hend : fb.pixelOffset x y + fb.copyLength < 2 ^ 64 := hfits
  have hoffset : (y * fb.stride.toNat + x) * fb.copyLength = fb.pixelOffset x y := rfl
  rw [fillPixel]
  rw [Word.mul_eq (by omega), ok_bind, Word.add_eq hnumber, ok_bind, Word.mul_eq (by omega),
    ok_bind, hoffset, Word.add_eq hend, ok_bind, FrameBufferInfo.pixelUpdates]
  have hstop : fb.pixelOffset x y + fb.copyLength = fb.pixelEnd x y := rfl
  rw [hstop]
  split_ifs with hbeyond
  · rw [Word.add_eq hroom]
    rfl
  · rfl

/-- The end of a pixel that was written or counted fits a word. -/
theorem pixelEnd_lt_of_ok {state next : Mem × ℕ}
    (h : fillPixel fb bytes fb.copyLength state y x = .ok next) : fb.pixelEnd x y < 2 ^ 64 := by
  obtain ⟨scanline, hscanline, h⟩ := bind_eq_ok.mp h
  obtain ⟨number, hnumber, h⟩ := bind_eq_ok.mp h
  obtain ⟨offset, hoffset, h⟩ := bind_eq_ok.mp h
  obtain ⟨stop, hstop, _⟩ := bind_eq_ok.mp h
  obtain ⟨_, rfl⟩ := Word.mul_eq_ok.mp hscanline
  obtain ⟨_, rfl⟩ := Word.add_eq_ok.mp hnumber
  obtain ⟨_, rfl⟩ := Word.mul_eq_ok.mp hoffset
  exact (Word.add_eq_ok.mp hstop).1

/-- The loops write or count every pixel. -/
theorem foldlM_fillPixel {pixels : List (ℕ × ℕ)} (hpixels : ∀ pixel ∈ pixels, pixel ∈ fb.pixels)
    (hfits : ∀ pixel ∈ pixels, fb.pixelEnd pixel.2 pixel.1 < 2 ^ 64) {skipped : ℕ}
    (hroom : skipped + pixels.length < 2 ^ 64) :
    pixels.foldlM (fun state pixel ↦ fillPixel fb bytes fb.copyLength state pixel.1 pixel.2)
        (m, skipped) =
      .ok (paint m (pixels.flatMap (fb.pixelUpdates bytes)),
        skipped + pixels.countP fun pixel ↦ fb.size.toNat < fb.pixelEnd pixel.2 pixel.1) := by
  induction pixels generalizing m skipped with
  | nil => rfl
  | cons pixel pixels ih =>
    rw [List.forall_mem_cons] at hpixels hfits
    rw [List.length_cons] at hroom
    obtain ⟨hy, hx⟩ := mem_pixels.mp hpixels.1
    rw [List.foldlM_cons, fillPixel_eq hx hy hfits.1 (by omega), ok_bind,
      ih hpixels.2 hfits.2 (by split_ifs <;> omega), List.flatMap_cons, paint_append,
      List.countP_cons, Nat.add_assoc, Nat.add_comm (List.countP _ _)]
    simp only [decide_eq_true_eq]

theorem length_pixels_lt (fb : FrameBufferInfo) : fb.pixels.length < 2 ^ 64 := by
  have hwidth := fb.width.toNat_lt
  have hheight := fb.height.toNat_lt
  have hproduct : fb.height.toNat * fb.width.toNat ≤ (2 ^ 32 - 1) * (2 ^ 32 - 1) :=
    Nat.mul_le_mul (by omega) (by omega)
  rw [FrameBufferInfo.pixels, List.length_product, List.length_range, List.length_range]
  omega

/-- The loops of `fill_screen`. -/
theorem fillScreen_loops (m : Mem) (info : BootInfo) (red green blue : UInt8) :
    fillScreen m info red green blue = (do
      let (m, skippedPixels) ← info.framebuffer.pixels.foldlM (fun state pixel ↦
        fillPixel info.framebuffer
          (pixelBytes (info.framebuffer.pixelFormat.getD .bgr) red green blue)
          info.framebuffer.copyLength state pixel.1 pixel.2) (m, 0)
      return (m, skippedPixels, info.framebuffer.pixelFormat.isNone)) := by
  rw [fillScreen, FrameBufferInfo.pixels, foldlM_product, FrameBufferInfo.copyLength,
    length_pixelBytes]

/-- When the end of every pixel fits a word, the screen is filled. -/
theorem fillScreen_eq (m : Mem) (red green blue : UInt8)
    (hfits : ∀ x < info.framebuffer.width.toNat, ∀ y < info.framebuffer.height.toNat,
      info.framebuffer.pixelEnd x y < 2 ^ 64) :
    fillScreen m info red green blue =
      .ok (paint m (info.framebuffer.fillUpdates
          (pixelBytes (info.framebuffer.pixelFormat.getD .bgr) red green blue)),
        info.framebuffer.pixelsBeyond.card, info.framebuffer.pixelFormat.isNone) := by
  have hroom : 0 + info.framebuffer.pixels.length < 2 ^ 64 := by
    rw [Nat.zero_add]
    exact length_pixels_lt info.framebuffer
  rw [fillScreen_loops, foldlM_fillPixel (fun _ hpixel ↦ hpixel) (fun pixel hpixel ↦ ?_) hroom,
    ok_bind, card_pixelsBeyond, Nat.zero_add, FrameBufferInfo.fillUpdates]
  · rfl
  · exact hfits _ (mem_pixels.mp hpixel).2 _ (mem_pixels.mp hpixel).1

/-- When the screen is filled, the end of every pixel fits a word. -/
theorem pixelEnd_lt_of_fillScreen {result : Mem × ℕ × Bool}
    (h : fillScreen m info red green blue = .ok result)
    (hx : x < info.framebuffer.width.toNat) (hy : y < info.framebuffer.height.toNat) :
    info.framebuffer.pixelEnd x y < 2 ^ 64 := by
  rw [fillScreen_loops] at h
  obtain ⟨state, hloops, _⟩ := bind_eq_ok.mp h
  obtain ⟨before, after, hpixel⟩ := foldlM_ok_mem hloops (mem_pixels.mpr ⟨hy, hx⟩ : (y, x) ∈ _)
  exact pixelEnd_lt_of_ok hpixel

/-- Only bytes of the framebuffer are written. -/
theorem sameOff_fillUpdates (m : Mem) (fb : FrameBufferInfo) (bytes : List UInt8) :
    m.SameOff fb.addresses (paint m (fb.fillUpdates bytes)) := by
  intro address hout
  refine paint_of_not_mem fun update hupdate heq ↦ hout ?_
  obtain ⟨pixel, _, hupdate⟩ := List.mem_flatMap.mp hupdate
  rw [FrameBufferInfo.pixelUpdates] at hupdate
  split_ifs at hupdate with hbeyond
  · exact absurd hupdate List.not_mem_nil
  obtain ⟨i, hi, rfl⟩ := mem_copied.mp hupdate
  have hlength : i < fb.copyLength := hi.trans_le (List.length_take_le _ _)
  refine ⟨fb.pixelOffset pixel.2 pixel.1 + i, ?_, ?_⟩
  · rw [FrameBufferInfo.pixelEnd] at hbeyond
    omega
  · rw [← heq, Nat.add_assoc]

/-- The end of the last pixel, computed in words, is its end. -/
def LastPixelFits (fb : FrameBufferInfo) : Prop :=
  fb.width.toNat = 0 ∨ fb.height.toNat = 0 ∨
    ((fb.height.toNat - 1) * fb.stride.toNat + fb.width.toNat) * min fb.bytesPerPixel.toNat 4 <
      2 ^ 64

/-- No pixel ends behind the last one. -/
theorem lastPixelFits_iff : LastPixelFits fb ↔
    ∀ x < fb.width.toNat, ∀ y < fb.height.toNat, fb.pixelEnd x y < 2 ^ 64 := by
  have hend (x y : ℕ) : fb.pixelEnd x y = (y * fb.stride.toNat + (x + 1)) * fb.copyLength := by
    rw [FrameBufferInfo.pixelEnd, FrameBufferInfo.pixelOffset, ← Nat.add_assoc, Nat.succ_mul]
  constructor
  · rintro (hwidth | hheight | hlast) x hx y hy
    · omega
    · omega
    · have hrow : y * fb.stride.toNat ≤ (fb.height.toNat - 1) * fb.stride.toNat :=
        Nat.mul_le_mul_right _ (by omega)
      rw [hend]
      exact (Nat.mul_le_mul_right _ (by omega)).trans_lt hlast
  · intro hall
    by_cases hwidth : fb.width.toNat = 0
    · exact Or.inl hwidth
    by_cases hheight : fb.height.toNat = 0
    · exact Or.inr (Or.inl hheight)
    have hlast := hall (fb.width.toNat - 1) (by omega) (fb.height.toNat - 1) (by omega)
    rw [hend, Nat.sub_add_cancel (by omega)] at hlast
    exact Or.inr (Or.inr hlast)

/-- On every handoff, the screen is filled without an overflow, within the framebuffer and with the
exact number of pixels skipped, exactly when the end of the last pixel fits a word. -/
theorem fillScreen_safe_iff (m : Mem) (info : BootInfo) (red green blue : UInt8) :
    (∃ memory skipped, fillScreen m info red green blue =
        .ok (memory, skipped, info.framebuffer.pixelFormat.isNone) ∧
      m.SameOff info.framebuffer.addresses memory ∧
      skipped = info.framebuffer.pixelsBeyond.card) ↔ LastPixelFits info.framebuffer := by
  rw [lastPixelFits_iff]
  constructor
  · rintro ⟨memory, skipped, hfill, _, _⟩ x hx y hy
    exact pixelEnd_lt_of_fillScreen hfill hx hy
  · intro hfits
    exact ⟨_, _, fillScreen_eq m red green blue hfits, sameOff_fillUpdates m _ _, rfl⟩

/-- A handoff the kernel lets through, with a framebuffer of one pixel in each of very many long
scanlines. -/
def tallScreen : BootInfo :=
  .new ⟨0x80000000, 0, 1, 0x40000002, 0xffffffff, 4, 0⟩ 0 0 0 0

/-- The end of the last pixel does not fit a word, and the arithmetic overflows before any pixel at
that offset could be skipped. -/
theorem tallScreen_overflows : tallScreen.isValid = true ∧
    ¬ ∃ result, fillScreen (fun _ ↦ 0) tallScreen 0x00 0x33 0x99 = .ok result := by
  refine ⟨by decide, fun ⟨result, hfill⟩ ↦ ?_⟩
  have hlast := pixelEnd_lt_of_fillScreen hfill (x := 0) (y := 0x40000001) (by decide) (by decide)
  exact absurd hlast (by decide)

end Fill

/-! ### What the console expects -/

/-- Three bytes side by side, as `pack` puts them. -/
theorem packed_toNat (low middle high : UInt8) :
    (low.toUInt32 ||| (middle.toUInt32 <<< 8) ||| (high.toUInt32 <<< 16)).toNat =
      low.toNat + 256 * (middle.toNat + 256 * high.toNat) := by
  have hlow := low.toNat_lt
  have hmiddle := middle.toNat_lt
  have hhigh := high.toNat_lt
  have hshift8 : (middle.toUInt32 <<< 8).toNat = 2 ^ 8 * middle.toNat := by
    rw [UInt32.toNat_shiftLeft, UInt8.toNat_toUInt32, Nat.shiftLeft_eq]
    show middle.toNat * 2 ^ 8 % 2 ^ 32 = _
    omega
  have hshift16 : (high.toUInt32 <<< 16).toNat = 2 ^ 16 * high.toNat := by
    rw [UInt32.toNat_shiftLeft, UInt8.toNat_toUInt32, Nat.shiftLeft_eq]
    show high.toNat * 2 ^ 16 % 2 ^ 32 = _
    omega
  have hpair : low.toNat ||| 2 ^ 8 * middle.toNat = 2 ^ 8 * middle.toNat + low.toNat := by
    rw [Nat.or_comm, ← Nat.two_pow_add_eq_or_of_lt hlow]
  rw [UInt32.toNat_or, UInt32.toNat_or, UInt8.toNat_toUInt32, hshift8, hshift16, hpair,
    Nat.or_comm, ← Nat.two_pow_add_eq_or_of_lt (by omega)]
  omega

/-- The four bytes of a pixel are the colour of the console. -/
theorem load_pixelBytes {m : Mem} {address : ℕ} {format : PixelFormatKind}
    {red green blue : UInt8} (hbytes : ∀ i (h : i < (pixelBytes format red green blue).length),
      m (address + i) = (pixelBytes format red green blue)[i]) :
    m.load address PIXEL_SIZE = (pack format red green blue).toNat := by
  have hlength := length_pixelBytes format red green blue
  have hload : m.load address PIXEL_SIZE = (m address).toNat +
      256 * ((m (address + 1)).toNat + 256 * ((m (address + 2)).toNat +
        256 * ((m (address + 3)).toNat + 256 * 0))) := rfl
  have hfirst := hbytes 0 (by omega)
  rw [Nat.add_zero] at hfirst
  rw [hload, hfirst, hbytes 1 (by omega), hbytes 2 (by omega), hbytes 3 (by omega)]
  cases format with
  | rgb => exact (packed_toNat red green blue).symm
  | bgr => exact (packed_toNat blue green red).symm

/-- The console accepts known formats with pixels of four bytes only. -/
theorem Console.format_of_new {fb : FrameBufferInfo} {console : Console}
    (hnew : Console.new fb = some console) :
    (∃ format, fb.pixelFormat = some format) ∧ fb.bytesPerPixel.toNat = PIXEL_SIZE := by
  rw [Console.new] at hnew
  obtain ⟨format, hformat, hnew⟩ := Option.bind_eq_some_iff.mp hnew
  refine ⟨⟨format, hformat⟩, ?_⟩
  by_contra hbytes
  rw [if_pos (Or.inr (Or.inr (Or.inl hbytes)))] at hnew
  exact absurd hnew (Option.some_ne_none console).symm

/-- The bytes of the pixels of the surface. -/
def FrameBufferInfo.surface (fb : FrameBufferInfo) : Set ℕ :=
  {address | ∃ x < fb.width.toNat, ∃ y < fb.height.toNat,
    address ∈ Set.Ico (fb.addr.toNat + 4 * (y * fb.stride.toNat + x))
      (fb.addr.toNat + 4 * (y * fb.stride.toNat + x) + 4)}

section Surface

variable {console : Console}

/-- No pixel ends beyond the size of a framebuffer that the console accepts. -/
theorem pixelEnd_le_size (hfits : console.Fits) (hlength : console.framebuffer.copyLength = 4)
    {x y : ℕ} (hx : x < console.width) (hy : y < console.height) :
    console.framebuffer.pixelEnd x y ≤ PIXEL_SIZE * (console.stride * console.height) := by
  have hindex := Nat.mul_le_mul_left PIXEL_SIZE
    (Nat.succ_le_of_lt (Console.index_lt (hx.trans_le hfits.width_le) hy))
  have hend : console.framebuffer.pixelEnd x y = PIXEL_SIZE * (console.index x y).succ := by
    rw [FrameBufferInfo.pixelEnd, FrameBufferInfo.pixelOffset, hlength, ← Nat.succ_mul,
      Nat.mul_comm]
    rfl
  rw [hend]
  exact hindex

/-- What is written to a framebuffer that the console accepts: four bytes at every pixel. -/
theorem mem_fillUpdates (hfits : console.Fits) (hlength : console.framebuffer.copyLength = 4)
    {bytes : List UInt8} (hbytes : bytes.length = 4) {update : ℕ × UInt8} :
    update ∈ console.framebuffer.fillUpdates bytes ↔
      ∃ x < console.width, ∃ y < console.height, ∃ i, ∃ h : i < bytes.length,
        update = (console.base + PIXEL_SIZE * console.index x y + i, bytes[i]) := by
  have hupdates {x y : ℕ} (hx : x < console.width) (hy : y < console.height) :
      update ∈ console.framebuffer.pixelUpdates bytes (y, x) ↔ ∃ i, ∃ h : i < bytes.length,
        update = (console.base + PIXEL_SIZE * console.index x y + i, bytes[i]) := by
    have hpixelEnd := pixelEnd_le_size hfits hlength hx hy
    have hsize := hpixelEnd.trans hfits.bytes_le
    have hoffset : console.framebuffer.pixelOffset x y = PIXEL_SIZE * console.index x y := by
      rw [FrameBufferInfo.pixelOffset, hlength, Nat.mul_comm]
      rfl
    have hfull : bytes.take 4 = bytes := List.take_of_length_le hbytes.le
    rw [FrameBufferInfo.pixelUpdates, if_neg (not_lt.mpr hsize), hlength, hfull, hoffset,
      mem_copied]
    refine exists_congr fun i ↦ exists_congr fun hi ↦ ?_
    have hend := hfits.end_lt
    have hwrap : (console.framebuffer.addr.toNat + PIXEL_SIZE * console.index x y + i) % 2 ^ 64 =
        console.base + PIXEL_SIZE * console.index x y + i := by
      rw [FrameBufferInfo.pixelEnd, hoffset, hlength] at hpixelEnd
      exact Nat.mod_eq_of_lt (by rw [← Console.base]; omega)
    rw [hwrap]
  rw [FrameBufferInfo.fillUpdates, List.mem_flatMap]
  constructor
  · rintro ⟨⟨y, x⟩, hpixel, hupdate⟩
    obtain ⟨hy, hx⟩ := mem_pixels.mp hpixel
    exact ⟨x, hx, y, hy, (hupdates hx hy).mp hupdate⟩
  · rintro ⟨x, hx, y, hy, hupdate⟩
    exact ⟨(y, x), mem_pixels.mpr ⟨hy, hx⟩, (hupdates hx hy).mpr hupdate⟩

/-- Filling leaves the colour in every pixel. -/
theorem load_fillUpdates (m : Mem) (hfits : console.Fits)
    (hlength : console.framebuffer.copyLength = 4) (format : PixelFormatKind)
    (red green blue : UInt8) {x y : ℕ} (hx : x < console.width) (hy : y < console.height) :
    Mem.load (paint m (console.framebuffer.fillUpdates (pixelBytes format red green blue)))
        (console.base + PIXEL_SIZE * console.index x y) PIXEL_SIZE =
      (pack format red green blue).toNat := by
  have hbytes := length_pixelBytes format red green blue
  refine load_pixelBytes fun i hi ↦ paint_of_mem ?_ fun update hupdate heq ↦ ?_
  · exact ⟨_, (mem_fillUpdates hfits hlength hbytes).mpr ⟨x, hx, y, hy, i, hi, rfl⟩, rfl⟩
  · obtain ⟨x', _, y', _, i', hi', rfl⟩ := (mem_fillUpdates hfits hlength hbytes).mp hupdate
    -- Words of four bytes at multiples of four do not overlap but with themselves.
    obtain rfl : i' = i := by
      simp only [PIXEL_SIZE] at heq
      omega
    rfl

/-- Filling writes bytes of the surface only. -/
theorem sameOff_surface (m : Mem) (hfits : console.Fits)
    (hlength : console.framebuffer.copyLength = 4) {bytes : List UInt8}
    (hbytes : bytes.length = 4) :
    m.SameOff console.framebuffer.surface (paint m (console.framebuffer.fillUpdates bytes)) := by
  intro address hout
  refine paint_of_not_mem fun update hupdate heq ↦ hout ?_
  obtain ⟨x, hx, y, hy, i, hi, rfl⟩ := (mem_fillUpdates hfits hlength hbytes).mp hupdate
  have hend : i < 4 := hbytes ▸ hi
  refine ⟨x, hx, y, hy, ?_⟩
  rw [← heq]
  exact ⟨Nat.le_add_right _ _, Nat.add_lt_add_left hend _⟩

/-- `fill_screen` and the console agree about the framebuffer. -/
theorem fillScreen_console (m : Mem) (info : BootInfo) (red green blue : UInt8)
    (hnew : Console.new info.framebuffer = some console) : ∃ format memory,
    info.framebuffer.pixelFormat = some format ∧
      fillScreen m info red green blue = .ok (memory, 0, false) ∧
      (∀ x < info.framebuffer.width.toNat, ∀ y < info.framebuffer.height.toNat,
        ∃ number address, console.pixel x y = .ok (number, address) ∧
          address = info.framebuffer.addr.toNat + 4 * (y * info.framebuffer.stride.toNat + x) ∧
          memory.load address PIXEL_SIZE = (pack format red green blue).toNat) ∧
      m.SameOff info.framebuffer.surface memory := by
  obtain ⟨⟨format, hformat⟩, hpixel⟩ := Console.format_of_new hnew
  obtain ⟨hvalid, hframebuffer, _, _⟩ := Console.valid_of_new hnew
  have hfits := hvalid.toFits
  rw [← hframebuffer] at hformat hpixel ⊢
  have hlength : console.framebuffer.copyLength = 4 := by
    rw [FrameBufferInfo.copyLength, hpixel]
    rfl
  have hends : ∀ x < console.width, ∀ y < console.height,
      console.framebuffer.pixelEnd x y ≤ PIXEL_SIZE * (console.stride * console.height) :=
    fun x hx y hy ↦ pixelEnd_le_size hfits hlength hx hy
  have hfill : fillScreen m info red green blue = .ok
      (paint m (console.framebuffer.fillUpdates (pixelBytes format red green blue)),
        console.framebuffer.pixelsBeyond.card, false) := by
    have hword := hfits.end_lt
    rw [fillScreen_eq m red green blue (fun x hx y hy ↦ ?_), ← hframebuffer, hformat]
    · rfl
    · rw [← hframebuffer] at hx hy ⊢
      exact (hends x hx y hy).trans_lt (by omega)
  have hskipped : console.framebuffer.pixelsBeyond.card = 0 := by
    rw [Finset.card_eq_zero, FrameBufferInfo.pixelsBeyond, Finset.filter_eq_empty_iff]
    rintro ⟨y, x⟩ hmem
    rw [Finset.mem_product, Finset.mem_range, Finset.mem_range] at hmem
    exact not_lt.mpr ((hends x hmem.2 y hmem.1).trans hfits.bytes_le)
  rw [hskipped] at hfill
  refine ⟨format, _, hformat, hfill, fun x hx y hy ↦ ?_,
    sameOff_surface m hfits hlength (length_pixelBytes _ _ _ _)⟩
  exact ⟨_, _, Console.pixel_eq hfits hx hy, rfl,
    load_fillUpdates m hfits hlength format red green blue hx hy⟩

/-- A handoff with a framebuffer of one cell, in scanlines of ten pixels. -/
def smallScreen : BootInfo :=
  .new ⟨0x80000000, 640, 8, 16, 10, 4, 1⟩ 0 0 0 0

theorem fillScreen_console_smallScreen : ∃ console format memory,
    Console.new smallScreen.framebuffer = some console ∧
      smallScreen.framebuffer.pixelFormat = some format ∧
      fillScreen (fun _ ↦ 0) smallScreen 0x00 0x33 0x99 = .ok (memory, 0, false) ∧
      (∀ x < 8, ∀ y < 16, ∃ number address, console.pixel x y = .ok (number, address) ∧
        address = 0x80000000 + 4 * (y * 10 + x) ∧
        Mem.load memory address PIXEL_SIZE = (pack format 0x00 0x33 0x99).toNat) ∧
      Mem.SameOff smallScreen.framebuffer.surface (fun _ ↦ 0) memory := by
  have hsome : (Console.new smallScreen.framebuffer).isSome := by decide
  obtain ⟨console, hnew⟩ := Option.isSome_iff_exists.mp hsome
  obtain ⟨format, memory, hformat, hfill, hpixels, hrest⟩ :=
    fillScreen_console (fun _ ↦ 0) smallScreen 0x00 0x33 0x99 hnew
  exact ⟨console, format, memory, hnew, hformat, hfill, hpixels, hrest⟩

end Surface

end RustBL
