import Armonios.Lib.Paint
import Armonios.Lib.Loop
import Mathlib

/-!
# The framebuffer

The model of `drivers/fb/fb.c` and `kernel/font.c`. No function of these that the desktop uses reads a
pixel, so each is the colours that it writes, `FbPaint`; a picture is a colour for each pixel.

`int32_t` values are integers, and `i32` is what the arithmetic leaves of a result.
-/

namespace Armonios

/-- A 32-bit signed value. -/
def i32 (n : Int) : Int := (n + 2147483648) % 4294967296 - 2147483648

theorem i32_of_fits {n : Int} (h : -2147483648 ≤ n) (h' : n < 2147483648) : i32 n = n := by
  unfold i32
  omega

theorem i32_bounds (n : Int) : -2147483648 ≤ i32 n ∧ i32 n < 2147483648 := by
  unfold i32
  omega

/-- `(int32_t)` of a 32-bit unsigned value. -/
def s32 (n : UInt32) : Int := i32 n.toNat

/-- `(uint32_t)` of a signed value. -/
def u32 (n : Int) : UInt32 := UInt32.ofNat (n % 4294967296).toNat

/-- The column and the row. -/
abbrev Pixel := Nat × Nat

abbrev FbPaint := Paint Pixel UInt32

/-- `fb_t`, the pixels apart. -/
structure FbSize where
  width : UInt32
  height : UInt32
  deriving DecidableEq

/-- The pixels of the framebuffer. -/
def FbSize.Shows (fb : FbSize) (p : Pixel) : Prop := p.1 < fb.width.toNat ∧ p.2 < fb.height.toNat

def fbPutpixel (fb : FbSize) (x y color : UInt32) : FbPaint :=
  if fb.width ≤ x ∨ fb.height ≤ y then .clear
  else fun p => if p = (x.toNat, y.toNat) then some color else none

/-- Whether the pixel is in the `w` columns and `h` rows from `(x, y)` on. -/
def InRect (x y w h : Nat) (p : Pixel) : Prop := x ≤ p.1 ∧ p.1 < x + w ∧ y ≤ p.2 ∧ p.2 < y + h

instance (x y w h : Nat) (p : Pixel) : Decidable (InRect x y w h p) := by unfold InRect; infer_instance

def fbFillrect (fb : FbSize) (x y w h color : UInt32) : FbPaint :=
  if w = 0 ∨ h = 0 ∨ fb.width ≤ x ∨ fb.height ≤ y then .clear
  else
    let w := if fb.width - x < w then fb.width - x else w
    let h := if fb.height - y < h then fb.height - y else h
    fun p => if InRect x.toNat y.toNat w.toNat h.toNat p then some color else none

def fbDrawRect (fb : FbSize) (x y w h color : UInt32) : FbPaint :=
  if w = 0 ∨ h = 0 ∨ fb.width ≤ x ∨ fb.height ≤ y then .clear
  else
    let w := (min (x.toNat + w.toNat) fb.width.toNat) - x.toNat
    let h := (min (y.toNat + h.toNat) fb.height.toNat) - y.toNat
    -- the first and the last row, then the first and the last column
    fun p =>
      if InRect x.toNat y.toNat w 1 p ∨ (1 < h ∧ InRect x.toNat (y.toNat + h - 1) w 1 p) ∨
          InRect x.toNat (y.toNat + 1) 1 (h - 2) p ∨
          (1 < w ∧ InRect (x.toNat + w - 1) (y.toNat + 1) 1 (h - 2) p) then some color
      else none

/-- `src` has a row of `w` pixels after the other. -/
def fbBlit (fb : FbSize) (dstX dstY : UInt32) (src : Nat → UInt32) (w h : UInt32) : FbPaint :=
  if w = 0 ∨ h = 0 ∨ fb.width ≤ dstX ∨ fb.height ≤ dstY then .clear
  else
    let srcStride := w.toNat
    let w := if fb.width - dstX < w then fb.width - dstX else w
    let h := if fb.height - dstY < h then fb.height - dstY else h
    fun p =>
      if InRect dstX.toNat dstY.toNat w.toNat h.toNat p then
        some (src ((p.2 - dstY.toNat) * srcStride + (p.1 - dstX.toNat)))
      else none

theorem fbFillrect_apply (fb : FbSize) (x y w h color : UInt32) (p : Pixel) : fbFillrect fb x y w h color p =
    if p.1 < fb.width.toNat ∧ p.2 < fb.height.toNat ∧ InRect x.toNat y.toNat w.toNat h.toNat p then some color
    else none := by
  unfold fbFillrect
  split
  · rename_i hempty
    rw [if_neg]
    · rfl
    · simp only [← UInt32.toNat_inj, UInt32.le_iff_toNat_le, UInt32.toNat_zero] at hempty
      unfold InRect
      omega
  · rename_i hinside
    simp only [not_or, UInt32.not_le, UInt32.lt_iff_toNat_lt] at hinside
    have hx := UInt32.toNat_sub_of_le fb.width x (UInt32.le_iff_toNat_le.mpr hinside.2.2.1.le)
    have hy := UInt32.toNat_sub_of_le fb.height y (UInt32.le_iff_toNat_le.mpr hinside.2.2.2.le)
    dsimp only
    congr 1
    simp only [UInt32.lt_iff_toNat_lt, InRect, apply_ite UInt32.toNat, hx, hy, eq_iff_iff]
    split <;> split <;> omega

theorem fbBlit_apply (fb : FbSize) (dstX dstY : UInt32) (src : Nat → UInt32) (w h : UInt32) (p : Pixel) :
    fbBlit fb dstX dstY src w h p =
      if p.1 < fb.width.toNat ∧ p.2 < fb.height.toNat ∧ InRect dstX.toNat dstY.toNat w.toNat h.toNat p then
        some (src ((p.2 - dstY.toNat) * w.toNat + (p.1 - dstX.toNat)))
      else none := by
  unfold fbBlit
  split
  · rename_i hempty
    rw [if_neg]
    · rfl
    · simp only [← UInt32.toNat_inj, UInt32.le_iff_toNat_le, UInt32.toNat_zero] at hempty
      unfold InRect
      omega
  · rename_i hinside
    simp only [not_or, UInt32.not_le, UInt32.lt_iff_toNat_lt] at hinside
    have hx := UInt32.toNat_sub_of_le fb.width dstX (UInt32.le_iff_toNat_le.mpr hinside.2.2.1.le)
    have hy := UInt32.toNat_sub_of_le fb.height dstY (UInt32.le_iff_toNat_le.mpr hinside.2.2.2.le)
    dsimp only
    congr 1
    simp only [UInt32.lt_iff_toNat_lt, InRect, apply_ite UInt32.toNat, hx, hy, eq_iff_iff]
    split <;> split <;> omega

/-! ## Lines -/

def iabs32 (value : Int) : Int := if value < 0 then i32 (-value) else value

def fbPutpixelI32 (fb : FbSize) (x y : Int) (color : UInt32) : FbPaint :=
  if x < 0 ∨ y < 0 then .clear else fbPutpixel fb (u32 x) (u32 y) color

/-- The variables of the loop of `fb_draw_line`, and what it has drawn. -/
structure LineState where
  x : Int
  y : Int
  err : Int
  paint : FbPaint

/-- One turn, up to the test at which the loop is left; the pixel at the end is not drawn here. -/
def lineStep (fb : FbSize) (x1 y1 dx dy sx sy : Int) (color : UInt32) (s : LineState) : Option LineState :=
  if s.x = x1 ∧ s.y = y1 then none
  else
    let e2 := i32 (2 * s.err)
    let err := if dy ≤ e2 then i32 (s.err + dy) else s.err
    some {
      x := if dy ≤ e2 then i32 (s.x + sx) else s.x
      y := if e2 ≤ dx then i32 (s.y + sy) else s.y
      err := if e2 ≤ dx then i32 (err + dx) else err
      paint := (fbPutpixelI32 fb s.x s.y color).atop s.paint }

/-- `none` if the loop has not ended. -/
def fbDrawLine (fuel : Nat) (fb : FbSize) (x0 y0 x1 y1 : Int) (color : UInt32) : Option FbPaint :=
  let dx := iabs32 (i32 (x1 - x0))
  let sx := if x0 < x1 then 1 else -1
  let dy := i32 (-iabs32 (i32 (y1 - y0)))
  let sy := if y0 < y1 then 1 else -1
  (loop (lineStep fb x1 y1 dx dy sx sy color) fuel ⟨x0, y0, i32 (dx + dy), .clear⟩).map fun s =>
    (fbPutpixelI32 fb s.x s.y color).atop s.paint

/-! ## Text -/

def fontGlyphWidth : UInt32 := 8
def fontGlyphHeight : UInt32 := 8
def fontCharWidth : UInt32 := 8
def fontLineHeight : UInt32 := 10

/-- `g_font_glyphs`, from the space to the tilde. -/
def fontGlyphs : Array (Array UInt8) := #[
  #[0x00, 0x00, 0x00, 0x00, 0x00, 0x00, 0x00, 0x00],
  #[0x18, 0x18, 0x18, 0x18, 0x18, 0x00, 0x18, 0x00],
  #[0x6c, 0x6c, 0x28, 0x00, 0x00, 0x00, 0x00, 0x00],
  #[0x6c, 0xfe, 0x6c, 0x6c, 0xfe, 0x6c, 0x00, 0x00],
  #[0x18, 0x7e, 0xc0, 0x7e, 0x06, 0xfc, 0x18, 0x00],
  #[0xc6, 0xcc, 0x18, 0x30, 0x66, 0xc6, 0x00, 0x00],
  #[0x38, 0x6c, 0x38, 0x76, 0xdc, 0xcc, 0x76, 0x00],
  #[0x18, 0x18, 0x30, 0x00, 0x00, 0x00, 0x00, 0x00],
  #[0x0c, 0x18, 0x30, 0x30, 0x30, 0x18, 0x0c, 0x00],
  #[0x30, 0x18, 0x0c, 0x0c, 0x0c, 0x18, 0x30, 0x00],
  #[0x00, 0x66, 0x3c, 0xff, 0x3c, 0x66, 0x00, 0x00],
  #[0x00, 0x18, 0x18, 0x7e, 0x18, 0x18, 0x00, 0x00],
  #[0x00, 0x00, 0x00, 0x00, 0x18, 0x18, 0x30, 0x00],
  #[0x00, 0x00, 0x00, 0x7e, 0x00, 0x00, 0x00, 0x00],
  #[0x00, 0x00, 0x00, 0x00, 0x00, 0x18, 0x18, 0x00],
  #[0x06, 0x0c, 0x18, 0x30, 0x60, 0xc0, 0x80, 0x00],
  #[0x7c, 0xc6, 0xce, 0xde, 0xf6, 0xe6, 0x7c, 0x00],
  #[0x18, 0x38, 0x18, 0x18, 0x18, 0x18, 0x7e, 0x00],
  #[0x7c, 0xc6, 0x06, 0x1c, 0x30, 0x66, 0xfe, 0x00],
  #[0x7c, 0xc6, 0x06, 0x3c, 0x06, 0xc6, 0x7c, 0x00],
  #[0x1c, 0x3c, 0x6c, 0xcc, 0xfe, 0x0c, 0x1e, 0x00],
  #[0xfe, 0xc0, 0xc0, 0xfc, 0x06, 0xc6, 0x7c, 0x00],
  #[0x38, 0x60, 0xc0, 0xfc, 0xc6, 0xc6, 0x7c, 0x00],
  #[0xfe, 0xc6, 0x0c, 0x18, 0x30, 0x30, 0x30, 0x00],
  #[0x7c, 0xc6, 0xc6, 0x7c, 0xc6, 0xc6, 0x7c, 0x00],
  #[0x7c, 0xc6, 0xc6, 0x7e, 0x06, 0x0c, 0x78, 0x00],
  #[0x00, 0x18, 0x18, 0x00, 0x18, 0x18, 0x00, 0x00],
  #[0x00, 0x18, 0x18, 0x00, 0x18, 0x18, 0x30, 0x00],
  #[0x06, 0x0c, 0x18, 0x30, 0x18, 0x0c, 0x06, 0x00],
  #[0x00, 0x00, 0x7e, 0x00, 0x7e, 0x00, 0x00, 0x00],
  #[0x60, 0x30, 0x18, 0x0c, 0x18, 0x30, 0x60, 0x00],
  #[0x7c, 0xc6, 0x0c, 0x18, 0x18, 0x00, 0x18, 0x00],
  #[0x7c, 0xc6, 0xc6, 0xde, 0xdc, 0xc0, 0x7c, 0x00],
  #[0x38, 0x6c, 0xc6, 0xc6, 0xfe, 0xc6, 0xc6, 0x00],
  #[0xfc, 0xc6, 0xc6, 0xfc, 0xc6, 0xc6, 0xfc, 0x00],
  #[0x7c, 0xc6, 0xc0, 0xc0, 0xc0, 0xc6, 0x7c, 0x00],
  #[0xf8, 0xcc, 0xc6, 0xc6, 0xc6, 0xcc, 0xf8, 0x00],
  #[0xfe, 0xc0, 0xc0, 0xf8, 0xc0, 0xc0, 0xfe, 0x00],
  #[0xfe, 0xc0, 0xc0, 0xf8, 0xc0, 0xc0, 0xc0, 0x00],
  #[0x7c, 0xc6, 0xc0, 0xde, 0xc6, 0xc6, 0x7e, 0x00],
  #[0xc6, 0xc6, 0xc6, 0xfe, 0xc6, 0xc6, 0xc6, 0x00],
  #[0x7e, 0x18, 0x18, 0x18, 0x18, 0x18, 0x7e, 0x00],
  #[0x1e, 0x0c, 0x0c, 0x0c, 0x0c, 0xcc, 0x78, 0x00],
  #[0xc6, 0xcc, 0xd8, 0xf0, 0xd8, 0xcc, 0xc6, 0x00],
  #[0xc0, 0xc0, 0xc0, 0xc0, 0xc0, 0xc0, 0xfe, 0x00],
  #[0xc6, 0xee, 0xfe, 0xfe, 0xd6, 0xc6, 0xc6, 0x00],
  #[0xc6, 0xe6, 0xf6, 0xde, 0xce, 0xc6, 0xc6, 0x00],
  #[0x7c, 0xc6, 0xc6, 0xc6, 0xc6, 0xc6, 0x7c, 0x00],
  #[0xfc, 0xc6, 0xc6, 0xfc, 0xc0, 0xc0, 0xc0, 0x00],
  #[0x7c, 0xc6, 0xc6, 0xc6, 0xd6, 0xcc, 0x76, 0x00],
  #[0xfc, 0xc6, 0xc6, 0xfc, 0xd8, 0xcc, 0xc6, 0x00],
  #[0x7c, 0xc6, 0xc0, 0x7c, 0x06, 0xc6, 0x7c, 0x00],
  #[0xff, 0xdb, 0x18, 0x18, 0x18, 0x18, 0x18, 0x00],
  #[0xc6, 0xc6, 0xc6, 0xc6, 0xc6, 0xc6, 0x7c, 0x00],
  #[0xc6, 0xc6, 0xc6, 0xc6, 0x6c, 0x38, 0x10, 0x00],
  #[0xc6, 0xc6, 0xc6, 0xd6, 0xd6, 0xd6, 0x6c, 0x00],
  #[0xc6, 0xc6, 0x6c, 0x38, 0x6c, 0xc6, 0xc6, 0x00],
  #[0xc6, 0xc6, 0xc6, 0x6c, 0x38, 0x10, 0x10, 0x00],
  #[0xfe, 0x06, 0x0c, 0x18, 0x30, 0x60, 0xfe, 0x00],
  #[0x3c, 0x30, 0x30, 0x30, 0x30, 0x30, 0x3c, 0x00],
  #[0xc0, 0x60, 0x30, 0x18, 0x0c, 0x06, 0x02, 0x00],
  #[0x3c, 0x0c, 0x0c, 0x0c, 0x0c, 0x0c, 0x3c, 0x00],
  #[0x10, 0x38, 0x6c, 0xc6, 0x00, 0x00, 0x00, 0x00],
  #[0x00, 0x00, 0x00, 0x00, 0x00, 0x00, 0x00, 0xff],
  #[0x30, 0x18, 0x0c, 0x00, 0x00, 0x00, 0x00, 0x00],
  #[0x00, 0x00, 0x7c, 0x06, 0x7e, 0xc6, 0x7e, 0x00],
  #[0xc0, 0xc0, 0xfc, 0xc6, 0xc6, 0xc6, 0xfc, 0x00],
  #[0x00, 0x00, 0x7c, 0xc6, 0xc0, 0xc6, 0x7c, 0x00],
  #[0x06, 0x06, 0x7e, 0xc6, 0xc6, 0xc6, 0x7e, 0x00],
  #[0x00, 0x00, 0x7c, 0xc6, 0xfe, 0xc0, 0x7c, 0x00],
  #[0x3c, 0x66, 0x60, 0xf8, 0x60, 0x60, 0x60, 0x00],
  #[0x00, 0x00, 0x7e, 0xc6, 0xc6, 0x7e, 0x06, 0x7c],
  #[0xc0, 0xc0, 0xfc, 0xc6, 0xc6, 0xc6, 0xc6, 0x00],
  #[0x18, 0x00, 0x38, 0x18, 0x18, 0x18, 0x3c, 0x00],
  #[0x06, 0x00, 0x0e, 0x06, 0x06, 0xc6, 0xc6, 0x7c],
  #[0xc0, 0xc0, 0xc6, 0xcc, 0xf8, 0xcc, 0xc6, 0x00],
  #[0x38, 0x18, 0x18, 0x18, 0x18, 0x18, 0x3c, 0x00],
  #[0x00, 0x00, 0xcc, 0xfe, 0xfe, 0xd6, 0xd6, 0x00],
  #[0x00, 0x00, 0xfc, 0xc6, 0xc6, 0xc6, 0xc6, 0x00],
  #[0x00, 0x00, 0x7c, 0xc6, 0xc6, 0xc6, 0x7c, 0x00],
  #[0x00, 0x00, 0xfc, 0xc6, 0xc6, 0xc6, 0xfc, 0xc0],
  #[0x00, 0x00, 0x7e, 0xc6, 0xc6, 0xc6, 0x7e, 0x06],
  #[0x00, 0x00, 0xfc, 0xc6, 0xc0, 0xc0, 0xc0, 0x00],
  #[0x00, 0x00, 0x7e, 0xc0, 0x7c, 0x06, 0xfc, 0x00],
  #[0x30, 0x30, 0xfc, 0x30, 0x30, 0x36, 0x1c, 0x00],
  #[0x00, 0x00, 0xc6, 0xc6, 0xc6, 0xc6, 0x7e, 0x00],
  #[0x00, 0x00, 0xc6, 0xc6, 0xc6, 0x6c, 0x38, 0x00],
  #[0x00, 0x00, 0xc6, 0xd6, 0xd6, 0xfe, 0x6c, 0x00],
  #[0x00, 0x00, 0xc6, 0x6c, 0x38, 0x6c, 0xc6, 0x00],
  #[0x00, 0x00, 0xc6, 0xc6, 0xc6, 0x7e, 0x06, 0x7c],
  #[0x00, 0x00, 0xfe, 0x0c, 0x38, 0x60, 0xfe, 0x00],
  #[0x0e, 0x18, 0x18, 0x70, 0x18, 0x18, 0x0e, 0x00],
  #[0x18, 0x18, 0x18, 0x18, 0x18, 0x18, 0x18, 0x00],
  #[0x70, 0x18, 0x18, 0x0e, 0x18, 0x18, 0x70, 0x00],
  #[0x76, 0xdc, 0x00, 0x00, 0x00, 0x00, 0x00, 0x00]
]

def fontGlyph (ch : UInt8) : Option (Array UInt8) :=
  if ch < 0x20 ∨ 0x7e < ch then none else fontGlyphs[(ch - 0x20).toNat]?

/-- The pixels of a glyph in the rows `rows`. -/
def fontDrawRows (fb : FbSize) (x y : UInt32) (glyph : Array UInt8) (rows : List Nat) (color : UInt32) : FbPaint :=
  .all <| rows.flatMap fun row => (List.range fontGlyphWidth.toNat).map fun col =>
    if glyph.getD row 0 &&& (1 <<< (fontGlyphWidth - 1 - UInt32.ofNat col).toUInt8) ≠ 0 then
      fbPutpixel fb (x + UInt32.ofNat col) (y + UInt32.ofNat row) color
    else .clear

def fontDrawChar (fb : FbSize) (x y : UInt32) (ch : UInt8) (color : UInt32) : FbPaint :=
  match fontGlyph ch with
  | none => .clear
  | some glyph => fontDrawRows fb x y glyph (List.range fontGlyphHeight.toNat) color

/-- `font_draw_text` from the character on that is drawn at `(cursorX, cursorY)`. -/
def fontDrawTextAt (fb : FbSize) (x color : UInt32) : (cursorX cursorY : UInt32) → List UInt8 → FbPaint
  | _, _, [] => .clear
  | cursorX, cursorY, ch :: text =>
    if ch = 10 then fontDrawTextAt fb x color x (cursorY + fontLineHeight) text
    else (fontDrawTextAt fb x color (cursorX + fontCharWidth) cursorY text).atop
      (fontDrawChar fb cursorX cursorY ch color)

def fontDrawText (fb : FbSize) (x y : UInt32) (text : List UInt8) (color : UInt32) : FbPaint :=
  fontDrawTextAt fb x color x y text

/-- The widest line; `run` is the width of the line so far. -/
def fontTextWidthFrom : (widest run : UInt32) → List UInt8 → UInt32
  | widest, run, [] => if widest < run then run else widest
  | widest, run, ch :: text =>
    if ch = 10 then fontTextWidthFrom (if widest < run then run else widest) 0 text
    else fontTextWidthFrom widest (run + fontCharWidth) text

def fontTextWidth (text : List UInt8) : UInt32 := fontTextWidthFrom 0 0 text

/-- `font_draw_text_clipped` from the character on that is drawn at `(cursorX, cursorY)`. -/
def fontDrawTextClippedAt (fb : FbSize) (x y maxH color : UInt32) :
    (cursorX cursorY : UInt32) → List UInt8 → FbPaint
  | _, _, [] => .clear
  | cursorX, cursorY, ch :: text =>
    if ch = 10 then
      if maxH ≤ cursorY + fontLineHeight - y then .clear
      else fontDrawTextClippedAt fb x y maxH color x (cursorY + fontLineHeight) text
    else
      let rows := (List.range fontGlyphHeight.toNat).takeWhile fun row => cursorY + UInt32.ofNat row - y < maxH
      let char := match fontGlyph ch with
        | none => .clear
        | some glyph => fontDrawRows fb cursorX cursorY glyph rows color
      (fontDrawTextClippedAt fb x y maxH color (cursorX + fontCharWidth) cursorY text).atop char

def fontDrawTextClipped (fb : FbSize) (x y maxH : UInt32) (text : List UInt8) (color : UInt32) : FbPaint :=
  if maxH = 0 then .clear else fontDrawTextClippedAt fb x y maxH color x y text

end Armonios
