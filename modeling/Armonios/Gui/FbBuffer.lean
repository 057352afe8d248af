import Armonios.Gui.Fb
import Armonios.Lib.Stores

/-!
# The words of the framebuffer

The drawing functions of `drivers/fb/fb.c` on the buffer itself: a pixel is the word at `y * stride + x`, with the
arithmetic of `uint32_t` where the source has it. The words are those behind `pixels`, which is not null.

* `storeRows_mem`, `fbPutpixelStores_mem`: the words that the loops write;
* `fbFillrect_stores`, `fbBlit_stores`, `fbDrawRect_stores`: which pixels these are;
* `Fb.shown_fillrect`, `Fb.shown_blit`, `Fb.shown_drawRect`: on the screen this is what the paints of the pixels say.
-/

namespace Armonios

/-- `fb_t`, with `pixels` for the address 0. -/
structure Fb extends FbSize where
  stridePixels : UInt32

abbrev FbStores := List (Nat × UInt32)

/-! ## The functions -/

def fbPutpixelStores (fb : Fb) (x y color : UInt32) : FbStores :=
  if fb.width ≤ x ∨ fb.height ≤ y then [] else [((y * fb.stridePixels + x).toNat, color)]

/-- The loop over `h` rows and `w` columns. The row pointers go on by their strides. -/
def storeRows (dstStride srcStride w : Nat) (src : Nat → UInt32) : (h dstRow srcRow : Nat) → FbStores
  | 0, _, _ => []
  | h + 1, dstRow, srcRow =>
    (List.range w).map (fun col => (dstRow + col, src (srcRow + col))) ++
      storeRows dstStride srcStride w src h (dstRow + dstStride) (srcRow + srcStride)

def fbFillrectStores (fb : Fb) (x y w h color : UInt32) : FbStores :=
  if w = 0 ∨ h = 0 ∨ fb.width ≤ x ∨ fb.height ≤ y then []
  else
    let w := if fb.width - x < w then fb.width - x else w
    let h := if fb.height - y < h then fb.height - y else h
    storeRows fb.stridePixels.toNat 0 w.toNat (fun _ => color) h.toNat (y * fb.stridePixels + x).toNat 0

def fbBlitStores (fb : Fb) (dstX dstY : UInt32) (src : Nat → UInt32) (w h : UInt32) : FbStores :=
  let srcStride := w.toNat
  if w = 0 ∨ h = 0 ∨ fb.width ≤ dstX ∨ fb.height ≤ dstY then []
  else
    let w := if fb.width - dstX < w then fb.width - dstX else w
    let h := if fb.height - dstY < h then fb.height - dstY else h
    storeRows fb.stridePixels.toNat srcStride w.toNat src h.toNat (dstY * fb.stridePixels + dstX).toNat 0

/-- The loops of `fb_draw_rect`: the first and the last row, then the first and the last column. -/
def outlineStores (fb : Fb) (x y w h color : UInt32) : FbStores :=
  ((List.range w.toNat).flatMap fun col =>
    fbPutpixelStores fb (x + UInt32.ofNat col) y color ++
      if 1 < h then fbPutpixelStores fb (x + UInt32.ofNat col) (y + h - 1) color else []) ++
  (List.range' 1 (h.toNat - 2)).flatMap fun row =>
    fbPutpixelStores fb x (y + UInt32.ofNat row) color ++
      if 1 < w then fbPutpixelStores fb (x + w - 1) (y + UInt32.ofNat row) color else []

def fbDrawRectStores (fb : Fb) (x y w h color : UInt32) : FbStores :=
  if w = 0 ∨ h = 0 ∨ fb.width ≤ x ∨ fb.height ≤ y then []
  else
    let x1 := x.toUInt64 + w.toUInt64
    let y1 := y.toUInt64 + h.toUInt64
    let x1 := if fb.width.toUInt64 < x1 then fb.width.toUInt64 else x1
    let y1 := if fb.height.toUInt64 < y1 then fb.height.toUInt64 else y1
    outlineStores fb x y (x1 - x.toUInt64).toUInt32 (y1 - y.toUInt64).toUInt32 color

/-! ## Pixels and words -/

/-- The buffer has the rows, and 32 bits suffice for its words. -/
structure Fb.Fits (fb : Fb) : Prop where
  width : fb.width ≤ fb.stridePixels
  words : fb.stridePixels.toNat * fb.height.toNat < 2 ^ 32

/-- The pixel at the word. -/
def Fb.pixelOf (fb : Fb) (i : Nat) : Pixel := (i % fb.stridePixels.toNat, i / fb.stridePixels.toNat)

/-- The word is one of a pixel, not one between two rows or behind the last one. -/
def Fb.HasPixel (fb : Fb) (i : Nat) : Prop := fb.Shows (fb.pixelOf i)

instance (fb : Fb) (i : Nat) : Decidable (fb.HasPixel i) := by unfold Fb.HasPixel FbSize.Shows; infer_instance

variable {fb : Fb} {x y w h color : UInt32} {c r i row : Nat} {p : Pixel}

theorem Fb.Fits.word_lt (hfits : fb.Fits) (hc : c < fb.width.toNat) (hr : r < fb.height.toNat) :
    r * fb.stridePixels.toNat + c < fb.stridePixels.toNat * fb.height.toNat := by
  have hwidth := UInt32.le_iff_toNat_le.mp hfits.width
  have hmul := Nat.mul_le_mul_right fb.stridePixels.toNat hr
  rw [Nat.succ_mul, Nat.mul_comm fb.height.toNat] at hmul
  omega

/-- The word of a pixel, as the driver computes it. -/
theorem Fb.Fits.word_toNat (hfits : fb.Fits) (hx : x < fb.width) (hy : y < fb.height) :
    (y * fb.stridePixels + x).toNat = y.toNat * fb.stridePixels.toNat + x.toNat := by
  have hlt := hfits.word_lt (UInt32.lt_iff_toNat_lt.mp hx) (UInt32.lt_iff_toNat_lt.mp hy)
  have hwords := hfits.words
  rw [UInt32.toNat_add, UInt32.toNat_mul]
  omega

/-- A word has one pixel. -/
theorem Fb.Fits.word_eq_iff (hfits : fb.Fits) (hc : c < fb.width.toNat) :
    i = r * fb.stridePixels.toNat + c ↔ fb.pixelOf i = (c, r) := by
  have hlt := Nat.lt_of_lt_of_le hc (UInt32.le_iff_toNat_le.mp hfits.width)
  constructor
  · rintro rfl
    rw [Fb.pixelOf, Nat.mul_comm, Nat.mul_add_mod, Nat.mod_eq_of_lt hlt, Nat.mul_add_div (Nat.zero_lt_of_lt hlt),
      Nat.div_eq_of_lt hlt, Nat.add_zero]
  · intro heq
    have hdiv := Nat.div_add_mod i fb.stridePixels.toNat
    rw [Fb.pixelOf, Prod.mk.injEq] at heq
    rw [← hdiv, heq.1, heq.2, Nat.mul_comm]

/-! ## The words that are written -/

theorem storeRows_mem {dstStride srcStride w h dstRow srcRow : Nat} {src : Nat → UInt32} {a : Nat × UInt32} :
    a ∈ storeRows dstStride srcStride w src h dstRow srcRow ↔
      ∃ row < h, ∃ col < w, a = (dstRow + row * dstStride + col, src (srcRow + row * srcStride + col)) := by
  induction h generalizing dstRow srcRow with
  | zero => simp [storeRows]
  | succ h ih =>
    have hnext : ∀ start stride row : Nat, start + stride + row * stride = start + (row + 1) * stride := by
      intro start stride row
      rw [Nat.succ_mul]
      omega
    rw [storeRows, List.mem_append, ih, List.mem_map]
    constructor
    · rintro (⟨col, hcol, rfl⟩ | ⟨row, hrow, col, hcol, rfl⟩)
      · exact ⟨0, Nat.succ_pos h, col, List.mem_range.mp hcol, by simp⟩
      · exact ⟨row + 1, Nat.succ_lt_succ hrow, col, hcol, by rw [hnext, hnext]⟩
    · rintro ⟨row, hrow, col, hcol, rfl⟩
      cases row with
      | zero => exact .inl ⟨col, List.mem_range.mpr hcol, by simp⟩
      | succ row => exact .inr ⟨row, Nat.lt_of_succ_lt_succ hrow, col, hcol, by rw [hnext, hnext]⟩

theorem fbPutpixelStores_mem (hfits : fb.Fits) {a : Nat × UInt32} :
    a ∈ fbPutpixelStores fb x y color ↔ x < fb.width ∧ y < fb.height ∧ fb.pixelOf a.1 = (x.toNat, y.toNat) ∧
      a.2 = color := by
  unfold fbPutpixelStores
  obtain ⟨i, v⟩ := a
  split
  · rename_i hout
    simp only [List.not_mem_nil, false_iff]
    rintro ⟨hx, hy, -⟩
    exact hout.elim (UInt32.not_le.mpr hx) (UInt32.not_le.mpr hy)
  · rename_i hin
    rw [not_or, UInt32.not_le, UInt32.not_le] at hin
    rw [List.mem_singleton, Prod.mk.injEq, hfits.word_toNat hin.1 hin.2,
      hfits.word_eq_iff (UInt32.lt_iff_toNat_lt.mp hin.1)]
    exact ⟨fun h => ⟨hin.1, hin.2, h⟩, fun h => h.2.2⟩

/-- The clipped width and height. -/
theorem clip_toNat {x w width : UInt32} (hx : x < width) :
    (if width - x < w then width - x else w).toNat = min w.toNat (width.toNat - x.toNat) := by
  have hsub := UInt32.toNat_sub_of_le width x (UInt32.le_of_lt hx)
  rw [apply_ite UInt32.toNat, hsub]
  simp only [UInt32.lt_iff_toNat_lt, hsub]
  split <;> omega

/-- The loop over the clipped rectangle goes to its pixels. -/
theorem storeRows_rect (hfits : fb.Fits) {srcStride : Nat} {src : Nat → UInt32} (hx : x < fb.width) (hy : y < fb.height)
    {a : Nat × UInt32} :
    a ∈ storeRows fb.stridePixels.toNat srcStride (if fb.width - x < w then fb.width - x else w).toNat src
        (if fb.height - y < h then fb.height - y else h).toNat (y * fb.stridePixels + x).toNat 0 ↔
      fb.HasPixel a.1 ∧ InRect x.toNat y.toNat w.toNat h.toNat (fb.pixelOf a.1) ∧
        a.2 = src (((fb.pixelOf a.1).2 - y.toNat) * srcStride + ((fb.pixelOf a.1).1 - x.toNat)) := by
  obtain ⟨i, v⟩ := a
  have hx' := UInt32.lt_iff_toNat_lt.mp hx
  have hy' := UInt32.lt_iff_toNat_lt.mp hy
  rw [storeRows_mem, clip_toNat hx, clip_toNat hy, hfits.word_toNat hx hy]
  simp only [Prod.mk.injEq, Fb.HasPixel, FbSize.Shows, InRect]
  constructor
  · rintro ⟨row, hrow, col, hcol, hword, rfl⟩
    have hpixel : fb.pixelOf i = (x.toNat + col, y.toNat + row) := by
      refine (hfits.word_eq_iff (by omega)).mp ?_
      rw [hword, Nat.add_mul]
      omega
    rw [hpixel]
    dsimp only
    refine ⟨by omega, by omega, ?_⟩
    rw [Nat.add_sub_cancel_left, Nat.add_sub_cancel_left, Nat.zero_add]
  · rintro ⟨⟨hwidth, height⟩, hrect, rfl⟩
    refine ⟨(fb.pixelOf i).2 - y.toNat, by omega, (fb.pixelOf i).1 - x.toNat, by omega, ?_, by rw [Nat.zero_add]⟩
    have hword : i = (fb.pixelOf i).2 * fb.stridePixels.toNat + (fb.pixelOf i).1 := (hfits.word_eq_iff hwidth).mpr rfl
    rw [Nat.sub_mul]
    have hle := Nat.mul_le_mul_right fb.stridePixels.toNat hrect.2.2.1
    omega

/-! ## The outline -/

/-- The pixel is on the border of the rectangle. -/
def OnOutline (x y w h : Nat) (p : Pixel) : Prop :=
  InRect x y w h p ∧ (p.1 = x ∨ p.1 + 1 = x + w ∨ p.2 = y ∨ p.2 + 1 = y + h)

instance (x y w h : Nat) (p : Pixel) : Decidable (OnOutline x y w h p) := by unfold OnOutline; infer_instance

theorem fbPutpixelStores_at (hfits : fb.Fits) (hc : c < fb.width.toNat) (hr : r < fb.height.toNat) (hx : x.toNat = c)
    (hy : y.toNat = r) {a : Nat × UInt32} :
    a ∈ fbPutpixelStores fb x y color ↔ fb.pixelOf a.1 = (c, r) ∧ a.2 = color := by
  rw [fbPutpixelStores_mem hfits, UInt32.lt_iff_toNat_lt, UInt32.lt_iff_toNat_lt, hx, hy]
  exact ⟨fun h => h.2.2, fun h => ⟨hc, hr, h⟩⟩

theorem add_ofNat_toNat {x width : UInt32} {n : Nat} (h : x.toNat + n < width.toNat) :
    (x + UInt32.ofNat n).toNat = x.toNat + n := by
  have hwidth := width.toNat_lt
  rw [UInt32.toNat_add, UInt32.toNat_ofNat']
  omega

theorem last_toNat {x w width : UInt32} (hw : 0 < w.toNat) (h : x.toNat + w.toNat ≤ width.toNat) :
    (x + w - 1).toNat = x.toNat + w.toNat - 1 := by
  have hwidth := width.toNat_lt
  have hsum : (x + w).toNat = x.toNat + w.toNat := by
    rw [UInt32.toNat_add]
    omega
  have hone : (1 : UInt32) ≤ x + w := by
    rw [UInt32.le_iff_toNat_le, hsum]
    show 1 ≤ _
    omega
  rw [UInt32.toNat_sub_of_le _ _ hone, hsum]
  rfl

theorem outlineStores_mem (hfits : fb.Fits) (hw : 0 < w.toNat) (hh : 0 < h.toNat)
    (hwidth : x.toNat + w.toNat ≤ fb.width.toNat) (height : y.toNat + h.toNat ≤ fb.height.toNat) {a : Nat × UInt32} :
    a ∈ outlineStores fb x y w h color ↔ OnOutline x.toNat y.toNat w.toNat h.toNat (fb.pixelOf a.1) ∧ a.2 = color := by
  have hlastX := last_toNat hw hwidth
  have hlastY := last_toNat hh height
  have hone : ∀ n : UInt32, 1 < n ↔ 1 < n.toNat := fun n => UInt32.lt_iff_toNat_lt
  have hput : ∀ {c r : Nat} {x y : UInt32}, c < fb.width.toNat → r < fb.height.toNat → x.toNat = c → y.toNat = r →
      (a ∈ fbPutpixelStores fb x y color ↔ fb.pixelOf a.1 = (c, r) ∧ a.2 = color) := fun hc hr hx hy =>
    fbPutpixelStores_at hfits hc hr hx hy
  have hcol : ∀ col < w.toNat, (x + UInt32.ofNat col).toNat = x.toNat + col := fun col hcol =>
    add_ofNat_toNat (show x.toNat + col < fb.width.toNat by omega)
  have hrow : ∀ row < h.toNat, (y + UInt32.ofNat row).toNat = y.toNat + row := fun row hrow =>
    add_ofNat_toNat (show y.toNat + row < fb.height.toNat by omega)
  unfold outlineStores
  simp only [List.mem_append, List.mem_flatMap, List.mem_range, List.mem_range'_1]
  generalize hp : fb.pixelOf a.1 = p at hput ⊢
  obtain ⟨c, r⟩ := p
  simp only [Prod.mk.injEq] at hput
  unfold OnOutline InRect
  constructor
  · rintro (⟨col, hlt, hfirst | hlast⟩ | ⟨row, hlt, hfirst | hlast⟩)
    · have := (hput (by omega) (by omega) (hcol col hlt) rfl).mp hfirst
      exact ⟨⟨by omega, by omega⟩, this.2⟩
    · split at hlast
      · have := (hput (by omega) (by omega) (hcol col hlt) hlastY).mp hlast
        exact ⟨⟨by omega, by omega⟩, this.2⟩
      · simp at hlast
    · have := (hput (by omega) (by omega) rfl (hrow row (by omega))).mp hfirst
      exact ⟨⟨by omega, by omega⟩, this.2⟩
    · split at hlast
      · have := (hput (by omega) (by omega) hlastX (hrow row (by omega))).mp hlast
        exact ⟨⟨by omega, by omega⟩, this.2⟩
      · simp at hlast
  · rintro ⟨⟨hrect, hborder⟩, hcolor⟩
    dsimp only at hrect hborder
    by_cases hfirst : r = y.toNat
    · exact .inl ⟨c - x.toNat, by omega, .inl ((hput (by omega) (by omega)
      (hcol _ (by omega)) rfl).mpr ⟨⟨by omega, by omega⟩, hcolor⟩)⟩
    by_cases hlast : r + 1 = y.toNat + h.toNat
    · refine .inl ⟨c - x.toNat, by omega, .inr ?_⟩
      rw [if_pos ((hone h).mpr (by omega))]
      exact (hput (by omega) (by omega) (hcol _ (by omega)) hlastY).mpr ⟨⟨by omega, by omega⟩, hcolor⟩
    · refine .inr ⟨r - y.toNat, by omega, ?_⟩
      by_cases hleft : c = x.toNat
      · exact .inl ((hput (by omega) (by omega) rfl (hrow _ (by omega))).mpr ⟨⟨by omega, by omega⟩, hcolor⟩)
      · right
        rw [if_pos ((hone w).mpr (by omega))]
        exact (hput (by omega) (by omega) hlastX (hrow _ (by omega))).mpr ⟨⟨by omega, by omega⟩, hcolor⟩

/-- The end of a side, which is clipped with 64 bits. -/
theorem clip64_toNat {x w width : UInt32} (hx : x < width) :
    ((if width.toUInt64 < x.toUInt64 + w.toUInt64 then width.toUInt64 else x.toUInt64 + w.toUInt64) -
      x.toUInt64).toUInt32.toNat = min w.toNat (width.toNat - x.toNat) := by
  have hx' := UInt32.lt_iff_toNat_lt.mp hx
  have hwidth := width.toNat_lt
  have hw := w.toNat_lt
  have hsum : (x.toUInt64 + w.toUInt64).toNat = x.toNat + w.toNat := by
    rw [UInt64.toNat_add, UInt32.toNat_toUInt64, UInt32.toNat_toUInt64]
    omega
  have hmin : (if width.toUInt64 < x.toUInt64 + w.toUInt64 then width.toUInt64 else x.toUInt64 + w.toUInt64).toNat =
      min (x.toNat + w.toNat) width.toNat := by
    rw [apply_ite UInt64.toNat, hsum, UInt32.toNat_toUInt64]
    simp only [UInt64.lt_iff_toNat_lt, hsum, UInt32.toNat_toUInt64]
    split <;> omega
  rw [UInt64.toNat_toUInt32, UInt64.toNat_sub_of_le, hmin, UInt32.toNat_toUInt64]
  · omega
  · rw [UInt64.le_iff_toNat_le, hmin, UInt32.toNat_toUInt64]
    omega

/-! ## The buffer afterwards -/

theorem Fb.Fits.hasPixel_lt (hfits : fb.Fits) (h : fb.HasPixel i) : i < fb.stridePixels.toNat * fb.height.toNat := by
  rw [(hfits.word_eq_iff h.1).mpr (rfl : fb.pixelOf i = _)]
  exact hfits.word_lt h.1 h.2

/-- A rectangle without pixels on the screen. -/
theorem rect_clipped (h0 : w = 0 ∨ h = 0 ∨ fb.width ≤ x ∨ fb.height ≤ y) :
    ¬ (fb.HasPixel i ∧ InRect x.toNat y.toNat w.toNat h.toNat (fb.pixelOf i)) := by
  rintro ⟨⟨hwidth, height⟩, hrect⟩
  unfold InRect at hrect
  simp only [← UInt32.toNat_inj, UInt32.le_iff_toNat_le, UInt32.toNat_zero] at h0
  omega

theorem fbFillrect_stores (hfits : fb.Fits) (x y w h color : UInt32) (m : Nat → UInt32) (i : Nat) :
    store (fbFillrectStores fb x y w h color) m i =
      if fb.HasPixel i ∧ InRect x.toNat y.toNat w.toNat h.toNat (fb.pixelOf i) then color else m i := by
  unfold fbFillrectStores
  split
  · rename_i h0
    rw [if_neg (rect_clipped h0)]
    rfl
  rename_i hin
  simp only [not_or, UInt32.not_le] at hin
  refine store_mem (fun _ => color) ?_ (fun a ha => ?_) m
  · simp only [storeRows_rect hfits hin.2.2.1 hin.2.2.2]
    exact ⟨fun ⟨_, hpixel, hrect, _⟩ => ⟨hpixel, hrect⟩, fun ⟨hpixel, hrect⟩ => ⟨color, hpixel, hrect, rfl⟩⟩
  · exact ((storeRows_rect hfits hin.2.2.1 hin.2.2.2).mp ha).2.2

theorem fbBlit_stores (hfits : fb.Fits) (dstX dstY w h : UInt32) (src m : Nat → UInt32) (i : Nat) :
    store (fbBlitStores fb dstX dstY src w h) m i =
      if fb.HasPixel i ∧ InRect dstX.toNat dstY.toNat w.toNat h.toNat (fb.pixelOf i) then
        src (((fb.pixelOf i).2 - dstY.toNat) * w.toNat + ((fb.pixelOf i).1 - dstX.toNat))
      else m i := by
  unfold fbBlitStores
  dsimp only
  split
  · rename_i h0
    rw [if_neg (rect_clipped h0)]
    rfl
  rename_i hin
  simp only [not_or, UInt32.not_le] at hin
  refine store_mem (fun i => src (((fb.pixelOf i).2 - dstY.toNat) * w.toNat + ((fb.pixelOf i).1 - dstX.toNat))) ?_
    (fun a ha => ?_) m
  · simp only [storeRows_rect hfits hin.2.2.1 hin.2.2.2]
    exact ⟨fun ⟨_, hpixel, hrect, _⟩ => ⟨hpixel, hrect⟩, fun ⟨hpixel, hrect⟩ => ⟨_, hpixel, hrect, rfl⟩⟩
  · exact ((storeRows_rect hfits hin.2.2.1 hin.2.2.2).mp ha).2.2

theorem fbDrawRect_stores (hfits : fb.Fits) (x y w h color : UInt32) (m : Nat → UInt32) (i : Nat) :
    store (fbDrawRectStores fb x y w h color) m i =
      if fb.HasPixel i ∧ OnOutline x.toNat y.toNat (min w.toNat (fb.width.toNat - x.toNat))
        (min h.toNat (fb.height.toNat - y.toNat)) (fb.pixelOf i) then color else m i := by
  unfold fbDrawRectStores
  split
  · rename_i h0
    rw [if_neg]
    · rfl
    · rintro ⟨hpixel, hrect, -⟩
      refine rect_clipped h0 ⟨hpixel, ?_⟩
      unfold InRect at hrect ⊢
      omega
  rename_i hin
  simp only [not_or, UInt32.not_le, ← UInt32.toNat_inj, UInt32.toNat_zero] at hin
  obtain ⟨hw, hh, hx, hy⟩ := hin
  have hx' := UInt32.lt_iff_toNat_lt.mp hx
  have hy' := UInt32.lt_iff_toNat_lt.mp hy
  have hclipX := clip64_toNat hx (w := w)
  have hclipY := clip64_toNat hy (w := h)
  dsimp only
  generalize ((if fb.width.toUInt64 < x.toUInt64 + w.toUInt64 then fb.width.toUInt64 else x.toUInt64 + w.toUInt64) -
    x.toUInt64).toUInt32 = w' at hclipX ⊢
  generalize ((if fb.height.toUInt64 < y.toUInt64 + h.toUInt64 then fb.height.toUInt64 else y.toUInt64 + h.toUInt64) -
    y.toUInt64).toUInt32 = h' at hclipY ⊢
  rw [← hclipX, ← hclipY]
  have hmem : ∀ a, a ∈ outlineStores fb x y w' h' color ↔
      OnOutline x.toNat y.toNat w'.toNat h'.toNat (fb.pixelOf a.1) ∧ a.2 = color := fun a =>
    outlineStores_mem hfits (by omega) (by omega) (by omega) (by omega)
  refine store_mem (fun _ => color) ?_ (fun a ha => ((hmem a).mp ha).2) m
  simp only [hmem]
  constructor
  · rintro ⟨_, hborder, -⟩
    refine ⟨?_, hborder⟩
    have hrect := hborder.1
    unfold InRect at hrect
    unfold Fb.HasPixel FbSize.Shows
    omega
  · exact fun h => ⟨color, h.2, rfl⟩

/-- The drawing functions write the pixels of their shape that the framebuffer has, and no other word. -/
structure DrawsClipped (fb : Fb) (x y w h color : UInt32) (src m : Nat → UInt32) : Prop where
  fill : ∀ i, store (fbFillrectStores fb x y w h color) m i =
    if fb.HasPixel i ∧ InRect x.toNat y.toNat w.toNat h.toNat (fb.pixelOf i) then color else m i
  blit : ∀ i, store (fbBlitStores fb x y src w h) m i =
    if fb.HasPixel i ∧ InRect x.toNat y.toNat w.toNat h.toNat (fb.pixelOf i) then
      src (((fb.pixelOf i).2 - y.toNat) * w.toNat + ((fb.pixelOf i).1 - x.toNat))
    else m i
  rect : ∀ i, store (fbDrawRectStores fb x y w h color) m i =
    if fb.HasPixel i ∧ OnOutline x.toNat y.toNat (min w.toNat (fb.width.toNat - x.toNat))
      (min h.toNat (fb.height.toNat - y.toNat)) (fb.pixelOf i) then color else m i
  inside : ∀ i, fb.HasPixel i → i < fb.stridePixels.toNat * fb.height.toNat

theorem fb_draws_clipped (hfits : fb.Fits) (x y w h color : UInt32) (src m : Nat → UInt32) :
    DrawsClipped fb x y w h color src m :=
  ⟨fbFillrect_stores hfits x y w h color m, fbBlit_stores hfits x y w h src m, fbDrawRect_stores hfits x y w h color m,
    fun _ => hfits.hasPixel_lt⟩

/-- A rectangle as large as can be, from the last pixel of the first row on. -/
theorem fb_draws_clipped_sample : DrawsClipped ⟨⟨4, 3⟩, 5⟩ 3 0 0xFFFFFFFF 0xFFFFFFFF 7
    (fun i => UInt32.ofNat i) fun _ => 0 :=
  fb_draws_clipped ⟨by decide, by decide⟩ 3 0 0xFFFFFFFF 0xFFFFFFFF 7 _ _

/-! ## The picture on the screen -/

/-- The word of each pixel. -/
def Fb.shown (fb : Fb) (m : Nat → UInt32) : Pixel → UInt32 := fun p => m (p.2 * fb.stridePixels.toNat + p.1)

theorem Fb.Fits.word_hasPixel (hfits : fb.Fits) (hp : fb.Shows p) :
    fb.pixelOf (p.2 * fb.stridePixels.toNat + p.1) = p ∧ fb.HasPixel (p.2 * fb.stridePixels.toNat + p.1) := by
  have hpixel := (hfits.word_eq_iff hp.1).mp (rfl : p.2 * fb.stridePixels.toNat + p.1 = _)
  refine ⟨hpixel, ?_⟩
  unfold Fb.HasPixel
  rw [hpixel]
  exact hp

theorem Fb.shown_fillrect (hfits : fb.Fits) (x y w h color : UInt32) (m : Nat → UInt32) (hp : fb.Shows p) :
    fb.shown (store (fbFillrectStores fb x y w h color) m) p =
      (fbFillrect fb.toFbSize x y w h color).on (fb.shown m) p := by
  obtain ⟨hpixel, hhas⟩ := hfits.word_hasPixel hp
  rw [Paint.on, fbFillrect_apply, Fb.shown, fbFillrect_stores hfits, hpixel]
  simp only [eq_true hhas, eq_true hp.1, eq_true hp.2, true_and]
  split <;> rfl

theorem Fb.shown_blit (hfits : fb.Fits) (dstX dstY w h : UInt32) (src m : Nat → UInt32) (hp : fb.Shows p) :
    fb.shown (store (fbBlitStores fb dstX dstY src w h) m) p =
      (fbBlit fb.toFbSize dstX dstY src w h).on (fb.shown m) p := by
  obtain ⟨hpixel, hhas⟩ := hfits.word_hasPixel hp
  rw [Paint.on, fbBlit_apply, Fb.shown, fbBlit_stores hfits, hpixel]
  simp only [eq_true hhas, eq_true hp.1, eq_true hp.2, true_and]
  split <;> rfl

theorem Fb.shown_drawRect (hfits : fb.Fits) (x y w h color : UInt32) (m : Nat → UInt32) (hp : fb.Shows p) :
    fb.shown (store (fbDrawRectStores fb x y w h color) m) p =
      (fbDrawRect fb.toFbSize x y w h color).on (fb.shown m) p := by
  obtain ⟨hpixel, hhas⟩ := hfits.word_hasPixel hp
  rw [Paint.on, Fb.shown, fbDrawRect_stores hfits, hpixel]
  unfold fbDrawRect
  simp only [eq_true hhas, true_and]
  by_cases hin : w = 0 ∨ h = 0 ∨ fb.width ≤ x ∨ fb.height ≤ y
  · rw [if_pos hin, if_neg]
    · rfl
    · rintro ⟨hrect, -⟩
      unfold InRect at hrect
      simp only [← UInt32.toNat_inj, UInt32.le_iff_toNat_le, UInt32.toNat_zero] at hin
      omega
  rw [if_neg hin]
  simp only [not_or, UInt32.not_le, UInt32.lt_iff_toNat_lt, ← UInt32.toNat_inj, UInt32.toNat_zero] at hin
  have hiff : OnOutline x.toNat y.toNat (min w.toNat (fb.width.toNat - x.toNat))
    (min h.toNat (fb.height.toNat - y.toNat)) p ↔
      InRect x.toNat y.toNat (min (x.toNat + w.toNat) fb.width.toNat - x.toNat) 1 p ∨
        (1 < min (y.toNat + h.toNat) fb.height.toNat - y.toNat ∧
          InRect x.toNat (y.toNat + (min (y.toNat + h.toNat) fb.height.toNat - y.toNat) - 1)
            (min (x.toNat + w.toNat) fb.width.toNat - x.toNat) 1 p) ∨
        InRect x.toNat (y.toNat + 1) 1 (min (y.toNat + h.toNat) fb.height.toNat - y.toNat - 2) p ∨
        (1 < min (x.toNat + w.toNat) fb.width.toNat - x.toNat ∧
          InRect (x.toNat + (min (x.toNat + w.toNat) fb.width.toNat - x.toNat) - 1) (y.toNat + 1) 1
            (min (y.toNat + h.toNat) fb.height.toNat - y.toNat - 2) p) := by
    unfold OnOutline InRect
    omega
  simp only [hiff]
  split <;> rfl

end Armonios
