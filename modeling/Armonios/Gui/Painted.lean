import Armonios.Gui.Compositor
import Armonios.Gui.Ink
import Armonios.Gui.Line

/-!
# The pixels of a window

Where `gui_draw_window` writes, as rectangles, the ink of the title and the points of two lines: `Window.Inked`. The
lines in the close box are the only part whose arithmetic can overflow (`BoxFits`).

* `guiDrawWindow_inked`: the pixels that a window is painted on;
* `guiDrawCursor_inked`: those of the cursor.
-/

namespace Armonios

/-! ## The places -/

/-- `w` columns and `h` rows from `(x, y)` on. -/
def RectHas (x y w h : UInt32) (p : Pixel) : Prop := InRect x.toNat y.toNat w.toNat h.toNat p

instance (x y w h : UInt32) (p : Pixel) : Decidable (RectHas x y w h p) := by unfold RectHas; infer_instance

/-- The edge of the part of the rectangle that is on the screen. -/
def EdgeHas (fb : FbSize) (x y w h : UInt32) (p : Pixel) : Prop :=
  let columns := min (x.toNat + w.toNat) fb.width.toNat - x.toNat
  let rows := min (y.toNat + h.toNat) fb.height.toNat - y.toNat
  w ≠ 0 ∧ h ≠ 0 ∧
    (InRect x.toNat y.toNat columns 1 p ∨ (1 < rows ∧ InRect x.toNat (y.toNat + rows - 1) columns 1 p) ∨
      InRect x.toNat (y.toNat + 1) 1 (rows - 2) p ∨
      (1 < columns ∧ InRect (x.toNat + columns - 1) (y.toNat + 1) 1 (rows - 2) p))

/-- The line of a close box from its left upper corner. -/
def GuiRect.downLine (r : GuiRect) : List (Int × Int) :=
  linePoints (s32 (r.x + 2)) (s32 (r.y + 2)) (s32 (r.x + r.w - 3)) (s32 (r.y + r.h - 3))

/-- The line of a close box from its right upper corner. -/
def GuiRect.upLine (r : GuiRect) : List (Int × Int) :=
  linePoints (s32 (r.x + r.w - 3)) (s32 (r.y + 2)) (s32 (r.x + 2)) (s32 (r.y + r.h - 3))

/-- The lines of a close box are computed without overflow. -/
def BoxFits (r : GuiRect) : Prop :=
  LineFits (s32 (r.x + 2)) (s32 (r.y + 2)) (s32 (r.x + r.w - 3)) (s32 (r.y + r.h - 3)) ∧
    LineFits (s32 (r.x + r.w - 3)) (s32 (r.y + 2)) (s32 (r.x + 2)) (s32 (r.y + r.h - 3))

instance (r : GuiRect) : Decidable (BoxFits r) := by unfold BoxFits; infer_instance

/-- The row of the window in which its title starts. -/
def titleY (window : Window) : UInt32 :=
  window.y + if fontGlyphHeight < window.titleH then (window.titleH - fontGlyphHeight) / 2 else 0

def ContentInked (window : Window) (p : Pixel) : Prop :=
  if window.ownerDrawn = true ∧ window.backing.isSome = true then
    RectHas window.x (window.y + window.titleH) window.w (guiContentH window) p
  else window.Covers p ∨ (2 < window.w ∧ 2 < window.h) ∧
    RectHas (window.x + 1) (window.y + 1) (window.w - 2) (window.h - 2) p

def FrameInked (window : Window) (p : Pixel) : Prop :=
  (2 < window.h ∧ 1 < window.w) ∧ RectHas (window.x + window.w - 1) (window.y + 1) 1 (window.h - 2) p ∨
    2 < window.h ∧ RectHas window.x (window.y + 1) 1 (window.h - 2) p ∨
    1 < window.h ∧ RectHas window.x (window.y + window.h - 1) window.w 1 p ∨ RectHas window.x window.y window.w 1 p

def BarInked (window : Window) (p : Pixel) : Prop :=
  (∃ q, TextInk window.title q ∧ q.2 < window.titleH.toNat ∧ p = pixelFrom (window.x + 2) (titleY window) q) ∨
    window.titleH + 1 < window.h ∧ RectHas window.x (window.y + window.titleH) window.w 1 p ∨
    RectHas window.x window.y window.w window.titleH p

def ButtonsInked (fb : FbSize) (window : Window) (p : Pixel) : Prop :=
  (∃ r ∈ guiCloseBoxRect window, ((p.1 : Int), (p.2 : Int)) ∈ r.upLine ∨ ((p.1 : Int), (p.2 : Int)) ∈ r.downLine ∨
      RectHas r.x r.y r.w r.h p) ∨
    (∃ r ∈ guiMaximizeButtonRect window, EdgeHas fb (r.x + 2) (r.y + 2) (r.w - 4) (r.h - 4) p ∨
      RectHas r.x r.y r.w r.h p) ∨
    ∃ r ∈ guiMinimizeButtonRect window, RectHas (r.x + 2) (r.y + r.h - 3) (r.w - 4) 1 p ∨ RectHas r.x r.y r.w r.h p

/-- The window is painted on the pixel, if that is on the screen. -/
def Window.Inked (fb : FbSize) (window : Window) (p : Pixel) : Prop :=
  window.Visible ∧ (((0 < window.titleH ∧ window.title ≠ []) ∧ (ButtonsInked fb window p ∨ BarInked window p)) ∨
    FrameInked window p ∨ ContentInked window p)

/-- The cursor is painted on the pixel, if that is on the screen. -/
def Cursor.Inked (cursor : Cursor) (p : Pixel) : Prop :=
  cursor.visible = true ∧ ∃ row < guiCursorH.toNat, ∃ col < guiCursorW.toNat,
    ((if cursor.shape = guiCursorHand then cursorHandBitmap else cursorArrowBitmap).getD row #[]).getD col 0 ≠ 0 ∧
      p = ((u32 (i32 (cursor.x + col))).toNat, (u32 (i32 (cursor.y + row))).toNat)

/-! ## What is drawn there -/

section Inked

variable {fb : FbSize} {window : Window} {p : Pixel} {x y w h color : UInt32} {paint : FbPaint}

theorem fbFillrect_inked : fbFillrect fb x y w h color p ≠ none ↔ fb.Shows p ∧ RectHas x y w h p := by
  rw [fbFillrect_apply]
  unfold FbSize.Shows RectHas
  split <;> simp_all

theorem fbBlit_inked {src : Nat → UInt32} : fbBlit fb x y src w h p ≠ none ↔ fb.Shows p ∧ RectHas x y w h p := by
  rw [fbBlit_apply]
  unfold FbSize.Shows RectHas
  split <;> simp_all

theorem fbDrawRect_inked : fbDrawRect fb x y w h color p ≠ none ↔ fb.Shows p ∧ EdgeHas fb x y w h p := by
  unfold fbDrawRect EdgeHas
  split
  · rename_i hempty
    refine ⟨fun hp => absurd rfl hp, ?_⟩
    rintro ⟨hp, hw, hh, hrect⟩
    have hwidth := hp.1
    have height := hp.2
    simp only [InRect, UInt32.le_iff_toNat_le, hw, hh, false_or] at hempty hrect
    omega
  · rename_i hinside
    simp only [not_or, UInt32.not_le, UInt32.lt_iff_toNat_lt] at hinside
    obtain ⟨hw, hh, hx, hy⟩ := hinside
    dsimp only
    split
    · rename_i hrect
      simp only [ne_eq, reduceCtorEq, not_false_eq_true, true_iff]
      refine ⟨?_, hw, hh, hrect⟩
      simp only [InRect] at hrect
      exact ⟨by omega, by omega⟩
    · rename_i hout
      exact ⟨fun hp => absurd rfl hp, fun hp => absurd hp.2.2.2 hout⟩

theorem atop_inked {top bottom : FbPaint} {A B : Prop} (htop : top p ≠ none ↔ fb.Shows p ∧ A)
    (hbottom : bottom p ≠ none ↔ fb.Shows p ∧ B) : top.atop bottom p ≠ none ↔ fb.Shows p ∧ (A ∨ B) := by
  rw [ne_eq, Paint.atop_none, not_and_or, ← ne_eq, ← ne_eq, htop, hbottom, and_or_left]

theorem ite_inked {c : Prop} [Decidable c] {A : Prop} (h : paint p ≠ none ↔ fb.Shows p ∧ A) :
    (if c then paint else .clear) p ≠ none ↔ fb.Shows p ∧ c ∧ A := by
  split
  · rename_i hc
    rw [h]
    simp [hc]
  · rename_i hc
    simp [hc]

/-- A line that fits is drawn to its end, on its points. -/
theorem fbDrawLine_inked (fb : FbSize) (color : UInt32) {x0 y0 x1 y1 : UInt32}
    (hfits : LineFits (s32 x0) (s32 y0) (s32 x1) (s32 y1)) :
    ∃ paint, Ends (fbDrawLine · fb (s32 x0) (s32 y0) (s32 x1) (s32 y1) color) paint ∧ ∀ p, paint p ≠ none ↔
      fb.Shows p ∧ ((p.1 : Int), (p.2 : Int)) ∈ linePoints (s32 x0) (s32 y0) (s32 x1) (s32 y1) := by
  have hdraws := fun fuel hfuel =>
    (fbDrawLine_draws fb color (s32_fits x0) (s32_fits y0) (s32_fits x1) (s32_fits y1) hfits fuel hfuel).pixels
  obtain ⟨paint, hpaint, hpixels⟩ := hdraws _ le_rfl
  refine ⟨paint, ⟨(linePoints (s32 x0) (s32 y0) (s32 x1) (s32 y1)).length, fun fuel hfuel => ?_⟩, fun p => ?_⟩
  · obtain ⟨paint', hpaint', hpixels'⟩ := hdraws fuel hfuel.le
    refine hpaint'.trans (congrArg some ?_)
    funext p
    rw [hpixels, hpixels']
  · rw [hpixels]
    split <;> simp_all

theorem guiDrawButtons_inked (fb : FbSize) (focused : Bool) (hbox : ∀ r ∈ guiCloseBoxRect window, BoxFits r) :
    ∃ paint, Ends (guiDrawButtons · fb focused window) paint ∧ ∀ p, paint p ≠ none ↔
      fb.Shows p ∧ ButtonsInked fb window p := by
  have hmaximize : ∀ p, (guiMaximizeButtonRect window).elim (.clear : FbPaint)
        (fun r => (fbDrawRect fb (r.x + 2) (r.y + 2) (r.w - 4) (r.h - 4) 0xfff0f4f8).atop
          (fbFillrect fb r.x r.y r.w r.h (if focused then 0xffa0a8b8 else 0xff586070))) p ≠ none ↔
      fb.Shows p ∧ ∃ r ∈ guiMaximizeButtonRect window,
        EdgeHas fb (r.x + 2) (r.y + 2) (r.w - 4) (r.h - 4) p ∨ RectHas r.x r.y r.w r.h p := by
    intro p
    cases guiMaximizeButtonRect window with
    | none => simp
    | some r => simpa using atop_inked fbDrawRect_inked fbFillrect_inked
  have hminimize : ∀ p, (guiMinimizeButtonRect window).elim (.clear : FbPaint)
        (fun r => (fbFillrect fb (r.x + 2) (r.y + r.h - 3) (r.w - 4) 1 0xfff0f4f8).atop
          (fbFillrect fb r.x r.y r.w r.h (if focused then 0xffa0a8b8 else 0xff586070))) p ≠ none ↔
      fb.Shows p ∧ ∃ r ∈ guiMinimizeButtonRect window,
        RectHas (r.x + 2) (r.y + r.h - 3) (r.w - 4) 1 p ∨ RectHas r.x r.y r.w r.h p := by
    intro p
    cases guiMinimizeButtonRect window with
    | none => simp
    | some r => simpa using atop_inked fbFillrect_inked fbFillrect_inked
  -- the other two buttons are drawn whether there is a close box or not
  obtain ⟨rest, hrest, hdraw⟩ : ∃ rest : FbPaint, (∀ p, rest p ≠ none ↔ fb.Shows p ∧
        ((∃ r ∈ guiMaximizeButtonRect window,
          EdgeHas fb (r.x + 2) (r.y + 2) (r.w - 4) (r.h - 4) p ∨ RectHas r.x r.y r.w r.h p) ∨
        ∃ r ∈ guiMinimizeButtonRect window,
          RectHas (r.x + 2) (r.y + r.h - 3) (r.w - 4) 1 p ∨ RectHas r.x r.y r.w r.h p)) ∧
      ∀ fuel, guiDrawButtons fuel fb focused window = (guiCloseBoxRect window).elim (some rest) fun r => do
        let down ← fbDrawLine fuel fb (s32 (r.x + 2)) (s32 (r.y + 2)) (s32 (r.x + r.w - 3)) (s32 (r.y + r.h - 3))
          0xfff8f8f8
        let up ← fbDrawLine fuel fb (s32 (r.x + r.w - 3)) (s32 (r.y + 2)) (s32 (r.x + 2)) (s32 (r.y + r.h - 3))
          0xfff8f8f8
        return up.atop (down.atop
          ((fbFillrect fb r.x r.y r.w r.h (if focused then 0xffe04a4a else 0xff8a3030)).atop rest)) := by
    refine ⟨_, fun p => atop_inked (hmaximize p) (hminimize p), fun fuel => ?_⟩
    unfold guiDrawButtons
    cases guiMaximizeButtonRect window <;> cases guiMinimizeButtonRect window <;> cases guiCloseBoxRect window <;> rfl
  simp only [hdraw]
  unfold ButtonsInked
  cases hclose : guiCloseBoxRect window with
  | none =>
    refine ⟨rest, .pure rest, fun p => (hrest p).trans ?_⟩
    simp only [Option.mem_def, reduceCtorEq, false_and, exists_false, false_or]
  | some r =>
    obtain ⟨hdown, hup⟩ := hbox r hclose
    obtain ⟨down, hends, hdown⟩ := fbDrawLine_inked fb 0xfff8f8f8 hdown
    obtain ⟨up, hends', hup⟩ := fbDrawLine_inked fb 0xfff8f8f8 hup
    refine ⟨_, hends.bind (hends'.bind (.pure _)), fun p => ?_⟩
    refine (atop_inked (hup p) (atop_inked (hdown p) (atop_inked fbFillrect_inked (hrest p)))).trans ?_
    simp only [Option.mem_def, Option.some.injEq, exists_eq_left', or_assoc]
    rfl

theorem guiDrawFrame_inked (fb : FbSize) (window : Window) (p : Pixel) (border : UInt32) :
    guiDrawFrame fb border window p ≠ none ↔ fb.Shows p ∧ FrameInked window p :=
  atop_inked (ite_inked fbFillrect_inked) (atop_inked (ite_inked fbFillrect_inked)
    (atop_inked (ite_inked fbFillrect_inked) fbFillrect_inked))

theorem guiDrawContents_inked (fb : FbSize) (window : Window) (p : Pixel) (border : UInt32) :
    guiDrawContents fb border window p ≠ none ↔ fb.Shows p ∧ ContentInked window p := by
  have hfill : ∀ inner : FbPaint, (inner p ≠ none ↔ fb.Shows p ∧ (2 < window.w ∧ 2 < window.h) ∧
      RectHas (window.x + 1) (window.y + 1) (window.w - 2) (window.h - 2) p) →
      (inner.atop (fbFillrect fb window.x window.y window.w window.h border) p ≠ none ↔
        fb.Shows p ∧ (window.Covers p ∨ (2 < window.w ∧ 2 < window.h) ∧
          RectHas (window.x + 1) (window.y + 1) (window.w - 2) (window.h - 2) p)) := fun inner hinner => by
    rw [atop_inked hinner fbFillrect_inked, or_comm]
    rfl
  unfold guiDrawContents ContentInked
  cases window.ownerDrawn with
  | false => simpa using hfill _ (ite_inked fbFillrect_inked)
  | true =>
    cases window.backing with
    | none => simpa using hfill _ (ite_inked fbFillrect_inked)
    | some pixels => simpa using fbBlit_inked

theorem guiDrawBar_inked (border : UInt32) (hlength : window.title.length < guiTitleLen) :
    guiDrawBar fb border window p ≠ none ↔ fb.Shows p ∧ BarInked window p := by
  have htext : 10 * window.title.length + 8 < 2 ^ 32 := by
    rw [guiTitleLen] at hlength
    omega
  exact atop_inked (fontDrawTextClipped_ink htext) (atop_inked (ite_inked fbFillrect_inked) fbFillrect_inked)

/-- A window whose close box fits is drawn to the end; its title is of the length that the field can hold. -/
theorem guiDrawWindow_inked (fb : FbSize) (focused : Bool)
    (hbox : window.title ≠ [] → ∀ r ∈ guiCloseBoxRect window, BoxFits r) : ∃ paint,
    Ends (guiDrawWindow · fb focused window) paint ∧
      (window.title.length < guiTitleLen → ∀ p, paint p ≠ none ↔ fb.Shows p ∧ window.Inked fb p) := by
  unfold guiDrawWindow Window.Inked
  by_cases hvisible : window.Visible
  · have hshown : ¬ (window.used = false ∨ window.minimized = true) := by simp [hvisible.1, hvisible.2]
    simp only [hshown, hvisible, if_false, true_and]
    obtain ⟨border, hborder⟩ : ∃ border, border =
        if focused = true ∧ window.flags &&& guiWindowNoFocus = 0 then 0xffe0e8f0 else window.borderColor := ⟨_, rfl⟩
    rw [← hborder]
    have hbody := fun p => atop_inked (guiDrawFrame_inked fb window p border) (guiDrawContents_inked fb window p border)
    by_cases htitle : 0 < window.titleH ∧ window.title ≠ []
    · simp only [htitle, if_true, ne_eq, not_false_eq_true, and_self, true_and]
      obtain ⟨buttons, hends, hbuttons⟩ := guiDrawButtons_inked fb focused (hbox htitle.2)
      refine ⟨_, hends.map _, fun hlength p => ?_⟩
      have hall := atop_inked (hbuttons p) (atop_inked (guiDrawBar_inked border hlength) (hbody p))
      rwa [← or_assoc] at hall
    · simp only [htitle, if_false, false_and, false_or]
      exact ⟨_, .pure _, fun _ => hbody⟩
  · have hhidden : window.used = false ∨ window.minimized = true := by
      unfold Window.Visible at hvisible
      simpa [imp_iff_not_or] using hvisible
    simp only [hhidden, hvisible, if_true, false_and, and_false, iff_false, not_not]
    exact ⟨_, .pure _, fun _ p => rfl⟩

end Inked

end Armonios
