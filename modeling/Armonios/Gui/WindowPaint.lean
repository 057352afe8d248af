import Armonios.Gui.Redraw
import Armonios.Gui.WindowWp

/-!
# What a window paints

`gui_draw_window` places the frame, the title bar, its text and its buttons by sums of 32 bits, and only the
height of the text is cut. A window that is partly off the screen comes back on the other side where such a sum
wraps, and a title that is longer than the bar is drawn over what is right of the window
(`long_title_outside`); otherwise a window paints only itself (`guiDrawWindow_inside`).
-/

namespace Armonios

/-! ## Drawings and the pixels they keep to -/

section Shapes

variable {fb : FbSize} {R : Pixel → Prop}

theorem fbFillrect_within {x y w h color : UInt32}
    (hR : ∀ p, fb.Shows p → InRect x.toNat y.toNat w.toNat h.toNat p → R p) :
      (fbFillrect fb x y w h color).Within R := by
  intro p hp
  rw [fbFillrect_apply] at hp
  split at hp
  · rename_i h
    exact hR p ⟨h.1, h.2.1⟩ h.2.2
  · exact absurd rfl hp

theorem fbBlit_within {x y w h : UInt32} {src : Nat → UInt32}
    (hR : ∀ p, fb.Shows p → InRect x.toNat y.toNat w.toNat h.toNat p → R p) : (fbBlit fb x y src w h).Within R := by
  intro p hp
  rw [fbBlit_apply] at hp
  split at hp
  · rename_i h
    exact hR p ⟨h.1, h.2.1⟩ h.2.2
  · exact absurd rfl hp

theorem fbDrawRect_within {x y w h color : UInt32}
    (hR : ∀ p, fb.Shows p → InRect x.toNat y.toNat w.toNat h.toNat p → R p) :
      (fbDrawRect fb x y w h color).Within R := by
  intro p hp
  unfold fbDrawRect at hp
  split at hp
  · exact absurd rfl hp
  rename_i hinside
  simp only [not_or, UInt32.not_le, UInt32.lt_iff_toNat_lt, ← UInt32.toNat_inj, UInt32.toNat_zero] at hinside
  dsimp only at hp
  split at hp
  · rename_i h
    simp only [InRect] at h
    refine hR p ⟨?_, ?_⟩ ⟨?_, ?_, ?_, ?_⟩ <;> omega
  · exact absurd rfl hp

end Shapes

/-! ## Windows -/

/-- The windows that `sys_window_create` and the title operations accept, drawn in or not. -/
inductive Accepted (fb : FbSize) : Window → Prop
  | create (ownerPid x y w h bgColor borderColor z : UInt32) (title : List UInt8) (size : 8 ≤ w ∧ 8 ≤ h)
      (place : x < fb.width ∧ y < fb.height) :
      Accepted fb (guiNewWindow ownerPid x y w h bgColor borderColor z (some title))
  | title (window : Window) (title : List UInt8) (before : Accepted fb window) : Accepted fb (titledWindow title window)
  | titleBar (window : Window) (titleH : UInt32) (before : Accepted fb window) (bar : titleH < window.h) :
      Accepted fb { window with titleH }
  | drawn (window : Window) (pixels : Nat → UInt32) (before : Accepted fb window) :
      Accepted fb { window with ownerDrawn := true, backing := some pixels }

/-- What all of them keep to. -/
structure Window.Placed (fb : FbSize) (window : Window) : Prop where
  visible : window.Visible
  width : 8 ≤ window.w.toNat
  height : 8 ≤ window.h.toNat
  left : window.x.toNat < fb.width.toNat
  top : window.y.toNat < fb.height.toNat
  bar : window.titleH.toNat < window.h.toNat
  title : window.title.length < guiTitleLen

/-- Nothing of the lines in the close box is computed beyond `int32_t`, where the drawing would be undefined. -/
def LinesDefined (fb : FbSize) (window : Window) : Prop :=
  window.title ≠ [] → ∀ r ∈ guiCloseBoxRect window,
    LineDefined fb (s32 (r.x + 2)) (s32 (r.y + 2)) (s32 (r.x + r.w - 3)) (s32 (r.y + r.h - 3)) 0xfff8f8f8 ∧
      LineDefined fb (s32 (r.x + r.w - 3)) (s32 (r.y + 2)) (s32 (r.x + 2)) (s32 (r.y + r.h - 3)) 0xfff8f8f8

/-- The window is drawn to the end without overflow, and no pixel outside of it is written. -/
def DrawsInside (fb : FbSize) (focused : Bool) (window : Window) : Prop :=
  LinesDefined fb window ∧
    ∃ paint, Ends (guiDrawWindow · fb focused window) paint ∧ ∀ p, fb.Shows p → ¬ window.Covers p → paint p = none

/-- No end of the window wraps to a pixel that is on the screen, and no pixel of its title is beside it. -/
structure PaintFits (fb : FbSize) (window : Window) : Prop where
  bottom : window.y.toNat + window.h.toNat ≤ 2 ^ 32
  right : window.x.toNat + window.w.toNat ≤ 2 ^ 32 ∨ fb.height.toNat ≤ window.y.toNat + 1
  title : ∀ q, TextInk window.title q → q.2 < window.titleH.toNat →
    fb.Shows (pixelFrom (window.x + 2) (titleY window) q) → window.Covers (pixelFrom (window.x + 2) (titleY window) q)

/-- The two lines in the close box do not overflow. A box that is so high that they go upwards, to the row that its
bottom is as an `int32_t`, has no point of them beside the window. -/
def LinesFit (fb : FbSize) (window : Window) : Prop :=
  window.title ≠ [] → ∀ r ∈ guiCloseBoxRect window, BoxFits r ∧ (2147483652 < r.h.toNat → ∀ p : Pixel, fb.Shows p →
    ((p.1 : Int), (p.2 : Int)) ∈ r.downLine ∨ ((p.1 : Int), (p.2 : Int)) ∈ r.upLine → window.Covers p)

variable {fb : FbSize} {window : Window} {r : GuiRect} {p : Pixel}

/-- A new title, and the flags that go with it. -/
theorem Window.Placed.setTitle (h : window.Placed fb) (title : Option (List UInt8)) :
    (guiApplyBuiltinPolicy (guiWindowSetTitle title window)).Placed fb := by
  obtain ⟨hvisible, hw, hh, hx, hy, hbar, -⟩ := h
  have htitle : (guiWindowSetTitle title window).title.length < guiTitleLen :=
    (List.length_take_le ..).trans_lt (by decide)
  unfold guiApplyBuiltinPolicy
  split <;> exact ⟨hvisible, hw, hh, hx, hy, hbar, htitle⟩

theorem Accepted.placed (h : Accepted fb window) : window.Placed fb := by
  induction h with
  | create ownerPid x y w h bgColor borderColor z title size place =>
    have hw : 8 ≤ w.toNat := UInt32.le_iff_toNat_le.mp size.1
    have hh : 8 ≤ h.toNat := UInt32.le_iff_toNat_le.mp size.2
    exact Window.Placed.setTitle ⟨⟨rfl, rfl⟩, hw, hh, UInt32.lt_iff_toNat_lt.mp place.1,
      UInt32.lt_iff_toNat_lt.mp place.2,
      lt_of_lt_of_le (by decide : 0 < 8) hh,
      (by decide : ([] : List UInt8).length < guiTitleLen)⟩ _
  | title window title before ih => exact ih.setTitle _
  | titleBar window titleH before bar ih =>
    obtain ⟨hvisible, hw, hh, hx, hy, -, htitle⟩ := ih
    exact ⟨hvisible, hw, hh, hx, hy, UInt32.lt_iff_toNat_lt.mp bar, htitle⟩
  | drawn window pixels before ih =>
    obtain ⟨hvisible, hw, hh, hx, hy, hbar, htitle⟩ := ih
    exact ⟨hvisible, hw, hh, hx, hy, hbar, htitle⟩

/-! ## The buttons -/

/-- The box at the right edge of the title bar, two rows below its top. -/
structure ButtonBox (window : Window) (r : GuiRect) : Prop where
  left : r.x = window.x + window.w - r.w - 2
  top : r.y = window.y + 2
  width : 6 ≤ r.w.toNat ∧ r.w.toNat ≤ 14
  height : 6 ≤ r.h.toNat ∧ r.h.toNat + 4 = window.titleH.toNat

theorem guiTitleBox_some {minW : UInt32 → UInt32} (h : guiTitleBox minW window = some r) :
    ButtonBox window r ∧ minW r.w ≤ window.w := by
  unfold guiTitleBox at h
  split at h
  · cases h
  rename_i hbar
  simp only [not_or, UInt32.not_lt, UInt32.le_iff_toNat_le] at hbar
  have hmin : guiCloseBtnMinTitleH.toNat = 10 := rfl
  have hpad : (2 * guiCloseBtnPad).toNat = 4 := rfl
  have hbh : (window.titleH - 2 * guiCloseBtnPad).toNat = window.titleH.toNat - 4 := by
    rw [UInt32.toNat_sub_of_le _ _ (UInt32.le_iff_toNat_le.mpr (by omega)), hpad]
  obtain ⟨bw, hbw⟩ : ∃ bw, bw = if window.titleH - 2 * guiCloseBtnPad < guiCloseBtnW then
      window.titleH - 2 * guiCloseBtnPad else guiCloseBtnW := ⟨_, rfl⟩
  have hwidth : 6 ≤ bw.toNat ∧ bw.toNat ≤ 14 := by
    have h14 : guiCloseBtnW.toNat = 14 := rfl
    rw [hbw]
    simp only [apply_ite UInt32.toNat, hbh, h14, UInt32.lt_iff_toNat_lt]
    split <;> omega
  dsimp only at h
  rw [← hbw] at h
  split at h
  · cases h
  split at h
  · cases h
  · rename_i hw
    cases h
    refine ⟨⟨rfl, rfl, hwidth, ?_⟩, UInt32.not_lt.mp hw⟩
    dsimp only
    omega

theorem sub_toNat {a b : UInt32} {n m : Nat} (ha : a.toNat = n) (hb : b.toNat = m) (h : m ≤ n) :
    (a - b).toNat = n - m := by
  rw [UInt32.toNat_sub_of_le _ _ (UInt32.le_iff_toNat_le.mpr (by omega)), ha, hb]

/-- The first column of a box in a window whose right end does not wrap. -/
theorem ButtonBox.column (hbox : ButtonBox window r) (hmin : r.w.toNat + 2 ≤ window.w.toNat)
    (hright : window.x.toNat + window.w.toNat ≤ 2 ^ 32) :
    r.x.toNat = window.x.toNat + window.w.toNat - r.w.toNat - 2 := by
  have hlt := window.x.toNat_lt
  have htwo : (2 : UInt32).toNat = 2 := rfl
  rw [hbox.left, UInt32.toNat_sub, UInt32.toNat_sub, UInt32.toNat_add, htwo]
  omega

/-- There is room for three boxes. -/
theorem three_buttons (hmin : 3 * r.w + 4 * guiCloseBtnPad ≤ window.w) (hw : r.w.toNat ≤ 14) :
    3 * r.w.toNat + 8 ≤ window.w.toNat := by
  have hthree : (3 * r.w).toNat = 3 * r.w.toNat := by
    rw [UInt32.toNat_mul]
    exact Nat.mod_eq_of_lt (show 3 * r.w.toNat < 2 ^ 32 by omega)
  have height : (4 * guiCloseBtnPad).toNat = 8 := rfl
  have hsum : (3 * r.w + 4 * guiCloseBtnPad).toNat = (3 * r.w).toNat + (4 * guiCloseBtnPad).toNat :=
    add_toNat (n := 50) (by omega) (by omega)
  have hle := UInt32.le_iff_toNat_le.mp hmin
  omega

/-- A button in the title bar; its columns are those of the window unless the right end of the window wraps. -/
structure InBar (window : Window) (r : GuiRect) : Prop where
  row : r.y.toNat = window.y.toNat + 2
  width : 6 ≤ r.w.toNat ∧ r.w.toNat ≤ 14
  height : 6 ≤ r.h.toNat ∧ r.h.toNat + 4 = window.titleH.toNat
  column : window.x.toNat + window.w.toNat ≤ 2 ^ 32 →
    window.x.toNat ≤ r.x.toNat ∧ r.x.toNat + r.w.toNat < window.x.toNat + window.w.toNat

theorem ButtonBox.row (hbox : ButtonBox window r) (hw : window.Placed fb) (hfits : PaintFits fb window) :
    r.y.toNat = window.y.toNat + 2 := by
  have hbottom := hfits.bottom
  have height := hw.height
  have htwo : (2 : UInt32).toNat = 2 := rfl
  rw [hbox.top]
  exact add_toNat (n := window.y.toNat + 2) (by omega) (by omega)

theorem guiCloseBoxRect_inBar (hw : window.Placed fb) (hfits : PaintFits fb window)
    (hr : guiCloseBoxRect window = some r) : InBar window r := by
  obtain ⟨hbox, hmin⟩ := guiTitleBox_some hr
  have hw14 := hbox.width
  have hpad : (2 * guiCloseBtnPad).toNat = 4 := rfl
  have hsum : (r.w + 2 * guiCloseBtnPad).toNat = r.w.toNat + (2 * guiCloseBtnPad).toNat :=
    add_toNat (n := 20) (by omega) (by omega)
  have hle := UInt32.le_iff_toNat_le.mp hmin
  refine ⟨hbox.row hw hfits, hbox.width, hbox.height, fun hright => ?_⟩
  rw [hbox.column (by omega) hright]
  omega

theorem guiMaximizeButtonRect_inBar (hw : window.Placed fb) (hfits : PaintFits fb window)
    (hr : guiMaximizeButtonRect window = some r) : InBar window r := by
  obtain ⟨right, hrow, rfl⟩ := Option.map_eq_some_iff.mp hr
  obtain ⟨hbox, hmin⟩ := guiTitleBox_some hrow
  have hw14 := hbox.width
  have hroom := three_buttons hmin hw14.2
  refine ⟨hbox.row hw hfits, hbox.width, hbox.height, fun hright => ?_⟩
  have hpad : guiCloseBtnPad.toNat = 2 := rfl
  have hleft := sub_toNat (sub_toNat (hbox.column (by omega) hright) (Eq.refl right.w.toNat) (by omega)) hpad (by omega)
  dsimp only
  omega

theorem guiMinimizeButtonRect_inBar (hw : window.Placed fb) (hfits : PaintFits fb window)
    (hr : guiMinimizeButtonRect window = some r) : InBar window r := by
  obtain ⟨right, hrow, rfl⟩ := Option.map_eq_some_iff.mp hr
  obtain ⟨hbox, hmin⟩ := guiTitleBox_some hrow
  have hw14 := hbox.width
  have hroom := three_buttons hmin hw14.2
  have hdouble : (2 * right.w).toNat = 2 * right.w.toNat := by
    rw [UInt32.toNat_mul]
    exact Nat.mod_eq_of_lt (show 2 * right.w.toNat < 2 ^ 32 by omega)
  refine ⟨hbox.row hw hfits, hbox.width, hbox.height, fun hright => ?_⟩
  have hpad : (2 * guiCloseBtnPad).toNat = 4 := rfl
  have hleft := sub_toNat (sub_toNat (hbox.column (by omega) hright) hdouble (by omega)) hpad (by omega)
  dsimp only
  omega

/-- A rectangle in a button: where it is seen, the right end of the window does not wrap. -/
theorem InBar.covers {x y w h : UInt32} (hr : InBar window r) (hw : window.Placed fb) (hfits : PaintFits fb window)
    (hp : fb.Shows p) (hrows : r.y.toNat ≤ y.toNat ∧ y.toNat + h.toNat ≤ r.y.toNat + r.h.toNat)
    (hcolumns : r.x.toNat + r.w.toNat < 2 ^ 32 → r.x.toNat ≤ x.toNat ∧ x.toNat + w.toNat ≤ r.x.toNat + r.w.toNat)
    (hrect : InRect x.toNat y.toNat w.toNat h.toNat p) : window.Covers p := by
  obtain ⟨hx, hxw, hy, hyh⟩ := hrect
  obtain ⟨hrow, -, hh, hcolumn⟩ := hr
  have hbar := hw.bar
  have hbelow := hp.2
  have hright := hfits.right.resolve_right (by omega)
  have hcolumn' := hcolumn hright
  have hcolumns' := hcolumns (by omega)
  exact ⟨by omega, by omega, by omega, by omega⟩

/-- A button itself. -/
theorem InBar.fill_within (hr : InBar window r) (hw : window.Placed fb) (hfits : PaintFits fb window) (color : UInt32) :
    (fbFillrect fb r.x r.y r.w r.h color).Within window.Covers :=
  fbFillrect_within fun _ hp => hr.covers hw hfits hp ⟨le_rfl, le_rfl⟩ fun _ => ⟨le_rfl, le_rfl⟩

/-- The bottom of a button ends in the bar. -/
theorem InBar.bottom (hr : InBar window r) (hw : window.Placed fb) (hfits : PaintFits fb window) :
    (r.y + r.h).toNat = r.y.toNat + r.h.toNat := by
  have hbottom := hfits.bottom
  have hbar := hw.bar
  have hrow := hr.row
  have height := hr.height
  exact add_toNat (n := window.y.toNat + window.titleH.toNat) (by omega) (by omega)

theorem minimize_within (hw : window.Placed fb) (hfits : PaintFits fb window) (color : UInt32) (hr : InBar window r) :
    (fbFillrect fb (r.x + 2) (r.y + r.h - 3) (r.w - 4) 1 color).Within window.Covers := by
  have hwidth := hr.width
  have height := hr.height
  have hrow : (r.y + r.h - 3).toNat = r.y.toNat + r.h.toNat - 3 :=
    sub_toNat (hr.bottom hw hfits) (rfl : (3 : UInt32).toNat = 3) (by omega)
  have hinner : (r.w - 4).toNat = r.w.toNat - 4 := sub_toNat rfl (rfl : (4 : UInt32).toNat = 4) (by omega)
  have hone : (1 : UInt32).toNat = 1 := rfl
  have htwo : (2 : UInt32).toNat = 2 := rfl
  refine fbFillrect_within fun p hp => hr.covers hw hfits hp ⟨by omega, by omega⟩ fun hends => ?_
  have hcolumn : (r.x + 2).toNat = r.x.toNat + 2 := add_toNat (n := r.x.toNat + r.w.toNat) (by omega) hends
  exact ⟨by omega, by omega⟩

theorem maximize_within (hw : window.Placed fb) (hfits : PaintFits fb window) (color : UInt32) (hr : InBar window r) :
    (fbDrawRect fb (r.x + 2) (r.y + 2) (r.w - 4) (r.h - 4) color).Within window.Covers := by
  have hwidth := hr.width
  have height := hr.height
  have hbottom := hfits.bottom
  have hbar := hw.bar
  have htop := hr.row
  have htwo : (2 : UInt32).toNat = 2 := rfl
  have hrow : (r.y + 2).toNat = r.y.toNat + 2 := add_toNat (n := r.y.toNat + r.h.toNat) (by omega) (by omega)
  have hinnerW : (r.w - 4).toNat = r.w.toNat - 4 := sub_toNat rfl (rfl : (4 : UInt32).toNat = 4) (by omega)
  have hinnerH : (r.h - 4).toNat = r.h.toNat - 4 := sub_toNat rfl (rfl : (4 : UInt32).toNat = 4) (by omega)
  refine fbDrawRect_within fun p hp => hr.covers hw hfits hp ⟨by omega, by omega⟩ fun hends => ?_
  have hcolumn : (r.x + 2).toNat = r.x.toNat + 2 := add_toNat (n := r.x.toNat + r.w.toNat) (by omega) hends
  exact ⟨by omega, by omega⟩

theorem s32_cases (n : UInt32) :
    (s32 n = n.toNat ∧ n.toNat < 2 ^ 31) ∨ (s32 n = (n.toNat : Int) - 2 ^ 32 ∧ 2 ^ 31 ≤ n.toNat) := by
  have := n.toNat_lt
  unfold s32 i32
  omega

/-- Between two ends that are near enough to each other, as `int32_t` values too. -/
theorem s32_between {a b : UInt32} {n : Nat} (hab : a.toNat ≤ b.toNat ∧ b.toNat ≤ a.toNat + 2147483647)
    (hlow : min (s32 a) (s32 b) ≤ n)
    (hhigh : (n : Int) ≤ max (s32 a) (s32 b)) (hfits : (s32 b - s32 a).natAbs < 2147483648) :
    a.toNat ≤ n ∧ n ≤ b.toNat := by
  have ha := a.toNat_lt
  have hb := b.toNat_lt
  rcases s32_cases a with ⟨ha', -⟩ | ⟨ha', -⟩ <;> rcases s32_cases b with ⟨hb', -⟩ | ⟨hb', -⟩ <;>
    rw [ha', hb'] at hlow hhigh hfits <;> omega

/-- The points of the two lines in a close box that is not too high for them. -/
theorem lines_cover (hw : window.Placed fb) (hfits : PaintFits fb window) (hr : InBar window r)
    (hlow : r.h.toNat ≤ 2147483652) (hbox : BoxFits r) {p : Pixel} (hp : fb.Shows p)
    (hline : ((p.1 : Int), (p.2 : Int)) ∈ r.downLine ∨ ((p.1 : Int), (p.2 : Int)) ∈ r.upLine) :
    window.Covers p := by
  have hx := hbox.1.width
  have hy := hbox.1.height
  obtain ⟨hcolumn, hrow⟩ : (min (s32 (r.x + 2)) (s32 (r.x + r.w - 3)) ≤ p.1 ∧
      p.1 ≤ max (s32 (r.x + 2)) (s32 (r.x + r.w - 3))) ∧ min (s32 (r.y + 2)) (s32 (r.y + r.h - 3)) ≤ p.2 ∧
      p.2 ≤ max (s32 (r.y + 2)) (s32 (r.y + r.h - 3)) := by
    rcases hline with hdown | hup
    · exact linePoints_between hdown
    · rw [min_comm (s32 (r.x + 2)), max_comm (s32 (r.x + 2))]
      exact linePoints_between hup
  have hwidth := hr.width
  have height := hr.height
  have hbottom := hfits.bottom
  have hbar := hw.bar
  have htop := hr.row
  have htwo : (2 : UInt32).toNat = 2 := rfl
  have hfirst : (r.y + 2).toNat = r.y.toNat + 2 := add_toNat (n := r.y.toNat + r.h.toNat) (by omega) (by omega)
  have hlast : (r.y + r.h - 3).toNat = r.y.toNat + r.h.toNat - 3 :=
    sub_toNat (hr.bottom hw hfits) (rfl : (3 : UInt32).toNat = 3) (by omega)
  obtain ⟨hrow1, hrow2⟩ := s32_between ⟨by omega, by omega⟩ hrow.1 hrow.2 hy
  have hbelow := hp.2
  have hright := hr.column (hfits.right.resolve_right (by omega))
  have hends : r.x.toNat + r.w.toNat < 2 ^ 32 := by
    have := hfits.right
    omega
  have hleft : (r.x + 2).toNat = r.x.toNat + 2 := add_toNat (n := r.x.toNat + r.w.toNat) (by omega) hends
  have hsum : (r.x + r.w).toNat = r.x.toNat + r.w.toNat := add_toNat le_rfl hends
  have hend : (r.x + r.w - 3).toNat = r.x.toNat + r.w.toNat - 3 :=
    sub_toNat hsum (rfl : (3 : UInt32).toNat = 3) (by omega)
  obtain ⟨hcolumn1, hcolumn2⟩ := s32_between ⟨by omega, by omega⟩ hcolumn.1 hcolumn.2 hx
  exact ⟨by omega, by omega, by omega, by omega⟩

/-- The two lines. -/
theorem closeLine_within (hw : window.Placed fb) (hfits : PaintFits fb window) (hlines : LinesFit fb window)
    (htitle : window.title ≠ []) (hclose : guiCloseBoxRect window = some r) {p : Pixel} (hp : fb.Shows p)
    (hline : ((p.1 : Int), (p.2 : Int)) ∈ r.downLine ∨ ((p.1 : Int), (p.2 : Int)) ∈ r.upLine) :
    window.Covers p := by
  obtain ⟨hbox, hhigh⟩ := hlines htitle r hclose
  rcases Nat.lt_or_ge 2147483652 r.h.toNat with hlt | hle
  · exact hhigh hlt p hp hline
  · exact lines_cover hw hfits (guiCloseBoxRect_inBar hw hfits hclose) hle hbox hp hline

theorem guiDrawButtons_within (hw : window.Placed fb) (hfits : PaintFits fb window) (hlines : LinesFit fb window)
    (htitle : window.title ≠ []) (focused : Bool) :
    ∃ paint, Ends (guiDrawButtons · fb focused window) paint ∧ paint.Within window.Covers := by
  unfold guiDrawButtons
  dsimp only
  have hbox : ∀ r color, InBar window r → (fbFillrect fb r.x r.y r.w r.h color).Within window.Covers :=
    fun r color hr => hr.fill_within hw hfits color
  cases hclose : guiCloseBoxRect window with
  | none =>
    refine ⟨_, .pure _, Paint.within_atop.mpr ⟨?_, ?_⟩⟩
    · split
      · exact Paint.within_clear _
      · have hr := guiMaximizeButtonRect_inBar hw hfits ‹_›
        exact Paint.within_atop.mpr ⟨maximize_within hw hfits _ hr, hbox _ _ hr⟩
    · split
      · exact Paint.within_clear _
      · have hr := guiMinimizeButtonRect_inBar hw hfits ‹_›
        exact Paint.within_atop.mpr ⟨minimize_within hw hfits _ hr, hbox _ _ hr⟩
  | some r =>
    obtain ⟨⟨hdownFits, hupFits⟩, -⟩ := hlines htitle r hclose
    have hr := guiCloseBoxRect_inBar hw hfits hclose
    obtain ⟨down, hdown, hdown'⟩ := fbDrawLine_inked fb 0xfff8f8f8 hdownFits
    obtain ⟨up, hup, hup'⟩ := fbDrawLine_inked fb 0xfff8f8f8 hupFits
    refine ⟨_, hdown.bind (hup.bind (.pure _)), Paint.within_atop.mpr ⟨fun p hp => ?_, Paint.within_atop.mpr
      ⟨fun p hp => ?_, Paint.within_atop.mpr ⟨hbox r _ hr, Paint.within_atop.mpr ⟨?_, ?_⟩⟩⟩⟩⟩
    · obtain ⟨hshows, hpoint⟩ := (hup' p).mp hp
      exact closeLine_within hw hfits hlines htitle hclose hshows (.inr hpoint)
    · obtain ⟨hshows, hpoint⟩ := (hdown' p).mp hp
      exact closeLine_within hw hfits hlines htitle hclose hshows (.inl hpoint)
    · split
      · exact Paint.within_clear _
      · have hr := guiMaximizeButtonRect_inBar hw hfits ‹_›
        exact Paint.within_atop.mpr ⟨maximize_within hw hfits _ hr, hbox _ _ hr⟩
    · split
      · exact Paint.within_clear _
      · have hr := guiMinimizeButtonRect_inBar hw hfits ‹_›
        exact Paint.within_atop.mpr ⟨minimize_within hw hfits _ hr, hbox _ _ hr⟩

/-! ## The rest of the window -/

theorem guiDrawContents_within (hw : window.Placed fb) (hfits : PaintFits fb window) (border : UInt32) :
    (guiDrawContents fb border window).Within window.Covers := by
  have hbottom := hfits.bottom
  have hbar := hw.bar
  unfold guiDrawContents
  split
  · have htop : (window.y + window.titleH).toNat = window.y.toNat + window.titleH.toNat :=
      add_toNat le_rfl (by omega)
    have hcontent : (guiContentH window).toNat = window.h.toNat - window.titleH.toNat := by
      rw [guiContentH, if_pos (UInt32.lt_iff_toNat_lt.mpr hbar)]
      exact sub_toNat rfl rfl hbar.le
    refine fbBlit_within fun p hp hrect => ?_
    obtain ⟨hx, hxw, hy, hyh⟩ := hrect
    exact ⟨hx, hxw, by omega, by omega⟩
  · refine Paint.within_atop.mpr ⟨Paint.within_ite fun hlarge => fbFillrect_within fun p hp hrect => ?_,
      fbFillrect_within fun p hp hrect => hrect⟩
    have hone : (1 : UInt32).toNat = 1 := rfl
    have htwo : (2 : UInt32).toNat = 2 := rfl
    have hx := add_toNat (a := window.x) (b := 1) le_rfl (Nat.lt_of_le_of_lt hw.left fb.width.toNat_lt)
    have hy := add_toNat (a := window.y) (b := 1) le_rfl (Nat.lt_of_le_of_lt hw.top fb.height.toNat_lt)
    have hwidth := UInt32.toNat_sub_of_le _ _ (UInt32.le_of_lt hlarge.1)
    have height := UInt32.toNat_sub_of_le _ _ (UInt32.le_of_lt hlarge.2)
    have hw8 := hw.width
    have hh8 := hw.height
    obtain ⟨hx1, hx2, hy1, hy2⟩ := hrect
    exact ⟨by omega, by omega, by omega, by omega⟩

theorem guiDrawFrame_within (hw : window.Placed fb) (hfits : PaintFits fb window) (border : UInt32) :
    (guiDrawFrame fb border window).Within window.Covers := by
  have hbottom := hfits.bottom
  have hw8 := hw.width
  have hh8 := hw.height
  have hone : (1 : UInt32).toNat = 1 := rfl
  have htwo : (2 : UInt32).toNat = 2 := rfl
  have hy := add_toNat (a := window.y) (b := 1) le_rfl (Nat.lt_of_le_of_lt hw.top fb.height.toNat_lt)
  have height : (window.h - 2).toNat = window.h.toNat - 2 := sub_toNat rfl htwo (by omega)
  have hlastRow : (window.y + window.h - 1).toNat = window.y.toNat + window.h.toNat - 1 := by
    rw [UInt32.toNat_sub, UInt32.toNat_add, hone]
    omega
  refine Paint.within_atop.mpr ⟨Paint.within_ite fun _ => fbFillrect_within fun p hp hrect => ?_,
    Paint.within_atop.mpr ⟨Paint.within_ite fun _ => fbFillrect_within fun p hp hrect => ?_,
      Paint.within_atop.mpr ⟨Paint.within_ite fun _ => fbFillrect_within fun p hp hrect => ?_,
        fbFillrect_within fun p hp hrect => ?_⟩⟩⟩
  · obtain ⟨hx1, hx2, hy1, hy2⟩ := hrect
    have hbelow := hp.2
    have hright := hfits.right.resolve_right (by omega)
    have hlastColumn : (window.x + window.w - 1).toNat = window.x.toNat + window.w.toNat - 1 := by
      have hlt := window.x.toNat_lt
      rw [UInt32.toNat_sub, UInt32.toNat_add, hone]
      omega
    exact ⟨by omega, by omega, by omega, by omega⟩
  all_goals
    obtain ⟨hx1, hx2, hy1, hy2⟩ := hrect
    exact ⟨by omega, by omega, by omega, by omega⟩

theorem guiDrawBar_within (hw : window.Placed fb) (hfits : PaintFits fb window) (border : UInt32) :
    (guiDrawBar fb border window).Within window.Covers := by
  have hbottom := hfits.bottom
  have hbar := hw.bar
  have hone : (1 : UInt32).toNat = 1 := rfl
  have htitle : 10 * window.title.length + 8 < 2 ^ 32 := by
    have := hw.title
    rw [guiTitleLen] at this
    omega
  refine Paint.within_atop.mpr ⟨fun p hp => ?_, Paint.within_atop.mpr ⟨Paint.within_ite fun _ =>
    fbFillrect_within fun p hp hrect => ?_, fbFillrect_within fun p hp hrect => ?_⟩⟩
  · obtain ⟨hshows, q, hink, hq, rfl⟩ := (fontDrawTextClipped_ink htitle).mp hp
    exact hfits.title q hink hq hshows
  · have htop : (window.y + window.titleH).toNat = window.y.toNat + window.titleH.toNat :=
      add_toNat le_rfl (by omega)
    obtain ⟨hx, hxw, hy, hyh⟩ := hrect
    exact ⟨hx, hxw, by omega, by omega⟩
  · obtain ⟨hx, hxw, hy, hyh⟩ := hrect
    exact ⟨hx, hxw, hy, by omega⟩

/-! ## All of the window -/

/-- The frame and the title bar are drawn in every window that is seen. -/
theorem guiDrawWindow_parts {fuel : Nat} {focused : Bool} {paint : FbPaint} (hvisible : window.Visible)
    (h : guiDrawWindow fuel fb focused window = some paint) : ∃ border, ∀ p, paint p = none →
      guiDrawFrame fb border window p = none ∧
      (0 < window.titleH → window.title ≠ [] → guiDrawBar fb border window p = none) := by
  unfold guiDrawWindow at h
  rw [if_neg (by simp [hvisible.1, hvisible.2])] at h
  dsimp only at h
  obtain ⟨border, hborder⟩ : ∃ border, border =
      if focused = true ∧ window.flags &&& guiWindowNoFocus = 0 then 0xffe0e8f0 else window.borderColor := ⟨_, rfl⟩
  rw [← hborder] at h
  refine ⟨border, fun p hp => ?_⟩
  split at h
  · obtain ⟨buttons, -, rfl⟩ := Option.map_eq_some_iff.mp h
    obtain ⟨-, hrest⟩ := Paint.atop_none.mp hp
    obtain ⟨hbar, hbody⟩ := Paint.atop_none.mp hrest
    exact ⟨(Paint.atop_none.mp hbody).1, fun _ _ => hbar⟩
  · rename_i hnone
    cases h
    exact ⟨(Paint.atop_none.mp hp).1, fun hbar htitle => absurd ⟨hbar, htitle⟩ hnone⟩

theorem linesDefined_iff : LinesDefined fb window ↔
    (window.title ≠ [] → ∀ r ∈ guiCloseBoxRect window, BoxFits r) := by
  unfold LinesDefined BoxFits
  simp only [lineDefined_iff fb 0xfff8f8f8 (s32_fits _) (s32_fits _) (s32_fits _) (s32_fits _)]

theorem guiDrawWindow_within (hw : window.Placed fb) (hfits : PaintFits fb window) (hlines : LinesFit fb window)
    (focused : Bool) : DrawsInside fb focused window := by
  refine ⟨linesDefined_iff.mpr fun htitle r hr => (hlines htitle r hr).1, ?_⟩
  obtain ⟨border, hborder⟩ : ∃ border, border =
      if focused = true ∧ window.flags &&& guiWindowNoFocus = 0 then 0xffe0e8f0 else window.borderColor := ⟨_, rfl⟩
  have hbody : ((guiDrawFrame fb border window).atop (guiDrawContents fb border window)).Within window.Covers :=
    Paint.within_atop.mpr ⟨guiDrawFrame_within hw hfits border, guiDrawContents_within hw hfits border⟩
  unfold guiDrawWindow
  simp only [hw.visible.1, hw.visible.2, Bool.true_eq_false, Bool.false_eq_true, or_self, if_false, ← hborder]
  have hinside : ∀ {paint : FbPaint}, paint.Within window.Covers → ∀ p, fb.Shows p → ¬ window.Covers p →
    paint p = none :=
    fun hpaint p _ hp => by_contra fun hne => hp (hpaint p hne)
  split
  · rename_i htitle
    obtain ⟨buttons, hbuttons, hbuttons'⟩ := guiDrawButtons_within hw hfits hlines htitle.2 focused
    exact ⟨_, hbuttons.map _, hinside (Paint.within_atop.mpr ⟨hbuttons', Paint.within_atop.mpr
      ⟨guiDrawBar_within hw hfits border, hbody⟩⟩)⟩
  · exact ⟨_, .pure _, hinside hbody⟩

/-- No line of a window that paints only itself leaves it. -/
theorem DrawsInside.lines {focused : Bool} (h : DrawsInside fb focused window) (hw : window.Placed fb) :
    LinesFit fb window := by
  obtain ⟨hdefined, paint, hends, hinside⟩ := h
  have hboxes := linesDefined_iff.mp hdefined
  obtain ⟨paint', hends', hinked⟩ := guiDrawWindow_inked fb focused hboxes
  cases hends.unique hends'
  intro htitle r hr
  refine ⟨hboxes htitle r hr, fun _ p hp hline => ?_⟩
  by_contra hout
  refine (hinked hw.title p).mpr ⟨hp, hw.visible, .inl ⟨⟨?_, htitle⟩, .inl (.inl ⟨r, hr, ?_⟩)⟩⟩ (hinside p hp hout)
  · have height := (guiTitleBox_some hr).1.height
    exact UInt32.lt_iff_toNat_lt.mpr (by
      rw [UInt32.toNat_zero]
      omega)
  · rcases hline with hdown | hup
    · exact .inr (.inl hdown)
    · exact .inl hup

/-- A window that paints only itself is on the screen as far as its ends can be seen. -/
theorem DrawsInside.fits {focused : Bool} (h : DrawsInside fb focused window) (hw : window.Placed fb) :
    PaintFits fb window := by
  obtain ⟨-, paint, ⟨n, hn⟩, hinside⟩ := h
  obtain ⟨border, hparts⟩ := guiDrawWindow_parts hw.visible (hn (n + 1) (Nat.lt_succ_self n))
  have houtside := fun p hp hout => hparts p (hinside p hp hout)
  have hone : (1 : UInt32).toNat = 1 := rfl
  have htwo : (2 : UInt32).toNat = 2 := rfl
  have hw8 := hw.width
  have hh8 := hw.height
  have hleft := hw.left
  have htop := hw.top
  have hxlt := window.x.toNat_lt
  have hwlt := window.w.toNat_lt
  have hylt := window.y.toNat_lt
  have hhlt := window.h.toNat_lt
  refine ⟨?_, ?_, fun q hink hq hp => ?_⟩
  · -- the last row comes back above the window
    by_contra hwraps
    have hrow : (window.y + window.h - 1).toNat = window.y.toNat + window.h.toNat - 1 - 2 ^ 32 := by
      rw [UInt32.toNat_sub, UInt32.toNat_add, hone]
      omega
    have hp : fb.Shows (window.x.toNat, window.y.toNat + window.h.toNat - 1 - 2 ^ 32) := ⟨hleft, by
      dsimp only
      omega⟩
    obtain ⟨hframe, -⟩ := houtside _ hp fun hcovers => by
      have := hcovers.2.2.1
      dsimp only at this
      omega
    simp only [guiDrawFrame, Paint.atop_none] at hframe
    have hbottom := hframe.2.2.1
    rw [if_pos (UInt32.lt_iff_toNat_lt.mpr (by omega)),
      fbFillrect_some hp ⟨le_rfl, by omega, by rw [hrow], by rw [hrow, hone]; omega⟩] at hbottom
    cases hbottom
  · -- the last column comes back left of the window
    by_contra hwraps
    rw [not_or, not_le, not_le] at hwraps
    have hcolumn : (window.x + window.w - 1).toNat = window.x.toNat + window.w.toNat - 1 - 2 ^ 32 := by
      rw [UInt32.toNat_sub, UInt32.toNat_add, hone]
      omega
    have hrow := add_toNat (a := window.y) (b := 1) le_rfl (Nat.lt_of_le_of_lt htop fb.height.toNat_lt)
    have height : (window.h - 2).toNat = window.h.toNat - 2 := sub_toNat rfl htwo (by omega)
    have hp : fb.Shows (window.x.toNat + window.w.toNat - 1 - 2 ^ 32, window.y.toNat + 1) := ⟨by
      dsimp only
      omega, hwraps.2⟩
    obtain ⟨hframe, -⟩ := houtside _ hp fun hcovers => by
      have := hcovers.1
      dsimp only at this
      omega
    simp only [guiDrawFrame, Paint.atop_none] at hframe
    have hright := hframe.1
    rw [if_pos ⟨UInt32.lt_iff_toNat_lt.mpr (by omega), UInt32.lt_iff_toNat_lt.mpr (by omega)⟩,
      fbFillrect_some hp ⟨by rw [hcolumn], by rw [hcolumn, hone]; omega, by rw [hrow, hone], by
        rw [hrow, hone, height]
        omega⟩] at hright
    cases hright
  · -- the text is drawn over what is beside the window
    by_contra hout
    have htitle : 10 * window.title.length + 8 < 2 ^ 32 := by
      have := hw.title
      rw [guiTitleLen] at this
      omega
    have hne : window.title ≠ [] := by
      rintro hnil
      obtain ⟨cell, hcell, -⟩ := hink
      rw [hnil] at hcell
      cases hcell
    have hbar := (houtside _ hp hout).2 (UInt32.lt_iff_toNat_lt.mpr (Nat.lt_of_le_of_lt (Nat.zero_le _) hq)) hne
    exact (fontDrawTextClipped_ink htitle).mpr ⟨hp, q, hink, hq, rfl⟩ (Paint.atop_none.mp hbar).1

/-- A window that is accepted paints only itself exactly if its ends, its title and the lines in its close box fit. -/
theorem guiDrawWindow_inside (h : Accepted fb window) (focused : Bool) :
    DrawsInside fb focused window ↔ PaintFits fb window ∧ LinesFit fb window :=
  ⟨fun hinside => ⟨hinside.fits h.placed, hinside.lines h.placed⟩,
    fun ⟨hfits, hlines⟩ => guiDrawWindow_within h.placed hfits hlines focused⟩

/-- A window with a short title and a close box. -/
def closableWindow : Window := { guiNewWindow 2 4 4 40 20 0 0 1 (some [65]) with titleH := 12 }

theorem closableWindow_fits : PaintFits ⟨64, 48⟩ closableWindow ∧ LinesFit ⟨64, 48⟩ closableWindow := by
  refine ⟨⟨by decide, by decide, ?_⟩, fun _ r hr => ?_⟩
  · rintro q ⟨cell, hcell, col, row, ⟨hcol, hrow, -⟩, rfl⟩ - -
    obtain rfl : cell = ⟨0, 0, 65⟩ := by
      have hcells : textCells 0 0 closableWindow.title = [⟨0, 0, 65⟩] := rfl
      rw [hcells] at hcell
      exact List.mem_singleton.mp hcell
    have hx : (closableWindow.x + 2).toNat = 6 := by decide
    have hy : (titleY closableWindow).toNat = 6 := by decide
    simp only [Nat.mul_zero, Nat.zero_add]
    rw [pixelFrom_eq (by omega) (by omega), hx, hy]
    exact ⟨show 4 ≤ 6 + col by omega, show 6 + col < 4 + 40 by omega, show 4 ≤ 6 + row by omega,
      show 6 + row < 4 + 20 by omega⟩
  · obtain rfl : r = ⟨34, 6, 8, 8⟩ := Option.some.inj (hr.symm.trans (by decide))
    exact ⟨by decide +kernel, fun hhigh => absurd hhigh (by decide)⟩

theorem guiDrawWindow_inside_sample : DrawsInside ⟨64, 48⟩ true closableWindow :=
  (guiDrawWindow_inside (.titleBar _ 12 (.create 2 4 4 40 20 0 0 1 [65] (by decide) (by decide)) (by decide)) true).mpr
    closableWindow_fits

/-- A window that is eight pixels wide. -/
def narrowWindow : Window := { guiNewWindow 2 4 4 8 20 0 0 1 (some [65, 65, 65]) with titleH := 12 }

/-- The window in columns 4 to 11 draws its title up to column 28. -/
theorem long_title_outside : ¬ ∀ (fb : FbSize) (window : Window), Accepted fb window →
    ∀ focused, DrawsInside fb focused window := by
  intro h
  obtain ⟨-, paint, ⟨n, hn⟩, hinside⟩ := h ⟨64, 48⟩ narrowWindow
    (.titleBar _ 12 (.create 2 4 4 8 20 0 0 1 [65, 65, 65] (by decide) (by decide)) (by decide)) true
  have hout := hinside (23, 9) ⟨by decide, by decide⟩ (by decide)
  -- the window is too narrow for a close box, and there is no line to draw
  have hnone : guiCloseBoxRect narrowWindow = none := by decide
  have hfuel : guiDrawWindow (n + 1) ⟨64, 48⟩ true narrowWindow = guiDrawWindow 0 ⟨64, 48⟩ true narrowWindow := by
    simp only [guiDrawWindow, guiDrawButtons, hnone]
  have hdrawn : (guiDrawWindow 0 ⟨64, 48⟩ true narrowWindow).map (fun paint => paint (23, 9)) =
      some (some 0xfff0f4f8) := by decide +kernel
  rw [← hfuel, show guiDrawWindow (n + 1) ⟨64, 48⟩ true narrowWindow = some paint from hn (n + 1) (Nat.lt_succ_self n),
    Option.map_some, hout] at hdrawn
  cases hdrawn

end Armonios
