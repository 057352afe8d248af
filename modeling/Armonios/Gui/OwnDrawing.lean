import Armonios.Gui.Ink
import Armonios.Gui.WindowRules

/-!
# Drawing in a window

A call that draws in a window gives the rectangle of its drawing to `gui_damage_add`. What a full redraw shows
changes in this rectangle and nowhere else, if the text is in one line and the window was drawn in before or
shows its background until then as it shows it afterwards (`screenRun_reports`). A content of 2⁶⁴ bytes or more gets a
buffer for the bytes that are left of them in 64 bits, and is not considered.
-/

namespace Armonios

/-! ## A redraw with another content -/

section Redraw

variable {d : Desktop} {i : WindowId} {window : Window}

/-- What the order of the windows and the background depend on. -/
structure SameFrame (a b : Window) : Prop where
  used : a.used = b.used
  minimized : a.minimized = b.minimized
  x : a.x = b.x
  y : a.y = b.y
  w : a.w = b.w
  h : a.h = b.h
  z : a.z = b.z

theorem SameFrame.setWindow (h : SameFrame window (d.windows i)) (j : WindowId) :
    SameFrame ((d.setWindow i window).windows j) (d.windows j) := by
  by_cases hj : j = i
  · rw [hj, Desktop.setWindow_windows, Function.update_self]
    exact h
  · rw [Desktop.setWindow_windows, Function.update_of_ne hj]
    exact ⟨rfl, rfl, rfl, rfl, rfl, rfl, rfl⟩

variable {d' : Desktop}

theorem guiWindowsAbove_same (h : ∀ j, SameFrame (d'.windows j) (d.windows j)) (fuel : Nat) (lastZ : UInt32) :
    guiWindowsAbove d' fuel lastZ = guiWindowsAbove d fuel lastZ := by
  have hnext : ∀ minZ, guiNextWindowAboveZ minZ d' = guiNextWindowAboveZ minZ d := by
    intro minZ
    refine scan_congr (fun j => ?_) (fun j k => ?_) _
    · rw [Window.Visible, Window.Visible, (h j).used, (h j).minimized, (h j).z]
    · rw [(h j).z, (h k).z]
  induction fuel generalizing lastZ with
  | zero => rfl
  | succ fuel ih => simp only [guiWindowsAbove, hnext, (h _).z, ih]

theorem guiSweep_same (h : ∀ j, SameFrame (d'.windows j) (d.windows j)) (hfb : d'.fb = d.fb)
    (hbackground : d'.backgroundColor = d.backgroundColor) (fuel : Nat) : guiSweep fuel d' = guiSweep fuel d := by
  have hnext : ∀ row x, guiNextWindowAtOrAfter row x d' = guiNextWindowAtOrAfter row x d := by
    intro row x
    refine scan_congr (fun j => ?_) (fun j k => ?_) _
    · rw [Window.Visible, Window.Visible, (h j).used, (h j).minimized, (h j).x, (h j).y, (h j).w, (h j).h]
    · rw [(h j).x, (h k).x]
  have hcolor : ∀ row, guiBackground d' row = guiBackground d row := by
    intro row
    simp only [guiBackground, hfb, hbackground]
  have hrow : ∀ row fuel x, guiSweepRow d' row fuel x = guiSweepRow d row fuel x := by
    intro row fuel
    induction fuel with
    | zero => exact fun x => rfl
    | succ fuel ih =>
      intro x
      simp only [guiSweepRow, hnext, hfb, hcolor, (h _).x, (h _).w, ih]
  simp only [guiSweep, hrow, hfb]

theorem mapM_agree {R : Pixel → Prop} {f g : WindowId → Option FbPaint}
    (h : ∀ j a, f j = some a → ∃ b, g j = some b ∧ a.Agree R b) {ids : List WindowId} {paints : List FbPaint}
    (hf : ids.mapM f = some paints) : ∃ paints', ids.mapM g = some paints' ∧
      List.Forall₂ (Paint.Agree R) paints paints' := by
  induction ids generalizing paints with
  | nil =>
    cases hf
    exact ⟨[], rfl, .nil⟩
  | cons j ids ih =>
    rw [List.mapM_cons] at hf
    obtain ⟨a, ha, hrest⟩ := Option.bind_eq_some_iff.mp hf
    obtain ⟨as, has, hcons⟩ := Option.bind_eq_some_iff.mp hrest
    cases hcons
    obtain ⟨b, hb, hab⟩ := h j a ha
    obtain ⟨bs, hbs, habs⟩ := ih has
    refine ⟨b :: bs, ?_, .cons hab habs⟩
    rw [List.mapM_cons, hb, hbs]
    rfl

/-- A redraw in which one window is drawn in another way. -/
theorem guiDrawFull_agree {R : Pixel → Prop} {fuel : Nat} {full : FbPaint} (hframe : SameFrame window (d.windows i))
    (hwindow : ∀ focused paint, guiDrawWindow fuel d.fb focused (d.windows i) = some paint →
      ∃ paint', guiDrawWindow fuel d.fb focused window = some paint' ∧ paint.Agree R paint')
    (h : guiDrawFull fuel d = some full) :
    ∃ full', guiDrawFull fuel (d.setWindow i window) = some full' ∧ full.Agree R full' := by
  obtain ⟨sweep, hsweep, hrest⟩ := Option.bind_eq_some_iff.mp h
  obtain ⟨windows, hwindows, hdone⟩ := Option.bind_eq_some_iff.mp hrest
  cases hdone
  obtain ⟨ids, hids, hrest⟩ := Option.bind_eq_some_iff.mp hwindows
  obtain ⟨paints, hpaints, hdone⟩ := Option.bind_eq_some_iff.mp hrest
  cases hdone
  have hone : ∀ j a, guiDrawWindow fuel d.fb (d.focusedWindowId = some j) (d.windows j) = some a →
      ∃ b, guiDrawWindow fuel d.fb (d.focusedWindowId = some j) ((d.setWindow i window).windows j) = some b ∧
        a.Agree R b := by
    intro j a ha
    by_cases hj : j = i
    · subst hj
      rw [Desktop.setWindow_windows, Function.update_self]
      exact hwindow _ a ha
    · rw [Desktop.setWindow_windows, Function.update_of_ne hj]
      exact ⟨a, ha, .refl R a⟩
  obtain ⟨paints', hpaints', hagree⟩ := mapM_agree hone hpaints
  have hsweep' : guiSweep fuel (d.setWindow i window) = some sweep := by
    rw [guiSweep_same (SameFrame.setWindow hframe) rfl rfl, hsweep]
  have hids' : guiWindowsAbove (d.setWindow i window) fuel 0 = some ids := by
    rw [guiWindowsAbove_same (SameFrame.setWindow hframe), hids]
  have hwindows' : guiDrawWindows fuel (d.setWindow i window) = some (.all paints') := by
    exact Option.bind_eq_some_iff.mpr ⟨ids, hids', Option.bind_eq_some_iff.mpr ⟨paints', hpaints', rfl⟩⟩
  refine ⟨(guiDrawVisibleCursor d).atop ((Paint.all paints').atop sweep), ?_,
    .atop (.refl R _) (.atop (.all hagree) (.refl R _))⟩
  unfold guiDrawFull
  rw [hsweep', hwindows']
  rfl

end Redraw

/-! ## A window with another content -/

section Content

variable {fb : FbSize} {window : Window} {pixels : Nat → UInt32} {capacity : UInt32} {paint : FbPaint} {p : Pixel}

/-- The window after a drawing in its buffer. -/
def Window.drawn (pixels : Nat → UInt32) (capacity : UInt32) (paint : FbPaint) (window : Window) : Window :=
  { window with ownerDrawn := true, backing := some (paintBacking window paint pixels), backingCapacity := capacity }

/-- The pixels of the content on the screen, as `fb_blit` places them. -/
def Window.ContentHas (window : Window) (p : Pixel) : Prop :=
  InRect window.x.toNat (window.y + window.titleH).toNat window.w.toNat (guiContentH window).toNat p

instance (window : Window) (p : Pixel) : Decidable (window.ContentHas p) := by
  unfold Window.ContentHas; infer_instance

/-- The pixel of the buffer that is shown there. -/
def Window.inContent (window : Window) (p : Pixel) : Pixel :=
  (p.1 - window.x.toNat, p.2 - (window.y + window.titleH).toNat)

/-- The frame or the title bar is drawn over the content there. -/
def Window.FrameAt (fb : FbSize) (window : Window) (p : Pixel) : Prop :=
  ∀ border, guiDrawFrame fb border window p ≠ none ∨
    0 < window.titleH ∧ window.title ≠ [] ∧ guiDrawBar fb border window p ≠ none

/-- Where the content looks the same, or is drawn over, the window does. -/
theorem guiDrawWindow_agree {R : Pixel → Prop} {fuel : Nat} {focused : Bool} {whole : FbPaint}
    (hcontents : window.Visible → ∀ border p, R p →
      guiDrawContents fb border window p = guiDrawContents fb border (window.drawn pixels capacity paint) p ∨
        window.FrameAt fb p)
    (h : guiDrawWindow fuel fb focused window = some whole) :
    ∃ whole', guiDrawWindow fuel fb focused (window.drawn pixels capacity paint) = some whole' ∧
      whole.Agree R whole' := by
  obtain ⟨border, hborder⟩ : ∃ border, border =
      if focused = true ∧ window.flags &&& guiWindowNoFocus = 0 then 0xffe0e8f0 else window.borderColor := ⟨_, rfl⟩
  unfold guiDrawWindow at h ⊢
  have hused : (window.drawn pixels capacity paint).used = window.used := rfl
  have hminimized : (window.drawn pixels capacity paint).minimized = window.minimized := rfl
  have hflags : (window.drawn pixels capacity paint).flags = window.flags := rfl
  have hcolor : (window.drawn pixels capacity paint).borderColor = window.borderColor := rfl
  have htitleH : (window.drawn pixels capacity paint).titleH = window.titleH := rfl
  have htitle : (window.drawn pixels capacity paint).title = window.title := rfl
  have hbuttons : guiDrawButtons fuel fb focused (window.drawn pixels capacity paint) =
      guiDrawButtons fuel fb focused window := rfl
  have hbar : guiDrawBar fb border (window.drawn pixels capacity paint) = guiDrawBar fb border window := rfl
  have hframe : guiDrawFrame fb border (window.drawn pixels capacity paint) = guiDrawFrame fb border window := rfl
  dsimp only at h ⊢
  rw [hused, hminimized, hflags, hcolor, ← hborder, htitleH, htitle, hbuttons, hbar, hframe]
  rw [← hborder] at h
  split
  · rename_i hhidden
    rw [if_pos hhidden] at h
    exact ⟨_, rfl, by cases h; exact .refl R _⟩
  rename_i hvisible
  rw [if_neg hvisible] at h
  simp only [not_or, Bool.not_eq_false, Bool.not_eq_true] at hvisible
  have hat := fun p hp => (hcontents hvisible border p hp).imp_right fun hframe => hframe border
  split
  · rename_i htitled
    rw [if_pos htitled] at h
    obtain ⟨buttons, hsome, rfl⟩ := Option.map_eq_some_iff.mp h
    refine ⟨_, by rw [hsome, Option.map_some], .atop (.refl R _) fun p hp => ?_⟩
    simp only [Paint.atop_apply]
    rcases hat p hp with heq | hdrawn | ⟨-, -, hdrawn⟩
    · rw [heq]
    · obtain ⟨c, hc⟩ := Option.ne_none_iff_exists'.mp hdrawn
      rw [hc, Option.some_or, Option.some_or]
    · obtain ⟨c, hc⟩ := Option.ne_none_iff_exists'.mp hdrawn
      rw [hc, Option.some_or, Option.some_or]
  · rename_i huntitled
    rw [if_neg huntitled] at h
    cases h
    refine ⟨_, rfl, fun p hp => ?_⟩
    simp only [Paint.atop_apply]
    rcases hat p hp with heq | hdrawn | ⟨hbar, hne, -⟩
    · rw [heq]
    · obtain ⟨c, hc⟩ := Option.ne_none_iff_exists'.mp hdrawn
      rw [hc, Option.some_or, Option.some_or]
    · exact absurd ⟨hbar, hne⟩ huntitled

theorem paintBacking_at {col row : Nat} (hcol : col < window.w.toNat) :
    paintBacking window paint pixels (row * window.w.toNat + col) =
      (paint (col, row)).getD (pixels (row * window.w.toNat + col)) := by
  have hdiv : (row * window.w.toNat + col) / window.w.toNat = row := by
    rw [Nat.add_comm, Nat.add_mul_div_right _ _ (Nat.zero_lt_of_lt hcol), Nat.div_eq_of_lt hcol, Nat.zero_add]
  rw [paintBacking, Nat.mul_add_mod', Nat.mod_eq_of_lt hcol, hdiv]

/-- The offset in the buffer of the pixel that is shown there. -/
def Window.offset (window : Window) (p : Pixel) : Nat :=
  (p.2 - (window.y + window.titleH).toNat) * window.w.toNat + (p.1 - window.x.toNat)

theorem blitted_apply {border : UInt32} (hdrawn : window.ownerDrawn = true) (hbacking : window.backing = some pixels)
    (hp : fb.Shows p) : guiDrawContents fb border window p =
      if window.ContentHas p then some (pixels (window.offset p)) else none := by
  simp only [guiDrawContents, hdrawn, hbacking, fbBlit_apply, hp.1, hp.2, true_and]
  rfl

theorem drawn_apply {border : UInt32} (hp : fb.Shows p) :
    guiDrawContents fb border (window.drawn pixels capacity paint) p =
      if window.ContentHas p then some ((paint (window.inContent p)).getD (pixels (window.offset p))) else none := by
  have hblit : guiDrawContents fb border (window.drawn pixels capacity paint) p =
      if window.ContentHas p then some (paintBacking window paint pixels (window.offset p)) else none :=
    blitted_apply rfl rfl hp
  rw [hblit]
  split
  · rename_i hcontent
    rw [Window.offset, paintBacking_at (by have := hcontent.1; have := hcontent.2.1; omega)]
    rfl
  · rfl

/-- A window that was drawn in before, and keeps its buffer. -/
theorem contents_kept {border : UInt32} (hdrawn : window.ownerDrawn = true) (hbacking : window.backing = some pixels)
    (hp : fb.Shows p) (hnot : window.ContentHas p → paint (window.inContent p) = none) :
    guiDrawContents fb border window p = guiDrawContents fb border (window.drawn pixels capacity paint) p := by
  rw [blitted_apply hdrawn hbacking hp, drawn_apply hp]
  split
  · rename_i hcontent
    rw [hnot hcontent, Option.getD_none]
  · rfl

/-- A window that was drawn in before, and gets another buffer. -/
theorem contents_outside {before : Nat → UInt32} {border : UInt32} (hdrawn : window.ownerDrawn = true)
    (hbacking : window.backing = some before) (hp : fb.Shows p) (hnot : ¬ window.ContentHas p) :
    guiDrawContents fb border window p = guiDrawContents fb border (window.drawn pixels capacity paint) p := by
  rw [blitted_apply hdrawn hbacking hp, drawn_apply hp, if_neg hnot, if_neg hnot]

/-- A window that is not drawn in before shows its background in the content, and nothing beside its rectangle. -/
theorem plain_apply {border : UInt32} (hcorner : CornerFits window.x window.y) (hplain : window.ownerDrawn = false)
    (hp : fb.Shows p) :
    (window.Covers p → window.x.toNat < p.1 → p.1 + 1 < window.x.toNat + window.w.toNat → window.y.toNat < p.2 →
      p.2 + 1 < window.y.toNat + window.h.toNat → guiDrawContents fb border window p = some window.bgColor) ∧
    (¬ window.Covers p → guiDrawContents fb border window p = none) := by
  have hone : (1 : UInt32).toNat = 1 := rfl
  have htwo : (2 : UInt32).toNat = 2 := rfl
  obtain ⟨hx31, hy31⟩ := hcorner
  have hx : (window.x + 1).toNat = window.x.toNat + 1 := add_toNat (n := 2 ^ 31) (by omega) (by norm_num)
  have hy : (window.y + 1).toNat = window.y.toNat + 1 := add_toNat (n := 2 ^ 31) (by omega) (by norm_num)
  have hcontents : guiDrawContents fb border window p = Paint.atop
      (if 2 < window.w ∧ 2 < window.h then
        fbFillrect fb (window.x + 1) (window.y + 1) (window.w - 2) (window.h - 2) window.bgColor
      else .clear) (fbFillrect fb window.x window.y window.w window.h border) p := by
    unfold guiDrawContents
    rw [hplain]
  rw [hcontents, Paint.atop_apply]
  constructor
  · rintro ⟨-, hxw, -, hyh⟩ hleft hright htop hbottom
    have hw : 2 < window.w := UInt32.lt_iff_toNat_lt.mpr (by omega)
    have hh : 2 < window.h := UInt32.lt_iff_toNat_lt.mpr (by omega)
    have hw2 := UInt32.toNat_sub_of_le _ _ (UInt32.le_of_lt hw)
    have hh2 := UInt32.toNat_sub_of_le _ _ (UInt32.le_of_lt hh)
    rw [if_pos ⟨hw, hh⟩, fbFillrect_some hp ⟨by omega, by omega, by omega, by omega⟩, Option.some_or]
  · intro hnot
    have hfill : fbFillrect fb window.x window.y window.w window.h border p = none := by
      rw [fbFillrect_apply, if_neg fun h => hnot h.2.2]
    rw [hfill, Option.or_none]
    split
    · rename_i hlarge
      have hw2 := UInt32.toNat_sub_of_le _ _ (UInt32.le_of_lt hlarge.1)
      have hh2 := UInt32.toNat_sub_of_le _ _ (UInt32.le_of_lt hlarge.2)
      rw [fbFillrect_apply, if_neg]
      rintro ⟨-, -, hx1, hx2, hy1, hy2⟩
      exact hnot ⟨by omega, by omega, by omega, by omega⟩
    · rfl

/-- A window that is not drawn in before. -/
theorem contents_first {border : UInt32} (hcorner : CornerFits window.x window.y) (hplain : window.ownerDrawn = false)
    (hstrip : window.title = [] → window.titleH.toNat ≤ 1) (hp : fb.Shows p)
    (hnot : window.ContentHas p → paint (window.inContent p) = none ∧ pixels (window.offset p) = window.bgColor ∧
      window.y.toNat + window.titleH.toNat < 2 ^ 32) :
    guiDrawContents fb border window p = guiDrawContents fb border (window.drawn pixels capacity paint) p ∨
      window.FrameAt fb p := by
  obtain ⟨hinside, houtside⟩ : (_ → _) ∧ (_ → guiDrawContents fb border window p = none) :=
    plain_apply hcorner hplain hp
  have hrow : p.2 < 2 ^ 32 := hp.2.trans fb.height.toNat_lt
  have hcontentH : (guiContentH window).toNat = window.h.toNat - window.titleH.toNat := by
    unfold guiContentH
    split
    · rename_i hlt
      exact UInt32.toNat_sub_of_le _ _ (UInt32.le_of_lt hlt)
    · rename_i hle
      rw [UInt32.toNat_zero]
      have := UInt32.le_iff_toNat_le.mp (UInt32.not_lt.mp hle)
      omega
  rw [drawn_apply hp]
  by_cases hcovers : window.Covers p
  · by_cases hedge : p.2 = window.y.toNat ∨ p.2 + 1 = window.y.toNat + window.h.toNat ∨ p.1 = window.x.toNat ∨
        p.1 + 1 = window.x.toNat + window.w.toNat
    · exact .inr fun border => .inl (guiDrawFrame_some border hp hcovers hedge)
    simp only [not_or] at hedge
    obtain ⟨hx, hxw, hy, hyh⟩ := hcovers
    by_cases hbar : p.2 < window.y.toNat + window.titleH.toNat
    · -- the bar is drawn over the plain window, and over the content above which it is
      have hne : window.title ≠ [] := fun hnil => by
        have := hstrip hnil
        omega
      refine .inr fun border => .inr ⟨UInt32.lt_iff_toNat_lt.mpr (by rw [UInt32.toNat_zero]; omega), hne, ?_⟩
      simp only [guiDrawBar, ne_eq, Paint.atop_none, not_and_or]
      refine .inr (.inr ?_)
      rw [fbFillrect_some hp ⟨hx, hxw, hy, hbar⟩]
      simp
    · have htop : (window.y + window.titleH).toNat = window.y.toNat + window.titleH.toNat :=
        add_toNat (not_lt.mp hbar) hrow
      have hcontent : window.ContentHas p := ⟨hx, hxw, by omega, by omega⟩
      obtain ⟨hnone, hpixel, -⟩ := hnot hcontent
      rw [hinside ⟨hx, hxw, hy, hyh⟩ (by omega) (by omega) (by omega) (by omega), if_pos hcontent, hnone,
        Option.getD_none, hpixel]
      exact .inl rfl
  · refine .inl ?_
    rw [houtside hcovers, if_neg]
    intro hcontent
    have hwrap := (hnot hcontent).2.2
    have htop : (window.y + window.titleH).toNat = window.y.toNat + window.titleH.toNat := add_toNat le_rfl hwrap
    obtain ⟨hx, hxw, hy, hyh⟩ := hcontent
    exact hcovers ⟨hx, hxw, by omega, by omega⟩

end Content

/-! ## Buffers -/

section Buffers

variable {window window' : Window} {kmalloc : Kmalloc} {bytes : UInt32}

/-- The corner of a window on the screen, and its buffer: it has one when it was drawn in, and until then only the
background is in it. -/
structure BufferOk (window : Window) : Prop where
  corner : CornerFits window.x window.y
  drawn : window.ownerDrawn = true → window.backing.isSome = true
  blank : window.ownerDrawn = false → ∀ pixels, window.backing = some pixels →
    ∀ n, 4 * n < window.backingCapacity.toNat → pixels n = window.bgColor

theorem guiContentH_toNat (window : Window) : (guiContentH window).toNat = window.h.toNat - window.titleH.toNat := by
  unfold guiContentH
  split
  · rename_i hlt
    exact UInt32.toNat_sub_of_le _ _ (UInt32.le_of_lt hlt)
  · rename_i hle
    have := UInt32.le_iff_toNat_le.mp (UInt32.not_lt.mp hle)
    rw [UInt32.toNat_zero]
    omega

/-- A content that can have a buffer. -/
theorem guiWindowBackingSize_bytes (h : guiWindowBackingSize window = some bytes) :
    0 < window.w.toNat ∧ 0 < (guiContentH window).toNat ∧
      bytes.toNat = window.w.toNat * (guiContentH window).toNat * 4 % 2 ^ 64 := by
  obtain ⟨hbar, hsize⟩ := guiWindowBackingSize_some h
  have hlt := UInt32.lt_iff_toNat_lt.mp hbar
  rw [askedBytes, contentBytes, ← guiContentH_toNat] at hsize
  refine ⟨?_, ?_, hsize.symm⟩
  · unfold guiWindowBackingSize at h
    split at h
    · cases h
    · rename_i hnonzero
      exact Nat.pos_of_ne_zero fun hzero => hnonzero (.inl (UInt32.toNat_inj.mp hzero))
  · rw [guiContentH_toNat]
    omega

theorem Window.Small.asks (hsmall : window.Small) (h : guiWindowBackingSize window = some bytes) :
    bytes.toNat = window.w.toNat * (guiContentH window).toNat * 4 := by
  rw [(guiWindowBackingSize_bytes h).2.2, Nat.mod_eq_of_lt]
  unfold Window.Small contentBytes at hsmall
  rw [guiContentH_toNat]
  exact hsmall

theorem guiFillBacking_blank (window : Window) (pixels : Nat → UInt32) (n : Nat) :
    (guiFillBacking window pixels n = window.bgColor ∨ guiFillBacking window pixels n = pixels n) ∧
      (n < window.w.toNat * (guiContentH window).toNat → guiFillBacking window pixels n = window.bgColor) := by
  have happly : guiFillBacking window pixels n =
      if n % window.w.toNat < window.w.toNat ∧ n / window.w.toNat < (guiContentH window).toNat then window.bgColor
      else pixels n := by
    rw [guiFillBacking, paintBacking, fbFillrect_apply]
    by_cases h : n % window.w.toNat < window.w.toNat ∧ n / window.w.toNat < (guiContentH window).toNat
    · rw [if_pos h, if_pos]
      · rfl
      · exact ⟨h.1, h.2, Nat.zero_le _, by simpa using h.1, Nat.zero_le _, by simpa using h.2⟩
    · rw [if_neg h, if_neg fun hall => h ⟨hall.1, hall.2.1⟩, Option.getD_none]
  rw [happly]
  constructor
  · split
    · exact .inl rfl
    · exact .inr rfl
  · intro hn
    rw [if_pos ⟨Nat.mod_lt _ (Nat.pos_of_lt_mul_right hn), Nat.div_lt_of_lt_mul hn⟩]

theorem bufferOk_fill {pixels : Nat → UInt32} (hcorner : CornerFits window.x window.y)
    (hblank : window.ownerDrawn = false → ∀ n, 4 * n < window.backingCapacity.toNat → pixels n = window.bgColor) :
    BufferOk { window with backing := some (guiFillBacking window pixels) } := by
  refine ⟨hcorner, fun _ => rfl, fun hplain filled hfilled n hn => ?_⟩
  cases hfilled
  rcases (guiFillBacking_blank window pixels n).1 with hbg | hsame
  · exact hbg
  · exact hsame.trans (hblank hplain n hn)

theorem bufferOk_alloc (hsize : guiWindowBackingSize window = some bytes) (hcorner : CornerFits window.x window.y)
    (h : guiWindowAllocBacking kmalloc bytes window = some window') : BufferOk window' := by
  obtain ⟨pixels, -, rfl⟩ := Option.map_eq_some_iff.mp h
  refine ⟨hcorner, fun _ => rfl, fun _ filled hfilled n hn => ?_⟩
  cases hfilled
  have hbytes := (guiWindowBackingSize_bytes hsize).2.2
  have hle := Nat.mod_le (window.w.toNat * (guiContentH window).toNat * 4) (2 ^ 64)
  dsimp only at hn
  exact (guiFillBacking_blank window pixels n).2 (by omega)

/-- What a window has after it has got a buffer. -/
theorem guiWindowEnsureBacking_some (h : guiWindowEnsureBacking kmalloc window = some window') :
    ∃ bytes pixels capacity, guiWindowBackingSize window = some bytes ∧
      window' = { window with backing := some pixels, backingCapacity := capacity } ∧
      (guiBackingFor bytes window = some pixels ∨ guiBackingFor bytes window = none ∧
        ∀ n < window.w.toNat * (guiContentH window).toNat, pixels n = window.bgColor) := by
  obtain ⟨bytes, hbytes, hrest⟩ := Option.bind_eq_some_iff.mp h
  split at hrest
  · rename_i pixels hkept
    cases hrest
    refine ⟨bytes, pixels, window.backingCapacity, hbytes, ?_, .inl hkept⟩
    rw [← (guiBackingFor_some hkept).1]
  · rename_i hnone
    obtain ⟨pixels, -, rfl⟩ := Option.map_eq_some_iff.mp hrest
    exact ⟨bytes, _, bytes, hbytes, rfl, .inr ⟨hnone, fun n hn => (guiFillBacking_blank window pixels n).2 hn⟩⟩

theorem guiWindowFreeBacking_none (window : Window) : (guiWindowFreeBacking window).backing = none := by
  unfold guiWindowFreeBacking
  split
  · rename_i hnone
    exact Option.isNone_iff_eq_none.mp hnone
  · rfl

theorem bufferOk_reset {x y w h : UInt32} (hcorner : CornerFits x y) (hw : BufferOk window)
    (hreset : guiWindowResetBacking kmalloc { window with x, y, w, h } = some window') : BufferOk window' := by
  obtain ⟨bytes, hbytes, hrest⟩ := Option.bind_eq_some_iff.mp hreset
  split at hrest
  · rename_i pixels hkept
    cases hrest
    exact bufferOk_fill hcorner fun hplain => hw.blank hplain pixels (guiBackingFor_some hkept).1
  · exact bufferOk_alloc hbytes hcorner hrest

/-- No buffer, on the screen. -/
theorem bufferOk_none (hcorner : CornerFits window.x window.y) (hplain : window.ownerDrawn = false)
    (hnone : window.backing = none) : BufferOk window := by
  refine ⟨hcorner, fun hdrawn => ?_, fun _ pixels hsome => ?_⟩
  · rw [hplain] at hdrawn
    cases hdrawn
  · rw [hnone] at hsome
    cases hsome

/-- Whatever the operations do, the buffers are in order. -/
theorem bufferRules : WindowRules BufferOk where
  init window := bufferOk_none ⟨Nat.two_pow_pos 31, Nat.two_pow_pos 31⟩ rfl rfl
  new ownerPid x y w h bgColor borderColor z title hcorner := by
    unfold guiNewWindow guiApplyBuiltinPolicy
    split <;> exact bufferOk_none hcorner rfl rfl
  cleared window := bufferOk_none ⟨Nat.two_pow_pos 31, Nat.two_pow_pos 31⟩ rfl (guiWindowFreeBacking_none window)
  events _ hw := ⟨hw.corner, hw.drawn, hw.blank⟩
  title _ hw := ⟨hw.corner, hw.drawn, hw.blank⟩
  titleBar _ hw := ⟨hw.corner, hw.drawn, hw.blank⟩
  flags _ hw := ⟨hw.corner, hw.drawn, hw.blank⟩
  place x y hcorner hw := ⟨hcorner, hw.drawn, hw.blank⟩
  minimized _ hw := ⟨hw.corner, hw.drawn, hw.blank⟩
  stack _ hw := ⟨hw.corner, hw.drawn, hw.blank⟩
  regions _ hw := ⟨hw.corner, hw.drawn, hw.blank⟩
  reset hcorner hw hreset := bufferOk_reset hcorner hw hreset
  draw paint hw hensure := by
    obtain ⟨bytes, pixels, capacity, -, rfl, -⟩ := guiWindowEnsureBacking_some hensure
    refine ⟨hw.corner, fun _ => rfl, fun hplain => ?_⟩
    cases hplain

end Buffers

/-! ## What a drawing changes -/

/-- A window that is not drawn in before has no rows of a title bar that only its background has drawn. -/
def StripFits (window : Window) : Prop := window.ownerDrawn = false → window.title = [] → window.titleH.toNat ≤ 1

/-- A drawing does not change what is beside it: the content starts in the window when it is blitted for the first
time, and a window that was drawn in keeps its buffer. -/
structure Steady (window : Window) : Prop where
  first : window.ownerDrawn = false → window.y.toNat + window.titleH.toNat < 2 ^ 32
  kept : window.ownerDrawn = true → contentBytes window.w window.h window.titleH ≤ window.backingCapacity.toNat

section Changes

variable {fb : FbSize} {window window' : Window} {kmalloc : Kmalloc} {paint : FbPaint} {p : Pixel}

theorem offset_lt (h : window.ContentHas p) : window.offset p < window.w.toNat * (guiContentH window).toNat := by
  obtain ⟨hx, hxw, hy, hyh⟩ := h
  have hrow : p.2 - (window.y + window.titleH).toNat + 1 ≤ (guiContentH window).toNat := by omega
  calc window.offset p
      < (p.2 - (window.y + window.titleH).toNat) * window.w.toNat + window.w.toNat := by
        unfold Window.offset
        omega
    _ = window.w.toNat * (p.2 - (window.y + window.titleH).toNat + 1) := by ring
    _ ≤ window.w.toNat * (guiContentH window).toNat := Nat.mul_le_mul_left _ hrow

/-- Outside of the region a drawing leaves the window as it looked. -/
theorem guiDrawContent_agree {Region : Pixel → Prop} {fuel : Nat} {focused : Bool} {whole : FbPaint}
    (hok : BufferOk window) (hensure : guiWindowEnsureBacking kmalloc window = some window')
    (hsmall : window.Visible → window.Small) (hstrip : window.Visible → StripFits window)
    (hregion : window.Visible → ∀ p, fb.Shows p → ¬ Region p → window.ContentHas p →
      paint (window.inContent p) = none ∧ Steady window)
    (h : guiDrawWindow fuel fb focused window = some whole) :
    ∃ whole', guiDrawWindow fuel fb focused (guiDrawContent window' paint) = some whole' ∧
      whole.Agree (fun p => fb.Shows p ∧ ¬ Region p) whole' := by
  obtain ⟨bytes, pixels, capacity, hbytes, rfl, hpixels⟩ := guiWindowEnsureBacking_some hensure
  show ∃ whole', guiDrawWindow fuel fb focused (window.drawn pixels capacity paint) = some whole' ∧ _
  refine guiDrawWindow_agree (fun hvisible border p hp => ?_) h
  obtain ⟨hshows, hout⟩ := hp
  cases hdrawn : window.ownerDrawn with
  | true =>
    obtain ⟨before, hbefore⟩ := Option.isSome_iff_exists.mp (hok.drawn hdrawn)
    by_cases hcontent : window.ContentHas p
    · obtain ⟨hnone, hsteady⟩ := hregion hvisible p hshows hout hcontent
      have hkept : guiBackingFor bytes window = some before := by
        have hle := (askedBytes_le window.w window.h window.titleH).trans (hsteady.kept hdrawn)
        rw [(guiWindowBackingSize_some hbytes).2] at hle
        rw [guiBackingFor, if_pos (UInt32.le_iff_toNat_le.mpr hle), hbefore]
      have hsame : pixels = before := by
        rcases hpixels with hsome | ⟨hnot, -⟩
        · exact Option.some.inj (hsome.symm.trans hkept)
        · rw [hkept] at hnot
          cases hnot
      exact .inl (contents_kept hdrawn (hsame ▸ hbefore) hshows fun _ => hnone)
    · exact .inl (contents_outside hdrawn hbefore hshows hcontent)
  | false =>
    refine contents_first hok.corner hdrawn (hstrip hvisible hdrawn) hshows fun hcontent => ?_
    have hsize := (hsmall hvisible).asks hbytes
    obtain ⟨hnone, hsteady⟩ := hregion hvisible p hshows hout hcontent
    have hoffset := offset_lt hcontent
    refine ⟨hnone, ?_, hsteady.first hdrawn⟩
    rcases hpixels with hkept | ⟨-, hfilled⟩
    · obtain ⟨hbacking, hle⟩ := guiBackingFor_some hkept
      have hle' := UInt32.le_iff_toNat_le.mp hle
      exact hok.blank hdrawn pixels hbacking _ (by omega)
    · exact hfilled _ hoffset

/-! The corner of the rectangle that is recorded. -/

theorem s32_add (a b : UInt32) : i32 (s32 a + s32 b) = s32 (a + b) := by
  have ha := a.toNat_lt
  have hb := b.toNat_lt
  unfold s32 i32
  rw [UInt32.toNat_add]
  omega

theorem damage_corner (hfb : fb.Fits) (hp : fb.Shows p) (hcontent : window.ContentHas p) {x y : Int}
    (hx : 0 ≤ x ∧ x ≤ (window.inContent p).1) (hy : 0 ≤ y ∧ y ≤ (window.inContent p).2) :
    i32 (s32 window.x + x) = window.x.toNat + x ∧
      i32 (i32 (s32 window.y + s32 window.titleH) + y) = (window.y + window.titleH).toNat + y := by
  obtain ⟨hleft, -, htop, -⟩ := hcontent
  obtain ⟨⟨-, hw⟩, -, hh⟩ := hfb
  obtain ⟨hp1, hp2⟩ := hp
  unfold Window.inContent at hx hy
  dsimp only at hx hy
  rw [s32_add, s32_toNat (k := window.x) (by omega), s32_toNat (by omega)]
  exact ⟨i32_of_fits (by omega) (by omega), i32_of_fits (by omega) (by omega)⟩

end Changes

/-! ## The calls -/

/-- The text has no pixel of a second line in the content, and its width is one of an `int32_t`. -/
def TextFits (window : Window) (x y : UInt32) (text : List UInt8) : Prop :=
  8 * text.length < 2 ^ 31 ∧
    ∀ q, TextInk text q → (guiWindowBackingFb window).Shows (pixelFrom x y q) → q.2 < fontGlyphHeight.toNat

/-- The rectangle covers the content. -/
def RectCovers (window : Window) (x y : Int) (w h : UInt32) : Prop :=
  x ≤ 0 ∧ y ≤ 0 ∧ window.w.toNat ≤ x + w.toNat ∧ (guiContentH window).toNat ≤ y + h.toNat

/-- If the call draws in a window that is seen, then it changes only what it draws, and records all of this. -/
def GuiOp.DrawFits (d : Desktop) : GuiOp → Prop
  | drawText kmalloc windowId x y text _ => ∀ i, d.usedWindow windowId = some i → (d.windows i).Visible →
      guiWindowEnsureBacking kmalloc (d.windows i) ≠ none →
      (d.windows i).Small ∧ StripFits (d.windows i) ∧ Steady (d.windows i) ∧
        (u32 (max x 0) < (d.windows i).w → u32 (max y 0) < guiContentH (d.windows i) →
          TextFits (d.windows i) (u32 (max x 0)) (u32 (max y 0)) text)
  | drawRect kmalloc windowId x y w h _ => ∀ i, d.usedWindow windowId = some i → (d.windows i).Visible →
      guiWindowEnsureBacking kmalloc (d.windows i) ≠ none → w ≠ 0 → h ≠ 0 →
      (d.windows i).Small ∧ StripFits (d.windows i) ∧ (Steady (d.windows i) ∨ RectCovers (d.windows i) x y w h)
  | clear kmalloc windowId _ => ∀ i, d.usedWindow windowId = some i → (d.windows i).Visible →
      guiWindowEnsureBacking kmalloc (d.windows i) ≠ none → (d.windows i).Small ∧ StripFits (d.windows i)
  | _ => True

/-- What a full redraw leaves on the screen changes only where the damage is then. -/
def Screen.Reports (s : Screen) (op : GuiOp) : Prop :=
  ∀ fuel full, guiDrawFull fuel s.desktop = some full →
    ∃ full', guiDrawFull fuel (s.step (.op op)).desktop = some full' ∧ ∀ screen p, s.desktop.fb.Shows p →
      full.on screen p ≠ full'.on screen p → (s.step (.op op)).damage.Covers p

/-- If the event is a drawing in a window, then its changes are recorded. -/
def Screen.DrawReported (s : Screen) : ScreenEvent → Prop
  | .op (.drawText kmalloc windowId x y text color) => s.Reports (.drawText kmalloc windowId x y text color)
  | .op (.drawRect kmalloc windowId x y w h color) => s.Reports (.drawRect kmalloc windowId x y w h color)
  | .op (.clear kmalloc windowId color) => s.Reports (.clear kmalloc windowId color)
  | _ => True

def Screen.DrawFits (s : Screen) : ScreenEvent → Prop
  | .op o => o.DrawFits s.desktop
  | .clearDirty => True

section Calls

variable {fb : FbSize} {s : Screen} {op : GuiOp} {i : WindowId} {window' : Window} {kmalloc : Kmalloc} {paint : FbPaint}
  {calls : List DamageCall}

theorem reports_same (h : (op.run s.desktop).desktop = s.desktop) : s.Reports op := by
  intro fuel full hfull
  refine ⟨full, ?_, fun _ p _ hne => absurd rfl hne⟩
  rw [Screen.step, h]
  exact hfull

/-- A call that draws, with a region outside of which nothing changes and that is all damage. -/
theorem reports_region (hok : s.Ok BufferOk fb) (Region : Pixel → Prop)
    (hensure : guiWindowEnsureBacking kmalloc (s.desktop.windows i) = some window')
    (hdesktop : (op.run s.desktop).desktop = s.desktop.setWindow i (guiDrawContent window' paint))
    (hsmall : (s.desktop.windows i).Visible → (s.desktop.windows i).Small)
    (hstrip : (s.desktop.windows i).Visible → StripFits (s.desktop.windows i))
    (hregion : (s.desktop.windows i).Visible → ∀ p, s.desktop.fb.Shows p → ¬ Region p →
      (s.desktop.windows i).ContentHas p → paint ((s.desktop.windows i).inContent p) = none ∧
        Steady (s.desktop.windows i))
    (hdamage : ∀ p, s.desktop.fb.Shows p → Region p → (s.step (.op op)).damage.Covers p) : s.Reports op := by
  intro fuel full hfull
  have hframe : SameFrame (guiDrawContent window' paint) (s.desktop.windows i) := by
    obtain ⟨bytes, pixels, capacity, -, rfl, -⟩ := guiWindowEnsureBacking_some hensure
    exact ⟨rfl, rfl, rfl, rfl, rfl, rfl, rfl⟩
  obtain ⟨full', hfull', hagree⟩ := guiDrawFull_agree hframe
    (fun _ _ => guiDrawContent_agree (hok.desktop.windows i) hensure hsmall hstrip hregion) hfull
  refine ⟨full', ?_, fun screen p hp hne => ?_⟩
  · rw [Screen.step, hdesktop]
    exact hfull'
  · by_contra hnot
    have hsame : full p = full' p := hagree p ⟨hp, fun hin => hnot (hdamage p hp hin)⟩
    exact hne (by rw [Paint.on, Paint.on, hsame])

/-- A drawing in a window that is not seen changes nothing on the screen. -/
theorem hidden_reports (hok : s.Ok BufferOk fb) (hhidden : ¬(s.desktop.windows i).Visible)
    (hensure : guiWindowEnsureBacking kmalloc (s.desktop.windows i) = some window')
    (hdesktop : ∃ paint, (op.run s.desktop).desktop = s.desktop.setWindow i (guiDrawContent window' paint)) :
    s.Reports op := by
  obtain ⟨paint, hdesktop⟩ := hdesktop
  exact reports_region hok (fun _ => False) hensure hdesktop (fun h => absurd h hhidden) (fun h => absurd h hhidden)
    (fun h => absurd h hhidden) fun _ _ => False.elim

/-- The rectangle of a call is damage after it. -/
theorem step_covers (hfb : fb.Fits) (hok : s.Ok BufferOk fb) {x y w h : Int} {p : Pixel}
    (hcalls : (op.run s.desktop).calls = [.add x y w h]) (hargs : Int32Args x y w h) (hp : s.desktop.fb.Shows p)
    (harea : AreaHas x y w h p) : (s.step (.op op)).damage.Covers p := by
  have hsize := hok.size
  subst hsize
  have hadd := (guiDamageAdd_ok hfb hok.damage hargs).2 p hp (.inr harea)
  rw [Screen.step, hcalls]
  exact hadd

/-- The sides of a content that has a buffer. -/
theorem content_small {window : Window} (hsmall : window.Small)
    (h : guiWindowEnsureBacking kmalloc window = some window') :
    window.w.toNat < 2 ^ 30 ∧ (guiContentH window).toNat < 2 ^ 30 := by
  obtain ⟨bytes, -, -, hbytes, -⟩ := guiWindowEnsureBacking_some h
  obtain ⟨hw, hh, -⟩ := guiWindowBackingSize_bytes hbytes
  have hsize := hsmall.asks hbytes
  have hlt := bytes.toNat_lt
  have hw' := Nat.le_mul_of_pos_right window.w.toNat hh
  have hh' := Nat.le_mul_of_pos_left (guiContentH window).toNat hw
  omega

theorem content_pos {window : Window} (h : guiWindowEnsureBacking kmalloc window = some window') :
    0 < window.w.toNat ∧ 0 < (guiContentH window).toNat := by
  obtain ⟨bytes, -, -, hbytes, -⟩ := guiWindowEnsureBacking_some h
  obtain ⟨hw, hh, -⟩ := guiWindowBackingSize_bytes hbytes
  exact ⟨hw, hh⟩

/-- A window that gets a buffer stays where it is. -/
theorem ensured_same {window : Window} (h : guiWindowEnsureBacking kmalloc window = some window') :
    window'.x = window.x ∧ window'.y = window.y ∧ window'.titleH = window.titleH ∧ window'.w = window.w ∧
      guiContentH window' = guiContentH window ∧ guiWindowBackingFb window' = guiWindowBackingFb window := by
  obtain ⟨bytes, pixels, capacity, -, rfl, -⟩ := guiWindowEnsureBacking_some h
  exact ⟨rfl, rfl, rfl, rfl, rfl, rfl⟩

/-- The rectangle that is recorded for a part of the content. -/
theorem content_area {window : Window} (hfb : fb.Fits) {p : Pixel} (hp : fb.Shows p) (hcontent : window.ContentHas p)
    {x y w h : Int} (hx : 0 ≤ x ∧ x ≤ (window.inContent p).1 ∧ (window.inContent p).1 < x + w)
    (hy : 0 ≤ y ∧ y ≤ (window.inContent p).2 ∧ (window.inContent p).2 < y + h) :
    AreaHas (i32 (s32 window.x + x)) (i32 (i32 (s32 window.y + s32 window.titleH) + y)) w h p := by
  obtain ⟨hleft, htop⟩ := damage_corner hfb hp hcontent ⟨hx.1, hx.2.1⟩ ⟨hy.1, hy.2.1⟩
  obtain ⟨hx1, -, hy1, -⟩ := hcontent
  rw [hleft, htop]
  unfold Window.inContent at hx hy
  dsimp only at hx hy
  exact ⟨by omega, by omega, by omega, by omega⟩

/-- The words of a corner. -/
theorem i32_s32 (k : UInt32) : i32 (s32 k + 0) = s32 k := by
  obtain ⟨hlow, hhigh⟩ := isInt32_s32 k
  rw [Int.add_zero, i32_of_fits hlow hhigh]

/-- A call that draws a part of the content, and records a rectangle around it. -/
theorem drawn_reports (hfb : fb.Fits) (hok : s.Ok BufferOk fb) (Drawn : Pixel → Prop) {x y w h : Int}
    (hensure : guiWindowEnsureBacking kmalloc (s.desktop.windows i) = some window')
    (hrun : op.run s.desktop = ⟨(), s.desktop.setWindow i (guiDrawContent window' paint),
      [.add (i32 (s32 window'.x + x)) (i32 (i32 (s32 window'.y + s32 window'.titleH) + y)) w h]⟩)
    (hw : IsInt32 w) (hh : IsInt32 h) (hsmall : (s.desktop.windows i).Small)
    (hstrip : (s.desktop.windows i).Visible → StripFits (s.desktop.windows i))
    (hpaint : ∀ q, paint q ≠ none → Drawn q)
    (hsteady : (s.desktop.windows i).Visible → Steady (s.desktop.windows i) ∨
      ∀ q : Pixel, q.1 < (s.desktop.windows i).w.toNat → q.2 < (guiContentH (s.desktop.windows i)).toNat → Drawn q)
    (harea : (s.desktop.windows i).Visible → ∀ q, Drawn q → 0 ≤ x ∧ 0 ≤ y ∧ AreaHas x y w h q) : s.Reports op := by
  obtain ⟨hx, hy, htitleH, -⟩ := ensured_same hensure
  refine reports_region hok (fun p => (s.desktop.windows i).Visible ∧ (s.desktop.windows i).ContentHas p ∧
      Drawn ((s.desktop.windows i).inContent p)) hensure (by rw [hrun]) (fun _ => hsmall) hstrip
    (fun hvisible p _ hnot hcontent => ?_)
    fun p hp hin => step_covers hfb hok (by rw [hrun]) ⟨isInt32_i32 _, isInt32_i32 _, hw, hh⟩ hp ?_
  · have hout : ¬ Drawn ((s.desktop.windows i).inContent p) := fun hdrawn => hnot ⟨hvisible, hcontent, hdrawn⟩
    refine ⟨by_contra fun hne => hout (hpaint _ hne), (hsteady hvisible).resolve_right fun hall => hout (hall _ ?_ ?_)⟩
    · obtain ⟨hx1, hx2, -⟩ := hcontent
      unfold Window.inContent
      dsimp only
      omega
    · obtain ⟨-, -, hy1, hy2⟩ := hcontent
      unfold Window.inContent
      dsimp only
      omega
  · obtain ⟨hvisible, hcontent, hdrawn⟩ := hin
    obtain ⟨hx0, hy0, hleft, hright, htop, hbottom⟩ := harea hvisible _ hdrawn
    rw [hx, hy, htitleH]
    exact content_area (hok.size ▸ hfb) hp hcontent ⟨hx0, hleft, hright⟩ ⟨hy0, htop, hbottom⟩

/-- A call that draws nothing, but counts as a drawing. -/
theorem nothing_reports (hok : s.Ok BufferOk fb)
    (hensure : guiWindowEnsureBacking kmalloc (s.desktop.windows i) = some window')
    (hrun : op.run s.desktop = ⟨(), s.desktop.setWindow i (guiDrawContent window' .clear), []⟩)
    (hsmall : (s.desktop.windows i).Small)
    (hfits : (s.desktop.windows i).Visible → StripFits (s.desktop.windows i) ∧ Steady (s.desktop.windows i)) :
    s.Reports op :=
  reports_region hok (fun _ => False) hensure (by rw [hrun]) (fun _ => hsmall) (fun hvisible => (hfits hvisible).1)
    (fun hvisible _ _ _ _ => ⟨rfl, (hfits hvisible).2⟩) fun _ _ => False.elim

theorem clear_reports (hfb : fb.Fits) (hok : s.Ok BufferOk fb) {windowId color : UInt32}
    (hfits : (GuiOp.clear kmalloc windowId color).DrawFits s.desktop) : s.Reports (.clear kmalloc windowId color) := by
  cases hused : s.desktop.usedWindow windowId with
  | none => exact reports_same (by simp [GuiOp.run, Step.unit, guiWindowClear, hused, Step.fail])
  | some i =>
    cases hensure : guiWindowEnsureBacking kmalloc (s.desktop.windows i) with
    | none => exact reports_same (by simp [GuiOp.run, Step.unit, guiWindowClear, hused, hensure, Step.fail])
    | some window' =>
      by_cases hvisible : (s.desktop.windows i).Visible
      case neg =>
        refine hidden_reports hok hvisible hensure ?_
        simp only [GuiOp.run, Step.unit, guiWindowClear, hused, hensure]
        exact ⟨_, rfl⟩
      obtain ⟨hsmall, hstrip⟩ := hfits i hused hvisible (by simp [hensure])
      obtain ⟨hw, hh⟩ := content_small hsmall hensure
      obtain ⟨-, -, -, hwidth, hcontentH, hbackingFb⟩ := ensured_same hensure
      have hrow : i32 (i32 (s32 window'.y + s32 window'.titleH) + 0) = i32 (s32 window'.y + s32 window'.titleH) := by
        rw [s32_add, i32_s32]
      have hcall : (GuiOp.clear kmalloc windowId color).run s.desktop =
        ⟨(), s.desktop.setWindow i (guiDrawContent window'
          (fbFillrect (guiWindowBackingFb (s.desktop.windows i)) 0 0 (s.desktop.windows i).w
            (guiContentH (s.desktop.windows i)) color)),
          [.add (i32 (s32 window'.x + 0)) (i32 (i32 (s32 window'.y + s32 window'.titleH) + 0))
            (s32 (s.desktop.windows i).w)
            (s32 (guiContentH (s.desktop.windows i)))]⟩ := by
        rw [i32_s32, hrow]
        simp [GuiOp.run, Step.unit, guiWindowClear, hused, hensure, hwidth, hcontentH, hbackingFb]
      refine drawn_reports hfb hok (fun q => q.1 < (s.desktop.windows i).w.toNat ∧
          q.2 < (guiContentH (s.desktop.windows i)).toNat) hensure hcall (isInt32_s32 _) (isInt32_s32 _)
            hsmall (fun _ => hstrip) ?paint
        (fun _ => .inr fun q hx hy => ⟨hx, hy⟩) ?area
      case paint =>
        intro q hne
        rw [fbFillrect_apply] at hne
        split at hne
        · rename_i hrect
          exact ⟨hrect.1, hrect.2.1⟩
        · exact absurd rfl hne
      case area =>
        rintro - q ⟨hx, hy⟩
        rw [s32_toNat (by omega), s32_toNat (by omega)]
        exact ⟨le_rfl, le_rfl, by omega, by omega, by omega, by omega⟩

theorem drawRect_reports (hfb : fb.Fits) (hok : s.Ok BufferOk fb) {windowId : UInt32} {x y : Int} {w h color : UInt32}
    (hfits : (GuiOp.drawRect kmalloc windowId x y w h color).DrawFits s.desktop) :
    s.Reports (.drawRect kmalloc windowId x y w h color) := by
  cases hused : s.desktop.usedWindow windowId with
  | none => exact reports_same (by simp [GuiOp.run, Step.unit, guiWindowDrawRect, hused, Step.fail])
  | some i =>
    by_cases hempty : w = 0 ∨ h = 0
    · exact reports_same (by simp [GuiOp.run, Step.unit, guiWindowDrawRect, hused, hempty])
    cases hensure : guiWindowEnsureBacking kmalloc (s.desktop.windows i) with
    | none => exact reports_same (by simp [GuiOp.run, Step.unit, guiWindowDrawRect, hused, hempty, hensure, Step.fail])
    | some window' =>
      have hcall : (GuiOp.drawRect kmalloc windowId x y w h color).run s.desktop =
          (guiWindowDrawRect kmalloc windowId x y w h color s.desktop).unit := rfl
      unfold guiWindowDrawRect at hcall
      rw [hused] at hcall
      dsimp only at hcall
      rw [if_neg hempty, hensure] at hcall
      dsimp only at hcall
      by_cases hvisible : (s.desktop.windows i).Visible
      case neg =>
        refine hidden_reports hok hvisible hensure ?_
        rw [hcall]
        split
        · exact ⟨_, rfl⟩
        · exact ⟨_, rfl⟩
      obtain ⟨hsmall, hstrip, hsteady⟩ := hfits i hused hvisible (by simp [hensure]) (fun h => hempty (.inl h))
        fun h => hempty (.inr h)
      obtain ⟨hw, hh⟩ := content_small hsmall hensure
      obtain ⟨-, -, -, hwidth, hcontentH, hbackingFb⟩ := ensured_same hensure
      obtain ⟨hwpos, hhpos⟩ := content_pos hensure
      rw [hwidth, hcontentH, hbackingFb] at hcall
      by_cases hnothing : min (x + w.toNat) (s.desktop.windows i).w.toNat ≤ max x 0 ∨
          min (y + h.toNat) (guiContentH (s.desktop.windows i)).toNat ≤ max y 0
      · rw [if_pos hnothing] at hcall
        refine nothing_reports hok hensure hcall hsmall fun _ => ⟨hstrip, hsteady.resolve_right ?_⟩
        rintro ⟨hx, hy, hright, hbottom⟩
        omega
      rw [if_neg hnothing] at hcall
      have hleft : i32 (max x 0) = max x 0 := i32_of_fits (by omega) (by omega)
      have htop : i32 (max y 0) = max y 0 := i32_of_fits (by omega) (by omega)
      have hright : i32 (min (x + w.toNat) (s.desktop.windows i).w.toNat - max x 0) =
          min (x + w.toNat) (s.desktop.windows i).w.toNat - max x 0 := i32_of_fits (by omega) (by omega)
      have hbottom : i32 (min (y + h.toNat) (guiContentH (s.desktop.windows i)).toNat - max y 0) =
          min (y + h.toNat) (guiContentH (s.desktop.windows i)).toNat - max y 0 := i32_of_fits (by omega) (by omega)
      refine drawn_reports hfb hok (fun q => max x 0 ≤ q.1 ∧ max y 0 ≤ q.2 ∧ q.1 < x + w.toNat ∧ q.2 < y + h.toNat ∧
          q.1 < (s.desktop.windows i).w.toNat ∧ q.2 < (guiContentH (s.desktop.windows i)).toNat) hensure hcall
        (isInt32_i32 _) (isInt32_i32 _) hsmall (fun _ => hstrip) ?paint ?steady ?area
      case paint =>
        intro q hne
        rw [fbFillrect_apply] at hne
        split at hne
        · rename_i hrect
          obtain ⟨hq1, hq2, hx1, hx2, hy1, hy2⟩ := hrect
          rw [u32_toNat (by omega) (by omega)] at hx1 hx2 hy1 hy2
          rw [u32_toNat (by omega) (by omega)] at hx2 hy2
          exact ⟨by omega, by omega, by omega, by omega, hq1, hq2⟩
        · exact absurd rfl hne
      case steady =>
        refine fun _ => hsteady.imp_right ?_
        rintro ⟨hx, hy, hw, hh⟩ q hq1 hq2
        omega
      case area =>
        rintro - q ⟨hx1, hy1, hx2, hy2, hq1, hq2⟩
        rw [hleft, htop, hright, hbottom]
        exact ⟨by omega, by omega, by omega, by omega, by omega, by omega⟩

theorem drawText_reports (hfb : fb.Fits) (hok : s.Ok BufferOk fb) {windowId : UInt32} {x y : Int} {text : List UInt8}
    {color : UInt32} (hx : IsInt32 x) (hy : IsInt32 y)
    (hfits : (GuiOp.drawText kmalloc windowId x y text color).DrawFits s.desktop) :
    s.Reports (.drawText kmalloc windowId x y text color) := by
  cases hused : s.desktop.usedWindow windowId with
  | none => exact reports_same (by simp [GuiOp.run, Step.unit, guiWindowDrawText, hused, Step.fail])
  | some i =>
    cases hensure : guiWindowEnsureBacking kmalloc (s.desktop.windows i) with
    | none => exact reports_same (by simp [GuiOp.run, Step.unit, guiWindowDrawText, hused, hensure, Step.fail])
    | some window' =>
      have hcall : (GuiOp.drawText kmalloc windowId x y text color).run s.desktop =
          (guiWindowDrawText kmalloc windowId x y text color s.desktop).unit := rfl
      unfold guiWindowDrawText at hcall
      rw [hused] at hcall
      dsimp only at hcall
      rw [hensure] at hcall
      dsimp only at hcall
      by_cases hvisible : (s.desktop.windows i).Visible
      case neg =>
        refine hidden_reports hok hvisible hensure ?_
        rw [hcall]
        split
        · exact ⟨_, rfl⟩
        · exact ⟨_, rfl⟩
      obtain ⟨hsmall, hstrip, hsteady, htext⟩ := hfits i hused hvisible (by simp [hensure])
      obtain ⟨hw, hh⟩ := content_small hsmall hensure
      obtain ⟨-, -, -, hwidth, hcontentH, hbackingFb⟩ := ensured_same hensure
      rw [hwidth, hcontentH, hbackingFb] at hcall
      by_cases hout : (s.desktop.windows i).w ≤ u32 (max x 0) ∨ guiContentH (s.desktop.windows i) ≤ u32 (max y 0)
      · rw [if_pos hout] at hcall
        exact nothing_reports hok hensure hcall hsmall fun _ => ⟨hstrip, hsteady⟩
      rw [if_neg hout] at hcall
      rw [not_or, UInt32.not_le, UInt32.not_le] at hout
      unfold IsInt32 at hx hy
      have hx0 : (u32 (max x 0)).toNat = (max x 0).toNat := u32_toNat (by omega) (by omega)
      have hy0 : (u32 (max y 0)).toNat = (max y 0).toNat := u32_toNat (by omega) (by omega)
      obtain ⟨hxw, hyh⟩ := And.intro (UInt32.lt_iff_toNat_lt.mp hout.1) (UInt32.lt_iff_toNat_lt.mp hout.2)
      rw [hx0] at hxw
      rw [hy0] at hyh
      refine drawn_reports hfb hok (fun q => (guiWindowBackingFb (s.desktop.windows i)).Shows q ∧
          ∃ q', TextInk text q' ∧ q = pixelFrom (u32 (max x 0)) (u32 (max y 0)) q') hensure hcall ?width ?height
        hsmall (fun _ => hstrip) ?paint (fun _ => .inl hsteady) ?area
      case width =>
        split
        · exact isInt32_i32 _
        · exact isInt32_s32 _
      case height =>
        split
        · exact isInt32_i32 _
        · exact isInt32_s32 _
      case paint =>
        exact fun q hne => fontDrawText_ink.mp hne
      case area =>
        rintro - q ⟨hshows, q', hink, rfl⟩
        obtain ⟨hlength, hline⟩ := htext hout.1 hout.2
        have hbytes : 8 * text.length < 2 ^ 32 := by omega
        obtain ⟨hinWidth, hwidest⟩ := fontTextWidth_spec hbytes
        have hcol := hinWidth q' hink
        have hrow : q'.2 < 8 := hline q' hink hshows
        obtain ⟨hwide, hhigh⟩ : _ < (s.desktop.windows i).w.toNat ∧
          _ < (guiContentH (s.desktop.windows i)).toNat := hshows
        have hpixel : pixelFrom (u32 (max x 0)) (u32 (max y 0)) q' =
          ((max x 0).toNat + q'.1, (max y 0).toNat + q'.2) := by
          have hx2 : (u32 (max x 0)).toNat + q'.1 < 2 ^ 32 := by omega
          have hy2 : (u32 (max y 0)).toNat + q'.2 < 2 ^ 32 := by omega
          rw [pixelFrom_eq hx2 hy2, hx0, hy0]
        rw [hpixel] at hwide hhigh ⊢
        dsimp only at hwide hhigh
        have hglyph : s32 fontGlyphHeight = 8 := by decide
        rw [AreaHas, hglyph, s32_toNat (k := fontTextWidth text) (by omega),
          s32_toNat (k := (s.desktop.windows i).w) (by omega), s32_toNat (k := guiContentH _) (by omega)]
        dsimp only
        refine ⟨by omega, by omega, by omega, ?_, by omega, ?_⟩
        · split
          · rw [i32_of_fits (n := (s.desktop.windows i).w.toNat - max x 0) (by omega) (by omega)]
            omega
          · omega
        · split
          · rw [i32_of_fits (n := (guiContentH (s.desktop.windows i)).toNat - max y 0) (by omega) (by omega)]
            omega
          · omega

/-- A call that is a drawing reports its changes. -/
theorem drawReported (hfb : fb.Fits) (hok : s.Ok BufferOk fb) {e : ScreenEvent} (he : e.Typed) (hfits : s.DrawFits e) :
    s.DrawReported e := by
  cases e with
  | clearDirty => exact trivial
  | op op =>
    cases op with
    | drawText kmalloc windowId x y text color => exact drawText_reports hfb hok he.1 he.2 hfits
    | drawRect kmalloc windowId x y w h color => exact drawRect_reports hfb hok hfits
    | clear kmalloc windowId color => exact clear_reports hfb hok hfits
    | _ => exact trivial

/-- In every run from `gui_init_for_framebuffer` on, a call that draws in a window, and fits, reports its changes. -/
theorem screenRun_reports (hfb : fb.Fits) (d : Desktop) {events : List ScreenEvent} (htyped : ∀ e ∈ events, e.Typed) :
    EachStep Screen.step (fun s e => s.DrawFits e → s.DrawReported e) (Screen.init fb d) events := by
  have hinit : (Screen.init fb d).Ok BufferOk fb := screenInit_ok bufferRules d
  generalize Screen.init fb d = s at hinit
  induction events generalizing s with
  | nil => exact trivial
  | cons e events ih =>
    obtain ⟨he, hrest⟩ := List.forall_mem_cons.mp htyped
    exact ⟨drawReported hfb hinit he, ih hrest _ (hinit.step bufferRules hfb he)⟩

end Calls

/-- A window of twenty by twenty-four that is drawn in, on a clean screen. -/
def drawnScreen : List ScreenEvent :=
  [.op (.create 1 4 4 20 24 0 0 none), .op (.clear (fun _ => some fun _ => 0) 0 0), .clearDirty]

/-- A line of one character, and a rectangle. -/
theorem screenRun_reports_sample :
    EachStep Screen.step (fun s e => s.DrawFits e → s.DrawReported e) (Screen.init ⟨32, 32⟩ (sampleDesktop ⟨32, 32⟩))
      (drawnScreen ++ [.op (.drawText (fun _ => some fun _ => 0) 0 3 (-2) [65] 0xffffffff),
        .op (.drawRect (fun _ => some fun _ => 0) 0 (-1) 5 12 40 0xff333333)]) := by
  refine screenRun_reports ⟨by decide, by decide⟩ (sampleDesktop ⟨32, 32⟩) ?_
  simp [drawnScreen, ScreenEvent.Typed, GuiOp.Typed, IsInt32]

/-- The second of two lines is below the rectangle that is recorded. -/
theorem second_line_unreported : ¬ EachStep Screen.step Screen.DrawReported
    (Screen.init ⟨32, 32⟩ (sampleDesktop ⟨32, 32⟩))
    (drawnScreen ++ [.op (.drawText (fun _ => some fun _ => 0) 0 0 0 [65, 10, 65] 0xffffffff)]) := by
  obtain ⟨s, hs⟩ : ∃ s, s = drawnScreen.foldl Screen.step (Screen.init ⟨32, 32⟩ (sampleDesktop ⟨32, 32⟩)) := ⟨_, rfl⟩
  rw [eachStep_append, ← hs]
  rintro ⟨-, hreports, -⟩
  have hbefore : (guiDrawFull 40 s.desktop).map (fun full => full (6, 14)) = some (some 0) := by
    rw [hs]
    decide +kernel
  have hafter : (guiDrawFull 40 (s.step (.op (.drawText (fun _ => some fun _ => 0) 0 0 0
    [65, 10, 65] 0xffffffff))).desktop).map
      (fun full => full (6, 14)) = some (some 0xffffffff) := by
    rw [hs]
    decide +kernel
  obtain ⟨full, hfull, hblack⟩ := Option.map_eq_some_iff.mp hbefore
  obtain ⟨shown, hshown, hwhite⟩ := Option.map_eq_some_iff.mp hafter
  obtain ⟨full', hfull', hcovered⟩ := hreports 40 full hfull
  cases hshown.symm.trans hfull'
  have hshows : s.desktop.fb.Shows (6, 14) := by
    rw [hs]
    exact ⟨by decide, by decide⟩
  have hchanged : full.on (fun _ => 0) (6, 14) ≠ shown.on (fun _ => 0) (6, 14) := by
    rw [Paint.on_some hblack, Paint.on_some hwhite]
    decide
  have hdamage : (s.step (.op (.drawText (fun _ => some fun _ => 0) 0 0 0 [65, 10, 65] 0xffffffff))).damage.full =
    false ∧
      (s.step (.op (.drawText (fun _ => some fun _ => 0) 0 0 0 [65, 10, 65] 0xffffffff))).damage.rects =
        [⟨4, 4, 8, 8⟩] := by
    rw [hs]
    decide +kernel
  have hcovers := hcovered (fun _ => 0) (6, 14) hshows hchanged
  rw [Damage.Covers, hdamage.1, hdamage.2] at hcovers
  simp [DamageRect.Has, i32] at hcovers

end Armonios
