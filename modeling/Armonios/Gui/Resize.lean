import Armonios.Gui.Damage

/-!
# Resizes that fail

`gui_resize_window` gives the window its new bounds and refreshes the cursor, and only then looks for a buffer for
the content. Where there is none it puts the bounds back, but not the shape of the cursor.

* `guiResizeWindow_atomic`: when a resize that fails leaves the desktop as it was;
* `screenRun_resizes`: the same in a run, with the damage.
-/

namespace Armonios

/-- The shape that the windows give to the cursor. -/
def Desktop.shapeUnderCursor (d : Desktop) : UInt8 :=
  (guiHitTest d.cursor.x d.cursor.y d).elim guiCursorArrow fun hit => guiShapeOver (d.windows hit) d.cursor

/-- The desktop with other bounds of a window. -/
def Desktop.setBounds (i : WindowId) (x y w h : UInt32) (d : Desktop) : Desktop :=
  d.setWindow i { d.windows i with x, y, w, h }

/-- There is no buffer for the content: it has no row, or it is too large, or the one that the window has is too small
and there is no other. -/
def NoBuffer (kmalloc : Kmalloc) (window : Window) (w h : UInt32) : Prop :=
  h ≤ window.titleH ∨ 2 ^ 32 ≤ askedBytes w h window.titleH ∨
    (window.backing = none ∨ window.backingCapacity.toNat < askedBytes w h window.titleH) ∧
      kmalloc (UInt32.ofNat (askedBytes w h window.titleH)) = none

/-- The bounds are right for the window in `i` and change its size, but there is no buffer. -/
structure ResizeStops (kmalloc : Kmalloc) (windowId x y w h : UInt32) (d : Desktop) (i : WindowId) : Prop where
  least : 2 ≤ w ∧ 2 ≤ h
  fits : GuiRectFitsFramebuffer d.fb x y w h
  window : d.usedWindow windowId = some i
  changed : ¬ ((d.windows i).w = w ∧ (d.windows i).h = h)
  noBuffer : NoBuffer kmalloc (d.windows i) w h

/-- Where there is no buffer, the cursor already has the shape that the new bounds give to it. -/
def ShapeStays (kmalloc : Kmalloc) (windowId x y w h : UInt32) (d : Desktop) : Prop :=
  ∀ i, ResizeStops kmalloc windowId x y w h d i → (d.setBounds i x y w h).shapeUnderCursor = d.cursor.shape

variable {d : Desktop} {i : WindowId} {kmalloc : Kmalloc} {windowId x y w h : UInt32}

/-! ## The buffer -/

theorem guiWindowBackingSize_none (window : Window) (hw : 2 ≤ window.w) (hh : 2 ≤ window.h) :
    guiWindowBackingSize window = none ↔
      window.h ≤ window.titleH ∨ 2 ^ 32 ≤ askedBytes window.w window.h window.titleH := by
  have hw0 : window.w ≠ 0 := by
    rintro h0
    rw [h0] at hw
    exact absurd hw (by decide)
  have hh0 : window.h ≠ 0 := by
    rintro h0
    rw [h0] at hh
    exact absurd hh (by decide)
  by_cases hbar : window.titleH < window.h
  · have hcontent : (guiContentH window).toNat = window.h.toNat - window.titleH.toNat := by
      rw [guiContentH, if_pos hbar, UInt32.toNat_sub_of_le _ _ (UInt32.le_of_lt hbar)]
    have hrow : guiContentH window ≠ 0 := by
      intro h0
      rw [h0, UInt32.toNat_zero] at hcontent
      have := UInt32.lt_iff_toNat_lt.mp hbar
      omega
    have hno : ¬ window.h ≤ window.titleH := UInt32.not_le.mpr hbar
    simp [guiWindowBackingSize, askedBytes, contentBytes, hw0, hh0, hrow, hno, hcontent]
  · have hle : window.h ≤ window.titleH := UInt32.not_lt.mp hbar
    simp [guiWindowBackingSize, guiContentH, hbar, hle]

theorem guiBackingFor_none (window : Window) (bytes : UInt32) :
    guiBackingFor bytes window = none ↔ window.backing = none ∨ window.backingCapacity.toNat < bytes.toNat := by
  unfold guiBackingFor
  split
  · rename_i hle
    have hno := UInt32.le_iff_toNat_le.mp hle
    constructor
    · exact .inl
    · rintro (hnone | hlt)
      · exact hnone
      · omega
  · rename_i hgt
    exact iff_of_true rfl (.inr (UInt32.lt_iff_toNat_lt.mp (UInt32.not_le.mp hgt)))

/-- A window with the new bounds gets no buffer. -/
theorem guiWindowResetBacking_none (window : Window) (hw : 2 ≤ w) (hh : 2 ≤ h) :
    guiWindowResetBacking kmalloc { window with x, y, w, h } = none ↔ NoBuffer kmalloc window w h := by
  have hsize := guiWindowBackingSize_none { window with x, y, w, h } hw hh
  dsimp only at hsize
  unfold guiWindowResetBacking NoBuffer
  cases hbytes : guiWindowBackingSize { window with x, y, w, h } with
  | none =>
    refine iff_of_true rfl ?_
    rcases hsize.mp hbytes with hbar | hlarge
    · exact .inl hbar
    · exact .inr (.inl hlarge)
  | some bytes =>
    obtain ⟨-, hbytes'⟩ := guiWindowBackingSize_some hbytes
    have hno : ¬ (h ≤ window.titleH ∨ 2 ^ 32 ≤ askedBytes w h window.titleH) := by
      rw [← hsize, hbytes]
      nofun
    rw [not_or] at hno
    have hword : UInt32.ofNat (askedBytes w h window.titleH) = bytes := by
      rw [hbytes', UInt32.ofNat_toNat]
    rw [hbytes'] at hno
    rw [hword, hbytes', Option.bind_some]
    have hbacking := guiBackingFor_none { window with x, y, w, h } bytes
    cases hfor : guiBackingFor bytes { window with x, y, w, h } with
    | some pixels =>
      rw [hfor] at hbacking
      have hhas : ¬ (window.backing = none ∨ window.backingCapacity.toNat < bytes.toNat) := by
        rw [← hbacking]
        nofun
      simp only [reduceCtorEq, hno.1, false_or, false_iff, hhas, false_and, or_false]
      exact hno.2
    | none =>
      have hhas : window.backing = none ∨ window.backingCapacity.toNat < bytes.toNat := hbacking.mp hfor
      simp only [guiWindowAllocBacking, Option.map_eq_none_iff, hno.1, hhas, true_and, false_or]
      exact ⟨.inr, fun hor => hor.resolve_left hno.2⟩

/-! ## One resize -/

theorem guiRefreshCursorShape_eq (d : Desktop) :
    guiRefreshCursorShape d = { d with cursor := { d.cursor with shape := d.shapeUnderCursor } } := by
  unfold guiRefreshCursorShape Desktop.shapeUnderCursor
  cases guiHitTest d.cursor.x d.cursor.y d <;> rfl

/-- The window is put back. -/
theorem setWindow_back (window : Window) (shape : UInt8) :
    Desktop.setWindow i (d.windows i) { d.setWindow i window with cursor := { d.cursor with shape } } =
      { d with cursor := { d.cursor with shape } } := by
  simp [Desktop.setWindow]

/-- Without a buffer the desktop is as it was, but for the shape of the cursor. -/
theorem ResizeStops.resize (hstops : ResizeStops kmalloc windowId x y w h d i) :
    guiResizeWindow kmalloc windowId x y w h d =
      .fail { d with cursor := { d.cursor with shape := (d.setBounds i x y w h).shapeUnderCursor } } := by
  obtain ⟨hw, hh⟩ := hstops.least
  have hreset := (guiWindowResetBacking_none (x := x) (y := y) (d.windows i) hw hh).mpr hstops.noBuffer
  have hargs : ¬ (w < 2 ∨ h < 2 ∨ ¬ GuiRectFitsFramebuffer d.fb x y w h) := by
    simp only [not_or, UInt32.not_lt, not_not]
    exact ⟨hw, hh, hstops.fits⟩
  unfold guiResizeWindow
  rw [if_neg hargs, hstops.window]
  dsimp only
  rw [if_neg hstops.changed, hreset]
  dsimp only
  rw [guiRefreshCursorShape_eq]
  exact congrArg Step.fail (setWindow_back _ _)

/-- A resize that fails for another reason has not begun. -/
theorem guiResizeWindow_false (hfails : (guiResizeWindow kmalloc windowId x y w h d).value = false) :
    guiResizeWindow kmalloc windowId x y w h d = .fail d ∨ ∃ i, ResizeStops kmalloc windowId x y w h d i := by
  unfold guiResizeWindow at hfails ⊢
  by_cases hargs : w < 2 ∨ h < 2 ∨ ¬ GuiRectFitsFramebuffer d.fb x y w h
  · rw [if_pos hargs]
    exact .inl rfl
  rw [if_neg hargs] at hfails ⊢
  simp only [not_or, UInt32.not_lt, not_not] at hargs
  obtain ⟨hw, hh, hfits⟩ := hargs
  cases hi : d.usedWindow windowId with
  | none => exact .inl rfl
  | some i =>
    rw [hi] at hfails
    dsimp only at hfails
    by_cases hsame : (d.windows i).w = w ∧ (d.windows i).h = h
    · rw [if_pos hsame] at hfails
      cases hfails
    rw [if_neg hsame] at hfails
    cases hreset : guiWindowResetBacking kmalloc { d.windows i with x, y, w, h } with
    | some window =>
      rw [hreset] at hfails
      cases hfails
    | none => exact .inr ⟨i, ⟨hw, hh⟩, hfits, hi, hsame, (guiWindowResetBacking_none (d.windows i) hw hh).mp hreset⟩

/-- A resize that fails adds no damage. -/
theorem guiResizeWindow_calls (hfails : (guiResizeWindow kmalloc windowId x y w h d).value = false) :
    (guiResizeWindow kmalloc windowId x y w h d).calls = [] := by
  rcases guiResizeWindow_false hfails with heq | ⟨i, hstops⟩
  · rw [heq]
    rfl
  · rw [hstops.resize]
    rfl

/-- A resize that fails leaves the desktop as it was exactly if the shape of the cursor stays. -/
theorem guiResizeWindow_atomic : ((guiResizeWindow kmalloc windowId x y w h d).value = false →
    (guiResizeWindow kmalloc windowId x y w h d).desktop = d) ↔ ShapeStays kmalloc windowId x y w h d := by
  constructor
  · intro hatomic i hstops
    rw [hstops.resize] at hatomic
    exact congrArg (fun e : Desktop => e.cursor.shape) (hatomic rfl)
  · intro hstays hfails
    rcases guiResizeWindow_false hfails with heq | ⟨i, hstops⟩
    · rw [heq]
      rfl
    · rw [hstops.resize, hstays i hstops]
      rfl

/-! ## Runs -/

/-- If the event is a resize that fails, then the screen is as it was. -/
def Screen.FailedResizeKeeps (s : Screen) : ScreenEvent → Prop
  | .op (.resize kmalloc windowId x y w h) => (guiResizeWindow kmalloc windowId x y w h s.desktop).value = false →
      s.step (.op (.resize kmalloc windowId x y w h)) = s
  | _ => True

/-- If the event is a resize, then the shape of the cursor stays where there is no buffer. -/
def Screen.ResizeKeepsShape (s : Screen) : ScreenEvent → Prop
  | .op (.resize kmalloc windowId x y w h) => ShapeStays kmalloc windowId x y w h s.desktop
  | _ => True

theorem Screen.failedResize_iff (s : Screen) (e : ScreenEvent) : s.FailedResizeKeeps e ↔ s.ResizeKeepsShape e := by
  unfold FailedResizeKeeps ResizeKeepsShape
  split
  · rename_i kmalloc windowId x y w h
    rw [← guiResizeWindow_atomic]
    refine forall_congr' fun hfails => ?_
    constructor
    · intro hsame
      exact congrArg Screen.desktop hsame
    · intro hdesktop
      simp [Screen.step, GuiOp.run, Step.unit, hdesktop, guiResizeWindow_calls hfails]
  · exact Iff.rfl

/-- In every run from `gui_init_for_framebuffer` on: each resize that fails leaves the screen as it was, the desktop and
the damage, exactly if at each resize the shape of the cursor stays where there is no buffer. -/
theorem screenRun_resizes (fb : FbSize) (d : Desktop) (events : List ScreenEvent) :
    EachStep Screen.step Screen.FailedResizeKeeps (Screen.init fb d) events ↔
      EachStep Screen.step Screen.ResizeKeepsShape (Screen.init fb d) events :=
  eachStep_iff (Q := fun _ => True) (fun _ _ _ => trivial) (fun s e _ => s.failedResize_iff e) trivial

/-- A window with a title bar of two rows is to have two rows, under the cursor at `(5, 5)`. -/
theorem failed_resize_leaves_hand :
    ¬ ∀ (fb : FbSize) (d : Desktop) (events : List ScreenEvent),
      EachStep Screen.step Screen.FailedResizeKeeps (Screen.init fb d) events := by
  intro h
  obtain ⟨-, -, hresize, -⟩ := h ⟨10, 10⟩ (sampleDesktop ⟨10, 10⟩)
    [.op (.create 1 0 0 4 4 0 0 (some [97])), .op (.setTitleBar 0 2),
      .op (.resize (fun _ => some fun _ => 0) 0 4 4 4 2)]
  have hshape := congrArg (fun s : Screen => s.desktop.cursor.shape) (hresize (by decide +kernel))
  revert hshape
  decide +kernel

end Armonios
