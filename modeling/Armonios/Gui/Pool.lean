import Armonios.Gui.Desktop

/-!
# The window pool

The model of `kernel/gui_backing.c` and `kernel/gui_pool.c`, and of the functions of
`kernel/gui_compositor.c` that draw into a window. The `kmalloc` of an operation is the buffer that it gets
for a size, with what the buffer has in it, or none.
-/

namespace Armonios

/-! ## Backing buffers -/

abbrev Kmalloc := UInt32 → Option (Nat → UInt32)

/-- `content_h`: the rows below the title bar. -/
def guiContentH (window : Window) : UInt32 :=
  if window.titleH < window.h then window.h - window.titleH else 0

/-- `gui_window_backing_fb`, the pixels apart. -/
def guiWindowBackingFb (window : Window) : FbSize := ⟨window.w, guiContentH window⟩

/-- A drawing in the backing buffer, whose rows are as long as the window is wide. -/
def paintBacking (window : Window) (paint : FbPaint) (pixels : Nat → UInt32) : Nat → UInt32 := fun n =>
  (paint (n % window.w.toNat, n / window.w.toNat)).getD (pixels n)

/-- The product is one of 64 bits. -/
def guiWindowBackingSize (window : Window) : Option UInt32 :=
  if window.w = 0 ∨ window.h = 0 ∨ guiContentH window = 0 then none
  else
    let bytes := window.w.toNat * (guiContentH window).toNat * 4 % 2 ^ 64
    if 2 ^ 32 ≤ bytes then none else some (UInt32.ofNat bytes)

/-- The buffer with the background colour in every pixel of the content. -/
def guiFillBacking (window : Window) (pixels : Nat → UInt32) : Nat → UInt32 :=
  paintBacking window
    (fbFillrect (guiWindowBackingFb window) 0 0 window.w (guiContentH window) window.bgColor) pixels

def guiWindowAllocBacking (kmalloc : Kmalloc) (neededBytes : UInt32) (window : Window) : Option Window :=
  (kmalloc neededBytes).map fun pixels =>
    { window with backing := some (guiFillBacking window pixels), backingCapacity := neededBytes }

/-- The buffer of the window, if it has one that is large enough. -/
def guiBackingFor (neededBytes : UInt32) (window : Window) : Option (Nat → UInt32) :=
  if neededBytes ≤ window.backingCapacity then window.backing else none

def guiWindowEnsureBacking (kmalloc : Kmalloc) (window : Window) : Option Window :=
  (guiWindowBackingSize window).bind fun neededBytes =>
    match guiBackingFor neededBytes window with
    | some _ => some window
    | none => guiWindowAllocBacking kmalloc neededBytes window

def guiWindowResetBacking (kmalloc : Kmalloc) (window : Window) : Option Window :=
  (guiWindowBackingSize window).bind fun neededBytes =>
    match guiBackingFor neededBytes window with
    | some pixels => some { window with backing := some (guiFillBacking window pixels) }
    | none => guiWindowAllocBacking kmalloc neededBytes window

def guiWindowFreeBacking (window : Window) : Window :=
  if window.backing.isNone then window
  else { window with backing := none, backingCapacity := 0, ownerDrawn := false }

/-! ## Damage -/

/-- The rectangle of the window. -/
def guiDamageWindow (window : Window) : DamageCall :=
  .add (s32 window.x) (s32 window.y) (s32 window.w) (s32 window.h)

/-- The least rectangle around two, as every function that moves something computes it. -/
def guiDamageUnion (oldX oldY oldW oldH newX newY newW newH : Int) : DamageCall :=
  let ux0 := min oldX newX
  let uy0 := min oldY newY
  let ux1 := max (i32 (oldX + oldW)) (i32 (newX + newW))
  let uy1 := max (i32 (oldY + oldH)) (i32 (newY + newH))
  .add ux0 uy0 (i32 (ux1 - ux0)) (i32 (uy1 - uy0))

/-! ## Windows -/

/-- `gui_window_set_title`; a title that is null is `none`. -/
def guiWindowSetTitle (title : Option (List UInt8)) (window : Window) : Window :=
  { window with title := ((title.getD []).takeWhile (· ≠ 0)).take (guiTitleLen - 1) }

/-- `"panel"`. -/
def guiPanelTitle : List UInt8 := [112, 97, 110, 101, 108]

def guiApplyBuiltinPolicy (window : Window) : Window :=
  if window.used = true ∧ window.title = guiPanelTitle then
    { window with flags := window.flags |||
        (guiWindowDock ||| guiWindowNoFocus ||| guiWindowNoDrag ||| guiWindowSkipTaskbar) }
  else window

/-- Whether `gui_focus_window` focuses the window. -/
def Window.Focusable (window : Window) : Prop := window.flags &&& guiWindowNoFocus = 0

instance (window : Window) : Decidable window.Focusable := by unfold Window.Focusable; infer_instance

/-- The status −1, with nothing changed. -/
def Step.fail (d : Desktop) : Step Bool := ⟨false, d, []⟩

/-- `gui_focus_window_ensure`, without its status, which no caller looks at. -/
def guiFocusWindowEnsure (d : Desktop) : Desktop :=
  if d.focusedWindowId.any fun i => (d.windows i).used = true ∧ (d.windows i).Focusable then d
  else { d with focusedWindowId := windowIds.find? fun i => (d.windows i).used = true ∧ (d.windows i).Focusable }

/-- The window that `gui_create_window_for_pid` puts into a free place. -/
def guiNewWindow (ownerPid x y w h bgColor borderColor z : UInt32) (title : Option (List UInt8)) : Window :=
  guiApplyBuiltinPolicy <| guiWindowSetTitle title
    { x, y, w, h, bgColor, borderColor, ownerPid, z
      flags := 0
      titleH := 0
      title := []
      events := []
      used := true
      ownerDrawn := false
      minimized := false
      backing := none
      backingCapacity := 0
      cursorRegions := fun _ => .none }

def guiCreateWindowForPid (ownerPid x y w h bgColor borderColor : UInt32) (title : Option (List UInt8))
    (d : Desktop) : Step (Option WindowId) :=
  if w < 2 ∨ h < 2 ∨ d.fb.width ≤ x ∨ d.fb.height ≤ y then ⟨none, d, []⟩
  else
    match windowIds.find? fun i => (d.windows i).used = false with
    | none => ⟨none, d, []⟩
    | some i =>
      let window := guiNewWindow ownerPid x y w h bgColor borderColor d.nextZ title
      let focusedWindowId :=
        if d.focusedWindowId = none ∧ window.Focusable then some i else d.focusedWindowId
      let d := { d.setWindow i window with nextZ := d.nextZ + 1, focusedWindowId }
      ⟨some i, guiRefreshCursorShape d, [guiDamageWindow window]⟩

/-- What `gui_destroy_window` leaves of a window. -/
def guiClearedWindow (window : Window) : Window :=
  guiWindowSetTitle none
    { guiWindowFreeBacking window with
      x := 0
      y := 0
      w := 0
      h := 0
      bgColor := 0
      borderColor := 0
      ownerPid := guiNoOwner
      z := 0
      flags := 0
      titleH := 0
      events := []
      used := false
      ownerDrawn := false
      cursorRegions := fun _ => .none }

def guiDestroyAt (i : WindowId) (d : Desktop) : Step Bool :=
  let cleared := d.setWindow i (guiClearedWindow (d.windows i))
  let d' := if d.focusedWindowId = some i then guiFocusWindowEnsure { cleared with focusedWindowId := none }
    else cleared
  ⟨true, guiRefreshCursorShape d', [guiDamageWindow (d.windows i)]⟩

def guiDestroyWindow (windowId : UInt32) (d : Desktop) : Step Bool :=
  match d.usedWindow windowId with
  | none => .fail d
  | some i => guiDestroyAt i d

/-- The turn of `gui_destroy_windows_for_pid` for the window in `i`. -/
def guiDestroyIfOwned (pid : UInt32) (s : Step Unit) (i : WindowId) : Step Unit :=
  if (s.desktop.windows i).used = true ∧ (s.desktop.windows i).ownerPid = pid then
    ⟨(), (guiDestroyAt i s.desktop).desktop, s.calls ++ (guiDestroyAt i s.desktop).calls⟩
  else s

def guiDestroyWindowsForPid (pid : UInt32) (d : Desktop) : Step Unit :=
  if pid = guiNoOwner then ⟨(), d, []⟩ else windowIds.reverse.foldl (guiDestroyIfOwned pid) ⟨(), d, []⟩

def guiWindowSetTitleInternal (windowId : UInt32) (title : Option (List UInt8)) (d : Desktop) : Step Bool :=
  match d.usedWindow windowId with
  | none => .fail d
  | some i =>
    let window := guiApplyBuiltinPolicy (guiWindowSetTitle title (d.windows i))
    ⟨true, guiRefreshCursorShape (d.setWindow i window),
      if 0 < window.titleH then [.add (s32 window.x) (s32 window.y) (s32 window.w) (s32 window.titleH)] else []⟩

def guiWindowSetTitleBarInternal (windowId titleH : UInt32) (d : Desktop) : Step Bool :=
  match d.usedWindow windowId with
  | none => .fail d
  | some i =>
    if (d.windows i).h ≤ titleH then .fail d
    else
      ⟨true, guiRefreshCursorShape (d.setWindow i { d.windows i with titleH }), [guiDamageWindow (d.windows i)]⟩

def guiWindowSetFlagsInternal (windowId flags : UInt32) (d : Desktop) : Step Bool :=
  match d.usedWindow windowId with
  | none => .fail d
  | some i =>
    let flagged := d.setWindow i { d.windows i with flags }
    let d' := if flags &&& guiWindowNoFocus ≠ 0 ∧ d.focusedWindowId = some i then
        guiFocusWindowEnsure { flagged with focusedWindowId := none }
      else flagged
    if ((d.windows i).flags ^^^ flags) &&& (guiWindowNoFocus ||| guiWindowNoDrag ||| guiWindowDock) ≠ 0 then
      ⟨true, guiRefreshCursorShape d', [guiDamageWindow (d.windows i)]⟩
    else ⟨true, d', []⟩

def guiMoveWindow (windowId x y : UInt32) (d : Desktop) : Step Bool :=
  if d.fb.width ≤ x ∨ d.fb.height ≤ y then .fail d
  else
    match d.usedWindow windowId with
    | none => .fail d
    | some i =>
      let old := d.windows i
      ⟨true, guiRefreshCursorShape (d.setWindow i { old with x, y }),
        [guiDamageUnion (s32 old.x) (s32 old.y) (s32 old.w) (s32 old.h) (s32 x) (s32 y) (s32 old.w) (s32 old.h)]⟩

/-- `gui_rect_fits_framebuffer`. -/
def GuiRectFitsFramebuffer (fb : FbSize) (x y w h : UInt32) : Prop :=
  w ≠ 0 ∧ h ≠ 0 ∧ x < fb.width ∧ y < fb.height ∧ w ≤ fb.width - x ∧ h ≤ fb.height - y

instance (fb : FbSize) (x y w h : UInt32) : Decidable (GuiRectFitsFramebuffer fb x y w h) := by
  unfold GuiRectFitsFramebuffer; infer_instance

def guiResizeWindow (kmalloc : Kmalloc) (windowId x y w h : UInt32) (d : Desktop) : Step Bool :=
  if w < 2 ∨ h < 2 ∨ ¬ GuiRectFitsFramebuffer d.fb x y w h then .fail d
  else
    match d.usedWindow windowId with
    | none => .fail d
    | some i =>
      let old := d.windows i
      let resized := guiRefreshCursorShape (d.setWindow i { old with x, y, w, h })
      let damage := guiDamageUnion (s32 old.x) (s32 old.y) (s32 old.w) (s32 old.h) (s32 x) (s32 y) (s32 w) (s32 h)
      if old.w = w ∧ old.h = h then ⟨true, resized, [damage]⟩
      else
        match guiWindowResetBacking kmalloc { old with x, y, w, h } with
        | none => ⟨false, resized.setWindow i old, []⟩
        | some window =>
          ⟨true, resized.setWindow i (guiWindowPushEvent .resize (s32 w) (s32 h) window), [damage]⟩

def guiWindowMinimize (windowId : UInt32) (d : Desktop) : Step Bool :=
  match d.usedWindow windowId with
  | none => .fail d
  | some i =>
    if (d.windows i).minimized then .fail d
    else
      ⟨true, d.setWindow i (guiWindowPushEvent .minimize 0 0 { d.windows i with minimized := true }), [.redraw]⟩

def guiWindowRestore (windowId : UInt32) (d : Desktop) : Step Bool :=
  match d.usedWindow windowId with
  | none => .fail d
  | some i =>
    let window := d.windows i
    if window.minimized = false then .fail d
    else
      let restored := guiWindowPushEvent .maximize 0 0 { window with minimized := false, z := d.nextZ }
      let focusedWindowId := if window.Focusable then some i else d.focusedWindowId
      ⟨true, { d.setWindow i restored with focusedWindowId, nextZ := d.nextZ + 1 }, [.redraw]⟩

def guiFocusWindow (windowId : UInt32) (d : Desktop) : Step Bool :=
  match d.usedWindow windowId with
  | none => .fail d
  | some i =>
    let window := d.windows i
    if ¬ window.Focusable then ⟨true, d, [guiDamageWindow window]⟩
    else
      let raised := guiRefreshCursorShape
        { d.setWindow i { window with z := d.nextZ } with focusedWindowId := some i, nextZ := d.nextZ + 1 }
      let prev := (d.focusedWindowId.toList.map raised.windows).filter (·.used)
      ⟨true, raised, prev.map guiDamageWindow ++ [guiDamageWindow window]⟩

def guiWindowForPid (ownerPid index : UInt32) (d : Desktop) : Option WindowId :=
  if ownerPid = guiNoOwner then none
  else
    (windowIds.filter fun i => (d.windows i).used = true ∧ (d.windows i).ownerPid = ownerPid ∧
      (d.windows i).flags &&& guiWindowSkipTaskbar = 0)[index.toNat]?

/-! ## Content -/

/-- A drawing in the window, which then counts as drawn by its owner. -/
def guiDrawContent (window : Window) (paint : FbPaint) : Window :=
  { window with ownerDrawn := true, backing := window.backing.map (paintBacking window paint) }

def guiWindowDrawText (kmalloc : Kmalloc) (windowId : UInt32) (x y : Int) (text : List UInt8) (color : UInt32)
    (d : Desktop) : Step Bool :=
  match d.usedWindow windowId with
  | none => .fail d
  | some i =>
    match guiWindowEnsureBacking kmalloc (d.windows i) with
    | none => .fail d
    | some window =>
      let contentH := guiContentH window
      let x := max x 0
      let y := max y 0
      if window.w ≤ u32 x ∨ contentH ≤ u32 y then ⟨true, d.setWindow i (guiDrawContent window .clear), []⟩
      else
        let drawn := guiDrawContent window (fontDrawText (guiWindowBackingFb window) (u32 x) (u32 y) text color)
        let dw := s32 (fontTextWidth text)
        let dh := s32 fontGlyphHeight
        let dw := if s32 window.w < i32 (x + dw) then i32 (s32 window.w - x) else dw
        let dh := if s32 contentH < i32 (y + dh) then i32 (s32 contentH - y) else dh
        ⟨true, d.setWindow i drawn,
          [.add (i32 (s32 window.x + x)) (i32 (i32 (s32 window.y + s32 window.titleH) + y)) dw dh]⟩

def guiWindowDrawRect (kmalloc : Kmalloc) (windowId : UInt32) (x y : Int) (w h color : UInt32) (d : Desktop) :
    Step Bool :=
  match d.usedWindow windowId with
  | none => .fail d
  | some i =>
    if w = 0 ∨ h = 0 then ⟨true, d, []⟩
    else
      match guiWindowEnsureBacking kmalloc (d.windows i) with
      | none => .fail d
      | some window =>
        let x0 := max x 0
        let y0 := max y 0
        let x1 := min (x + w.toNat) window.w.toNat
        let y1 := min (y + h.toNat) (guiContentH window).toNat
        if x1 ≤ x0 ∨ y1 ≤ y0 then ⟨true, d.setWindow i (guiDrawContent window .clear), []⟩
        else
          let rect := fbFillrect (guiWindowBackingFb window) (u32 x0) (u32 y0) (u32 (x1 - x0)) (u32 (y1 - y0)) color
          ⟨true, d.setWindow i (guiDrawContent window rect),
            [.add (i32 (s32 window.x + i32 x0)) (i32 (i32 (s32 window.y + s32 window.titleH) + i32 y0))
              (i32 (x1 - x0)) (i32 (y1 - y0))]⟩

def guiWindowClear (kmalloc : Kmalloc) (windowId color : UInt32) (d : Desktop) : Step Bool :=
  match d.usedWindow windowId with
  | none => .fail d
  | some i =>
    match guiWindowEnsureBacking kmalloc (d.windows i) with
    | none => .fail d
    | some window =>
      let contentH := guiContentH window
      let rect := fbFillrect (guiWindowBackingFb window) 0 0 window.w contentH color
      ⟨true, d.setWindow i (guiDrawContent window rect),
        [.add (s32 window.x) (i32 (s32 window.y + s32 window.titleH)) (s32 window.w) (s32 contentH)]⟩

end Armonios
