import Armonios.Gui.Pool

/-!
# The cursor and the input

The model of `kernel/gui_cursor.c` and `kernel/gui_input.c`.
-/

namespace Armonios

/-- The number of a window. -/
def windowWord (i : WindowId) : UInt32 := UInt32.ofNat i.val

theorem usedWindow_word {i : WindowId} {d : Desktop} (h : (d.windows i).used = true) :
    d.usedWindow (windowWord i) = some i := by
  have hi : (windowWord i).toNat = i.val := by
    rw [windowWord, UInt32.toNat_ofNat_of_lt']
    have := i.isLt
    simp only [guiMaxWindows, UInt32.size] at this ⊢
    omega
  simp only [Desktop.usedWindow, hi, i.isLt, dif_pos, Fin.eta, h, if_true]

/-! ## The cursor -/

def guiSetCursorShape (shape : UInt32) (d : Desktop) : Step Bool :=
  if shape ≠ guiCursorArrow.toUInt32 ∧ shape ≠ guiCursorHand.toUInt32 then .fail d
  else ⟨true, { d with cursor := { d.cursor with shape := shape.toUInt8 } }, []⟩

/-- The end of `gui_register_cursor_region`, with the new entry. -/
def guiPutCursorRegion (i : WindowId) (slot : Fin guiMaxCursorRegions) (region : CursorRegion) (d : Desktop) :
    Step Bool :=
  let window := d.windows i
  let d' := d.setWindow i { window with cursorRegions := Function.update window.cursorRegions slot region }
  ⟨true, if d.focusedWindowId = some i then guiRefreshCursorShape d' else d', []⟩

def guiRegisterCursorRegion (windowId slot : UInt32) (x y : Int) (w h shape : UInt32) (d : Desktop) : Step Bool :=
  match d.usedWindow windowId with
  | none => .fail d
  | some i =>
    if hslot : slot.toNat < guiMaxCursorRegions then
      if shape = guiCursorRegionDelete then guiPutCursorRegion i ⟨slot.toNat, hslot⟩ .none d
      else if shape ≠ guiCursorArrow.toUInt32 ∧ shape ≠ guiCursorHand.toUInt32 then .fail d
      else if w = 0 ∨ h = 0 ∨ 0x7fffffff < w ∨ 0x7fffffff < h then .fail d
      else guiPutCursorRegion i ⟨slot.toNat, hslot⟩ ⟨x, y, s32 w, s32 h, shape, true⟩ d
    else .fail d

/-- A coordinate of the cursor, clamped to a side of the framebuffer. -/
def guiClampCursor (n : Int) (size : UInt32) : Int :=
  let n := max n 0
  if size ≤ u32 n then i32 (s32 size - 1) else n

def guiSetCursor (x y : Int) (d : Desktop) : Step Unit :=
  let x := guiClampCursor x d.fb.width
  let y := guiClampCursor y d.fb.height
  let moved := { d with cursor := { d.cursor with x, y, prevX := d.cursor.x, prevY := d.cursor.y } }
  ⟨(), guiRefreshCursorShape moved,
    [guiDamageUnion d.cursor.x d.cursor.y guiCursorW guiCursorH x y guiCursorW guiCursorH]⟩

def guiCursorMove (dx dy : Int) (d : Desktop) : Step Unit :=
  guiSetCursor (i32 (d.cursor.x + dx)) (i32 (d.cursor.y + dy)) d

def guiDragStart (windowId : UInt32) (offX offY : Int) (d : Desktop) : Desktop :=
  match d.usedWindow windowId with
  | none => d
  | some i =>
    let window := d.windows i
    if window.flags &&& guiWindowNoDrag ≠ 0 then d
    else if 0 < window.titleH ∧ (offY < 0 ∨ window.titleH ≤ u32 offY) then d
    else { d with dragWindowId := some i, dragOffX := offX, dragOffY := offY }

def guiDragUpdate (cursorX cursorY : Int) (d : Desktop) : Step Unit :=
  match d.dragWindowId with
  | none => ⟨(), d, []⟩
  | some i =>
    let old := d.windows i
    if old.used = false then ⟨(), { d with dragWindowId := none }, []⟩
    else
      let newX := max (i32 (cursorX - d.dragOffX)) 0
      let newY := max (i32 (cursorY - d.dragOffY)) 0
      ⟨(), guiRefreshCursorShape (d.setWindow i { old with x := u32 newX, y := u32 newY }),
        [guiDamageUnion (s32 old.x) (s32 old.y) (s32 old.w) (s32 old.h) newX newY (s32 old.w) (s32 old.h)]⟩

def guiDragEnd (d : Desktop) : Desktop := { d with dragWindowId := none }

/-- The bit of the button in `buttons_mask`. -/
def guiSetButton (button : UInt32) (pressed : Bool) (d : Desktop) : Desktop :=
  let mask : UInt8 := 1 <<< button.toUInt8
  let buttonsMask := if pressed then d.cursor.buttonsMask ||| mask else d.cursor.buttonsMask &&& ~~~mask
  { d with cursor := { d.cursor with buttonsMask } }

def guiCursorButton (button : UInt32) (pressed : Bool) (d : Desktop) : Step Unit :=
  if 2 < button then ⟨(), d, []⟩
  else
    let d := guiSetButton button pressed d
    if button ≠ 0 ∨ pressed = false then ⟨(), d, []⟩
    else
      match guiHitTest d.cursor.x d.cursor.y d with
      | some hit => ⟨(), (guiFocusWindow (windowWord hit) d).desktop, (guiFocusWindow (windowWord hit) d).calls⟩
      | none => ⟨(), { d with focusedWindowId := none }, []⟩

/-! ## Input -/

/-- `input_event_t`. -/
inductive InputEvent
  | keyPress (key : UInt32)
  | keyRelease (key : UInt32)
  | mouseMove (dx dy : Int)
  | mouseButton (button : UInt32) (pressed : Bool)

/-- An event for a window. -/
def guiPushTo (i : WindowId) (type : GuiEventType) (data1 data2 : Int) (d : Desktop) : Desktop :=
  d.setWindow i (guiWindowPushEvent type data1 data2 (d.windows i))

/-- `gui_dispatch_input`, without its status, which no caller looks at. -/
def guiDispatchInput (event : InputEvent) (d : Desktop) : Desktop :=
  let toFocused (type : GuiEventType) (key : UInt32) : Desktop :=
    match d.focusedWindowId with
    | some i => if (d.windows i).used then guiPushTo i type (s32 key) 0 d else d
    | none => d
  match event with
  | .keyPress key => toFocused .keyPress key
  | .keyRelease key => toFocused .keyRelease key
  | .mouseMove _ _ =>
    match guiHitTest d.cursor.x d.cursor.y d with
    | some hit => guiPushTo hit .mouseMove d.cursor.x d.cursor.y d
    | none => d
  | .mouseButton _ _ => d

/-- The left button goes down over the window in `hit`. `ownerDead` is `gui_window_owner_dead`, which looks
the owner of a window up. -/
def guiPressOn (ownerDead : Window → Bool) (hit : WindowId) (d : Desktop) : Step Unit :=
  let window := d.windows hit
  match guiHitTestDecoration window d.cursor.x d.cursor.y with
  | some .close =>
    if ownerDead window then
      ⟨(), (guiDestroyWindow (windowWord hit) d).desktop, (guiDestroyWindow (windowWord hit) d).calls⟩
    else ⟨(), guiPushTo hit .close 0 0 d, []⟩
  | some .minimize =>
    ⟨(), (guiWindowMinimize (windowWord hit) d).desktop, (guiWindowMinimize (windowWord hit) d).calls⟩
  | some .maximize => ⟨(), guiPushTo hit .maximize 0 0 d, []⟩
  | none =>
    let dragged := guiDragStart (windowWord hit) (i32 (d.cursor.x - s32 window.x)) (i32 (d.cursor.y - s32 window.y)) d
    ⟨(), guiPushTo hit .mouseClick d.cursor.x d.cursor.y dragged, []⟩

def guiHandleDesktopInput (ownerDead : Window → Bool) (event : InputEvent) (d : Desktop) : Step Unit :=
  match event with
  | .mouseMove dx dy =>
    let moved := guiCursorMove dx dy d
    let dragged :=
      if moved.desktop.dragWindowId.isSome then
        guiDragUpdate moved.desktop.cursor.x moved.desktop.cursor.y moved.desktop
      else ⟨(), moved.desktop, []⟩
    ⟨(), guiDispatchInput event dragged.desktop, moved.calls ++ dragged.calls⟩
  | .mouseButton button pressed =>
    let clicked := guiCursorButton button pressed d
    if button ≠ 0 then clicked
    else if pressed then
      match guiHitTest clicked.desktop.cursor.x clicked.desktop.cursor.y clicked.desktop with
      | some hit =>
        let s := guiPressOn ownerDead hit clicked.desktop
        ⟨(), s.desktop, clicked.calls ++ s.calls⟩
      | none => clicked
    else ⟨(), guiDragEnd clicked.desktop, clicked.calls⟩
  | .keyPress key =>
    let d := guiFocusWindowEnsure d
    match d.focusedWindowId with
    | some i => ⟨(), guiPushTo i .keyPress (s32 key) 0 d, []⟩
    | none => ⟨(), d, []⟩
  | .keyRelease key =>
    match d.focusedWindowId with
    | some i => ⟨(), guiPushTo i .keyRelease (s32 key) 0 d, []⟩
    | none => ⟨(), d, []⟩

end Armonios
