import Armonios.Gui.Fb
import Armonios.Lib.Scan

/-!
# The desktop

The data of `kernel/gui.h`, with the functions on it that only look: `gui_events.c`, the hit tests of
`gui_input.c` and the cursor shape of `gui_cursor.c`. A window is a place in the pool, `WindowId`;
`GUI_NO_WINDOW` is `none`. A title is the string before its first NUL, and the ring of events is the list
of those that wait.

The damage list and `g_gui_dirty` are not in `Desktop`: no function but the compositor looks at them. An
operation leaves a desktop and the calls that it made of `gui_damage_add` and `gui_request_redraw`
(`Step`), which `Gui/Damage.lean` runs.
-/

namespace Armonios

abbrev guiMaxWindows : Nat := 16
abbrev guiMaxCursorRegions : Nat := 8
def guiCursorW : Int := 16
def guiCursorH : Int := 16
def guiTitleLen : Nat := 32
def guiEventQueueSize : Nat := 32
def guiCloseBtnW : UInt32 := 14
def guiCloseBtnPad : UInt32 := 2
def guiCloseBtnMinTitleH : UInt32 := 10
def guiNoOwner : UInt32 := 0xffffffff
def guiWindowNoFocus : UInt32 := 1
def guiWindowNoDrag : UInt32 := 2
def guiWindowSkipTaskbar : UInt32 := 4
def guiWindowDock : UInt32 := 8
def guiCursorRegionDelete : UInt32 := 0xffffffff
def guiCursorArrow : UInt8 := 0
def guiCursorHand : UInt8 := 1

inductive GuiEventType
  | keyPress | keyRelease | mouseClick | mouseMove | resize | close | minimize | maximize
  deriving DecidableEq, Repr

/-- `gui_event_t`. -/
structure GuiEvent where
  type : GuiEventType
  data1 : Int
  data2 : Int
  deriving DecidableEq

/-- An entry of `cursor_regions`. -/
structure CursorRegion where
  x : Int
  y : Int
  w : Int
  h : Int
  shape : UInt32
  used : Bool
  deriving DecidableEq

def CursorRegion.none : CursorRegion := ⟨0, 0, 0, 0, 0, false⟩

/-- `gui_window_t`. `backing` has the pixel at each offset behind the pointer, if it is not null. -/
structure Window where
  x : UInt32
  y : UInt32
  w : UInt32
  h : UInt32
  bgColor : UInt32
  borderColor : UInt32
  ownerPid : UInt32
  z : UInt32
  flags : UInt32
  titleH : UInt32
  title : List UInt8
  events : List GuiEvent
  used : Bool
  ownerDrawn : Bool
  minimized : Bool
  backing : Option (Nat → UInt32)
  backingCapacity : UInt32
  cursorRegions : Fin guiMaxCursorRegions → CursorRegion

/-- `gui_cursor_t`. -/
structure Cursor where
  x : Int
  y : Int
  prevX : Int
  prevY : Int
  buttonsMask : UInt8
  visible : Bool
  shape : UInt8

abbrev WindowId := Fin guiMaxWindows

/-- `gui_desktop_t`, the damage apart. -/
structure Desktop where
  fb : FbSize
  backgroundColor : UInt32
  focusedWindowId : Option WindowId
  nextZ : UInt32
  dragWindowId : Option WindowId
  dragOffX : Int
  dragOffY : Int
  windows : WindowId → Window
  cursor : Cursor

/-- All windows in the order of the pool. -/
def windowIds : List WindowId := List.finRange guiMaxWindows

/-- A call of `gui_damage_add` or of `gui_request_redraw`. -/
inductive DamageCall
  | add (x y w h : Int)
  | redraw
  deriving DecidableEq

/-- What an operation returns and leaves behind. -/
structure Step (α : Type) where
  value : α
  desktop : Desktop
  calls : List DamageCall

namespace Desktop

def setWindow (i : WindowId) (window : Window) (d : Desktop) : Desktop :=
  { d with windows := Function.update d.windows i window }

/-- The place of a used window with this id. -/
def usedWindow (windowId : UInt32) (d : Desktop) : Option WindowId :=
  if h : windowId.toNat < guiMaxWindows then
    if (d.windows ⟨windowId.toNat, h⟩).used then some ⟨windowId.toNat, h⟩ else none
  else none

end Desktop

/-! ## Events -/

/-- `gui_window_push_event`: a mouse move replaces the last one, and a full queue loses its oldest event. -/
def guiWindowPushEvent (type : GuiEventType) (data1 data2 : Int) (window : Window) : Window :=
  if window.used = false then window
  else if type = .mouseMove ∧ window.events.getLast?.any (·.type = .mouseMove) then
    { window with events := window.events.dropLast ++ [⟨type, data1, data2⟩] }
  else if guiEventQueueSize ≤ window.events.length then
    if type = .mouseMove then window
    else { window with events := window.events.tail ++ [⟨type, data1, data2⟩] }
  else { window with events := window.events ++ [⟨type, data1, data2⟩] }

def guiWindowPopEvent (window : Window) : Option (GuiEvent × Window) :=
  if window.used = false then none
  else
    match window.events with
    | [] => none
    | event :: events => some (event, { window with events })

/-! ## Hit tests -/

/-- `gui_window_contains`. -/
def GuiWindowContains (window : Window) (x y : Int) : Prop :=
  window.used = true ∧ s32 window.x ≤ x ∧ x < window.x.toNat + window.w.toNat ∧ s32 window.y ≤ y ∧
    y < window.y.toNat + window.h.toNat

instance (window : Window) (x y : Int) : Decidable (GuiWindowContains window x y) := by
  unfold GuiWindowContains; infer_instance

def guiHitTest (x y : Int) (d : Desktop) : Option WindowId :=
  scan (fun i => GuiWindowContains (d.windows i) x y)
    (fun i best => (d.windows best).z.toNat ≤ (d.windows i).z.toNat) windowIds

/-- `gui_rect_contains`. -/
def GuiRectContains (rx ry rw rh : UInt32) (x y : Int) : Prop :=
  s32 rx ≤ x ∧ x < rx.toNat + rw.toNat ∧ s32 ry ≤ y ∧ y < ry.toNat + rh.toNat

instance (rx ry rw rh : UInt32) (x y : Int) : Decidable (GuiRectContains rx ry rw rh x y) := by
  unfold GuiRectContains; infer_instance

/-- A rectangle of the framebuffer. -/
structure GuiRect where
  x : UInt32
  y : UInt32
  w : UInt32
  h : UInt32
  deriving DecidableEq

/-- The common part of `gui_close_box_rect` and `gui_min_max_btn_row`: the box at the right edge of the title
bar, if the window is at least `minW bw` wide for boxes that are `bw` wide. -/
def guiTitleBox (minW : UInt32 → UInt32) (window : Window) : Option GuiRect :=
  if window.used = false ∨ window.titleH = 0 ∨ window.title = [] ∨ window.titleH < guiCloseBtnMinTitleH then none
  else
    let bh := window.titleH - 2 * guiCloseBtnPad
    if bh < 4 then none
    else
      let bw := if bh < guiCloseBtnW then bh else guiCloseBtnW
      if window.w < minW bw then none
      else some ⟨window.x + window.w - bw - guiCloseBtnPad, window.y + guiCloseBtnPad, bw, bh⟩

def guiCloseBoxRect (window : Window) : Option GuiRect := guiTitleBox (fun bw => bw + 2 * guiCloseBtnPad) window

def guiMinMaxBtnRow (window : Window) : Option GuiRect :=
  guiTitleBox (fun bw => 3 * bw + 4 * guiCloseBtnPad) window

def guiMinimizeButtonRect (window : Window) : Option GuiRect :=
  (guiMinMaxBtnRow window).map fun right => { right with x := right.x - 2 * right.w - 2 * guiCloseBtnPad }

def guiMaximizeButtonRect (window : Window) : Option GuiRect :=
  (guiMinMaxBtnRow window).map fun right => { right with x := right.x - right.w - guiCloseBtnPad }

inductive GuiDecorationSlot
  | minimize | maximize | close
  deriving DecidableEq

/-- `gui_try_decoration_slot`, for the rectangle of the slot. -/
def guiTryDecorationSlot (rect : Option GuiRect) (x y : Int) : Bool :=
  rect.any fun r => GuiRectContains r.x r.y r.w r.h x y

def guiHitTestDecoration (window : Window) (x y : Int) : Option GuiDecorationSlot :=
  if guiTryDecorationSlot (guiMinimizeButtonRect window) x y then some .minimize
  else if guiTryDecorationSlot (guiMaximizeButtonRect window) x y then some .maximize
  else if guiTryDecorationSlot (guiCloseBoxRect window) x y then some .close
  else none

/-! ## The shape of the cursor -/

/-- `gui_cursor_region_contains`. -/
def GuiCursorRegionContains (region : CursorRegion) (contentX contentY : Int) : Prop :=
  0 < region.w ∧ 0 < region.h ∧ region.x ≤ contentX ∧ contentX < region.x + region.w ∧ region.y ≤ contentY ∧
    contentY < region.y + region.h

instance (region : CursorRegion) (contentX contentY : Int) :
    Decidable (GuiCursorRegionContains region contentX contentY) := by
  unfold GuiCursorRegionContains; infer_instance

/-- The shape over the window in `i`. -/
def guiShapeOver (window : Window) (cursor : Cursor) : UInt8 :=
  let contentX := i32 (cursor.x - s32 window.x)
  let contentY := i32 (cursor.y - i32 (s32 window.y + s32 window.titleH))
  match (List.finRange guiMaxCursorRegions).find? fun i => (window.cursorRegions i).used = true ∧
      GuiCursorRegionContains (window.cursorRegions i) contentX contentY with
  | some i => (window.cursorRegions i).shape.toUInt8
  | none =>
    if 0 < window.titleH ∧ window.title ≠ [] ∧ s32 window.y ≤ cursor.y ∧
        cursor.y < s32 (window.y + window.titleH) then guiCursorHand
    else guiCursorArrow

def guiRefreshCursorShape (d : Desktop) : Desktop :=
  let shape := match guiHitTest d.cursor.x d.cursor.y d with
    | none => guiCursorArrow
    | some hit => guiShapeOver (d.windows hit) d.cursor
  { d with cursor := { d.cursor with shape } }

end Armonios
