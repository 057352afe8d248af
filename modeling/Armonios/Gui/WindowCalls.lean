import Armonios.Gui.Resize
import Armonios.Process.Trap

/-!
# The system calls on windows

The calls 70 to 86 of `kernel/syscall.c`, with the ownership check of `kernel/syscall_helpers.c`. A call is made by a
process, or by the kernel (`none`); an error is the negative value that it returns, and keeps what was done until then.

* `Only`: what changes of the windows when an operation is on one of them;
* `OwnStep`: an operation on one window, which changes nothing where it fails.
-/

namespace Armonios

def errPerm : Int := -13

def windowTextMax : Nat := 128

/-- What the calls work on: the desktop, if there is one; the damage calls; and the words that are written to the buffer
of the caller. -/
structure WindowState where
  desktop : Option Desktop
  calls : List DamageCall
  out : List UInt32

abbrev WindowM := EStateM Int WindowState

/-- `gui_desktop`, or the error of the caller. -/
def guiDesktop : WindowM Desktop := do
  match (← get).desktop with
  | none => throw errAgain
  | some d => return d

def onDesktop {α : Type} (f : Desktop → Step α) : WindowM α := do
  let step := f (← guiDesktop)
  modify fun s => { s with desktop := some step.desktop, calls := s.calls ++ step.calls }
  return step.value

/-- A function of the GUI whose failure is the error `e` of the call. -/
def guiCall (e : Int) (f : Desktop → Step Bool) : WindowM Unit := do
  if (← onDesktop f) = false then throw e

def redrawRequested : WindowM Unit := modify fun s => { s with calls := s.calls ++ [.redraw] }

def writeOut (words : List UInt32) : WindowM Unit := modify fun s => { s with out := s.out ++ words }

def GuiEventType.code : GuiEventType → UInt32
  | keyPress => 1
  | keyRelease => 2
  | mouseClick => 3
  | mouseMove => 4
  | resize => 5
  | close => 6
  | minimize => 7
  | maximize => 8

/-- The loop of `sys_window_event` with `left` places in the buffer. -/
def popEvents : (left : Nat) → Window → List GuiEvent × Window
  | 0, window => ([], window)
  | left + 1, window =>
    match guiWindowPopEvent window with
    | none => ([], window)
    | some (event, window) => (event :: (popEvents left window).1, (popEvents left window).2)

/-- The pid as the `uint32_t` that it is. -/
def Process.pid32 (p : Process) : UInt32 := UInt32.ofNat p.pid

/-! ## Calls -/

section Calls

variable (byte : Nat → UInt8) (kmalloc : Kmalloc) (process : Option Process)

def sysUserBufOut (ptr len : Nat) : WindowM Unit := do
  if process.any (fun p => userBufRange p ptr len) = false then throw errInval

/-- `sys_user_copy_cstr` into a buffer of `capacity` bytes. -/
def copyCstr (ptr : UInt64) (capacity : Nat) : WindowM Path := do
  match process.bind fun p => sysUserCopyCstr byte p ptr.toNat capacity 0 with
  | none => throw errInval
  | some text => return text

/-- `owner_window_lookup`. -/
def ownerWindowLookup (windowId : UInt64) (missingError : Int) : WindowM WindowId := do
  match process with
  | none => throw errInval
  | some p =>
    if guiMaxWindows ≤ windowId.toNat then throw errInval
    let d ← guiDesktop
    match d.usedWindow windowId.toUInt32 with
    | none => throw missingError
    | some i =>
      if (d.windows i).ownerPid ≠ p.pid32 then throw errBadf
      return i

def sysOwnerWindow (windowId : UInt64) : WindowM WindowId := ownerWindowLookup process windowId errNoent

def sysOwnerWindowBadf (windowId : UInt64) : WindowM WindowId := ownerWindowLookup process windowId errBadf

/-- The check of the calls that are for every process. -/
def anyWindow (windowId : UInt64) : WindowM WindowId := do
  if process.isNone ∨ guiMaxWindows ≤ windowId.toNat then throw errInval
  let d ← guiDesktop
  match d.usedWindow windowId.toUInt32 with
  | none => throw errNoent
  | some i => return i

def sysWindowCreate (x y w h bg border titlePtr : UInt64) : WindowM Int := do
  match process with
  | none => throw errInval
  | some p =>
    if 2 ^ 32 ≤ x.toNat ∨ 2 ^ 32 ≤ y.toNat ∨ 2 ^ 32 ≤ w.toNat ∨ 2 ^ 32 ≤ h.toNat ∨ w < 8 ∨ h < 8 ∨
        2 ^ 32 ≤ bg.toNat ∨ 2 ^ 32 ≤ border.toNat then throw errInval
    let title ← if titlePtr = 0 then pure [] else copyCstr byte process titlePtr guiTitleLen
    let created ← onDesktop (guiCreateWindowForPid p.pid32 x.toUInt32 y.toUInt32 w.toUInt32 h.toUInt32 bg.toUInt32
      border.toUInt32 (some title))
    match created with
    | none => throw errAgain
    | some i =>
      redrawRequested
      return i.val

def sysWindowDestroy (windowId : UInt64) : WindowM Int := do
  let _ ← sysOwnerWindow process windowId
  guiCall errBadf (guiDestroyWindow windowId.toUInt32)
  redrawRequested
  return 0

def sysWindowDrawText (windowId x y color strPtr : UInt64) : WindowM Int := do
  if process.isNone ∨ guiMaxWindows ≤ windowId.toNat ∨ 2 ^ 31 ≤ x.toNat ∨ 2 ^ 31 ≤ y.toNat ∨
      2 ^ 32 ≤ color.toNat then throw errInval
  let _ ← sysOwnerWindowBadf process windowId
  let text ← copyCstr byte process strPtr windowTextMax
  guiCall errBadf (guiWindowDrawText kmalloc windowId.toUInt32 x.toNat y.toNat text color.toUInt32)
  return 0

def sysWindowDrawRect (windowId x y w h color : UInt64) : WindowM Int := do
  if process.isNone ∨ guiMaxWindows ≤ windowId.toNat ∨ 2 ^ 31 ≤ x.toNat ∨ 2 ^ 31 ≤ y.toNat ∨
      2 ^ 32 ≤ w.toNat ∨ 2 ^ 32 ≤ h.toNat ∨ 2 ^ 32 ≤ color.toNat then throw errInval
  let _ ← sysOwnerWindowBadf process windowId
  guiCall errBadf
    (guiWindowDrawRect kmalloc windowId.toUInt32 x.toNat y.toNat w.toUInt32 h.toUInt32 color.toUInt32)
  return 0

def sysWindowSetTitle (windowId titlePtr titleH : UInt64) : WindowM Int := do
  if process.isNone ∨ guiMaxWindows ≤ windowId.toNat then throw errInval
  let _ ← sysOwnerWindowBadf process windowId
  let title ← copyCstr byte process titlePtr guiTitleLen
  guiCall errBadf (guiWindowSetTitleInternal windowId.toUInt32 (some title))
  redrawRequested
  -- 0 stands for no title bar of the kernel, as in the calls of older programs
  if titleH = 0 then return 0
  guiCall errInval (guiWindowSetTitleBarInternal windowId.toUInt32 titleH.toUInt32)
  return 0

def sysWindowRedraw (windowId : UInt64) : WindowM Int := do
  let _ ← sysOwnerWindowBadf process windowId
  redrawRequested
  return 0

/-- For every process: the taskbar raises windows that it has not created. -/
def sysWindowFocus (windowId : UInt64) : WindowM Int := do
  let _ ← anyWindow process windowId
  guiCall errInval (guiFocusWindow windowId.toUInt32)
  redrawRequested
  return 0

def sysWindowForPid (ownerPid index : UInt64) : WindowM Int := do
  if process.isNone ∨ 2 ^ 32 ≤ ownerPid.toNat ∨ guiMaxWindows ≤ index.toNat then throw errInval
  let d ← guiDesktop
  match guiWindowForPid ownerPid.toUInt32 index.toUInt32 d with
  | none => throw errNoent
  | some i => return i.val

def sysCursorSetShape (shape : UInt64) : WindowM Int := do
  if process.isNone ∨ 2 ^ 32 ≤ shape.toNat then throw errInval
  guiCall errInval (guiSetCursorShape shape.toUInt32)
  redrawRequested
  return 0

/-- The check of the owner is written out here, and lets a window of the kernel through. -/
def sysCursorRegisterRegion (win slot x y w h shape : UInt64) : WindowM Int := do
  match process with
  | none => throw errInval
  | some p =>
    if 2 ^ 32 ≤ win.toNat ∨ 2 ^ 32 ≤ slot.toNat ∨ 2 ^ 31 ≤ x.toNat ∨ 2 ^ 31 ≤ y.toNat ∨ 2 ^ 31 ≤ w.toNat ∨
        2 ^ 31 ≤ h.toNat ∨ 2 ^ 32 ≤ shape.toNat then throw errInval
    let d ← guiDesktop
    match d.usedWindow win.toUInt32 with
    | none => throw errNoent
    | some i =>
      if (d.windows i).ownerPid ≠ guiNoOwner ∧ (d.windows i).ownerPid ≠ p.pid32 then throw errPerm
      guiCall errInval (guiRegisterCursorRegion win.toUInt32 slot.toUInt32 x.toNat y.toNat w.toUInt32 h.toUInt32
        shape.toUInt32)
      redrawRequested
      return 0

def sysWindowFlush (windowId x y w h : UInt64) : WindowM Int := do
  if process.isNone ∨ guiMaxWindows ≤ windowId.toNat ∨ 2 ^ 31 ≤ x.toNat ∨ 2 ^ 31 ≤ y.toNat ∨ 2 ^ 31 ≤ w.toNat ∨
      2 ^ 31 ≤ h.toNat then throw errInval
  let i ← sysOwnerWindowBadf process windowId
  if w = 0 ∨ h = 0 then return 0
  let window := (← guiDesktop).windows i
  modify fun s => { s with calls := s.calls ++ [.add (i32 (s32 window.x + x.toNat))
    (i32 (i32 (s32 window.y + s32 window.titleH) + y.toNat)) w.toNat h.toNat] }
  return 0

def sysWindowGetBounds (windowId outPtr : UInt64) : WindowM Int := do
  sysUserBufOut process outPtr.toNat 16
  let i ← sysOwnerWindow process windowId
  let window := (← guiDesktop).windows i
  writeOut [window.x, window.y, window.w, window.h]
  return 0

def sysWindowSetBounds (windowId x y w h : UInt64) : WindowM Int := do
  if process.isNone ∨ guiMaxWindows ≤ windowId.toNat ∨ 2 ^ 31 ≤ x.toNat ∨ 2 ^ 31 ≤ y.toNat ∨
      2 ^ 32 ≤ w.toNat ∨ 2 ^ 32 ≤ h.toNat then throw errInval
  let _ ← sysOwnerWindow process windowId
  guiCall errInval
    (guiResizeWindow kmalloc windowId.toUInt32 x.toUInt32 y.toUInt32 w.toUInt32 h.toUInt32)
  return 0

def sysWindowMinimize (windowId : UInt64) : WindowM Int := do
  let _ ← sysOwnerWindow process windowId
  guiCall errInval (guiWindowMinimize windowId.toUInt32)
  return 0

/-- For every process, as `sys_window_focus`. -/
def sysWindowRestore (windowId : UInt64) : WindowM Int := do
  let _ ← anyWindow process windowId
  guiCall errInval (guiWindowRestore windowId.toUInt32)
  return 0

def sysWindowState (windowId outPtr : UInt64) : WindowM Int := do
  sysUserBufOut process outPtr.toNat 4
  let i ← anyWindow process windowId
  let d ← guiDesktop
  let minimized : UInt32 := if (d.windows i).minimized then 1 else 0
  let focused : UInt32 := if d.focusedWindowId = some i ∧ (d.windows i).Focusable then 2 else 0
  writeOut [minimized ||| focused]
  return 0

def sysWindowEvent (windowId bufPtr bufCount : UInt64) : WindowM Int := do
  if process.isNone ∨ guiMaxWindows ≤ windowId.toNat ∨ bufCount = 0 ∨ 64 < bufCount then throw errInval
  sysUserBufOut process bufPtr.toNat (bufCount.toNat * 12)
  let i ← sysOwnerWindowBadf process windowId
  let window := (← guiDesktop).windows i
  if window.events = [] then throw errAgain
  let popped := popEvents bufCount.toNat window
  onDesktop fun d => ⟨(), d.setWindow i popped.2, []⟩
  writeOut (popped.1.flatMap fun event => [event.type.code, u32 event.data1, u32 event.data2])
  return popped.1.length

end Calls

/-- A system call on windows with its arguments. -/
inductive WindowCall
  | create (x y w h bg border titlePtr : UInt64)
  | destroy (windowId : UInt64)
  | drawText (windowId x y color strPtr : UInt64)
  | drawRect (windowId x y w h color : UInt64)
  | event (windowId bufPtr bufCount : UInt64)
  | setTitle (windowId titlePtr titleH : UInt64)
  | redraw (windowId : UInt64)
  | focus (windowId : UInt64)
  | forPid (ownerPid index : UInt64)
  | setShape (shape : UInt64)
  | flush (windowId x y w h : UInt64)
  | getBounds (windowId outPtr : UInt64)
  | setBounds (windowId x y w h : UInt64)
  | minimize (windowId : UInt64)
  | restore (windowId : UInt64)
  | state (windowId outPtr : UInt64)
  | registerRegion (win slot x y w h shape : UInt64)

/-- The call with the number and the arguments of a frame. -/
def WindowCall.ofFrame (frame : Frame) : Option WindowCall :=
  let x := frame.arg
  match (x 8).toNat with
  | 70 => some (.create (x 0) (x 1) (x 2) (x 3) (x 4) (x 5) (x 6))
  | 71 => some (.destroy (x 0))
  | 72 => some (.drawText (x 0) (x 1) (x 2) (x 3) (x 4))
  | 73 => some (.drawRect (x 0) (x 1) (x 2) (x 3) (x 4) (x 5))
  | 74 => some (.event (x 0) (x 1) (x 2))
  | 75 => some (.setTitle (x 0) (x 1) (x 2))
  | 76 => some (.redraw (x 0))
  | 77 => some (.focus (x 0))
  | 78 => some (.forPid (x 0) (x 1))
  | 79 => some (.setShape (x 0))
  | 80 => some (.flush (x 0) (x 1) (x 2) (x 3) (x 4))
  | 81 => some (.getBounds (x 0) (x 1))
  | 82 => some (.setBounds (x 0) (x 1) (x 2) (x 3) (x 4))
  | 83 => some (.minimize (x 0))
  | 84 => some (.restore (x 0))
  | 85 => some (.state (x 0) (x 1))
  | 86 => some (.registerRegion (x 0) (x 1) (x 2) (x 3) (x 4) (x 5) (x 6))
  | _ => none

def WindowCall.exec (byte : Nat → UInt8) (kmalloc : Kmalloc) (process : Option Process) : WindowCall → WindowM Int
  | create x y w h bg border titlePtr => sysWindowCreate byte process x y w h bg border titlePtr
  | destroy windowId => sysWindowDestroy process windowId
  | drawText windowId x y color strPtr => sysWindowDrawText byte kmalloc process windowId x y color strPtr
  | drawRect windowId x y w h color => sysWindowDrawRect kmalloc process windowId x y w h color
  | event windowId bufPtr bufCount => sysWindowEvent process windowId bufPtr bufCount
  | setTitle windowId titlePtr titleH => sysWindowSetTitle byte process windowId titlePtr titleH
  | redraw windowId => sysWindowRedraw process windowId
  | focus windowId => sysWindowFocus process windowId
  | forPid ownerPid index => sysWindowForPid process ownerPid index
  | setShape shape => sysCursorSetShape process shape
  | flush windowId x y w h => sysWindowFlush process windowId x y w h
  | getBounds windowId outPtr => sysWindowGetBounds process windowId outPtr
  | setBounds windowId x y w h => sysWindowSetBounds kmalloc process windowId x y w h
  | minimize windowId => sysWindowMinimize process windowId
  | restore windowId => sysWindowRestore process windowId
  | state windowId outPtr => sysWindowState process windowId outPtr
  | registerRegion win slot x y w h shape => sysCursorRegisterRegion process win slot x y w h shape

/-! ## The operations, one window each -/

section Operations

variable {d d' : Desktop} {i : WindowId} {kmalloc : Kmalloc} {windowId : UInt32}

/-- Only the window in `i` has changed, and it has not got an owner. -/
structure Only (i : WindowId) (d d' : Desktop) : Prop where
  others : ∀ j, j ≠ i → d'.windows j = d.windows j
  owner : (d'.windows i).used = true → (d.windows i).used = true ∧ (d'.windows i).ownerPid = (d.windows i).ownerPid

theorem Only.refl (i : WindowId) (d : Desktop) : Only i d d := ⟨fun _ _ => rfl, fun h => ⟨h, rfl⟩⟩

theorem Only.of_windows {e : Desktop} (h : Only i d d') (he : e.windows = d'.windows) : Only i d e := by
  refine ⟨fun j hj => ?_, fun hu => ?_⟩
  · rw [he]
    exact h.others j hj
  · rw [he] at hu ⊢
    exact h.owner hu

theorem Only.setWindow {window : Window} (hused : window.used = true → (d.windows i).used = true)
    (howner : window.used = true → window.ownerPid = (d.windows i).ownerPid) : Only i d (d.setWindow i window) := by
  refine ⟨fun j hj => Function.update_of_ne hj _ _, fun hu => ?_⟩
  simp only [Desktop.setWindow, Function.update_self] at hu ⊢
  exact ⟨hused hu, howner hu⟩

/-- An operation on the window in `i` that changes nothing where it fails. -/
structure OwnStep (i : WindowId) (d : Desktop) (s : Step Bool) : Prop where
  clean : s.value = false → s.desktop = d
  only : Only i d s.desktop

theorem OwnStep.fail (i : WindowId) (d : Desktop) : OwnStep i d (.fail d) := ⟨fun _ => rfl, .refl i d⟩

theorem OwnStep.done {calls : List DamageCall} (h : Only i d d') : OwnStep i d ⟨true, d', calls⟩ :=
  ⟨fun hno => Bool.noConfusion hno, h⟩

theorem Only.refreshed (h : Only i d d') : Only i d (guiRefreshCursorShape d') := h.of_windows rfl

theorem focusWindowEnsure_windows (d : Desktop) : (guiFocusWindowEnsure d).windows = d.windows := by
  unfold guiFocusWindowEnsure
  split <;> rfl

theorem destroyAt_only (i : WindowId) (d : Desktop) : Only i d (guiDestroyAt i d).desktop := by
  have hcleared : Only i d (d.setWindow i (guiClearedWindow (d.windows i))) :=
    Only.setWindow (fun h => absurd h (by simp [guiClearedWindow, guiWindowSetTitle]))
      fun h => absurd h (by simp [guiClearedWindow, guiWindowSetTitle])
  refine hcleared.of_windows ?_
  unfold guiDestroyAt
  dsimp only
  split
  · exact focusWindowEnsure_windows _
  · rfl

theorem destroyWindow_step (hi : d.usedWindow windowId = some i) : OwnStep i d (guiDestroyWindow windowId d) := by
  unfold guiDestroyWindow
  rw [hi]
  exact .done (destroyAt_only i d)

/-- A window that keeps what decides whose it is. -/
theorem Only.same {window : Window} (hused : window.used = (d.windows i).used)
    (howner : window.ownerPid = (d.windows i).ownerPid) : Only i d (d.setWindow i window) :=
  Only.setWindow (fun h => hused ▸ h) fun _ => howner

theorem setTitleBar_step {titleH : UInt32} (hi : d.usedWindow windowId = some i) :
    OwnStep i d (guiWindowSetTitleBarInternal windowId titleH d) := by
  unfold guiWindowSetTitleBarInternal
  rw [hi]
  dsimp only
  split
  · exact .fail i d
  · exact .done (Only.refreshed (.same rfl rfl))

theorem pushEvent_same (type : GuiEventType) (data1 data2 : Int) (window : Window) :
    (guiWindowPushEvent type data1 data2 window).used = window.used ∧
      (guiWindowPushEvent type data1 data2 window).ownerPid = window.ownerPid := by
  unfold guiWindowPushEvent
  repeat' split
  all_goals exact ⟨rfl, rfl⟩

theorem resizeWindow_only {x y w h : UInt32} (hi : d.usedWindow windowId = some i) :
    Only i d (guiResizeWindow kmalloc windowId x y w h d).desktop := by
  unfold guiResizeWindow
  split
  · exact .refl i d
  rw [hi]
  dsimp only
  have hset : ∀ window : Window, window.used = (d.windows i).used → window.ownerPid = (d.windows i).ownerPid →
      Only i d ((guiRefreshCursorShape (d.setWindow i { d.windows i with x, y, w, h })).setWindow i window) := by
    intro window hused howner
    refine (Only.same hused howner).of_windows ?_
    simp only [Desktop.setWindow, guiRefreshCursorShape, Function.update_idem]
  split
  · exact Only.refreshed (.same rfl rfl)
  split
  · exact hset _ rfl rfl
  · rename_i window hreset
    have hsame : window.used = (d.windows i).used ∧ window.ownerPid = (d.windows i).ownerPid := by
      obtain ⟨bytes, -, hrest⟩ := Option.bind_eq_some_iff.mp hreset
      split at hrest
      · cases hrest
        exact ⟨rfl, rfl⟩
      · obtain ⟨pixels, -, rfl⟩ := Option.map_eq_some_iff.mp hrest
        exact ⟨rfl, rfl⟩
    obtain ⟨hused, howner⟩ := pushEvent_same .resize (s32 w) (s32 h) window
    exact hset _ (hused.trans hsame.1) (howner.trans hsame.2)

theorem minimize_step (hi : d.usedWindow windowId = some i) : OwnStep i d (guiWindowMinimize windowId d) := by
  unfold guiWindowMinimize
  rw [hi]
  dsimp only
  split
  · exact .fail i d
  · obtain ⟨hused, howner⟩ := pushEvent_same .minimize 0 0 { d.windows i with minimized := true }
    exact .done (Only.same hused howner)

theorem ensureBacking_same {window window' : Window} (h : guiWindowEnsureBacking kmalloc window = some window') :
    window'.used = window.used ∧ window'.ownerPid = window.ownerPid := by
  obtain ⟨bytes, -, hrest⟩ := Option.bind_eq_some_iff.mp h
  split at hrest
  · cases hrest
    exact ⟨rfl, rfl⟩
  · obtain ⟨pixels, -, rfl⟩ := Option.map_eq_some_iff.mp hrest
    exact ⟨rfl, rfl⟩

/-- A drawing into the buffer of the window. -/
theorem drawContent_only {window : Window} (h : guiWindowEnsureBacking kmalloc (d.windows i) = some window)
    (paint : FbPaint) : Only i d (d.setWindow i (guiDrawContent window paint)) :=
  Only.same (ensureBacking_same h).1 (ensureBacking_same h).2

theorem drawText_step {x y : Int} {text : List UInt8} {color : UInt32} (hi : d.usedWindow windowId = some i) :
    OwnStep i d (guiWindowDrawText kmalloc windowId x y text color d) := by
  unfold guiWindowDrawText
  rw [hi]
  dsimp only
  split
  · exact .fail i d
  · rename_i window hbacking
    split
    · exact .done (drawContent_only hbacking _)
    · exact .done (drawContent_only hbacking _)

theorem drawRect_step {x y : Int} {w h color : UInt32} (hi : d.usedWindow windowId = some i) :
    OwnStep i d (guiWindowDrawRect kmalloc windowId x y w h color d) := by
  unfold guiWindowDrawRect
  rw [hi]
  dsimp only
  split
  · exact .done (.refl i d)
  split
  · exact .fail i d
  · rename_i window hbacking
    split
    · exact .done (drawContent_only hbacking _)
    · exact .done (drawContent_only hbacking _)

theorem registerRegion_step {slot : UInt32} {x y : Int} {w h shape : UInt32} (hi : d.usedWindow windowId = some i) :
    OwnStep i d (guiRegisterCursorRegion windowId slot x y w h shape d) := by
  have hput : ∀ slot region, OwnStep i d (guiPutCursorRegion i slot region d) := by
    intro slot region
    refine .done ?_
    split
    · exact Only.refreshed (.same rfl rfl)
    · exact .same rfl rfl
  unfold guiRegisterCursorRegion
  rw [hi]
  dsimp only
  split
  · split
    · exact hput _ _
    split
    · exact .fail i d
    split
    · exact .fail i d
    · exact hput _ _
  · exact .fail i d

theorem popEvents_same (left : Nat) (window : Window) :
    (popEvents left window).2.used = window.used ∧ (popEvents left window).2.ownerPid = window.ownerPid := by
  induction left generalizing window with
  | zero => exact ⟨rfl, rfl⟩
  | succ left ih =>
    unfold popEvents
    split
    · exact ⟨rfl, rfl⟩
    · rename_i event window' hpop
      obtain ⟨hused, howner⟩ := ih window'
      have hsame : window'.used = window.used ∧ window'.ownerPid = window.ownerPid := by
        unfold guiWindowPopEvent at hpop
        split at hpop
        · cases hpop
        split at hpop <;> cases hpop
        exact ⟨rfl, rfl⟩
      exact ⟨hused.trans hsame.1, howner.trans hsame.2⟩

end Operations

end Armonios
