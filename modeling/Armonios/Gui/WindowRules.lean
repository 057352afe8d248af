import Armonios.Gui.DamageCover

/-!
# What every operation keeps

The operations change a window in a few ways, and `WindowRules` lists them: a property of windows that has these
rules holds of every window after every operation (`GuiOp.run_ok`). The cursor stays in the range of an `int32_t`, and
so do the arguments of `gui_damage_add`.
-/

namespace Armonios

/-- A corner that an `int32_t` can hold. -/
def CornerFits (x y : UInt32) : Prop := x.toNat < 2 ^ 31 ∧ y.toNat < 2 ^ 31

/-- A property that holds of new and of destroyed windows, and is kept by every change of a window. -/
structure WindowRules (P : Window → Prop) : Prop where
  init (window : Window) : P (guiInitWindow window)
  new (ownerPid x y w h bgColor borderColor z : UInt32) (title : Option (List UInt8)) (hcorner : CornerFits x y) :
    P (guiNewWindow ownerPid x y w h bgColor borderColor z title)
  cleared (window : Window) : P (guiClearedWindow window)
  events {window : Window} (events : List GuiEvent) (hw : P window) : P { window with events }
  title {window : Window} (title : List UInt8) (hw : P window) : P { window with title }
  titleBar {window : Window} (titleH : UInt32) (hw : P window) : P { window with titleH }
  flags {window : Window} (flags : UInt32) (hw : P window) : P { window with flags }
  place {window : Window} (x y : UInt32) (hcorner : CornerFits x y) (hw : P window) : P { window with x, y }
  minimized {window : Window} (minimized : Bool) (hw : P window) : P { window with minimized }
  stack {window : Window} (z : UInt32) (hw : P window) : P { window with z }
  regions {window : Window} (cursorRegions : Fin guiMaxCursorRegions → CursorRegion) (hw : P window) :
    P { window with cursorRegions }
  reset {window window' : Window} {kmalloc : Kmalloc} {x y w h : UInt32} (hcorner : CornerFits x y) (hw : P window)
    (hreset : guiWindowResetBacking kmalloc { window with x, y, w, h } = some window') : P window'
  draw {window window' : Window} {kmalloc : Kmalloc} (paint : FbPaint) (hw : P window)
    (hensure : guiWindowEnsureBacking kmalloc window = some window') : P (guiDrawContent window' paint)

/-- The range of an `int32_t`. -/
def IsInt32 (n : Int) : Prop := -2147483648 ≤ n ∧ n < 2147483648

/-- The windows have the property, and the cursor is in the range of its type. -/
structure DesktopOk (P : Window → Prop) (d : Desktop) : Prop where
  windows : ∀ i, P (d.windows i)
  cursorX : IsInt32 d.cursor.x
  cursorY : IsInt32 d.cursor.y

def DamageCall.Ok : DamageCall → Prop
  | add x y w h => Int32Args x y w h
  | redraw => True

/-- An operation that keeps the property and the framebuffer. -/
structure Step.Ok {α : Type} (P : Window → Prop) (fb : FbSize) (s : Step α) : Prop where
  desktop : DesktopOk P s.desktop
  fb : s.desktop.fb = fb
  calls : ∀ call ∈ s.calls, call.Ok

variable {P : Window → Prop} {d d' : Desktop} {window : Window} {i : WindowId} {α : Type}

/-! ## Damage -/

theorem isInt32_i32 (n : Int) : IsInt32 (i32 n) := i32_bounds n

theorem isInt32_s32 (n : UInt32) : IsInt32 (s32 n) := i32_bounds n.toNat

theorem guiDamageWindow_ok (window : Window) : (guiDamageWindow window).Ok :=
  ⟨isInt32_s32 _, isInt32_s32 _, isInt32_s32 _, isInt32_s32 _⟩

theorem guiDamageUnion_ok {oldX oldY newX newY : Int} (oldW oldH newW newH : Int) (hox : IsInt32 oldX)
    (hoy : IsInt32 oldY) (hnx : IsInt32 newX) (hny : IsInt32 newY) :
    (guiDamageUnion oldX oldY oldW oldH newX newY newW newH).Ok := by
  unfold IsInt32 at hox hoy hnx hny
  exact ⟨⟨by omega, by omega⟩, ⟨by omega, by omega⟩, isInt32_i32 _, isInt32_i32 _⟩

/-! ## Desktops -/

/-- A corner on the screen. -/
theorem cornerFits {fb : FbSize} (hfb : fb.Fits) {x y : UInt32} (hx : x < fb.width) (hy : y < fb.height) :
    CornerFits x y := by
  have hx' := UInt32.lt_iff_toNat_lt.mp hx
  have hy' := UInt32.lt_iff_toNat_lt.mp hy
  obtain ⟨⟨-, hw⟩, -, hh⟩ := hfb
  exact ⟨by omega, by omega⟩

theorem DesktopOk.of_eq (hd : DesktopOk P d) (hwindows : d'.windows = d.windows) (hcursor : d'.cursor = d.cursor) :
    DesktopOk P d' := by
  obtain ⟨h, hx, hy⟩ := hd
  exact ⟨hwindows ▸ h, hcursor ▸ hx, hcursor ▸ hy⟩

theorem DesktopOk.refresh (hd : DesktopOk P d) : DesktopOk P (guiRefreshCursorShape d) :=
  ⟨hd.windows, hd.cursorX, hd.cursorY⟩

theorem DesktopOk.setWindow (hd : DesktopOk P d) (hw : P window) : DesktopOk P (d.setWindow i window) := by
  refine ⟨fun j => ?_, hd.cursorX, hd.cursorY⟩
  by_cases hj : j = i
  · rw [hj, Desktop.setWindow_windows, Function.update_self]
    exact hw
  · rw [Desktop.setWindow_windows, Function.update_of_ne hj]
    exact hd.windows j

theorem DesktopOk.focusEnsure (hd : DesktopOk P d) : DesktopOk P (guiFocusWindowEnsure d) := by
  unfold guiFocusWindowEnsure
  split
  · exact hd
  · exact ⟨hd.windows, hd.cursorX, hd.cursorY⟩

theorem guiFocusWindowEnsure_fb (d : Desktop) : (guiFocusWindowEnsure d).fb = d.fb := by
  unfold guiFocusWindowEnsure
  split <;> rfl

/-- Nothing is changed, and nothing recorded. -/
theorem DesktopOk.same (hd : DesktopOk P d) (a : α) : Step.Ok P d.fb ⟨a, d, []⟩ := ⟨hd, rfl, by simp⟩

theorem Step.Ok.unit {fb : FbSize} {s : Step α} (hs : s.Ok P fb) : s.unit.Ok P fb := ⟨hs.desktop, hs.fb, hs.calls⟩

/-! ## Windows -/

section Windows

variable (hP : WindowRules P)

include hP

theorem WindowRules.pushEvent (type : GuiEventType) (data1 data2 : Int) (hw : P window) :
    P (guiWindowPushEvent type data1 data2 window) := by
  unfold guiWindowPushEvent
  split_ifs
  · exact hw
  · exact hP.events _ hw
  · exact hw
  · exact hP.events _ hw
  · exact hP.events _ hw

theorem WindowRules.setTitle (title : Option (List UInt8)) (hw : P window) :
    P (guiApplyBuiltinPolicy (guiWindowSetTitle title window)) := by
  unfold guiApplyBuiltinPolicy
  split
  · exact hP.flags _ (hP.title _ hw)
  · exact hP.title _ hw

theorem DesktopOk.pushTo (hd : DesktopOk P d) (i : WindowId) (type : GuiEventType) (data1 data2 : Int) :
    DesktopOk P (guiPushTo i type data1 data2 d) := hd.setWindow (hP.pushEvent type data1 data2 (hd.windows i))

/-! ## The pool -/

theorem guiCreateWindowForPid_ok (hfb : d.fb.Fits) (hd : DesktopOk P d) (ownerPid x y w h bgColor borderColor : UInt32)
    (title : Option (List UInt8)) :
    (guiCreateWindowForPid ownerPid x y w h bgColor borderColor title d).Ok P d.fb := by
  unfold guiCreateWindowForPid
  split
  · exact hd.same none
  rename_i hargs
  simp only [not_or, UInt32.not_le] at hargs
  split
  · exact hd.same none
  · rename_i i _
    refine ⟨.refresh (.of_eq (hd.setWindow (i := i)
      (hP.new _ _ _ _ _ _ _ _ _ (cornerFits hfb hargs.2.2.1 hargs.2.2.2))) rfl rfl), rfl, fun call hcall => ?_⟩
    rw [List.mem_singleton.mp hcall]
    exact guiDamageWindow_ok _

theorem guiDestroyAt_ok (hd : DesktopOk P d) (i : WindowId) : (guiDestroyAt i d).Ok P d.fb := by
  have hcleared := hd.setWindow (i := i) (hP.cleared (d.windows i))
  refine ⟨?_, ?_, fun call hcall => ?_⟩
  · unfold guiDestroyAt
    dsimp only
    split
    · exact .refresh (.focusEnsure (.of_eq hcleared rfl rfl))
    · exact hcleared.refresh
  · unfold guiDestroyAt
    dsimp only
    split
    · exact guiFocusWindowEnsure_fb _
    · rfl
  · rw [List.mem_singleton.mp hcall]
    exact guiDamageWindow_ok _

theorem guiDestroyWindow_ok (hd : DesktopOk P d) (windowId : UInt32) : (guiDestroyWindow windowId d).Ok P d.fb := by
  unfold guiDestroyWindow
  split
  · exact hd.same false
  · exact guiDestroyAt_ok hP hd _

theorem guiDestroyIfOwned_ok {fb : FbSize} {s : Step Unit} (hs : s.Ok P fb) (pid : UInt32) (i : WindowId) :
    (guiDestroyIfOwned pid s i).Ok P fb := by
  unfold guiDestroyIfOwned
  split
  · obtain ⟨hdesktop, hfb, hcalls⟩ := guiDestroyAt_ok hP hs.desktop i
    exact ⟨hdesktop, hfb.trans hs.fb, List.forall_mem_append.mpr ⟨hs.calls, hcalls⟩⟩
  · exact hs

theorem guiDestroyWindowsForPid_ok (hd : DesktopOk P d) (pid : UInt32) :
    (guiDestroyWindowsForPid pid d).Ok P d.fb := by
  have hfold : ∀ (ids : List WindowId) (s : Step Unit), s.Ok P d.fb →
    (ids.foldl (guiDestroyIfOwned pid) s).Ok P d.fb := by
    intro ids
    induction ids with
    | nil => exact fun s hs => hs
    | cons i ids ih => exact fun s hs => ih _ (guiDestroyIfOwned_ok hP hs pid i)
  unfold guiDestroyWindowsForPid
  split
  · exact hd.same ()
  · exact hfold _ _ (hd.same ())

theorem guiWindowSetTitleInternal_ok (hd : DesktopOk P d) (windowId : UInt32) (title : Option (List UInt8)) :
    (guiWindowSetTitleInternal windowId title d).Ok P d.fb := by
  unfold guiWindowSetTitleInternal
  split
  · exact hd.same false
  · refine ⟨(hd.setWindow (hP.setTitle title (hd.windows _))).refresh, rfl, fun call hcall => ?_⟩
    dsimp only at hcall
    split at hcall
    · rw [List.mem_singleton.mp hcall]
      exact ⟨isInt32_s32 _, isInt32_s32 _, isInt32_s32 _, isInt32_s32 _⟩
    · cases hcall

theorem guiWindowSetTitleBarInternal_ok (hd : DesktopOk P d) (windowId titleH : UInt32) :
    (guiWindowSetTitleBarInternal windowId titleH d).Ok P d.fb := by
  unfold guiWindowSetTitleBarInternal
  split
  · exact hd.same false
  split
  · exact hd.same false
  · refine ⟨(hd.setWindow (hP.titleBar _ (hd.windows _))).refresh, rfl, fun call hcall => ?_⟩
    rw [List.mem_singleton.mp hcall]
    exact guiDamageWindow_ok _

theorem guiWindowSetFlagsInternal_ok (hd : DesktopOk P d) (windowId flags : UInt32) :
    (guiWindowSetFlagsInternal windowId flags d).Ok P d.fb := by
  unfold guiWindowSetFlagsInternal
  split
  · exact hd.same false
  rename_i i _
  have hflagged := hd.setWindow (i := i) (hP.flags flags (hd.windows i))
  have hunfocused : DesktopOk P (guiFocusWindowEnsure
      { d.setWindow i { d.windows i with flags } with focusedWindowId := none }) :=
        .focusEnsure (.of_eq hflagged rfl rfl)
  have hcall : ∀ call ∈ [guiDamageWindow (d.windows i)], call.Ok := by simp [guiDamageWindow_ok]
  dsimp only
  split_ifs
  · exact ⟨hunfocused.refresh, guiFocusWindowEnsure_fb _, hcall⟩
  · exact ⟨hflagged.refresh, rfl, hcall⟩
  · exact ⟨hunfocused, guiFocusWindowEnsure_fb _, by simp⟩
  · exact ⟨hflagged, rfl, by simp⟩

theorem guiMoveWindow_ok (hfb : d.fb.Fits) (hd : DesktopOk P d) (windowId x y : UInt32) :
    (guiMoveWindow windowId x y d).Ok P d.fb := by
  unfold guiMoveWindow
  split
  · exact hd.same false
  rename_i hargs
  simp only [not_or, UInt32.not_le] at hargs
  split
  · exact hd.same false
  · refine ⟨(hd.setWindow (hP.place x y (cornerFits hfb hargs.1 hargs.2) (hd.windows _))).refresh, rfl,
    fun call hcall => ?_⟩
    rw [List.mem_singleton.mp hcall]
    exact guiDamageUnion_ok _ _ _ _ (isInt32_s32 _) (isInt32_s32 _) (isInt32_s32 _) (isInt32_s32 _)

theorem guiResizeWindow_ok (hfb : d.fb.Fits) (hd : DesktopOk P d) (kmalloc : Kmalloc) (windowId x y w h : UInt32) :
    (guiResizeWindow kmalloc windowId x y w h d).Ok P d.fb := by
  unfold guiResizeWindow
  split
  · exact hd.same false
  rename_i hargs
  split
  · exact hd.same false
  rename_i i _
  have hcorner : CornerFits x y := by
    have hrect : GuiRectFitsFramebuffer d.fb x y w h := by_contra fun hnot => hargs (.inr (.inr hnot))
    exact cornerFits hfb hrect.2.2.1 hrect.2.2.2.1
  have hcall : ∀ call ∈ [guiDamageUnion (s32 (d.windows i).x) (s32 (d.windows i).y) (s32 (d.windows i).w)
      (s32 (d.windows i).h) (s32 x) (s32 y) (s32 w) (s32 h)], call.Ok := by
    simp [guiDamageUnion_ok, isInt32_s32]
  have hset : ∀ resized window : Window, P window → DesktopOk P
      ((guiRefreshCursorShape (d.setWindow i resized)).setWindow i window) := by
    intro resized window hw
    refine ⟨fun j => ?_, hd.cursorX, hd.cursorY⟩
    by_cases hj : j = i
    · simpa [hj] using hw
    · simpa [Function.update_of_ne hj] using hd.windows j
  dsimp only
  split
  · rename_i hsize
    refine ⟨.refresh (hd.setWindow ?_), rfl, hcall⟩
    rw [← hsize.1, ← hsize.2]
    exact hP.place x y hcorner (hd.windows i)
  split
  · exact ⟨hset _ _ (hd.windows i), rfl, by simp⟩
  · rename_i window hreset
    exact ⟨hset _ _ (hP.pushEvent _ _ _ (hP.reset hcorner (hd.windows i) hreset)), rfl, hcall⟩

theorem guiWindowMinimize_ok (hd : DesktopOk P d) (windowId : UInt32) : (guiWindowMinimize windowId d).Ok P d.fb := by
  unfold guiWindowMinimize
  split
  · exact hd.same false
  split
  · exact hd.same false
  · refine ⟨hd.setWindow (hP.pushEvent _ _ _ (hP.minimized true (hd.windows _))), rfl, fun call hcall => ?_⟩
    rw [List.mem_singleton.mp hcall]
    exact trivial

theorem guiWindowRestore_ok (hd : DesktopOk P d) (windowId : UInt32) : (guiWindowRestore windowId d).Ok P d.fb := by
  unfold guiWindowRestore
  split
  · exact hd.same false
  rename_i i _
  dsimp only
  split
  · exact hd.same false
  · have hrestored := hP.pushEvent .maximize 0 0 (hP.stack d.nextZ (hP.minimized false (hd.windows i)))
    refine ⟨.of_eq (hd.setWindow (i := i) hrestored) rfl rfl, rfl, fun call hcall => ?_⟩
    rw [List.mem_singleton.mp hcall]
    exact trivial

theorem guiFocusWindow_ok (hd : DesktopOk P d) (windowId : UInt32) : (guiFocusWindow windowId d).Ok P d.fb := by
  unfold guiFocusWindow
  split
  · exact hd.same false
  rename_i i _
  dsimp only
  split
  · refine ⟨hd, rfl, fun call hcall => ?_⟩
    rw [List.mem_singleton.mp hcall]
    exact guiDamageWindow_ok _
  · refine ⟨.refresh (.of_eq (hd.setWindow (i := i) (hP.stack d.nextZ (hd.windows i))) rfl rfl), rfl,
    fun call hcall => ?_⟩
    rcases List.mem_append.mp hcall with hcall | hcall
    · obtain ⟨window, -, rfl⟩ := List.mem_map.mp hcall
      exact guiDamageWindow_ok _
    · rw [List.mem_singleton.mp hcall]
      exact guiDamageWindow_ok _

/-! ## Content -/

/-- A drawing in a window, with the rectangle that is recorded. -/
theorem drawContent_ok (hd : DesktopOk P d) {kmalloc : Kmalloc} {value : α} (paint : FbPaint) {calls : List DamageCall}
    (hensure : guiWindowEnsureBacking kmalloc (d.windows i) = some window) (hcalls : ∀ call ∈ calls, call.Ok) :
    Step.Ok P d.fb ⟨value, d.setWindow i (guiDrawContent window paint), calls⟩ :=
  ⟨hd.setWindow (hP.draw paint (hd.windows i) hensure), rfl, hcalls⟩

theorem guiWindowDrawText_ok (hd : DesktopOk P d) (kmalloc : Kmalloc) (windowId : UInt32) (x y : Int)
    (text : List UInt8) (color : UInt32) : (guiWindowDrawText kmalloc windowId x y text color d).Ok P d.fb := by
  unfold guiWindowDrawText
  split
  · exact hd.same false
  split
  · exact hd.same false
  rename_i window hensure
  dsimp only
  split
  · exact drawContent_ok hP hd _ hensure (by simp)
  · refine drawContent_ok hP hd _ hensure fun call hcall => ?_
    rw [List.mem_singleton.mp hcall]
    refine ⟨isInt32_i32 _, isInt32_i32 _, ?_, ?_⟩
    · split
      · exact isInt32_i32 _
      · exact isInt32_s32 _
    · split
      · exact isInt32_i32 _
      · exact isInt32_s32 _

theorem guiWindowDrawRect_ok (hd : DesktopOk P d) (kmalloc : Kmalloc) (windowId : UInt32) (x y : Int)
    (w h color : UInt32) : (guiWindowDrawRect kmalloc windowId x y w h color d).Ok P d.fb := by
  unfold guiWindowDrawRect
  split
  · exact hd.same false
  split
  · exact hd.same true
  split
  · exact hd.same false
  rename_i window hensure
  dsimp only
  split
  · exact drawContent_ok hP hd _ hensure (by simp)
  · refine drawContent_ok hP hd _ hensure fun call hcall => ?_
    rw [List.mem_singleton.mp hcall]
    exact ⟨isInt32_i32 _, isInt32_i32 _, isInt32_i32 _, isInt32_i32 _⟩

theorem guiWindowClear_ok (hd : DesktopOk P d) (kmalloc : Kmalloc) (windowId color : UInt32) :
    (guiWindowClear kmalloc windowId color d).Ok P d.fb := by
  unfold guiWindowClear
  split
  · exact hd.same false
  split
  · exact hd.same false
  rename_i window hensure
  refine drawContent_ok hP hd _ hensure fun call hcall => ?_
  rw [List.mem_singleton.mp hcall]
  exact ⟨isInt32_s32 _, isInt32_i32 _, isInt32_s32 _, isInt32_s32 _⟩

/-! ## The cursor and the input -/

theorem guiRegisterCursorRegion_ok (hd : DesktopOk P d) (windowId slot : UInt32) (x y : Int) (w h shape : UInt32) :
    (guiRegisterCursorRegion windowId slot x y w h shape d).Ok P d.fb := by
  have hput : ∀ i slot region, (guiPutCursorRegion i slot region d).Ok P d.fb := by
    intro i slot region
    have hset := hd.setWindow (i := i) (hP.regions (Function.update (d.windows i).cursorRegions slot region)
      (hd.windows i))
    unfold guiPutCursorRegion
    refine ⟨?_, ?_, by simp⟩
    · dsimp only
      split
      · exact hset.refresh
      · exact hset
    · dsimp only
      split <;> rfl
  unfold guiRegisterCursorRegion
  split
  · exact hd.same false
  split_ifs
  · exact hput _ _ _
  · exact hd.same false
  · exact hd.same false
  · exact hput _ _ _
  · exact hd.same false

end Windows

theorem guiSetCursorShape_ok (hd : DesktopOk P d) (shape : UInt32) : (guiSetCursorShape shape d).Ok P d.fb := by
  unfold guiSetCursorShape
  split
  · exact hd.same false
  · exact ⟨⟨hd.windows, hd.cursorX, hd.cursorY⟩, rfl, by simp⟩

theorem isInt32_clamp {n : Int} (hn : IsInt32 n) (size : UInt32) : IsInt32 (guiClampCursor n size) := by
  unfold guiClampCursor
  dsimp only
  split
  · exact isInt32_i32 _
  · unfold IsInt32 at hn ⊢
    omega

theorem guiSetCursor_ok (hd : DesktopOk P d) {x y : Int} (hx : IsInt32 x) (hy : IsInt32 y) :
    (guiSetCursor x y d).Ok P d.fb := by
  have hx' := isInt32_clamp hx d.fb.width
  have hy' := isInt32_clamp hy d.fb.height
  refine ⟨.refresh ⟨hd.windows, hx', hy'⟩, rfl, fun call hcall => ?_⟩
  rw [List.mem_singleton.mp hcall]
  exact guiDamageUnion_ok _ _ _ _ hd.cursorX hd.cursorY hx' hy'

theorem guiCursorMove_ok (hd : DesktopOk P d) (dx dy : Int) : (guiCursorMove dx dy d).Ok P d.fb :=
  guiSetCursor_ok hd (isInt32_i32 _) (isInt32_i32 _)

theorem guiDragStart_ok (hd : DesktopOk P d) (windowId : UInt32) (offX offY : Int) :
    Step.Ok P d.fb ⟨(), guiDragStart windowId offX offY d, []⟩ := by
  unfold guiDragStart
  split
  · exact hd.same ()
  dsimp only
  split_ifs
  · exact hd.same ()
  · exact hd.same ()
  · exact ⟨⟨hd.windows, hd.cursorX, hd.cursorY⟩, rfl, by simp⟩

theorem guiDragUpdate_ok (hP : WindowRules P) (hd : DesktopOk P d) (cursorX cursorY : Int) :
    (guiDragUpdate cursorX cursorY d).Ok P d.fb := by
  unfold guiDragUpdate
  split
  · exact hd.same ()
  dsimp only
  split
  · exact ⟨⟨hd.windows, hd.cursorX, hd.cursorY⟩, rfl, by simp⟩
  · have hmax : ∀ n : Int, IsInt32 (max (i32 n) 0) := by
      intro n
      have := isInt32_i32 n
      unfold IsInt32 at this ⊢
      omega
    have hcorner : ∀ n m : Int, CornerFits (u32 (max (i32 n) 0)) (u32 (max (i32 m) 0)) := by
      intro n m
      have hn := hmax n
      have hm := hmax m
      unfold IsInt32 at hn hm
      rw [CornerFits, u32_toNat (by omega) (by omega), u32_toNat (by omega) (by omega)]
      omega
    refine ⟨.refresh (hd.setWindow (hP.place _ _ (hcorner _ _) (hd.windows _))), rfl, fun call hcall => ?_⟩
    rw [List.mem_singleton.mp hcall]
    exact guiDamageUnion_ok _ _ _ _ (isInt32_s32 _) (isInt32_s32 _) (hmax _) (hmax _)

theorem guiDragEnd_ok (hd : DesktopOk P d) : DesktopOk P (guiDragEnd d) := ⟨hd.windows, hd.cursorX, hd.cursorY⟩

theorem guiCursorButton_ok (hP : WindowRules P) (hd : DesktopOk P d) (button : UInt32) (pressed : Bool) :
    (guiCursorButton button pressed d).Ok P d.fb := by
  have hset : DesktopOk P (guiSetButton button pressed d) := ⟨hd.windows, hd.cursorX, hd.cursorY⟩
  unfold guiCursorButton
  split
  · exact hd.same ()
  dsimp only
  split
  · exact ⟨hset, rfl, by simp⟩
  split
  · exact (guiFocusWindow_ok hP hset _).unit
  · exact ⟨⟨hset.windows, hset.cursorX, hset.cursorY⟩, rfl, by simp⟩

theorem guiDispatchInput_ok (hP : WindowRules P) (hd : DesktopOk P d) (event : InputEvent) :
    DesktopOk P (guiDispatchInput event d) ∧ (guiDispatchInput event d).fb = d.fb := by
  have hpush : ∀ i type data1 data2, DesktopOk P (guiPushTo i type data1 data2 d) ∧
      (guiPushTo i type data1 data2 d).fb = d.fb := fun i type data1 data2 => ⟨hd.pushTo hP i type data1 data2, rfl⟩
  have hsame : DesktopOk P d ∧ d.fb = d.fb := ⟨hd, rfl⟩
  unfold guiDispatchInput
  dsimp only
  split
  · split
    · split
      · exact hpush _ _ _ _
      · exact hsame
    · exact hsame
  · split
    · split
      · exact hpush _ _ _ _
      · exact hsame
    · exact hsame
  · split
    · exact hpush _ _ _ _
    · exact hsame
  · exact hsame

theorem guiPressOn_ok (hP : WindowRules P) (hd : DesktopOk P d) (ownerDead : Window → Bool) (hit : WindowId) :
    (guiPressOn ownerDead hit d).Ok P d.fb := by
  have hpush : ∀ {d' : Desktop} i type data1 data2, DesktopOk P d' → d'.fb = d.fb →
      Step.Ok P d.fb ⟨(), guiPushTo i type data1 data2 d', []⟩ :=
    fun i type data1 data2 hd' hfb => ⟨hd'.pushTo hP i type data1 data2, hfb, by simp⟩
  unfold guiPressOn
  dsimp only
  split
  · split
    · exact (guiDestroyWindow_ok hP hd _).unit
    · exact hpush _ _ _ _ hd rfl
  · exact (guiWindowMinimize_ok hP hd _).unit
  · exact hpush _ _ _ _ hd rfl
  · have hdrag := guiDragStart_ok hd (windowWord hit) (i32 (d.cursor.x - s32 (d.windows hit).x))
      (i32 (d.cursor.y - s32 (d.windows hit).y))
    exact hpush _ _ _ _ hdrag.desktop hdrag.fb

theorem guiHandleDesktopInput_ok (hP : WindowRules P) (hd : DesktopOk P d) (ownerDead : Window → Bool)
    (event : InputEvent) : (guiHandleDesktopInput ownerDead event d).Ok P d.fb := by
  unfold guiHandleDesktopInput
  split
  · rename_i dx dy
    have hmoved := guiCursorMove_ok hd dx dy
    dsimp only
    split
    · have hdragged := guiDragUpdate_ok hP hmoved.desktop (guiCursorMove dx dy d).desktop.cursor.x
        (guiCursorMove dx dy d).desktop.cursor.y
      obtain ⟨hdispatched, hfb⟩ := guiDispatchInput_ok hP hdragged.desktop (.mouseMove dx dy)
      exact ⟨hdispatched, hfb.trans (hdragged.fb.trans hmoved.fb),
        List.forall_mem_append.mpr ⟨hmoved.calls, hdragged.calls⟩⟩
    · obtain ⟨hdispatched, hfb⟩ := guiDispatchInput_ok hP hmoved.desktop (.mouseMove dx dy)
      exact ⟨hdispatched, hfb.trans hmoved.fb, List.forall_mem_append.mpr ⟨hmoved.calls, by simp⟩⟩
  · rename_i button pressed
    have hclicked := guiCursorButton_ok hP hd button pressed
    dsimp only
    split
    · exact hclicked
    split
    · split
      · have hpressed := guiPressOn_ok hP hclicked.desktop ownerDead ‹_›
        exact ⟨hpressed.desktop, hpressed.fb.trans hclicked.fb,
          List.forall_mem_append.mpr ⟨hclicked.calls, hpressed.calls⟩⟩
      · exact hclicked
    · exact ⟨guiDragEnd_ok hclicked.desktop, hclicked.fb, hclicked.calls⟩
  · have hfocus := hd.focusEnsure
    dsimp only
    split
    · exact ⟨hfocus.pushTo hP _ _ _ _, guiFocusWindowEnsure_fb d, by simp⟩
    · exact ⟨hfocus, guiFocusWindowEnsure_fb d, by simp⟩
  · split
    · exact ⟨hd.pushTo hP _ _ _ _, rfl, by simp⟩
    · exact hd.same ()

/-! ## Runs -/

/-- The arguments that the callers give as `int32_t` are in its range. -/
def GuiOp.Typed : GuiOp → Prop
  | drawText _ _ x y _ _ => IsInt32 x ∧ IsInt32 y
  | drawRect _ _ x y _ _ _ => IsInt32 x ∧ IsInt32 y
  | setCursor x y => IsInt32 x ∧ IsInt32 y
  | flush x y w h => Int32Args x y w h
  | _ => True

def ScreenEvent.Typed : ScreenEvent → Prop
  | .op o => o.Typed
  | .clearDirty => True

theorem GuiOp.run_ok (hP : WindowRules P) (hfb : d.fb.Fits) (hd : DesktopOk P d) {op : GuiOp} (hop : op.Typed) :
    (op.run d).Ok P d.fb := by
  cases op with
  | create ownerPid x y w h bgColor borderColor title => exact (guiCreateWindowForPid_ok hP hfb hd _ _ _ _ _ _ _ _).unit
  | destroy windowId => exact (guiDestroyWindow_ok hP hd _).unit
  | destroyForPid pid => exact guiDestroyWindowsForPid_ok hP hd _
  | setTitle windowId title => exact (guiWindowSetTitleInternal_ok hP hd _ _).unit
  | setTitleBar windowId titleH => exact (guiWindowSetTitleBarInternal_ok hP hd _ _).unit
  | setFlags windowId flags => exact (guiWindowSetFlagsInternal_ok hP hd _ _).unit
  | move windowId x y => exact (guiMoveWindow_ok hP hfb hd _ _ _).unit
  | resize kmalloc windowId x y w h => exact (guiResizeWindow_ok hP hfb hd _ _ _ _ _ _).unit
  | minimize windowId => exact (guiWindowMinimize_ok hP hd _).unit
  | restore windowId => exact (guiWindowRestore_ok hP hd _).unit
  | focus windowId => exact (guiFocusWindow_ok hP hd _).unit
  | drawText kmalloc windowId x y text color => exact (guiWindowDrawText_ok hP hd _ _ _ _ _ _).unit
  | drawRect kmalloc windowId x y w h color => exact (guiWindowDrawRect_ok hP hd _ _ _ _ _ _ _).unit
  | clear kmalloc windowId color => exact (guiWindowClear_ok hP hd _ _ _).unit
  | registerRegion windowId slot x y w h shape => exact (guiRegisterCursorRegion_ok hP hd _ _ _ _ _ _ _).unit
  | setCursorShape shape => exact (guiSetCursorShape_ok hd _).unit
  | setCursor x y => exact guiSetCursor_ok hd hop.1 hop.2
  | cursorMove dx dy => exact guiCursorMove_ok hd _ _
  | dragStart windowId offX offY => exact guiDragStart_ok hd _ _ _
  | dragUpdate cursorX cursorY => exact guiDragUpdate_ok hP hd _ _
  | dragEnd => exact ⟨guiDragEnd_ok hd, rfl, by simp [GuiOp.run]⟩
  | cursorButton button pressed => exact guiCursorButton_ok hP hd _ _
  | input ownerDead event => exact guiHandleDesktopInput_ok hP hd _ _
  | popEvent i =>
    simp only [GuiOp.run]
    cases hpop : guiWindowPopEvent (d.windows i) with
    | none => exact hd.same ()
    | some popped =>
      obtain ⟨event, window⟩ := popped
      unfold guiWindowPopEvent at hpop
      split at hpop
      · cases hpop
      split at hpop
      · cases hpop
      · cases hpop
        exact ⟨hd.setWindow (hP.events _ (hd.windows i)), rfl, by simp⟩
  | flush x y w h =>
    refine ⟨hd, rfl, fun call hcall => ?_⟩
    rw [List.mem_singleton.mp hcall]
    exact hop
  | requestRedraw =>
    refine ⟨hd, rfl, fun call hcall => ?_⟩
    rw [List.mem_singleton.mp hcall]
    exact trivial

/-- A screen with a property of its windows, and with damage that is on it. -/
structure Screen.Ok (P : Window → Prop) (fb : FbSize) (s : Screen) : Prop where
  desktop : DesktopOk P s.desktop
  size : s.desktop.fb = fb
  damage : DamageOk fb s.damage

theorem runCalls_ok {fb : FbSize} (hfb : fb.Fits) {calls : List DamageCall} (hcalls : ∀ call ∈ calls, call.Ok)
    {s : Damage}
    (hs : DamageOk fb s) : DamageOk fb (calls.foldl (DamageCall.run fb) s) := by
  induction calls generalizing s with
  | nil => exact hs
  | cons call calls ih =>
    obtain ⟨hcall, hrest⟩ := List.forall_mem_cons.mp hcalls
    refine ih hrest ?_
    cases call with
    | add x y w h => exact (guiDamageAdd_ok hfb hs hcall).1
    | redraw => exact damageOk_redraw

theorem screenInit_ok {fb : FbSize} (hP : WindowRules P) (d : Desktop) : (Screen.init fb d).Ok P fb :=
  ⟨⟨fun i => hP.init (d.windows i), isInt32_s32 _, isInt32_s32 _⟩, rfl, damageOk_clear⟩

theorem Screen.Ok.step {fb : FbSize} {s : Screen} (hP : WindowRules P) (hfb : fb.Fits) (hs : s.Ok P fb)
    {e : ScreenEvent}
    (he : e.Typed) : (s.step e).Ok P fb := by
  cases e with
  | clearDirty => exact ⟨hs.desktop, hs.size, damageOk_clear⟩
  | op op =>
    have hop : (op.run s.desktop).Ok P s.desktop.fb := GuiOp.run_ok hP (hs.size ▸ hfb) hs.desktop he
    exact ⟨hop.desktop, hop.fb.trans hs.size, hs.size ▸ runCalls_ok (hs.size ▸ hfb) hop.calls (hs.size ▸ hs.damage)⟩

end Armonios
