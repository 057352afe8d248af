import Armonios.Gui.Stack

/-!
# Focus

The focused window is one that may have the focus, unless the focused window gets the title `"panel"`:
`gui_apply_builtin_policy` then sets `GUI_WINDOW_NO_FOCUS`, and `gui_window_set_title_internal` leaves the
focus where it is (`guiRun_focus`). `gui_window_set_flags_internal` looks for another window to focus.
-/

namespace Armonios

/-- The window that has the focus, if there is one, is in use and may have it. -/
def FocusOk (d : Desktop) : Prop := ∀ i ∈ d.focusedWindowId, (d.windows i).used = true ∧ (d.windows i).Focusable

/-- The title that `gui_window_set_title` stores. -/
def guiStoredTitle (title : Option (List UInt8)) : List UInt8 := (guiWindowSetTitle title zeroWindow).title

/-- The focused window does not get the title `"panel"`. -/
def GuiOp.TitleFocusable (d : Desktop) : GuiOp → Prop
  | setTitle windowId title => d.usedWindow windowId ≠ none → d.usedWindow windowId = d.focusedWindowId →
      guiStoredTitle title ≠ guiPanelTitle
  | _ => True

variable {d d' : Desktop} {i : WindowId} {window : Window}

/-- What the focus depends on. -/
def Desktop.policy (d : Desktop) : Option WindowId × (WindowId → Bool × UInt32) :=
  (d.focusedWindowId, fun i => ((d.windows i).used, (d.windows i).flags))

theorem FocusOk.of_policy (h : FocusOk d) (hpolicy : d'.policy = d.policy) : FocusOk d' := by
  obtain ⟨hfocus, hwindows⟩ := Prod.mk.inj hpolicy
  intro i hi
  obtain ⟨hused, hflags⟩ := Prod.mk.inj (congrFun hwindows i)
  rw [hfocus] at hi
  rw [Window.Focusable, hused, hflags]
  exact h i hi

theorem setWindow_policy (hused : window.used = (d.windows i).used) (hflags : window.flags = (d.windows i).flags) :
    (d.setWindow i window).policy = d.policy := by
  unfold Desktop.policy
  congr 1
  funext j
  by_cases hj : j = i
  · simp [hj, hused, hflags]
  · simp [Function.update_of_ne hj]

theorem refreshed_policy (hused : window.used = (d.windows i).used) (hflags : window.flags = (d.windows i).flags) :
    (guiRefreshCursorShape (d.setWindow i window)).policy = d.policy :=
  setWindow_policy hused hflags

/-- The focused window keeps what it had, and any other window may change. -/
theorem FocusOk.setWindow (h : FocusOk d)
    (hwindow : d.focusedWindowId = some i → window.used = true ∧ window.Focusable) :
      FocusOk (d.setWindow i window) := by
  intro j hj
  by_cases hji : j = i
  · subst hji
    simpa using hwindow hj
  · simpa [Function.update_of_ne hji] using h j hj

theorem FocusOk.refresh (h : FocusOk d) : FocusOk (guiRefreshCursorShape d) := h

theorem guiFocusWindowEnsure_focus (d : Desktop) : FocusOk (guiFocusWindowEnsure d) := by
  unfold guiFocusWindowEnsure
  split
  · rename_i hany
    intro i hi
    simpa [Option.mem_def.mp hi] using hany
  · intro i hi
    simpa using List.find?_some hi

@[simp] theorem guiWindowPushEvent_used (type : GuiEventType) (data1 data2 : Int) (window : Window) :
    (guiWindowPushEvent type data1 data2 window).used = window.used := by
  unfold guiWindowPushEvent
  split_ifs <;> rfl

@[simp] theorem guiWindowPushEvent_flags (type : GuiEventType) (data1 data2 : Int) (window : Window) :
    (guiWindowPushEvent type data1 data2 window).flags = window.flags := by
  unfold guiWindowPushEvent
  split_ifs <;> rfl

theorem guiPushTo_policy (i : WindowId) (type : GuiEventType) (data1 data2 : Int) (d : Desktop) :
    (guiPushTo i type data1 data2 d).policy = d.policy :=
  setWindow_policy (by simp) (by simp)

/-! ## The operations -/

theorem guiCreateWindowForPid_focus {ownerPid x y w h bgColor borderColor : UInt32} {title : Option (List UInt8)}
    (hd : FocusOk d) : FocusOk (guiCreateWindowForPid ownerPid x y w h bgColor borderColor title d).desktop := by
  unfold guiCreateWindowForPid
  split
  · exact hd
  split
  · exact hd
  rename_i i hfree
  have hunused : (d.windows i).used = false := by simpa using List.find?_some hfree
  obtain ⟨window, hwindow⟩ : ∃ window, window = guiNewWindow ownerPid x y w h bgColor borderColor d.nextZ title :=
    ⟨_, rfl⟩
  have hused : window.used = true := by
    have hlayout := congrArg Layout.used (guiNewWindow_layout ownerPid x y w h bgColor borderColor d.nextZ title)
    rw [hwindow]
    exact hlayout
  dsimp only
  rw [← hwindow]
  refine FocusOk.refresh ?_
  by_cases hfocus : d.focusedWindowId = none ∧ window.Focusable
  · simp only [hfocus, and_self, if_true]
    intro j hj
    cases hj
    simpa using ⟨hused, hfocus.2⟩
  · rw [if_neg hfocus]
    refine (hd.setWindow (i := i) fun hi => ?_ : FocusOk (d.setWindow i window))
    -- the focused window is in use
    have := (hd i hi).1
    rw [hunused] at this
    cases this

theorem guiDestroyAt_focus (hd : FocusOk d) (i : WindowId) : FocusOk (guiDestroyAt i d).desktop := by
  unfold guiDestroyAt
  dsimp only
  refine FocusOk.refresh ?_
  split
  · exact guiFocusWindowEnsure_focus _
  · exact hd.setWindow fun hi => absurd hi ‹_›

theorem guiDestroyWindow_focus (hd : FocusOk d) (windowId : UInt32) :
    FocusOk (guiDestroyWindow windowId d).desktop := by
  unfold guiDestroyWindow
  split
  · exact hd
  · exact guiDestroyAt_focus hd _

theorem guiDestroyWindowsForPid_focus (hd : FocusOk d) (pid : UInt32) :
    FocusOk (guiDestroyWindowsForPid pid d).desktop := by
  have hfold : ∀ (l : List WindowId) (s : Step Unit), FocusOk s.desktop →
      FocusOk (l.foldl (guiDestroyIfOwned pid) s).desktop := by
    intro l
    induction l with
    | nil => exact fun s hs => hs
    | cons i l ih =>
      intro s hs
      refine ih _ ?_
      unfold guiDestroyIfOwned
      split
      · exact guiDestroyAt_focus hs i
      · exact hs
  unfold guiDestroyWindowsForPid
  split
  · exact hd
  · exact hfold windowIds.reverse ⟨(), d, []⟩ hd

theorem panel_not_focusable (flags : UInt32) : (flags |||
    (guiWindowDock ||| guiWindowNoFocus ||| guiWindowNoDrag ||| guiWindowSkipTaskbar)) &&& guiWindowNoFocus ≠ 0 := by
  intro h
  have hdistrib : ∀ a b c : UInt32, (a ||| b) &&& c = (a &&& c) ||| (b &&& c) := fun a b c =>
    UInt32.toBitVec_inj.1 BitVec.and_or_distrib_right
  rw [hdistrib, UInt32.or_eq_zero_iff] at h
  exact absurd h.2 (by decide)

/-- The policy takes the focus from a window with the title of the panel. -/
theorem guiApplyBuiltinPolicy_focusable (hused : window.used = true) :
    (guiApplyBuiltinPolicy window).Focusable ↔ window.Focusable ∧ window.title ≠ guiPanelTitle := by
  unfold guiApplyBuiltinPolicy
  by_cases htitle : window.title = guiPanelTitle
  · rw [if_pos ⟨hused, htitle⟩]
    simpa [htitle, Window.Focusable] using panel_not_focusable window.flags
  · rw [if_neg (by simp [htitle])]
    simp [htitle]

theorem guiApplyBuiltinPolicy_used (window : Window) : (guiApplyBuiltinPolicy window).used = window.used :=
  congrArg Layout.used (guiApplyBuiltinPolicy_layout window)

theorem guiWindowSetTitleInternal_focus {windowId : UInt32} {title : Option (List UInt8)} (hd : FocusOk d) :
    FocusOk (guiWindowSetTitleInternal windowId title d).desktop ↔
      (d.usedWindow windowId ≠ none → d.usedWindow windowId = d.focusedWindowId →
        guiStoredTitle title ≠ guiPanelTitle) := by
  unfold guiWindowSetTitleInternal
  cases hi : d.usedWindow windowId with
  | none => simpa [Step.fail] using hd
  | some i =>
    have hused := usedWindow_some hi
    have hfocusable : (guiApplyBuiltinPolicy (guiWindowSetTitle title (d.windows i))).Focusable ↔ _ :=
      guiApplyBuiltinPolicy_focusable hused
    dsimp only
    constructor
    · intro h _ hfocus
      have hwindow := (h i hfocus.symm).2
      simp only [guiRefreshCursorShape_windows, Desktop.setWindow_windows, Function.update_self] at hwindow
      exact (hfocusable.mp hwindow).2
    · intro htitle
      refine FocusOk.refresh (hd.setWindow fun hfocus => ?_)
      refine ⟨(guiApplyBuiltinPolicy_used _).trans hused, hfocusable.mpr ⟨(hd i hfocus).2, ?_⟩⟩
      exact htitle (by simp) hfocus.symm

theorem guiWindowSetFlagsInternal_focus (hd : FocusOk d) (windowId flags : UInt32) :
    FocusOk (guiWindowSetFlagsInternal windowId flags d).desktop := by
  unfold guiWindowSetFlagsInternal
  split
  · exact hd
  rename_i i hi
  dsimp only
  generalize hflagged : (if flags &&& guiWindowNoFocus ≠ 0 ∧ d.focusedWindowId = some i then _ else _) = d'
  have hd' : FocusOk d' := by
    rw [← hflagged]
    split
    · exact guiFocusWindowEnsure_focus _
    · rename_i hcond
      refine hd.setWindow fun hfocus => ⟨usedWindow_some hi, ?_⟩
      by_contra hno
      exact hcond ⟨hno, hfocus⟩
  split
  · exact hd'.refresh
  · exact hd'

theorem guiMoveWindow_policy (windowId x y : UInt32) (d : Desktop) :
    (guiMoveWindow windowId x y d).desktop.policy = d.policy := by
  unfold guiMoveWindow
  split
  · rfl
  split
  · rfl
  · exact refreshed_policy rfl rfl

theorem guiWindowResetBacking_policy {kmalloc : Kmalloc} {window' : Window}
    (h : guiWindowResetBacking kmalloc window = some window') :
    window'.used = window.used ∧ window'.flags = window.flags := by
  obtain ⟨bytes, -, hrest⟩ := Option.bind_eq_some_iff.mp h
  split at hrest
  · cases hrest
    exact ⟨rfl, rfl⟩
  · obtain ⟨pixels, -, rfl⟩ := Option.map_eq_some_iff.mp hrest
    exact ⟨rfl, rfl⟩

theorem guiWindowEnsureBacking_policy {kmalloc : Kmalloc} {window' : Window}
    (h : guiWindowEnsureBacking kmalloc window = some window') :
    window'.used = window.used ∧ window'.flags = window.flags := by
  obtain ⟨bytes, -, hrest⟩ := Option.bind_eq_some_iff.mp h
  split at hrest
  · cases hrest
    exact ⟨rfl, rfl⟩
  · obtain ⟨pixels, -, rfl⟩ := Option.map_eq_some_iff.mp hrest
    exact ⟨rfl, rfl⟩

theorem guiResizeWindow_policy (kmalloc : Kmalloc) (windowId x y w h : UInt32) (d : Desktop) :
    (guiResizeWindow kmalloc windowId x y w h d).desktop.policy = d.policy := by
  unfold guiResizeWindow
  split
  · rfl
  split
  · rfl
  rename_i i _
  have hresized : (guiRefreshCursorShape (d.setWindow i { d.windows i with x, y, w, h })).policy = d.policy :=
    refreshed_policy rfl rfl
  have hwindow : ∀ window : Window, window.used = (d.windows i).used → window.flags = (d.windows i).flags →
      ((guiRefreshCursorShape (d.setWindow i { d.windows i with x, y, w, h })).setWindow i window).policy =
        d.policy := by
    intro window hused hflags
    exact (setWindow_policy (by simpa using hused) (by simpa using hflags)).trans hresized
  dsimp only
  split
  · exact hresized
  split
  · exact hwindow _ rfl rfl
  · rename_i window hreset
    obtain ⟨hused, hflags⟩ := guiWindowResetBacking_policy hreset
    exact hwindow _ (by simpa using hused) (by simpa using hflags)

theorem guiWindowMinimize_policy (windowId : UInt32) (d : Desktop) :
    (guiWindowMinimize windowId d).desktop.policy = d.policy := by
  unfold guiWindowMinimize
  split
  · rfl
  split
  · rfl
  · exact setWindow_policy (by simp) (by simp)

theorem guiWindowRestore_focus (hd : FocusOk d) (windowId : UInt32) :
    FocusOk (guiWindowRestore windowId d).desktop := by
  unfold guiWindowRestore
  split
  · exact hd
  rename_i i hi
  have hused := usedWindow_some hi
  dsimp only
  split
  · exact hd
  generalize hrestored : guiWindowPushEvent .maximize 0 0 { d.windows i with minimized := false, z := d.nextZ } = window
  have hwindow : window.used = true ∧ window.flags = (d.windows i).flags := by
    rw [← hrestored]
    exact ⟨by simpa using hused, by simp⟩
  by_cases hfocusable : (d.windows i).Focusable
  · intro j hj
    simp only [if_pos hfocusable] at hj
    cases hj
    simpa [Window.Focusable, hwindow] using hfocusable
  · rw [if_neg hfocusable]
    exact hd.setWindow fun hfocus => absurd (hd i hfocus).2 hfocusable

theorem guiFocusWindow_focus (hd : FocusOk d) (windowId : UInt32) : FocusOk (guiFocusWindow windowId d).desktop := by
  unfold guiFocusWindow
  split
  · exact hd
  rename_i i hi
  dsimp only
  split
  · exact hd
  · rename_i hfocusable
    refine FocusOk.refresh ?_
    intro j hj
    cases hj
    simpa [Window.Focusable] using ⟨usedWindow_some hi, not_not.mp hfocusable⟩

/-- A drawing leaves the focus. -/
theorem drawContent_policy {kmalloc : Kmalloc} (paint : FbPaint)
    (hensure : guiWindowEnsureBacking kmalloc (d.windows i) = some window) :
    (d.setWindow i (guiDrawContent window paint)).policy = d.policy := by
  obtain ⟨hused, hflags⟩ := guiWindowEnsureBacking_policy hensure
  exact setWindow_policy hused hflags

theorem guiPutCursorRegion_policy (i : WindowId) (slot : Fin guiMaxCursorRegions) (region : CursorRegion)
    (d : Desktop) : (guiPutCursorRegion i slot region d).desktop.policy = d.policy := by
  have hset : (d.setWindow i { d.windows i with
      cursorRegions := Function.update (d.windows i).cursorRegions slot region }).policy = d.policy :=
    setWindow_policy rfl rfl
  unfold guiPutCursorRegion
  dsimp only
  split <;> exact hset

theorem guiRegisterCursorRegion_policy (windowId slot : UInt32) (x y : Int) (w h shape : UInt32) (d : Desktop) :
    (guiRegisterCursorRegion windowId slot x y w h shape d).desktop.policy = d.policy := by
  unfold guiRegisterCursorRegion
  split
  · rfl
  split
  · split_ifs
    · exact guiPutCursorRegion_policy _ _ _ d
    · rfl
    · rfl
    · exact guiPutCursorRegion_policy _ _ _ d
  · rfl

theorem guiDragStart_policy (windowId : UInt32) (offX offY : Int) (d : Desktop) :
    (guiDragStart windowId offX offY d).policy = d.policy := by
  unfold guiDragStart
  split
  · rfl
  dsimp only
  split_ifs <;> rfl

theorem guiDragUpdate_policy (cursorX cursorY : Int) (d : Desktop) :
    (guiDragUpdate cursorX cursorY d).desktop.policy = d.policy := by
  unfold guiDragUpdate
  split
  · rfl
  dsimp only
  split
  · rfl
  · exact refreshed_policy rfl rfl

theorem guiDispatchInput_policy (event : InputEvent) (d : Desktop) : (guiDispatchInput event d).policy = d.policy := by
  unfold guiDispatchInput
  dsimp only
  cases event <;> simp only
  · split
    · split
      · exact guiPushTo_policy _ _ _ _ d
      · rfl
    · rfl
  · split
    · split
      · exact guiPushTo_policy _ _ _ _ d
      · rfl
    · rfl
  · split
    · exact guiPushTo_policy _ _ _ _ d
    · rfl

theorem guiCursorButton_focus (hd : FocusOk d) (button : UInt32) (pressed : Bool) :
    FocusOk (guiCursorButton button pressed d).desktop := by
  unfold guiCursorButton
  split
  · exact hd
  dsimp only
  split
  · exact hd
  split
  · exact guiFocusWindow_focus (d := guiSetButton button pressed d) hd _
  · intro i hi
    cases hi

theorem guiPressOn_focus (hd : FocusOk d) (ownerDead : Window → Bool) (hit : WindowId) :
    FocusOk (guiPressOn ownerDead hit d).desktop := by
  unfold guiPressOn
  dsimp only
  split
  · split
    · exact guiDestroyWindow_focus hd _
    · exact hd.of_policy (guiPushTo_policy _ _ _ _ d)
  · exact hd.of_policy (guiWindowMinimize_policy _ d)
  · exact hd.of_policy (guiPushTo_policy _ _ _ _ d)
  · exact hd.of_policy ((guiPushTo_policy _ _ _ _ _).trans (guiDragStart_policy _ _ _ d))

theorem guiHandleDesktopInput_focus (hd : FocusOk d) (ownerDead : Window → Bool) (event : InputEvent) :
    FocusOk (guiHandleDesktopInput ownerDead event d).desktop := by
  unfold guiHandleDesktopInput
  cases event with
  | mouseMove dx dy =>
    dsimp only
    refine FocusOk.of_policy ?_ (guiDispatchInput_policy _ _)
    split
    · exact FocusOk.of_policy (d := (guiCursorMove dx dy d).desktop) hd (guiDragUpdate_policy _ _ _)
    · exact hd
  | mouseButton button pressed =>
    have hclicked := guiCursorButton_focus hd button pressed
    dsimp only
    split_ifs
    · exact hclicked
    · split
      · exact guiPressOn_focus hclicked _ _
      · exact hclicked
    · exact hclicked
  | keyPress key =>
    have hensured := guiFocusWindowEnsure_focus d
    dsimp only
    split
    · exact hensured.of_policy (guiPushTo_policy _ _ _ _ _)
    · exact hensured
  | keyRelease key =>
    dsimp only
    split
    · exact hd.of_policy (guiPushTo_policy _ _ _ _ d)
    · exact hd

/-! ## Runs -/

theorem guiWindowDraw_policy (d : Desktop) :
    (∀ kmalloc windowId x y text color, (guiWindowDrawText kmalloc windowId x y text color d).desktop.policy =
      d.policy) ∧
    (∀ kmalloc windowId x y w h color,
      (guiWindowDrawRect kmalloc windowId x y w h color d).desktop.policy = d.policy) ∧
    (∀ kmalloc windowId color, (guiWindowClear kmalloc windowId color d).desktop.policy = d.policy) := by
  refine ⟨?_, ?_, ?_⟩
  · intro kmalloc windowId x y text color
    unfold guiWindowDrawText
    split
    · rfl
    split
    · rfl
    dsimp only
    split <;> exact drawContent_policy _ ‹_›
  · intro kmalloc windowId x y w h color
    unfold guiWindowDrawRect
    split
    · rfl
    split
    · rfl
    split
    · rfl
    dsimp only
    split <;> exact drawContent_policy _ ‹_›
  · intro kmalloc windowId color
    unfold guiWindowClear
    split
    · rfl
    split
    · rfl
    · exact drawContent_policy _ ‹_›

theorem GuiOp.run_focus {op : GuiOp} (hd : FocusOk d) : FocusOk (op.run d).desktop ↔ op.TitleFocusable d := by
  have hpolicy : ∀ {s : Step Unit}, s.desktop.policy = d.policy → (FocusOk s.desktop ↔ True) := fun hs =>
    iff_of_true (hd.of_policy hs) trivial
  obtain ⟨hdrawText, hdrawRect, hclear⟩ := guiWindowDraw_policy d
  cases op with
  | create ownerPid x y w h bgColor borderColor title => exact iff_of_true (guiCreateWindowForPid_focus hd) trivial
  | destroy windowId => exact iff_of_true (guiDestroyWindow_focus hd _) trivial
  | destroyForPid pid => exact iff_of_true (guiDestroyWindowsForPid_focus hd _) trivial
  | setTitle windowId title => exact guiWindowSetTitleInternal_focus hd
  | setTitleBar windowId titleH =>
    refine hpolicy ?_
    simp only [GuiOp.run, Step.unit, guiWindowSetTitleBarInternal]
    split
    · rfl
    split
    · rfl
    · exact refreshed_policy rfl rfl
  | setFlags windowId flags => exact iff_of_true (guiWindowSetFlagsInternal_focus hd _ _) trivial
  | move windowId x y => exact hpolicy (guiMoveWindow_policy _ _ _ d)
  | resize kmalloc windowId x y w h => exact hpolicy (guiResizeWindow_policy _ _ _ _ _ _ d)
  | minimize windowId => exact hpolicy (guiWindowMinimize_policy _ d)
  | restore windowId => exact iff_of_true (guiWindowRestore_focus hd _) trivial
  | focus windowId => exact iff_of_true (guiFocusWindow_focus hd _) trivial
  | drawText kmalloc windowId x y text color => exact hpolicy (hdrawText _ _ _ _ _ _)
  | drawRect kmalloc windowId x y w h color => exact hpolicy (hdrawRect _ _ _ _ _ _ _)
  | clear kmalloc windowId color => exact hpolicy (hclear _ _ _)
  | registerRegion windowId slot x y w h shape => exact hpolicy (guiRegisterCursorRegion_policy _ _ _ _ _ _ _ d)
  | setCursorShape shape =>
    refine hpolicy ?_
    simp only [GuiOp.run, Step.unit, guiSetCursorShape]
    split <;> rfl
  | setCursor x y => exact hpolicy rfl
  | cursorMove dx dy => exact hpolicy rfl
  | dragStart windowId offX offY => exact hpolicy (guiDragStart_policy _ _ _ d)
  | dragUpdate cursorX cursorY => exact hpolicy (guiDragUpdate_policy _ _ d)
  | dragEnd => exact hpolicy rfl
  | cursorButton button pressed => exact iff_of_true (guiCursorButton_focus hd _ _) trivial
  | input ownerDead event => exact iff_of_true (guiHandleDesktopInput_focus hd _ _) trivial
  | popEvent i =>
    refine hpolicy ?_
    simp only [GuiOp.run]
    cases hpop : guiWindowPopEvent (d.windows i) with
    | none => rfl
    | some event =>
      unfold guiWindowPopEvent at hpop
      split at hpop
      · cases hpop
      split at hpop <;> cases hpop
      exact setWindow_policy rfl rfl
  | flush x y w h => exact hpolicy rfl
  | requestRedraw => exact hpolicy rfl

/-- The focus is right in every state of a run exactly if the run never gives the focused window the title
`"panel"`. -/
theorem guiRun_focus (fb : FbSize) (backgroundColor : UInt32) (d : Desktop) (ops : List GuiOp) :
    Throughout (fun d op => (op.run d).desktop) FocusOk (guiInit fb backgroundColor d) ops ↔
      EachStep (fun d op => (op.run d).desktop) GuiOp.TitleFocusable (guiInit fb backgroundColor d) ops := by
  refine throughout_iff (Q := fun _ => True) (fun _ _ _ _ => trivial) (fun d op _ h => op.run_focus h) trivial ?_
  intro i hi
  cases hi

/-- A window has the focus and is then named `"panel"`. -/
theorem title_keeps_focus : ¬ FocusOk (guiRun (sampleDesktop ⟨10, 10⟩)
    [.create 1 0 0 8 8 0 0 none, .setTitle 0 (some guiPanelTitle)]) := by
  intro h
  have hfocus := h 0
  revert hfocus
  decide +kernel

end Armonios
