import Armonios.Gui.Focus

/-!
# Drags

`drag_window_id` is the place in the pool of the window that is dragged. `gui_destroy_window` leaves it, and
`gui_create_window_for_pid` may put another window into the same place while the button is held.

`Held` has ghosts beside the desktop: which creation the window in each place is, and on which creation the
last drag was started.

* `heldRun_follows`: when the place is that of the window on which the drag was started;
* `held_mouseMove`: then a mouse move moves no other window.
-/

namespace Armonios

structure Held where
  desktop : Desktop
  /-- The creation of the window in each place. -/
  creation : WindowId → Nat
  creations : Nat
  /-- The creation of the window on which the last drag was started. -/
  dragged : Nat

/-- The window that `gui_drag_start` starts to drag. -/
def guiDragStarts (windowId : UInt32) (offY : Int) (d : Desktop) : Option WindowId :=
  (d.usedWindow windowId).filter fun i => (d.windows i).flags &&& guiWindowNoDrag = 0 ∧
    ¬ (0 < (d.windows i).titleH ∧ (offY < 0 ∨ (d.windows i).titleH ≤ u32 offY))

/-- The desktop after the press of the left button has been looked at by `gui_cursor_button`. -/
def guiPressed (d : Desktop) : Desktop := (guiCursorButton 0 true d).desktop

/-- The window under the cursor, and the decoration of it under the cursor. -/
def guiPressHit (d : Desktop) : Option (WindowId × Option GuiDecorationSlot) :=
  (guiHitTest (guiPressed d).cursor.x (guiPressed d).cursor.y (guiPressed d)).map fun hit =>
    (hit, guiHitTestDecoration ((guiPressed d).windows hit) (guiPressed d).cursor.x (guiPressed d).cursor.y)

namespace GuiOp

/-- The window on which the operation starts a drag. -/
def starts (d : Desktop) : GuiOp → Option WindowId
  | dragStart windowId _ offY => guiDragStarts windowId offY d
  | input _ (.mouseButton button true) =>
    if button ≠ 0 then none
    else
      match guiPressHit d with
      | some (hit, none) =>
        guiDragStarts (windowWord hit) (i32 ((guiPressed d).cursor.y - s32 ((guiPressed d).windows hit).y))
          (guiPressed d)
      | _ => none
  | _ => none

/-- The operation destroys the window. -/
def Destroys (d : Desktop) (i : WindowId) : GuiOp → Prop
  | destroy windowId => d.usedWindow windowId = some i
  | destroyForPid pid => pid ≠ guiNoOwner ∧ (d.windows i).used = true ∧ (d.windows i).ownerPid = pid
  | input ownerDead (.mouseButton button true) =>
    button = 0 ∧ guiPressHit d = some (i, some .close) ∧ ownerDead ((guiPressed d).windows i) = true
  | _ => False

/-- The operation creates a window in this place. -/
def CreatesAt (d : Desktop) (i : WindowId) : GuiOp → Prop
  | create _ x y w h _ _ _ => 2 ≤ w ∧ 2 ≤ h ∧ x < d.fb.width ∧ y < d.fb.height ∧
      windowIds.find? (fun j => (d.windows j).used = false) = some i
  | _ => False

end GuiOp

/-- One operation, with the ghosts. -/
def heldStep (s : Held) (op : GuiOp) : Held :=
  let d := (op.run s.desktop).desktop
  { desktop := d
    creation := fun i =>
      if (s.desktop.windows i).used = false ∧ (d.windows i).used = true then s.creations + 1 else s.creation i
    creations := s.creations + 1
    dragged := match op.starts s.desktop with
      | some i => s.creation i
      | none => s.dragged }

/-- No drag is on, or the window on which it was started. -/
def FollowsOne (s : Held) : Prop :=
  ∀ i ∈ s.desktop.dragWindowId, (s.desktop.windows i).used = true ∧ s.creation i = s.dragged

/-- No window is dragged but the one on which the drag was started. -/
def FollowsNoOther (s : Held) : Prop :=
  ∀ i ∈ s.desktop.dragWindowId, (s.desktop.windows i).used = true → s.creation i = s.dragged

/-- The dragged window is not destroyed. -/
def DragKept (s : Held) (op : GuiOp) : Prop := ∀ i ∈ s.desktop.dragWindowId, ¬ op.Destroys s.desktop i

/-- No window is created in the place of the dragged window. -/
def PlaceKept (s : Held) (op : GuiOp) : Prop := ∀ i ∈ s.desktop.dragWindowId, ¬ op.CreatesAt s.desktop i

variable {s : Held} {d d' : Desktop} {i : WindowId} {op : GuiOp}

/-! ## What the operations do to the pool -/

/-- What a drag depends on. -/
def Desktop.pool (d : Desktop) : Option WindowId × (WindowId → Bool) := (d.dragWindowId, fun i => (d.windows i).used)

theorem setWindow_pool {window : Window} (h : window.used = (d.windows i).used) :
    (d.setWindow i window).pool = d.pool := by
  unfold Desktop.pool
  congr 1
  funext j
  by_cases hj : j = i <;> simp [hj, h, Function.update_of_ne]

theorem pool_of_arrangement (h : d'.arrangement = d.arrangement) : d'.pool = d.pool :=
  Prod.ext (congrArg Arrangement.dragWindowId h)
    (funext fun i => congrArg Layout.used (congrFun (congrArg Arrangement.layout h) i))

theorem guiPushTo_pool (i : WindowId) (type : GuiEventType) (data1 data2 : Int) (d : Desktop) :
    (guiPushTo i type data1 data2 d).pool = d.pool :=
  pool_of_arrangement (guiPushTo_arrangement _ _ _ _ d)

theorem guiWindowSetTitleBarInternal_pool (windowId titleH : UInt32) (d : Desktop) :
    (guiWindowSetTitleBarInternal windowId titleH d).desktop.pool = d.pool := by
  unfold guiWindowSetTitleBarInternal
  split
  · rfl
  rename_i i _
  split
  · rfl
  · exact (setWindow_pool (i := i) rfl : (d.setWindow i { d.windows i with titleH }).pool = d.pool)

theorem guiMoveWindow_pool (windowId x y : UInt32) (d : Desktop) :
    (guiMoveWindow windowId x y d).desktop.pool = d.pool := by
  unfold guiMoveWindow
  split
  · rfl
  split
  · rfl
  · rename_i i _
    exact (setWindow_pool (i := i) rfl : (d.setWindow i { d.windows i with x, y }).pool = d.pool)

theorem guiResizeWindow_pool (kmalloc : Kmalloc) (windowId x y w h : UInt32) (d : Desktop) :
    (guiResizeWindow kmalloc windowId x y w h d).desktop.pool = d.pool := by
  unfold guiResizeWindow
  split
  · rfl
  split
  · rfl
  rename_i i _
  have hresized : (guiRefreshCursorShape (d.setWindow i { d.windows i with x, y, w, h })).pool = d.pool :=
    (setWindow_pool (i := i) rfl : (d.setWindow i { d.windows i with x, y, w, h }).pool = d.pool)
  have hwindow : ∀ window : Window, window.used = (d.windows i).used →
      ((guiRefreshCursorShape (d.setWindow i { d.windows i with x, y, w, h })).setWindow i window).pool = d.pool :=
    fun window hused => (setWindow_pool (by simpa using hused)).trans hresized
  dsimp only
  split
  · exact hresized
  split
  · exact hwindow _ rfl
  · rename_i window hreset
    exact hwindow _ (by simpa using (guiWindowResetBacking_policy hreset).1)

theorem guiWindowRestore_pool (windowId : UInt32) (d : Desktop) :
    (guiWindowRestore windowId d).desktop.pool = d.pool := by
  unfold guiWindowRestore
  split
  · rfl
  rename_i i _
  dsimp only
  split
  · rfl
  · exact (setWindow_pool (i := i) (by simp) : (d.setWindow i
      (guiWindowPushEvent .maximize 0 0 { d.windows i with minimized := false, z := d.nextZ })).pool = d.pool)

theorem guiFocusWindow_pool (windowId : UInt32) (d : Desktop) : (guiFocusWindow windowId d).desktop.pool = d.pool := by
  unfold guiFocusWindow
  split
  · rfl
  rename_i i _
  dsimp only
  split
  · rfl
  · exact (setWindow_pool (i := i) rfl : (d.setWindow i { d.windows i with z := d.nextZ }).pool = d.pool)

theorem guiWindowDraw_pool (d : Desktop) :
    (∀ kmalloc windowId x y text color, (guiWindowDrawText kmalloc windowId x y text color d).desktop.pool = d.pool) ∧
    (∀ kmalloc windowId x y w h color, (guiWindowDrawRect kmalloc windowId x y w h color d).desktop.pool = d.pool) ∧
    (∀ kmalloc windowId color, (guiWindowClear kmalloc windowId color d).desktop.pool = d.pool) := by
  have hdraw : ∀ {kmalloc : Kmalloc} {window : Window} {i : WindowId} (paint : FbPaint),
      guiWindowEnsureBacking kmalloc (d.windows i) = some window →
      (d.setWindow i (guiDrawContent window paint)).pool = d.pool :=
    fun paint hensure => setWindow_pool (guiWindowEnsureBacking_policy hensure).1
  refine ⟨?_, ?_, ?_⟩
  · intro kmalloc windowId x y text color
    unfold guiWindowDrawText
    split
    · rfl
    split
    · rfl
    dsimp only
    split <;> exact hdraw _ ‹_›
  · intro kmalloc windowId x y w h color
    unfold guiWindowDrawRect
    split
    · rfl
    split
    · rfl
    split
    · rfl
    dsimp only
    split <;> exact hdraw _ ‹_›
  · intro kmalloc windowId color
    unfold guiWindowClear
    split
    · rfl
    split
    · rfl
    · exact hdraw _ ‹_›

theorem guiCursorButton_pool (button : UInt32) (pressed : Bool) (d : Desktop) :
    (guiCursorButton button pressed d).desktop.pool = d.pool := by
  unfold guiCursorButton
  split
  · rfl
  dsimp only
  split
  · rfl
  split
  · exact guiFocusWindow_pool _ (guiSetButton button pressed d)
  · rfl

theorem guiDestroyAt_pool (i : WindowId) (d : Desktop) : (guiDestroyAt i d).desktop.pool =
    (d.dragWindowId, fun j => if j = i then false else (d.windows j).used) := by
  have hcleared : (d.setWindow i (guiClearedWindow (d.windows i))).pool =
      (d.dragWindowId, fun j => if j = i then false else (d.windows j).used) := by
    unfold Desktop.pool
    congr 1
    funext j
    by_cases hj : j = i
    · simp [hj, guiClearedWindow, guiWindowSetTitle]
    · simp [hj, Function.update_of_ne]
  have hensure : ∀ d : Desktop, (guiFocusWindowEnsure d).pool = d.pool := fun d =>
    pool_of_arrangement (guiFocusWindowEnsure_arrangement d)
  unfold guiDestroyAt
  dsimp only
  split
  · exact (hensure _).trans hcleared
  · exact hcleared

theorem guiDragStart_pool (windowId : UInt32) (offX offY : Int) (d : Desktop) :
    (guiDragStart windowId offX offY d).pool =
      ((guiDragStarts windowId offY d).or d.dragWindowId, fun j => (d.windows j).used) := by
  unfold guiDragStart guiDragStarts
  cases hi : d.usedWindow windowId with
  | none => rfl
  | some i =>
    dsimp only
    rw [Option.filter_some]
    by_cases hflags : (d.windows i).flags &&& guiWindowNoDrag = 0
    · by_cases hbar : 0 < (d.windows i).titleH ∧ (offY < 0 ∨ (d.windows i).titleH ≤ u32 offY)
      · simp [hflags, hbar, Desktop.pool]
      · simp only [hflags, hbar, ne_eq, not_true, if_false, not_false_eq_true, and_self, decide_true, if_true]
        rfl
    · simp [hflags, Desktop.pool]

/-- The windows of a process are those that are destroyed for it. -/
theorem guiDestroyWindowsForPid_pool (pid : UInt32) (d : Desktop) : (guiDestroyWindowsForPid pid d).desktop.pool =
    (d.dragWindowId, fun i => (d.windows i).used &&
      !decide (pid ≠ guiNoOwner ∧ (d.windows i).used = true ∧ (d.windows i).ownerPid = pid)) := by
  unfold guiDestroyWindowsForPid
  split
  · rename_i hpid
    simp [hpid, Desktop.pool]
  rename_i hpid
  -- after some windows: the others are as before
  have hfold : ∀ (l : List WindowId) (s : Step Unit), (∀ i ∈ l, s.desktop.windows i = d.windows i) → l.Nodup →
      (l.foldl (guiDestroyIfOwned pid) s).desktop.pool = (s.desktop.dragWindowId, fun i =>
        (s.desktop.windows i).used && !decide (i ∈ l ∧ (d.windows i).used = true ∧ (d.windows i).ownerPid = pid)) := by
    intro l
    induction l with
    | nil => intro s _ _; simp [Desktop.pool]
    | cons i l ih =>
      intro s hs hnodup
      obtain ⟨hil, hl⟩ := List.nodup_cons.mp hnodup
      have hi := hs i (by simp)
      rw [List.foldl_cons]
      by_cases howned : (d.windows i).used = true ∧ (d.windows i).ownerPid = pid
      · have hturn : guiDestroyIfOwned pid s i =
            ⟨(), (guiDestroyAt i s.desktop).desktop, s.calls ++ (guiDestroyAt i s.desktop).calls⟩ := by
          rw [guiDestroyIfOwned, hi, if_pos howned]
        have hothers : ∀ j, j ≠ i → (guiDestroyAt i s.desktop).desktop.windows j = s.desktop.windows j := by
          intro j hj
          unfold guiDestroyAt
          dsimp only
          split <;> simp [Function.update_of_ne hj]
        obtain ⟨hdrag, hused⟩ := Prod.mk.inj (guiDestroyAt_pool i s.desktop)
        rw [hturn, ih _ (fun j hj => (hothers j fun h => hil (h ▸ hj)).trans (hs j (by simp [hj]))) hl]
        refine Prod.ext hdrag (funext fun j => ?_)
        have hj := congrFun hused j
        simp only at hj ⊢
        rw [hj]
        by_cases hji : j = i
        · simp [hji, howned]
        · simp [hji]
      · have hturn : guiDestroyIfOwned pid s i = s := by rw [guiDestroyIfOwned, hi, if_neg howned]
        rw [hturn, ih s (fun j hj => hs j (by simp [hj])) hl]
        refine Prod.ext rfl (funext fun j => ?_)
        by_cases hji : j = i
        · subst hji
          simp [hil, howned]
        · simp [hji]
  have hnodup : windowIds.reverse.Nodup := List.nodup_reverse.mpr (List.nodup_finRange _)
  refine (hfold windowIds.reverse ⟨(), d, []⟩ (fun _ _ => rfl) hnodup).trans ?_
  simp [windowIds, hpid]

theorem guiCreateWindowForPid_pool (ownerPid x y w h bgColor borderColor : UInt32) (title : Option (List UInt8))
    (d : Desktop) :
    (∃ i, (GuiOp.create ownerPid x y w h bgColor borderColor title).CreatesAt d i ∧
      (guiCreateWindowForPid ownerPid x y w h bgColor borderColor title d).desktop.pool =
        (d.dragWindowId, fun j => if j = i then true else (d.windows j).used)) ∨
    (∀ i, ¬ (GuiOp.create ownerPid x y w h bgColor borderColor title).CreatesAt d i) ∧
      (guiCreateWindowForPid ownerPid x y w h bgColor borderColor title d).desktop.pool = d.pool := by
  unfold guiCreateWindowForPid
  split
  · rename_i hargs
    refine .inr ⟨fun i hi => ?_, rfl⟩
    obtain ⟨hw, hh, hx, hy, -⟩ := hi
    simp only [UInt32.lt_iff_toNat_lt, UInt32.le_iff_toNat_le] at hargs hw hh hx hy
    omega
  rename_i hargs
  simp only [not_or, UInt32.not_lt, UInt32.not_le] at hargs
  split
  · rename_i hnone
    refine .inr ⟨fun i hi => ?_, rfl⟩
    obtain ⟨-, -, -, -, hfind⟩ := hi
    rw [hnone] at hfind
    cases hfind
  · rename_i i hfree
    refine .inl ⟨i, ⟨hargs.1, hargs.2.1, hargs.2.2.1, hargs.2.2.2, hfree⟩, ?_⟩
    have hused : (guiNewWindow ownerPid x y w h bgColor borderColor d.nextZ title).used = true :=
      congrArg Layout.used (guiNewWindow_layout ownerPid x y w h bgColor borderColor d.nextZ title)
    refine Prod.ext rfl (funext fun j => ?_)
    by_cases hj : j = i
    · subst hj
      simpa [Desktop.pool] using hused
    · simp [Desktop.pool, hj, Function.update_of_ne]

/-! ## One operation -/

/-- What an operation does to the places of the pool and to the drag. -/
structure PoolStep (d : Desktop) (op : GuiOp) (d' : Desktop) : Prop where
  created : ∀ i, op.CreatesAt d i ↔ (d.windows i).used = false ∧ (d'.windows i).used = true
  destroyed : ∀ i, op.Destroys d i ↔ (d.windows i).used = true ∧ (d'.windows i).used = false
  started : ∀ i, op.starts d = some i →
    d'.dragWindowId = some i ∧ (d.windows i).used = true ∧ (d'.windows i).used = true
  going : op.starts d = none → d'.dragWindowId = d.dragWindowId ∨ d'.dragWindowId = none
  held : ∀ i, op.CreatesAt d i ∨ op.Destroys d i → d'.dragWindowId = d.dragWindowId

/-- An operation that leaves the places as they are. -/
theorem PoolStep.of_used (hcreates : ∀ i, ¬ op.CreatesAt d i) (hdestroys : ∀ i, ¬ op.Destroys d i)
    (hused : ∀ i, (d'.windows i).used = (d.windows i).used)
    (hstarted : ∀ i, op.starts d = some i → d'.dragWindowId = some i ∧ (d'.windows i).used = true)
    (hgoing : op.starts d = none → d'.dragWindowId = d.dragWindowId ∨ d'.dragWindowId = none) : PoolStep d op d' := by
  refine ⟨fun i => ?_, fun i => ?_, fun i hi => ?_, hgoing, fun i hi => ?_⟩
  · rw [hused]
    simp [hcreates i]
  · rw [hused]
    simp [hdestroys i]
  · obtain ⟨hdrag, hafter⟩ := hstarted i hi
    exact ⟨hdrag, (hused i).symm.trans hafter, hafter⟩
  · exact (hi.elim (hcreates i) (hdestroys i)).elim

theorem PoolStep.of_pool (hcreates : ∀ i, ¬ op.CreatesAt d i) (hdestroys : ∀ i, ¬ op.Destroys d i)
    (hstarts : op.starts d = none) (hpool : d'.pool = d.pool) : PoolStep d op d' := by
  obtain ⟨hdrag, hused⟩ := Prod.mk.inj hpool
  refine .of_used hcreates hdestroys (congrFun hused) (fun i hi => ?_) fun _ => .inl hdrag
  rw [hstarts] at hi
  cases hi

theorem guiDragStarts_used {windowId : UInt32} {offY : Int} (h : guiDragStarts windowId offY d = some i) :
    (d.windows i).used = true :=
  usedWindow_some (Option.filter_eq_some_iff.mp h).1

/-- A drag is started, or not. -/
theorem PoolStep.of_drag {windowId : UInt32} {offX offY : Int} {e : Desktop} (hcreates : ∀ i, ¬ op.CreatesAt d i)
    (hdestroys : ∀ i, ¬ op.Destroys d i) (he : e.pool = d.pool)
    (hstarts : op.starts d = guiDragStarts windowId offY e)
    (hpool : d'.pool = (guiDragStart windowId offX offY e).pool) : PoolStep d op d' := by
  obtain ⟨hdrag, hused⟩ := Prod.mk.inj (hpool.trans (guiDragStart_pool windowId offX offY e))
  obtain ⟨hdrag', hused'⟩ := Prod.mk.inj he
  refine .of_used hcreates hdestroys (fun i => (congrFun hused i).trans (congrFun hused' i))
    (fun i hi => ?_) fun hi => ?_
  · rw [hstarts] at hi
    rw [hi] at hdrag
    exact ⟨hdrag, (congrFun hused i).trans (guiDragStarts_used hi)⟩
  · rw [hstarts] at hi
    rw [hi] at hdrag
    exact .inl (hdrag.trans hdrag')

/-- One window is destroyed. -/
theorem PoolStep.of_destroy {i : WindowId} {e : Desktop} (hcreates : ∀ j, ¬ op.CreatesAt d j)
    (hdestroys : ∀ j, op.Destroys d j ↔ j = i) (hi : (d.windows i).used = true) (hstarts : op.starts d = none)
    (he : e.pool = d.pool) (hpool : d'.pool = (guiDestroyAt i e).desktop.pool) : PoolStep d op d' := by
  obtain ⟨hdrag, hused⟩ := Prod.mk.inj (hpool.trans (guiDestroyAt_pool i e))
  obtain ⟨hdrag', hused'⟩ := Prod.mk.inj he
  have hafter : ∀ j, (d'.windows j).used = if j = i then false else (d.windows j).used := by
    intro j
    rw [congrFun hused j, ← congrFun hused' j]
  refine ⟨fun j => ?_, fun j => ?_, fun j hj => ?_, fun _ => .inl (hdrag.trans hdrag'), fun j _ => hdrag.trans hdrag'⟩
  · rw [hafter, iff_false_left (hcreates j)]
    by_cases hj : j = i <;> simp [hj]
  · rw [hafter, hdestroys]
    by_cases hj : j = i <;> simp [hj, hi]
  · rw [hstarts] at hj
    cases hj

/-- The press of the left button. -/
theorem guiPressOn_poolStep (ownerDead : Window → Bool) (d : Desktop) :
    PoolStep d (.input ownerDead (.mouseButton 0 true))
      (guiHandleDesktopInput ownerDead (.mouseButton 0 true) d).desktop := by
  have hclicked : (guiPressed d).pool = d.pool := guiCursorButton_pool 0 true d
  have hnever : ∀ i, ¬ (GuiOp.input ownerDead (.mouseButton 0 true)).CreatesAt d i := fun _ h => h
  cases hhit : guiHitTest (guiPressed d).cursor.x (guiPressed d).cursor.y (guiPressed d) with
  | none =>
    have hpress : (guiHandleDesktopInput ownerDead (.mouseButton 0 true) d).desktop = guiPressed d := by
      unfold guiPressed at hhit ⊢
      simp only [guiHandleDesktopInput, ne_eq, not_true, if_false, if_true, hhit]
    rw [hpress]
    have hnone : guiPressHit d = none := by simp [guiPressHit, hhit]
    refine .of_pool hnever (fun i hi => ?_) (by simp [GuiOp.starts, hnone]) hclicked
    rw [GuiOp.Destroys, hnone] at hi
    simp at hi
  | some hit =>
    have hpress : (guiHandleDesktopInput ownerDead (.mouseButton 0 true) d).desktop =
        (guiPressOn ownerDead hit (guiPressed d)).desktop := by
      unfold guiPressed at hhit ⊢
      simp only [guiHandleDesktopInput, ne_eq, not_true, if_false, if_true, hhit]
    rw [hpress]
    have hused : ((guiPressed d).windows hit).used = true := (guiHitTest_contains hhit).1
    obtain ⟨slot, hslot⟩ : ∃ slot, guiHitTestDecoration ((guiPressed d).windows hit) (guiPressed d).cursor.x
        (guiPressed d).cursor.y = slot := ⟨_, rfl⟩
    have hsome : guiPressHit d = some (hit, slot) := by simp [guiPressHit, hhit, hslot]
    have hpush : ∀ type data1 data2, (guiPushTo hit type data1 data2 (guiPressed d)).pool = d.pool :=
      fun type data1 data2 => (guiPushTo_pool _ _ _ _ _).trans hclicked
    unfold guiPressOn
    dsimp only
    rw [hslot]
    have hdestroys : ∀ j, (GuiOp.input ownerDead (.mouseButton 0 true)).Destroys d j ↔
        slot = some .close ∧ j = hit ∧ ownerDead ((guiPressed d).windows hit) = true := by
      intro j
      rw [GuiOp.Destroys, hsome]
      constructor
      · rintro ⟨-, heq, hdead⟩
        cases heq
        exact ⟨rfl, rfl, hdead⟩
      · rintro ⟨rfl, rfl, hdead⟩
        exact ⟨rfl, rfl, hdead⟩
    have hstarts : slot ≠ none → (GuiOp.input ownerDead (.mouseButton 0 true)).starts d = none := by
      intro hslot
      rw [GuiOp.starts, hsome]
      cases slot with
      | none => exact absurd rfl hslot
      | some slot => simp
    cases slot with
    | none =>
      have hno : ∀ j, ¬ (GuiOp.input ownerDead (.mouseButton 0 true)).Destroys d j := by simp [hdestroys]
      refine .of_drag hnever hno hclicked ?_ (guiPushTo_pool _ _ _ _ _)
      simp [GuiOp.starts, hsome]
    | some slot =>
      have hstarts' := hstarts (by simp)
      cases slot with
      | close =>
        dsimp only
        split
        · rename_i hdead
          refine .of_destroy (i := hit) hnever (fun j => by simp [hdestroys, hdead]) ?_ hstarts' hclicked ?_
          · exact (congrFun (Prod.mk.inj hclicked).2 hit).symm.trans hused
          · simp [guiDestroyWindow, usedWindow_word hused]
        · rename_i hdead
          exact .of_pool hnever (fun j => by simp [hdestroys, hdead]) hstarts' (hpush _ _ _)
      | minimize =>
        refine .of_pool hnever (fun j => by simp [hdestroys]) hstarts' ?_
        exact (pool_of_arrangement (guiWindowMinimize_arrangement _ _)).trans hclicked
      | maximize => exact .of_pool hnever (fun j => by simp [hdestroys]) hstarts' (hpush _ _ _)

/-- A mouse move, or a button event that is no press of the left button. -/
theorem guiHandleDesktopInput_poolStep (ownerDead : Window → Bool) (event : InputEvent) (d : Desktop) :
    PoolStep d (.input ownerDead event) (guiHandleDesktopInput ownerDead event d).desktop := by
  cases event with
  | mouseMove dx dy =>
    have hupdate : ∀ (x y : Int) (e : Desktop), ((guiDragUpdate x y e).desktop.dragWindowId = e.dragWindowId ∨
        (guiDragUpdate x y e).desktop.dragWindowId = none) ∧
        ∀ i, ((guiDragUpdate x y e).desktop.windows i).used = (e.windows i).used := by
      intro x y e
      unfold guiDragUpdate
      split
      · exact ⟨.inl rfl, fun _ => rfl⟩
      rename_i i _
      dsimp only
      split
      · exact ⟨.inr rfl, fun _ => rfl⟩
      · refine ⟨.inl rfl, fun j => ?_⟩
        by_cases hj : j = i <;> simp [hj, Function.update_of_ne]
    have hdispatch : ∀ e, (guiDispatchInput (.mouseMove dx dy) e).pool = e.pool := fun e =>
      pool_of_arrangement (guiDispatchInput_arrangement _ e)
    refine .of_used (fun _ h => h) (fun _ h => h) (fun i => ?_) (fun i hi => by cases hi) fun _ => ?_
    all_goals
      unfold guiHandleDesktopInput
      dsimp only
    · rw [congrFun (Prod.mk.inj (hdispatch _)).2 i]
      split
      · exact (hupdate _ _ (guiCursorMove dx dy d).desktop).2 i
      · rfl
    · rw [(Prod.mk.inj (hdispatch _)).1]
      split
      · exact (hupdate _ _ (guiCursorMove dx dy d).desktop).1
      · exact .inl rfl
  | mouseButton button pressed =>
    by_cases hbutton : button = 0
    · subst hbutton
      cases pressed with
      | true => exact guiPressOn_poolStep ownerDead d
      | false =>
        obtain ⟨-, hused⟩ := Prod.mk.inj (guiCursorButton_pool 0 false d)
        exact .of_used (fun _ h => h) (fun _ h => h) (congrFun hused) (fun i hi => by cases hi) fun _ => .inr rfl
    · have hhandle : (guiHandleDesktopInput ownerDead (.mouseButton button pressed) d).desktop =
          (guiCursorButton button pressed d).desktop := by
        simp [guiHandleDesktopInput, hbutton]
      rw [hhandle]
      refine .of_pool (fun _ h => h) (fun i hi => ?_) ?_ (guiCursorButton_pool _ _ d)
      · cases pressed with
        | true => exact hbutton hi.1
        | false => exact hi
      · cases pressed <;> simp [GuiOp.starts, hbutton]
  | keyPress key =>
    refine .of_pool (fun _ h => h) (fun _ h => h) rfl ?_
    have hensure := pool_of_arrangement (guiFocusWindowEnsure_arrangement d)
    unfold guiHandleDesktopInput
    dsimp only
    split
    · exact (guiPushTo_pool _ _ _ _ _).trans hensure
    · exact hensure
  | keyRelease key =>
    refine .of_pool (fun _ h => h) (fun _ h => h) rfl ?_
    unfold guiHandleDesktopInput
    dsimp only
    split
    · exact guiPushTo_pool _ _ _ _ d
    · rfl

theorem GuiOp.poolStep (op : GuiOp) (d : Desktop) : PoolStep d op (op.run d).desktop := by
  obtain ⟨hdrawText, hdrawRect, hclear⟩ := guiWindowDraw_pool d
  cases op with
  | create ownerPid x y w h bgColor borderColor title =>
    rcases guiCreateWindowForPid_pool ownerPid x y w h bgColor borderColor title d with ⟨i, hi, hpool⟩ | ⟨hnone, hpool⟩
    · obtain ⟨hdrag, hused⟩ := Prod.mk.inj hpool
      have hfree : (d.windows i).used = false := by simpa using List.find?_some hi.2.2.2.2
      have hafter : ∀ j, (((guiCreateWindowForPid ownerPid x y w h bgColor borderColor title d).desktop.windows j).used =
          if j = i then true else (d.windows j).used) := congrFun hused
      refine ⟨fun j => ?_, fun j => ?_, fun j hj => (by cases hj), fun _ => .inl hdrag, fun _ _ => hdrag⟩
      · simp only [GuiOp.run, Step.unit, hafter]
        constructor
        · intro hj
          have hij := hi.2.2.2.2.symm.trans hj.2.2.2.2
          cases hij
          simp [hfree]
        · rintro ⟨hj, hj'⟩
          by_cases hji : j = i
          · exact hji ▸ hi
          · simp [hji, hj] at hj'
      · simp only [GuiOp.run, Step.unit, hafter, GuiOp.Destroys, false_iff, not_and, Bool.not_eq_false]
        intro hj
        by_cases hji : j = i <;> simp [hji, hj]
    · exact .of_pool hnone (fun _ h => h) rfl hpool
  | destroy windowId =>
    cases hi : d.usedWindow windowId with
    | none =>
      refine .of_pool (fun _ h => h) (fun i h => ?_) rfl ?_
      · rw [GuiOp.Destroys, hi] at h
        cases h
      · simp [GuiOp.run, Step.unit, guiDestroyWindow, hi, Step.fail]
    | some i =>
      refine .of_destroy (i := i) (fun _ h => h) (fun j => ?_) (usedWindow_some hi) rfl (e := d) rfl ?_
      · rw [GuiOp.Destroys, hi, Option.some_inj, eq_comm]
      · simp [GuiOp.run, Step.unit, guiDestroyWindow, hi]
  | destroyForPid pid =>
    obtain ⟨hdrag, hused⟩ := Prod.mk.inj (guiDestroyWindowsForPid_pool pid d)
    have hafter : ∀ j, (((GuiOp.destroyForPid pid).run d).desktop.windows j).used = ((d.windows j).used &&
        !decide (pid ≠ guiNoOwner ∧ (d.windows j).used = true ∧ (d.windows j).ownerPid = pid)) := congrFun hused
    refine ⟨fun i => ?_, fun i => ?_, fun i hi => (by cases hi), fun _ => .inl hdrag, fun _ _ => hdrag⟩
    · rw [hafter]
      simp only [GuiOp.CreatesAt, false_iff]
      cases (d.windows i).used <;> simp
    · rw [hafter, GuiOp.Destroys]
      cases hu : (d.windows i).used <;> simp
  | setTitle windowId title =>
    exact .of_pool (fun _ h => h) (fun _ h => h) rfl (pool_of_arrangement (guiWindowSetTitleInternal_arrangement _ _ d))
  | setTitleBar windowId titleH =>
    exact .of_pool (fun _ h => h) (fun _ h => h) rfl (guiWindowSetTitleBarInternal_pool _ _ d)
  | setFlags windowId flags =>
    exact .of_pool (fun _ h => h) (fun _ h => h) rfl (pool_of_arrangement (guiWindowSetFlagsInternal_arrangement _ _ d))
  | move windowId x y => exact .of_pool (fun _ h => h) (fun _ h => h) rfl (guiMoveWindow_pool _ _ _ d)
  | resize kmalloc windowId x y w h =>
    exact .of_pool (fun _ h => h) (fun _ h => h) rfl (guiResizeWindow_pool _ _ _ _ _ _ d)
  | minimize windowId =>
    exact .of_pool (fun _ h => h) (fun _ h => h) rfl (pool_of_arrangement (guiWindowMinimize_arrangement _ d))
  | restore windowId => exact .of_pool (fun _ h => h) (fun _ h => h) rfl (guiWindowRestore_pool _ d)
  | focus windowId => exact .of_pool (fun _ h => h) (fun _ h => h) rfl (guiFocusWindow_pool _ d)
  | drawText kmalloc windowId x y text color => exact .of_pool (fun _ h => h) (fun _ h => h) rfl (hdrawText _ _ _ _ _ _)
  | drawRect kmalloc windowId x y w h color =>
    exact .of_pool (fun _ h => h) (fun _ h => h) rfl (hdrawRect _ _ _ _ _ _ _)
  | clear kmalloc windowId color => exact .of_pool (fun _ h => h) (fun _ h => h) rfl (hclear _ _ _)
  | registerRegion windowId slot x y w h shape =>
    exact .of_pool (fun _ h => h) (fun _ h => h) rfl
      (pool_of_arrangement (guiRegisterCursorRegion_arrangement _ _ _ _ _ _ _ d))
  | setCursorShape shape =>
    exact .of_pool (fun _ h => h) (fun _ h => h) rfl (pool_of_arrangement (guiSetCursorShape_arrangement _ d))
  | setCursor x y => exact .of_pool (fun _ h => h) (fun _ h => h) rfl rfl
  | cursorMove dx dy => exact .of_pool (fun _ h => h) (fun _ h => h) rfl rfl
  | dragStart windowId offX offY => exact .of_drag (fun _ h => h) (fun _ h => h) rfl rfl rfl
  | dragUpdate x y =>
    refine .of_used (fun _ h => h) (fun _ h => h) (fun i => ?_) (fun i hi => by cases hi) fun _ => ?_
    all_goals
      simp only [GuiOp.run, guiDragUpdate]
      split
    · rfl
    · rename_i j _
      split
      · rfl
      · by_cases hij : i = j <;> simp [hij, Function.update_of_ne]
    · exact .inl rfl
    · split
      · exact .inr rfl
      · exact .inl rfl
  | dragEnd => exact .of_used (fun _ h => h) (fun _ h => h) (fun _ => rfl) (fun i hi => by cases hi) fun _ => .inr rfl
  | cursorButton button pressed => exact .of_pool (fun _ h => h) (fun _ h => h) rfl (guiCursorButton_pool _ _ d)
  | input ownerDead event => exact guiHandleDesktopInput_poolStep ownerDead event d
  | popEvent i =>
    refine .of_pool (fun _ h => h) (fun _ h => h) rfl ?_
    simp only [GuiOp.run]
    cases hpop : guiWindowPopEvent (d.windows i) with
    | none => rfl
    | some event => exact setWindow_pool (congrArg Layout.used (guiWindowPopEvent_layout hpop))
  | flush x y w h => exact .of_pool (fun _ h => h) (fun _ h => h) rfl rfl
  | requestRedraw => exact .of_pool (fun _ h => h) (fun _ h => h) rfl rfl

/-! ## Runs -/

/-- The numbers of the ghosts are those of creations until now. -/
def Held.Counted (s : Held) : Prop := (∀ i, s.creation i ≤ s.creations) ∧ s.dragged ≤ s.creations

theorem heldStep_counted (h : s.Counted) (op : GuiOp) : (heldStep s op).Counted := by
  obtain ⟨hcreation, hdragged⟩ := h
  refine ⟨fun i => ?_, ?_⟩
  · have := hcreation i
    simp only [heldStep]
    split <;> omega
  · simp only [heldStep]
    split
    · rename_i i _
      have := hcreation i
      omega
    · omega

/-- A window that was there is the same creation as before. -/
theorem heldStep_creation (hused : (s.desktop.windows i).used = true) (op : GuiOp) :
    (heldStep s op).creation i = s.creation i := by
  simp [heldStep, hused]

/-- A drag that the operation starts is on the window that it starts it on. -/
theorem heldStep_started {j : WindowId} (hj : op.starts s.desktop = some j)
    (hi : i ∈ (heldStep s op).desktop.dragWindowId) :
    ((heldStep s op).desktop.windows i).used = true ∧ (heldStep s op).creation i = (heldStep s op).dragged := by
  obtain ⟨hdrag, hused, hused'⟩ := (op.poolStep s.desktop).started j hj
  have hij : i = j := by
    rw [Option.mem_def, show (heldStep s op).desktop.dragWindowId = some j from hdrag] at hi
    exact (Option.some_inj.mp hi).symm
  subst hij
  refine ⟨hused', (heldStep_creation hused op).trans ?_⟩
  simp [heldStep, hj]

/-- Where the operation starts no drag, the one that goes on is the one before. -/
theorem heldStep_going (hnone : op.starts s.desktop = none) (hi : i ∈ (heldStep s op).desktop.dragWindowId) :
    i ∈ s.desktop.dragWindowId ∧ (heldStep s op).dragged = s.dragged := by
  refine ⟨?_, by simp [heldStep, hnone]⟩
  rcases (op.poolStep s.desktop).going hnone with hsame | hdropped
  · exact hsame ▸ hi
  · rw [Option.mem_def, show (heldStep s op).desktop.dragWindowId = none from hdropped] at hi
    cases hi

theorem heldStep_followsOne (h : FollowsOne s) (op : GuiOp) : FollowsOne (heldStep s op) ↔ DragKept s op := by
  have hpool := op.poolStep s.desktop
  constructor
  · intro h' i hi hdestroys
    have hdrag := hpool.held i (.inr hdestroys)
    have hused := (h' i (hdrag ▸ hi)).1
    rw [show ((heldStep s op).desktop.windows i).used = false from ((hpool.destroyed i).mp hdestroys).2] at hused
    cases hused
  · intro hkept i hi
    cases hstarts : op.starts s.desktop with
    | some j => exact heldStep_started hstarts hi
    | none =>
      obtain ⟨hi', hdragged⟩ := heldStep_going hstarts hi
      obtain ⟨hused, hcreation⟩ := h i hi'
      refine ⟨?_, (heldStep_creation hused op).trans (hcreation.trans hdragged.symm)⟩
      by_contra hgone
      have hgone' : ((heldStep s op).desktop.windows i).used = false := by simpa using hgone
      exact hkept i hi' ((hpool.destroyed i).mpr ⟨hused, hgone'⟩)

theorem heldStep_followsNoOther (hs : s.Counted) (h : FollowsNoOther s) (op : GuiOp) :
    FollowsNoOther (heldStep s op) ↔ PlaceKept s op := by
  have hpool := op.poolStep s.desktop
  constructor
  · intro h' i hi hcreates
    obtain ⟨hunused, hused⟩ := (hpool.created i).mp hcreates
    have hdrag := hpool.held i (.inl hcreates)
    have hstarts : op.starts s.desktop = none := by
      cases hj : op.starts s.desktop with
      | none => rfl
      | some j =>
        obtain ⟨hdrag', husedj, -⟩ := hpool.started j hj
        rw [hdrag, Option.mem_def.mp hi] at hdrag'
        cases hdrag'
        rw [hunused] at husedj
        cases husedj
    -- the new window has a number of its own
    have hsame := h' i (hdrag ▸ hi) hused
    have hnew : (heldStep s op).creation i = s.creations + 1 := if_pos ⟨hunused, hused⟩
    have hold : (heldStep s op).dragged = s.dragged := by simp [heldStep, hstarts]
    have := hs.2
    omega
  · intro hkept i hi hused
    cases hstarts : op.starts s.desktop with
    | some j => exact (heldStep_started hstarts hi).2
    | none =>
      obtain ⟨hi', hdragged⟩ := heldStep_going hstarts hi
      have hbefore : (s.desktop.windows i).used = true := by
        by_contra hunused
        exact hkept i hi' ((hpool.created i).mpr ⟨by simpa using hunused, hused⟩)
      exact (heldStep_creation hbefore op).trans ((h i hi' hbefore).trans hdragged.symm)

/-- The start of a run. -/
def heldInit (d : Desktop) : Held := ⟨d, fun _ => 0, 0, 0⟩

/-- The dragged window is the one on which the drag was started in every state exactly if it is never
destroyed while it is dragged; no other window is ever dragged exactly if no window is created in its
place. -/
theorem heldRun_follows (fb : FbSize) (backgroundColor : UInt32) (d : Desktop) (ops : List GuiOp) :
    (Throughout heldStep FollowsOne (heldInit (guiInit fb backgroundColor d)) ops ↔
      EachStep heldStep DragKept (heldInit (guiInit fb backgroundColor d)) ops) ∧
    (Throughout heldStep FollowsNoOther (heldInit (guiInit fb backgroundColor d)) ops ↔
      EachStep heldStep PlaceKept (heldInit (guiInit fb backgroundColor d)) ops) := by
  have hcounted : (heldInit (guiInit fb backgroundColor d)).Counted := ⟨fun _ => le_rfl, le_rfl⟩
  constructor
  · refine throughout_iff (Q := fun _ => True) (fun _ _ _ _ => trivial)
      (fun s op _ h => heldStep_followsOne h op) trivial ?_
    intro i hi
    cases hi
  · refine throughout_iff (Q := Held.Counted) (fun s op hs _ => heldStep_counted hs op)
      (fun s op hs h => heldStep_followsNoOther hs h op) hcounted ?_
    intro i hi
    cases hi

/-- The window of process 1 is dragged and goes, and the window that process 2 creates follows the mouse. -/
theorem new_window_dragged :
    ¬ FollowsNoOther (List.foldl heldStep (heldInit (sampleDesktop ⟨10, 10⟩))
      [.create 1 2 2 8 8 0 0 none, .input (fun _ => false) (.mouseButton 0 true), .destroyForPid 1,
        .create 2 0 0 8 8 0 0 none]) ∧
    ((guiRun (sampleDesktop ⟨10, 10⟩)
      [.create 1 2 2 8 8 0 0 none, .input (fun _ => false) (.mouseButton 0 true), .destroyForPid 1,
        .create 2 0 0 8 8 0 0 none, .input (fun _ => false) (.mouseMove 1 0)]).windows 0).x = 3 := by
  constructor
  · intro h
    have hfollows := h 0
    revert hfollows
    decide +kernel
  · decide +kernel

/-- A mouse move moves no window but the one on which the drag was started. -/
theorem held_mouseMove (h : FollowsNoOther s) (ownerDead : Window → Bool) (dx dy : Int) (i : WindowId)
    (hmoved : (((guiHandleDesktopInput ownerDead (.mouseMove dx dy) s.desktop).desktop.windows i).x,
      ((guiHandleDesktopInput ownerDead (.mouseMove dx dy) s.desktop).desktop.windows i).y) ≠
        ((s.desktop.windows i).x, (s.desktop.windows i).y)) :
    s.desktop.dragWindowId = some i ∧ (s.desktop.windows i).used = true ∧ s.creation i = s.dragged := by
  have hplace : ∀ e, ((guiDispatchInput (.mouseMove dx dy) e).windows i).x = (e.windows i).x ∧
      ((guiDispatchInput (.mouseMove dx dy) e).windows i).y = (e.windows i).y := by
    intro e
    have hlayout := congrFun (congrArg Arrangement.layout (guiDispatchInput_arrangement (.mouseMove dx dy) e)) i
    exact ⟨congrArg Layout.x hlayout, congrArg Layout.y hlayout⟩
  simp only [guiHandleDesktopInput, (hplace _).1, (hplace _).2] at hmoved
  have hdragged : s.desktop.dragWindowId = some i ∧ (s.desktop.windows i).used = true := by
    by_contra hno
    apply hmoved
    split
    · unfold guiDragUpdate
      split
      · rfl
      rename_i j hj
      dsimp only
      split
      · rfl
      · rename_i hused
        have hij : i ≠ j := by
          rintro rfl
          have hused' : (s.desktop.windows i).used = true := Bool.eq_true_of_not_eq_false hused
          exact hno ⟨hj, hused'⟩
        simp only [guiRefreshCursorShape_windows, Desktop.setWindow_windows, Function.update_of_ne hij]
        rfl
    · rfl
  exact ⟨hdragged.1, hdragged.2, h i hdragged.1 hdragged.2⟩

end Armonios
