import Armonios.Gui.WindowCalls

/-!
# What the system calls on windows do

The rules for a call from a given desktop, and by them what each of the calls 70 to 86 does to the windows.

* `CallWp`: `Wp` of a call, with what it leaves of the desktop;
* `WindowEffect`: what a call may do to the windows, by whose they are;
* `CallOk`: a call that has this effect, or fails and changes nothing.
-/

namespace Armonios

/-! ## The calls, from a desktop -/

section CallWp

variable {α β : Type} {d : Desktop} {m : WindowM α} {f : α → WindowM β} {Q : α → Desktop → Prop}
  {R : β → Desktop → Prop} {E : Int → Desktop → Prop}

/-- `Wp` of a call from the desktop `d`, with what it leaves of the desktop. -/
def CallWp (d : Desktop) (m : WindowM α) (Q : α → Desktop → Prop) (E : Int → Desktop → Prop) : Prop :=
  ∀ s : WindowState, s.desktop = some d →
    Wp m s (fun a s' => ∃ d', s'.desktop = some d' ∧ Q a d') fun e s' => ∃ d', s'.desktop = some d' ∧ E e d'

theorem CallWp.pure {a : α} (h : Q a d) : CallWp d (pure a) Q E := fun _ hs => ⟨d, hs, h⟩

theorem CallWp.error {e : Int} (h : E e d) : CallWp d (throw e) Q E := fun _ hs => ⟨d, hs, h⟩

theorem CallWp.bind (h : CallWp d m Q E) (hf : ∀ a d', Q a d' → CallWp d' (f a) R E) : CallWp d (m >>= f) R E := by
  intro s hs
  refine wp_bind.mpr (Wp.mono (h s hs) ?_ fun _ _ h => h)
  rintro a s' ⟨d', hs', ha⟩
  exact hf a d' ha s' hs'

theorem CallWp.guard {c : Prop} [Decidable c] {e : Int} {k : Unit → WindowM α} (he : E e d)
    (h : ¬c → CallWp d (k ()) Q E) : CallWp d (if c then throw e >>= k else k ()) Q E :=
  fun s hs => wp_guard (fun _ => ⟨d, hs, he⟩) fun hc => h hc s hs

theorem callWp_guiDesktop (h : Q' d d) : CallWp d guiDesktop Q' E := by
  intro s hs
  refine wp_bind.mpr (wp_get.mpr ?_)
  rw [hs]
  exact ⟨d, hs, h⟩

theorem callWp_onDesktop {op : Desktop → Step α} (h : Q (op d).value (op d).desktop) : CallWp d (onDesktop op) Q E := by
  have hget : CallWp d guiDesktop (fun e d' => e = d ∧ d' = d) E := callWp_guiDesktop ⟨rfl, rfl⟩
  refine hget.bind fun e d' he => ?_
  obtain ⟨rfl, rfl⟩ := he
  exact fun s hs => wp_bind.mpr (wp_modify.mpr (wp_pure.mpr ⟨_, rfl, h⟩))

theorem callWp_guiCall {op : Desktop → Step Bool} {e : Int} {P : Unit → Desktop → Prop}
    (hdone : (op d).value = true → P () (op d).desktop) (hfail : (op d).value = false → E e (op d).desktop) :
    CallWp d (guiCall e op) P E := by
  have hop : CallWp d (onDesktop op) (fun value d' => value = (op d).value ∧ d' = (op d).desktop) E :=
    callWp_onDesktop ⟨rfl, rfl⟩
  refine hop.bind fun value d' hv => ?_
  obtain ⟨rfl, rfl⟩ := hv
  cases hvalue : (op d).value with
  | true => exact .pure (hdone hvalue)
  | false => exact .error (hfail hvalue)

theorem callWp_redraw {P : Unit → Desktop → Prop} (h : P () d) : CallWp d redrawRequested P E :=
  fun _ hs => wp_modify.mpr ⟨d, hs, h⟩

theorem callWp_writeOut {P : Unit → Desktop → Prop} {words : List UInt32} (h : P () d) :
    CallWp d (writeOut words) P E :=
  fun _ hs => wp_modify.mpr ⟨d, hs, h⟩

variable {byte : Nat → UInt8} {p : Process}

/-- The window is one of the caller. -/
structure OwnWindow (p : Process) (d : Desktop) (windowId : UInt64) (i : WindowId) : Prop where
  bound : windowId.toNat < guiMaxWindows
  found : d.usedWindow windowId.toUInt32 = some i
  owner : (d.windows i).ownerPid = p.pid32

end CallWp

/-! ## What a call does -/

section Effect

variable {byte : Nat → UInt8} {kmalloc : Kmalloc} {p : Process} {d d' : Desktop} {call : WindowCall}

/-- What a call of `p` does to the windows. -/
inductive WindowEffect (p : Process) (d : Desktop) (call : WindowCall) (d' : Desktop) : Prop
  | same (windows : d'.windows = d.windows)
  | created (i : WindowId) (is : ∃ x y w h bg border titlePtr, call = .create x y w h bg border titlePtr)
      (free : (d.windows i).used = false) (others : ∀ j, j ≠ i → d'.windows j = d.windows j)
      (owner : (d'.windows i).ownerPid = p.pid32)
  | own (i : WindowId) (used : (d.windows i).used = true)
      (owner : (d.windows i).ownerPid = p.pid32 ∨ (d.windows i).ownerPid = guiNoOwner) (only : Only i d d')
  | raised (i : WindowId) (z : UInt32) (is : ∃ windowId, call = .focus windowId)
      (windows : d'.windows = Function.update d.windows i { d.windows i with z })
  | restored (i : WindowId) (z : UInt32) (events : List GuiEvent) (is : ∃ windowId, call = .restore windowId)
      (windows : d'.windows = Function.update d.windows i { d.windows i with z, minimized := false, events })

/-- The call returns a value that is not negative, with this effect; or it fails and changes nothing. -/
def CallOk (p : Process) (d : Desktop) (call : WindowCall) (m : WindowM Int) : Prop :=
  CallWp d m (fun n d' => 0 ≤ n ∧ WindowEffect p d call d') fun e d' => e < 0 ∧ d' = d

theorem OwnWindow.effect {windowId : UInt64} {i : WindowId} (h : OwnWindow p d windowId i) (honly : Only i d d') :
    WindowEffect p d call d' := .own i (usedWindow_some h.found) (.inl h.owner) honly

/-- A call that only looks. -/
theorem callOk_pure {n : Int} (hn : 0 ≤ n) : CallOk p d call (pure n) := .pure ⟨hn, .same rfl⟩

theorem callOk_error {e : Int} (he : e < 0) : CallOk p d call (throw e) := .error ⟨he, rfl⟩

/-- An operation on a window of the caller, and what follows it. -/
theorem callOk_own {windowId : UInt64} {i : WindowId} {op : Desktop → Step Bool} {e : Int} {rest : WindowM Int}
    (h : OwnWindow p d windowId i) (hop : OwnStep i d (op d)) (he : e < 0)
    (hrest : ∀ d', CallWp d' rest (fun n d'' => n = 0 ∧ d'' = d') fun _ _ => False) :
    CallOk p d call (do guiCall e op; rest) := by
  have hcall : CallWp d (guiCall e op) (fun _ d' => d' = (op d).desktop) fun e d' => e < 0 ∧ d' = d :=
    callWp_guiCall (fun _ => rfl) fun hno => ⟨he, hop.clean hno⟩
  refine hcall.bind fun _ d' hd => ?_
  subst hd
  intro s hs
  refine Wp.mono (hrest _ s hs) ?_ ?_
  · rintro n s' ⟨_, hs', rfl, rfl⟩
    exact ⟨_, hs', le_refl _, h.effect hop.only⟩
  · rintro _ _ ⟨_, _, hno⟩
    exact hno.elim

theorem callWp_return (d : Desktop) :
    CallWp d (pure 0 : WindowM Int) (fun n d'' => n = 0 ∧ d'' = d) fun _ _ => False := .pure ⟨rfl, rfl⟩

theorem callWp_redraw_return (d : Desktop) :
    CallWp d (do redrawRequested; return 0 : WindowM Int) (fun n d'' => n = 0 ∧ d'' = d) fun _ _ => False := by
  have hredraw : CallWp d redrawRequested (fun _ d' => d' = d) fun _ _ => False := callWp_redraw rfl
  refine hredraw.bind fun _ d' hd => ?_
  subst hd
  exact callWp_return d'

/-! The checks of a call. -/

theorem callOk_guard {c : Prop} [Decidable c] {k : Unit → WindowM Int} (h : ¬c → CallOk p d call (k ())) :
    CallOk p d call (if c then throw errInval >>= k else k ()) :=
  .guard ⟨by decide, rfl⟩ h

theorem callOk_bind {α : Type} {m : WindowM α} {f : α → WindowM Int} {Q : α → Prop}
    (h : CallWp d m (fun a d' => Q a ∧ d' = d) fun e d' => e < 0 ∧ d' = d) (hf : ∀ a, Q a → CallOk p d call (f a)) :
    CallOk p d call (m >>= f) := by
  refine h.bind fun a d' ha => ?_
  obtain ⟨ha, rfl⟩ := ha
  exact hf a ha

theorem callOk_userBufOut {ptr len : Nat} {f : Unit → WindowM Int} (h : CallOk p d call (f ())) :
    CallOk p d call (sysUserBufOut (some p) ptr len >>= f) := by
  refine callOk_bind (Q := fun _ => True) ?_ fun _ _ => h
  unfold sysUserBufOut
  split
  · exact .error ⟨by decide, rfl⟩
  · exact .pure ⟨trivial, rfl⟩

theorem callOk_copyCstr {ptr : UInt64} {capacity : Nat} {f : Path → WindowM Int}
    (h : ∀ text, sysUserCopyCstr byte p ptr.toNat capacity 0 = some text → CallOk p d call (f text)) :
    CallOk p d call (copyCstr byte (some p) ptr capacity >>= f) := by
  refine callOk_bind ?_ h
  unfold copyCstr
  split
  · exact .error ⟨by decide, rfl⟩
  · rename_i text htext
    exact .pure ⟨htext, rfl⟩

theorem callOk_guiDesktop {f : Desktop → WindowM Int} (h : CallOk p d call (f d)) :
    CallOk p d call (guiDesktop >>= f) := by
  refine callOk_bind (Q := fun e => e = d) (callWp_guiDesktop ⟨rfl, rfl⟩) fun e he => ?_
  rw [he]
  exact h

theorem callWp_ownerWindow {windowId : UInt64} {missing : Int} {E : Int → Desktop → Prop} (hinval : E errInval d)
    (hmissing : E missing d) (hbadf : E errBadf d) :
    CallWp d (ownerWindowLookup (some p) windowId missing) (fun i d' => OwnWindow p d windowId i ∧ d' = d) E := by
  unfold ownerWindowLookup
  refine CallWp.guard hinval fun hbound => ?_
  have hget : CallWp d guiDesktop (fun e d' => e = d ∧ d' = d) E := callWp_guiDesktop ⟨rfl, rfl⟩
  refine hget.bind fun e d' hd => ?_
  obtain ⟨rfl, rfl⟩ := hd
  split
  · exact .error hmissing
  · rename_i i hi
    exact .guard hbadf fun howner => .pure ⟨⟨by omega, hi, not_not.mp howner⟩, rfl⟩

theorem callOk_ownerWindow {windowId : UInt64} {missing : Int} {f : WindowId → WindowM Int} (hneg : missing < 0)
    (h : ∀ i, OwnWindow p d windowId i → CallOk p d call (f i)) :
    CallOk p d call (ownerWindowLookup (some p) windowId missing >>= f) :=
  callOk_bind (callWp_ownerWindow ⟨by decide, rfl⟩ ⟨hneg, rfl⟩ ⟨by decide, rfl⟩) h

theorem callOk_anyWindow {windowId : UInt64} {f : WindowId → WindowM Int}
    (h : ∀ i, d.usedWindow windowId.toUInt32 = some i → CallOk p d call (f i)) :
    CallOk p d call (anyWindow (some p) windowId >>= f) := by
  refine callOk_bind (Q := fun i => d.usedWindow windowId.toUInt32 = some i) ?_ h
  unfold anyWindow
  refine CallWp.guard ⟨by decide, rfl⟩ fun _ => ?_
  have hget : CallWp d guiDesktop (fun e d' => e = d ∧ d' = d) fun e d' => e < 0 ∧ d' = d :=
    callWp_guiDesktop ⟨rfl, rfl⟩
  refine hget.bind fun e d' hd => ?_
  obtain ⟨rfl, rfl⟩ := hd
  split
  · exact .error ⟨by decide, rfl⟩
  · rename_i i hi
    exact .pure ⟨hi, rfl⟩

/-! The calls that change one window of the caller. -/

theorem sysWindowDestroy_ok (windowId : UInt64) :
    CallOk p d (.destroy windowId) (sysWindowDestroy (some p) windowId) := by
  refine callOk_ownerWindow (by decide) fun i hi => ?_
  exact callOk_own hi (destroyWindow_step hi.found) (by decide) callWp_redraw_return

theorem sysWindowMinimize_ok (windowId : UInt64) :
    CallOk p d (.minimize windowId) (sysWindowMinimize (some p) windowId) := by
  refine callOk_ownerWindow (by decide) fun i hi => ?_
  exact callOk_own hi (minimize_step hi.found) (by decide) callWp_return

theorem sysWindowDrawText_ok (windowId x y color strPtr : UInt64) : CallOk p d (.drawText windowId x y color strPtr)
    (sysWindowDrawText byte kmalloc (some p) windowId x y color strPtr) := by
  unfold sysWindowDrawText
  refine callOk_guard fun _ => ?_
  refine callOk_ownerWindow (by decide) fun i hi => ?_
  refine callOk_copyCstr fun text _ => ?_
  exact callOk_own hi (drawText_step hi.found) (by decide) callWp_return

theorem sysWindowDrawRect_ok (windowId x y w h color : UInt64) : CallOk p d (.drawRect windowId x y w h color)
    (sysWindowDrawRect kmalloc (some p) windowId x y w h color) := by
  unfold sysWindowDrawRect
  refine callOk_guard fun _ => ?_
  refine callOk_ownerWindow (by decide) fun i hi => ?_
  exact callOk_own hi (drawRect_step hi.found) (by decide) callWp_return

theorem sysCursorRegisterRegion_ok (win slot x y w h shape : UInt64) :
    CallOk p d (.registerRegion win slot x y w h shape)
      (sysCursorRegisterRegion (some p) win slot x y w h shape) := by
  unfold sysCursorRegisterRegion
  refine callOk_guard fun _ => ?_
  refine callOk_guiDesktop ?_
  split
  · exact callOk_error (by decide)
  rename_i i hi
  refine CallWp.guard ⟨by decide, rfl⟩ fun howner => ?_
  have hcall : CallWp d (guiCall errInval (guiRegisterCursorRegion win.toUInt32 slot.toUInt32 x.toNat y.toNat
      w.toUInt32 h.toUInt32 shape.toUInt32)) (fun _ d' => Only i d d') fun e d' => e < 0 ∧ d' = d :=
    callWp_guiCall (fun _ => (registerRegion_step hi).only) fun hno => ⟨by decide, (registerRegion_step hi).clean hno⟩
  refine hcall.bind fun _ d' honly s hs => ?_
  refine Wp.mono (callWp_redraw_return d' s hs) ?_ ?_
  · rintro n s' ⟨_, hs', rfl, rfl⟩
    refine ⟨_, hs', le_refl _, .own i (usedWindow_some hi) ?_ honly⟩
    by_cases hno : (d.windows i).ownerPid = guiNoOwner
    · exact .inr hno
    · exact .inl (not_not.mp fun hne => howner ⟨hno, hne⟩)
  · rintro _ _ ⟨_, _, hno⟩
    exact hno.elim

/-- `popEvents` on a window of the caller. -/
theorem sysWindowEvent_ok (windowId bufPtr bufCount : UInt64) : CallOk p d (.event windowId bufPtr bufCount)
    (sysWindowEvent (some p) windowId bufPtr bufCount) := by
  unfold sysWindowEvent
  refine callOk_guard fun _ => ?_
  refine callOk_userBufOut ?_
  refine callOk_ownerWindow (by decide) fun i hi => ?_
  refine callOk_guiDesktop ?_
  refine CallWp.guard ⟨by decide, rfl⟩ fun _ => ?_
  obtain ⟨hused, howner⟩ := popEvents_same bufCount.toNat (d.windows i)
  have honly : Only i d (d.setWindow i (popEvents bufCount.toNat (d.windows i)).2) := .same hused howner
  have hstore : CallWp d (onDesktop fun e => ⟨(), e.setWindow i (popEvents bufCount.toNat (d.windows i)).2, []⟩ :
      WindowM Unit) (fun _ d' => Only i d d') fun e d' => e < 0 ∧ d' = d := callWp_onDesktop honly
  refine CallWp.bind hstore fun _ d' honly s hs => ?_
  exact wp_bind.mpr (wp_modify.mpr (wp_pure.mpr ⟨d', hs, Int.natCast_nonneg _, hi.effect honly⟩))

/-! The calls that only look. -/

theorem callOk_still {m : WindowM Int} (h : CallWp d m (fun n d' => n = 0 ∧ d' = d) fun _ _ => False) :
    CallOk p d call m := by
  intro s hs
  refine Wp.mono (h s hs) ?_ ?_
  · rintro n s' ⟨_, hs', rfl, rfl⟩
    exact ⟨_, hs', le_refl _, .same rfl⟩
  · rintro _ _ ⟨_, _, hno⟩
    exact hno.elim

theorem callOk_writeOut {words : List UInt32} : CallOk p d call (do writeOut words; return 0) :=
  callOk_still (CallWp.bind (callWp_writeOut (P := fun _ d' => d' = d) rfl) fun _ d' hd => by
    subst hd
    exact callWp_return d')

theorem sysWindowRedraw_ok (windowId : UInt64) : CallOk p d (.redraw windowId) (sysWindowRedraw (some p) windowId) := by
  refine callOk_ownerWindow (by decide) fun i hi => ?_
  exact callOk_still (callWp_redraw_return d)

theorem sysWindowForPid_ok (ownerPid index : UInt64) :
    CallOk p d (.forPid ownerPid index) (sysWindowForPid (some p) ownerPid index) := by
  unfold sysWindowForPid
  refine callOk_guard fun _ => ?_
  refine callOk_guiDesktop ?_
  split
  · exact callOk_error (by decide)
  · exact callOk_pure (Int.natCast_nonneg _)

theorem sysWindowFlush_ok (windowId x y w h : UInt64) :
    CallOk p d (.flush windowId x y w h) (sysWindowFlush (some p) windowId x y w h) := by
  unfold sysWindowFlush
  refine callOk_guard fun _ => ?_
  refine callOk_ownerWindow (by decide) fun i hi => ?_
  split
  · exact callOk_pure (le_refl _)
  refine callOk_guiDesktop ?_
  exact fun s hs => wp_bind.mpr (wp_modify.mpr (wp_pure.mpr ⟨d, hs, le_refl _, .same rfl⟩))

theorem sysWindowGetBounds_ok (windowId outPtr : UInt64) :
    CallOk p d (.getBounds windowId outPtr) (sysWindowGetBounds (some p) windowId outPtr) := by
  refine callOk_userBufOut ?_
  refine callOk_ownerWindow (by decide) fun i hi => ?_
  refine callOk_guiDesktop ?_
  exact callOk_writeOut

theorem sysWindowState_ok (windowId outPtr : UInt64) :
    CallOk p d (.state windowId outPtr) (sysWindowState (some p) windowId outPtr) := by
  refine callOk_userBufOut ?_
  refine callOk_anyWindow fun i hi => ?_
  refine callOk_guiDesktop ?_
  exact callOk_writeOut

/-! The calls for every process. -/

/-- An operation of the GUI, and what follows it. -/
theorem callOk_op {op : Desktop → Step Bool} {rest : WindowM Int}
    (hdone : (op d).value = true → WindowEffect p d call (op d).desktop)
    (hfail : (op d).value = false → (op d).desktop = d)
    (hrest : ∀ d', CallWp d' rest (fun n d'' => n = 0 ∧ d'' = d') fun _ _ => False) :
    CallOk p d call (do guiCall errInval op; rest) := by
  have hcall : CallWp d (guiCall errInval op) (fun _ d' => WindowEffect p d call d') fun e d' => e < 0 ∧ d' = d :=
    callWp_guiCall hdone fun hno => ⟨by decide, hfail hno⟩
  refine hcall.bind fun _ d' heffect s hs => ?_
  refine Wp.mono (hrest d' s hs) ?_ ?_
  · rintro n s' ⟨_, hs', rfl, rfl⟩
    exact ⟨_, hs', le_refl _, heffect⟩
  · rintro _ _ ⟨_, _, hno⟩
    exact hno.elim

theorem sysCursorSetShape_ok (shape : UInt64) : CallOk p d (.setShape shape) (sysCursorSetShape (some p) shape) := by
  unfold sysCursorSetShape
  refine callOk_guard fun _ => ?_
  refine callOk_op (fun _ => .same ?_) (fun hno => ?_) callWp_redraw_return
  · unfold guiSetCursorShape
    split <;> rfl
  · unfold guiSetCursorShape at hno ⊢
    split <;> rename_i h
    · rfl
    · rw [if_neg h] at hno
      cases hno

theorem sysWindowFocus_ok (windowId : UInt64) : CallOk p d (.focus windowId) (sysWindowFocus (some p) windowId) := by
  refine callOk_anyWindow fun i hi => ?_
  refine callOk_op (fun _ => ?_) (fun hno => ?_) callWp_redraw_return
  · unfold guiFocusWindow
    rw [hi]
    dsimp only
    split
    · exact .same rfl
    · exact .raised i d.nextZ ⟨windowId, rfl⟩ rfl
  · unfold guiFocusWindow at hno
    rw [hi] at hno
    dsimp only at hno
    split at hno <;> cases hno

theorem sysWindowRestore_ok (windowId : UInt64) :
    CallOk p d (.restore windowId) (sysWindowRestore (some p) windowId) := by
  refine callOk_anyWindow fun i hi => ?_
  have hevents : ∀ window : Window, ∃ events, guiWindowPushEvent .maximize 0 0 window = { window with events } := by
    intro window
    unfold guiWindowPushEvent
    repeat' split
    all_goals exact ⟨_, rfl⟩
  refine callOk_op (fun _ => ?_) (fun hno => ?_) callWp_return
  · unfold guiWindowRestore
    rw [hi]
    dsimp only
    split
    · exact .same rfl
    · obtain ⟨events, hpush⟩ := hevents { d.windows i with minimized := false, z := d.nextZ }
      refine .restored i d.nextZ events ⟨windowId, rfl⟩ ?_
      rw [hpush]
      rfl
  · unfold guiWindowRestore at hno ⊢
    rw [hi] at hno ⊢
    dsimp only at hno ⊢
    split at hno
    · rename_i hmin
      rw [if_pos hmin]
      rfl
    · cases hno

/-! Creation. -/

theorem createWindow_none {ownerPid x y w h bgColor borderColor : UInt32} {title : Option (List UInt8)}
    (hno : (guiCreateWindowForPid ownerPid x y w h bgColor borderColor title d).value = none) :
    (guiCreateWindowForPid ownerPid x y w h bgColor borderColor title d).desktop = d := by
  unfold guiCreateWindowForPid at hno ⊢
  split
  · rfl
  · rename_i hargs
    rw [if_neg hargs] at hno
    split
    · rfl
    · rename_i i hi
      rw [hi] at hno
      cases hno

theorem guiNewWindow_owner (ownerPid x y w h bgColor borderColor z : UInt32) (title : Option (List UInt8)) :
    (guiNewWindow ownerPid x y w h bgColor borderColor z title).ownerPid = ownerPid := by
  unfold guiNewWindow guiApplyBuiltinPolicy
  split <;> rfl

theorem createWindow_some {ownerPid x y w h bgColor borderColor : UInt32} {title : Option (List UInt8)} {i : WindowId}
    (hi : (guiCreateWindowForPid ownerPid x y w h bgColor borderColor title d).value = some i) :
    (d.windows i).used = false ∧
      (∀ j, j ≠ i → (guiCreateWindowForPid ownerPid x y w h bgColor borderColor title d).desktop.windows j =
        d.windows j) ∧
      ((guiCreateWindowForPid ownerPid x y w h bgColor borderColor title d).desktop.windows i).ownerPid = ownerPid := by
  unfold guiCreateWindowForPid at hi ⊢
  split at hi
  · cases hi
  rename_i hargs
  rw [if_neg hargs]
  split at hi
  · cases hi
  rename_i k hk
  cases hi
  refine ⟨by simpa using List.find?_some hk, fun j hj => Function.update_of_ne hj _ _, ?_⟩
  simp only [guiRefreshCursorShape, Desktop.setWindow, Function.update_self, guiNewWindow_owner]

theorem sysWindowCreate_ok (x y w h bg border titlePtr : UInt64) :
    CallOk p d (.create x y w h bg border titlePtr) (sysWindowCreate byte (some p) x y w h bg border titlePtr) := by
  unfold sysWindowCreate
  refine callOk_guard fun _ => ?_
  have hcreate : ∀ (title : Path) (k : Option WindowId → WindowM Int), k none = throw errAgain →
      (∀ i : WindowId, k (some i) = (do redrawRequested; return i.val)) →
      CallOk p d (.create x y w h bg border titlePtr)
        (onDesktop (guiCreateWindowForPid p.pid32 x.toUInt32 y.toUInt32 w.toUInt32 h.toUInt32 bg.toUInt32
          border.toUInt32 (some title)) >>= k) := by
    intro title k hnone hsome
    have hop : CallWp d (onDesktop (guiCreateWindowForPid p.pid32 x.toUInt32 y.toUInt32 w.toUInt32 h.toUInt32 bg.toUInt32
        border.toUInt32 (some title))) (fun value d' =>
          value = (guiCreateWindowForPid p.pid32 x.toUInt32 y.toUInt32 w.toUInt32 h.toUInt32 bg.toUInt32
            border.toUInt32 (some title) d).value ∧
          d' = (guiCreateWindowForPid p.pid32 x.toUInt32 y.toUInt32 w.toUInt32 h.toUInt32 bg.toUInt32
            border.toUInt32 (some title) d).desktop) fun e d' => e < 0 ∧ d' = d := callWp_onDesktop ⟨rfl, rfl⟩
    refine hop.bind fun value d' hv => ?_
    obtain ⟨hvalue, rfl⟩ := hv
    cases value with
    | none =>
      rw [hnone]
      exact .error ⟨by decide, createWindow_none hvalue.symm⟩
    | some i =>
      rw [hsome]
      obtain ⟨hfree, hothers, howner⟩ := createWindow_some hvalue.symm
      exact fun s hs => wp_bind.mpr (wp_modify.mpr (wp_pure.mpr ⟨_, hs, Int.natCast_nonneg _,
        .created i ⟨x, y, w, h, bg, border, titlePtr, rfl⟩ hfree hothers howner⟩))
  split
  · exact hcreate [] _ rfl fun _ => rfl
  · exact callOk_copyCstr fun title _ => hcreate title _ rfl fun _ => rfl

/-! The title, and the bounds. -/

/-- The title is stored, and the bar of the kernel is refused. -/
structure BarRefused (byte : Nat → UInt8) (p : Process) (d : Desktop) (windowId titlePtr titleH : UInt64) (i : WindowId)
    (title : Path) : Prop where
  own : OwnWindow p d windowId i
  text : sysUserCopyCstr byte p titlePtr.toNat guiTitleLen 0 = some title
  bar : titleH ≠ 0
  high : (d.windows i).h ≤ titleH.toUInt32

/-- The window with the title, and with the flags that the kernel gives to it. -/
def titledWindow (title : Path) (window : Window) : Window :=
  guiApplyBuiltinPolicy (guiWindowSetTitle (some title) window)

def Desktop.titled (i : WindowId) (title : Path) (d : Desktop) : Desktop :=
  guiRefreshCursorShape (d.setWindow i (titledWindow title (d.windows i)))

theorem titledWindow_same (title : Path) (window : Window) : (titledWindow title window).used = window.used ∧
    (titledWindow title window).ownerPid = window.ownerPid ∧ (titledWindow title window).h = window.h := by
  unfold titledWindow guiApplyBuiltinPolicy
  split <;> exact ⟨rfl, rfl, rfl⟩

theorem titled_window (i : WindowId) (title : Path) (d : Desktop) :
    (d.titled i title).windows i = titledWindow title (d.windows i) :=
  Function.update_self _ _ _

theorem titled_only (i : WindowId) (title : Path) (d : Desktop) : Only i d (d.titled i title) :=
  Only.refreshed (.same (titledWindow_same title _).1 (titledWindow_same title _).2.1)

theorem titled_usedWindow (i : WindowId) (title : Path) (windowId : UInt32) (d : Desktop) :
    (d.titled i title).usedWindow windowId = d.usedWindow windowId := by
  have hused : ∀ j, ((d.titled i title).windows j).used = (d.windows j).used := by
    intro j
    by_cases hj : j = i
    · rw [hj, titled_window]
      exact (titledWindow_same title _).1
    · rw [(titled_only i title d).others j hj]
  simp only [Desktop.usedWindow, hused]

theorem Only.trans {i : WindowId} {e : Desktop} (h : Only i d d') (h' : Only i d' e) : Only i d e := by
  refine ⟨fun j hj => (h'.others j hj).trans (h.others j hj), fun hu => ?_⟩
  obtain ⟨hused, howner⟩ := h'.owner hu
  exact ⟨(h.owner hused).1, howner.trans (h.owner hused).2⟩

/-- The call after the checks of the caller. -/
theorem setTitle_start {windowId titleH : UInt64} {i : WindowId} {title : Path} {Q : Int → Desktop → Prop}
    {E : Int → Desktop → Prop} (hi : OwnWindow p d windowId i)
    (h : titleH = 0 → Q 0 (d.titled i title))
    (hbar : titleH ≠ 0 → CallWp (d.titled i title) (do
      guiCall errInval (guiWindowSetTitleBarInternal windowId.toUInt32 titleH.toUInt32); return 0) Q E) :
    CallWp d (do
      guiCall errBadf (guiWindowSetTitleInternal windowId.toUInt32 (some title))
      redrawRequested
      if titleH = 0 then return 0
      guiCall errInval (guiWindowSetTitleBarInternal windowId.toUInt32 titleH.toUInt32)
      return 0) Q E := by
  have hdone : CallWp d (guiCall errBadf (guiWindowSetTitleInternal windowId.toUInt32 (some title)))
      (fun _ d' => d' = d.titled i title) E := by
    refine callWp_guiCall (fun _ => ?_) fun hno => ?_
    · unfold guiWindowSetTitleInternal
      rw [hi.found]
      rfl
    · unfold guiWindowSetTitleInternal at hno
      rw [hi.found] at hno
      cases hno
  refine hdone.bind fun _ d' hd => ?_
  subst hd
  have hredraw : CallWp (d.titled i title) redrawRequested (fun _ d' => d' = d.titled i title) E := callWp_redraw rfl
  refine hredraw.bind fun _ d' hd => ?_
  subst hd
  split
  · exact .pure (h ‹_›)
  · exact hbar ‹_›

theorem sysWindowSetTitle_ok {windowId titlePtr titleH : UInt64}
    (hno : ∀ i title, ¬ BarRefused byte p d windowId titlePtr titleH i title) :
    CallOk p d (.setTitle windowId titlePtr titleH) (sysWindowSetTitle byte (some p) windowId titlePtr titleH) := by
  unfold sysWindowSetTitle
  refine callOk_guard fun _ => ?_
  refine callOk_ownerWindow (by decide) fun i hi => ?_
  refine callOk_copyCstr fun title htext => ?_
  have honly := titled_only i title d
  refine setTitle_start hi (fun _ => ⟨le_refl _, hi.effect honly⟩) fun hbar => ?_
  have hfound : (d.titled i title).usedWindow windowId.toUInt32 = some i :=
    (titled_usedWindow i title _ d).trans hi.found
  have hcall : CallWp (d.titled i title)
      (guiCall errInval (guiWindowSetTitleBarInternal windowId.toUInt32 titleH.toUInt32)) (fun _ d' => Only i d d')
      fun e d' => e < 0 ∧ d' = d := by
    refine callWp_guiCall (fun _ => honly.trans (setTitleBar_step hfound).only) fun hfail => ?_
    -- the bar is not refused
    unfold guiWindowSetTitleBarInternal at hfail
    rw [hfound] at hfail
    dsimp only at hfail
    split at hfail
    · rename_i hhigh
      rw [titled_window, (titledWindow_same title _).2.2] at hhigh
      exact absurd ⟨hi, htext, hbar, hhigh⟩ (hno i title)
    · cases hfail
  exact hcall.bind fun _ d' hd => .pure ⟨le_refl _, hi.effect hd⟩

theorem callWp_ownWindow {windowId : UInt64} {missing : Int} {i : WindowId} {E : Int → Desktop → Prop}
    (h : OwnWindow p d windowId i) :
    CallWp d (ownerWindowLookup (some p) windowId missing) (fun j d' => j = i ∧ d' = d) E := by
  intro s hs
  unfold ownerWindowLookup
  refine wp_guard (fun hbound => absurd h.bound (not_lt.mpr hbound)) fun _ => ?_
  have hget : CallWp d guiDesktop (fun e d' => e = d ∧ d' = d) E := callWp_guiDesktop ⟨rfl, rfl⟩
  refine hget.bind (fun e d' hd => ?_) s hs
  obtain ⟨rfl, rfl⟩ := hd
  rw [h.found]
  exact fun s hs => wp_guard (fun howner => absurd h.owner howner) fun _ => ⟨d', hs, rfl, rfl⟩

/-- The call fails with the title stored. -/
theorem sysWindowSetTitle_refused {windowId titlePtr titleH : UInt64} {i : WindowId} {title : Path}
    (h : BarRefused byte p d windowId titlePtr titleH i title) :
    CallWp d (sysWindowSetTitle byte (some p) windowId titlePtr titleH) (fun _ _ => False)
      fun e d' => e < 0 ∧ d' = d.titled i title := by
  intro s hs
  unfold sysWindowSetTitle
  refine wp_guard (fun hargs => ?_) fun _ => ?_
  · rcases hargs with hno | hbound
    · cases hno
    · exact absurd h.own.bound (not_lt.mpr hbound)
  refine (callWp_ownWindow h.own).bind (fun j d' hd => ?_) s hs
  obtain ⟨rfl, rfl⟩ := hd
  have hcopy : CallWp d' (copyCstr byte (some p) titlePtr guiTitleLen) (fun text e => text = title ∧ e = d')
      fun e e' => e < 0 ∧ e' = d'.titled j title := by
    unfold copyCstr
    rw [Option.bind_some, h.text]
    exact .pure ⟨rfl, rfl⟩
  refine hcopy.bind fun text e he => ?_
  obtain ⟨rfl, rfl⟩ := he
  refine setTitle_start h.own (fun hzero => absurd hzero h.bar) fun _ => ?_
  have hfound : (e.titled j text).usedWindow windowId.toUInt32 = some j :=
    (titled_usedWindow j text _ e).trans h.own.found
  have hfail : guiWindowSetTitleBarInternal windowId.toUInt32 titleH.toUInt32 (e.titled j text) =
      .fail (e.titled j text) := by
    unfold guiWindowSetTitleBarInternal
    rw [hfound]
    dsimp only
    rw [if_pos]
    rw [titled_window, (titledWindow_same text _).2.2]
    exact h.high
  have hcall : CallWp (e.titled j text) (guiCall errInval (guiWindowSetTitleBarInternal windowId.toUInt32
      titleH.toUInt32)) (fun _ _ => False) fun n e' => n < 0 ∧ e' = e.titled j text := by
    refine callWp_guiCall (fun hdone => ?_) fun _ => ?_
    · rw [hfail] at hdone
      cases hdone
    · rw [hfail]
      exact ⟨by decide, rfl⟩
  exact hcall.bind fun _ _ hno => hno.elim

/-! The bounds, which are kept where the memory for them is missing. -/

theorem sysWindowSetBounds_ok (windowId x y w h : UInt64) :
    CallWp d (sysWindowSetBounds kmalloc (some p) windowId x y w h)
      (fun n d' => 0 ≤ n ∧ WindowEffect p d (.setBounds windowId x y w h) d')
      fun e d' => e < 0 ∧ WindowEffect p d (.setBounds windowId x y w h) d' := by
  have hsame : ∀ e : Int, e < 0 → e < 0 ∧ WindowEffect p d (.setBounds windowId x y w h) d :=
    fun _ he => ⟨he, .same rfl⟩
  unfold sysWindowSetBounds
  refine .guard (hsame errInval (by decide)) fun _ => ?_
  refine CallWp.bind (callWp_ownerWindow (hsame errInval (by decide)) (hsame errNoent (by decide))
    (hsame errBadf (by decide))) fun i d' hd => ?_
  obtain ⟨hi, rfl⟩ := hd
  have honly : Only i d' (guiResizeWindow kmalloc windowId.toUInt32 x.toUInt32 y.toUInt32 w.toUInt32 h.toUInt32
      d').desktop := resizeWindow_only hi.found
  have hcall : CallWp d' (guiCall errInval (guiResizeWindow kmalloc windowId.toUInt32 x.toUInt32 y.toUInt32 w.toUInt32
      h.toUInt32)) (fun _ => Only i d') fun e e' => e < 0 ∧ WindowEffect p d' (.setBounds windowId x y w h) e' :=
    callWp_guiCall (fun _ => honly) fun _ => ⟨by decide, hi.effect honly⟩
  exact hcall.bind fun _ _ h => .pure ⟨le_refl _, hi.effect h⟩

end Effect

end Armonios
