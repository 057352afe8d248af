import Armonios.Gui.OwnDrawing
import Armonios.Gui.WindowFrame

/-!
# What the calls do to the buffers

* `WindowCall.keepsBuffers`: the calls that do not draw leave every buffer, or free it;
* `Window.Drew`: what a drawing does to the buffer of its window, if its content has less than 2⁶⁴ bytes;
* `WindowCall.buffers`: what every call does.
-/

namespace Armonios

/-! ## The calls that do not draw -/

section Kept

variable {α β : Type} {d d' d'' : Desktop} {i : WindowId} {kmalloc : Kmalloc} {byte : Nat → UInt8} {p : Process}

/-- From `a` to `b` the window keeps its buffer, or has none any more. -/
def Window.KeepsBuffer (a b : Window) : Prop :=
  b.backing = none ∨ b.backing = a.backing ∧ b.backingCapacity = a.backingCapacity

def KeepsBuffers (d d' : Desktop) : Prop := ∀ i, (d.windows i).KeepsBuffer (d'.windows i)

theorem KeepsBuffers.refl (d : Desktop) : KeepsBuffers d d := fun _ => .inr ⟨rfl, rfl⟩

theorem KeepsBuffers.trans (h : KeepsBuffers d d') (h' : KeepsBuffers d' d'') : KeepsBuffers d d'' := by
  intro i
  rcases h' i with hnone | ⟨hbacking, hcapacity⟩
  · exact .inl hnone
  · rcases h i with hnone | ⟨hbacking', hcapacity'⟩
    · exact .inl (hbacking.trans hnone)
    · exact .inr ⟨hbacking.trans hbacking', hcapacity.trans hcapacity'⟩

theorem KeepsBuffers.of_windows {e : Desktop} (h : KeepsBuffers d d') (he : e.windows = d'.windows) :
    KeepsBuffers d e := by
  intro i
  rw [he]
  exact h i

theorem KeepsBuffers.setWindow {window : Window} (h : (d.windows i).KeepsBuffer window) :
    KeepsBuffers d (d.setWindow i window) := by
  intro j
  by_cases hj : j = i
  · subst hj
    rw [Desktop.setWindow_windows, Function.update_self]
    exact h
  · rw [Desktop.setWindow_windows, Function.update_of_ne hj]
    exact .inr ⟨rfl, rfl⟩

theorem KeepsBuffers.refreshed (h : KeepsBuffers d d') : KeepsBuffers d (guiRefreshCursorShape d') := h.of_windows rfl

theorem pushEvent_buffer (type : GuiEventType) (data1 data2 : Int) (window : Window) :
    (guiWindowPushEvent type data1 data2 window).backing = window.backing ∧
      (guiWindowPushEvent type data1 data2 window).backingCapacity = window.backingCapacity := by
  unfold guiWindowPushEvent
  repeat' split
  all_goals exact ⟨rfl, rfl⟩

/-! The operations. -/

theorem destroyWindow_buffers (windowId : UInt32) (d : Desktop) :
    KeepsBuffers d (guiDestroyWindow windowId d).desktop := by
  unfold guiDestroyWindow
  split
  · exact .refl d
  · rename_i i _
    have hcleared : KeepsBuffers d (d.setWindow i (guiClearedWindow (d.windows i))) :=
      .setWindow (.inl (guiWindowFreeBacking_none _))
    refine hcleared.of_windows ?_
    unfold guiDestroyAt
    dsimp only
    split
    · exact focusWindowEnsure_windows _
    · rfl

theorem setTitle_buffers (windowId : UInt32) (title : Option (List UInt8)) (d : Desktop) :
    KeepsBuffers d (guiWindowSetTitleInternal windowId title d).desktop := by
  unfold guiWindowSetTitleInternal
  split
  · exact .refl d
  · refine KeepsBuffers.refreshed (.setWindow ?_)
    unfold guiApplyBuiltinPolicy
    split <;> exact .inr ⟨rfl, rfl⟩

theorem setTitleBar_buffers (windowId titleH : UInt32) (d : Desktop) :
    KeepsBuffers d (guiWindowSetTitleBarInternal windowId titleH d).desktop := by
  unfold guiWindowSetTitleBarInternal
  split
  · exact .refl d
  · split
    · exact .refl d
    · exact KeepsBuffers.refreshed (.setWindow (.inr ⟨rfl, rfl⟩))

theorem focusWindow_buffers (windowId : UInt32) (d : Desktop) :
    KeepsBuffers d (guiFocusWindow windowId d).desktop := by
  unfold guiFocusWindow
  split
  · exact .refl d
  · rename_i i _
    dsimp only
    split
    · exact .refl d
    · have hraised : KeepsBuffers d (d.setWindow i { d.windows i with z := d.nextZ }) := .setWindow (.inr ⟨rfl, rfl⟩)
      exact hraised.of_windows rfl

theorem restoreWindow_buffers (windowId : UInt32) (d : Desktop) :
    KeepsBuffers d (guiWindowRestore windowId d).desktop := by
  unfold guiWindowRestore
  split
  · exact .refl d
  · rename_i i _
    dsimp only
    split
    · exact .refl d
    · have hrestored : KeepsBuffers d (d.setWindow i
          (guiWindowPushEvent .maximize 0 0 { d.windows i with minimized := false, z := d.nextZ })) :=
        .setWindow (.inr (pushEvent_buffer _ _ _ _))
      exact hrestored.of_windows rfl

theorem minimizeWindow_buffers (windowId : UInt32) (d : Desktop) :
    KeepsBuffers d (guiWindowMinimize windowId d).desktop := by
  unfold guiWindowMinimize
  split
  · exact .refl d
  · split
    · exact .refl d
    · exact .setWindow (.inr (pushEvent_buffer _ _ _ _))

theorem setCursorShape_buffers (shape : UInt32) (d : Desktop) :
    KeepsBuffers d (guiSetCursorShape shape d).desktop := by
  unfold guiSetCursorShape
  split
  · exact .refl d
  · exact KeepsBuffers.of_windows (.refl d) rfl

theorem registerRegion_buffers (windowId slot : UInt32) (x y : Int) (w h shape : UInt32) (d : Desktop) :
    KeepsBuffers d (guiRegisterCursorRegion windowId slot x y w h shape d).desktop := by
  have hput : ∀ i slot region, KeepsBuffers d (guiPutCursorRegion i slot region d).desktop := by
    intro i slot region
    unfold guiPutCursorRegion
    dsimp only
    split
    · exact KeepsBuffers.refreshed (.setWindow (.inr ⟨rfl, rfl⟩))
    · exact .setWindow (.inr ⟨rfl, rfl⟩)
  unfold guiRegisterCursorRegion
  split
  · exact .refl d
  · split
    · split
      · exact hput _ _ _
      split
      · exact .refl d
      split
      · exact .refl d
      · exact hput _ _ _
    · exact .refl d

theorem createWindow_buffers (ownerPid x y w h bgColor borderColor : UInt32) (title : Option (List UInt8))
    (d : Desktop) :
    KeepsBuffers d (guiCreateWindowForPid ownerPid x y w h bgColor borderColor title d).desktop := by
  unfold guiCreateWindowForPid
  split
  · exact .refl d
  · split
    · exact .refl d
    · rename_i i _
      have hnew : KeepsBuffers d
          (d.setWindow i (guiNewWindow ownerPid x y w h bgColor borderColor d.nextZ title)) := by
        refine .setWindow (.inl ?_)
        unfold guiNewWindow guiApplyBuiltinPolicy
        split <;> rfl
      exact hnew.of_windows rfl

theorem popEvents_buffer (left : Nat) (window : Window) :
    (popEvents left window).2.backing = window.backing ∧
      (popEvents left window).2.backingCapacity = window.backingCapacity := by
  induction left generalizing window with
  | zero => exact ⟨rfl, rfl⟩
  | succ left ih =>
    unfold popEvents
    split
    · exact ⟨rfl, rfl⟩
    · rename_i event window' hpop
      have hsame : window'.backing = window.backing ∧ window'.backingCapacity = window.backingCapacity := by
        unfold guiWindowPopEvent at hpop
        split at hpop
        · cases hpop
        split at hpop <;> cases hpop
        exact ⟨rfl, rfl⟩
      exact ⟨(ih window').1.trans hsame.1, (ih window').2.trans hsame.2⟩

/-! The calls. -/

/-- `KeepsBuffers` for the state of a call. -/
def BuffersKept (s s' : WindowState) : Prop := ∀ d, s.desktop = some d → ∃ d', s'.desktop = some d' ∧ KeepsBuffers d d'

instance : Std.Refl BuffersKept := ⟨fun _ d hd => ⟨d, hd, .refl d⟩⟩

instance : IsTrans WindowState BuffersKept where
  trans _ _ _ h h' d hd := by
    obtain ⟨d', hd', hkept⟩ := h d hd
    obtain ⟨d'', hd'', hkept'⟩ := h' d' hd'
    exact ⟨d'', hd'', hkept.trans hkept'⟩

theorem Moves.buffers {m : WindowM α} (h : Moves BuffersKept m) (d : Desktop) :
    CallWp d m (fun _ => KeepsBuffers d) fun _ => KeepsBuffers d :=
  fun s hs => Wp.mono (h s) (fun _ _ h' => h' d hs) fun _ _ h' => h' d hs

theorem moves_guiDesktop : Moves BuffersKept guiDesktop := by
  refine Moves.get_bind fun s => ?_
  split
  · exact .error _
  · exact .pure _

theorem moves_onDesktop {op : Desktop → Step α} (h : ∀ d, KeepsBuffers d (op d).desktop) :
    Moves BuffersKept (onDesktop op) := by
  intro s
  unfold onDesktop guiDesktop
  refine wp_bind.mpr (wp_bind.mpr (wp_get.mpr ?_))
  split
  · exact fun d hd => ⟨d, hd, .refl d⟩
  · rename_i d hd
    refine wp_pure.mpr (wp_bind.mpr (wp_modify.mpr (wp_pure.mpr fun e he => ?_)))
    obtain rfl : d = e := Option.some.inj (hd.symm.trans he)
    exact ⟨_, rfl, h d⟩

theorem moves_guiCall {op : Desktop → Step Bool} {e : Int} (h : ∀ d, KeepsBuffers d (op d).desktop) :
    Moves BuffersKept (guiCall e op) := by
  refine (moves_onDesktop h).bind fun value => ?_
  split
  · exact .error _
  · exact .pure _

theorem moves_redraw : Moves BuffersKept redrawRequested :=
  .modify fun _ d hd => ⟨d, hd, .refl d⟩

theorem moves_writeOut (words : List UInt32) : Moves BuffersKept (writeOut words) :=
  .modify fun _ d hd => ⟨d, hd, .refl d⟩

theorem moves_redraw_return (n : Int) : Moves BuffersKept (do redrawRequested; return n) :=
  moves_redraw.bind fun _ => .pure _

theorem moves_userBufOut (ptr len : Nat) : Moves BuffersKept (sysUserBufOut (some p) ptr len) := by
  unfold sysUserBufOut
  split
  · exact .error _
  · exact .pure _

theorem moves_copyCstr (ptr : UInt64) (capacity : Nat) : Moves BuffersKept (copyCstr byte (some p) ptr capacity) := by
  unfold copyCstr
  split
  · exact .error _
  · exact .pure _

theorem moves_ownerWindow (windowId : UInt64) (missing : Int) :
    Moves BuffersKept (ownerWindowLookup (some p) windowId missing) := by
  unfold ownerWindowLookup
  refine .guard (moves_guiDesktop.bind fun d => ?_)
  split
  · exact .error _
  · exact .guard (.pure _)

theorem moves_anyWindow (windowId : UInt64) : Moves BuffersKept (anyWindow (some p) windowId) := by
  unfold anyWindow
  refine .guard (moves_guiDesktop.bind fun d => ?_)
  split
  · exact .error _
  · exact .pure _

theorem moves_create (x y w h bg border titlePtr : UInt64) :
    Moves BuffersKept (sysWindowCreate byte (some p) x y w h bg border titlePtr) := by
  unfold sysWindowCreate
  refine .guard ?_
  have hcreate : ∀ (title : Path) (k : Option WindowId → WindowM Int), (∀ i, Moves BuffersKept (k i)) →
      Moves BuffersKept (onDesktop (guiCreateWindowForPid p.pid32 x.toUInt32 y.toUInt32 w.toUInt32 h.toUInt32
        bg.toUInt32 border.toUInt32 (some title)) >>= k) :=
    fun title k hk => (moves_onDesktop (createWindow_buffers _ _ _ _ _ _ _ _)).bind hk
  split
  · refine hcreate _ _ fun created => ?_
    split
    · exact .error _
    · exact moves_redraw_return _
  · refine (moves_copyCstr titlePtr guiTitleLen).bind fun title => hcreate _ _ fun created => ?_
    split
    · exact .error _
    · exact moves_redraw_return _

theorem moves_setTitle (windowId titlePtr titleH : UInt64) :
    Moves BuffersKept (sysWindowSetTitle byte (some p) windowId titlePtr titleH) := by
  unfold sysWindowSetTitle
  refine .guard ((moves_ownerWindow windowId errBadf).bind fun _ => (moves_copyCstr titlePtr _).bind fun title => ?_)
  refine (moves_guiCall (setTitle_buffers _ _)).bind fun _ => moves_redraw.bind fun _ => ?_
  split
  · exact .pure _
  · exact (moves_guiCall (setTitleBar_buffers _ _)).bind fun _ => .pure _

theorem moves_registerRegion (win slot x y w h shape : UInt64) :
    Moves BuffersKept (sysCursorRegisterRegion (some p) win slot x y w h shape) := by
  unfold sysCursorRegisterRegion
  refine .guard (moves_guiDesktop.bind fun d => ?_)
  split
  · exact .error _
  · exact .guard ((moves_guiCall (registerRegion_buffers _ _ _ _ _ _ _)).bind fun _ => moves_redraw_return 0)

theorem moves_flush (windowId x y w h : UInt64) : Moves BuffersKept (sysWindowFlush (some p) windowId x y w h) := by
  unfold sysWindowFlush
  refine .guard ((moves_ownerWindow windowId errBadf).bind fun i => ?_)
  split
  · exact .pure _
  · refine moves_guiDesktop.bind fun d => Moves.bind (.modify ?_) fun _ => .pure _
    exact fun _ d hd => ⟨d, hd, .refl d⟩

theorem moves_setShape (shape : UInt64) : Moves BuffersKept (sysCursorSetShape (some p) shape) := by
  unfold sysCursorSetShape
  exact .guard ((moves_guiCall (setCursorShape_buffers _)).bind fun _ => moves_redraw_return 0)

theorem moves_forPid (ownerPid index : UInt64) : Moves BuffersKept (sysWindowForPid (some p) ownerPid index) := by
  unfold sysWindowForPid
  refine .guard (moves_guiDesktop.bind fun d => ?_)
  split
  · exact .error _
  · exact .pure _

/-- The events that are stored back are those of the window that was looked at. -/
theorem sysWindowEvent_buffers (windowId bufPtr bufCount : UInt64) (d : Desktop) :
    CallWp d (sysWindowEvent (some p) windowId bufPtr bufCount) (fun _ => KeepsBuffers d)
      fun _ => KeepsBuffers d := by
  have hsame : KeepsBuffers d d := .refl d
  unfold sysWindowEvent
  refine .guard hsame fun _ => ?_
  have hbuf : CallWp d (sysUserBufOut (some p) bufPtr.toNat (bufCount.toNat * 12)) (fun _ d' => d' = d)
      fun _ => KeepsBuffers d := by
    unfold sysUserBufOut
    split
    · exact .error hsame
    · exact .pure rfl
  refine hbuf.bind fun _ d' hd => ?_
  subst hd
  refine CallWp.bind (callWp_ownerWindow hsame hsame hsame) fun i e he => ?_
  obtain ⟨-, rfl⟩ := he
  have hget : CallWp e guiDesktop (fun e' d' => e' = e ∧ d' = e) fun _ => KeepsBuffers e := callWp_guiDesktop ⟨rfl, rfl⟩
  refine hget.bind fun e' d' he => ?_
  obtain ⟨rfl, rfl⟩ := he
  refine .guard hsame fun _ => ?_
  have hstored : KeepsBuffers d' (d'.setWindow i (popEvents bufCount.toNat (d'.windows i)).2) :=
    .setWindow (.inr (popEvents_buffer _ _))
  have hstore : CallWp d' (onDesktop fun e => ⟨(), e.setWindow i (popEvents bufCount.toNat (d'.windows i)).2, []⟩ :
      WindowM Unit) (fun _ => KeepsBuffers d') fun _ => KeepsBuffers d' := callWp_onDesktop hstored
  exact hstore.bind fun _ f hf => CallWp.bind (callWp_writeOut (P := fun _ => KeepsBuffers d') hf) fun _ _ h => .pure h

/-- The window that the call may draw in, by its id. -/
def WindowCall.drawsId : WindowCall → Option UInt64
  | drawText windowId .. => some windowId
  | drawRect windowId .. => some windowId
  | setBounds windowId .. => some windowId
  | _ => none

/-- The other calls leave every buffer, or free it. -/
theorem WindowCall.keepsBuffers (byte : Nat → UInt8) (kmalloc : Kmalloc) (p : Process) (d : Desktop)
    {call : WindowCall} (hdraws : call.drawsId = none) :
    CallWp d (call.exec byte kmalloc (some p)) (fun _ => KeepsBuffers d) fun _ => KeepsBuffers d := by
  cases call with
  | create x y w h bg border titlePtr => exact (moves_create x y w h bg border titlePtr).buffers d
  | destroy windowId =>
    exact Moves.buffers ((moves_ownerWindow windowId errNoent).bind fun _ =>
      (moves_guiCall (destroyWindow_buffers _)).bind fun _ => moves_redraw_return 0) d
  | drawText windowId x y color strPtr => cases hdraws
  | drawRect windowId x y w h color => cases hdraws
  | event windowId bufPtr bufCount => exact sysWindowEvent_buffers windowId bufPtr bufCount d
  | setTitle windowId titlePtr titleH => exact (moves_setTitle windowId titlePtr titleH).buffers d
  | redraw windowId =>
    exact Moves.buffers ((moves_ownerWindow windowId errBadf).bind fun _ => moves_redraw_return 0) d
  | focus windowId =>
    exact Moves.buffers ((moves_anyWindow windowId).bind fun _ =>
      (moves_guiCall (focusWindow_buffers _)).bind fun _ => moves_redraw_return 0) d
  | forPid ownerPid index => exact (moves_forPid ownerPid index).buffers d
  | setShape shape =>
    exact (moves_setShape shape).buffers d
  | flush windowId x y w h => exact (moves_flush windowId x y w h).buffers d
  | getBounds windowId outPtr =>
    exact Moves.buffers ((moves_userBufOut _ _).bind fun _ => (moves_ownerWindow windowId errNoent).bind fun _ =>
      moves_guiDesktop.bind fun _ => (moves_writeOut _).bind fun _ => .pure _) d
  | setBounds windowId x y w h => cases hdraws
  | minimize windowId =>
    exact Moves.buffers ((moves_ownerWindow windowId errNoent).bind fun _ =>
      (moves_guiCall (minimizeWindow_buffers _)).bind fun _ => .pure _) d
  | restore windowId =>
    exact Moves.buffers ((moves_anyWindow windowId).bind fun _ =>
      (moves_guiCall (restoreWindow_buffers _)).bind fun _ => .pure _) d
  | state windowId outPtr =>
    exact Moves.buffers ((moves_userBufOut _ _).bind fun _ => (moves_anyWindow windowId).bind fun _ =>
      moves_guiDesktop.bind fun _ => (moves_writeOut _).bind fun _ => .pure _) d
  | registerRegion win slot x y w h shape => exact (moves_registerRegion win slot x y w h shape).buffers d

end Kept

/-! ## The calls that draw -/

section Drawn

variable {kmalloc : Kmalloc} {window window' : Window} {paint : FbPaint} {d : Desktop} {i : WindowId}
  {byte : Nat → UInt8} {p : Process}

/-- From `a` to `b`, the pixels of the window are drawn in its buffer or in a new one, and behind the buffer nothing
changes. -/
def Window.Drew (kmalloc : Kmalloc) (a b : Window) : Prop :=
  ∃ before after, b.backing = some after ∧ (∀ n, b.backingCapacity.toNat ≤ 4 * n → after n = before n) ∧
    (a.backing = some before ∧ b.backingCapacity = a.backingCapacity ∨
      (a.backing = none ∨ b.backingCapacity ≠ a.backingCapacity) ∧ kmalloc b.backingCapacity = some before)

/-- Behind the content nothing is painted. -/
theorem paintBacking_behind {pixels : Nat → UInt32} {n : Nat}
    (hpaint : ∀ q, paint q ≠ none → (guiWindowBackingFb window).Shows q)
    (hn : window.w.toNat * (guiContentH window).toNat ≤ n) : paintBacking window paint pixels n = pixels n := by
  have hnone : paint (n % window.w.toNat, n / window.w.toNat) = none := by
    by_contra hne
    obtain ⟨hcol, hrow⟩ := hpaint _ hne
    have hw : 0 < window.w.toNat := Nat.zero_lt_of_lt hcol
    have hlt := (Nat.div_lt_iff_lt_mul hw).mp hrow
    rw [Nat.mul_comm] at hlt
    exact absurd hlt (Nat.not_lt.mpr hn)
  rw [paintBacking, hnone, Option.getD_none]

theorem fillrect_shows {fb : FbSize} {x y w h color : UInt32} {q : Pixel}
    (hq : fbFillrect fb x y w h color q ≠ none) : fb.Shows q := by
  rw [fbFillrect_apply] at hq
  split at hq
  · rename_i hin
    exact ⟨hin.1, hin.2.1⟩
  · exact absurd rfl hq

theorem fillBacking_behind {pixels : Nat → UInt32} {n : Nat}
    (hn : window.w.toNat * (guiContentH window).toNat ≤ n) : guiFillBacking window pixels n = pixels n :=
  paintBacking_behind (fun _ hq => fillrect_shows hq) hn

theorem Window.Small.behind {bytes : UInt32} {n : Nat} (hsmall : window.Small)
    (hsize : guiWindowBackingSize window = some bytes) (hn : bytes.toNat ≤ 4 * n) :
    window.w.toNat * (guiContentH window).toNat ≤ n := by
  rw [hsmall.asks hsize] at hn
  omega

theorem noBuffer_of_none {bytes : UInt32} (h : guiBackingFor bytes window = none) :
    window.backing = none ∨ bytes ≠ window.backingCapacity := by
  refine ((guiBackingFor_none window bytes).mp h).imp_right ?_
  rintro hlt rfl
  exact Nat.lt_irrefl _ hlt

/-- A drawing into a buffer that the window has or gets. -/
theorem ensureBacking_drew (hsmall : window.Small) (h : guiWindowEnsureBacking kmalloc window = some window')
    (hpaint : ∀ q, paint q ≠ none → (guiWindowBackingFb window).Shows q) :
    window.Drew kmalloc (guiDrawContent window' paint) := by
  obtain ⟨bytes, hsize, hrest⟩ := Option.bind_eq_some_iff.mp h
  split at hrest
  · rename_i pixels hkept
    cases hrest
    obtain ⟨hbacking, hle⟩ := guiBackingFor_some hkept
    have hle := UInt32.le_iff_toNat_le.mp hle
    refine ⟨pixels, paintBacking window paint pixels, ?_, fun n hn => ?_, .inl ⟨hbacking, rfl⟩⟩
    · rw [guiDrawContent, hbacking, Option.map_some]
    · exact paintBacking_behind hpaint (hsmall.behind hsize (Nat.le_trans hle hn))
  · rename_i hnone
    obtain ⟨pixels, halloc, rfl⟩ := Option.map_eq_some_iff.mp hrest
    refine ⟨pixels, paintBacking window paint (guiFillBacking window pixels), rfl, fun n hn => ?_,
      .inr ⟨noBuffer_of_none hnone, halloc⟩⟩
    have hbehind := hsmall.behind hsize hn
    rw [paintBacking_behind hpaint hbehind, fillBacking_behind hbehind]

/-- The buffer for other bounds is filled. -/
theorem resetBacking_drew (hsmall : window.Small) (h : guiWindowResetBacking kmalloc window = some window') :
    window.Drew kmalloc window' := by
  obtain ⟨bytes, hsize, hrest⟩ := Option.bind_eq_some_iff.mp h
  split at hrest
  · rename_i pixels hkept
    cases hrest
    obtain ⟨hbacking, hle⟩ := guiBackingFor_some hkept
    have hle := UInt32.le_iff_toNat_le.mp hle
    refine ⟨pixels, guiFillBacking window pixels, rfl, fun n hn => ?_, .inl ⟨hbacking, rfl⟩⟩
    exact fillBacking_behind (hsmall.behind hsize (Nat.le_trans hle hn))
  · rename_i hnone
    obtain ⟨pixels, halloc, rfl⟩ := Option.map_eq_some_iff.mp hrest
    exact ⟨pixels, guiFillBacking window pixels, rfl, fun n hn => fillBacking_behind (hsmall.behind hsize hn),
      .inr ⟨noBuffer_of_none hnone, halloc⟩⟩

/-- The window with the bounds that the call draws it in. -/
def WindowCall.bounds : WindowCall → Window → Window
  | setBounds _ x y w h, window => { window with x := x.toUInt32, y := y.toUInt32, w := w.toUInt32, h := h.toUInt32 }
  | _, window => window

/-- The arguments are those of a call that gets as far as the buffer. -/
def WindowCall.Draws (byte : Nat → UInt8) (p : Process) (d : Desktop) (i : WindowId) : WindowCall → Prop
  | drawText _ x y color strPtr => x.toNat < 2 ^ 31 ∧ y.toNat < 2 ^ 31 ∧ color.toNat < 2 ^ 32 ∧
      (sysUserCopyCstr byte p strPtr.toNat windowTextMax 0).isSome = true
  | drawRect _ x y w h color => x.toNat < 2 ^ 31 ∧ y.toNat < 2 ^ 31 ∧ w.toNat < 2 ^ 32 ∧ h.toNat < 2 ^ 32 ∧
      color.toNat < 2 ^ 32 ∧ w.toUInt32 ≠ 0 ∧ h.toUInt32 ≠ 0
  | setBounds _ x y w h => x.toNat < 2 ^ 31 ∧ y.toNat < 2 ^ 31 ∧ w.toNat < 2 ^ 32 ∧ h.toNat < 2 ^ 32 ∧
      2 ≤ w.toUInt32 ∧ 2 ≤ h.toUInt32 ∧
      GuiRectFitsFramebuffer d.fb x.toUInt32 y.toUInt32 w.toUInt32 h.toUInt32 ∧
      ¬((d.windows i).w = w.toUInt32 ∧ (d.windows i).h = h.toUInt32)
  | _ => False

/-- A call that draws in a window of the caller, and has or gets a buffer for it, draws in a content of less than 2⁶⁴
bytes. -/
def WindowCall.DrawsSmall (byte : Nat → UInt8) (kmalloc : Kmalloc) (p : Process) (d : Desktop) (call : WindowCall) :
    Prop :=
  ∀ windowId i, call.drawsId = some windowId → OwnWindow p d windowId i → call.Draws byte p d i →
    guiWindowEnsureBacking kmalloc (call.bounds (d.windows i)) ≠ none → (call.bounds (d.windows i)).Small

/-- What a call of `p` does to the buffers. -/
inductive BufferEffect (kmalloc : Kmalloc) (p : Process) (d d' : Desktop) (draws : Option UInt64) : Prop
  | kept (h : KeepsBuffers d d')
  | drew (windowId : UInt64) (i : WindowId) (is : draws = some windowId) (own : OwnWindow p d windowId i)
      (others : ∀ j, j ≠ i → d'.windows j = d.windows j) (h : (d.windows i).Drew kmalloc (d'.windows i))

theorem drawContent_effect {windowId : UInt64} (hi : OwnWindow p d windowId i) (hsmall : (d.windows i).Small)
    (h : guiWindowEnsureBacking kmalloc (d.windows i) = some window)
    (hpaint : ∀ q, paint q ≠ none → (guiWindowBackingFb (d.windows i)).Shows q) :
    BufferEffect kmalloc p d (d.setWindow i (guiDrawContent window paint)) (some windowId) := by
  refine .drew windowId i rfl hi (fun j hj => Function.update_of_ne hj _ _) ?_
  rw [Desktop.setWindow_windows, Function.update_self]
  exact ensureBacking_drew hsmall h hpaint

theorem ensureBacking_fb (h : guiWindowEnsureBacking kmalloc window = some window') :
    guiWindowBackingFb window' = guiWindowBackingFb window := by
  obtain ⟨bytes, pixels, capacity, -, rfl, -⟩ := guiWindowEnsureBacking_some h
  rfl

theorem clear_shows {fb : FbSize} (q : Pixel) (hq : (.clear : FbPaint) q ≠ none) : fb.Shows q := absurd rfl hq

theorem drawText_effect {windowId : UInt64} {x y : Int} {text : List UInt8} {color : UInt32}
    (hi : OwnWindow p d windowId i)
    (hsmall : guiWindowEnsureBacking kmalloc (d.windows i) ≠ none → (d.windows i).Small) :
    BufferEffect kmalloc p d (guiWindowDrawText kmalloc windowId.toUInt32 x y text color d).desktop
      (some windowId) := by
  unfold guiWindowDrawText
  rw [hi.found]
  dsimp only
  split
  · exact .kept (.refl d)
  · rename_i window hbacking
    have hsmall := hsmall (by rw [hbacking]; exact Option.some_ne_none window)
    split
    · exact drawContent_effect hi hsmall hbacking clear_shows
    · refine drawContent_effect hi hsmall hbacking fun q hq => ?_
      rw [ensureBacking_fb hbacking] at hq
      exact (fontDrawText_ink.mp hq).1

theorem drawRect_effect {windowId : UInt64} {x y : Int} {w h color : UInt32} (hi : OwnWindow p d windowId i)
    (hsmall : w ≠ 0 → h ≠ 0 → guiWindowEnsureBacking kmalloc (d.windows i) ≠ none → (d.windows i).Small) :
    BufferEffect kmalloc p d (guiWindowDrawRect kmalloc windowId.toUInt32 x y w h color d).desktop (some windowId) := by
  unfold guiWindowDrawRect
  rw [hi.found]
  dsimp only
  split
  · exact .kept (.refl d)
  rename_i hsize
  rw [not_or] at hsize
  split
  · exact .kept (.refl d)
  · rename_i window hbacking
    have hsmall := hsmall hsize.1 hsize.2 (by rw [hbacking]; exact Option.some_ne_none window)
    split
    · exact drawContent_effect hi hsmall hbacking clear_shows
    · refine drawContent_effect hi hsmall hbacking fun q hq => ?_
      rw [ensureBacking_fb hbacking] at hq
      exact fillrect_shows hq

/-- Other bounds get a buffer where drawing in them does. -/
theorem ensureBacking_of_reset (h : guiWindowResetBacking kmalloc window = some window') :
    guiWindowEnsureBacking kmalloc window ≠ none := by
  obtain ⟨bytes, hsize, hrest⟩ := Option.bind_eq_some_iff.mp h
  unfold guiWindowEnsureBacking
  rw [hsize, Option.bind_some]
  cases hkept : guiBackingFor bytes window with
  | some pixels => exact Option.some_ne_none _
  | none =>
    rw [hkept] at hrest
    dsimp only at hrest ⊢
    rw [hrest]
    exact Option.some_ne_none _

theorem resizeWindow_effect {windowId : UInt64} {x y w h : UInt32} (hi : OwnWindow p d windowId i)
    (hsmall : 2 ≤ w → 2 ≤ h → GuiRectFitsFramebuffer d.fb x y w h → ¬((d.windows i).w = w ∧ (d.windows i).h = h) →
      guiWindowEnsureBacking kmalloc { d.windows i with x, y, w, h } ≠ none →
      Window.Small { d.windows i with x, y, w, h }) :
    BufferEffect kmalloc p d (guiResizeWindow kmalloc windowId.toUInt32 x y w h d).desktop (some windowId) := by
  have hset : ∀ window : Window, ((guiRefreshCursorShape (d.setWindow i { d.windows i with x, y, w, h })).setWindow i
      window).windows = (d.setWindow i window).windows := fun window => by
    simp only [Desktop.setWindow, guiRefreshCursorShape, Function.update_idem]
  unfold guiResizeWindow
  split
  · exact .kept (.refl d)
  rename_i hargs
  simp only [not_or, not_not, UInt32.not_lt] at hargs
  rw [hi.found]
  dsimp only
  split
  · exact .kept (KeepsBuffers.refreshed (.setWindow (.inr ⟨rfl, rfl⟩)))
  rename_i hother
  split
  · have hsame : KeepsBuffers d (d.setWindow i (d.windows i)) := .setWindow (.inr ⟨rfl, rfl⟩)
    exact .kept (hsame.of_windows (hset _))
  · rename_i window hreset
    obtain ⟨before, after, hafter, hbehind, hblock⟩ :=
      resetBacking_drew (hsmall hargs.1 hargs.2.1 hargs.2.2 hother (ensureBacking_of_reset hreset)) hreset
    obtain ⟨hbacking, hcapacity⟩ := pushEvent_buffer .resize (s32 w) (s32 h) window
    refine .drew windowId i rfl hi (fun j hj => ?_) ?_
    · rw [hset]
      exact Function.update_of_ne hj _ _
    · rw [hset, Desktop.setWindow_windows, Function.update_self]
      refine ⟨before, after, hbacking.trans hafter, ?_, ?_⟩
      · rwa [hcapacity]
      · rwa [hcapacity]

/-- What every call does to the buffers. -/
theorem WindowCall.buffers (byte : Nat → UInt8) (kmalloc : Kmalloc) (p : Process) (d : Desktop) {call : WindowCall}
    (hsmall : call.DrawsSmall byte kmalloc p d) :
    CallWp d (call.exec byte kmalloc (some p)) (fun _ d' => BufferEffect kmalloc p d d' call.drawsId)
      fun _ d' => BufferEffect kmalloc p d d' call.drawsId := by
  have hkept : ∀ draws, BufferEffect kmalloc p d d draws := fun _ => .kept (.refl d)
  by_cases hdraws : call.drawsId = none
  · intro s hs
    refine Wp.mono (WindowCall.keepsBuffers byte kmalloc p d hdraws s hs) ?_ ?_
    · rintro _ _ ⟨d', hs', h⟩
      exact ⟨d', hs', .kept h⟩
    · rintro _ _ ⟨d', hs', h⟩
      exact ⟨d', hs', .kept h⟩
  -- a drawing, after the checks
  have hop : ∀ {windowId : UInt64} {op : Desktop → Step Bool} {e : Int},
      BufferEffect kmalloc p d (op d).desktop (some windowId) →
      CallWp d (do guiCall e op; return (0 : Int))
        (fun _ d' => BufferEffect kmalloc p d d' (some windowId))
        fun _ d' => BufferEffect kmalloc p d d' (some windowId) := by
    intro windowId op e heffect
    have hcall : CallWp d (guiCall e op) (fun _ d' => BufferEffect kmalloc p d d' (some windowId))
        fun _ d' => BufferEffect kmalloc p d d' (some windowId) := callWp_guiCall (fun _ => heffect) fun _ => heffect
    exact hcall.bind fun _ _ h => .pure h
  cases call with
  | drawText windowId x y color strPtr =>
    show CallWp d (sysWindowDrawText byte kmalloc (some p) windowId x y color strPtr)
      (fun _ d' => BufferEffect kmalloc p d d' (some windowId)) fun _ d' => BufferEffect kmalloc p d d' (some windowId)
    unfold sysWindowDrawText
    refine .guard (hkept _) fun hargs => ?_
    simp only [not_or, Nat.not_le] at hargs
    refine CallWp.bind (callWp_ownerWindow (hkept _) (hkept _) (hkept _)) fun i d' hd => ?_
    obtain ⟨hi, rfl⟩ := hd
    have hcopy : CallWp d' (copyCstr byte (some p) strPtr windowTextMax)
        (fun text e => sysUserCopyCstr byte p strPtr.toNat windowTextMax 0 = some text ∧ e = d')
        fun _ e => BufferEffect kmalloc p d' e (some windowId) := by
      unfold copyCstr
      split
      · exact .error (hkept _)
      · rename_i text htext
        exact .pure ⟨htext, rfl⟩
    refine hcopy.bind fun text e he => ?_
    obtain ⟨htext, rfl⟩ := he
    refine hop (drawText_effect hi fun hbuffer => hsmall windowId i rfl hi ?_ hbuffer)
    exact ⟨hargs.2.2.1, hargs.2.2.2.1, hargs.2.2.2.2, by rw [htext]; rfl⟩
  | drawRect windowId x y w h color =>
    show CallWp d (sysWindowDrawRect kmalloc (some p) windowId x y w h color)
      (fun _ d' => BufferEffect kmalloc p d d' (some windowId)) fun _ d' => BufferEffect kmalloc p d d' (some windowId)
    unfold sysWindowDrawRect
    refine .guard (hkept _) fun hargs => ?_
    simp only [not_or, Nat.not_le] at hargs
    refine CallWp.bind (callWp_ownerWindow (hkept _) (hkept _) (hkept _)) fun i d' hd => ?_
    obtain ⟨hi, rfl⟩ := hd
    refine hop (drawRect_effect hi fun hw hh hbuffer => hsmall windowId i rfl hi ?_ hbuffer)
    exact ⟨hargs.2.2.1, hargs.2.2.2.1, hargs.2.2.2.2.1, hargs.2.2.2.2.2.1, hargs.2.2.2.2.2.2, hw, hh⟩
  | setBounds windowId x y w h =>
    show CallWp d (sysWindowSetBounds kmalloc (some p) windowId x y w h)
      (fun _ d' => BufferEffect kmalloc p d d' (some windowId)) fun _ d' => BufferEffect kmalloc p d d' (some windowId)
    unfold sysWindowSetBounds
    refine .guard (hkept _) fun hargs => ?_
    simp only [not_or, Nat.not_le] at hargs
    refine CallWp.bind (callWp_ownerWindow (hkept _) (hkept _) (hkept _)) fun i d' hd => ?_
    obtain ⟨hi, rfl⟩ := hd
    refine hop (resizeWindow_effect hi fun hw hh hfits hother hbuffer => hsmall windowId i rfl hi ?_ hbuffer)
    exact ⟨hargs.2.2.1, hargs.2.2.2.1, hargs.2.2.2.2.1, hargs.2.2.2.2.2, hw, hh, hfits, hother⟩
  | _ => exact absurd rfl hdraws

end Drawn

end Armonios
