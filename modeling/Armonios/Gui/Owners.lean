import Armonios.Gui.Drag
import Armonios.Gui.WindowFrame

/-!
# The owners of windows

No operation of the desktop gives an owner to a window that is there: the window that is created has its
owner from then on (`GuiOp.owners`). `gui_destroy_windows_for_pid` leaves no window of the process
(`destroyWindowsForPid_gone`).
-/

namespace Armonios

/-- No window has been created, and those that are left have the owners that they had. -/
def OwnersKept (d d' : Desktop) : Prop :=
  ∀ i, (d'.windows i).used = true → (d.windows i).used = true ∧ (d'.windows i).ownerPid = (d.windows i).ownerPid

variable {d d' e : Desktop} {i : WindowId} {byte : Nat → UInt8} {kmalloc : Kmalloc} {p : Process} {call : WindowCall}

theorem OwnersKept.refl (d : Desktop) : OwnersKept d d := fun _ h => ⟨h, rfl⟩

theorem OwnersKept.trans (h : OwnersKept d d') (h' : OwnersKept d' e) : OwnersKept d e := by
  intro i hi
  obtain ⟨hused, howner⟩ := h' i hi
  obtain ⟨hused₀, howner₀⟩ := h i hused
  exact ⟨hused₀, howner.trans howner₀⟩

theorem Only.owners (h : Only i d d') : OwnersKept d d' := by
  intro j hj
  by_cases hji : j = i
  · subst hji
    exact h.owner hj
  · rw [h.others j hji] at hj ⊢
    exact ⟨hj, rfl⟩

/-! ## Operations -/

/-- Anything but a creation. -/
def keepingRules : Rules where
  inside _ _ := True
  titled _ _ := True
  buffered _ := True
  owner _ := False
  points _ _ := True
  drags _ _ := True

theorem Change.owners {n : Nat} {a b : Arrangement} (h : Change keepingRules a n b) (i : WindowId)
    (hi : (b.layout i).used = true) : (a.layout i).used = true ∧ (b.layout i).ownerPid = (a.layout i).ownerPid := by
  -- a change of the layout of one window, which keeps what is asked here
  have hset : ∀ (j : WindowId) (l : Layout), b.layout = Function.update a.layout j l →
      (l.used = true → (a.layout j).used = true ∧ l.ownerPid = (a.layout j).ownerPid) →
      (a.layout i).used = true ∧ (b.layout i).ownerPid = (a.layout i).ownerPid := by
    intro j l hb hl
    rw [hb] at hi ⊢
    by_cases hij : i = j
    · subst hij
      rw [Function.update_self] at hi ⊢
      exact hl hi
    · rw [Function.update_of_ne hij] at hi ⊢
      exact ⟨hi, rfl⟩
  cases h with
  | create j ownerPid x y w h free size inside owner => exact owner.elim
  | destroy j l gone => exact hset j l rfl fun hused => Bool.noConfusion (gone.symm.trans hused)
  | place j x y used inside => exact hset j _ rfl fun hused => ⟨hused, rfl⟩
  | resize j x y w h backingCapacity used size bar inside fits buffered => exact hset j _ rfl fun hused => ⟨hused, rfl⟩
  | titleBar j titleH used bar titled => exact hset j _ rfl fun hused => ⟨hused, rfl⟩
  | raise j used => exact hset j _ rfl fun hused => ⟨hused, rfl⟩
  | draw j backingCapacity used fits buffered => exact hset j _ rfl fun hused => ⟨hused, rfl⟩
  | point cursorX cursorY points => exact ⟨hi, rfl⟩
  | drag j dragOffX dragOffY drags => exact ⟨hi, rfl⟩
  | drop => exact ⟨hi, rfl⟩

theorem Changes.owners {n : Nat} (h : Changes keepingRules d.arrangement n d'.arrangement) : OwnersKept d d' := by
  have hinv := Changes.invariant (fun _ b => ∀ i, (b.layout i).used = true →
    (d.arrangement.layout i).used = true ∧ (b.layout i).ownerPid = (d.arrangement.layout i).ownerPid) h
    (fun _ _ _ _ _ hb hlast i hi => by
      obtain ⟨hused, howner⟩ := hlast.owners i hi
      obtain ⟨hused₀, howner₀⟩ := hb i hused
      exact ⟨hused₀, howner.trans howner₀⟩)
    fun _ hi => ⟨hi, rfl⟩
  exact hinv

/-- Every operation but a creation keeps the owners. -/
theorem GuiOp.owners (op : GuiOp) (h : op.Allowed keepingRules d) : OwnersKept d (op.run d).desktop := by
  obtain ⟨_, -, hchanges⟩ := op.changes (r := keepingRules) (fun _ _ _ _ => trivial) h
  exact hchanges.owners

theorem guiHandleDesktopInput_owners (ownerDead : Window → Bool) (event : InputEvent) (d : Desktop) :
    OwnersKept d (guiHandleDesktopInput ownerDead event d).desktop := by
  refine (GuiOp.input ownerDead event).owners ?_
  cases event with
  | mouseMove dx dy => exact ⟨trivial, fun _ => trivial⟩
  | mouseButton button pressed =>
    intro i _
    trivial
  | keyPress key => trivial
  | keyRelease key => trivial

theorem guiDestroyWindowsForPid_owners (pid : UInt32) (d : Desktop) :
    OwnersKept d (guiDestroyWindowsForPid pid d).desktop := (GuiOp.destroyForPid pid).owners trivial

/-- No window of the process is left. -/
theorem destroyWindowsForPid_gone {pid : UInt32} (hpid : pid ≠ guiNoOwner)
    (hi : ((guiDestroyWindowsForPid pid d).desktop.windows i).used = true) :
    ((guiDestroyWindowsForPid pid d).desktop.windows i).ownerPid ≠ pid := by
  obtain ⟨hused, howner⟩ := guiDestroyWindowsForPid_owners pid d i hi
  have hleft := congrFun (congrArg Prod.snd (guiDestroyWindowsForPid_pool pid d)) i
  simp only [Desktop.pool, hi] at hleft
  rw [howner]
  intro hof
  simp [hpid, hused, hof] at hleft

/-! ## Calls -/

/-- A call creates one window, for its caller, in a place where there was none; or none. -/
theorem WindowEffect.owners (h : WindowEffect p d call d') : OwnersKept d d' ∨
    ∃ i, (d.windows i).used = false ∧ (d'.windows i).ownerPid = p.pid32 ∧ ∀ j, j ≠ i → d'.windows j = d.windows j := by
  have hupdate : ∀ (j : WindowId) (window : Window), d'.windows = Function.update d.windows j window →
      window.used = (d.windows j).used → window.ownerPid = (d.windows j).ownerPid → OwnersKept d d' := by
    intro j window hwindows hused howner
    exact Only.owners (Only.of_windows (Only.same hused howner) hwindows)
  cases h with
  | same windows =>
    refine .inl fun j hj => ?_
    rw [windows] at hj ⊢
    exact ⟨hj, rfl⟩
  | created i is free others owner => exact .inr ⟨i, free, owner, others⟩
  | own i used owner only => exact .inl only.owners
  | raised i z is windows => exact .inl (hupdate i _ windows rfl rfl)
  | restored i z events is windows => exact .inl (hupdate i _ windows rfl rfl)

/-! Calls where there is no desktop. -/

/-- Without a desktop the program fails, and none comes. -/
def FailsOff {α : Type} (m : WindowM α) : Prop :=
  ∀ s : WindowState, s.desktop = none → Wp m s (fun _ _ => False) fun _ s' => s'.desktop = none

section FailsOff

variable {α γ : Type} {w : WindowM α} {f : α → WindowM γ} {byte : Nat → UInt8} {kmalloc : Kmalloc}
  {process : Option Process}

theorem FailsOff.error {e : Int} : FailsOff (throw e : WindowM α) := fun _ hs => hs

theorem FailsOff.first (h : FailsOff w) : FailsOff (w >>= f) :=
  fun s hs => wp_bind.mpr (Wp.mono (h s hs) (fun _ _ hno => hno.elim) fun _ _ h' => h')

theorem FailsOff.after (hw : Moves Eq w) (hf : ∀ a, FailsOff (f a)) : FailsOff (w >>= f) := by
  intro s hs
  refine wp_bind.mpr (Wp.mono (hw s) ?_ ?_)
  · rintro a s' rfl
    exact hf a s hs
  · rintro e s' rfl
    exact hs

theorem FailsOff.guard {c : Prop} [Decidable c] {e : Int} {next : Unit → WindowM α} (h : FailsOff (next ())) :
    FailsOff (if c then throw e >>= next else next ()) :=
  fun s hs => wp_guard (fun _ => hs) fun _ => h s hs

theorem guiDesktop_off : FailsOff guiDesktop := by
  intro s hs
  refine wp_bind.mpr (wp_get.mpr ?_)
  rw [hs]
  exact hs

theorem onDesktop_off {op : Desktop → Step α} : FailsOff (onDesktop op) := guiDesktop_off.first

theorem guiCall_off {e : Int} {op : Desktop → Step Bool} : FailsOff (guiCall e op) := onDesktop_off.first

theorem ownerWindowLookup_off {windowId : UInt64} {missing : Int} :
    FailsOff (ownerWindowLookup process windowId missing) := by
  unfold ownerWindowLookup
  split
  · exact .error
  · exact .guard guiDesktop_off.first

theorem anyWindow_off {windowId : UInt64} : FailsOff (anyWindow process windowId) := by
  unfold anyWindow
  exact .guard guiDesktop_off.first

theorem copyCstr_eq (ptr : UInt64) (capacity : Nat) : Moves Eq (copyCstr byte process ptr capacity) := by
  unfold copyCstr
  split
  · exact Moves.error _
  · exact Moves.pure _

theorem userBufOut_eq (ptr len : Nat) : Moves Eq (sysUserBufOut process ptr len) := by
  unfold sysUserBufOut
  split
  · exact Moves.error _
  · exact Moves.pure _

/-- Every call asks for the desktop. -/
theorem WindowCall.exec_off (call : WindowCall) : FailsOff (call.exec byte kmalloc process) := by
  cases call with
  | create x y w h bg border titlePtr =>
    unfold WindowCall.exec sysWindowCreate
    dsimp only
    split
    · exact .error
    refine .guard ?_
    split
    · exact onDesktop_off.first
    · exact .after (copyCstr_eq _ _) fun _ => onDesktop_off.first
  | destroy windowId => exact ownerWindowLookup_off.first
  | drawText windowId x y color strPtr =>
    unfold WindowCall.exec sysWindowDrawText
    refine .guard ?_
    exact ownerWindowLookup_off.first
  | drawRect windowId x y w h color =>
    unfold WindowCall.exec sysWindowDrawRect
    refine .guard ?_
    exact ownerWindowLookup_off.first
  | event windowId bufPtr bufCount =>
    unfold WindowCall.exec sysWindowEvent
    refine .guard ?_
    exact .after (userBufOut_eq _ _) fun _ => ownerWindowLookup_off.first
  | setTitle windowId titlePtr titleH =>
    unfold WindowCall.exec sysWindowSetTitle
    refine .guard ?_
    exact ownerWindowLookup_off.first
  | redraw windowId => exact ownerWindowLookup_off.first
  | focus windowId => exact anyWindow_off.first
  | forPid ownerPid index =>
    unfold WindowCall.exec sysWindowForPid
    refine .guard ?_
    exact guiDesktop_off.first
  | setShape shape =>
    unfold WindowCall.exec sysCursorSetShape
    refine .guard ?_
    exact guiCall_off.first
  | flush windowId x y w h =>
    unfold WindowCall.exec sysWindowFlush
    refine .guard ?_
    exact ownerWindowLookup_off.first
  | getBounds windowId outPtr => exact .after (userBufOut_eq _ _) fun _ => ownerWindowLookup_off.first
  | setBounds windowId x y w h =>
    unfold WindowCall.exec sysWindowSetBounds
    refine .guard ?_
    exact ownerWindowLookup_off.first
  | minimize windowId => exact ownerWindowLookup_off.first
  | restore windowId => exact anyWindow_off.first
  | state windowId outPtr => exact .after (userBufOut_eq _ _) fun _ => anyWindow_off.first
  | registerRegion win slot x y w h shape =>
    unfold WindowCall.exec sysCursorRegisterRegion
    dsimp only
    split
    · exact .error
    · exact .guard guiDesktop_off.first

theorem WindowCall.run_off (call : WindowCall) {t : WindowState} (ht : t.desktop = none) :
    (call.run byte kmalloc process t).2.desktop = none := by
  have h : Wp (call.exec byte kmalloc process) t _ _ := call.exec_off t ht
  unfold WindowCall.run
  unfold Wp at h
  split at h <;> rename_i hexec <;> rw [hexec]
  · exact h.elim
  · exact h

end FailsOff

end Armonios
