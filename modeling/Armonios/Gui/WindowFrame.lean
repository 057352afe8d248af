import Armonios.Gui.WindowWp

/-!
# The windows of others

* `WindowCall.others_untouched`: a call of a process leaves the windows of the other processes alone, as far as their
  buffers are not in one memory;
* `WindowCall.fails_still`: when a call that fails has changed nothing.
-/

namespace Armonios

variable {byte : Nat → UInt8} {kmalloc : Kmalloc} {p : Process} {d d' : Desktop} {call : WindowCall}

/-! ## What a call returns -/

/-- The value that the call returns, and what it leaves. -/
def WindowCall.run (byte : Nat → UInt8) (kmalloc : Kmalloc) (process : Option Process) (call : WindowCall)
    (s : WindowState) : Int × WindowState :=
  match call.exec byte kmalloc process s with
  | .ok n s => (n, s)
  | .error e s => (e, s)

theorem CallWp.run {s : WindowState} {call : WindowCall} {Q E : Int → Desktop → Prop} (hs : s.desktop = some d)
    (h : CallWp d (call.exec byte kmalloc (some p)) Q E) :
    ∃ d', (call.run byte kmalloc (some p) s).2.desktop = some d' ∧
      (Q (call.run byte kmalloc (some p) s).1 d' ∨ E (call.run byte kmalloc (some p) s).1 d') := by
  have hcall := h s hs
  unfold WindowCall.run
  unfold Wp at hcall
  split <;> rename_i hexec <;> rw [hexec] at hcall
  · obtain ⟨d', hs', hq⟩ := hcall
    exact ⟨d', hs', .inl hq⟩
  · obtain ⟨d', hs', he⟩ := hcall
    exact ⟨d', hs', .inr he⟩

/-- A call that stores a title and then fails is the one that changes something and fails. -/
theorem WindowCall.exec_ok (hset : ∀ windowId x y w h, call ≠ .setBounds windowId x y w h)
    (hbar : ∀ windowId titlePtr titleH i title, call = .setTitle windowId titlePtr titleH →
      ¬ BarRefused byte p d windowId titlePtr titleH i title) :
    CallOk p d call (call.exec byte kmalloc (some p)) := by
  cases call with
  | create x y w h bg border titlePtr => exact sysWindowCreate_ok x y w h bg border titlePtr
  | destroy windowId => exact sysWindowDestroy_ok windowId
  | drawText windowId x y color strPtr => exact sysWindowDrawText_ok windowId x y color strPtr
  | drawRect windowId x y w h color => exact sysWindowDrawRect_ok windowId x y w h color
  | event windowId bufPtr bufCount => exact sysWindowEvent_ok windowId bufPtr bufCount
  | setTitle windowId titlePtr titleH => exact sysWindowSetTitle_ok fun i title => hbar _ _ _ i title rfl
  | redraw windowId => exact sysWindowRedraw_ok windowId
  | focus windowId => exact sysWindowFocus_ok windowId
  | forPid ownerPid index => exact sysWindowForPid_ok ownerPid index
  | setShape shape => exact sysCursorSetShape_ok shape
  | flush windowId x y w h => exact sysWindowFlush_ok windowId x y w h
  | getBounds windowId outPtr => exact sysWindowGetBounds_ok windowId outPtr
  | setBounds windowId x y w h => exact absurd rfl (hset windowId x y w h)
  | minimize windowId => exact sysWindowMinimize_ok windowId
  | restore windowId => exact sysWindowRestore_ok windowId
  | state windowId outPtr => exact sysWindowState_ok windowId outPtr
  | registerRegion win slot x y w h shape => exact sysCursorRegisterRegion_ok win slot x y w h shape

/-- Whatever a call returns, it has the effect of a call on the windows. -/
theorem WindowCall.run_effect (byte : Nat → UInt8) (kmalloc : Kmalloc) (call : WindowCall) {s : WindowState}
    (hs : s.desktop = some d) :
    ∃ d', (call.run byte kmalloc (some p) s).2.desktop = some d' ∧ WindowEffect p d call d' := by
  have hok : ∀ {m : WindowM Int}, CallOk p d call m → CallWp d m (fun _ => WindowEffect p d call)
      fun _ => WindowEffect p d call := by
    intro m hm s hs
    refine Wp.mono (hm s hs) ?_ ?_
    · rintro n s' ⟨d', hs', -, heffect⟩
      exact ⟨d', hs', heffect⟩
    · rintro e s' ⟨d', hs', -, rfl⟩
      exact ⟨d', hs', .same rfl⟩
  have hexec : CallWp d (call.exec byte kmalloc (some p)) (fun _ => WindowEffect p d call)
      fun _ => WindowEffect p d call := by
    by_cases hset : ∃ windowId x y w h, call = .setBounds windowId x y w h
    · obtain ⟨windowId, x, y, w, h, rfl⟩ := hset
      intro s hs
      refine Wp.mono (sysWindowSetBounds_ok windowId x y w h s hs) ?_ ?_
      · rintro n s' ⟨d', hs', -, heffect⟩
        exact ⟨d', hs', heffect⟩
      · rintro e s' ⟨d', hs', -, heffect⟩
        exact ⟨d', hs', heffect⟩
    · by_cases hbar : ∃ windowId titlePtr titleH i title, call = .setTitle windowId titlePtr titleH ∧
        BarRefused byte p d windowId titlePtr titleH i title
      · obtain ⟨windowId, titlePtr, titleH, i, title, rfl, hrefused⟩ := hbar
        intro s hs
        refine Wp.mono (sysWindowSetTitle_refused hrefused s hs) ?_ ?_
        · rintro _ _ ⟨_, _, hno⟩
          exact hno.elim
        · rintro e s' ⟨d', hs', -, rfl⟩
          exact ⟨_, hs', hrefused.own.effect (titled_only i title d)⟩
      · refine hok (WindowCall.exec_ok (fun windowId x y w h his => hset ⟨windowId, x, y, w, h, his⟩) ?_)
        exact fun windowId titlePtr titleH i title his hrefused =>
          hbar ⟨windowId, titlePtr, titleH, i, title, his, hrefused⟩
  obtain ⟨d', hs', heffect⟩ := hexec.run hs
  exact ⟨d', hs', heffect.elim id id⟩


theorem WindowEffect.keeps_others (heffect : WindowEffect p d call d') {j : WindowId}
    (hused : (d.windows j).used = true)
    (hother : (d.windows j).ownerPid ≠ p.pid32) (howned : (d.windows j).ownerPid ≠ guiNoOwner) :
    d'.windows j = d.windows j ∨
    (∃ windowId, call = .focus windowId) ∧ (∃ z, d'.windows j = { d.windows j with z }) ∨
    (∃ windowId, call = .restore windowId) ∧
      ∃ z minimized events, d'.windows j = { d.windows j with z, minimized, events } := by
  cases heffect with
  | same windows => exact .inl (congrFun windows j)
  | created i is free others owner =>
    refine .inl (others j ?_)
    rintro rfl
    rw [hused] at free
    cases free
  | own i used owner only =>
    refine .inl (only.others j ?_)
    rintro rfl
    exact owner.elim hother howned
  | raised i z is windows =>
    by_cases hj : j = i
    · subst hj
      exact .inr (.inl ⟨is, z, by rw [windows, Function.update_self]⟩)
    · exact .inl (by rw [windows, Function.update_of_ne hj])
  | restored i z events is windows =>
    by_cases hj : j = i
    · subst hj
      exact .inr (.inr ⟨is, z, false, events, by rw [windows, Function.update_self]⟩)
    · exact .inl (by rw [windows, Function.update_of_ne hj])

/-- A program with one page of memory. -/
def windowProgram (pid : Nat) : Process where
  pid
  name := [47, 97]
  regs := Vector.replicate 31 0
  sp := 8192
  pc := 4096
  pstate := 0
  pageTable := 0
  state := .running
  exitCode := 0
  nextUserVaddr := 12288
  userRegions := [⟨4096, 12288, 0, 0⟩]
  argv := []

/-- The desktop with a window of process 5. -/
def ownedDesktop : Desktop := guiRun (sampleDesktop ⟨64, 48⟩) [.create 5 4 4 20 20 0 0 (some [97])]

/-- What another process owns is as before, but for what the calls of the taskbar change. -/
theorem WindowCall.others_untouched (byte : Nat → UInt8) (kmalloc : Kmalloc) (p : Process) (call : WindowCall)
    {s : WindowState} {d : Desktop} (hs : s.desktop = some d) :
    ∃ d', (call.run byte kmalloc (some p) s).2.desktop = some d' ∧
      ∀ j, (d.windows j).used = true → (d.windows j).ownerPid ≠ p.pid32 → (d.windows j).ownerPid ≠ guiNoOwner →
        d'.windows j = d.windows j ∨
        (∃ windowId, call = .focus windowId) ∧ (∃ z, d'.windows j = { d.windows j with z }) ∨
        (∃ windowId, call = .restore windowId) ∧
          ∃ z minimized events, d'.windows j = { d.windows j with z, minimized, events } := by
  obtain ⟨d', hd', heffect⟩ := call.run_effect byte kmalloc hs (p := p)
  exact ⟨d', hd', fun j hused hother howned => heffect.keeps_others hused hother howned⟩

/-! ## The calls that fail -/

theorem sysUserCopyCstr_text {ptr : Nat} {left i : Nat} {text : Path}
    (h : sysUserCopyCstr byte p ptr left i = some text) : text.length < left ∧ ∀ b ∈ text, b ≠ 0 := by
  induction left generalizing i text with
  | zero => cases h
  | succ left ih =>
    unfold sysUserCopyCstr at h
    split at h
    · cases h
    split at h
    · cases h
      exact ⟨by simp, by simp⟩
    · rename_i hne
      obtain ⟨rest, hrest, rfl⟩ := Option.map_eq_some_iff.mp h
      obtain ⟨hlength, hbytes⟩ := ih hrest
      refine ⟨by simpa using hlength, ?_⟩
      simpa [hne] using hbytes

/-- The title is the one of the window already, and nothing that comes with it changes. -/
structure TitleStands (d : Desktop) (i : WindowId) (title : Path) : Prop where
  same : (d.windows i).title = title
  panel : title = guiPanelTitle → (d.windows i).flags |||
    (guiWindowDock ||| guiWindowNoFocus ||| guiWindowNoDrag ||| guiWindowSkipTaskbar) = (d.windows i).flags
  cursor : guiRefreshCursorShape d = d

theorem titledWindow_self {title : Path} {window : Window} (hused : window.used = true)
    (hlength : title.length < guiTitleLen) (hbytes : ∀ b ∈ title, b ≠ 0) :
    titledWindow title window = window ↔ window.title = title ∧ (title = guiPanelTitle → window.flags |||
      (guiWindowDock ||| guiWindowNoFocus ||| guiWindowNoDrag ||| guiWindowSkipTaskbar) = window.flags) := by
  have hstored : guiWindowSetTitle (some title) window = { window with title } := by
    unfold guiWindowSetTitle
    rw [Option.getD_some, List.takeWhile_eq_self_iff.mpr (by simpa using hbytes), List.take_of_length_le (by omega)]
  unfold titledWindow guiApplyBuiltinPolicy
  rw [hstored]
  by_cases hpanel : title = guiPanelTitle
  · rw [if_pos ⟨hused, hpanel⟩]
    constructor
    · intro h
      exact ⟨(congrArg Window.title h).symm, fun _ => congrArg Window.flags h⟩
    · rintro ⟨rfl, hflags⟩
      dsimp only
      rw [hflags hpanel]
  · rw [if_neg fun h => hpanel h.2]
    constructor
    · intro h
      exact ⟨(congrArg Window.title h).symm, fun h => absurd h hpanel⟩
    · rintro ⟨rfl, -⟩
      rfl

theorem titled_self {i : WindowId} {title : Path} (hused : (d.windows i).used = true)
    (hlength : title.length < guiTitleLen) (hbytes : ∀ b ∈ title, b ≠ 0) :
    d.titled i title = d ↔ TitleStands d i title := by
  have hwindow := titledWindow_self hused hlength hbytes
  have hset : titledWindow title (d.windows i) = d.windows i → d.titled i title = guiRefreshCursorShape d := by
    intro hself
    unfold Desktop.titled Desktop.setWindow
    rw [hself, Function.update_eq_self]
  constructor
  · intro h
    have hself : titledWindow title (d.windows i) = d.windows i := by
      rw [← titled_window, h]
    exact ⟨(hwindow.mp hself).1, (hwindow.mp hself).2, (hset hself).symm.trans h⟩
  · intro h
    exact (hset (hwindow.mpr ⟨h.same, h.panel⟩)).trans h.cursor

/-- The call that is refused. -/
theorem BarRefused.run (kmalloc : Kmalloc) {windowId titlePtr titleH : UInt64} {i : WindowId} {title : Path}
    {s : WindowState} (h : BarRefused byte p d windowId titlePtr titleH i title) (hs : s.desktop = some d) :
    ((WindowCall.setTitle windowId titlePtr titleH).run byte kmalloc (some p) s).1 < 0 ∧
      ((WindowCall.setTitle windowId titlePtr titleH).run byte kmalloc (some p) s).2.desktop =
        some (d.titled i title) := by
  have hcall : CallWp d ((WindowCall.setTitle windowId titlePtr titleH).exec byte kmalloc (some p)) (fun _ _ => False)
      fun e d' => e < 0 ∧ d' = d.titled i title := sysWindowSetTitle_refused h
  obtain ⟨d', hd', hno | ⟨hneg, rfl⟩⟩ := CallWp.run hs hcall
  · exact hno.elim
  · exact ⟨hneg, hd'⟩

/-- The only call that fails and changes something is one whose title is stored and whose bar is refused. -/
theorem WindowCall.fails_still (byte : Nat → UInt8) (kmalloc : Kmalloc) (p : Process) (call : WindowCall)
    {s : WindowState}
    {d : Desktop} (hs : s.desktop = some d) (hset : ∀ windowId x y w h, call ≠ .setBounds windowId x y w h) :
    ((call.run byte kmalloc (some p) s).1 < 0 → (call.run byte kmalloc (some p) s).2.desktop = some d) ↔
      ∀ windowId titlePtr titleH i title, call = .setTitle windowId titlePtr titleH →
        BarRefused byte p d windowId titlePtr titleH i title → TitleStands d i title := by
  constructor
  · rintro hstill windowId titlePtr titleH i title rfl h
    obtain ⟨hneg, hd'⟩ := h.run kmalloc hs
    obtain ⟨hlength, hbytes⟩ := sysUserCopyCstr_text h.text
    exact (titled_self (usedWindow_some h.own.found) hlength hbytes).mp
      (Option.some.inj (hd'.symm.trans (hstill hneg)))
  · intro hstands hneg
    by_cases hbar : ∃ windowId titlePtr titleH i title, call = .setTitle windowId titlePtr titleH ∧
        BarRefused byte p d windowId titlePtr titleH i title
    · obtain ⟨windowId, titlePtr, titleH, i, title, rfl, h⟩ := hbar
      obtain ⟨-, hd'⟩ := h.run kmalloc hs
      obtain ⟨hlength, hbytes⟩ := sysUserCopyCstr_text h.text
      rw [hd', (titled_self (usedWindow_some h.own.found) hlength hbytes).mpr (hstands _ _ _ i title rfl h)]
    · have hok : CallOk p d call (call.exec byte kmalloc (some p)) :=
        WindowCall.exec_ok hset fun windowId titlePtr titleH i title his h =>
          hbar ⟨windowId, titlePtr, titleH, i, title, his, h⟩
      obtain ⟨d', hd', ⟨hnonneg, -⟩ | ⟨-, rfl⟩⟩ := CallWp.run hs hok
      · exact absurd hneg (not_lt.mpr hnonneg)
      · exact hd'

/-- The string `"b"` in the memory of the program. -/
def titleBytes (address : Nat) : UInt8 := if address = 4096 then 98 else 0

/-- A window of 20 rows gets the title `"b"`, and is refused a bar of 40 rows. -/
theorem refused_bar_keeps_title : ¬ (((WindowCall.setTitle 0 4096 40).run titleBytes (fun _ => none)
      (some (windowProgram 5)) ⟨some ownedDesktop, [], []⟩).1 < 0 →
    ((WindowCall.setTitle 0 4096 40).run titleBytes (fun _ => none) (some (windowProgram 5))
      ⟨some ownedDesktop, [], []⟩).2.desktop = some ownedDesktop) := by
  have href : BarRefused titleBytes (windowProgram 5) ownedDesktop 0 4096 40 0 [98] :=
    ⟨⟨by decide, by decide +kernel, by decide +kernel⟩, by decide, by decide, by decide +kernel⟩
  obtain ⟨hneg, hd'⟩ := href.run (fun _ => none) (s := ⟨some ownedDesktop, [], []⟩) rfl
  intro hstill
  have hself : ownedDesktop.titled 0 [98] = ownedDesktop := Option.some.inj (hd'.symm.trans (hstill hneg))
  have htitle : ((ownedDesktop.titled 0 [98]).windows 0).title = (ownedDesktop.windows 0).title := by rw [hself]
  revert htitle
  decide +kernel

/-- The title of another process is not stored. -/
theorem WindowCall.fails_still_sample :
    ((WindowCall.setTitle 0 4096 40).run titleBytes (fun _ => none) (some (windowProgram 6))
      ⟨some ownedDesktop, [], []⟩).1 < 0 ∧
    ((WindowCall.setTitle 0 4096 40).run titleBytes (fun _ => none) (some (windowProgram 6))
      ⟨some ownedDesktop, [], []⟩).2.desktop = some ownedDesktop := by
  have hneg : ((WindowCall.setTitle 0 4096 40).run titleBytes (fun _ => none) (some (windowProgram 6))
      ⟨some ownedDesktop, [], []⟩).1 < 0 := by decide +kernel
  refine ⟨hneg, (WindowCall.fails_still titleBytes (fun _ => none) (windowProgram 6) (.setTitle 0 4096 40)
    (s := ⟨some ownedDesktop, [], []⟩) rfl fun _ _ _ _ _ => by simp).mpr ?_ hneg⟩
  rintro windowId titlePtr titleH i title his h
  -- the window is not one of process 6
  cases his
  have hfound : ownedDesktop.usedWindow 0 = some 0 := by decide +kernel
  have hi : i = 0 := Option.some.inj (h.own.found.symm.trans hfound)
  have howner := h.own.owner
  rw [hi] at howner
  exact absurd howner (by decide +kernel)

end Armonios
