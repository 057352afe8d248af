import Armonios.Gui.Input
import Armonios.Lib.Run

/-!
# What the operations do to a desktop

The invariants of the desktop read a part of it, its `Arrangement`, and of each window the `Layout`. `Change`
has the ways in which an arrangement may change, and every operation makes a number of them
(`GuiOp.changes`). The rules say what the changes of a run keep to: where windows may be placed (`inside`),
which title bars may be set (`titled`), who may create windows (`owner`), where the cursor may go (`points`)
and how far from the corner of a window it may be when it drags it (`drags`).

`Changes` counts the values of `z` that are taken; no operation takes more than one.
-/

namespace Armonios

structure Layout where
  used : Bool
  x : UInt32
  y : UInt32
  w : UInt32
  h : UInt32
  titleH : UInt32
  z : UInt32
  ownerPid : UInt32
  ownerDrawn : Bool
  hasBacking : Bool
  backingCapacity : UInt32

def Window.layout (window : Window) : Layout where
  used := window.used
  x := window.x
  y := window.y
  w := window.w
  h := window.h
  titleH := window.titleH
  z := window.z
  ownerPid := window.ownerPid
  ownerDrawn := window.ownerDrawn
  hasBacking := window.backing.isSome
  backingCapacity := window.backingCapacity

/-- What the invariants read of a desktop. -/
structure Arrangement where
  fb : FbSize
  layout : WindowId → Layout
  nextZ : UInt32
  cursorX : Int
  cursorY : Int
  dragWindowId : Option WindowId
  dragOffX : Int
  dragOffY : Int

def Desktop.arrangement (d : Desktop) : Arrangement where
  fb := d.fb
  layout i := (d.windows i).layout
  nextZ := d.nextZ
  cursorX := d.cursor.x
  cursorY := d.cursor.y
  dragWindowId := d.dragWindowId
  dragOffX := d.dragOffX
  dragOffY := d.dragOffY

def Arrangement.set (i : WindowId) (l : Layout) (a : Arrangement) : Arrangement :=
  { a with layout := Function.update a.layout i l }

/-- The next `z` is taken. -/
def Arrangement.take (a : Arrangement) : Arrangement := { a with nextZ := a.nextZ + 1 }

/-- The bytes of a content of this size. -/
def contentBytes (w h titleH : UInt32) : Nat := w.toNat * (h.toNat - titleH.toNat) * 4

/-- The bytes that a buffer for it is asked to have, a number of 64 bits. -/
def askedBytes (w h titleH : UInt32) : Nat := contentBytes w h titleH % 2 ^ 64

/-- The bytes of the content are a number of 64 bits. -/
def Window.Small (window : Window) : Prop := contentBytes window.w window.h window.titleH < 2 ^ 64

/-- What a change may set: the place of a window, the title bar of a window, a window that gets a buffer, an owner, the
cursor, and the offset of a drag. -/
structure Rules where
  inside : UInt32 → UInt32 → Prop
  titled : Layout → UInt32 → Prop
  buffered : Layout → Prop
  owner : UInt32 → Prop
  points : Int → Int → Prop
  drags : Int → Int → Prop

theorem askedBytes_of_lt {w h titleH : UInt32} (hsmall : contentBytes w h titleH < 2 ^ 64) :
    askedBytes w h titleH = contentBytes w h titleH := Nat.mod_eq_of_lt hsmall

theorem askedBytes_le (w h titleH : UInt32) : askedBytes w h titleH ≤ contentBytes w h titleH := Nat.mod_le ..

/-- One change, with the number of `z` values that it takes. -/
inductive Change (r : Rules) (a : Arrangement) : Nat → Arrangement → Prop
  | create (i : WindowId) (ownerPid x y w h : UInt32) (free : (a.layout i).used = false) (size : 2 ≤ w ∧ 2 ≤ h)
      (inside : r.inside x y) (owner : r.owner ownerPid) :
      Change r a 1 (a.set i ⟨true, x, y, w, h, 0, a.nextZ, ownerPid, false, false, 0⟩).take
  | destroy (i : WindowId) (l : Layout) (gone : l.used = false) : Change r a 0 (a.set i l)
  | place (i : WindowId) (x y : UInt32) (used : (a.layout i).used = true) (inside : r.inside x y) :
      Change r a 0 (a.set i { a.layout i with x, y })
  | resize (i : WindowId) (x y w h backingCapacity : UInt32) (used : (a.layout i).used = true)
      (size : 2 ≤ w ∧ 2 ≤ h) (bar : (a.layout i).titleH < h) (inside : r.inside x y)
      (fits : askedBytes w h (a.layout i).titleH ≤ backingCapacity.toNat)
      (buffered : r.buffered { a.layout i with x, y, w, h, hasBacking := true, backingCapacity }) :
      Change r a 0 (a.set i { a.layout i with x, y, w, h, hasBacking := true, backingCapacity })
  | titleBar (i : WindowId) (titleH : UInt32) (used : (a.layout i).used = true) (bar : titleH < (a.layout i).h)
      (titled : r.titled (a.layout i) titleH) : Change r a 0 (a.set i { a.layout i with titleH })
  | raise (i : WindowId) (used : (a.layout i).used = true) :
      Change r a 1 (a.set i { a.layout i with z := a.nextZ }).take
  | draw (i : WindowId) (backingCapacity : UInt32) (used : (a.layout i).used = true)
      (fits : askedBytes (a.layout i).w (a.layout i).h (a.layout i).titleH ≤ backingCapacity.toNat)
      (buffered : r.buffered { a.layout i with ownerDrawn := true, hasBacking := true, backingCapacity }) :
      Change r a 0 (a.set i { a.layout i with ownerDrawn := true, hasBacking := true, backingCapacity })
  | point (cursorX cursorY : Int) (points : r.points cursorX cursorY) : Change r a 0 { a with cursorX, cursorY }
  | drag (i : WindowId) (dragOffX dragOffY : Int) (drags : r.drags dragOffX dragOffY) :
      Change r a 0 { a with dragWindowId := some i, dragOffX, dragOffY }
  | drop : Change r a 0 { a with dragWindowId := none }

/-- Changes one after the other. -/
inductive Changes (r : Rules) (a : Arrangement) : Nat → Arrangement → Prop
  | refl : Changes r a 0 a
  | tail {n m : Nat} {b c : Arrangement} (before : Changes r a n b) (last : Change r b m c) : Changes r a (n + m) c

variable {r : Rules} {n m : Nat} {a b c : Arrangement} {d : Desktop} {i : WindowId}

theorem Change.one (h : Change r a n b) : Changes r a n b := by
  have hone := Changes.tail .refl h
  rwa [Nat.zero_add] at hone

theorem Changes.of_eq (h : b = a) : Changes r a 0 b := by
  rw [h]
  exact .refl

theorem Changes.trans (h : Changes r a n b) (h' : Changes r b m c) : Changes r a (n + m) c := by
  induction h' with
  | refl => exact h
  | tail _ last ih => exact Nat.add_assoc .. ▸ .tail ih last

/-- What each change keeps, with the number of values taken until then, holds after all of them. -/
theorem Changes.invariant (Inv : Nat → Arrangement → Prop) (h : Changes r a n b)
    (hstep : ∀ k m b c, k + m ≤ n → Inv k b → Change r b m c → Inv (k + m) c) (ha : Inv 0 a) : Inv n b := by
  induction h with
  | refl => exact ha
  | tail _ last ih =>
    refine hstep _ _ _ _ le_rfl (ih fun k m b c hk => hstep k m b c (by omega)) last

/-! ## Layouts -/

@[simp] theorem Arrangement.set_same (i : WindowId) (a : Arrangement) : a.set i (a.layout i) = a := by
  simp [Arrangement.set]

@[simp] theorem Arrangement.set_set (i : WindowId) (l l' : Layout) (a : Arrangement) :
    (a.set i l).set i l' = a.set i l' := by
  simp [Arrangement.set]

@[simp] theorem Arrangement.set_layout (i : WindowId) (l : Layout) (a : Arrangement) : (a.set i l).layout i = l := by
  simp [Arrangement.set]

@[simp] theorem Desktop.setWindow_windows (i : WindowId) (window : Window) (d : Desktop) :
    (d.setWindow i window).windows = Function.update d.windows i window := rfl

theorem setWindow_arrangement (i : WindowId) (window : Window) (d : Desktop) :
    (d.setWindow i window).arrangement = d.arrangement.set i window.layout := by
  unfold Desktop.arrangement Arrangement.set
  congr 1
  funext j
  by_cases hj : j = i <;> simp [hj, Function.update_of_ne]

/-- A change of what is not in the layout. -/
theorem setWindow_layout {window : Window} (h : window.layout = (d.windows i).layout) :
    (d.setWindow i window).arrangement = d.arrangement := by
  rw [setWindow_arrangement, h]
  exact d.arrangement.set_same i

@[simp] theorem guiRefreshCursorShape_windows (d : Desktop) : (guiRefreshCursorShape d).windows = d.windows := rfl

@[simp] theorem guiRefreshCursorShape_arrangement (d : Desktop) :
    (guiRefreshCursorShape d).arrangement = d.arrangement := rfl

@[simp] theorem guiFocusWindowEnsure_windows (d : Desktop) : (guiFocusWindowEnsure d).windows = d.windows := by
  unfold guiFocusWindowEnsure
  split <;> rfl

@[simp] theorem guiFocusWindowEnsure_arrangement (d : Desktop) :
    (guiFocusWindowEnsure d).arrangement = d.arrangement := by
  unfold guiFocusWindowEnsure
  split <;> rfl

@[simp] theorem guiWindowPushEvent_layout (type : GuiEventType) (data1 data2 : Int) (window : Window) :
    (guiWindowPushEvent type data1 data2 window).layout = window.layout := by
  unfold guiWindowPushEvent
  split_ifs <;> rfl

@[simp] theorem guiWindowSetTitle_layout (title : Option (List UInt8)) (window : Window) :
    (guiWindowSetTitle title window).layout = window.layout := rfl

@[simp] theorem guiApplyBuiltinPolicy_layout (window : Window) :
    (guiApplyBuiltinPolicy window).layout = window.layout := by
  unfold guiApplyBuiltinPolicy
  split <;> rfl

@[simp] theorem guiNewWindow_layout (ownerPid x y w h bgColor borderColor z : UInt32) (title : Option (List UInt8)) :
    (guiNewWindow ownerPid x y w h bgColor borderColor z title).layout =
      ⟨true, x, y, w, h, 0, z, ownerPid, false, false, 0⟩ := by
  rw [guiNewWindow, guiApplyBuiltinPolicy_layout]
  rfl

theorem usedWindow_some {windowId : UInt32} (h : d.usedWindow windowId = some i) : (d.windows i).used = true := by
  unfold Desktop.usedWindow at h
  split at h
  · split at h
    · cases h
      assumption
    · cases h
  · cases h

/-- The bytes that a content asks for, where it can have a buffer. -/
theorem guiWindowBackingSize_some {window : Window} {bytes : UInt32} (h : guiWindowBackingSize window = some bytes) :
    window.titleH < window.h ∧ askedBytes window.w window.h window.titleH = bytes.toNat := by
  have hbar : window.titleH < window.h := by
    by_contra hbar
    simp [guiWindowBackingSize, guiContentH, hbar] at h
  have hcontent : (guiContentH window).toNat = window.h.toNat - window.titleH.toNat := by
    rw [guiContentH, if_pos hbar, UInt32.toNat_sub_of_le _ _ (UInt32.le_of_lt hbar)]
  refine ⟨hbar, ?_⟩
  unfold guiWindowBackingSize at h
  split at h
  · cases h
  dsimp only at h
  split at h
  · cases h
  · rename_i hfits
    cases h
    rw [not_le, hcontent] at hfits
    rw [askedBytes, contentBytes, hcontent, UInt32.toNat_ofNat_of_lt' hfits]

theorem guiBackingFor_some {window : Window} {bytes : UInt32} {pixels : Nat → UInt32}
    (h : guiBackingFor bytes window = some pixels) : window.backing = some pixels ∧ bytes ≤ window.backingCapacity := by
  unfold guiBackingFor at h
  split at h
  · exact ⟨h, by assumption⟩
  · cases h

/-- A window that has a buffer of the size that its content asks for. -/
theorem guiWindowEnsureBacking_layout {kmalloc : Kmalloc} {window window' : Window}
    (h : guiWindowEnsureBacking kmalloc window = some window') :
    ∃ capacity : UInt32, askedBytes window.w window.h window.titleH ≤ capacity.toNat ∧
      window'.layout = { window.layout with hasBacking := true, backingCapacity := capacity } := by
  obtain ⟨bytes, hbytes, hrest⟩ := Option.bind_eq_some_iff.mp h
  have hsize := (guiWindowBackingSize_some hbytes).2
  split at hrest
  · rename_i pixels hbacking
    cases hrest
    obtain ⟨hsome, hle⟩ := guiBackingFor_some hbacking
    refine ⟨window.backingCapacity, hsize ▸ UInt32.le_iff_toNat_le.mp hle, ?_⟩
    simp [Window.layout, hsome]
  · obtain ⟨pixels, -, rfl⟩ := Option.map_eq_some_iff.mp hrest
    exact ⟨bytes, hsize.le, rfl⟩

theorem guiWindowResetBacking_layout {kmalloc : Kmalloc} {window window' : Window}
    (h : guiWindowResetBacking kmalloc window = some window') :
    window.titleH < window.h ∧
      ∃ capacity : UInt32, askedBytes window.w window.h window.titleH ≤ capacity.toNat ∧
      window'.layout = { window.layout with hasBacking := true, backingCapacity := capacity } := by
  obtain ⟨bytes, hbytes, hrest⟩ := Option.bind_eq_some_iff.mp h
  obtain ⟨hbar, hsize⟩ := guiWindowBackingSize_some hbytes
  refine ⟨hbar, ?_⟩
  split at hrest
  · rename_i pixels hbacking
    cases hrest
    obtain ⟨-, hle⟩ := guiBackingFor_some hbacking
    exact ⟨window.backingCapacity, hsize ▸ UInt32.le_iff_toNat_le.mp hle, rfl⟩
  · obtain ⟨pixels, -, rfl⟩ := Option.map_eq_some_iff.mp hrest
    exact ⟨bytes, hsize.le, rfl⟩

/-! ## The operations on one window -/

/-- The rules allow every place in the framebuffer. -/
def Rules.Covers (r : Rules) (fb : FbSize) : Prop := ∀ x y, x < fb.width → y < fb.height → r.inside x y

theorem guiCreateWindowForPid_changes {ownerPid x y w h bgColor borderColor : UInt32} {title : Option (List UInt8)}
    (hcovers : r.Covers d.fb) (howner : r.owner ownerPid) :
    ∃ n ≤ 1, Changes r d.arrangement n
      (guiCreateWindowForPid ownerPid x y w h bgColor borderColor title d).desktop.arrangement := by
  unfold guiCreateWindowForPid
  split
  · exact ⟨0, by omega, .refl⟩
  rename_i hargs
  simp only [not_or, UInt32.not_lt, UInt32.not_le] at hargs
  split
  · exact ⟨0, by omega, .refl⟩
  · rename_i i hfree
    have hused : (d.windows i).used = false := by simpa using List.find?_some hfree
    refine ⟨1, le_rfl, ?_⟩
    have hcreate : Change r d.arrangement 1 _ :=
      .create i ownerPid x y w h hused ⟨hargs.1, hargs.2.1⟩ (hcovers x y hargs.2.2.1 hargs.2.2.2) howner
    have hset := congrArg Arrangement.take
      (setWindow_arrangement i (guiNewWindow ownerPid x y w h bgColor borderColor d.nextZ title) d)
    rw [guiNewWindow_layout] at hset
    convert hcreate.one using 1
    exact hset

theorem guiDestroyAt_changes (i : WindowId) (d : Desktop) :
    Changes r d.arrangement 0 (guiDestroyAt i d).desktop.arrangement := by
  have hgone : Change r d.arrangement 0 (d.setWindow i (guiClearedWindow (d.windows i))).arrangement := by
    rw [setWindow_arrangement]
    exact .destroy i _ rfl
  unfold guiDestroyAt
  dsimp only
  split
  · rw [guiRefreshCursorShape_arrangement, guiFocusWindowEnsure_arrangement]
    exact hgone.one
  · exact hgone.one

theorem guiDestroyWindow_changes (windowId : UInt32) (d : Desktop) :
    Changes r d.arrangement 0 (guiDestroyWindow windowId d).desktop.arrangement := by
  unfold guiDestroyWindow
  split
  · exact .refl
  · exact guiDestroyAt_changes _ _

theorem guiDestroyIfOwned_changes (pid : UInt32) (s : Step Unit) (i : WindowId) :
    Changes r s.desktop.arrangement 0 (guiDestroyIfOwned pid s i).desktop.arrangement := by
  unfold guiDestroyIfOwned
  split
  · exact guiDestroyAt_changes i s.desktop
  · exact .refl

theorem guiDestroyWindowsForPid_changes (pid : UInt32) (d : Desktop) :
    Changes r d.arrangement 0 (guiDestroyWindowsForPid pid d).desktop.arrangement := by
  have hfold : ∀ (l : List WindowId) (s : Step Unit),
      Changes r s.desktop.arrangement 0 (l.foldl (guiDestroyIfOwned pid) s).desktop.arrangement := by
    intro l
    induction l with
    | nil => exact fun s => .refl
    | cons i l ih => exact fun s => (guiDestroyIfOwned_changes pid s i).trans (ih _)
  unfold guiDestroyWindowsForPid
  split
  · exact .refl
  · exact hfold windowIds.reverse ⟨(), d, []⟩

theorem guiWindowSetTitleInternal_arrangement (windowId : UInt32) (title : Option (List UInt8)) (d : Desktop) :
    (guiWindowSetTitleInternal windowId title d).desktop.arrangement = d.arrangement := by
  unfold guiWindowSetTitleInternal
  split
  · rfl
  · exact (guiRefreshCursorShape_arrangement _).trans (setWindow_layout (by simp))

theorem guiWindowSetTitleBarInternal_changes {windowId titleH : UInt32}
    (htitled : ∀ i, d.usedWindow windowId = some i → titleH < (d.windows i).h → r.titled (d.windows i).layout titleH) :
    Changes r d.arrangement 0 (guiWindowSetTitleBarInternal windowId titleH d).desktop.arrangement := by
  unfold guiWindowSetTitleBarInternal
  split
  · exact .refl
  rename_i i hi
  split
  · exact .refl
  · rename_i hbar
    have hbar' : Change r d.arrangement 0 _ :=
      .titleBar i titleH (usedWindow_some hi) (UInt32.not_le.mp hbar) (htitled i hi (UInt32.not_le.mp hbar))
    rw [guiRefreshCursorShape_arrangement, setWindow_arrangement]
    exact hbar'.one

theorem guiWindowSetFlagsInternal_arrangement (windowId flags : UInt32) (d : Desktop) :
    (guiWindowSetFlagsInternal windowId flags d).desktop.arrangement = d.arrangement := by
  unfold guiWindowSetFlagsInternal
  split
  · rfl
  rename_i i _
  have hset : (d.setWindow i { d.windows i with flags }).arrangement = d.arrangement := setWindow_layout rfl
  dsimp only
  split_ifs
  · rw [guiRefreshCursorShape_arrangement, guiFocusWindowEnsure_arrangement]
    exact hset
  · exact hset
  · rw [guiFocusWindowEnsure_arrangement]
    exact hset
  · exact hset

theorem guiMoveWindow_changes {windowId x y : UInt32} (hcovers : r.Covers d.fb) :
    Changes r d.arrangement 0 (guiMoveWindow windowId x y d).desktop.arrangement := by
  unfold guiMoveWindow
  split
  · exact .refl
  rename_i hargs
  simp only [not_or, UInt32.not_le] at hargs
  split
  · exact .refl
  · rename_i i hi
    have hplace : Change r d.arrangement 0 _ := .place i x y (usedWindow_some hi) (hcovers x y hargs.1 hargs.2)
    dsimp only
    rw [guiRefreshCursorShape_arrangement, setWindow_arrangement]
    exact hplace.one

/-- The rules allow the buffer of a resize. -/
def ResizeBuffered (r : Rules) (kmalloc : Kmalloc) (windowId x y w h : UInt32) (d : Desktop) : Prop :=
  2 ≤ w → 2 ≤ h → GuiRectFitsFramebuffer d.fb x y w h → ∀ i window, d.usedWindow windowId = some i →
    ¬((d.windows i).w = w ∧ (d.windows i).h = h) →
    guiWindowResetBacking kmalloc { d.windows i with x, y, w, h } = some window → r.buffered window.layout

/-- The rules allow the buffer of a drawing. -/
def DrawBuffered (r : Rules) (kmalloc : Kmalloc) (windowId : UInt32) (d : Desktop) : Prop :=
  ∀ i window, d.usedWindow windowId = some i → guiWindowEnsureBacking kmalloc (d.windows i) = some window →
    r.buffered { window.layout with ownerDrawn := true }

theorem guiResizeWindow_changes {kmalloc : Kmalloc} {windowId x y w h : UInt32} (hcovers : r.Covers d.fb)
    (hbuffered : ResizeBuffered r kmalloc windowId x y w h d) :
    Changes r d.arrangement 0 (guiResizeWindow kmalloc windowId x y w h d).desktop.arrangement := by
  unfold guiResizeWindow
  split
  · exact .refl
  rename_i hargs
  simp only [not_or, UInt32.not_lt, not_not] at hargs
  obtain ⟨hw, hh, hrect⟩ := hargs
  have hinside := hcovers x y hrect.2.2.1 hrect.2.2.2.1
  split
  · exact .refl
  rename_i i hi
  have hused := usedWindow_some hi
  dsimp only
  split
  · rename_i hsame
    have hplace : Change r d.arrangement 0 _ := .place i x y hused hinside
    rw [guiRefreshCursorShape_arrangement, setWindow_arrangement]
    convert hplace.one using 1
    simp [Window.layout, Desktop.arrangement, hsame.1, hsame.2]
  split
  · refine .of_eq ?_
    rw [setWindow_arrangement, guiRefreshCursorShape_arrangement, setWindow_arrangement, Arrangement.set_set]
    exact Arrangement.set_same i d.arrangement
  · rename_i window hreset
    obtain ⟨hbar, capacity, hfits, hlayout⟩ := guiWindowResetBacking_layout hreset
    have hallowed := hbuffered hw hh hrect i window hi ‹_› hreset
    rw [hlayout] at hallowed
    have hresize : Change r d.arrangement 0 _ := .resize i x y w h capacity hused ⟨hw, hh⟩ hbar hinside hfits hallowed
    rw [setWindow_arrangement, guiRefreshCursorShape_arrangement, setWindow_arrangement, Arrangement.set_set,
      guiWindowPushEvent_layout, hlayout]
    exact hresize.one

theorem guiWindowMinimize_arrangement (windowId : UInt32) (d : Desktop) :
    (guiWindowMinimize windowId d).desktop.arrangement = d.arrangement := by
  unfold guiWindowMinimize
  split
  · rfl
  split
  · rfl
  · exact setWindow_layout (by rw [guiWindowPushEvent_layout]; rfl)

/-- The window gets the next `z`. -/
theorem raise_changes (window : Window) (hused : (d.windows i).used = true)
    (hlayout : window.layout = { (d.windows i).layout with z := d.nextZ }) :
    Changes r d.arrangement 1 { d.setWindow i window with nextZ := d.nextZ + 1 }.arrangement := by
  have hraise : Change r d.arrangement 1 _ := .raise i hused
  convert hraise.one using 1
  have hset := congrArg Arrangement.take (setWindow_arrangement i window d)
  rw [hlayout] at hset
  exact hset

theorem guiWindowRestore_changes (windowId : UInt32) (d : Desktop) :
    ∃ n ≤ 1, Changes r d.arrangement n (guiWindowRestore windowId d).desktop.arrangement := by
  unfold guiWindowRestore
  split
  · exact ⟨0, by omega, .refl⟩
  rename_i i hi
  dsimp only
  split
  · exact ⟨0, by omega, .refl⟩
  · exact ⟨1, le_rfl, raise_changes _ (usedWindow_some hi) (by rw [guiWindowPushEvent_layout]; rfl)⟩

theorem guiFocusWindow_changes (windowId : UInt32) (d : Desktop) :
    ∃ n ≤ 1, Changes r d.arrangement n (guiFocusWindow windowId d).desktop.arrangement := by
  unfold guiFocusWindow
  split
  · exact ⟨0, by omega, .refl⟩
  rename_i i hi
  dsimp only
  split
  · exact ⟨0, by omega, .refl⟩
  · exact ⟨1, le_rfl, raise_changes { d.windows i with z := d.nextZ } (usedWindow_some hi) rfl⟩

/-- A drawing in a window that has got a buffer. -/
theorem drawContent_changes {kmalloc : Kmalloc} {windowId : UInt32} {window : Window} (paint : FbPaint)
    (hi : d.usedWindow windowId = some i) (hensure : guiWindowEnsureBacking kmalloc (d.windows i) = some window)
    (hbuffered : DrawBuffered r kmalloc windowId d) :
    Changes r d.arrangement 0 (d.setWindow i (guiDrawContent window paint)).arrangement := by
  obtain ⟨capacity, hfits, hlayout⟩ := guiWindowEnsureBacking_layout hensure
  have hallowed := hbuffered i window hi hensure
  rw [hlayout] at hallowed
  have hdraw : Change r d.arrangement 0 _ := .draw i capacity (usedWindow_some hi) hfits hallowed
  rw [setWindow_arrangement]
  convert hdraw.one using 2
  have hcontent : (guiDrawContent window paint).layout = { window.layout with ownerDrawn := true } := by
    simp [guiDrawContent, Window.layout]
  rw [hcontent, hlayout]
  rfl

theorem guiWindowDrawText_changes {kmalloc : Kmalloc} {windowId : UInt32} (x y : Int) (text : List UInt8)
    (color : UInt32) (hbuffered : DrawBuffered r kmalloc windowId d) :
    Changes r d.arrangement 0 (guiWindowDrawText kmalloc windowId x y text color d).desktop.arrangement := by
  unfold guiWindowDrawText
  split
  · exact .refl
  rename_i i hi
  split
  · exact .refl
  rename_i window hensure
  dsimp only
  split <;> exact drawContent_changes _ hi hensure hbuffered

theorem guiWindowDrawRect_changes {kmalloc : Kmalloc} {windowId w h : UInt32} (x y : Int) (color : UInt32)
    (hbuffered : w ≠ 0 → h ≠ 0 → DrawBuffered r kmalloc windowId d) :
    Changes r d.arrangement 0 (guiWindowDrawRect kmalloc windowId x y w h color d).desktop.arrangement := by
  unfold guiWindowDrawRect
  split
  · exact .refl
  rename_i i hi
  split
  · exact .refl
  rename_i hsize
  rw [not_or] at hsize
  split
  · exact .refl
  rename_i window hensure
  dsimp only
  split <;> exact drawContent_changes _ hi hensure (hbuffered hsize.1 hsize.2)

theorem guiWindowClear_changes {kmalloc : Kmalloc} {windowId : UInt32} (color : UInt32)
    (hbuffered : DrawBuffered r kmalloc windowId d) :
    Changes r d.arrangement 0 (guiWindowClear kmalloc windowId color d).desktop.arrangement := by
  unfold guiWindowClear
  split
  · exact .refl
  rename_i i hi
  split
  · exact .refl
  · exact drawContent_changes _ hi ‹_› hbuffered

/-! ## The cursor and the input -/

/-- The rules allow the cursor at `(x, y)`, clamped to the framebuffer. -/
def PointsTo (r : Rules) (x y : Int) (d : Desktop) : Prop :=
  r.points (guiClampCursor x d.fb.width) (guiClampCursor y d.fb.height)

theorem guiSetCursor_changes {x y : Int} (hpoints : PointsTo r x y d) :
    Changes r d.arrangement 0 (guiSetCursor x y d).desktop.arrangement :=
  (Change.point (a := d.arrangement) _ _ hpoints).one

theorem guiCursorMove_changes {dx dy : Int}
    (hpoints : PointsTo r (i32 (d.cursor.x + dx)) (i32 (d.cursor.y + dy)) d) :
    Changes r d.arrangement 0 (guiCursorMove dx dy d).desktop.arrangement :=
  guiSetCursor_changes hpoints

theorem guiSetCursorShape_arrangement (shape : UInt32) (d : Desktop) :
    (guiSetCursorShape shape d).desktop.arrangement = d.arrangement := by
  unfold guiSetCursorShape
  split <;> rfl

theorem guiPutCursorRegion_arrangement (i : WindowId) (slot : Fin guiMaxCursorRegions) (region : CursorRegion)
    (d : Desktop) : (guiPutCursorRegion i slot region d).desktop.arrangement = d.arrangement := by
  have hset : (d.setWindow i { d.windows i with
      cursorRegions := Function.update (d.windows i).cursorRegions slot region }).arrangement = d.arrangement :=
    setWindow_layout rfl
  unfold guiPutCursorRegion
  dsimp only
  split
  · rw [guiRefreshCursorShape_arrangement]
    exact hset
  · exact hset

theorem guiRegisterCursorRegion_arrangement (windowId slot : UInt32) (x y : Int) (w h shape : UInt32) (d : Desktop) :
    (guiRegisterCursorRegion windowId slot x y w h shape d).desktop.arrangement = d.arrangement := by
  unfold guiRegisterCursorRegion
  split
  · rfl
  split
  · split_ifs
    · exact guiPutCursorRegion_arrangement _ _ _ d
    · rfl
    · rfl
    · exact guiPutCursorRegion_arrangement _ _ _ d
  · rfl

theorem guiDragStart_changes {windowId : UInt32} {offX offY : Int}
    (hdrags : d.usedWindow windowId ≠ none → r.drags offX offY) :
    Changes r d.arrangement 0 (guiDragStart windowId offX offY d).arrangement := by
  unfold guiDragStart
  split
  · exact .refl
  rename_i i hi
  dsimp only
  split_ifs
  · exact .refl
  · exact .refl
  · exact (Change.drag (a := d.arrangement) i offX offY (hdrags (by simp [hi]))).one

/-- A window that is dragged to the cursor may be placed there. -/
def DragInside (r : Rules) (cursorX cursorY : Int) (d : Desktop) : Prop :=
  r.inside (u32 (max (i32 (cursorX - d.dragOffX)) 0)) (u32 (max (i32 (cursorY - d.dragOffY)) 0))

theorem guiDragUpdate_changes {cursorX cursorY : Int}
    (hinside : d.dragWindowId ≠ none → DragInside r cursorX cursorY d) :
    Changes r d.arrangement 0 (guiDragUpdate cursorX cursorY d).desktop.arrangement := by
  unfold guiDragUpdate
  split
  · exact .refl
  rename_i i hi
  dsimp only
  split
  · exact (Change.drop (a := d.arrangement)).one
  · rename_i hused
    have hused' : (d.windows i).used = true := by simpa using hused
    have hplace : Change r d.arrangement 0 _ := .place i _ _ hused' (hinside (by simp [hi]))
    rw [guiRefreshCursorShape_arrangement, setWindow_arrangement]
    exact hplace.one

theorem guiCursorButton_changes (button : UInt32) (pressed : Bool) (d : Desktop) :
    ∃ n ≤ 1, Changes r d.arrangement n (guiCursorButton button pressed d).desktop.arrangement := by
  unfold guiCursorButton
  split
  · exact ⟨0, by omega, .refl⟩
  dsimp only
  split
  · exact ⟨0, by omega, .refl⟩
  split
  · exact guiFocusWindow_changes _ (guiSetButton button pressed d)
  · exact ⟨0, by omega, .refl⟩

@[simp] theorem guiPushTo_arrangement (i : WindowId) (type : GuiEventType) (data1 data2 : Int) (d : Desktop) :
    (guiPushTo i type data1 data2 d).arrangement = d.arrangement :=
  setWindow_layout (by simp)

theorem guiDispatchInput_arrangement (event : InputEvent) (d : Desktop) :
    (guiDispatchInput event d).arrangement = d.arrangement := by
  unfold guiDispatchInput
  dsimp only
  cases event <;> simp only
  · split
    · split
      · exact guiPushTo_arrangement _ _ _ _ d
      · rfl
    · rfl
  · split
    · split
      · exact guiPushTo_arrangement _ _ _ _ d
      · rfl
    · rfl
  · split
    · exact guiPushTo_arrangement _ _ _ _ d
    · rfl

/-- The rules allow the cursor to drag the window from where it is. -/
def PressDrags (r : Rules) (window : Window) (d : Desktop) : Prop :=
  r.drags (i32 (d.cursor.x - s32 window.x)) (i32 (d.cursor.y - s32 window.y))

theorem guiPressOn_changes {ownerDead : Window → Bool} {hit : WindowId} (hdrags : PressDrags r (d.windows hit) d) :
    Changes r d.arrangement 0 (guiPressOn ownerDead hit d).desktop.arrangement := by
  unfold guiPressOn
  dsimp only
  split
  · split
    · exact guiDestroyWindow_changes _ d
    · exact .of_eq (guiPushTo_arrangement _ _ _ _ d)
  · exact .of_eq (guiWindowMinimize_arrangement _ d)
  · exact .of_eq (guiPushTo_arrangement _ _ _ _ d)
  · rw [guiPushTo_arrangement]
    exact guiDragStart_changes fun _ => hdrags

/-- A click may raise a window, and leaves all windows where they are. -/
theorem guiCursorButton_window (button : UInt32) (pressed : Bool) (d : Desktop) (i : WindowId) :
    ∃ z, ((guiCursorButton button pressed d).desktop.windows i) = { d.windows i with z } := by
  have hfocus : ∀ (windowId : UInt32) (d : Desktop),
      ∃ z, (guiFocusWindow windowId d).desktop.windows i = { d.windows i with z } := by
    intro windowId d
    unfold guiFocusWindow
    split
    · exact ⟨_, rfl⟩
    dsimp only
    split
    · exact ⟨_, rfl⟩
    rename_i j _ _
    by_cases hi : i = j
    · exact ⟨d.nextZ, by simp [hi]⟩
    · exact ⟨(d.windows i).z, by simp [hi]⟩
  unfold guiCursorButton
  split
  · exact ⟨_, rfl⟩
  dsimp only
  split
  · exact ⟨_, rfl⟩
  split
  · exact hfocus _ (guiSetButton button pressed d)
  · exact ⟨_, rfl⟩

theorem guiCursorButton_cursor (button : UInt32) (pressed : Bool) (d : Desktop) :
    (guiCursorButton button pressed d).desktop.cursor.x = d.cursor.x ∧
      (guiCursorButton button pressed d).desktop.cursor.y = d.cursor.y := by
  have hfocus : ∀ (windowId : UInt32) (d : Desktop), (guiFocusWindow windowId d).desktop.cursor.x = d.cursor.x ∧
      (guiFocusWindow windowId d).desktop.cursor.y = d.cursor.y := by
    intro windowId d
    unfold guiFocusWindow
    split
    · exact ⟨rfl, rfl⟩
    dsimp only
    split <;> exact ⟨rfl, rfl⟩
  unfold guiCursorButton
  split
  · exact ⟨rfl, rfl⟩
  dsimp only
  split
  · exact ⟨rfl, rfl⟩
  split
  · exact hfocus _ (guiSetButton button pressed d)
  · exact ⟨rfl, rfl⟩

/-- The rules allow what an input event does: a mouse move moves the cursor and what it drags, and a button
may start to drag the window under the cursor. -/
def InputAllowed (r : Rules) (d : Desktop) : InputEvent → Prop
  | .mouseMove dx dy =>
    PointsTo r (i32 (d.cursor.x + dx)) (i32 (d.cursor.y + dy)) d ∧
      (d.dragWindowId ≠ none → DragInside r (guiClampCursor (i32 (d.cursor.x + dx)) d.fb.width)
        (guiClampCursor (i32 (d.cursor.y + dy)) d.fb.height) d)
  | .mouseButton _ _ => ∀ i, GuiWindowContains (d.windows i) d.cursor.x d.cursor.y → PressDrags r (d.windows i) d
  | _ => True

theorem guiHitTest_contains {x y : Int} (h : guiHitTest x y d = some i) : GuiWindowContains (d.windows i) x y :=
  (scan_greatest (fun i => (d.windows i).z.toNat) h).1

theorem guiHandleDesktopInput_changes {ownerDead : Window → Bool} {event : InputEvent}
    (hallowed : InputAllowed r d event) :
    ∃ n ≤ 1, Changes r d.arrangement n (guiHandleDesktopInput ownerDead event d).desktop.arrangement := by
  unfold guiHandleDesktopInput
  cases event with
  | mouseMove dx dy =>
    refine ⟨0, by omega, ?_⟩
    have hmoved := guiCursorMove_changes hallowed.1
    dsimp only
    rw [guiDispatchInput_arrangement]
    split
    · exact hmoved.trans (guiDragUpdate_changes (d := (guiCursorMove dx dy d).desktop) hallowed.2)
    · exact hmoved
  | mouseButton button pressed =>
    obtain ⟨n, hn, hclicked⟩ := guiCursorButton_changes (r := r) button pressed d
    refine ⟨n, hn, ?_⟩
    dsimp only
    split_ifs
    · exact hclicked
    · split
      · rename_i hit hhit
        refine hclicked.trans (guiPressOn_changes ?_)
        -- the window under the cursor is where it was before the click
        have hcontains := guiHitTest_contains hhit
        obtain ⟨z, hz⟩ := guiCursorButton_window button pressed d hit
        obtain ⟨hx, hy⟩ := guiCursorButton_cursor button pressed d
        rw [hz, hx, hy] at hcontains
        have hdrags := hallowed hit hcontains
        rw [PressDrags, hz, hx, hy]
        exact hdrags
      · exact hclicked
    · exact hclicked.trans (Change.drop (a := (guiCursorButton button pressed d).desktop.arrangement)).one
  | keyPress key =>
    refine ⟨0, by omega, .of_eq ?_⟩
    dsimp only
    split
    · rw [guiPushTo_arrangement, guiFocusWindowEnsure_arrangement]
    · exact guiFocusWindowEnsure_arrangement d
  | keyRelease key =>
    refine ⟨0, by omega, .of_eq ?_⟩
    dsimp only
    split
    · exact guiPushTo_arrangement _ _ _ _ d
    · rfl

/-! ## Runs of operations -/

/-- The operations on a desktop. -/
inductive GuiOp
  | create (ownerPid x y w h bgColor borderColor : UInt32) (title : Option (List UInt8))
  | destroy (windowId : UInt32)
  | destroyForPid (pid : UInt32)
  | setTitle (windowId : UInt32) (title : Option (List UInt8))
  | setTitleBar (windowId titleH : UInt32)
  | setFlags (windowId flags : UInt32)
  | move (windowId x y : UInt32)
  | resize (kmalloc : Kmalloc) (windowId x y w h : UInt32)
  | minimize (windowId : UInt32)
  | restore (windowId : UInt32)
  | focus (windowId : UInt32)
  | drawText (kmalloc : Kmalloc) (windowId : UInt32) (x y : Int) (text : List UInt8) (color : UInt32)
  | drawRect (kmalloc : Kmalloc) (windowId : UInt32) (x y : Int) (w h color : UInt32)
  | clear (kmalloc : Kmalloc) (windowId color : UInt32)
  | registerRegion (windowId slot : UInt32) (x y : Int) (w h shape : UInt32)
  | setCursorShape (shape : UInt32)
  | setCursor (x y : Int)
  | cursorMove (dx dy : Int)
  | dragStart (windowId : UInt32) (offX offY : Int)
  | dragUpdate (cursorX cursorY : Int)
  | dragEnd
  | cursorButton (button : UInt32) (pressed : Bool)
  | input (ownerDead : Window → Bool) (event : InputEvent)
  | popEvent (i : WindowId)
  /-- A call of `gui_damage_add` alone, as in `sys_window_flush`. -/
  | flush (x y w h : Int)
  | requestRedraw

/-- Without what it returns. -/
def Step.unit {α : Type} (s : Step α) : Step Unit := ⟨(), s.desktop, s.calls⟩

def GuiOp.run (d : Desktop) : GuiOp → Step Unit
  | create ownerPid x y w h bgColor borderColor title =>
    (guiCreateWindowForPid ownerPid x y w h bgColor borderColor title d).unit
  | destroy windowId => (guiDestroyWindow windowId d).unit
  | destroyForPid pid => guiDestroyWindowsForPid pid d
  | setTitle windowId title => (guiWindowSetTitleInternal windowId title d).unit
  | setTitleBar windowId titleH => (guiWindowSetTitleBarInternal windowId titleH d).unit
  | setFlags windowId flags => (guiWindowSetFlagsInternal windowId flags d).unit
  | move windowId x y => (guiMoveWindow windowId x y d).unit
  | resize kmalloc windowId x y w h => (guiResizeWindow kmalloc windowId x y w h d).unit
  | minimize windowId => (guiWindowMinimize windowId d).unit
  | restore windowId => (guiWindowRestore windowId d).unit
  | focus windowId => (guiFocusWindow windowId d).unit
  | drawText kmalloc windowId x y text color => (guiWindowDrawText kmalloc windowId x y text color d).unit
  | drawRect kmalloc windowId x y w h color => (guiWindowDrawRect kmalloc windowId x y w h color d).unit
  | clear kmalloc windowId color => (guiWindowClear kmalloc windowId color d).unit
  | registerRegion windowId slot x y w h shape => (guiRegisterCursorRegion windowId slot x y w h shape d).unit
  | setCursorShape shape => (guiSetCursorShape shape d).unit
  | setCursor x y => guiSetCursor x y d
  | cursorMove dx dy => guiCursorMove dx dy d
  | dragStart windowId offX offY => ⟨(), guiDragStart windowId offX offY d, []⟩
  | dragUpdate cursorX cursorY => guiDragUpdate cursorX cursorY d
  | dragEnd => ⟨(), guiDragEnd d, []⟩
  | cursorButton button pressed => guiCursorButton button pressed d
  | input ownerDead event => guiHandleDesktopInput ownerDead event d
  | popEvent i => ⟨(), (guiWindowPopEvent (d.windows i)).elim d fun r => d.setWindow i r.2, []⟩
  | flush x y w h => ⟨(), d, [.add x y w h]⟩
  | requestRedraw => ⟨(), d, [.redraw]⟩

/-- The rules allow the operation. -/
def GuiOp.Allowed (r : Rules) (d : Desktop) : GuiOp → Prop
  | create ownerPid .. => r.owner ownerPid
  | setTitleBar windowId titleH =>
    ∀ i, d.usedWindow windowId = some i → titleH < (d.windows i).h → r.titled (d.windows i).layout titleH
  | resize kmalloc windowId x y w h => ResizeBuffered r kmalloc windowId x y w h d
  | drawText kmalloc windowId .. => DrawBuffered r kmalloc windowId d
  | drawRect kmalloc windowId _ _ w h _ => w ≠ 0 → h ≠ 0 → DrawBuffered r kmalloc windowId d
  | clear kmalloc windowId .. => DrawBuffered r kmalloc windowId d
  | setCursor x y => PointsTo r x y d
  | cursorMove dx dy => PointsTo r (i32 (d.cursor.x + dx)) (i32 (d.cursor.y + dy)) d
  | dragStart windowId offX offY => d.usedWindow windowId ≠ none → r.drags offX offY
  | dragUpdate cursorX cursorY => d.dragWindowId ≠ none → DragInside r cursorX cursorY d
  | input _ event => InputAllowed r d event
  | _ => True

theorem guiWindowPopEvent_layout {window window' : Window} {event : GuiEvent}
    (h : guiWindowPopEvent window = some (event, window')) : window'.layout = window.layout := by
  unfold guiWindowPopEvent at h
  split at h
  · cases h
  split at h <;> cases h
  rfl

theorem GuiOp.changes {op : GuiOp} (hcovers : r.Covers d.fb) (h : op.Allowed r d) :
    ∃ n ≤ 1, Changes r d.arrangement n (op.run d).desktop.arrangement := by
  have hnone : ∀ {s : Step Unit}, Changes r d.arrangement 0 s.desktop.arrangement →
      ∃ n ≤ 1, Changes r d.arrangement n s.desktop.arrangement := fun hs => ⟨0, by omega, hs⟩
  cases op with
  | create ownerPid x y w h bgColor borderColor title => exact guiCreateWindowForPid_changes hcovers ‹_›
  | destroy windowId => exact hnone (guiDestroyWindow_changes _ d)
  | destroyForPid pid => exact hnone (guiDestroyWindowsForPid_changes _ d)
  | setTitle windowId title => exact hnone (.of_eq (guiWindowSetTitleInternal_arrangement _ _ d))
  | setTitleBar windowId titleH => exact hnone (guiWindowSetTitleBarInternal_changes h)
  | setFlags windowId flags => exact hnone (.of_eq (guiWindowSetFlagsInternal_arrangement _ _ d))
  | move windowId x y => exact hnone (guiMoveWindow_changes hcovers)
  | resize kmalloc windowId x y w h => exact hnone (guiResizeWindow_changes hcovers h)
  | minimize windowId => exact hnone (.of_eq (guiWindowMinimize_arrangement _ d))
  | restore windowId => exact guiWindowRestore_changes _ d
  | focus windowId => exact guiFocusWindow_changes _ d
  | drawText kmalloc windowId x y text color => exact hnone (guiWindowDrawText_changes _ _ _ _ ‹_›)
  | drawRect kmalloc windowId x y w h color => exact hnone (guiWindowDrawRect_changes _ _ _ h)
  | clear kmalloc windowId color => exact hnone (guiWindowClear_changes _ ‹_›)
  | registerRegion windowId slot x y w h shape =>
    exact hnone (.of_eq (guiRegisterCursorRegion_arrangement _ _ _ _ _ _ _ d))
  | setCursorShape shape => exact hnone (.of_eq (guiSetCursorShape_arrangement _ d))
  | setCursor x y => exact hnone (guiSetCursor_changes h)
  | cursorMove dx dy => exact hnone (guiCursorMove_changes h)
  | dragStart windowId offX offY => exact hnone (guiDragStart_changes h)
  | dragUpdate cursorX cursorY => exact hnone (guiDragUpdate_changes h)
  | dragEnd => exact hnone (Change.drop (a := d.arrangement)).one
  | cursorButton button pressed => exact guiCursorButton_changes _ _ d
  | input ownerDead event => exact guiHandleDesktopInput_changes h
  | popEvent i =>
    refine hnone (.of_eq ?_)
    simp only [GuiOp.run]
    cases hpop : guiWindowPopEvent (d.windows i) with
    | none => rfl
    | some event => exact setWindow_layout (guiWindowPopEvent_layout hpop)
  | flush x y w h => exact hnone .refl
  | requestRedraw => exact hnone .refl

/-- The operations one after the other. -/
def guiRun (d : Desktop) (ops : List GuiOp) : Desktop := ops.foldl (fun d op => (op.run d).desktop) d

/-- What `gui_init` leaves of a window; it does not write all fields. -/
def guiInitWindow (window : Window) : Window :=
  { window with
    x := 0
    y := 0
    w := 0
    h := 0
    bgColor := 0
    borderColor := 0
    ownerPid := guiNoOwner
    z := 0
    flags := 0
    titleH := 0
    title := []
    events := []
    used := false
    ownerDrawn := false
    backing := none
    backingCapacity := 0 }

/-- `gui_init`, on the memory of the desktop before. -/
def guiInit (fb : FbSize) (backgroundColor : UInt32) (d : Desktop) : Desktop where
  fb := fb
  backgroundColor := backgroundColor
  focusedWindowId := none
  nextZ := 1
  dragWindowId := none
  dragOffX := 0
  dragOffY := 0
  windows i := guiInitWindow (d.windows i)
  cursor :=
    { x := s32 (fb.width / 2)
      y := s32 (fb.height / 2)
      prevX := s32 (fb.width / 2)
      prevY := s32 (fb.height / 2)
      buttonsMask := 0
      visible := true
      shape := guiCursorArrow }

end Armonios
