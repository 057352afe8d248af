import Armonios.Gui.Layout

/-!
# Geometry and stacking

* `guiRun_stack`: the windows are on the screen, the cursor is, and no two windows have the same `z`;
* `guiRun_backing`: when the buffers of the windows are large enough for what is blitted from them.

`gui_drag_update` puts a window wherever its arguments say, on the screen or not
(`drag_leaves_framebuffer`). `gui_handle_desktop_input`, its caller, gives it the cursor and the offset at
which the cursor was in the window.
-/

namespace Armonios

/-- The geometry and the stacking of the windows, and the place of the cursor. -/
structure StackOk (d : Desktop) : Prop where
  size : ∀ i, (d.windows i).used = true → 2 ≤ (d.windows i).w ∧ 2 ≤ (d.windows i).h
  bar : ∀ i, (d.windows i).used = true → (d.windows i).titleH < (d.windows i).h
  place : ∀ i, (d.windows i).used = true → (d.windows i).x < d.fb.width ∧ (d.windows i).y < d.fb.height
  cursorX : 0 ≤ d.cursor.x ∧ d.cursor.x < d.fb.width.toNat
  cursorY : 0 ≤ d.cursor.y ∧ d.cursor.y < d.fb.height.toNat
  z : ∀ i, (d.windows i).used = true → 1 ≤ (d.windows i).z ∧ (d.windows i).z < d.nextZ
  distinct : ∀ i j, (d.windows i).used = true → (d.windows j).used = true →
    (d.windows i).z = (d.windows j).z → i = j

/-- A framebuffer that is not empty, with room for the coordinates in an `int32_t`. -/
structure FbSize.Fits (fb : FbSize) : Prop where
  width : 1 ≤ fb.width.toNat ∧ fb.width.toNat ≤ 2 ^ 30
  height : 1 ≤ fb.height.toNat ∧ fb.height.toNat ≤ 2 ^ 30

/-- The arguments are `int32_t`, and a drag has the arguments that `gui_handle_desktop_input` gives it: the
offset of a point of the window, and a point of the framebuffer. -/
def GuiOp.DragsInside (fb : FbSize) : GuiOp → Prop
  | setCursor x y => x < 2 ^ 31 ∧ y < 2 ^ 31
  | dragStart _ offX offY => 0 ≤ offX ∧ offX < 2 ^ 31 ∧ 0 ≤ offY ∧ offY < 2 ^ 31
  | dragUpdate cursorX cursorY =>
    0 ≤ cursorX ∧ cursorX < fb.width.toNat ∧ 0 ≤ cursorY ∧ cursorY < fb.height.toNat
  | _ => True

def stackRules (fb : FbSize) : Rules where
  inside x y := x < fb.width ∧ y < fb.height
  titled _ _ := True
  buffered _ := True
  owner _ := True
  points x y := 0 ≤ x ∧ x < fb.width.toNat ∧ 0 ≤ y ∧ y < fb.height.toNat
  drags offX offY := 0 ≤ offX ∧ offX < 2 ^ 31 ∧ 0 ≤ offY ∧ offY < 2 ^ 31

/-- A window of a stack. -/
structure Layout.Stands (fb : FbSize) (nextZ : UInt32) (l : Layout) : Prop where
  size : 2 ≤ l.w ∧ 2 ≤ l.h
  bar : l.titleH < l.h
  place : l.x < fb.width ∧ l.y < fb.height
  z : 1 ≤ l.z.toNat ∧ l.z.toNat < nextZ.toNat

/-- After `n` values of `z` have been taken. -/
structure Stacked (fb : FbSize) (n : Nat) (a : Arrangement) : Prop where
  screen : a.fb = fb
  windows : ∀ i, (a.layout i).used = true → (a.layout i).Stands fb a.nextZ
  distinct : ∀ i j, (a.layout i).used = true → (a.layout j).used = true → (a.layout i).z = (a.layout j).z → i = j
  nextZ : a.nextZ.toNat = n + 1
  cursorX : 0 ≤ a.cursorX ∧ a.cursorX < fb.width.toNat
  cursorY : 0 ≤ a.cursorY ∧ a.cursorY < fb.height.toNat
  drags : 0 ≤ a.dragOffX ∧ a.dragOffX < 2 ^ 31 ∧ 0 ≤ a.dragOffY ∧ a.dragOffY < 2 ^ 31

variable {fb : FbSize} {n m : Nat} {a b : Arrangement} {d : Desktop} {i : WindowId} {l : Layout}

theorem Layout.Stands.mono {z z' : UInt32} (h : l.Stands fb z) (hz : z.toNat ≤ z'.toNat) : l.Stands fb z' :=
  ⟨h.size, h.bar, h.place, h.z.1, h.z.2.trans_le hz⟩

/-- One window changes; its `z` is not that of another window. -/
theorem Stacked.set (h : Stacked fb n a) (hl : l.used = true → l.Stands fb a.nextZ)
    (hz : l.used = true → ∀ j, j ≠ i → (a.layout j).used = true → (a.layout j).z ≠ l.z) :
    Stacked fb n (a.set i l) := by
  have hlayout : ∀ j, (a.set i l).layout j = if j = i then l else a.layout j := fun j => by
    simp [Arrangement.set, Function.update_apply]
  refine ⟨h.screen, fun j hj => ?_, fun j k hj hk heq => ?_, h.nextZ, h.cursorX, h.cursorY, h.drags⟩
  · rw [hlayout] at hj ⊢
    split
    · exact hl (by simpa [‹j = i›] using hj)
    · exact h.windows j (by simpa [‹¬ j = i›] using hj)
  · rw [hlayout] at hj hk heq
    rw [hlayout] at heq
    by_cases hji : j = i <;> by_cases hki : k = i
    · rw [hji, hki]
    · simp only [hji, hki, if_true, if_false] at hj hk heq
      exact absurd heq.symm (hz hj k hki hk)
    · simp only [hji, hki, if_true, if_false] at hj hk heq
      exact absurd heq (hz hk j hji hj)
    · simp only [hji, hki, if_false] at hj hk heq
      exact h.distinct j k hj hk heq

/-- A change that leaves the `z` of the window. -/
theorem Stacked.set_sameZ (h : Stacked fb n a) (hused : (a.layout i).used = true) (hz : l.z = (a.layout i).z)
    (hl : l.Stands fb a.nextZ) : Stacked fb n (a.set i l) := by
  refine h.set (fun _ => hl) fun _ j hj hjused heq => hj ?_
  exact h.distinct j i hjused hused (heq.trans hz)

theorem Stacked.take (h : Stacked fb n a) (hn : n + 2 < 2 ^ 32) : Stacked fb (n + 1) a.take := by
  have hnext : (a.nextZ + 1).toNat = n + 2 := by
    rw [UInt32.toNat_add, h.nextZ, UInt32.toNat_one]
    omega
  refine ⟨h.screen, fun i hi => (h.windows i hi).mono ?_, h.distinct, hnext, h.cursorX, h.cursorY, h.drags⟩
  show a.nextZ.toNat ≤ (a.nextZ + 1).toNat
  rw [hnext, h.nextZ]
  omega

/-- The next `z` is taken by the window. -/
theorem Stacked.set_nextZ (h : Stacked fb n a) (hn : n + 2 < 2 ^ 32) (hz : l.z = a.nextZ)
    (hl : 2 ≤ l.w ∧ 2 ≤ l.h) (hbar : l.titleH < l.h) (hplace : l.x < fb.width ∧ l.y < fb.height) :
    Stacked fb (n + 1) (a.set i l).take := by
  have htake := h.take hn
  have hnext := h.nextZ
  have hnext' := htake.nextZ
  refine (show Stacked fb (n + 1) (a.take.set i l) from htake.set (fun _ => ⟨hl, hbar, hplace, ?_⟩) ?_)
  · rw [hz]
    omega
  · intro _ j _ hj heq
    have := (h.windows j hj).z.2
    rw [show (a.layout j).z = a.nextZ from heq.trans hz] at this
    exact this.false

theorem Change.stacked (h : Stacked fb n a) (hchange : Change (stackRules fb) a m b) (hn : n + m + 1 < 2 ^ 32) :
    Stacked fb (n + m) b := by
  cases hchange with
  | create i ownerPid x y w h' free size inside owner =>
    have hbar : (0 : UInt32) < h' := UInt32.lt_of_lt_of_le (by decide) size.2
    exact h.set_nextZ hn rfl size hbar inside
  | destroy i l gone =>
    refine h.set (fun hl => ?_) fun hl => ?_
    · simp [gone] at hl
    · simp [gone] at hl
  | place i x y used inside =>
    have hw := h.windows i used
    exact h.set_sameZ used rfl ⟨hw.size, hw.bar, inside, hw.z⟩
  | resize i x y w h' capacity used size bar inside fits buffered =>
    exact h.set_sameZ used rfl ⟨size, bar, inside, (h.windows i used).z⟩
  | titleBar i titleH used bar titled =>
    have hw := h.windows i used
    exact h.set_sameZ used rfl ⟨hw.size, bar, hw.place, hw.z⟩
  | raise i used =>
    have hw := h.windows i used
    exact h.set_nextZ hn rfl hw.size hw.bar hw.place
  | draw i capacity used fits buffered =>
    have hw := h.windows i used
    exact h.set_sameZ used rfl ⟨hw.size, hw.bar, hw.place, hw.z⟩
  | point x y points => exact ⟨h.screen, h.windows, h.distinct, h.nextZ, ⟨points.1, points.2.1⟩, points.2.2, h.drags⟩
  | drag i offX offY drags => exact ⟨h.screen, h.windows, h.distinct, h.nextZ, h.cursorX, h.cursorY, drags⟩
  | drop => exact ⟨h.screen, h.windows, h.distinct, h.nextZ, h.cursorX, h.cursorY, h.drags⟩

theorem Changes.stacked (h : Stacked fb n a) (hchanges : Changes (stackRules fb) a m b) (hn : n + m + 1 < 2 ^ 32) :
    Stacked fb (n + m) b := by
  refine hchanges.invariant (fun k c => Stacked fb (n + k) c) (fun k m' b c hk hb hchange => ?_) h
  exact Nat.add_assoc n k m' ▸ hchange.stacked hb (by omega)

/-! ## What the rules allow -/

theorem u32_toNat {k : Int} (h : 0 ≤ k) (h' : k < 2 ^ 32) : (u32 k).toNat = k.toNat := by
  rw [u32, Int.emod_eq_of_lt h (by omega), UInt32.toNat_ofNat_of_lt']
  simp only [UInt32.size]
  omega

theorem s32_toNat {k : UInt32} (h : k.toNat < 2 ^ 31) : s32 k = k.toNat := i32_of_fits (by omega) (by omega)

theorem guiClampCursor_inside {k : Int} {size : UInt32} (hk : k < 2 ^ 31)
    (hsize : 1 ≤ size.toNat ∧ size.toNat ≤ 2 ^ 30) :
    0 ≤ guiClampCursor k size ∧ guiClampCursor k size < size.toNat := by
  have hu : (u32 (max k 0)).toNat = (max k 0).toNat := u32_toNat (by omega) (by omega)
  unfold guiClampCursor
  dsimp only
  split
  · rw [s32_toNat (by omega), i32_of_fits (by omega) (by omega)]
    omega
  · rename_i hlt
    rw [UInt32.le_iff_toNat_le, hu] at hlt
    omega

/-- A window that is dragged from a point of the screen, by the offset of a point of it, is on the screen. -/
theorem dragPlace_inside {cursor off : Int} {size : UInt32} (hcursor : 0 ≤ cursor ∧ cursor < size.toNat)
    (hoff : 0 ≤ off ∧ off < 2 ^ 31) (hsize : size.toNat ≤ 2 ^ 30) : u32 (max (i32 (cursor - off)) 0) < size := by
  rw [i32_of_fits (by omega) (by omega), UInt32.lt_iff_toNat_lt, u32_toNat (by omega) (by omega)]
  omega

theorem dragInside {x y : Int} (hfb : fb.Fits) (hx : 0 ≤ x ∧ x < fb.width.toNat) (hy : 0 ≤ y ∧ y < fb.height.toNat)
    (h : Stacked fb n d.arrangement) : DragInside (stackRules fb) x y d := by
  obtain ⟨hx0, hx1, hy0, hy1⟩ := h.drags
  exact ⟨dragPlace_inside hx ⟨hx0, hx1⟩ hfb.width.2, dragPlace_inside hy ⟨hy0, hy1⟩ hfb.height.2⟩

theorem pointsTo {x y : Int} (hfb : fb.Fits) (h : d.fb = fb) (hx : x < 2 ^ 31) (hy : y < 2 ^ 31) :
    PointsTo (stackRules fb) x y d := by
  have hclampX := guiClampCursor_inside hx hfb.width
  have hclampY := guiClampCursor_inside hy hfb.height
  rw [PointsTo, h]
  exact ⟨hclampX.1, hclampX.2, hclampY.1, hclampY.2⟩

theorem GuiOp.allowed_stack {op : GuiOp} (hfb : fb.Fits) (h : Stacked fb n d.arrangement) (hop : op.DragsInside fb) :
    op.Allowed (stackRules fb) d := by
  have hd : d.fb = fb := h.screen
  have hmove : ∀ dx dy, PointsTo (stackRules fb) (i32 (d.cursor.x + dx)) (i32 (d.cursor.y + dy)) d :=
    fun dx dy => pointsTo hfb hd (i32_bounds _).2 (i32_bounds _).2
  cases op with
  | create => trivial
  | setTitleBar => exact fun _ _ _ => trivial
  | resize => exact fun _ _ _ _ _ _ _ _ => trivial
  | drawText => exact fun _ _ _ _ => trivial
  | drawRect => exact fun _ _ _ _ _ _ => trivial
  | clear => exact fun _ _ _ _ => trivial
  | setCursor x y => exact pointsTo hfb hd hop.1 hop.2
  | cursorMove dx dy => exact hmove dx dy
  | dragStart windowId offX offY => exact fun _ => hop
  | dragUpdate x y => exact fun _ => dragInside hfb ⟨hop.1, hop.2.1⟩ hop.2.2 h
  | input ownerDead event =>
    cases event with
    | mouseMove dx dy =>
      have hpoints := hmove dx dy
      obtain ⟨hx0, hx1, hy0, hy1⟩ := hpoints
      exact ⟨hmove dx dy, fun _ => dragInside hfb ⟨hx0, hx1⟩ ⟨hy0, hy1⟩ h⟩
    | mouseButton button pressed =>
      -- the cursor is on the screen and at or behind the corner of the window
      intro i hcontains
      obtain ⟨hused, hx, -, hy, -⟩ := hcontains
      have hplace := (h.windows i hused).place
      obtain ⟨hcx, hcx'⟩ := h.cursorX
      obtain ⟨hcy, hcy'⟩ := h.cursorY
      have hw := hfb.width
      have hh := hfb.height
      simp only [UInt32.lt_iff_toNat_lt, Desktop.arrangement, Window.layout] at hplace hcx hcx' hcy hcy'
      rw [s32_toNat (by omega)] at hx hy
      rw [PressDrags, s32_toNat (by omega), s32_toNat (by omega), i32_of_fits (by omega) (by omega),
        i32_of_fits (by omega) (by omega)]
      exact ⟨by omega, by omega, by omega, by omega⟩
    | keyPress => trivial
    | keyRelease => trivial
  | _ => trivial

/-! ## Runs -/

theorem guiInit_stacked (hfb : fb.Fits) (backgroundColor : UInt32) (d : Desktop) :
    Stacked fb 0 (guiInit fb backgroundColor d).arrangement := by
  have hw := hfb.width
  have hh := hfb.height
  have hcursor : ∀ size : UInt32, 1 ≤ size.toNat → size.toNat ≤ 2 ^ 30 → s32 (size / 2) = (size.toNat / 2 : Nat) := by
    intro size _ _
    have hhalf : (size / 2).toNat = size.toNat / 2 := by simp
    rw [s32_toNat (by omega), hhalf]
  refine ⟨rfl, ?_, ?_, rfl, ?_, ?_, by simp [guiInit, Desktop.arrangement]⟩
  · intro i hi
    simp [guiInit, Desktop.arrangement, guiInitWindow, Window.layout] at hi
  · intro i j hi
    simp [guiInit, Desktop.arrangement, guiInitWindow, Window.layout] at hi
  · simp only [guiInit, Desktop.arrangement, hcursor _ hw.1 hw.2]
    omega
  · simp only [guiInit, Desktop.arrangement, hcursor _ hh.1 hh.2]
    omega

theorem guiRun_stacked {ops : List GuiOp} (hfb : fb.Fits) (hd : Stacked fb n d.arrangement)
    (hops : ∀ op ∈ ops, op.DragsInside fb) (hn : n + ops.length + 1 < 2 ^ 32) :
    ∃ m, m ≤ n + ops.length ∧ Stacked fb m (guiRun d ops).arrangement := by
  induction ops generalizing d n with
  | nil => exact ⟨n, by simp, hd⟩
  | cons op ops ih =>
    have hcovers : (stackRules fb).Covers d.fb := fun x y hx hy => by
      rw [show d.fb = fb from hd.screen] at hx hy
      exact ⟨hx, hy⟩
    obtain ⟨k, hk, hchanges⟩ := op.changes hcovers (op.allowed_stack hfb hd (hops op (by simp)))
    rw [List.length_cons] at hn ⊢
    have hnext := hchanges.stacked hd (by omega)
    obtain ⟨m, hm, hrun⟩ := ih hnext (fun op hop => hops op (by simp [hop])) (by omega)
    exact ⟨m, by omega, hrun⟩

theorem Stacked.stackOk (h : Stacked fb n d.arrangement) : StackOk d := by
  have hd : d.fb = fb := h.screen
  refine ⟨fun i hi => (h.windows i hi).size, fun i hi => (h.windows i hi).bar, fun i hi => ?_, ?_, ?_, fun i hi => ?_,
    h.distinct⟩
  · rw [hd]
    exact (h.windows i hi).place
  · rw [hd]
    exact h.cursorX
  · rw [hd]
    exact h.cursorY
  · exact ⟨UInt32.le_iff_toNat_le.mpr (h.windows i hi).z.1, UInt32.lt_iff_toNat_lt.mpr (h.windows i hi).z.2⟩

/-- Every run of fewer than `2 ^ 31` operations, in which `gui_drag_start` and `gui_drag_update` get what
`gui_handle_desktop_input` gives them. -/
theorem guiRun_stack {ops : List GuiOp} (hfb : fb.Fits) (backgroundColor : UInt32) (d : Desktop)
    (hops : ∀ op ∈ ops, op.DragsInside fb) (hlength : ops.length < 2 ^ 31) :
    StackOk (guiRun (guiInit fb backgroundColor d) ops) := by
  obtain ⟨m, -, hrun⟩ := guiRun_stacked hfb (guiInit_stacked hfb backgroundColor d) hops (by omega)
  exact hrun.stackOk

/-- Memory of zeros. -/
def zeroWindow : Window where
  x := 0
  y := 0
  w := 0
  h := 0
  bgColor := 0
  borderColor := 0
  ownerPid := 0
  z := 0
  flags := 0
  titleH := 0
  title := []
  events := []
  used := false
  ownerDrawn := false
  minimized := false
  backing := none
  backingCapacity := 0
  cursorRegions := fun _ => .none

/-- The desktop after `gui_init` in memory of zeros. -/
def sampleDesktop (fb : FbSize) : Desktop :=
  guiInit fb 0xff202428
    { fb
      backgroundColor := 0
      focusedWindowId := none
      nextZ := 0
      dragWindowId := none
      dragOffX := 0
      dragOffY := 0
      windows := fun _ => zeroWindow
      cursor := ⟨0, 0, 0, 0, 0, false, 0⟩ }

/-- A window of four by four on a screen of ten by ten, which is dragged to `(100, 100)`. -/
theorem drag_leaves_framebuffer : ¬ ∀ (fb : FbSize) (backgroundColor : UInt32) (d : Desktop) (ops : List GuiOp),
    fb.Fits → ops.length < 2 ^ 31 → StackOk (guiRun (guiInit fb backgroundColor d) ops) := by
  intro h
  have hfb : FbSize.Fits ⟨10, 10⟩ := ⟨by decide, by decide⟩
  have hplace := (h ⟨10, 10⟩ 0xff202428 (sampleDesktop ⟨10, 10⟩)
    [.create guiNoOwner 2 2 4 4 0 0 none, .dragStart 0 1 1, .dragUpdate 100 100] hfb (by decide)).place 0
  revert hplace
  decide +kernel

/-- The window of the first operation is dragged by input events. -/
theorem guiRun_stack_sample : StackOk (guiRun (sampleDesktop ⟨10, 10⟩)
    [.create guiNoOwner 2 2 4 4 0 0 none, .input (fun _ => false) (.mouseMove (-2) (-1)),
      .input (fun _ => false) (.mouseButton 0 true), .input (fun _ => false) (.mouseMove 2000000000 5)]) :=
  guiRun_stack ⟨by decide, by decide⟩ _ _ (by
    intro op hop
    simp only [List.mem_cons, List.not_mem_nil, or_false] at hop
    rcases hop with rfl | rfl | rfl | rfl <;> trivial) (by decide)

/-! ## Buffers -/

/-- The buffer of every window that is blitted has the bytes of its content. -/
def BackingCovers (d : Desktop) : Prop :=
  ∀ i, (d.windows i).used = true → (d.windows i).ownerDrawn = true → (d.windows i).backing.isSome = true →
    contentBytes (d.windows i).w (d.windows i).h (d.windows i).titleH ≤ (d.windows i).backingCapacity.toNat

/-- A title bar that leaves no more content than there is in the buffer, where the window is blitted from
it. -/
def BarFits (l : Layout) (titleH : UInt32) : Prop :=
  l.ownerDrawn = true → l.hasBacking = true → contentBytes l.w l.h titleH ≤ l.backingCapacity.toNat

/-- A drawing that gets a buffer is one in a content whose bytes are a number of 64 bits. -/
def DrawSmall (kmalloc : Kmalloc) (windowId : UInt32) (d : Desktop) : Prop :=
  ∀ i, d.usedWindow windowId = some i → guiWindowEnsureBacking kmalloc (d.windows i) ≠ none → (d.windows i).Small

/-- A title bar that is set leaves no more content than there is in the buffer. A drawing that gets a buffer, and a
resize of a window that was drawn in, has a content whose bytes are a number of 64 bits. -/
def GuiOp.BuffersFit (d : Desktop) : GuiOp → Prop
  | setTitleBar windowId titleH =>
    ∀ i, d.usedWindow windowId = some i → titleH < (d.windows i).h → BarFits (d.windows i).layout titleH
  | resize kmalloc windowId x y w h => 2 ≤ w → 2 ≤ h → GuiRectFitsFramebuffer d.fb x y w h →
    ∀ i, d.usedWindow windowId = some i → ¬((d.windows i).w = w ∧ (d.windows i).h = h) →
      (d.windows i).ownerDrawn = true → guiWindowResetBacking kmalloc { d.windows i with x, y, w, h } ≠ none →
      contentBytes w h (d.windows i).titleH < 2 ^ 64
  | drawText kmalloc windowId .. => DrawSmall kmalloc windowId d
  | drawRect kmalloc windowId _ _ w h _ => w ≠ 0 → h ≠ 0 → DrawSmall kmalloc windowId d
  | clear kmalloc windowId .. => DrawSmall kmalloc windowId d
  | _ => True

def backingRules : Rules where
  inside _ _ := True
  titled := BarFits
  buffered l := l.ownerDrawn = true → contentBytes l.w l.h l.titleH < 2 ^ 64
  owner _ := True
  points _ _ := True
  drags _ _ := True

def Arrangement.Covers (a : Arrangement) : Prop :=
  ∀ i, (a.layout i).used = true → BarFits (a.layout i) (a.layout i).titleH

theorem Arrangement.Covers.set (h : a.Covers) (hl : l.used = true → BarFits l l.titleH) : (a.set i l).Covers := by
  intro j hj
  by_cases hji : j = i
  · subst hji
    rw [Arrangement.set_layout] at hj ⊢
    exact hl hj
  · have hlayout : (a.set i l).layout j = a.layout j := Function.update_of_ne hji ..
    rw [hlayout] at hj ⊢
    exact h j hj

theorem Change.covers (h : a.Covers) (hchange : Change backingRules a m b) : b.Covers := by
  cases hchange with
  | create i ownerPid x y w h' free size inside owner => exact h.set fun _ hdrawn => by cases hdrawn
  | destroy i l gone => exact h.set fun hl => by simp [gone] at hl
  | place i x y used inside => exact h.set fun _ => h i used
  | resize i x y w h' capacity used size bar inside fits buffered =>
    exact h.set fun _ hdrawn _ => askedBytes_of_lt (buffered hdrawn) ▸ fits
  | titleBar i titleH used bar titled => exact h.set fun _ => titled
  | raise i used =>
    have hset := h.set (i := i) (l := { a.layout i with z := a.nextZ }) fun _ => h i used
    exact hset
  | draw i capacity used fits buffered => exact h.set fun _ hdrawn _ => askedBytes_of_lt (buffered hdrawn) ▸ fits
  | point x y points => exact h
  | drag i offX offY drags => exact h
  | drop => exact h

theorem Changes.covers (h : a.Covers) (hchanges : Changes backingRules a m b) : b.Covers :=
  hchanges.invariant (fun _ => Arrangement.Covers) (fun _ _ _ _ _ hb hchange => hchange.covers hb) h

theorem backingCovers_iff : BackingCovers d ↔ d.arrangement.Covers := Iff.rfl

theorem DrawSmall.buffered {kmalloc : Kmalloc} {windowId : UInt32} (h : DrawSmall kmalloc windowId d) :
    DrawBuffered backingRules kmalloc windowId d := by
  intro i window hi hensure _
  obtain ⟨capacity, -, hlayout⟩ := guiWindowEnsureBacking_layout hensure
  have hsmall := h i hi (by simp [hensure])
  rw [hlayout]
  exact hsmall

theorem GuiOp.allowed_backing {op : GuiOp} (h : op.BuffersFit d) : op.Allowed backingRules d := by
  cases op with
  | setTitleBar windowId titleH => exact h
  | resize kmalloc windowId x y w h' =>
    intro hw hh hrect i window hi hsame hreset hdrawn
    obtain ⟨-, capacity, -, hlayout⟩ := guiWindowResetBacking_layout hreset
    rw [hlayout] at hdrawn ⊢
    exact h hw hh hrect i hi hsame hdrawn (by simp [hreset])
  | drawText kmalloc windowId x y text color => exact DrawSmall.buffered h
  | drawRect kmalloc windowId x y w h' color => exact fun hw hh => DrawSmall.buffered (h hw hh)
  | clear kmalloc windowId color => exact DrawSmall.buffered h
  | input ownerDead event =>
    cases event with
    | mouseMove dx dy => exact ⟨trivial, fun _ => trivial⟩
    | mouseButton button pressed => exact fun _ _ => trivial
    | keyPress => trivial
    | keyRelease => trivial
  | dragStart windowId offX offY => exact fun _ => trivial
  | dragUpdate x y => exact fun _ => trivial
  | _ => trivial

/-- A window that is blitted from a buffer has a small content, if it is covered. -/
theorem Arrangement.Covers.small (h : a.Covers) (hused : (a.layout i).used = true)
    (hdrawn : (a.layout i).ownerDrawn = true) (hbacking : (a.layout i).hasBacking = true) :
    contentBytes (a.layout i).w (a.layout i).h (a.layout i).titleH < 2 ^ 64 := by
  have hfits := h i hused hdrawn hbacking
  have hlt := (a.layout i).backingCapacity.toNat_lt
  omega

theorem drawSmall_of_covers {kmalloc : Kmalloc} {windowId : UInt32}
    (h : ∀ i window, d.usedWindow windowId = some i → guiWindowEnsureBacking kmalloc (d.windows i) = some window →
      ∃ paint, BackingCovers (d.setWindow i (guiDrawContent window paint))) : DrawSmall kmalloc windowId d := by
  intro i hi hensured
  obtain ⟨window, hensure⟩ := Option.ne_none_iff_exists'.mp hensured
  obtain ⟨paint, hcovers⟩ := h i window hi hensure
  obtain ⟨capacity, -, hlayout⟩ := guiWindowEnsureBacking_layout hensure
  have hcontent : (guiDrawContent window paint).layout = { window.layout with ownerDrawn := true } := by
    simp [guiDrawContent, Window.layout]
  have hsmall := (backingCovers_iff.mp hcovers).small (i := i)
  rw [setWindow_arrangement, Arrangement.set_layout, hcontent, hlayout] at hsmall
  exact hsmall (usedWindow_some hi) rfl rfl

/-- A title bar that does not fit, or a content that is too large, leaves a window without enough of a buffer. -/
theorem buffersFit_of_covers {op : GuiOp} (h : BackingCovers (op.run d).desktop) : op.BuffersFit d := by
  cases op with
  | resize kmalloc windowId x y w h' =>
    intro hw hh hrect i hi hsame hdrawn hreset
    obtain ⟨window, hreset⟩ := Option.ne_none_iff_exists'.mp hreset
    obtain ⟨-, capacity, -, hlayout⟩ := guiWindowResetBacking_layout hreset
    have hargs : ¬(w < 2 ∨ h' < 2 ∨ ¬GuiRectFitsFramebuffer d.fb x y w h') := by
      simp only [not_or, UInt32.not_lt, not_not]
      exact ⟨hw, hh, hrect⟩
    have hsmall := (backingCovers_iff.mp h).small (i := i)
    simp only [GuiOp.run, Step.unit, guiResizeWindow, if_neg hargs, hi, if_neg hsame, hreset, setWindow_arrangement,
      Arrangement.set_layout, guiWindowPushEvent_layout, hlayout] at hsmall
    exact hsmall (usedWindow_some hi) hdrawn trivial
  | drawText kmalloc windowId x y text color =>
    refine drawSmall_of_covers fun i window hi hensure => ?_
    simp only [GuiOp.run, Step.unit, guiWindowDrawText, hi, hensure] at h
    split at h
    · exact ⟨_, h⟩
    · exact ⟨_, h⟩
  | drawRect kmalloc windowId x y w h' color =>
    intro hw hh
    refine drawSmall_of_covers fun i window hi hensure => ?_
    simp only [GuiOp.run, Step.unit, guiWindowDrawRect, hi, hensure, hw, hh, or_self, if_false] at h
    split at h
    · exact ⟨_, h⟩
    · exact ⟨_, h⟩
  | clear kmalloc windowId color =>
    refine drawSmall_of_covers fun i window hi hensure => ?_
    simp only [GuiOp.run, Step.unit, guiWindowClear, hi, hensure] at h
    exact ⟨_, h⟩
  | setTitleBar windowId titleH =>
    intro i hi hbar
    have hcovers := backingCovers_iff.mp h i
    simp only [GuiOp.run, Step.unit, guiWindowSetTitleBarInternal, hi, if_neg (UInt32.not_le.mpr hbar),
      guiRefreshCursorShape_arrangement, setWindow_arrangement, Arrangement.set_layout] at hcovers
    exact hcovers (usedWindow_some hi)
  | _ => trivial

theorem GuiOp.run_covers {op : GuiOp} (h : BackingCovers d) : BackingCovers (op.run d).desktop ↔ op.BuffersFit d := by
  refine ⟨buffersFit_of_covers, fun hop => ?_⟩
  obtain ⟨n, -, hchanges⟩ := op.changes (r := backingRules) (fun _ _ _ _ => trivial) (GuiOp.allowed_backing hop)
  exact backingCovers_iff.mpr (hchanges.covers (backingCovers_iff.mp h))

/-- Every state of a run is covered exactly if every title bar that the run sets fits, and no content is so large that
its bytes wrap. -/
theorem guiRun_backing (fb : FbSize) (backgroundColor : UInt32) (d : Desktop) (ops : List GuiOp) :
    Throughout (fun d op => (op.run d).desktop) BackingCovers (guiInit fb backgroundColor d) ops ↔
      EachStep (fun d op => (op.run d).desktop) GuiOp.BuffersFit (guiInit fb backgroundColor d) ops := by
  refine throughout_iff (Q := fun _ => True) (fun _ _ _ _ => trivial) (fun d op _ h => op.run_covers h) trivial ?_
  intro i hused
  simp [guiInit, guiInitWindow] at hused

/-- A window gets a title bar, is drawn in, and then gets a lower title bar. -/
theorem lower_bar_uncovers : ¬ BackingCovers (guiRun (sampleDesktop ⟨10, 10⟩)
    [.create guiNoOwner 0 0 8 8 0 0 none, .setTitleBar 0 4, .drawRect (fun _ => some fun _ => 0) 0 0 0 1 1 0,
      .setTitleBar 0 1]) := by
  intro h
  have hcovers := h 0
  revert hcovers
  decide +kernel

end Armonios
