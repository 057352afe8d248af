import Armonios.Gui.Damage

/-!
# The compositor

The model of the drawing functions of `kernel/gui_compositor.c`. None of them reads a pixel, so `gui_draw` is
the colours that it writes too. The loop of a line may not end, and a loop that is out of fuel draws nothing
(`none`).

* `guiWindowsAbove_order`: the windows that the loop of `gui_draw` comes to, in their order;
* `guiDrawWindow_none`: the pixels of a window that it leaves out.
-/

namespace Armonios

/-- A channel of the blended colour. -/
def blendChannel (t b num denom : UInt32) : UInt32 :=
  u32 (i32 (s32 t + i32 ((i32 (i32 (s32 b - s32 t) * s32 num)).tdiv (s32 denom))))

def guiBlendColor (top bottom num denom : UInt32) : UInt32 :=
  let tr := (top >>> 16) &&& 0xff
  let tg := (top >>> 8) &&& 0xff
  let tb := top &&& 0xff
  let br := (bottom >>> 16) &&& 0xff
  let bg := (bottom >>> 8) &&& 0xff
  let bb := bottom &&& 0xff
  if denom = 0 then top
  else if denom ≤ num then (top &&& (0xff000000 : UInt32)) ||| (br <<< 16) ||| (bg <<< 8) ||| bb
  else (top &&& (0xff000000 : UInt32)) ||| (blendChannel tr br num denom <<< 16) |||
    (blendChannel tg bg num denom <<< 8) |||
    blendChannel tb bb num denom

/-! ## The cursor -/

/-- `g_cursor`. -/
def cursorArrowBitmap : Array (Array UInt8) := #[
  #[1, 0, 0, 0, 0, 0, 0, 0, 0, 0, 0, 0, 0, 0, 0, 0],
  #[1, 1, 0, 0, 0, 0, 0, 0, 0, 0, 0, 0, 0, 0, 0, 0],
  #[1, 2, 1, 0, 0, 0, 0, 0, 0, 0, 0, 0, 0, 0, 0, 0],
  #[1, 2, 2, 1, 0, 0, 0, 0, 0, 0, 0, 0, 0, 0, 0, 0],
  #[1, 2, 2, 2, 1, 0, 0, 0, 0, 0, 0, 0, 0, 0, 0, 0],
  #[1, 2, 2, 2, 2, 1, 0, 0, 0, 0, 0, 0, 0, 0, 0, 0],
  #[1, 2, 2, 2, 2, 2, 1, 0, 0, 0, 0, 0, 0, 0, 0, 0],
  #[1, 2, 2, 2, 2, 2, 2, 1, 0, 0, 0, 0, 0, 0, 0, 0],
  #[1, 2, 2, 2, 2, 2, 2, 2, 1, 0, 0, 0, 0, 0, 0, 0],
  #[1, 2, 2, 2, 2, 2, 2, 2, 2, 1, 0, 0, 0, 0, 0, 0],
  #[1, 2, 2, 2, 2, 2, 2, 2, 2, 2, 1, 0, 0, 0, 0, 0],
  #[1, 2, 2, 2, 1, 1, 1, 1, 1, 1, 1, 0, 0, 0, 0, 0],
  #[1, 2, 1, 0, 1, 1, 1, 0, 0, 1, 1, 0, 0, 0, 0, 0],
  #[1, 1, 0, 0, 0, 1, 1, 0, 0, 0, 1, 1, 0, 0, 0, 0],
  #[0, 0, 0, 0, 0, 1, 1, 0, 0, 0, 0, 1, 1, 0, 0, 0],
  #[0, 0, 0, 0, 0, 0, 1, 1, 0, 0, 0, 0, 1, 0, 0, 0]
]

/-- `g_cursor_hand`. -/
def cursorHandBitmap : Array (Array UInt8) := #[
  #[0, 0, 0, 0, 1, 1, 0, 0, 0, 0, 0, 0, 0, 0, 0, 0],
  #[0, 0, 0, 1, 2, 2, 1, 0, 0, 0, 0, 0, 0, 0, 0, 0],
  #[0, 0, 0, 1, 2, 2, 1, 0, 0, 0, 0, 0, 0, 0, 0, 0],
  #[0, 0, 0, 1, 2, 2, 1, 0, 1, 1, 0, 0, 0, 0, 0, 0],
  #[0, 0, 0, 1, 2, 2, 1, 1, 2, 2, 1, 0, 0, 0, 0, 0],
  #[0, 0, 0, 1, 2, 2, 1, 2, 2, 2, 1, 1, 0, 0, 0, 0],
  #[0, 0, 0, 1, 2, 2, 1, 2, 2, 2, 1, 2, 1, 0, 0, 0],
  #[0, 0, 1, 1, 2, 2, 1, 2, 2, 2, 1, 2, 1, 0, 0, 0],
  #[0, 1, 2, 2, 2, 2, 2, 2, 2, 2, 1, 2, 1, 0, 0, 0],
  #[0, 1, 2, 2, 2, 2, 2, 2, 2, 2, 2, 2, 1, 0, 0, 0],
  #[0, 0, 1, 2, 2, 2, 2, 2, 2, 2, 2, 1, 0, 0, 0, 0],
  #[0, 0, 1, 2, 2, 2, 2, 2, 2, 2, 2, 1, 0, 0, 0, 0],
  #[0, 0, 0, 1, 2, 2, 2, 2, 2, 2, 1, 0, 0, 0, 0, 0],
  #[0, 0, 0, 1, 2, 2, 2, 2, 2, 2, 1, 0, 0, 0, 0, 0],
  #[0, 0, 0, 0, 1, 2, 2, 2, 2, 1, 0, 0, 0, 0, 0, 0],
  #[0, 0, 0, 0, 1, 1, 1, 1, 1, 1, 0, 0, 0, 0, 0, 0]
]

def guiDrawCursor (fb : FbSize) (x y : Int) (shape : UInt8) : FbPaint :=
  let bitmap := if shape = guiCursorHand then cursorHandBitmap else cursorArrowBitmap
  .all <| (List.range guiCursorH.toNat).flatMap fun row => (List.range guiCursorW.toNat).map fun col =>
    let v := (bitmap.getD row #[]).getD col 0
    if v = 0 then .clear
    else fbPutpixel fb (u32 (i32 (x + col))) (u32 (i32 (y + row))) (if v = 1 then 0xff101010 else 0xffe0e0e0)

/-! ## A window -/

/-- The row of buttons of `gui_draw_window`, and the lines of the close button. -/
def guiDrawButtons (fuel : Nat) (fb : FbSize) (focused : Bool) (window : Window) : Option FbPaint :=
  let buttonBg : UInt32 := if focused then 0xffa0a8b8 else 0xff586070
  let closeBg : UInt32 := if focused then 0xffe04a4a else 0xff8a3030
  let minimize : FbPaint := match guiMinimizeButtonRect window with
    | none => .clear
    | some r => (fbFillrect fb (r.x + 2) (r.y + r.h - 3) (r.w - 4) 1 0xfff0f4f8).atop
        (fbFillrect fb r.x r.y r.w r.h buttonBg)
  let maximize : FbPaint := match guiMaximizeButtonRect window with
    | none => .clear
    | some r => (fbDrawRect fb (r.x + 2) (r.y + 2) (r.w - 4) (r.h - 4) 0xfff0f4f8).atop
        (fbFillrect fb r.x r.y r.w r.h buttonBg)
  match guiCloseBoxRect window with
  | none => some (maximize.atop minimize)
  | some r => do
    let down ← fbDrawLine fuel fb (s32 (r.x + 2)) (s32 (r.y + 2)) (s32 (r.x + r.w - 3)) (s32 (r.y + r.h - 3)) 0xfff8f8f8
    let up ← fbDrawLine fuel fb (s32 (r.x + r.w - 3)) (s32 (r.y + 2)) (s32 (r.x + 2)) (s32 (r.y + r.h - 3)) 0xfff8f8f8
    let box := fbFillrect fb r.x r.y r.w r.h closeBg
    return up.atop (down.atop (box.atop (maximize.atop minimize)))

/-- The title bar of `gui_draw_window`, before the buttons. -/
def guiDrawBar (fb : FbSize) (border : UInt32) (window : Window) : FbPaint :=
  let barColor := guiBlendColor border 0xff000000 2 3
  let textY := window.y + if fontGlyphHeight < window.titleH then (window.titleH - fontGlyphHeight) / 2 else 0
  let bar := fbFillrect fb window.x window.y window.w window.titleH barColor
  let line :=
    if window.titleH + 1 < window.h then fbFillrect fb window.x (window.y + window.titleH) window.w 1 border else .clear
  (fontDrawTextClipped fb (window.x + 2) textY window.titleH window.title 0xfff0f4f8).atop (line.atop bar)

/-- The content of `gui_draw_window`. -/
def guiDrawContents (fb : FbSize) (border : UInt32) (window : Window) : FbPaint :=
  match window.ownerDrawn, window.backing with
  | true, some pixels => fbBlit fb window.x (window.y + window.titleH) pixels window.w (guiContentH window)
  | _, _ =>
    let inner :=
      if 2 < window.w ∧ 2 < window.h then
        fbFillrect fb (window.x + 1) (window.y + 1) (window.w - 2) (window.h - 2) window.bgColor
      else .clear
    inner.atop (fbFillrect fb window.x window.y window.w window.h border)

/-- The frame of `gui_draw_window`. -/
def guiDrawFrame (fb : FbSize) (border : UInt32) (window : Window) : FbPaint :=
  let top := fbFillrect fb window.x window.y window.w 1 border
  let bottom :=
    if 1 < window.h then fbFillrect fb window.x (window.y + window.h - 1) window.w 1 border else .clear
  let left :=
    if 2 < window.h then fbFillrect fb window.x (window.y + 1) 1 (window.h - 2) border else .clear
  let right :=
    if 2 < window.h ∧ 1 < window.w then
      fbFillrect fb (window.x + window.w - 1) (window.y + 1) 1 (window.h - 2) border
    else .clear
  right.atop (left.atop (bottom.atop top))

def guiDrawWindow (fuel : Nat) (fb : FbSize) (focused : Bool) (window : Window) : Option FbPaint :=
  if window.used = false ∨ window.minimized = true then some .clear
  else
    let border :=
      if focused = true ∧ window.flags &&& guiWindowNoFocus = 0 then 0xffe0e8f0 else window.borderColor
    let body := (guiDrawFrame fb border window).atop (guiDrawContents fb border window)
    if 0 < window.titleH ∧ window.title ≠ [] then
      (guiDrawButtons fuel fb focused window).map fun buttons =>
        buttons.atop ((guiDrawBar fb border window).atop body)
    else some body

/-! ## All windows -/

/-- A window that the loops of `gui_draw` look at. -/
def Window.Visible (window : Window) : Prop := window.used = true ∧ window.minimized = false

instance (window : Window) : Decidable window.Visible := by unfold Window.Visible; infer_instance

def guiNextWindowAtOrAfter (row x : UInt32) (d : Desktop) : Option WindowId :=
  scan (fun i => (d.windows i).Visible ∧ (d.windows i).y ≤ row ∧ row < (d.windows i).y + (d.windows i).h ∧
      x < (d.windows i).x + (d.windows i).w ∧ x ≤ (d.windows i).x ∧ (d.windows i).x < 0xffffffff)
    (fun i best => (d.windows i).x.toNat < (d.windows best).x.toNat) windowIds

def guiNextWindowAboveZ (minZ : UInt32) (d : Desktop) : Option WindowId :=
  scan (fun i => (d.windows i).Visible ∧ minZ < (d.windows i).z ∧ (d.windows i).z < 0xffffffff)
    (fun i best => (d.windows i).z.toNat < (d.windows best).z.toNat) windowIds

/-- The windows that the loop over the windows comes to from `lastZ` on. -/
def guiWindowsAbove (d : Desktop) : (fuel : Nat) → (lastZ : UInt32) → Option (List WindowId)
  | 0, _ => none
  | fuel + 1, lastZ =>
    match guiNextWindowAboveZ lastZ d with
    | none => some []
    | some i => (guiWindowsAbove d fuel (d.windows i).z).map (i :: ·)

/-- The loop over the windows. -/
def guiDrawWindows (fuel : Nat) (d : Desktop) : Option FbPaint := do
  let ids ← guiWindowsAbove d fuel 0
  let paints ← ids.mapM fun i => guiDrawWindow fuel d.fb (d.focusedWindowId = some i) (d.windows i)
  return .all paints

/-! ## The redraw -/

/-- The colour of the background in a row. -/
def guiBackground (d : Desktop) (row : UInt32) : UInt32 :=
  guiBlendColor d.backgroundColor (guiBlendColor d.backgroundColor 0xff000000 3 4) row (d.fb.height - 1)

/-- The background of a row from `x` on, without the spans of the windows. -/
def guiSweepRow (d : Desktop) (row : UInt32) : (fuel : Nat) → (x : UInt32) → Option FbPaint
  | 0, _ => none
  | fuel + 1, x =>
    if d.fb.width ≤ x then some .clear
    else
      match guiNextWindowAtOrAfter row x d with
      | none => some (fbFillrect d.fb x row (d.fb.width - x) 1 (guiBackground d row))
      | some i =>
        let next := (d.windows i).x
        let span := if x < next then fbFillrect d.fb x row (next - x) 1 (guiBackground d row) else .clear
        (guiSweepRow d row fuel (next + (d.windows i).w)).map fun rest => rest.atop span

/-- The background of a full redraw. -/
def guiSweep (fuel : Nat) (d : Desktop) : Option FbPaint :=
  ((List.range d.fb.height.toNat).mapM fun row => guiSweepRow d (UInt32.ofNat row) fuel 0).map .all

/-- The cursor of a full redraw. -/
def guiDrawVisibleCursor (d : Desktop) : FbPaint :=
  if d.cursor.visible then guiDrawCursor d.fb d.cursor.x d.cursor.y d.cursor.shape else .clear

/-- `gui_draw` with `damage_full`. -/
def guiDrawFull (fuel : Nat) (d : Desktop) : Option FbPaint := do
  let sweep ← guiSweep fuel d
  let windows ← guiDrawWindows fuel d
  return (guiDrawVisibleCursor d).atop (windows.atop sweep)

/-- The part of a damage rectangle on the screen, from `(x0, y0)` to before `(x1, y1)`. -/
structure DamageClip where
  x0 : Int
  y0 : Int
  x1 : Int
  y1 : Int
  deriving DecidableEq

def damageClip (fb : FbSize) (r : DamageRect) : Option DamageClip :=
  let x0 := max r.x 0
  let y0 := max r.y 0
  let x1 := min (i32 (r.x + r.w)) (s32 fb.width)
  let y1 := min (i32 (r.y + r.h)) (s32 fb.height)
  if x1 ≤ x0 ∨ y1 ≤ y0 then none else some ⟨x0, y0, x1, y1⟩

/-- The cursor overlaps the rectangle. -/
def MeetsCursor (cursor : Cursor) (c : DamageClip) : Prop :=
  c.x0 < i32 (cursor.x + guiCursorW) ∧ cursor.x < c.x1 ∧ c.y0 < i32 (cursor.y + guiCursorH) ∧ cursor.y < c.y1

instance (cursor : Cursor) (c : DamageClip) : Decidable (MeetsCursor cursor c) := by
  unfold MeetsCursor; infer_instance

/-- The background of a rectangle, row by row. -/
def guiFillDamage (d : Desktop) (c : DamageClip) : FbPaint :=
  .all <| (List.range (c.y1 - c.y0).toNat).map fun k : Nat =>
    fbFillrect d.fb (u32 c.x0) (u32 (c.y0 + k)) (u32 (c.x1 - c.x0)) 1 (guiBackground d (u32 (c.y0 + k)))

/-- What a partial redraw does for one rectangle. -/
def guiDrawDamage (fuel : Nat) (d : Desktop) (c : DamageClip) : Option FbPaint := do
  let windows ← guiDrawWindows fuel d
  let cursor := if MeetsCursor d.cursor c then guiDrawVisibleCursor d else .clear
  return cursor.atop (windows.atop (guiFillDamage d c))

/-- `gui_draw` with a damage list. -/
def guiDrawPartial (fuel : Nat) (d : Desktop) (rects : List DamageRect) : Option FbPaint :=
  ((rects.filterMap (damageClip d.fb)).mapM (guiDrawDamage fuel d)).map .all

def guiDraw (fuel : Nat) (s : Screen) : Option FbPaint :=
  if s.damage.full then guiDrawFull fuel s.desktop else guiDrawPartial fuel s.desktop s.damage.rects

/-! ## The windows that are drawn -/

/-- The loop over the windows comes to this window: of the visible ones with its `z` it is the first. -/
def Drawn (d : Desktop) (i : WindowId) : Prop :=
  (d.windows i).Visible ∧ 0 < (d.windows i).z ∧ (d.windows i).z < 0xffffffff ∧
    ∀ j < i, (d.windows j).Visible → (d.windows j).z ≠ (d.windows i).z

section Order

variable {d : Desktop} {i : WindowId} {minZ : UInt32}

theorem guiNextWindowAboveZ_none (h : guiNextWindowAboveZ minZ d = none) (hi : Drawn d i) : ¬ minZ < (d.windows i).z :=
  fun hz => scan_none.mp h i (List.mem_finRange i) ⟨hi.1, hz, hi.2.2.1⟩

theorem guiNextWindowAboveZ_some (h : guiNextWindowAboveZ minZ d = some i) :
    minZ < (d.windows i).z ∧ Drawn d i ∧ ∀ j, Drawn d j → minZ < (d.windows j).z → (d.windows j).z ≤ (d.windows i).z →
      j = i := by
  obtain ⟨⟨hvisible, hz, hmax⟩, before, after, hids, hbefore, hafter⟩ :=
    scan_some h (fun _ _ _ => lt_trans) (fun _ _ _ hbc hic => lt_of_lt_of_le hbc (not_lt.mp hic))
  -- the places before are the smaller ones
  have hsorted : (before ++ i :: after).Pairwise (· < ·) := hids ▸ List.pairwise_lt_finRange _
  have hmem : ∀ j, j ∈ before ∨ j = i ∨ j ∈ after := fun j => by
    have hj : j ∈ before ++ i :: after := hids ▸ List.mem_finRange j
    simpa using hj
  have hfirst : ∀ j < i, (d.windows j).Visible → (d.windows j).z ≠ (d.windows i).z := by
    intro j hj hjvisible heq
    rw [List.pairwise_append] at hsorted
    rcases hmem j with hjb | rfl | hja
    · have hlt := hbefore j hjb ⟨hjvisible, heq ▸ hz, heq ▸ hmax⟩
      rw [heq] at hlt
      exact lt_irrefl _ hlt
    · exact lt_irrefl _ hj
    · exact lt_asymm hj ((List.pairwise_cons.mp hsorted.2.1).1 j hja)
  refine ⟨hz, ⟨hvisible, UInt32.lt_of_le_of_lt UInt32.zero_le hz, hmax, hfirst⟩, fun j hj hjz hle => ?_⟩
  have hcandidate := (⟨hj.1, hjz, hj.2.2.1⟩ : (d.windows j).Visible ∧ minZ < (d.windows j).z ∧ _)
  rw [UInt32.le_iff_toNat_le] at hle
  rcases hmem j with hjb | rfl | hja
  · exact absurd (hbefore j hjb hcandidate) (by omega)
  · rfl
  · have hle' := hafter j hja hcandidate
    have heq : (d.windows i).z = (d.windows j).z := UInt32.toNat_inj.mp (by omega)
    rw [List.pairwise_append] at hsorted
    exact absurd heq (hj.2.2.2 i ((List.pairwise_cons.mp hsorted.2.1).1 j hja) hvisible)

/-- The loop ends, and has come to the windows that are drawn, from the lowest `z` to the highest. -/
theorem guiWindowsAbove_order (d : Desktop) (minZ : UInt32) :
    ∃ ids, Ends (guiWindowsAbove d · minZ) ids ∧ (∀ i, i ∈ ids ↔ Drawn d i ∧ minZ < (d.windows i).z) ∧
      ids.Pairwise fun i j => (d.windows i).z < (d.windows j).z := by
  induction hn : (Finset.univ.filter fun i => minZ < (d.windows i).z).card using Nat.strong_induction_on
    generalizing minZ with
  | _ n ih =>
    cases hnext : guiNextWindowAboveZ minZ d with
    | none =>
      refine ⟨[], ⟨0, fun fuel hfuel => ?_⟩, fun i => ?_, .nil⟩
      · obtain ⟨fuel, rfl⟩ : ∃ m, fuel = m + 1 := ⟨fuel - 1, by omega⟩
        simp only [guiWindowsAbove, hnext]
      · simpa using fun hi => UInt32.not_lt.mp (guiNextWindowAboveZ_none hnext hi)
    | some i =>
      obtain ⟨hz, hdrawn, hleast⟩ := guiNextWindowAboveZ_some hnext
      have hless : (Finset.univ.filter fun j => (d.windows i).z < (d.windows j).z).card < n := by
        rw [← hn]
        refine Finset.card_lt_card ⟨fun j hj => ?_, fun hsub => ?_⟩
        · simp only [Finset.mem_filter, Finset.mem_univ, true_and] at hj ⊢
          exact UInt32.lt_trans hz hj
        · have hi := hsub (by simpa using hz : i ∈ _)
          simp at hi
      obtain ⟨ids, ⟨m, hends⟩, hmem, hpairs⟩ := ih _ hless (d.windows i).z rfl
      refine ⟨i :: ids, ⟨m + 1, fun fuel hfuel => ?_⟩, fun j => ?_, List.pairwise_cons.mpr ⟨fun j hj => ?_, hpairs⟩⟩
      · obtain ⟨fuel, rfl⟩ : ∃ m, fuel = m + 1 := ⟨fuel - 1, by omega⟩
        simp only [guiWindowsAbove, hnext, hends fuel (by omega), Option.map_some]
      · rw [List.mem_cons, hmem]
        constructor
        · rintro (rfl | ⟨hj, hjz⟩)
          · exact ⟨hdrawn, hz⟩
          · exact ⟨hj, UInt32.lt_trans hz hjz⟩
        · rintro ⟨hj, hjz⟩
          rcases UInt32.lt_or_le (d.windows i).z (d.windows j).z with hlt | hle
          · exact .inr ⟨hj, hlt⟩
          · exact .inl (hleast j hj hjz hle)
      · exact ((hmem j).mp hj).2

end Order

/-! ## What a window leaves out -/

/-- The pixels of the window's rectangle. -/
def Window.Covers (window : Window) (p : Pixel) : Prop :=
  InRect window.x.toNat window.y.toNat window.w.toNat window.h.toNat p

instance (window : Window) (p : Pixel) : Decidable (window.Covers p) := by unfold Window.Covers; infer_instance

/-- The rows of the title bar inside the frame of a window that is blitted and has no title. -/
def TitleStrip (window : Window) (p : Pixel) : Prop :=
  window.ownerDrawn = true ∧ window.backing.isSome = true ∧ window.title = [] ∧
    window.y.toNat < p.2 ∧ p.2 < window.y.toNat + window.titleH.toNat ∧ p.2 + 1 < window.y.toNat + window.h.toNat ∧
    window.x.toNat < p.1 ∧ p.1 + 1 < window.x.toNat + window.w.toNat

section Body

variable {fb : FbSize} {window : Window} {p : Pixel}

theorem fbFillrect_some {x y w h color : UInt32} (hp : fb.Shows p) (hrect : InRect x.toNat y.toNat w.toNat h.toNat p) :
    fbFillrect fb x y w h color p = some color := by
  rw [fbFillrect_apply, if_pos ⟨hp.1, hp.2, hrect⟩]

theorem fbBlit_some {x y w h : UInt32} {src : Nat → UInt32} (hp : fb.Shows p)
    (hrect : InRect x.toNat y.toNat w.toNat h.toNat p) : fbBlit fb x y src w h p ≠ none := by
  rw [fbBlit_apply, if_pos ⟨hp.1, hp.2, hrect⟩]
  simp

theorem add_toNat {a b : UInt32} {n : Nat} (h : a.toNat + b.toNat ≤ n) (hn : n < 2 ^ 32) :
    (a + b).toNat = a.toNat + b.toNat := by
  rw [UInt32.toNat_add]
  omega

/-- The frame. -/
theorem guiDrawFrame_some (border : UInt32) (hp : fb.Shows p) (hcovers : window.Covers p)
    (hedge : p.2 = window.y.toNat ∨ p.2 + 1 = window.y.toNat + window.h.toNat ∨ p.1 = window.x.toNat ∨
      p.1 + 1 = window.x.toNat + window.w.toNat) : guiDrawFrame fb border window p ≠ none := by
  obtain ⟨hx, hxw, hy, hyh⟩ := hcovers
  have hpx : p.1 < 2 ^ 32 := hp.1.trans fb.width.toNat_lt
  have hpy : p.2 < 2 ^ 32 := hp.2.trans fb.height.toNat_lt
  simp only [guiDrawFrame, ne_eq, Paint.atop_none, not_and_or]
  have hone : (1 : UInt32).toNat = 1 := rfl
  have htwo : (2 : UInt32).toNat = 2 := rfl
  by_cases htop : p.2 = window.y.toNat
  · refine .inr (.inr (.inr ?_))
    rw [fbFillrect_some hp ⟨hx, hxw, hy, by rw [hone]; omega⟩]
    simp
  by_cases hbottom : p.2 + 1 = window.y.toNat + window.h.toNat
  · refine .inr (.inr (.inl ?_))
    have hsum : (window.y + window.h - 1).toNat = p.2 := by
      rw [UInt32.toNat_sub, UInt32.toNat_add, hone, ← hbottom]
      omega
    rw [if_pos (UInt32.lt_iff_toNat_lt.mpr (by rw [hone]; omega)), fbFillrect_some hp ⟨hx, hxw, by omega, by omega⟩]
    simp
  · have hh : 2 < window.h := UInt32.lt_iff_toNat_lt.mpr (by rw [htwo]; omega)
    have hy1 : (window.y + 1).toNat = window.y.toNat + 1 := add_toNat (n := p.2) (by rw [hone]; omega) hpy
    have hh2 : (window.h - 2).toNat = window.h.toNat - 2 := UInt32.toNat_sub_of_le _ _ (UInt32.le_of_lt hh)
    by_cases hleft : p.1 = window.x.toNat
    · refine .inr (.inl ?_)
      rw [if_pos hh, fbFillrect_some hp ⟨hx, by rw [hone]; omega, by omega, by omega⟩]
      simp
    · refine .inl ?_
      have hsum : (window.x + window.w - 1).toNat = p.1 := by
        rw [UInt32.toNat_sub, UInt32.toNat_add, hone]
        omega
      rw [if_pos ⟨hh, UInt32.lt_iff_toNat_lt.mpr (by rw [hone]; omega)⟩,
        fbFillrect_some hp ⟨by omega, by rw [hone]; omega, by omega, by omega⟩]
      simp

/-- The contents of a window that is blitted, below the title bar. -/
theorem guiDrawContents_some (border : UInt32) (hp : fb.Shows p) (hcovers : window.Covers p)
    (h : window.ownerDrawn = true → window.backing.isSome = true → window.y.toNat + window.titleH.toNat ≤ p.2) :
    guiDrawContents fb border window p ≠ none := by
  have hfill : ∀ inner : FbPaint,
      inner.atop (fbFillrect fb window.x window.y window.w window.h border) p ≠ none := by
    intro inner
    rw [ne_eq, Paint.atop_none, fbFillrect_some hp hcovers]
    simp
  unfold guiDrawContents
  cases howner : window.ownerDrawn with
  | false => exact hfill _
  | true =>
    cases hbacking : window.backing with
    | none => exact hfill _
    | some pixels =>
      have hbelow := h howner (by simp [hbacking])
      obtain ⟨hx, hxw, hy, hyh⟩ := hcovers
      have hpy : p.2 < 2 ^ 32 := hp.2.trans fb.height.toNat_lt
      have htop : (window.y + window.titleH).toNat = window.y.toNat + window.titleH.toNat := add_toNat hbelow hpy
      have hlt : window.titleH < window.h := UInt32.lt_iff_toNat_lt.mpr (by omega)
      have hcontent : (guiContentH window).toNat = window.h.toNat - window.titleH.toNat := by
        rw [guiContentH, if_pos hlt, UInt32.toNat_sub_of_le _ _ (UInt32.le_of_lt hlt)]
      exact fbBlit_some hp ⟨hx, hxw, by omega, by omega⟩

/-- A window leaves out none of its pixels but those of the strip. -/
theorem guiDrawWindow_some {fuel : Nat} {focused : Bool} {paint : FbPaint} (hvisible : window.Visible)
    (h : guiDrawWindow fuel fb focused window = some paint) (hp : fb.Shows p) (hcovers : window.Covers p)
    (hstrip : ¬ TitleStrip window p) : paint p ≠ none := by
  unfold guiDrawWindow at h
  rw [if_neg (by simp [hvisible.1, hvisible.2])] at h
  dsimp only at h
  obtain ⟨border, hborder⟩ : ∃ border, border =
      if focused = true ∧ window.flags &&& guiWindowNoFocus = 0 then 0xffe0e8f0 else window.borderColor := ⟨_, rfl⟩
  rw [← hborder] at h
  have hcontents := guiDrawContents_some border hp hcovers
  have hframe := guiDrawFrame_some border hp hcovers
  split at h
  · rename_i htitle
    obtain ⟨buttons, -, rfl⟩ := Option.map_eq_some_iff.mp h
    simp only [ne_eq, Paint.atop_none, not_and_or]
    by_cases hbar : p.2 < window.y.toNat + window.titleH.toNat
    · refine .inr (.inl ?_)
      simp only [guiDrawBar, Paint.atop_none, not_and_or]
      refine .inr (.inr ?_)
      obtain ⟨hx, hxw, hy, hyh⟩ := hcovers
      rw [fbFillrect_some hp ⟨hx, hxw, hy, hbar⟩]
      simp
    · exact .inr (.inr (.inr (hcontents fun _ _ => not_lt.mp hbar)))
  · rename_i htitle
    cases h
    simp only [ne_eq, Paint.atop_none, not_and_or]
    by_cases hblit : window.ownerDrawn = true ∧ window.backing.isSome = true ∧
        p.2 < window.y.toNat + window.titleH.toNat
    · obtain ⟨howner, hbacking, hbar⟩ := hblit
      refine .inl (hframe ?_)
      have hempty : window.title = [] := by
        by_contra hne
        refine htitle ⟨UInt32.lt_iff_toNat_lt.mpr ?_, hne⟩
        have := hcovers.2.2.1
        rw [UInt32.toNat_zero]
        omega
      by_contra hinside
      simp only [not_or] at hinside
      obtain ⟨hx, hxw, hy, hyh⟩ := hcovers
      exact hstrip ⟨howner, hbacking, hempty, by omega, hbar, by omega, by omega, by omega⟩
    · refine .inr (hcontents fun howner hbacking => ?_)
      by_contra hbar
      exact hblit ⟨howner, hbacking, not_le.mp hbar⟩

end Body

end Armonios
