import Armonios.Gui.Stack

/-!
# Damage

The damage list of `kernel/gui_compositor.c`, with `g_gui_dirty`, on the active desktop. A rectangle that
covers the whole framebuffer sets `damage_full` in `gui_damage_add` and leaves `g_gui_dirty` as it was.

* `screenRun_pending`: when no damage waits for a redraw that nobody asks for.
-/

namespace Armonios

def guiDamageMax : Nat := 32

/-- `damage_rect_t`. -/
structure DamageRect where
  x : Int
  y : Int
  w : Int
  h : Int
  deriving DecidableEq

/-- `damage_rects` with `damage_count`, `damage_full` and `g_gui_dirty`. -/
structure Damage where
  rects : List DamageRect
  full : Bool
  dirty : Bool

/-- The start of `gui_damage_add`: the rectangle without what is off the screen. -/
def guiClipDamage (fb : FbSize) (x y w h : Int) : Option DamageRect :=
  if w ≤ 0 ∨ h ≤ 0 then none
  else
    let fbW := s32 fb.width
    let fbH := s32 fb.height
    let w := if x < 0 then i32 (w + x) else w
    let x := max x 0
    let h := if y < 0 then i32 (h + y) else h
    let y := max y 0
    if fbW ≤ x ∨ fbH ≤ y then none
    else
      let w := if fbW < x + w then i32 (fbW - x) else w
      let h := if fbH < y + h then i32 (fbH - y) else h
      if w ≤ 0 ∨ h ≤ 0 then none else some ⟨x, y, w, h⟩

/-- The two rectangles overlap or touch. -/
def DamageTouches (a b : DamageRect) : Prop :=
  a.x ≤ i32 (b.x + b.w) ∧ b.x ≤ i32 (a.x + a.w) ∧ a.y ≤ i32 (b.y + b.h) ∧ b.y ≤ i32 (a.y + a.h)

instance (a b : DamageRect) : Decidable (DamageTouches a b) := by unfold DamageTouches; infer_instance

def damageUnion (a b : DamageRect) : DamageRect :=
  let nx0 := min a.x b.x
  let ny0 := min a.y b.y
  ⟨nx0, ny0, i32 (max (i32 (a.x + a.w)) (i32 (b.x + b.w)) - nx0), i32 (max (i32 (a.y + a.h)) (i32 (b.y + b.h)) - ny0)⟩

/-- The merge pass: the rectangle takes in those that it touches, one after the other. -/
def mergeDamage (rect : DamageRect) : List DamageRect → DamageRect × List DamageRect
  | [] => (rect, [])
  | r :: rects =>
    if DamageTouches rect r then mergeDamage (damageUnion rect r) rects
    else ((mergeDamage rect rects).1, r :: (mergeDamage rect rects).2)

/-- The whole framebuffer. -/
def wholeDamage (fb : FbSize) : DamageRect := ⟨0, 0, s32 fb.width, s32 fb.height⟩

def guiDamageAdd (fb : FbSize) (x y w h : Int) (s : Damage) : Damage :=
  if s.full then s
  else
    match guiClipDamage fb x y w h with
    | none => s
    | some rect =>
      if rect = wholeDamage fb then { s with rects := [], full := true }
      else
        let (rect, rects) := mergeDamage rect s.rects
        if guiDamageMax ≤ rects.length then { s with rects := [], full := true }
        else { s with rects := rects ++ [rect], dirty := true }

def guiRequestRedraw : Damage := ⟨[], true, true⟩

def guiClearDirty : Damage := ⟨[], false, false⟩

def DamageCall.run (fb : FbSize) (s : Damage) : DamageCall → Damage
  | add x y w h => guiDamageAdd fb x y w h s
  | redraw => guiRequestRedraw

/-- The active desktop with its damage. -/
structure Screen where
  desktop : Desktop
  damage : Damage

inductive ScreenEvent
  | op (op : GuiOp)
  /-- `gui_clear_dirty`, which `flush_dirty_redraw` calls after a redraw. -/
  | clearDirty

def Screen.step (s : Screen) : ScreenEvent → Screen
  | .op op => ⟨(op.run s.desktop).desktop, (op.run s.desktop).calls.foldl (DamageCall.run s.desktop.fb) s.damage⟩
  | .clearDirty => ⟨s.desktop, guiClearDirty⟩

/-- After `gui_init_for_framebuffer`, on the memory of the desktop before. -/
def Screen.init (fb : FbSize) (d : Desktop) : Screen := ⟨guiInit fb 0xff202428 d, guiClearDirty⟩

/-- Damage that is recorded makes the desktop dirty. -/
def PendingDirty (s : Damage) : Prop := s.full = true ∨ s.rects ≠ [] → s.dirty = true

/-- The rectangles that the calls add, without what is off the screen. -/
def clippedCalls (fb : FbSize) (calls : List DamageCall) : List DamageRect :=
  calls.filterMap fun
    | .add x y w h => guiClipDamage fb x y w h
    | .redraw => none

/-- The desktop is dirty, or `gui_request_redraw` is called, or the first rectangle on the screen that is
given to `gui_damage_add` is not the whole framebuffer. -/
def Screen.MarksDirty (s : Screen) : ScreenEvent → Prop
  | .op op => s.damage.dirty = true ∨ .redraw ∈ (op.run s.desktop).calls ∨
      (clippedCalls s.desktop.fb (op.run s.desktop).calls).head? ≠ some (wholeDamage s.desktop.fb)
  | .clearDirty => True

variable {fb : FbSize} {s : Damage} {calls : List DamageCall}

theorem run_dirty (h : s.dirty = true) (call : DamageCall) : (call.run fb s).dirty = true := by
  cases call with
  | redraw => rfl
  | add x y w h' =>
    show (guiDamageAdd fb x y w h' s).dirty = true
    unfold guiDamageAdd
    split
    · exact h
    split
    · exact h
    split
    · exact h
    dsimp only
    split
    · exact h
    · rfl

theorem calls_dirty (h : s.dirty = true) : (calls.foldl (DamageCall.run fb) s).dirty = true := by
  induction calls generalizing s with
  | nil => exact h
  | cons call calls ih => exact ih (run_dirty h call)

theorem redraw_dirty (h : .redraw ∈ calls) : (calls.foldl (DamageCall.run fb) s).dirty = true := by
  induction calls generalizing s with
  | nil => cases h
  | cons call calls ih =>
    rcases List.mem_cons.mp h with rfl | h
    · have hrun : DamageCall.redraw.run fb s = guiRequestRedraw := rfl
      rw [List.foldl_cons, hrun]
      exact calls_dirty rfl
    · exact ih h

/-- Nothing is added to `damage_full`, and nothing but a request for a redraw marks it. -/
theorem calls_full (hcalls : .redraw ∉ calls) (h : s.full = true) : calls.foldl (DamageCall.run fb) s = s := by
  induction calls generalizing s with
  | nil => rfl
  | cons call calls ih =>
    rw [List.mem_cons, not_or] at hcalls
    have hcall : call.run fb s = s := by
      cases call with
      | redraw => exact absurd rfl hcalls.1
      | add x y w h' => exact if_pos h
    rw [List.foldl_cons, hcall]
    exact ih hcalls.2 h

/-- The calls of a step on a desktop that is not dirty: the first rectangle decides. -/
theorem calls_clean (hcalls : .redraw ∉ calls) :
    PendingDirty (calls.foldl (DamageCall.run fb) guiClearDirty) ↔
      (clippedCalls fb calls).head? ≠ some (wholeDamage fb) := by
  induction calls with
  | nil => simp [clippedCalls, PendingDirty, guiClearDirty]
  | cons call calls ih =>
    rw [List.mem_cons, not_or] at hcalls
    cases call with
    | redraw => exact absurd rfl hcalls.1
    | add x y w h =>
      rw [List.foldl_cons]
      cases hclip : guiClipDamage fb x y w h with
      | none =>
        have hnone : (DamageCall.add x y w h).run fb guiClearDirty = guiClearDirty := by
          simp [DamageCall.run, guiDamageAdd, guiClearDirty, hclip]
        have hclipped : clippedCalls fb (.add x y w h :: calls) = clippedCalls fb calls := by
          simp [clippedCalls, hclip]
        rw [hnone, hclipped]
        exact ih hcalls.2
      | some rect =>
        have hclipped : (clippedCalls fb (.add x y w h :: calls)).head? = some rect := by
          simp [clippedCalls, hclip]
        rw [hclipped]
        by_cases hwhole : rect = wholeDamage fb
        · have hfull : (DamageCall.add x y w h).run fb guiClearDirty = ⟨[], true, false⟩ := by
            simp [DamageCall.run, guiDamageAdd, guiClearDirty, hclip, hwhole]
          rw [hfull, calls_full hcalls.2 rfl]
          simp [PendingDirty, hwhole]
        · have hdirty : ((DamageCall.add x y w h).run fb guiClearDirty).dirty = true := by
            simp [DamageCall.run, guiDamageAdd, guiClearDirty, hclip, hwhole, mergeDamage, guiDamageMax]
          refine iff_of_true (fun _ => calls_dirty hdirty) ?_
          simpa using hwhole

theorem Screen.step_pending {s : Screen} (h : PendingDirty s.damage) (e : ScreenEvent) :
    PendingDirty (s.step e).damage ↔ s.MarksDirty e := by
  cases e with
  | clearDirty => simp [Screen.step, guiClearDirty, PendingDirty, Screen.MarksDirty]
  | op op =>
    unfold Screen.step Screen.MarksDirty
    dsimp only
    by_cases hdirty : s.damage.dirty = true
    · exact iff_of_true (fun _ => calls_dirty hdirty) (.inl hdirty)
    by_cases hredraw : .redraw ∈ (op.run s.desktop).calls
    · exact iff_of_true (fun _ => redraw_dirty hredraw) (.inr (.inl hredraw))
    · -- nothing has been recorded
      have hclean : s.damage = guiClearDirty := by
        unfold PendingDirty at h
        cases hs : s.damage with
        | mk rects full dirty =>
          rw [hs] at h hdirty
          simp only [guiClearDirty]
          grind
      have hcalls : PendingDirty ((op.run s.desktop).calls.foldl (DamageCall.run s.desktop.fb) s.damage) ↔
          PendingDirty ((op.run s.desktop).calls.foldl (DamageCall.run s.desktop.fb) guiClearDirty) := by
        rw [hclean]
      rw [calls_clean hredraw] at hcalls
      simpa only [hclean, hredraw, false_or, guiClearDirty, Bool.false_eq_true] using hcalls

/-- Damage is never recorded without the desktop being dirty, exactly if every step marks the desktop
dirty. -/
theorem screenRun_pending (fb : FbSize) (d : Desktop) (events : List ScreenEvent) :
    Throughout Screen.step (fun s => PendingDirty s.damage) (Screen.init fb d) events ↔
      EachStep Screen.step Screen.MarksDirty (Screen.init fb d) events := by
  refine throughout_iff (Q := fun _ => True) (fun _ _ _ _ => trivial) (fun s e _ h => s.step_pending h e) trivial ?_
  simp [Screen.init, guiClearDirty, PendingDirty]

/-- A window that covers the screen is drawn over after a redraw; what is drawn later is not recorded. -/
theorem whole_damage_not_dirty :
    ¬ PendingDirty (List.foldl Screen.step (Screen.init ⟨10, 10⟩ (sampleDesktop ⟨10, 10⟩))
      [.op (.create 1 0 0 10 10 0 0 none), .op .requestRedraw, .clearDirty,
        .op (.drawRect (fun _ => some fun _ => 0) 0 0 0 10 10 0xffffffff)]).damage := by
  have hdamage : ((List.foldl Screen.step (Screen.init ⟨10, 10⟩ (sampleDesktop ⟨10, 10⟩))
      [.op (.create 1 0 0 10 10 0 0 none), .op .requestRedraw, .clearDirty,
        .op (.drawRect (fun _ => some fun _ => 0) 0 0 0 10 10 0xffffffff)]).damage.full = true) ∧
      ((List.foldl Screen.step (Screen.init ⟨10, 10⟩ (sampleDesktop ⟨10, 10⟩))
      [.op (.create 1 0 0 10 10 0 0 none), .op .requestRedraw, .clearDirty,
        .op (.drawRect (fun _ => some fun _ => 0) 0 0 0 10 10 0xffffffff)]).damage.dirty = false) := by
    decide +kernel
  intro h
  rw [h (.inl hdamage.1)] at hdamage
  cases hdamage.2

end Armonios
