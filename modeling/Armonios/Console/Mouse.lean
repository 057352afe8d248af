import Armonios.Gui.Keyboard
import Armonios.Gui.WindowRules

/-!
# The mouse of the console

The commands `mouse x y` and `click x y` of `kernel/console.c`. `queue_mouse_move` queues a relative move, from the
position that the console has kept of its last command.

* `ConsoleMouse.goal`: where the cursor is when the waiting events have been handled;
* `mouse_absolute_iff`: when a command ends at its position;
* `commands_absolute`: the histories in which every command does.
-/

namespace Armonios

/-- `g_cursor_known`, `g_cursor_x` and `g_cursor_y`, with the queue and the desktop. -/
structure ConsoleMouse where
  cursorKnown : Bool
  cursorX : Int
  cursorY : Int
  queue : InputQueue
  desktop : Desktop

namespace ConsoleMouse

/-- After the boot, with an empty queue. -/
def init (slots : Nat → InputEvent) (d : Desktop) : ConsoleMouse := ⟨false, 0, 0, ⟨slots, 0, 0, 0⟩, d⟩

/-- `input_queue_push`; nobody looks at its status. -/
def queueEvent (event : InputEvent) (s : ConsoleMouse) : ConsoleMouse :=
  { s with queue := (inputQueuePush event s.queue).getD s.queue }

/-- `read_cursor`, if no position is known yet. -/
def readCursor (s : ConsoleMouse) : ConsoleMouse :=
  if s.cursorKnown then s
  else { s with cursorKnown := true, cursorX := s.desktop.cursor.x, cursorY := s.desktop.cursor.y }

def queueMouseMove (toX toY : Int) (s : ConsoleMouse) : ConsoleMouse :=
  let s := s.readCursor
  let dx := i32 (toX - s.cursorX)
  let dy := i32 (toY - s.cursorY)
  queueEvent (.mouseMove dx dy) { s with cursorX := toX, cursorY := toY }

def queueMouseButton (button : UInt32) (pressed : Bool) (s : ConsoleMouse) : ConsoleMouse :=
  s.queueEvent (.mouseButton button pressed)

/-- `run_mouse`, without what it prints. -/
def runMouse (x y : Int) (s : ConsoleMouse) : ConsoleMouse := s.queueMouseMove x y

def runClick (x y : Int) (s : ConsoleMouse) : ConsoleMouse :=
  ((s.queueMouseMove x y).queueMouseButton 0 true).queueMouseButton 0 false

/-- A turn of the loops that drain the queue into `gui_handle_input`. -/
def drain (ownerDead : Window → Bool) (s : ConsoleMouse) : ConsoleMouse :=
  match inputQueuePoll s.queue with
  | none => s
  | some (event, queue) =>
    { s with queue, desktop := (guiHandleDesktopInput ownerDead event s.desktop).desktop }

end ConsoleMouse

/-- What happens: a command, an event of a driver, or a turn of the drain. -/
inductive MouseAct
  | mouse (x y : Int32)
  | click (x y : Int32)
  | arrive (event : InputEvent)
  | drain (ownerDead : Window → Bool)

def MouseAct.step (s : ConsoleMouse) : MouseAct → ConsoleMouse
  | mouse x y => s.runMouse x.toInt y.toInt
  | click x y => s.runClick x.toInt y.toInt
  | arrive event => s.queueEvent event
  | drain ownerDead => s.drain ownerDead

/-- `n`, clamped to `0, …, size - 1`. -/
def clampTo (n : Int) (size : UInt32) : Int := min (max n 0) (size.toNat - 1)

/-- Where an event puts the cursor. -/
def InputEvent.moves (fb : FbSize) (p : Int × Int) : InputEvent → Int × Int
  | .mouseMove dx dy => (guiClampCursor (i32 (p.1 + dx)) fb.width, guiClampCursor (i32 (p.2 + dy)) fb.height)
  | _ => p

namespace ConsoleMouse

/-- The cursor of the desktop. -/
def position (s : ConsoleMouse) : Int × Int := (s.desktop.cursor.x, s.desktop.cursor.y)

/-- Where the cursor is when the waiting events have been handled. -/
def goal (s : ConsoleMouse) : Int × Int :=
  s.queue.waiting.foldl (fun p event => event.moves s.desktop.fb p) s.position

/-- Where the console takes the cursor to be. -/
def base (s : ConsoleMouse) : Int × Int := if s.cursorKnown then (s.cursorX, s.cursorY) else s.position

end ConsoleMouse

/-- A move from `base` to `goal`, made at `start`, ends right: it starts at its base, or both ends are beyond the same
edge. -/
def Lands (size : UInt32) (start base goal : Int) : Prop :=
  start = base ∨ size.toNat ≤ 1 ∨ (goal ≤ 0 ∧ i32 (goal + (start - base)) ≤ 0) ∨
    (size.toNat - 1 ≤ goal ∧ size.toNat - 1 ≤ i32 (goal + (start - base)))

/-- The command gets into the queue, and its move lands on both axes; or the waiting events lead to its position. -/
def MouseLands (x y : Int) (s : ConsoleMouse) : Prop :=
  if s.queue.waiting.length < inputEventQueueSize then
    Lands s.desktop.fb.width s.goal.1 s.base.1 x ∧ Lands s.desktop.fb.height s.goal.2 s.base.2 y
  else s.goal = (clampTo x s.desktop.fb.width, clampTo y s.desktop.fb.height)

/-! ## One axis -/

theorem guiClampCursor_eq {n : Int} (hn : IsInt32 n) (size : UInt32) : guiClampCursor n size = clampTo n size := by
  obtain ⟨hlow, hhigh⟩ := hn
  have hword : (u32 (max n 0)).toNat = (max n 0).toNat := u32_toNat (by omega) (by omega)
  unfold guiClampCursor clampTo
  simp only
  by_cases hle : size ≤ u32 (max n 0)
  · have hle' := UInt32.le_iff_toNat_le.mp hle
    rw [hword] at hle'
    have hside : s32 size = size.toNat := i32_of_fits (by omega) (by omega)
    rw [if_pos hle, hside, i32_of_fits (by omega) (by omega)]
    omega
  · have hlt := UInt32.lt_iff_toNat_lt.mp (UInt32.not_le.mp hle)
    rw [hword] at hlt
    rw [if_neg hle]
    omega

theorem lands_iff {start base goal : Int} (hstart : IsInt32 start) (hbase : IsInt32 base) (hgoal : IsInt32 goal)
    (size : UInt32) :
    guiClampCursor (i32 (start + i32 (goal - base))) size = clampTo goal size ↔ Lands size start base goal := by
  obtain ⟨hs, hs'⟩ := hstart
  obtain ⟨hb, hb'⟩ := hbase
  obtain ⟨hg, hg'⟩ := hgoal
  -- the two wraps are one, which is nothing exactly for a move from its base
  have hwrap : i32 (start + i32 (goal - base)) = i32 (goal + (start - base)) := by
    unfold i32
    omega
  have hsame : i32 (goal + (start - base)) = goal ↔ start = base := by
    unfold i32
    omega
  rw [guiClampCursor_eq (isInt32_i32 _), hwrap, Lands, ← hsame]
  generalize i32 (goal + (start - base)) = moved
  unfold clampTo
  omega

/-! ## The cursor of the desktop -/

/-- No change may move the cursor. -/
def stillCursor : Rules where
  inside _ _ := True
  titled _ _ := True
  buffered _ := True
  owner _ := True
  points _ _ := False
  drags _ _ := True

theorem Changes.still {a b : Arrangement} {n : Nat} (h : Changes stillCursor a n b) :
    b.fb = a.fb ∧ b.cursorX = a.cursorX ∧ b.cursorY = a.cursorY := by
  refine h.invariant (fun _ b => b.fb = a.fb ∧ b.cursorX = a.cursorX ∧ b.cursorY = a.cursorY) ?_ ⟨rfl, rfl, rfl⟩
  intro k m b c _ hb hchange
  cases hchange with
  | point cursorX cursorY points => exact points.elim
  | _ => exact hb

/-- An event moves the cursor as a mouse move says, or not at all. -/
theorem handleInput_cursor (ownerDead : Window → Bool) (event : InputEvent) (d : Desktop) :
    (guiHandleDesktopInput ownerDead event d).desktop.fb = d.fb ∧
      ((guiHandleDesktopInput ownerDead event d).desktop.cursor.x,
        (guiHandleDesktopInput ownerDead event d).desktop.cursor.y) = event.moves d.fb (d.cursor.x, d.cursor.y) := by
  have hstill : ∀ event' : InputEvent, InputAllowed stillCursor d event' →
      (guiHandleDesktopInput ownerDead event' d).desktop.fb = d.fb ∧
        ((guiHandleDesktopInput ownerDead event' d).desktop.cursor.x,
          (guiHandleDesktopInput ownerDead event' d).desktop.cursor.y) = (d.cursor.x, d.cursor.y) := by
    intro event' hallowed
    obtain ⟨n, -, hchanges⟩ : ∃ n ≤ 1, Changes stillCursor d.arrangement n
        (guiHandleDesktopInput ownerDead event' d).desktop.arrangement := guiHandleDesktopInput_changes hallowed
    obtain ⟨hfb, hx, hy⟩ := hchanges.still
    exact ⟨hfb, Prod.ext hx hy⟩
  cases event with
  | mouseMove dx dy =>
    -- a drag and the event of the window leave the cursor where the move has put it
    have hrest : Changes stillCursor (guiCursorMove dx dy d).desktop.arrangement 0
        (guiHandleDesktopInput ownerDead (.mouseMove dx dy) d).desktop.arrangement := by
      unfold guiHandleDesktopInput
      dsimp only
      rw [guiDispatchInput_arrangement]
      split
      · exact guiDragUpdate_changes fun _ => trivial
      · exact .refl
    obtain ⟨hfb, hx, hy⟩ := hrest.still
    exact ⟨hfb, Prod.ext hx hy⟩
  | mouseButton button pressed => exact hstill _ fun _ _ => trivial
  | keyPress key => exact hstill _ trivial
  | keyRelease key => exact hstill _ trivial

/-! ## Runs -/

namespace ConsoleMouse

variable {s : ConsoleMouse} {d : Desktop} {event : InputEvent} {slots : Nat → InputEvent}

/-- The queue is well formed, and the positions are in the range of their type. -/
structure Ok (s : ConsoleMouse) : Prop where
  queue : s.queue.Ok
  cursorX : IsInt32 s.cursorX
  cursorY : IsInt32 s.cursorY
  desktopX : IsInt32 s.desktop.cursor.x
  desktopY : IsInt32 s.desktop.cursor.y

theorem moves_int32 {p : Int × Int} (hp : IsInt32 p.1 ∧ IsInt32 p.2) (fb : FbSize) (event : InputEvent) :
    IsInt32 (event.moves fb p).1 ∧ IsInt32 (event.moves fb p).2 := by
  cases event with
  | mouseMove dx dy => exact ⟨isInt32_clamp (isInt32_i32 _) _, isInt32_clamp (isInt32_i32 _) _⟩
  | _ => exact hp

theorem Ok.goal (h : s.Ok) : IsInt32 s.goal.1 ∧ IsInt32 s.goal.2 := by
  have hfold : ∀ (events : List InputEvent) (p : Int × Int), IsInt32 p.1 ∧ IsInt32 p.2 →
      IsInt32 (events.foldl (fun p event => event.moves s.desktop.fb p) p).1 ∧
        IsInt32 (events.foldl (fun p event => event.moves s.desktop.fb p) p).2 := by
    intro events
    induction events with
    | nil => exact fun _ hp => hp
    | cons event events ih => exact fun p hp => ih _ (moves_int32 hp s.desktop.fb event)
  exact hfold _ _ ⟨h.desktopX, h.desktopY⟩

theorem Ok.base (h : s.Ok) : IsInt32 s.base.1 ∧ IsInt32 s.base.2 := by
  unfold ConsoleMouse.base
  split
  · exact ⟨h.cursorX, h.cursorY⟩
  · exact ⟨h.desktopX, h.desktopY⟩

theorem Ok.queueEvent (h : s.Ok) (event : InputEvent) : (s.queueEvent event).Ok :=
  ⟨(inputQueuePush_waiting h.queue event).1, h.cursorX, h.cursorY, h.desktopX, h.desktopY⟩

/-- An event at the end of the queue moves the goal, if it gets into the queue. -/
theorem goal_queueEvent (h : s.Ok) (event : InputEvent) : (s.queueEvent event).goal =
    if s.queue.waiting.length < inputEventQueueSize then event.moves s.desktop.fb s.goal else s.goal := by
  have hwaiting : (s.queueEvent event).queue.waiting = _ := (inputQueuePush_waiting h.queue event).2
  unfold goal
  rw [hwaiting]
  split
  · rw [List.foldl_append]
    rfl
  · rw [List.append_nil]
    rfl

/-- The state in which `queue_mouse_move` queues its event. -/
theorem queueMouseMove_eq (x y : Int) (s : ConsoleMouse) : s.queueMouseMove x y =
    ConsoleMouse.queueEvent (.mouseMove (i32 (x - s.base.1)) (i32 (y - s.base.2))) ⟨true, x, y, s.queue,
      s.desktop⟩ := by
  unfold queueMouseMove readCursor base
  cases hknown : s.cursorKnown with
  | true => simp only [if_true, hknown]
  | false => rfl

theorem Ok.cached (h : s.Ok) {x y : Int} (hx : IsInt32 x) (hy : IsInt32 y) :
    Ok ⟨true, x, y, s.queue, s.desktop⟩ := ⟨h.queue, hx, hy, h.desktopX, h.desktopY⟩

theorem Ok.mouseMove (h : s.Ok) {x y : Int} (hx : IsInt32 x) (hy : IsInt32 y) : (s.queueMouseMove x y).Ok := by
  rw [queueMouseMove_eq]
  exact (h.cached hx hy).queueEvent _

theorem goal_queueMouseMove (h : s.Ok) {x y : Int} (hx : IsInt32 x) (hy : IsInt32 y) : (s.queueMouseMove x y).goal =
    if s.queue.waiting.length < inputEventQueueSize then
      (guiClampCursor (i32 (s.goal.1 + i32 (x - s.base.1))) s.desktop.fb.width,
        guiClampCursor (i32 (s.goal.2 + i32 (y - s.base.2))) s.desktop.fb.height)
    else s.goal := by
  rw [queueMouseMove_eq, goal_queueEvent (h.cached hx hy)]
  rfl

/-- A turn of the drain takes the cursor towards the goal. -/
theorem drain_spec (h : s.Ok) (ownerDead : Window → Bool) : (s.drain ownerDead).Ok ∧
    (s.drain ownerDead).goal = s.goal ∧ (s.drain ownerDead).desktop.fb = s.desktop.fb := by
  unfold drain
  cases hpoll : inputQueuePoll s.queue with
  | none => exact ⟨h, rfl, rfl⟩
  | some taken =>
    obtain ⟨event, queue⟩ := taken
    obtain ⟨hqueue, hwaiting⟩ := Ring.pop_some h.queue hpoll
    obtain ⟨hfb, hcursor⟩ := handleInput_cursor ownerDead event s.desktop
    have hint := moves_int32 (p := s.position) ⟨h.desktopX, h.desktopY⟩ s.desktop.fb event
    rw [position, ← hcursor] at hint
    refine ⟨⟨hqueue, h.cursorX, h.cursorY, hint.1, hint.2⟩, ?_, hfb⟩
    dsimp only
    unfold goal position
    rw [show s.queue.waiting = event :: queue.waiting from hwaiting, List.foldl_cons, hfb, hcursor]

theorem drains_spec (h : s.Ok) (drains : List (Window → Bool)) :
    let s' := drains.foldl (fun s ownerDead => s.drain ownerDead) s
    s'.Ok ∧ s'.goal = s.goal ∧ s'.desktop.fb = s.desktop.fb := by
  induction drains generalizing s with
  | nil => exact ⟨h, rfl, rfl⟩
  | cons ownerDead drains ih =>
    obtain ⟨hok, hgoal, hfb⟩ := drain_spec h ownerDead
    obtain ⟨hok', hgoal', hfb'⟩ := ih hok
    exact ⟨hok', hgoal'.trans hgoal, hfb'.trans hfb⟩

/-- An empty queue leaves the cursor at the goal. -/
theorem goal_of_empty (h : s.queue.waiting = []) : s.goal = s.position := by
  rw [goal, h]
  rfl

theorem int32_toInt (n : Int32) : IsInt32 n.toInt := ⟨n.le_toInt, n.toInt_lt⟩

theorem step_ok (h : s.Ok) (act : MouseAct) : (act.step s).Ok ∧ (act.step s).desktop.fb = s.desktop.fb := by
  cases act with
  | mouse x y =>
    refine ⟨h.mouseMove (int32_toInt x) (int32_toInt y), ?_⟩
    rw [MouseAct.step, runMouse, queueMouseMove_eq]
    rfl
  | click x y =>
    refine ⟨((h.mouseMove (int32_toInt x) (int32_toInt y)).queueEvent _).queueEvent _, ?_⟩
    rw [MouseAct.step, runClick, queueMouseMove_eq]
    rfl
  | arrive event => exact ⟨h.queueEvent event, rfl⟩
  | drain ownerDead =>
    obtain ⟨hok, -, hfb⟩ := drain_spec h ownerDead
    exact ⟨hok, hfb⟩

theorem run_ok (h : s.Ok) (acts : List MouseAct) :
    (acts.foldl MouseAct.step s).Ok ∧ (acts.foldl MouseAct.step s).desktop.fb = s.desktop.fb := by
  induction acts generalizing s with
  | nil => exact ⟨h, rfl⟩
  | cons act acts ih =>
    obtain ⟨hok, hfb⟩ := step_ok h act
    obtain ⟨hok', hfb'⟩ := ih hok
    exact ⟨hok', hfb'.trans hfb⟩

theorem isInt32_zero : IsInt32 0 := ⟨by decide, by decide⟩

theorem init_ok (slots : Nat → InputEvent) (hx : IsInt32 d.cursor.x) (hy : IsInt32 d.cursor.y) : (init slots d).Ok :=
  ⟨⟨show 0 < inputEventQueueSize by decide, Nat.zero_le _, rfl⟩, isInt32_zero, isInt32_zero, hx, hy⟩

/-- Where a command leads. -/
theorem runMouse_goal_iff (h : s.Ok) {x y : Int} (hx : IsInt32 x) (hy : IsInt32 y) :
    (s.runMouse x y).goal = (clampTo x s.desktop.fb.width, clampTo y s.desktop.fb.height) ↔ MouseLands x y s := by
  rw [runMouse, goal_queueMouseMove h hx hy, MouseLands]
  by_cases hroom : s.queue.waiting.length < inputEventQueueSize
  · rw [if_pos hroom, if_pos hroom, Prod.mk.injEq, lands_iff h.goal.1 h.base.1 hx, lands_iff h.goal.2 h.base.2 hy]
  · rw [if_neg hroom, if_neg hroom]

/-- The cursor after a command, when the queue is empty again. -/
theorem drained_position_iff (h : s.Ok) {x y : Int} (hx : IsInt32 x) (hy : IsInt32 y) {drains : List (Window → Bool)}
    (hempty : (drains.foldl (fun s ownerDead => s.drain ownerDead) (s.runMouse x y)).queue.waiting = []) :
    (drains.foldl (fun s ownerDead => s.drain ownerDead) (s.runMouse x y)).position =
      (clampTo x s.desktop.fb.width, clampTo y s.desktop.fb.height) ↔ MouseLands x y s := by
  obtain ⟨-, hgoal, -⟩ := drains_spec (h.mouseMove hx hy) drains
  rw [← goal_of_empty hempty, ← runMouse_goal_iff h hx hy]
  exact ⟨hgoal.symm.trans, hgoal.trans⟩

end ConsoleMouse

/-! ## Histories of commands -/

/-- A command inside the framebuffer that finds room in the queue; the events of the drivers are no mouse moves. -/
def MouseAct.Fits (s : ConsoleMouse) : MouseAct → Prop
  | mouse x y | click x y => s.queue.waiting.length < inputEventQueueSize ∧
      clampTo x.toInt s.desktop.fb.width = x.toInt ∧ clampTo y.toInt s.desktop.fb.height = y.toInt
  | arrive event => ∀ dx dy, event ≠ .mouseMove dx dy
  | drain _ => True

def FitRun (s : ConsoleMouse) : List MouseAct → Prop
  | [] => True
  | act :: acts => act.Fits s ∧ FitRun (act.step s) acts

namespace ConsoleMouse

variable {s : ConsoleMouse} {event : InputEvent}

/-- The console knows where the waiting events lead, or they lead nowhere. -/
structure Synced (s : ConsoleMouse) : Prop where
  known : s.cursorKnown = true → s.goal = (s.cursorX, s.cursorY)
  unknown : s.cursorKnown = false → ∀ event ∈ s.queue.waiting, ∀ dx dy, event ≠ .mouseMove dx dy

theorem moves_still {fb : FbSize} {p : Int × Int} (h : ∀ dx dy, event ≠ .mouseMove dx dy) : event.moves fb p = p := by
  cases event with
  | mouseMove dx dy => exact absurd rfl (h dx dy)
  | _ => rfl

theorem Synced.goal_eq (h : s.Synced) : s.goal = s.base := by
  cases hknown : s.cursorKnown with
  | true => rw [h.known hknown, base, if_pos hknown]
  | false =>
    have hstill : ∀ (events : List InputEvent) (p : Int × Int), (∀ event ∈ events, ∀ dx dy, event ≠ .mouseMove dx dy) →
        events.foldl (fun p event => event.moves s.desktop.fb p) p = p := by
      intro events
      induction events with
      | nil => exact fun _ _ => rfl
      | cons event events ih =>
        intro p hevents
        rw [List.foldl_cons, moves_still (hevents event List.mem_cons_self)]
        exact ih p fun event' hmem => hevents event' (List.mem_cons_of_mem _ hmem)
    rw [goal, hstill _ _ (h.unknown hknown), base, if_neg (by simp [hknown])]

theorem Synced.queueEvent (hok : s.Ok) (h : s.Synced) (event : InputEvent)
    (hevent : ∀ dx dy, event ≠ .mouseMove dx dy) :
    (s.queueEvent event).Synced := by
  refine ⟨fun hknown => ?_, fun hunknown event' hmem => ?_⟩
  · rw [goal_queueEvent hok, moves_still hevent, ite_self]
    exact h.known hknown
  · have hwaiting : (s.queueEvent event).queue.waiting = _ := (inputQueuePush_waiting hok.queue event).2
    rw [hwaiting, List.mem_append] at hmem
    rcases hmem with hmem | hmem
    · exact h.unknown hunknown event' hmem
    · split at hmem
      · rw [List.mem_singleton.mp hmem]
        exact hevent
      · cases hmem

/-- A command inside the framebuffer leads to its position. -/
theorem Synced.mouseMove (hok : s.Ok) (h : s.Synced) {x y : Int} (hx : IsInt32 x) (hy : IsInt32 y)
    (hroom : s.queue.waiting.length < inputEventQueueSize) (hx' : clampTo x s.desktop.fb.width = x)
    (hy' : clampTo y s.desktop.fb.height = y) : (s.queueMouseMove x y).Synced := by
  have hlands : MouseLands x y s := by
    rw [MouseLands, if_pos hroom, h.goal_eq]
    exact ⟨.inl rfl, .inl rfl⟩
  have hgoal := (runMouse_goal_iff hok hx hy).mpr hlands
  rw [hx', hy', runMouse] at hgoal
  refine ⟨fun _ => ?_, fun hunknown => ?_⟩
  · rw [hgoal, queueMouseMove_eq]
    rfl
  · rw [queueMouseMove_eq] at hunknown
    cases hunknown

theorem Synced.drain (hok : s.Ok) (h : s.Synced) (ownerDead : Window → Bool) : (s.drain ownerDead).Synced := by
  obtain ⟨-, hgoal, -⟩ := drain_spec hok ownerDead
  unfold ConsoleMouse.drain at hgoal ⊢
  cases hpoll : inputQueuePoll s.queue with
  | none => exact h
  | some taken =>
    obtain ⟨event, queue⟩ := taken
    obtain ⟨-, hwaiting⟩ := Ring.pop_some hok.queue hpoll
    rw [hpoll] at hgoal
    refine ⟨fun hknown => hgoal.trans (h.known hknown), fun hunknown event' hmem => ?_⟩
    refine h.unknown hunknown event' ?_
    rw [InputQueue.waiting, hwaiting]
    exact List.mem_cons_of_mem _ hmem

theorem Synced.step (hok : s.Ok) (h : s.Synced) {act : MouseAct} (hfits : act.Fits s) : (act.step s).Synced := by
  cases act with
  | mouse x y => exact h.mouseMove hok (int32_toInt x) (int32_toInt y) hfits.1 hfits.2.1 hfits.2.2
  | click x y =>
    have hmove := hok.mouseMove (int32_toInt x) (int32_toInt y)
    have hsynced := h.mouseMove hok (int32_toInt x) (int32_toInt y) hfits.1 hfits.2.1 hfits.2.2
    have hdown := hsynced.queueEvent hmove (.mouseButton 0 true) fun _ _ h => nomatch h
    exact hdown.queueEvent (hmove.queueEvent _) _ fun _ _ h => nomatch h
  | arrive event => exact h.queueEvent hok event hfits
  | drain ownerDead => exact h.drain hok ownerDead

theorem Synced.run (hok : s.Ok) (h : s.Synced) {acts : List MouseAct} (hfits : FitRun s acts) :
    (acts.foldl MouseAct.step s).Synced := by
  induction acts generalizing s with
  | nil => exact h
  | cons act acts ih => exact ih (step_ok hok act).1 (h.step hok hfits.1) hfits.2

/-- After a history of commands inside the framebuffer every command ends at its position. -/
theorem commands_absolute {slots : Nat → InputEvent} {d : Desktop} (hcursor : IsInt32 d.cursor.x ∧ IsInt32 d.cursor.y)
    {acts : List MouseAct} (hfits : FitRun (.init slots d) acts) (x y : Int32)
    (hroom : (acts.foldl MouseAct.step (.init slots d)).queue.waiting.length < inputEventQueueSize) :
    MouseLands x.toInt y.toInt (acts.foldl MouseAct.step (.init slots d)) := by
  have hsynced : (init slots d).Synced := ⟨(fun h => nomatch h), fun _ event hmem => nomatch hmem⟩
  rw [MouseLands, if_pos hroom, (hsynced.run (init_ok slots hcursor.1 hcursor.2) hfits).goal_eq]
  exact ⟨.inl rfl, .inl rfl⟩

end ConsoleMouse

/-- The command `mouse x y` after a history, and the queue drained behind it. -/
theorem mouse_absolute_iff (slots : Nat → InputEvent) (d : Desktop) (hcursor : IsInt32 d.cursor.x ∧ IsInt32 d.cursor.y)
    (acts : List MouseAct) (x y : Int32) (drains : List (Window → Bool))
    (hempty : (drains.foldl (fun s ownerDead => s.drain ownerDead)
      ((acts.foldl MouseAct.step (.init slots d)).runMouse x.toInt y.toInt)).queue.waiting = []) :
    (drains.foldl (fun s ownerDead => s.drain ownerDead)
        ((acts.foldl MouseAct.step (.init slots d)).runMouse x.toInt y.toInt)).position =
      (clampTo x.toInt d.fb.width, clampTo y.toInt d.fb.height) ↔
    MouseLands x.toInt y.toInt (acts.foldl MouseAct.step (.init slots d)) := by
  obtain ⟨hok, hfb⟩ := ConsoleMouse.run_ok (ConsoleMouse.init_ok slots hcursor.1 hcursor.2) acts
  have hiff := ConsoleMouse.drained_position_iff hok (ConsoleMouse.int32_toInt x) (ConsoleMouse.int32_toInt y) hempty
  rwa [hfb] at hiff

/-- The boot of a screen of 640 by 480. -/
def sampleMouse : ConsoleMouse := .init (fun _ => .keyPress 0) (sampleDesktop ⟨640, 480⟩)

theorem sampleMouse_cursor : IsInt32 (sampleDesktop ⟨640, 480⟩).cursor.x ∧
    IsInt32 (sampleDesktop ⟨640, 480⟩).cursor.y :=
  ⟨isInt32_s32 _, isInt32_s32 _⟩

theorem mouse_absolute_sample :
    ([fun _ => false].foldl (fun s ownerDead => s.drain ownerDead) (sampleMouse.runMouse 700 20)).position =
      (639, 20) :=
  (mouse_absolute_iff (fun _ => .keyPress 0) (sampleDesktop ⟨640, 480⟩) sampleMouse_cursor [] 700 20 [fun _ => false]
    (by decide)).mpr (ConsoleMouse.commands_absolute sampleMouse_cursor (show FitRun sampleMouse [] from trivial) 700 20
      (by decide))

/-- A command beyond the edge, and the next one misses. -/
theorem mouse_misses : ¬∀ (acts : List MouseAct) (x y : Int32) (drains : List (Window → Bool)),
    (drains.foldl (fun s ownerDead => s.drain ownerDead)
      ((acts.foldl MouseAct.step sampleMouse).runMouse x.toInt y.toInt)).queue.waiting = [] →
    (drains.foldl (fun s ownerDead => s.drain ownerDead)
        ((acts.foldl MouseAct.step sampleMouse).runMouse x.toInt y.toInt)).position =
      (clampTo x.toInt 640, clampTo y.toInt 480) := by
  intro hall
  have hposition := hall [.mouse 5000 0, .drain fun _ => false] 10 0 [fun _ => false] (by decide)
  exact absurd (congrArg Prod.fst hposition) (by decide +kernel)

end Armonios
