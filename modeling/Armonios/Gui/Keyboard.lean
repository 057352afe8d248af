import Armonios.Gui.Focus
import Armonios.Lib.Ring

/-!
# The input queue and the keyboard

The queue of `drivers/input/input.c`, and the loop of `syscall_dispatch` that drains it. The console gets a key
when no window has the focus; `gui_handle_input` gets every key, and looks for a window to focus first.

* `drainTurn_keyPress`: who gets a key, and when it is one.
-/

namespace Armonios

def inputEventQueueSize : Nat := 64

/-- `g_event_queue` with its counters. -/
abbrev InputQueue := Ring InputEvent

namespace InputQueue

def Ok (queue : InputQueue) : Prop := Ring.Ok inputEventQueueSize queue

/-- The events that wait, the oldest first. -/
def waiting (queue : InputQueue) : List InputEvent := Ring.contents inputEventQueueSize queue

end InputQueue

def inputQueuePush (event : InputEvent) (queue : InputQueue) : Option InputQueue := queue.push inputEventQueueSize event

def inputQueuePoll (queue : InputQueue) : Option (InputEvent × InputQueue) := queue.pop inputEventQueueSize

/-- `none` for the status −1. -/
def inputQueuePollChar (queue : InputQueue) : Option UInt8 × InputQueue :=
  match inputQueuePoll queue with
  | none => (none, queue)
  | some (.keyPress key, queue) => (some (key &&& 0xff).toUInt8, queue)
  | some (_, queue) => (none, queue)

/-- A push whose status nobody looks at. -/
theorem inputQueuePush_waiting {queue : InputQueue} (hok : queue.Ok) (event : InputEvent) :
    ((inputQueuePush event queue).getD queue).Ok ∧
      ((inputQueuePush event queue).getD queue).waiting =
        queue.waiting ++ if queue.waiting.length < inputEventQueueSize then [event] else [] := by
  cases hpush : inputQueuePush event queue with
  | none =>
    have hfull : inputEventQueueSize ≤ queue.waiting.length := Ring.push_none.mp hpush
    rw [if_neg (by omega), List.append_nil]
    exact ⟨hok, rfl⟩
  | some queue' =>
    have hroom : ¬ inputEventQueueSize ≤ queue.waiting.length := fun h => by
      rw [inputQueuePush, Ring.push_none.mpr h] at hpush
      cases hpush
    rw [if_pos (by omega)]
    exact Ring.push_some hok hpush

/-! ## The drain -/

/-- What `syscall_dispatch` drains the events into. -/
structure InputState where
  queue : InputQueue
  /-- `gui_desktop()`. -/
  desktop : Option Desktop
  /-- What `console_poll_char` has been given, the last character at the end. -/
  console : List UInt8

/-- The test before `console_poll_char`. -/
def ConsoleGetsKeys (desktop : Option Desktop) : Prop := ∀ d ∈ desktop, d.focusedWindowId = none

instance (desktop : Option Desktop) : Decidable (ConsoleGetsKeys desktop) := by
  unfold ConsoleGetsKeys; infer_instance

/-- `console_poll_char`. A command may queue events; `queued` has those of a command that the last character
ends. -/
def consolePollChar (queued : List UInt8 → Option Desktop → List InputEvent) (ch : UInt8) (s : InputState) :
    InputState :=
  let console := s.console ++ [ch]
  { s with
    console
    queue := (queued console s.desktop).foldl (fun queue event => (inputQueuePush event queue).getD queue) s.queue }

/-- One turn of the loop; `none` if no event waits. -/
def drainTurn (ownerDead : Window → Bool) (queued : List UInt8 → Option Desktop → List InputEvent) (s : InputState) :
    Option InputState :=
  match inputQueuePoll s.queue with
  | none => none
  | some (event, queue) =>
    let s := { s with queue }
    let s := match event with
      | .keyPress key => if ConsoleGetsKeys s.desktop then consolePollChar queued key.toUInt8 s else s
      | _ => s
    some { s with desktop := s.desktop.map fun d => (guiHandleDesktopInput ownerDead event d).desktop }

/-! ## Who gets a key -/

inductive KeyConsumer
  | console
  | window (i : WindowId)
  deriving DecidableEq

/-- Those that get a key: the console after its test, and the window that has the focus after
`gui_focus_window_ensure`. -/
def keyConsumers (desktop : Option Desktop) : List KeyConsumer :=
  (if ConsoleGetsKeys desktop then [.console] else []) ++
    (desktop.bind fun d => (guiFocusWindowEnsure d).focusedWindowId).toList.map .window

/-- There is a window that may have the focus. -/
def HasFocusable (desktop : Option Desktop) : Prop :=
  ∃ d ∈ desktop, ∃ i, (d.windows i).used = true ∧ (d.windows i).Focusable

/-- The console and the windows of the list have got the key, and nobody else. -/
structure KeyDelivered (key : UInt32) (consumers : List KeyConsumer) (s s' : InputState) : Prop where
  console : s'.console = if .console ∈ consumers then s.console ++ [key.toUInt8] else s.console
  windows : ∀ d ∈ s.desktop, ∃ d' ∈ s'.desktop, ∀ i,
    (.window i ∈ consumers → (d.windows i).used = true ∧
      (d'.windows i).events = (guiWindowPushEvent .keyPress (s32 key) 0 (d.windows i)).events) ∧
    (.window i ∉ consumers → (d'.windows i).events = (d.windows i).events)

section Keys

variable {d : Desktop} {desktop : Option Desktop} {i : WindowId} {key : UInt32} {s s' : InputState} {queue : InputQueue}

theorem console_mem : .console ∈ keyConsumers desktop ↔ ConsoleGetsKeys desktop := by
  unfold keyConsumers
  split <;> simp [*]

theorem window_mem : .window i ∈ keyConsumers (some d) ↔ (guiFocusWindowEnsure d).focusedWindowId = some i := by
  unfold keyConsumers
  split <;> simp

/-- The window that `gui_focus_window_ensure` leaves the focus to. -/
theorem guiFocusWindowEnsure_none (d : Desktop) : (guiFocusWindowEnsure d).focusedWindowId = none ↔
    ∀ i, (d.windows i).used = true → ¬ (d.windows i).Focusable := by
  unfold guiFocusWindowEnsure
  split
  · rename_i hany
    obtain ⟨i, hi, hp⟩ := (Option.any_eq_true ..).mp hany
    simp only [decide_eq_true_eq] at hp
    simp only [hi, reduceCtorEq, false_iff, not_forall, not_not]
    exact ⟨i, hp.1, hp.2⟩
  · simp [windowIds]

/-- A key in the desktop. -/
theorem keyPress_events (ownerDead : Window → Bool) (key : UInt32) (d : Desktop) (i : WindowId) :
    ((guiFocusWindowEnsure d).focusedWindowId = some i → (d.windows i).used = true ∧
      (((guiHandleDesktopInput ownerDead (.keyPress key) d).desktop).windows i).events =
        (guiWindowPushEvent .keyPress (s32 key) 0 (d.windows i)).events) ∧
    ((guiFocusWindowEnsure d).focusedWindowId ≠ some i →
      (((guiHandleDesktopInput ownerDead (.keyPress key) d).desktop).windows i).events = (d.windows i).events) := by
  have hwindows := guiFocusWindowEnsure_windows d
  have hfocus := guiFocusWindowEnsure_focus d
  cases htarget : (guiFocusWindowEnsure d).focusedWindowId with
  | none => simp [guiHandleDesktopInput, htarget]
  | some j =>
    have hused := (hfocus j htarget).1
    rw [hwindows] at hused
    simp only [guiHandleDesktopInput, htarget, guiPushTo, Desktop.setWindow_windows, hwindows, Option.some.injEq]
    constructor
    · rintro rfl
      simp [hused]
    · intro hne
      rw [Function.update_of_ne fun h => hne (congrArg some h.symm)]

/-- A key has one consumer, or there is no window for it, exactly if a window has the focus or none may have it. -/
theorem keyConsumers_one (desktop : Option Desktop) :
    ((∃ c, keyConsumers desktop = [c]) ∨ (keyConsumers desktop = [] ∧ ¬ HasFocusable desktop)) ↔
      ∀ d ∈ desktop, d.focusedWindowId ≠ none ∨ ¬ HasFocusable desktop := by
  cases desktop with
  | none => simp [keyConsumers, ConsoleGetsKeys]
  | some d =>
    have hfocusable : HasFocusable (some d) ↔ (guiFocusWindowEnsure d).focusedWindowId ≠ none := by
      rw [ne_eq, guiFocusWindowEnsure_none]
      simp [HasFocusable]
    rw [hfocusable]
    unfold keyConsumers
    cases hfocus : d.focusedWindowId <;> cases htarget : (guiFocusWindowEnsure d).focusedWindowId <;>
      simp [ConsoleGetsKeys, hfocus, htarget]

/-- A key that is drained is delivered to the console, if no window has the focus, and to the window that
`gui_focus_window_ensure` leaves the focus to. It has one consumer, or none where there is no window for it, exactly
if the desktop is not active, or a window has the focus, or no window may have it. -/
theorem drainTurn_keyPress (ownerDead : Window → Bool) (queued : List UInt8 → Option Desktop → List InputEvent)
    (hpoll : inputQueuePoll s.queue = some (.keyPress key, queue)) :
    ∃ s', drainTurn ownerDead queued s = some s' ∧ KeyDelivered key (keyConsumers s.desktop) s s' ∧
      (((∃ c, keyConsumers s.desktop = [c]) ∨ (keyConsumers s.desktop = [] ∧ ¬ HasFocusable s.desktop)) ↔
        ∀ d ∈ s.desktop, d.focusedWindowId ≠ none ∨ ¬ HasFocusable s.desktop) := by
  have hdesktop : ∀ d ∈ s.desktop, ∃ d' ∈ s.desktop.map fun d =>
    (guiHandleDesktopInput ownerDead (.keyPress key) d).desktop,
      ∀ i, (.window i ∈ keyConsumers s.desktop → (d.windows i).used = true ∧
        (d'.windows i).events = (guiWindowPushEvent .keyPress (s32 key) 0 (d.windows i)).events) ∧
      (.window i ∉ keyConsumers s.desktop → (d'.windows i).events = (d.windows i).events) := by
    intro d hd
    rw [Option.mem_def] at hd
    rw [hd]
    refine ⟨_, rfl, fun i => ?_⟩
    rw [window_mem]
    exact keyPress_events ownerDead key d i
  unfold drainTurn
  rw [hpoll]
  dsimp only
  by_cases hconsole : ConsoleGetsKeys s.desktop
  · rw [if_pos hconsole]
    exact ⟨_, rfl, ⟨by rw [if_pos (console_mem.mpr hconsole)]; rfl, hdesktop⟩, keyConsumers_one s.desktop⟩
  · rw [if_neg hconsole]
    exact ⟨_, rfl, ⟨by rw [if_neg (console_mem.not.mpr hconsole)], hdesktop⟩, keyConsumers_one s.desktop⟩

end Keys

/-- A click beside the only window takes the focus away, and a key waits. -/
def unfocusedInput : InputState where
  queue := ⟨fun _ => .keyPress 97, 0, 1, 1⟩
  desktop := some (guiRun (guiInit ⟨10, 10⟩ 0xff202428 (sampleDesktop ⟨10, 10⟩))
    [.create 1 0 0 4 4 0 0 none, .input (fun _ => false) (.mouseButton 0 true)])
  console := []

theorem drainTurn_keyPress_sample : ∃ s', drainTurn (fun _ => false) (fun _ _ => []) unfocusedInput = some s' ∧
    KeyDelivered 97 (keyConsumers unfocusedInput.desktop) unfocusedInput s' ∧
      (((∃ c, keyConsumers unfocusedInput.desktop = [c]) ∨
          (keyConsumers unfocusedInput.desktop = [] ∧ ¬ HasFocusable unfocusedInput.desktop)) ↔
        ∀ d ∈ unfocusedInput.desktop, d.focusedWindowId ≠ none ∨ ¬ HasFocusable unfocusedInput.desktop) :=
  drainTurn_keyPress _ _ rfl

/-- The console and the window get the key. -/
theorem key_has_two_consumers : (drainTurn (fun _ => false) (fun _ _ => []) unfocusedInput).map (fun s =>
    (s.console, s.desktop.map fun d => (d.windows 0).events)) = some ([97], some [⟨.keyPress, 97, 0⟩]) := by
  decide +kernel

end Armonios
