import Armonios.Gui.Desktop

/-!
# The event ring of a window

`gui_events.c` on the ring itself: the array, `event_head`, `event_tail` and `event_count`. `contents` is the
list of the events that wait, and `Gui/Desktop.lean` has it in place of the ring.

* `ringRun_refines`: any calls give what they give on the list;
* `ring_window`: so a window with the list does what the window with the ring does.
-/

namespace Armonios

/-- The ring in `gui_window_t`. -/
structure EventRing where
  events : Nat → GuiEvent
  head : Nat
  tail : Nat
  count : Nat

namespace EventRing

/-- The place before the tail. -/
def prev (ring : EventRing) : Nat := if ring.tail = 0 then guiEventQueueSize - 1 else ring.tail - 1

/-- `gui_window_push_event` on a used window. -/
def pushEvent (type : GuiEventType) (data1 data2 : Int) (ring : EventRing) : EventRing :=
  if type = .mouseMove ∧ 0 < ring.count ∧ (ring.events ring.prev).type = .mouseMove then
    { ring with events := Function.update ring.events ring.prev { ring.events ring.prev with data1, data2 } }
  else if guiEventQueueSize ≤ ring.count ∧ type = .mouseMove then ring
  else
    -- a full ring first drops its oldest event
    let dropped := if guiEventQueueSize ≤ ring.count then
        { ring with head := (ring.head + 1) % guiEventQueueSize, count := ring.count - 1 }
      else ring
    { dropped with
      events := Function.update dropped.events dropped.tail ⟨type, data1, data2⟩
      tail := (dropped.tail + 1) % guiEventQueueSize
      count := dropped.count + 1 }

/-- `gui_window_pop_event` on a used window; `none` for the status −1. -/
def popEvent (ring : EventRing) : Option (GuiEvent × EventRing) :=
  if ring.count = 0 then none
  else some (ring.events ring.head,
    { ring with head := (ring.head + 1) % guiEventQueueSize, count := ring.count - 1 })

/-- The events that wait, the oldest first. -/
def contents (ring : EventRing) : List GuiEvent :=
  (List.range ring.count).map fun k => ring.events ((ring.head + k) % guiEventQueueSize)

structure Ok (ring : EventRing) : Prop where
  head : ring.head < guiEventQueueSize
  count : ring.count ≤ guiEventQueueSize
  tail : ring.tail = (ring.head + ring.count) % guiEventQueueSize

/-- After `gui_create_window_for_pid`, whatever the array has in it. -/
def empty (events : Nat → GuiEvent) : EventRing := ⟨events, 0, 0, 0⟩

end EventRing

/-! ## The list -/

/-- A push on the list: a mouse move replaces a mouse move at the end, a mouse move is dropped when the list is
full, and another event then drops the oldest one. -/
def eventsPush (type : GuiEventType) (data1 data2 : Int) (events : List GuiEvent) : List GuiEvent :=
  if type = .mouseMove ∧ events.getLast?.any (·.type = .mouseMove) then events.dropLast ++ [⟨type, data1, data2⟩]
  else if guiEventQueueSize ≤ events.length then
    if type = .mouseMove then events else events.tail ++ [⟨type, data1, data2⟩]
  else events ++ [⟨type, data1, data2⟩]

inductive EventCall
  | push (type : GuiEventType) (data1 data2 : Int)
  | pop

/-- What a call returns, and the list after it. -/
def eventsCall (events : List GuiEvent) : EventCall → Option GuiEvent × List GuiEvent
  | .push type data1 data2 => (none, eventsPush type data1 data2 events)
  | .pop => (events.head?, events.tail)

def EventRing.call (ring : EventRing) : EventCall → Option GuiEvent × EventRing
  | .push type data1 data2 => (none, ring.pushEvent type data1 data2)
  | .pop =>
    match ring.popEvent with
    | none => (none, ring)
    | some (event, ring) => (some event, ring)

/-- The calls one after the other, with what they return. -/
def eventsRun {σ : Type} (call : σ → EventCall → Option GuiEvent × σ) (s : σ) :
    List EventCall → List (Option GuiEvent) × σ
  | [] => ([], s)
  | c :: calls => ((call s c).1 :: (eventsRun call (call s c).2 calls).1, (eventsRun call (call s c).2 calls).2)

variable {ring : EventRing} {type : GuiEventType} {data1 data2 : Int}

namespace EventRing

@[simp] theorem length_contents (ring : EventRing) : ring.contents.length = ring.count := by
  simp [contents]

theorem Ok.prev {n : Nat} (hok : ring.Ok) (hn : ring.count = n + 1) :
    ring.prev = (ring.head + n) % guiEventQueueSize := by
  have := hok.head
  rw [EventRing.prev, hok.tail, hn]
  unfold guiEventQueueSize at *
  split <;> omega

/-- The event before the tail is the last one. -/
theorem getLast?_contents (hok : ring.Ok) (hcount : 0 < ring.count) : ring.contents.getLast? =
    some (ring.events ring.prev) := by
  obtain ⟨n, hn⟩ : ∃ n, ring.count = n + 1 := ⟨ring.count - 1, by omega⟩
  rw [hok.prev hn, contents, hn, List.range_succ, List.map_append]
  simp

/-- An event at the tail of a ring that is not full. -/
theorem contents_append (hok : ring.Ok) (hcount : ring.count < guiEventQueueSize) (event : GuiEvent) (tail : Nat) :
    contents ⟨Function.update ring.events ring.tail event, ring.head, tail, ring.count + 1⟩ =
      ring.contents ++ [event] := by
  have hothers : ∀ k < ring.count, (ring.head + k) % guiEventQueueSize ≠ ring.tail := by
    intro k hk
    have := hok.head
    rw [hok.tail]
    unfold guiEventQueueSize at *
    omega
  simp only [contents, List.range_succ, List.map_append, List.map_singleton, ← hok.tail, Function.update_self]
  congr 1
  refine List.map_congr_left fun k hk => ?_
  exact Function.update_of_ne (hothers k (List.mem_range.mp hk)) ..

/-- A ring without its oldest event. -/
theorem contents_tail (hcount : 0 < ring.count) (tail : Nat) :
    contents ⟨ring.events, (ring.head + 1) % guiEventQueueSize, tail, ring.count - 1⟩ = ring.contents.tail := by
  obtain ⟨n, hn⟩ : ∃ n, ring.count = n + 1 := ⟨ring.count - 1, by omega⟩
  simp only [contents, hn, List.range_succ_eq_map, List.map_cons, List.tail_cons, List.map_map, Nat.add_sub_cancel]
  refine List.map_congr_left fun k _ => ?_
  simp only [Function.comp_apply, guiEventQueueSize]
  congr 1
  omega

theorem Ok.drop (hok : ring.Ok) (hcount : 0 < ring.count) :
    Ok ⟨ring.events, (ring.head + 1) % guiEventQueueSize, ring.tail, ring.count - 1⟩ := by
  obtain ⟨hhead, hle, htail⟩ := hok
  refine ⟨Nat.mod_lt _ (by decide), ?_, ?_⟩
  · dsimp only
    omega
  · dsimp only
    rw [htail]
    unfold guiEventQueueSize at *
    omega

theorem Ok.append (hok : ring.Ok) (hcount : ring.count < guiEventQueueSize) (events : Nat → GuiEvent) :
    Ok ⟨events, ring.head, (ring.tail + 1) % guiEventQueueSize, ring.count + 1⟩ := by
  obtain ⟨hhead, hle, htail⟩ := hok
  refine ⟨hhead, hcount, ?_⟩
  dsimp only
  rw [htail]
  unfold guiEventQueueSize at *
  omega

/-- A mouse move replaces the last event. -/
theorem contents_replace (hok : ring.Ok) (hcount : 0 < ring.count) (event : GuiEvent) :
    contents { ring with events := Function.update ring.events ring.prev event } =
      ring.contents.dropLast ++ [event] := by
  obtain ⟨n, hn⟩ : ∃ n, ring.count = n + 1 := ⟨ring.count - 1, by omega⟩
  have hle := hok.count
  have hprev := hok.prev hn
  have hothers : ∀ k < n, (ring.head + k) % guiEventQueueSize ≠ (ring.head + n) % guiEventQueueSize := by
    intro k hk
    unfold guiEventQueueSize at *
    omega
  simp only [contents, hn, hprev, List.range_succ, List.map_append, List.map_singleton, Function.update_self,
    List.dropLast_concat]
  congr 1
  refine List.map_congr_left fun k hk => ?_
  exact Function.update_of_ne (hothers k (List.mem_range.mp hk)) ..

theorem pushEvent_ok (type : GuiEventType) (data1 data2 : Int) (hok : ring.Ok) : (ring.pushEvent type data1 data2).Ok ∧
    (ring.pushEvent type data1 data2).contents = eventsPush type data1 data2 ring.contents := by
  unfold pushEvent eventsPush
  dsimp only
  by_cases hlast : type = .mouseMove ∧ 0 < ring.count ∧ (ring.events ring.prev).type = .mouseMove
  · obtain ⟨rfl, hcount, hmove⟩ := hlast
    rw [if_pos ⟨rfl, hcount, hmove⟩, getLast?_contents hok hcount, if_pos (by simp [hmove]),
      contents_replace hok hcount]
    refine ⟨⟨hok.head, hok.count, hok.tail⟩, ?_⟩
    rw [← hmove]
  rw [if_neg hlast]
  have hlist : ¬ (type = .mouseMove ∧ ring.contents.getLast?.any (·.type = .mouseMove) = true) := by
    rintro ⟨htype, hany⟩
    have hcount : 0 < ring.count := by
      by_contra hzero
      rw [List.length_eq_zero_iff.mp (by rw [length_contents]; omega : ring.contents.length = 0)] at hany
      simp at hany
    rw [getLast?_contents hok hcount] at hany
    exact hlast ⟨htype, hcount, by simpa using hany⟩
  rw [if_neg hlist, length_contents]
  by_cases hfull : guiEventQueueSize ≤ ring.count
  · have hpos : 0 < ring.count := Nat.lt_of_lt_of_le (by decide) hfull
    by_cases htype : type = .mouseMove
    · rw [if_pos ⟨hfull, htype⟩, if_pos hfull, if_pos htype]
      exact ⟨hok, rfl⟩
    · rw [if_neg fun h => htype h.2, if_pos hfull, if_pos hfull, if_neg htype]
      -- the ring without its oldest event is not full
      have hdrop := hok.drop hpos
      have hless : ring.count - 1 < guiEventQueueSize := by
        have := hok.count
        omega
      refine ⟨hdrop.append hless _, ?_⟩
      rw [← contents_tail hpos ring.tail]
      exact contents_append hdrop hless _ _
  · rw [if_neg fun h => hfull h.1, if_neg hfull, if_neg hfull]
    exact ⟨hok.append (by omega) _, contents_append hok (by omega) _ _⟩

theorem popEvent_ok (hok : ring.Ok) : (ring.popEvent = none ∧ ring.contents = []) ∨
    ∃ event ring', ring.popEvent = some (event, ring') ∧ ring'.Ok ∧ ring.contents = event :: ring'.contents := by
  unfold popEvent
  by_cases hcount : ring.count = 0
  · rw [if_pos hcount]
    exact .inl ⟨rfl, List.length_eq_zero_iff.mp (by rw [length_contents, hcount])⟩
  · rw [if_neg hcount]
    have hpos : 0 < ring.count := by omega
    refine .inr ⟨_, _, rfl, hok.drop hpos, ?_⟩
    rw [contents_tail hpos]
    obtain ⟨n, hn⟩ : ∃ n, ring.count = n + 1 := ⟨ring.count - 1, by omega⟩
    have hhead : ring.head % guiEventQueueSize = ring.head := Nat.mod_eq_of_lt hok.head
    simp [contents, hn, List.range_succ_eq_map, hhead]

theorem call_ok (hok : ring.Ok) (c : EventCall) : (ring.call c).2.Ok ∧
    (ring.call c).1 = (eventsCall ring.contents c).1 ∧
    (ring.call c).2.contents = (eventsCall ring.contents c).2 := by
  cases c with
  | push type data1 data2 =>
    obtain ⟨hok', hcontents⟩ := pushEvent_ok type data1 data2 hok
    exact ⟨hok', rfl, hcontents⟩
  | pop =>
    unfold call eventsCall
    rcases popEvent_ok hok with ⟨hnone, hempty⟩ | ⟨event, ring', hsome, hok', hcontents⟩
    · simp [hnone, hempty, hok]
    · simp [hsome, hcontents, hok']

end EventRing

/-- From the empty ring on, any calls return what they return on the list, and the ring then has the list in
it, with the tail where the head and the count say. -/
theorem ringRun_refines (events : Nat → GuiEvent) (calls : List EventCall) :
    (eventsRun EventRing.call (.empty events) calls).1 = (eventsRun eventsCall [] calls).1 ∧
    (eventsRun EventRing.call (.empty events) calls).2.contents = (eventsRun eventsCall [] calls).2 ∧
    (eventsRun eventsCall [] calls).2.length ≤ guiEventQueueSize ∧
    ((eventsRun EventRing.call (.empty events) calls).2.head +
      (eventsRun EventRing.call (.empty events) calls).2.count) %
      guiEventQueueSize = (eventsRun EventRing.call (.empty events) calls).2.tail := by
  have hrun : ∀ (calls : List EventCall) (ring : EventRing), ring.Ok →
      (eventsRun EventRing.call ring calls).1 = (eventsRun eventsCall ring.contents calls).1 ∧
      (eventsRun EventRing.call ring calls).2.contents = (eventsRun eventsCall ring.contents calls).2 ∧
      (eventsRun EventRing.call ring calls).2.Ok := by
    intro calls
    induction calls with
    | nil => exact fun ring hok => ⟨rfl, rfl, hok⟩
    | cons c calls ih =>
      intro ring hok
      obtain ⟨hok', hout, hcontents⟩ := EventRing.call_ok hok c
      obtain ⟨houts, hfinal, hokFinal⟩ := ih _ hok'
      rw [hcontents] at houts hfinal
      simp only [eventsRun, hout, houts, hfinal, true_and]
      exact hokFinal
  have hok : (EventRing.empty events).Ok := ⟨Nat.zero_lt_succ _, Nat.zero_le _, rfl⟩
  obtain ⟨houts, hcontents, hokFinal⟩ := hrun calls _ hok
  have hempty : (EventRing.empty events).contents = [] := rfl
  rw [hempty] at houts hcontents
  refine ⟨houts, hcontents, ?_, hokFinal.tail.symm⟩
  rw [← hcontents, EventRing.length_contents]
  exact hokFinal.count

/-- The window with the list does what a window with the ring does. -/
theorem ring_window {window : Window} (hused : window.used = true) (hok : ring.Ok)
    (hring : ring.contents = window.events) :
    (ring.pushEvent type data1 data2).contents = (guiWindowPushEvent type data1 data2 window).events ∧
      ring.popEvent.map (fun r => (r.1, r.2.contents)) = (guiWindowPopEvent window).map fun r => (r.1, r.2.events) := by
  constructor
  · rw [(EventRing.pushEvent_ok type data1 data2 hok).2, hring]
    simp only [guiWindowPushEvent, eventsPush, hused]
    grind
  · simp only [guiWindowPopEvent, hused]
    rcases EventRing.popEvent_ok hok with ⟨hnone, hempty⟩ | ⟨event, ring', hsome, -, hcontents⟩
    · simp [hnone, ← hring, hempty]
    · simp [hsome, ← hring, hcontents]

end Armonios
