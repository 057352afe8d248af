import Armonios.Gui.Keyboard

/-!
# Escape sequences

`input_inject_byte` of `drivers/input/input.c` makes keys of the bytes of the UART. The arrows and the page keys
are the sequences `ESC [ A` to `ESC [ D`, `ESC [ 5 ~` and `ESC [ 6 ~`, and the ESC is a key of its own.

* `EscUnits`: the bytes that are whole units, when they are read from the start;
* `resynchronises_iff`: behind these, and only behind these, a sequence is recognised.
-/

namespace Armonios

def inputKeyUp : UInt32 := 0x101
def inputKeyDown : UInt32 := 0x102
def inputKeyLeft : UInt32 := 0x103
def inputKeyRight : UInt32 := 0x104
def inputKeyPgup : UInt32 := 0x105
def inputKeyPgdn : UInt32 := 0x106

/-- The states of the parser, `ESC_STATE_IDLE` and so on. -/
inductive EscState
  | idle | gotEsc | gotBracket | gotBracketDigit
  deriving DecidableEq, Repr

/-- The statics of `input.c`. -/
structure InputDriver where
  queue : InputQueue
  escState : EscState
  escDiscard : UInt8

/-- After `input_queue_init`, with the parser as the image has it. -/
def InputDriver.init (slots : Nat → InputEvent) : InputDriver := ⟨⟨slots, 0, 0, 0⟩, .idle, 0⟩

def pushKeyEvent (key : UInt32) (s : InputDriver) : InputDriver :=
  { s with queue := (inputQueuePush (.keyPress key) s.queue).getD s.queue }

def pushEscapeKey (direction : UInt8) (s : InputDriver) : InputDriver :=
  if direction = 65 then pushKeyEvent inputKeyUp s
  else if direction = 66 then pushKeyEvent inputKeyDown s
  else if direction = 67 then pushKeyEvent inputKeyRight s
  else if direction = 68 then pushKeyEvent inputKeyLeft s
  else s

def pushEscapeTilde (digit : UInt8) (s : InputDriver) : InputDriver :=
  if digit = 53 then pushKeyEvent inputKeyPgup s
  else if digit = 54 then pushKeyEvent inputKeyPgdn s
  else s

/-- `input_inject_byte` for a byte; it always returns 0. -/
def inputInjectByte (c : UInt8) (s : InputDriver) : InputDriver :=
  match s.escState with
  | .idle =>
    if c = 0x1B then pushKeyEvent c.toUInt32 { s with escState := .gotEsc } else pushKeyEvent c.toUInt32 s
  | .gotEsc =>
    if c = 91 then { s with escState := .gotBracket }
    else if c = 0x1B then pushKeyEvent c.toUInt32 { s with escState := .gotEsc }
    else pushKeyEvent c.toUInt32 { s with escState := .idle }
  | .gotBracket =>
    if 48 ≤ c ∧ c ≤ 57 then { s with escState := .gotBracketDigit, escDiscard := c }
    else pushEscapeKey c { s with escState := .idle }
  | .gotBracketDigit =>
    if c = 126 then pushEscapeTilde s.escDiscard { s with escState := .idle } else { s with escState := .idle }

/-- What happens to the statics: a byte, an event of another driver, or a reader that takes an event. -/
inductive InputAct
  | inject (c : UInt8)
  | push (event : InputEvent)
  | poll

def InputAct.step (s : InputDriver) : InputAct → InputDriver
  | inject c => inputInjectByte c s
  | push event => { s with queue := (inputQueuePush event s.queue).getD s.queue }
  | poll => { s with queue := ((inputQueuePoll s.queue).map (·.2)).getD s.queue }

/-- The bytes of a history. -/
def InputAct.byte : InputAct → Option UInt8
  | inject c => some c
  | _ => none

/-- The keys that are sent as a sequence. -/
inductive EscapeKey
  | up | down | right | left | pgup | pgdn

def EscapeKey.bytes : EscapeKey → List UInt8
  | up => [0x1B, 91, 65]
  | down => [0x1B, 91, 66]
  | right => [0x1B, 91, 67]
  | left => [0x1B, 91, 68]
  | pgup => [0x1B, 91, 53, 126]
  | pgdn => [0x1B, 91, 54, 126]

def EscapeKey.code : EscapeKey → UInt32
  | up => inputKeyUp
  | down => inputKeyDown
  | right => inputKeyRight
  | left => inputKeyLeft
  | pgup => inputKeyPgup
  | pgdn => inputKeyPgdn

/-- The sequence is recognised: its key is the last event, and but for the ESC none of its bytes is a key. -/
def Recognised (key : EscapeKey) (s : InputDriver) : Prop :=
  let s' := key.bytes.foldl (fun s c => inputInjectByte c s) s
  s'.escState = .idle ∧ ∃ events, s'.queue.waiting = s.queue.waiting ++ events ∧
    events.getLast? = some (.keyPress key.code) ∧ ∀ c ∈ key.bytes.tail, .keyPress c.toUInt32 ∉ events

/-- The bytes are units: a byte by itself, or `ESC [` with the one or two bytes that belong to it. -/
inductive EscUnits : List UInt8 → Prop
  | nil : EscUnits []
  | byte {c : UInt8} {p : List UInt8} (h : c ≠ 0x1B) : EscUnits p → EscUnits (c :: p)
  | esc {p : List UInt8} (h : p.head? ≠ some 91) : EscUnits p → EscUnits (0x1B :: p)
  | letter {c : UInt8} {p : List UInt8} (h : ¬(48 ≤ c ∧ c ≤ 57)) : EscUnits p → EscUnits (0x1B :: 91 :: c :: p)
  | digit {c d : UInt8} {p : List UInt8} (h : 48 ≤ c ∧ c ≤ 57) : EscUnits p → EscUnits (0x1B :: 91 :: c :: d :: p)

/-! ## The parser -/

namespace EscState

def next (state : EscState) (c : UInt8) : EscState :=
  match state with
  | .idle => if c = 0x1B then .gotEsc else .idle
  | .gotEsc => if c = 91 then .gotBracket else if c = 0x1B then .gotEsc else .idle
  | .gotBracket => if 48 ≤ c ∧ c ≤ 57 then .gotBracketDigit else .idle
  | .gotBracketDigit => .idle

/-- `g_esc_discard` behind a byte. -/
def stash (state : EscState) (discard c : UInt8) : UInt8 :=
  match state with
  | .gotBracket => if 48 ≤ c ∧ c ≤ 57 then c else discard
  | _ => discard

/-- The keys that a byte gives. -/
def keys (state : EscState) (discard c : UInt8) : List UInt32 :=
  match state with
  | .idle => [c.toUInt32]
  | .gotEsc => if c = 91 then [] else [c.toUInt32]
  | .gotBracket =>
    if 48 ≤ c ∧ c ≤ 57 then []
    else if c = 65 then [inputKeyUp] else if c = 66 then [inputKeyDown]
    else if c = 67 then [inputKeyRight] else if c = 68 then [inputKeyLeft] else []
  | .gotBracketDigit =>
    if c = 126 then if discard = 53 then [inputKeyPgup] else if discard = 54 then [inputKeyPgdn] else [] else []

/-- The keys of several bytes. -/
def keysOf (state : EscState) (discard : UInt8) : List UInt8 → List UInt32
  | [] => []
  | c :: bytes => state.keys discard c ++ (state.next c).keysOf (state.stash discard c) bytes

end EscState

def pushKeys (keys : List UInt32) (s : InputDriver) : InputDriver := keys.foldl (fun s key => pushKeyEvent key s) s

variable {s : InputDriver} {c discard : UInt8} {key : EscapeKey} {state : EscState} {p : List UInt8}

theorem pushEscapeKey_eq (c : UInt8) (s : InputDriver) :
    pushEscapeKey c s = pushKeys (if c = 65 then [inputKeyUp] else if c = 66 then [inputKeyDown]
      else if c = 67 then [inputKeyRight] else if c = 68 then [inputKeyLeft] else []) s := by
  unfold pushEscapeKey
  repeat' split
  all_goals rfl

theorem pushEscapeTilde_eq (c : UInt8) (s : InputDriver) :
    pushEscapeTilde c s = pushKeys (if c = 53 then [inputKeyPgup] else if c = 54 then [inputKeyPgdn] else []) s := by
  unfold pushEscapeTilde
  repeat' split
  all_goals rfl

/-- A byte, as what it does to the parser and the keys that it pushes. -/
theorem inputInjectByte_eq (c : UInt8) (s : InputDriver) :
    inputInjectByte c s = pushKeys (s.escState.keys s.escDiscard c)
      ⟨s.queue, s.escState.next c, s.escState.stash s.escDiscard c⟩ := by
  obtain ⟨queue, state, discard⟩ := s
  cases state with
  | idle =>
    simp only [inputInjectByte, EscState.keys, EscState.next, EscState.stash]
    by_cases hc : c = 0x1B
    · rw [if_pos hc, if_pos hc]
      rfl
    · rw [if_neg hc, if_neg hc]
      rfl
  | gotEsc =>
    simp only [inputInjectByte, EscState.keys, EscState.next, EscState.stash]
    by_cases hb : c = 91
    · rw [if_pos hb, if_pos hb, if_pos hb]
      rfl
    · rw [if_neg hb, if_neg hb, if_neg hb]
      by_cases hc : c = 0x1B
      · rw [if_pos hc, if_pos hc]
        rfl
      · rw [if_neg hc, if_neg hc]
        rfl
  | gotBracket =>
    simp only [inputInjectByte, EscState.keys, EscState.next, EscState.stash]
    by_cases hd : 48 ≤ c ∧ c ≤ 57
    · rw [if_pos hd, if_pos hd, if_pos hd, if_pos hd]
      rfl
    · rw [if_neg hd, if_neg hd, if_neg hd, if_neg hd, pushEscapeKey_eq]
  | gotBracketDigit =>
    simp only [inputInjectByte, EscState.keys, EscState.next, EscState.stash]
    by_cases hc : c = 126
    · rw [if_pos hc, if_pos hc, pushEscapeTilde_eq]
    · rw [if_neg hc, if_neg hc]
      rfl

theorem pushKeys_same (keys : List UInt32) (s : InputDriver) :
    (pushKeys keys s).escState = s.escState ∧ (pushKeys keys s).escDiscard = s.escDiscard := by
  induction keys generalizing s with
  | nil => exact ⟨rfl, rfl⟩
  | cons key keys ih => exact ih (pushKeyEvent key s)

theorem pushKeyEvent_waiting (hok : s.queue.Ok) (key : UInt32) : (pushKeyEvent key s).queue.Ok ∧
    (pushKeyEvent key s).queue.waiting =
      s.queue.waiting ++ if s.queue.waiting.length < inputEventQueueSize then [.keyPress key] else [] :=
  inputQueuePush_waiting hok (.keyPress key)

theorem pushKeys_ok (hok : s.queue.Ok) (keys : List UInt32) : (pushKeys keys s).queue.Ok := by
  induction keys generalizing s with
  | nil => exact hok
  | cons key keys ih => exact ih (pushKeyEvent_waiting hok key).1

theorem pushKeys_waiting (hok : s.queue.Ok) {keys : List UInt32}
    (hroom : s.queue.waiting.length + keys.length ≤ inputEventQueueSize) :
    (pushKeys keys s).queue.waiting = s.queue.waiting ++ keys.map .keyPress := by
  induction keys generalizing s with
  | nil => rw [List.map_nil, List.append_nil]; rfl
  | cons key keys ih =>
    obtain ⟨hok', hwaiting⟩ := pushKeyEvent_waiting hok key
    rw [List.length_cons] at hroom
    rw [if_pos (by omega)] at hwaiting
    have hrest := ih hok' (by rw [hwaiting, List.length_append, List.length_singleton]; omega)
    rw [pushKeys, List.foldl_cons, ← pushKeys, hrest, hwaiting, List.map_cons, List.append_assoc,
      List.singleton_append]

theorem keys_length (state : EscState) (discard c : UInt8) : (state.keys discard c).length ≤ 1 := by
  cases state with
  | idle => exact Nat.le_refl _
  | gotEsc =>
    simp only [EscState.keys]
    split <;> simp
  | gotBracket =>
    simp only [EscState.keys]
    repeat' split
    all_goals simp
  | gotBracketDigit =>
    simp only [EscState.keys]
    repeat' split
    all_goals simp

theorem injected_queue {bytes : List UInt8} (hok : s.queue.Ok)
    (hroom : s.queue.waiting.length + bytes.length ≤ inputEventQueueSize) :
    (bytes.foldl (fun s c => inputInjectByte c s) s).queue.waiting =
      s.queue.waiting ++ (s.escState.keysOf s.escDiscard bytes).map .keyPress := by
  induction bytes generalizing s with
  | nil => rw [EscState.keysOf, List.map_nil, List.append_nil]; rfl
  | cons c bytes ih =>
    have hone := keys_length s.escState s.escDiscard c
    rw [List.length_cons] at hroom
    let s₁ : InputDriver := ⟨s.queue, s.escState.next c, s.escState.stash s.escDiscard c⟩
    have hpushed : (pushKeys (s.escState.keys s.escDiscard c) s₁).queue.waiting =
        s.queue.waiting ++ (s.escState.keys s.escDiscard c).map .keyPress :=
      pushKeys_waiting (s := s₁) hok (by show s.queue.waiting.length + _ ≤ _; omega)
    have hrest := ih (s := pushKeys (s.escState.keys s.escDiscard c) s₁) (pushKeys_ok (s := s₁) hok _) (by
      rw [hpushed, List.length_append, List.length_map]
      omega)
    obtain ⟨hstate, hdiscard⟩ := pushKeys_same (s.escState.keys s.escDiscard c) s₁
    rw [hpushed, hstate, hdiscard] at hrest
    rw [List.foldl_cons, inputInjectByte_eq, hrest, EscState.keysOf, List.map_append, List.append_assoc]

theorem injected_state (bytes : List UInt8) (s : InputDriver) :
    (bytes.foldl (fun s c => inputInjectByte c s) s).escState = bytes.foldl EscState.next s.escState := by
  induction bytes generalizing s with
  | nil => rfl
  | cons c bytes ih =>
    rw [List.foldl_cons, List.foldl_cons, ih, inputInjectByte_eq, (pushKeys_same _ _).1]

/-! ## Recognition -/

/-- The parser is not behind an `ESC [`. -/
def EscState.Ready (state : EscState) : Prop := state = .idle ∨ state = .gotEsc

instance (state : EscState) : Decidable state.Ready := inferInstanceAs (Decidable (_ ∨ _))

theorem keysOf_ready (discard : UInt8) (h : state.Ready) (key : EscapeKey) :
    state.keysOf discard key.bytes = [0x1B, key.code] ∧ key.bytes.foldl EscState.next state = .idle := by
  rcases h with rfl | rfl
  · cases key <;> exact ⟨rfl, rfl⟩
  · cases key <;> exact ⟨rfl, rfl⟩

/-- The ESC ends the sequence that is open, and the bytes behind it are keys. -/
theorem keysOf_busy (h : ¬state.Ready) (key : EscapeKey) :
    state.keysOf discard key.bytes = key.bytes.tail.map (·.toUInt32) := by
  cases state with
  | idle => exact absurd (.inl rfl) h
  | gotEsc => exact absurd (.inr rfl) h
  | gotBracket => cases key <;> rfl
  | gotBracketDigit => cases key <;> rfl

/-- The codes of the sequences are no bytes. -/
theorem code_ne_byte (key : EscapeKey) (c : UInt8) : c.toUInt32 ≠ key.code := by
  intro h
  have hnat := congrArg UInt32.toNat h
  have hlt := c.toNat_lt
  rw [UInt8.toNat_toUInt32] at hnat
  have hbig : 256 ≤ key.code.toNat := by cases key <;> decide
  omega

theorem tail_ne_esc {c : UInt8} (h : c ∈ key.bytes.tail) : c.toUInt32 ≠ 0x1B := by
  intro heq
  have hnat := congrArg UInt32.toNat heq
  rw [UInt8.toNat_toUInt32] at hnat
  obtain rfl : c = 0x1B := UInt8.toNat_inj.mp hnat
  revert h
  cases key <;> decide

theorem recognised_iff (hok : s.queue.Ok)
    (hroom : s.queue.waiting.length + key.bytes.length ≤ inputEventQueueSize) :
    Recognised key s ↔ s.escState.Ready := by
  simp only [Recognised]
  rw [injected_queue hok hroom, injected_state]
  constructor
  · rintro ⟨-, events, hevents, -, hfree⟩
    refine Decidable.byContradiction fun hbusy => ?_
    have h91 : (91 : UInt8) ∈ key.bytes.tail := by cases key <;> decide
    rw [← List.append_cancel_left hevents, keysOf_busy hbusy] at hfree
    exact hfree 91 h91 (List.mem_map_of_mem (List.mem_map_of_mem h91))
  · intro hready
    obtain ⟨hkeys, hstate⟩ := keysOf_ready s.escDiscard hready key
    refine ⟨hstate, _, rfl, ?_, ?_⟩
    · rw [hkeys]
      rfl
    · intro c hc hmem
      rw [hkeys, List.map_cons, List.map_singleton, List.mem_pair] at hmem
      rcases hmem with hesc | hcode
      · exact tail_ne_esc hc (InputEvent.keyPress.inj hesc)
      · exact code_ne_byte key c (InputEvent.keyPress.inj hcode)

/-! ## Histories -/

theorem step_state (s : InputDriver) (act : InputAct) :
    (act.step s).escState = (act.byte.toList).foldl EscState.next s.escState := by
  cases act with
  | inject c => exact injected_state [c] s
  | push event => rfl
  | poll => rfl

theorem step_ok (hok : s.queue.Ok) (act : InputAct) : (act.step s).queue.Ok := by
  cases act with
  | inject c =>
    rw [InputAct.step, inputInjectByte_eq]
    exact pushKeys_ok (s := ⟨s.queue, s.escState.next c, s.escState.stash s.escDiscard c⟩) hok _
  | push event => exact (inputQueuePush_waiting hok event).1
  | poll =>
    show (((inputQueuePoll s.queue).map (·.2)).getD s.queue).Ok
    cases hpoll : inputQueuePoll s.queue with
    | none => exact hok
    | some taken => exact (Ring.pop_some hok hpoll).1

theorem run_state (acts : List InputAct) (s : InputDriver) :
    (acts.foldl InputAct.step s).escState = (acts.filterMap InputAct.byte).foldl EscState.next s.escState := by
  induction acts generalizing s with
  | nil => rfl
  | cons act acts ih =>
    rw [List.foldl_cons, ih, step_state]
    cases hbyte : act.byte with
    | none => rw [List.filterMap_cons_none hbyte]; rfl
    | some c => rw [List.filterMap_cons_some hbyte]; rfl

theorem run_ok (hok : s.queue.Ok) (acts : List InputAct) : (acts.foldl InputAct.step s).queue.Ok := by
  induction acts generalizing s with
  | nil => exact hok
  | cons act acts ih => exact ih (step_ok hok act)

theorem init_ok (slots : Nat → InputEvent) : (InputDriver.init slots).queue.Ok := 
  ⟨show 0 < inputEventQueueSize by decide, Nat.zero_le _, rfl⟩

/-! ## Units -/

/-- A byte other than `[` does the same behind an ESC as in the idle parser. -/
theorem next_gotEsc (h : c ≠ 91) : EscState.gotEsc.next c = EscState.idle.next c := if_neg h

theorem foldl_gotEsc (h : p.head? ≠ some 91) (hready : (p.foldl EscState.next .idle).Ready) :
    (p.foldl EscState.next .gotEsc).Ready := by
  cases p with
  | nil => exact .inr rfl
  | cons c p =>
    rw [List.foldl_cons, next_gotEsc fun hc => h (congrArg some hc)]
    exact hready

theorem EscUnits.ready (h : EscUnits p) : (p.foldl EscState.next .idle).Ready := by
  induction h with
  | nil => exact .inl rfl
  | @byte c p hc _ ih =>
    rw [List.foldl_cons, EscState.next, if_neg hc]
    exact ih
  | esc hhead _ ih => exact foldl_gotEsc hhead ih
  | @letter c p hc _ ih =>
    show (p.foldl EscState.next (if 48 ≤ c ∧ c ≤ 57 then .gotBracketDigit else .idle)).Ready
    rw [if_neg hc]
    exact ih
  | @digit c d p hc _ ih =>
    show (p.foldl EscState.next (EscState.next (if 48 ≤ c ∧ c ≤ 57 then .gotBracketDigit else .idle) d)).Ready
    rw [if_pos hc]
    exact ih

theorem escUnits_of_ready (p : List UInt8) (h : (p.foldl EscState.next .idle).Ready) : EscUnits p := by
  induction hlen : p.length using Nat.strong_induction_on generalizing p with
  | _ n ih =>
    subst hlen
    cases p with
    | nil => exact .nil
    | cons c p =>
      by_cases hc : c = 0x1B
      · subst hc
        by_cases hhead : p.head? = some 91
        · obtain ⟨p, rfl⟩ := List.head?_eq_some_iff.mp hhead
          -- `ESC [` alone leaves the parser busy, and so does a digit behind it
          cases p with
          | nil => exact absurd h (by simp [EscState.Ready, EscState.next])
          | cons c p =>
            rw [List.foldl_cons, List.foldl_cons, List.foldl_cons] at h
            by_cases hd : 48 ≤ c ∧ c ≤ 57
            · cases p with
              | nil => exact absurd h (by simp [EscState.Ready, EscState.next, hd])
              | cons d p =>
                refine .digit hd (ih _ (by simp only [List.length_cons]; omega) p ?_ rfl)
                have hstate : ((EscState.idle.next 0x1B).next 91).next c = .gotBracketDigit := if_pos hd
                rw [hstate] at h
                exact h
            · refine .letter hd (ih _ (by simp only [List.length_cons]; omega) p ?_ rfl)
              have hstate : ((EscState.idle.next 0x1B).next 91).next c = .idle := if_neg hd
              rw [hstate] at h
              exact h
        · refine .esc hhead (ih _ (by simp) p ?_ rfl)
          cases p with
          | nil => exact .inl rfl
          | cons d p =>
            rw [List.foldl_cons, ← next_gotEsc fun hd => hhead (congrArg some hd)]
            exact h
      · refine .byte hc (ih _ (by simp) p ?_ rfl)
        rw [List.foldl_cons, EscState.next, if_neg hc] at h
        exact h

/-- The sequence of a key behind a history of the queue. -/
theorem resynchronises_iff (slots : Nat → InputEvent) (acts : List InputAct) (key : EscapeKey)
    (hroom : (acts.foldl InputAct.step (.init slots)).queue.waiting.length + key.bytes.length ≤ inputEventQueueSize) :
    Recognised key (acts.foldl InputAct.step (.init slots)) ↔ EscUnits (acts.filterMap InputAct.byte) := by
  rw [recognised_iff (run_ok (init_ok slots) acts) hroom, run_state]
  exact ⟨escUnits_of_ready _, EscUnits.ready⟩

theorem resynchronises_pgup : Recognised .pgup
    (([.inject 97, .poll, .inject 0x1B] : List InputAct).foldl InputAct.step (.init fun _ => .keyPress 0)) :=
  (resynchronises_iff _ _ .pgup (by decide)).mpr (.byte (by decide) (.esc (by decide) .nil))

/-- A sequence that is cut behind its `[` takes the ESC of the next one. -/
theorem cut_sequence_lost : ¬∀ (acts : List InputAct) (key : EscapeKey),
    (acts.foldl InputAct.step (.init fun _ => .keyPress 0)).queue.waiting.length + key.bytes.length ≤ inputEventQueueSize →
    Recognised key (acts.foldl InputAct.step (.init fun _ => .keyPress 0)) := by
  intro hall
  have hroom : (([.inject 0x1B, .inject 91] : List InputAct).foldl InputAct.step
      (.init fun _ => .keyPress 0)).queue.waiting.length + EscapeKey.up.bytes.length ≤ inputEventQueueSize := by decide
  have hready := (recognised_iff (run_ok (init_ok _) _) hroom).mp (hall _ .up hroom)
  exact absurd hready (by decide)

end Armonios
