import Armonios.Lib.RingLog
import Armonios.Programs.ShellPath

/-!
# The window of the shell

`handle_key` and `render_log_view` of `programs/apps/shell.c`: the line that is typed, the lines that were submitted,
and the lines that the shell has emitted, of which the last sixteen are in a ring. Of what `dispatch` does only the
lines that it emits reach this part of the state; they are an input. A C string is the list of its bytes without the NUL.

* `handleKey_ok`: what a key does to the lines;
* `shellRun_views`: in every run the window shows the end of what was emitted, and the arrows bring back the last four
  submitted lines.
-/

namespace Armonios

abbrev ShellLine := List UInt8

def historyDepth : Nat := 4
def logDepth : Nat := 16
def displayLines : Nat := 10
def displayCols : Nat := 48

/-- What `strlcpy` leaves in a buffer. -/
def strlcpyText (size : Nat) (src : ShellLine) : ShellLine := src.take (size - 1)

/-- The part of `shell_state_t` that the window shows. -/
structure ShellWindow where
  line : ShellLine
  history : Nat → ShellLine
  historyCount : Nat
  historyCursor : Nat
  log : Nat → ShellLine
  logHead : Nat
  logCount : Nat
  scrollOffset : Nat

namespace ShellWindow

variable (s : ShellWindow)

/-- `memset` has set the state to zero. -/
def init : ShellWindow := ⟨[], fun _ => [], 0, 0, fun _ => [], 0, 0, 0⟩

def logPush (text : ShellLine) : ShellWindow :=
  { s with
    log := Function.update s.log s.logHead (strlcpyText shellLineCap text)
    logHead := (s.logHead + 1) % logDepth
    logCount := if s.logCount < logDepth then s.logCount + 1 else s.logCount }

def logRead (linesBack outSize : Nat) : ShellLine :=
  if s.logCount ≤ linesBack then []
  else strlcpyText outSize (s.log ((s.logHead + logDepth - 1 - linesBack) % logDepth))

def historyPush : ShellWindow :=
  if s.line = [] then s
  else if s.historyCount < historyDepth then
    { s with
      history := Function.update s.history s.historyCount (strlcpyText shellLineCap s.line)
      historyCount := s.historyCount + 1
      historyCursor := s.historyCount + 1 }
  else
    -- `memmove` of all lines but the first one
    let history := fun i => if i < historyDepth - 1 then s.history (i + 1) else s.history i
    { s with
      history := Function.update history (historyDepth - 1) (strlcpyText shellLineCap s.line)
      historyCursor := s.historyCount }

def historyLoad (i : Nat) : ShellWindow := { s with line := strlcpyText shellLineCap (s.history i) }

/-- A row of `render_log_view`. -/
def renderLogView (row : Nat) : ShellLine :=
  let linesBack := s.scrollOffset + (displayLines - 1 - row)
  if s.logCount ≤ linesBack then [] else s.logRead linesBack displayCols

def shellEmit (text : ShellLine) : ShellWindow :=
  let s := s.logPush text
  if 0 < s.scrollOffset then { s with scrollOffset := 0 } else s

/-- `handle_key`, where `dispatch` emits these lines, or ends the shell; `none` is the end. -/
def handleKey (dispatch : ShellLine → Option (List ShellLine)) (key : Int) : Option ShellWindow :=
  if key = 17 then none
  else if key = 0x101 then
    if 0 < s.historyCursor then
      some { s.historyLoad (s.historyCursor - 1) with historyCursor := s.historyCursor - 1 }
    else some s
  else if key = 0x102 then
    if s.historyCursor + 1 < s.historyCount then
      some { s.historyLoad (s.historyCursor + 1) with historyCursor := s.historyCursor + 1 }
    else if s.historyCursor + 1 = s.historyCount then some { s with historyCursor := s.historyCount, line := [] }
    else some s
  else if key = 0x105 then
    let maxOff := s.logCount - 1
    let next := s.scrollOffset + displayLines
    some { s with scrollOffset := if maxOff < next then maxOff else next }
  else if key = 0x106 then some { s with scrollOffset := s.scrollOffset - displayLines }
  else if key = 8 ∨ key = 127 then some { s with line := s.line.dropLast, scrollOffset := 0 }
  else if key = 13 ∨ key = 10 then
    (dispatch s.line).map fun lines =>
      { lines.foldl shellEmit (s.historyPush.shellEmit s.line) with line := [], scrollOffset := 0 }
  else if 32 ≤ key ∧ key ≤ 126 then
    let line := if s.line.length + 1 < shellLineCap then s.line ++ [UInt8.ofInt key] else s.line
    some { s with line, scrollOffset := 0 }
  else some s

end ShellWindow

/-! ## The lines of a run -/

/-- The window, all lines that were emitted, and all that were submitted and not empty. -/
structure ShellRun where
  window : ShellWindow
  emitted : List ShellLine
  submitted : List ShellLine

/-- A key, with what a command would emit. -/
abbrev ShellInput := (ShellLine → Option (List ShellLine)) × Int

/-- After `main` has emitted its first line. -/
def shellStart (ready : ShellLine) : ShellRun := ⟨ShellWindow.init.shellEmit ready, [ready], []⟩

def shellNext (r : ShellRun) (e : ShellInput) : Option ShellRun :=
  (r.window.handleKey e.1 e.2).map fun window =>
    if e.2 = 13 ∨ e.2 = 10 then
      let submits := if r.window.line = [] then [] else [r.window.line]
      ⟨window, r.emitted ++ r.window.line :: (e.1 r.window.line).getD [], r.submitted ++ submits⟩
    else { r with window }

/-- The last lines of a list. -/
def lastLines (n : Nat) (lines : List ShellLine) : List ShellLine := lines.drop (lines.length - n)

structure LogOk (s : ShellWindow) (emitted : List ShellLine) : Prop where
  held : HoldsLog logDepth s.log (emitted.map (strlcpyText shellLineCap)) (emitted.length - logDepth)
  head : s.logHead = emitted.length % logDepth
  count : s.logCount = min emitted.length logDepth
  scroll : s.scrollOffset ≤ s.logCount - 1

structure HistoryOk (s : ShellWindow) (submitted : List ShellLine) : Prop where
  lines : (List.range s.historyCount).map s.history = lastLines historyDepth submitted
  count : s.historyCount = min submitted.length historyDepth
  cursor : s.historyCursor ≤ s.historyCount
  short : ∀ line ∈ submitted, line.length < shellLineCap
  line : s.line.length < shellLineCap

section Lines

variable {s : ShellWindow} {emitted submitted : List ShellLine} {text : ShellLine}

theorem strlcpyText_eq {size : Nat} (h : text.length < size) : strlcpyText size text = text :=
  List.take_of_length_le (by omega)

/-- A line that is emitted is the last one. -/
theorem LogOk.emit (h : LogOk s emitted) (text : ShellLine) : LogOk (s.shellEmit text) (emitted ++ [text]) := by
  have hpush : LogOk { s.logPush text with scrollOffset := 0 } (emitted ++ [text]) := by
    have hcount := h.count
    refine ⟨?_, ?_, ?_, Nat.zero_le _⟩
    · have hcap : logDepth = 16 := rfl
      have hroom : (emitted.map (strlcpyText shellLineCap)).length < emitted.length + 1 - logDepth + logDepth := by
        rw [List.length_map]
        omega
      have hheld := (h.held.mono (by omega)).push hroom (strlcpyText shellLineCap text)
      rw [List.length_map, ← h.head] at hheld
      rwa [List.map_append, List.map_singleton, List.length_append, List.length_singleton]
    · simp only [ShellWindow.logPush, h.head, List.length_append, List.length_singleton, Nat.mod_add_mod]
    · simp only [ShellWindow.logPush, hcount, List.length_append, List.length_singleton]
      split <;> omega
  unfold ShellWindow.shellEmit
  dsimp only
  split
  · exact hpush
  · rename_i hzero
    have hscroll : (s.logPush text).scrollOffset = 0 := by omega
    have heq : { s.logPush text with scrollOffset := 0 } = s.logPush text := by rw [← hscroll]
    rwa [heq] at hpush

theorem LogOk.emits (h : LogOk s emitted) (lines : List ShellLine) :
    LogOk (lines.foldl ShellWindow.shellEmit s) (emitted ++ lines) := by
  induction lines generalizing s emitted with
  | nil => simpa using h
  | cons line lines ih =>
    have hlines := ih (h.emit line)
    rwa [List.append_assoc] at hlines

/-- The line that is so many lines back. -/
theorem LogOk.read (h : LogOk s emitted) {linesBack : Nat} (outSize : Nat) (hback : linesBack < s.logCount) :
    ∃ line, emitted.reverse[linesBack]? = some line ∧
      s.logRead linesBack outSize = strlcpyText outSize (strlcpyText shellLineCap line) := by
  have hcount := h.count
  have hcap : logDepth = 16 := rfl
  have hlt : linesBack < emitted.length := by omega
  have hget : (emitted.map (strlcpyText shellLineCap))[emitted.length - 1 - linesBack]? =
      some (strlcpyText shellLineCap emitted[emitted.length - 1 - linesBack]) := by
    rw [List.getElem?_map, List.getElem?_eq_getElem (by omega)]
    rfl
  refine ⟨emitted[emitted.length - 1 - linesBack], ?_, ?_⟩
  · rw [List.getElem?_reverse hlt, List.getElem?_eq_getElem]
  · have hslot := h.held _ _ (by omega) hget
    have hplace : (s.logHead + logDepth - 1 - linesBack) % logDepth = (emitted.length - 1 - linesBack) % logDepth := by
      rw [h.head, hcap]
      omega
    rw [ShellWindow.logRead, if_neg (by omega), hplace, hslot]

/-- The rows show the end of what was emitted, from the scroll offset on. -/
theorem LogOk.rows (h : LogOk s emitted) (row : Nat) : s.renderLogView row =
    if s.scrollOffset + (displayLines - 1 - row) < s.logCount then
      strlcpyText displayCols ((emitted.reverse[s.scrollOffset + (displayLines - 1 - row)]?).getD []) else [] := by
  unfold ShellWindow.renderLogView
  dsimp only
  by_cases hback : s.scrollOffset + (displayLines - 1 - row) < s.logCount
  · obtain ⟨line, hline, hread⟩ := h.read displayCols hback
    rw [if_neg (by omega), if_pos hback, hread, hline, Option.getD_some]
    exact List.take_take.trans (by rw [Nat.min_eq_left (by decide)]; rfl)
  · rw [if_pos (by omega), if_neg hback]

/-! ### The history -/

/-- The submitted line is the last one. -/
theorem lastLines_push (lines : List ShellLine) (line : ShellLine) :
    lastLines historyDepth (lines ++ [line]) =
      (if lines.length < historyDepth then lastLines historyDepth lines
        else (lastLines historyDepth lines).tail) ++ [line] := by
  have hcap : historyDepth = 4 := rfl
  unfold lastLines
  rw [List.length_append, List.length_singleton, List.drop_append_of_le_length (by omega)]
  split
  · rw [Nat.sub_eq_zero_of_le (by omega), Nat.sub_eq_zero_of_le (by omega)]
  · rw [List.tail_drop, Nat.sub_add_comm (by omega)]

theorem HistoryOk.push (h : HistoryOk s submitted) (hline : s.line ≠ []) :
    HistoryOk s.historyPush (submitted ++ [s.line]) := by
  have hcount := h.count
  have hcap : historyDepth = 4 := rfl
  have hcopy := strlcpyText_eq h.line
  have hshort : ∀ line ∈ submitted ++ [s.line], line.length < shellLineCap := fun line hmem => by
    rcases List.mem_append.1 hmem with hmem | hmem
    · exact h.short line hmem
    · rw [List.mem_singleton.1 hmem]
      exact h.line
  unfold ShellWindow.historyPush
  rw [if_neg hline]
  split
  · rename_i hroom
    refine ⟨?_, ?_, Nat.le_refl _, hshort, h.line⟩
    · dsimp only
      rw [lastLines_push, if_pos (by omega), ← h.lines, List.range_succ, List.map_append, List.map_singleton,
        Function.update_self, hcopy]
      congr 1
      refine List.map_congr_left fun i hi => Function.update_of_ne ?_ _ _
      exact Nat.ne_of_lt (List.mem_range.1 hi)
    · dsimp only
      rw [List.length_append, List.length_singleton]
      omega
  · rename_i hfull
    have hfour : s.historyCount = 4 := by omega
    refine ⟨?_, ?_, Nat.le_refl _, hshort, h.line⟩
    · rw [lastLines_push, if_neg (by omega), ← h.lines, hfour, hcopy]
      rfl
    · dsimp only
      rw [List.length_append, List.length_singleton]
      omega

theorem HistoryOk.emit (h : HistoryOk s submitted) (text : ShellLine) : HistoryOk (s.shellEmit text) submitted := by
  unfold ShellWindow.shellEmit
  dsimp only
  split <;> exact ⟨h.lines, h.count, h.cursor, h.short, h.line⟩

theorem HistoryOk.emits (h : HistoryOk s submitted) (lines : List ShellLine) :
    HistoryOk (lines.foldl ShellWindow.shellEmit s) submitted := by
  induction lines generalizing s with
  | nil => exact h
  | cons line lines ih => exact ih (h.emit line)

/-- A line of the history is one that was submitted. -/
theorem HistoryOk.mem (h : HistoryOk s submitted) {i : Nat} (hi : i < s.historyCount) : s.history i ∈ submitted := by
  have hmem : s.history i ∈ lastLines historyDepth submitted := by
    rw [← h.lines]
    exact List.mem_map_of_mem (List.mem_range.2 hi)
  exact List.mem_of_mem_drop hmem

/-- A load puts a line of the history in the place of the line. -/
theorem HistoryOk.load (h : HistoryOk s submitted) {i : Nat} (hi : i < s.historyCount) :
    HistoryOk { s.historyLoad i with historyCursor := i } submitted := by
  refine ⟨h.lines, h.count, Nat.le_of_lt hi, h.short, ?_⟩
  have hshort := h.short _ (h.mem hi)
  change (strlcpyText shellLineCap (s.history i)).length < shellLineCap
  rwa [strlcpyText_eq hshort]

/-! ### Keys -/

theorem HistoryOk.with_line (h : HistoryOk s submitted) {line : ShellLine} (hline : line.length < shellLineCap)
    (scrollOffset : Nat) : HistoryOk { s with line, scrollOffset } submitted :=
  ⟨h.lines, h.count, h.cursor, h.short, hline⟩

theorem LogOk.with_line (h : LogOk s emitted) (line : ShellLine) : LogOk { s with line, scrollOffset := 0 } emitted :=
  ⟨h.held, h.head, h.count, Nat.zero_le _⟩

/-- The history leaves the log alone. -/
theorem LogOk.historyPush (h : LogOk s emitted) : LogOk s.historyPush emitted := by
  unfold ShellWindow.historyPush
  split
  · exact h
  · split <;> exact ⟨h.held, h.head, h.count, h.scroll⟩

/-- What holds of the window and the lines. -/
structure ShellRunOk (r : ShellRun) : Prop where
  started : r.emitted ≠ []
  log : LogOk r.window r.emitted
  history : HistoryOk r.window r.submitted

theorem handleKey_enter (dispatch : ShellLine → Option (List ShellLine)) {key : Int} (h : key = 13 ∨ key = 10) :
    s.handleKey dispatch key = (dispatch s.line).map fun lines =>
      { lines.foldl ShellWindow.shellEmit (s.historyPush.shellEmit s.line) with line := [], scrollOffset := 0 } := by
  rcases h with rfl | rfl <;> rfl

/-- The keys that submit nothing. -/
theorem handleKey_other {dispatch : ShellLine → Option (List ShellLine)} {key : Int} {s' : ShellWindow}
    (hlog : LogOk s emitted) (hhistory : HistoryOk s submitted) (h : ¬(key = 13 ∨ key = 10))
    (hkey : s.handleKey dispatch key = some s') : LogOk s' emitted ∧ HistoryOk s' submitted := by
  have hcursor := hhistory.cursor
  unfold ShellWindow.handleKey at hkey
  rw [if_neg h] at hkey
  split_ifs at hkey with hexit hup hpast hdown hnext hlive hpgup hpgdn hback hprint
  · cases hkey
    exact ⟨⟨hlog.held, hlog.head, hlog.count, hlog.scroll⟩, hhistory.load (by omega)⟩
  · cases hkey
    exact ⟨hlog, hhistory⟩
  · cases hkey
    exact ⟨⟨hlog.held, hlog.head, hlog.count, hlog.scroll⟩, hhistory.load hnext⟩
  · cases hkey
    exact ⟨⟨hlog.held, hlog.head, hlog.count, hlog.scroll⟩, hhistory.lines, hhistory.count, Nat.le_refl _,
      hhistory.short, Nat.zero_lt_succ _⟩
  · cases hkey
    exact ⟨hlog, hhistory⟩
  · cases hkey
    refine ⟨⟨hlog.held, hlog.head, hlog.count, ?_⟩, hhistory.with_line hhistory.line _⟩
    dsimp only
    split <;> omega
  · cases hkey
    refine ⟨⟨hlog.held, hlog.head, hlog.count, ?_⟩, hhistory.with_line hhistory.line _⟩
    have hscroll := hlog.scroll
    dsimp only
    omega
  · cases hkey
    refine ⟨hlog.with_line _, hhistory.with_line ?_ 0⟩
    have hline := hhistory.line
    rw [List.length_dropLast]
    omega
  · cases hkey
    refine ⟨hlog.with_line _, hhistory.with_line ?_ 0⟩
    rw [List.length_append, List.length_singleton]
    assumption
  · cases hkey
    exact ⟨hlog.with_line _, hhistory.with_line hhistory.line 0⟩
  · cases hkey
    exact ⟨hlog, hhistory⟩

/-- What a key does to the lines. -/
theorem handleKey_ok {r r' : ShellRun} {e : ShellInput} (h : ShellRunOk r) (hnext : shellNext r e = some r') :
    ShellRunOk r' := by
  simp only [shellNext, Option.map_eq_some_iff] at hnext
  obtain ⟨window, hkey, rfl⟩ := hnext
  by_cases henter : e.2 = 13 ∨ e.2 = 10
  · rw [handleKey_enter _ henter, Option.map_eq_some_iff] at hkey
    obtain ⟨lines, hlines, rfl⟩ := hkey
    rw [if_pos henter, hlines]
    have hlog := (h.log.historyPush.emit r.window.line).emits lines
    rw [List.append_assoc] at hlog
    refine ⟨by simp, hlog.with_line [], ?_⟩
    have hpush : HistoryOk r.window.historyPush
        (r.submitted ++ if r.window.line = [] then [] else [r.window.line]) := by
      by_cases hempty : r.window.line = []
      · rw [if_pos hempty, List.append_nil, ShellWindow.historyPush, if_pos hempty]
        exact h.history
      · rw [if_neg hempty]
        exact h.history.push hempty
    exact ((hpush.emit r.window.line).emits lines).with_line (by decide) 0
  · rw [if_neg henter]
    obtain ⟨hlog, hhistory⟩ := handleKey_other h.log h.history henter hkey
    exact ⟨h.started, hlog, hhistory⟩

theorem ShellRunOk.run {r r' : ShellRun} {es : List ShellInput} (h : ShellRunOk r)
    (hrun : es.foldlM shellNext r = some r') : ShellRunOk r' := by
  induction es generalizing r with
  | nil =>
    cases hrun
    exact h
  | cons e es ih =>
    rw [List.foldlM_cons, Option.bind_eq_bind, Option.bind_eq_some_iff] at hrun
    obtain ⟨r'', hnext, hrun⟩ := hrun
    exact ih (handleKey_ok h hnext) hrun

theorem shellStart_ok (ready : ShellLine) : ShellRunOk (shellStart ready) := by
  have hlog : LogOk ShellWindow.init [] := ⟨fun k a _ ha => by simp at ha, rfl, rfl, Nat.le_refl 0⟩
  have hhistory : HistoryOk ShellWindow.init [] := ⟨rfl, rfl, Nat.le_refl 0, nofun, by decide⟩
  exact ⟨by simp [shellStart], hlog.emit ready, hhistory.emit ready⟩

end Lines

/-- In every run the rows of the window are the last lines that were emitted, from the scroll offset on, the history is
the last four lines that were submitted, and the line that is typed fits its buffer. -/
theorem shellRun_views (ready : ShellLine) (es : List ShellInput) {r : ShellRun}
    (hrun : es.foldlM shellNext (shellStart ready) = some r) :
    (∀ row, r.window.renderLogView row =
      if r.window.scrollOffset + (displayLines - 1 - row) < min r.emitted.length logDepth then
        strlcpyText displayCols ((r.emitted.reverse[r.window.scrollOffset + (displayLines - 1 - row)]?).getD [])
      else []) ∧
    r.window.scrollOffset < min r.emitted.length logDepth ∧
    (List.range r.window.historyCount).map r.window.history = lastLines historyDepth r.submitted ∧
    r.window.historyCursor ≤ r.window.historyCount ∧ r.window.line.length < shellLineCap := by
  obtain ⟨hstarted, hlog, hhistory⟩ := (shellStart_ok ready).run hrun
  refine ⟨fun row => ?_, ?_, hhistory.lines, hhistory.cursor, hhistory.line⟩
  · rw [hlog.rows, hlog.count]
  · have hscroll := hlog.scroll
    have hpos := List.length_pos_iff.2 hstarted
    have hcap : logDepth = 16 := rfl
    rw [hlog.count] at hscroll
    omega

/-- A command, and its line again. -/
def sampleKeys : List ShellInput := [(fun _ => none, 112), (fun _ => some [[79, 75]], 13), (fun _ => none, 0x101)]

theorem shellRun_views_sample : ∃ r, sampleKeys.foldlM shellNext (shellStart [82]) = some r ∧
    r.window.scrollOffset < min r.emitted.length logDepth ∧
    (List.range r.window.historyCount).map r.window.history = lastLines historyDepth r.submitted := by
  have hsome : (sampleKeys.foldlM shellNext (shellStart [82])).isSome := by decide
  obtain ⟨-, hscroll, hlines, -⟩ := shellRun_views [82] sampleKeys (Option.some_get hsome).symm
  exact ⟨_, (Option.some_get hsome).symm, hscroll, hlines⟩

end Armonios
