import Armonios.Lib.Caret
import Armonios.Programs.Editor
import Armonios.Vfs.Backends

/-!
# The text of the editor

`editor_insert` and `editor_backspace` of `programs/apps/editor.c`, and what the keys do to the text and the caret.

* `EditorState.text_insert`, `EditorState.text_backspace`: the shifts of the buffer are an insertion and a deletion;
* `lineStart_eq`, `lineEnd_eq`: the scans find the line of the caret;
* `editor_refines_text`: from a loaded file, the buffer is a text with a caret.
-/

namespace Armonios

namespace EditorState

/-- The loop of `editor_insert`, which goes down to the caret; `n` characters are still to be shifted. -/
def shiftUp (caret : Nat) : Nat → Vector UInt8 editorFileCap → Vector UInt8 editorFileCap
  | 0, file => file
  | n + 1, file => shiftUp caret n (file.setIfInBounds (caret + n + 1) (file[caret + n]?.getD 0))

/-- The loop of `editor_backspace` from `i` on. -/
def shiftDown : Nat → Nat → Vector UInt8 editorFileCap → Vector UInt8 editorFileCap
  | 0, _, file => file
  | n + 1, i, file => shiftDown n (i + 1) (file.setIfInBounds i (file[i + 1]?.getD 0))

def insert (c : UInt8) (e : EditorState) : Bool × EditorState :=
  if editorFileCap ≤ e.fileLen + 1 then (false, e)
  else
    let file := (shiftUp e.caret (e.fileLen - e.caret) e.file).setIfInBounds e.caret c
    (true, { e with
      file := file.setIfInBounds (e.fileLen + 1) 0
      fileLen := e.fileLen + 1
      caret := e.caret + 1 })

def backspace (e : EditorState) : Bool × EditorState :=
  if e.caret = 0 then (false, e)
  else
    let file := shiftDown (e.fileLen - 1 - (e.caret - 1)) (e.caret - 1) e.file
    (true, { e with
      file := file.setIfInBounds (e.fileLen - 1) 0
      fileLen := e.fileLen - 1
      caret := e.caret - 1 })

/-- What a key does to the text. -/
inductive Edit
  | insert (c : UInt8)
  | backspace
  | move (way : Move)

def edit (e : EditorState) : Edit → EditorState
  | .insert c => (e.insert c).2
  | .backspace => e.backspace.2
  | .move way => e.move way

/-- The caret is in the text, and behind the text there is room for the NUL. -/
structure Fits (e : EditorState) : Prop where
  caret_le : e.caret ≤ e.fileLen
  fileLen_lt : e.fileLen < editorFileCap

variable {e : EditorState} {c : UInt8} {before line after : List UInt8} {caret col i n : Nat}
  {file : Vector UInt8 editorFileCap}

/-! ## The shifts -/

theorem get_file (h : i < editorFileCap) : file[i]? = some (file[i]?.getD 0) := by
  rw [Vector.getElem?_eq_getElem h, Option.getD_some]

theorem shiftUp_get (h : caret + n < editorFileCap) :
    (shiftUp caret n file)[i]? = if caret < i ∧ i ≤ caret + n then file[i - 1]? else file[i]? := by
  induction n generalizing file with
  | zero => rw [shiftUp, if_neg (by omega)]
  | succ n ih =>
    rw [shiftUp, ih (by omega)]
    by_cases hi : i = caret + n + 1
    · subst hi
      rw [if_neg (by omega), if_pos (by omega), Vector.getElem?_setIfInBounds_self_of_lt (by omega),
        Nat.add_sub_cancel]
      exact (get_file (by omega)).symm
    · rw [Vector.getElem?_setIfInBounds_ne (Ne.symm hi)]
      by_cases hin : caret < i ∧ i ≤ caret + n
      · rw [if_pos hin, if_pos (by omega), Vector.getElem?_setIfInBounds_ne (by omega)]
      · rw [if_neg hin, if_neg (by omega)]

theorem shiftDown_get {j : Nat} (h : j + n < editorFileCap) :
    (shiftDown n j file)[i]? = if j ≤ i ∧ i < j + n then file[i + 1]? else file[i]? := by
  induction n generalizing j file with
  | zero => rw [shiftDown, if_neg (by omega)]
  | succ n ih =>
    rw [shiftDown, ih (by omega)]
    by_cases hi : i = j
    · subst hi
      rw [if_neg (by omega), if_pos (by omega), Vector.getElem?_setIfInBounds_self_of_lt (by omega)]
      exact (get_file (by omega)).symm
    · rw [Vector.getElem?_setIfInBounds_ne (Ne.symm hi)]
      by_cases hin : j + 1 ≤ i ∧ i < j + 1 + n
      · rw [if_pos hin, if_pos (by omega), Vector.getElem?_setIfInBounds_ne (by omega)]
      · rw [if_neg hin, if_neg (by omega)]

/-! ## The text -/

theorem text_get : e.text[i]? = if i < e.fileLen then e.file[i]? else none := by
  rw [text, List.getElem?_take, Vector.getElem?_toList]

theorem Fits.length (h : e.Fits) : e.text.length = e.fileLen := by
  rw [text, List.length_take, Vector.length_toList]
  exact Nat.min_eq_left h.fileLen_lt.le

theorem insert_full (h : e.fileLen = 511) : e.insert c = (false, e) := by
  rw [insert, if_pos (by rw [h]; decide)]

theorem insert_room (h : e.Fits) (hroom : e.fileLen ≠ 511) : (e.insert c).1 = true ∧
    (e.insert c).2.caret = e.caret + 1 ∧ (e.insert c).2.fileLen = e.fileLen + 1 := by
  have hlt := h.fileLen_lt
  unfold editorFileCap at hlt
  rw [insert, if_neg (by unfold editorFileCap; omega)]
  exact ⟨rfl, rfl, rfl⟩

theorem text_insert (h : e.Fits) (hroom : e.fileLen ≠ 511) :
    (e.insert c).2.text = e.text.insertIdx e.caret c := by
  have hlt := h.fileLen_lt
  have hcaret := h.caret_le
  have hlen := h.length
  have hroom' : ¬editorFileCap ≤ e.fileLen + 1 := by
    unfold editorFileCap at hlt ⊢
    omega
  refine List.ext_getElem? fun i => ?_
  rw [text_get, List.getElem?_insertIdx, insert, if_neg hroom']
  show (if i < e.fileLen + 1 then (Vector.setIfInBounds _ (e.fileLen + 1) 0)[i]? else none) = _
  by_cases hi : i < e.fileLen + 1
  · rw [if_pos hi, Vector.getElem?_setIfInBounds_ne (by omega)]
    by_cases hat : i = e.caret
    · rw [hat, Vector.getElem?_setIfInBounds_self_of_lt (by omega), if_neg (by omega), if_pos rfl,
        if_pos (by omega)]
    · rw [Vector.getElem?_setIfInBounds_ne (Ne.symm hat), shiftUp_get (by omega)]
      by_cases hbelow : i < e.caret
      · rw [if_neg (by omega), if_pos hbelow, text_get, if_pos (by omega)]
      · rw [if_pos (by omega), if_neg hbelow, if_neg hat, text_get, if_pos (by omega)]
  · rw [if_neg hi, if_neg (by omega), if_neg (by omega), text_get, if_neg (by omega)]

theorem backspace_start (h : e.caret = 0) : e.backspace = (false, e) := by
  rw [backspace, if_pos h]

theorem backspace_behind (h : e.caret ≠ 0) : e.backspace.1 = true ∧ e.backspace.2.caret = e.caret - 1 ∧
    e.backspace.2.fileLen = e.fileLen - 1 := by
  rw [backspace, if_neg h]
  exact ⟨rfl, rfl, rfl⟩

theorem text_backspace (h : e.Fits) (hcaret : e.caret ≠ 0) : e.backspace.2.text = e.text.eraseIdx (e.caret - 1) := by
  have hlt := h.fileLen_lt
  have hle := h.caret_le
  refine List.ext_getElem? fun i => ?_
  rw [text_get, List.getElem?_eraseIdx, backspace, if_neg hcaret]
  show (if i < e.fileLen - 1 then (Vector.setIfInBounds _ (e.fileLen - 1) 0)[i]? else none) = _
  by_cases hi : i < e.fileLen - 1
  · rw [if_pos hi, Vector.getElem?_setIfInBounds_ne (by omega), shiftDown_get (by omega)]
    by_cases hbelow : i < e.caret - 1
    · rw [if_neg (by omega), if_pos hbelow, text_get, if_pos (by omega)]
    · rw [if_pos (by omega), if_neg hbelow, text_get, if_pos (by omega)]
  · rw [if_neg hi, if_neg (by omega), text_get, if_neg (by omega)]

/-! ## The line of the caret -/

theorem file_get (hi : i < e.fileLen) : e.file[i]? = e.text[i]? := by
  rw [text_get, if_pos hi]

theorem lineStart_eq (hfits : e.Fits) (h : CaretAt 10 e.text caret before line after col) :
    e.lineStart caret = before.length := by
  have hcol := h.col_le
  have hle := h.caret_le
  have htext := congrArg List.length h.text_eq
  rw [List.length_append, List.length_append] at htext
  rw [hfits.length] at hle htext
  rw [lineStart, Nat.min_eq_left hle, h.caret_eq]
  -- the last newline below the caret ends `before`, and in the line there is none
  have hscan : ∀ n ≤ line.length, (List.range (before.length + n)).foldl
      (fun start i => if e.file[i]? = some 10 then i + 1 else start) 0 = before.length := by
    intro n hn
    induction n with
    | zero =>
      rcases List.eq_nil_or_concat before with hnil | ⟨p, a, hp⟩
      · rw [hnil]
        rfl
      · have hne : before ≠ [] := by simp [hp]
        have hget := h.start_get hne
        have hpos := List.length_pos_of_ne_nil hne
        obtain ⟨k, hk⟩ := Nat.exists_eq_add_one_of_ne_zero hpos.ne'
        rw [hk, Nat.add_sub_cancel, ← file_get (by omega)] at hget
        rw [Nat.add_zero, hk, List.range_succ, List.foldl_append, List.foldl_cons, List.foldl_nil, if_pos hget]
    | succ n ih =>
      have hget := h.line_get (Nat.le_add_right before.length n) (by omega)
      rw [← file_get (by omega)] at hget
      rw [← Nat.add_assoc, List.range_succ, List.foldl_append, List.foldl_cons, List.foldl_nil, if_neg hget]
      exact ih (by omega)
  exact hscan col hcol

theorem lineEnd_eq (hfits : e.Fits) (h : CaretAt 10 e.text caret before line after col) :
    e.lineEnd caret = before.length + line.length := by
  have hcol := h.col_le
  have hle := h.caret_le
  have hcaret := h.caret_eq
  have htext := congrArg List.length h.text_eq
  rw [List.length_append, List.length_append] at htext
  rw [hfits.length] at hle htext
  rw [lineEnd, Nat.min_eq_left hle]
  by_cases hne : after = []
  · rw [hne, List.length_nil] at htext
    rw [List.find?_range'_eq_none.mpr, Option.getD_none]
    · omega
    · intro i hi hi'
      rw [file_get (by omega)]
      simpa using h.line_get (i := i) (by omega) (by omega)
  · have hpos := List.length_pos_of_ne_nil hne
    have hget := h.stop_get hne
    rw [← file_get (by omega)] at hget
    rw [List.find?_range'_eq_some.mpr, Option.getD_some]
    refine ⟨by simp [hget], List.mem_range'_1.mpr (by omega), fun i hi hi' => ?_⟩
    rw [file_get (by omega)]
    simpa using h.line_get (i := i) (by omega) hi'

/-! ## The movements -/

theorem left_eq (hfits : e.Fits) (h : CaretAt 10 e.text e.caret before line after col) :
    e.left = { e with caret := before.length + (col - 1) } := by
  have hcaret := h.caret_eq
  rw [left, lineStart_eq hfits h]
  by_cases hlt : before.length < e.caret
  · rw [if_pos hlt, show e.caret - 1 = before.length + (col - 1) by omega]
  · rw [if_neg hlt, show before.length + (col - 1) = e.caret by omega]

theorem right_eq (hfits : e.Fits) (h : CaretAt 10 e.text e.caret before line after col) :
    e.right = { e with caret := before.length + min (col + 1) line.length } := by
  have hcaret := h.caret_eq
  have hcol := h.col_le
  rw [right, lineEnd_eq hfits h]
  by_cases hlt : e.caret < before.length + line.length
  · rw [if_pos hlt, show e.caret + 1 = before.length + min (col + 1) line.length by omega]
  · rw [if_neg hlt, show before.length + min (col + 1) line.length = e.caret by omega]

theorem up_first (hfits : e.Fits) (h : CaretAt 10 e.text e.caret [] line after col) : e.up = e := by
  rw [up, lineStart_eq hfits h]
  exact if_pos rfl

theorem up_eq {prev : List UInt8} (hfits : e.Fits)
    (h : CaretAt 10 e.text e.caret (before ++ (prev ++ [10])) line after col)
    (hprev : ∀ i ≤ prev.length, CaretAt 10 e.text (before.length + i) before prev (10 :: (line ++ after)) i) :
    e.up = { e with caret := before.length + min col prev.length } := by
  have hcaret := h.caret_eq
  have hlen : (before ++ (prev ++ [10])).length = before.length + prev.length + 1 := by
    rw [List.length_append, List.length_append, List.length_singleton, Nat.add_assoc]
  rw [hlen] at hcaret
  have hstart := lineStart_eq hfits (hprev prev.length (Nat.le_refl _))
  simp only [up]
  rw [lineStart_eq hfits h, hlen, if_neg (by omega), Nat.add_sub_cancel, hstart, Nat.add_sub_cancel_left, hcaret,
    Nat.add_sub_cancel_left]

theorem down_last (hfits : e.Fits) (h : CaretAt 10 e.text e.caret before line [] col) : e.down = e := by
  have htext := congrArg List.length h.text_eq
  rw [hfits.length, List.append_nil, List.length_append] at htext
  simp only [down]
  rw [lineEnd_eq hfits h, if_pos (by omega)]

theorem down_eq {next : List UInt8} (hfits : e.Fits)
    (h : CaretAt 10 e.text e.caret before line (10 :: (next ++ after)) col)
    (hnext : ∀ i ≤ next.length, CaretAt 10 e.text (before.length + line.length + 1 + i) (before ++ (line ++ [10])) next
      after i) :
    e.down = { e with caret := before.length + line.length + 1 + min col next.length } := by
  have hcaret := h.caret_eq
  have htext := congrArg List.length h.text_eq
  rw [hfits.length, List.length_append, List.length_append, List.length_cons] at htext
  have hlen : (before ++ (line ++ [10])).length = before.length + line.length + 1 := by
    rw [List.length_append, List.length_append, List.length_singleton, Nat.add_assoc]
  have hstop := lineEnd_eq hfits (hnext 0 (Nat.zero_le _))
  rw [Nat.add_zero, hlen] at hstop
  simp only [down]
  rw [lineEnd_eq hfits h, if_neg (by omega), lineStart_eq hfits h, hstop, Nat.add_sub_cancel_left, hcaret,
    Nat.add_sub_cancel_left]

theorem caretAt_left (hfits : e.Fits) (h : CaretAt 10 e.text e.caret before line after col) :
    CaretAt 10 e.text e.left.caret before line after (col - 1) := by
  rw [left_eq hfits h]
  exact h.in_line ((Nat.sub_le _ _).trans h.col_le)

theorem caretAt_right (hfits : e.Fits) (h : CaretAt 10 e.text e.caret before line after col) :
    CaretAt 10 e.text e.right.caret before line after (min (col + 1) line.length) := by
  rw [right_eq hfits h]
  exact h.in_line (Nat.min_le_right _ _)

theorem caretAt_up (hfits : e.Fits) (h : CaretAt 10 e.text e.caret before line after col) (hne : before ≠ []) :
    ∃ before' prev, before = before' ++ (prev ++ [10]) ∧
      CaretAt 10 e.text e.up.caret before' prev (10 :: (line ++ after)) (min col prev.length) := by
  obtain ⟨before', prev, rfl, hprev⟩ := h.previous hne
  refine ⟨before', prev, rfl, ?_⟩
  rw [up_eq hfits h hprev]
  exact hprev _ (Nat.min_le_right _ _)

theorem caretAt_down (hfits : e.Fits) (h : CaretAt 10 e.text e.caret before line after col) (hne : after ≠ []) :
    ∃ next after', after = 10 :: (next ++ after') ∧
      CaretAt 10 e.text e.down.caret (before ++ (line ++ [10])) next after' (min col next.length) := by
  obtain ⟨next, after', rfl, hnext⟩ := h.next hne
  refine ⟨next, after', rfl, ?_⟩
  rw [down_eq hfits h hnext]
  exact hnext _ (Nat.min_le_right _ _)

theorem Fits.caretAt (h : e.Fits) : ∃ before line after col, CaretAt 10 e.text e.caret before line after col :=
  caretAt_exists 10 (h.caret_le.trans_eq h.length.symm)

/-- The caret stays in the text. -/
theorem move_caret_le (h : e.Fits) (way : Move) : (e.move way).caret ≤ e.text.length := by
  obtain ⟨before, line, after, col, hat⟩ := h.caretAt
  cases way with
  | left => exact (caretAt_left h hat).caret_le
  | right => exact (caretAt_right h hat).caret_le
  | up =>
    by_cases hne : before = []
    · subst hne
      rw [move, up_first h hat]
      exact hat.caret_le
    · obtain ⟨before', prev, -, hup⟩ := caretAt_up h hat hne
      exact hup.caret_le
  | down =>
    by_cases hne : after = []
    · subst hne
      rw [move, down_last h hat]
      exact hat.caret_le
    · obtain ⟨next, after', -, hdown⟩ := caretAt_down h hat hne
      exact hdown.caret_le

/-! ## Runs -/

theorem Fits.edit (h : e.Fits) (op : Edit) : (e.edit op).Fits := by
  cases op with
  | insert c =>
    by_cases hfull : e.fileLen = 511
    · rw [EditorState.edit, insert_full hfull]
      exact h
    · obtain ⟨-, hcaret, hlen⟩ := insert_room (c := c) h hfull
      have hlt := h.fileLen_lt
      have hle := h.caret_le
      refine ⟨?_, ?_⟩
      · rw [EditorState.edit, hcaret, hlen]
        omega
      · rw [EditorState.edit, hlen]
        unfold editorFileCap at hlt ⊢
        omega
  | backspace =>
    by_cases hzero : e.caret = 0
    · rw [EditorState.edit, backspace_start hzero]
      exact h
    · obtain ⟨-, hcaret, hlen⟩ := backspace_behind hzero
      refine ⟨?_, ?_⟩
      · rw [EditorState.edit, hcaret, hlen]
        exact Nat.sub_le_sub_right h.caret_le 1
      · rw [EditorState.edit, hlen]
        exact Nat.lt_of_le_of_lt (Nat.sub_le _ _) h.fileLen_lt
  | move way =>
    have hcaret := move_caret_le h way
    rw [h.length] at hcaret
    obtain ⟨caret, hmove⟩ := move_same e way
    rw [hmove] at hcaret
    rw [EditorState.edit, hmove]
    exact ⟨hcaret, h.fileLen_lt⟩

theorem Fits.edits (h : e.Fits) (ops : List Edit) : (ops.foldl EditorState.edit e).Fits := by
  induction ops generalizing e with
  | nil => exact h
  | cons op ops ih => exact ih (h.edit op)

/-- The buffer is a text with a caret. What the operations do to them, wherever the caret is. -/
structure RefinesText (e : EditorState) : Prop where
  caret_le : e.caret ≤ e.fileLen
  fileLen_le : e.fileLen ≤ 511
  length : e.text.length = e.fileLen
  full : ∀ c, (e.insert c).1 = false ↔ e.fileLen = 511
  fails : ∀ c, (e.insert c).1 = false → (e.insert c).2 = e
  inserts : ∀ c, (e.insert c).1 = true →
    (e.insert c).2.text = e.text.insertIdx e.caret c ∧ (e.insert c).2.caret = e.caret + 1
  start : e.caret = 0 → e.backspace = (false, e)
  erases : e.caret ≠ 0 → e.backspace.1 = true ∧ e.backspace.2.text = e.text.eraseIdx (e.caret - 1) ∧
    e.backspace.2.caret = e.caret - 1
  restores : ∀ c, (e.insert c).1 = true → (e.insert c).2.backspace.1 = true ∧
    (e.insert c).2.backspace.2.text = e.text ∧ (e.insert c).2.backspace.2.caret = e.caret
  moves : ∀ way, ∃ caret, e.move way = { e with caret }
  line : ∃ before line after col, CaretAt 10 e.text e.caret before line after col
  left : ∀ before line after col, CaretAt 10 e.text e.caret before line after col →
    CaretAt 10 e.text e.left.caret before line after (col - 1)
  right : ∀ before line after col, CaretAt 10 e.text e.caret before line after col →
    CaretAt 10 e.text e.right.caret before line after (min (col + 1) line.length)
  first : ∀ line after col, CaretAt 10 e.text e.caret [] line after col → e.up = e
  up : ∀ before line after col, CaretAt 10 e.text e.caret before line after col → before ≠ [] →
    ∃ before' prev, before = before' ++ (prev ++ [10]) ∧
      CaretAt 10 e.text e.up.caret before' prev (10 :: (line ++ after)) (min col prev.length)
  last : ∀ before line col, CaretAt 10 e.text e.caret before line [] col → e.down = e
  down : ∀ before line after col, CaretAt 10 e.text e.caret before line after col → after ≠ [] →
    ∃ next after', after = 10 :: (next ++ after') ∧
      CaretAt 10 e.text e.down.caret (before ++ (line ++ [10])) next after' (min col next.length)

theorem not_full {e : EditorState} {c : UInt8} (hc : (e.insert c).1 = true) : e.fileLen ≠ 511 := by
  intro hfull
  rw [insert_full hfull] at hc
  cases hc

theorem Fits.refinesText {e : EditorState} (h : e.Fits) : RefinesText e where
  caret_le := h.caret_le
  fileLen_le := Nat.le_of_lt_succ h.fileLen_lt
  length := h.length
  full c := by
    refine ⟨fun hc => ?_, fun hfull => by rw [insert_full hfull]⟩
    refine Decidable.byContradiction fun hroom => ?_
    rw [(insert_room h hroom).1] at hc
    cases hc
  fails c hc := by
    by_cases hfull : e.fileLen = 511
    · rw [insert_full hfull]
    · rw [(insert_room h hfull).1] at hc
      cases hc
  inserts c hc := ⟨text_insert h (not_full hc), (insert_room h (not_full hc)).2.1⟩
  start := backspace_start
  erases hcaret := ⟨(backspace_behind hcaret).1, text_backspace h hcaret, (backspace_behind hcaret).2.1⟩
  restores c hc := by
    obtain ⟨-, hcaret, -⟩ := insert_room (c := c) h (not_full hc)
    have hne : (e.insert c).2.caret ≠ 0 := by omega
    obtain ⟨hyes, hcaret', -⟩ := backspace_behind hne
    refine ⟨hyes, ?_, by omega⟩
    rw [text_backspace (show (e.insert c).2.Fits from h.edit (.insert c)) hne, text_insert h (not_full hc), hcaret,
      Nat.add_sub_cancel,
      List.eraseIdx_insertIdx_self]
  moves := e.move_same
  line := h.caretAt
  left _ _ _ _ := caretAt_left h
  right _ _ _ _ := caretAt_right h
  first _ _ _ := up_first h
  up _ _ _ _ := caretAt_up h
  last _ _ _ := down_last h
  down _ _ _ _ := caretAt_down h

end EditorState

/-! ## From a loaded file -/

section Loading

variable {τ ρ : Type} {fs : Fat32Fs} {other : Callbacks τ ρ} {v v' : FatVfs τ ρ} {path : Path}

/-- A read returns at most what was asked for. -/
theorem vfsReadFd_length {κ ω : Type} (cb : Callbacks κ ω) (fd : Int) (cap : Nat) (v : Vfs κ ω) :
    Wp (vfsReadFd cb fd cap) v (fun bytes _ => bytes.length ≤ cap) fun _ _ => True := by
  refine wp_bind_any fun ⟨file, node⟩ v₁ => wp_guard (fun _ => trivial) fun _ => wp_bind.mpr ?_
  have hread : Wp (readNode cb node file.offset cap) v₁ (fun bytes _ => bytes.length ≤ cap) fun _ _ => True := by
    unfold readNode
    refine wp_guard (fun _ => trivial) fun _ => ?_
    refine wp_bind_any fun size v₂ => wp_guard (fun _ => trivial) fun _ => ?_
    refine wp_bind_any fun bytes v₃ => wp_guard (fun _ => trivial) fun hvalid => wp_pure.mpr ?_
    simp only [vfsReadResultValid, Bool.not_eq_false, Bool.and_eq_true, decide_eq_true_eq] at hvalid
    exact hvalid.1.2
  exact Wp.mono hread (fun bytes v₂ hle => wp_bind_any fun _ _ => wp_pure.mpr hle) fun _ _ _ => trivial

theorem loadNote_length (cap : Nat) :
    Wp (loadNote fs other path cap) v (fun res _ => ∀ bytes, res = some bytes → bytes.length ≤ cap - 1)
      fun _ _ => True := by
  refine wp_bind_any fun fd v₁ => ?_
  cases fd with
  | none => exact wp_pure.mpr fun _ h => nomatch h
  | some fd =>
    refine wp_bind.mpr (wp_attempt.mpr (Wp.mono (vfsReadFd_length _ _ _ v₁) (fun bytes v₂ hle => ?_) fun e v₂ _ => ?_))
    · refine wp_bind_any fun _ _ => wp_pure.mpr fun bytes' h => ?_
      cases h
      exact hle
    · split
      · exact wp_bind_any fun _ _ => wp_pure.mpr fun _ h => nomatch h
      · trivial

theorem editorLoad_fits {e e₀ : EditorState} (h : editorLoad fs other path e v = .ok e₀ v') : e₀.Fits := by
  have hload : Wp (editorLoad fs other path e) v (fun e₀ _ => e₀.Fits) fun _ _ => True := by
    refine wp_bind.mpr (Wp.mono (loadNote_length editorFileCap)
      (fun res v₁ hres => wp_pure.mpr ?_) fun _ _ _ => trivial)
    cases res with
    | none => exact ⟨Nat.min_le_right _ _, show 0 < editorFileCap by decide⟩
    | some bytes => exact ⟨Nat.min_le_right _ _, Nat.lt_of_le_pred (by decide) (hres bytes rfl)⟩
  exact hload.of_ok h

/-- The editor from a loaded file on, whatever the keys are. -/
theorem editor_refines_text {e e₀ : EditorState} (h : editorLoad fs other path e v = .ok e₀ v')
    (ops : List EditorState.Edit) : (ops.foldl EditorState.edit e₀).RefinesText :=
  ((editorLoad_fits h).edits ops).refinesText

/-- Five bytes from tmpfs, and three keys. -/
theorem editor_refines_text_sample : ∃ e₀ v', editorLoad sampleFs tmpfsCallbacks [47, 116] .init sampleTwo = .ok e₀ v' ∧
    ([.insert 10, .move .up, .backspace].foldl EditorState.edit e₀).RefinesText := by
  obtain ⟨e₀, v', hload⟩ := exists_of_isOk (show isOk
    (editorLoad sampleFs tmpfsCallbacks [47, 116] .init) sampleTwo = true
    by decide +kernel)
  exact ⟨e₀, v', hload, editor_refines_text hload _⟩

end Loading

end Armonios
