import Armonios.Gui.Fb

/-!
# The points of a line

What `fb_draw_line` visits between its end points. One of the directions has at least as many steps as the other, and
every turn of the loop goes a step in that one. The steps in the other are a division with remainder, and the
remainder is the error of the line: `LineAt` has the state after any number of turns, as long as nothing overflows.

* `lineDefined_iff`: the lines that are drawn without overflow;
* `fbDrawLine_draws`: the pixels of such a line;
* `fbDrawLine_visits`: the points of a line between small coordinates.
-/

namespace Armonios

variable {fb : FbSize} {x0 y0 x1 y1 sx sy : Int} {dx dy long short k n : Nat} {color : UInt32} {s t : LineState}

/-! ## What is computed -/

/-- The states at which `fb_draw_line` draws a point. -/
def fbDrawLineStates (fuel : Nat) (fb : FbSize) (x0 y0 x1 y1 : Int) (color : UInt32) : List LineState :=
  let dx := iabs32 (i32 (x1 - x0))
  let sx := if x0 < x1 then 1 else -1
  let dy := i32 (-iabs32 (i32 (y1 - y0)))
  let sy := if y0 < y1 then 1 else -1
  trail (lineStep fb x1 y1 dx dy sx sy color) fuel ⟨x0, y0, i32 (dx + dy), .clear⟩

/-- The results of the arithmetic before the loop, as whole numbers. -/
def lineStartValues (x0 y0 x1 y1 : Int) : List Int :=
  let dx := (x1 - x0).natAbs
  let dy := (y1 - y0).natAbs
  [x1 - x0, y1 - y0, dx, dy, -dy, dx - dy]

/-- The results of the arithmetic of a turn, as whole numbers. -/
def lineTurnValues (dx dy sx sy : Int) (s : LineState) : List Int :=
  let column := dy ≤ 2 * s.err
  let err := if column then s.err + dy else s.err
  [2 * s.err] ++ (if column then [s.err + dy, s.x + sx] else []) ++ if 2 * s.err ≤ dx then [err + dx, s.y + sy] else []

def FitsInt32 (n : Int) : Prop := -2147483648 ≤ n ∧ n < 2147483648

instance (n : Int) : Decidable (FitsInt32 n) := by unfold FitsInt32; infer_instance

theorem s32_fits (n : UInt32) : FitsInt32 (s32 n) := i32_bounds _

/-- The direction from the start to the end, where they differ. -/
def lineSign (a b : Int) : Int := if a < b then 1 else -1

theorem lineSign_cases (a b : Int) : lineSign a b = 1 ∨ lineSign a b = -1 := by
  unfold lineSign
  split <;> simp

theorem lineSign_end (a b : Int) : a + lineSign a b * (b - a).natAbs = b := by
  unfold lineSign
  split <;> omega

/-- Nothing of the line is computed beyond `int32_t`, where the result would be undefined. -/
structure LineDefined (fb : FbSize) (x0 y0 x1 y1 : Int) (color : UInt32) : Prop where
  start : ∀ v ∈ lineStartValues x0 y0 x1 y1, FitsInt32 v
  turns : ∀ fuel, ∀ s ∈ fbDrawLineStates fuel fb x0 y0 x1 y1 color, (s.x, s.y) ≠ (x1, y1) →
    ∀ v ∈ lineTurnValues (x1 - x0).natAbs (-(y1 - y0).natAbs) (lineSign x0 x1) (lineSign y0 y1) s, FitsInt32 v

/-! ## The steps in the shorter direction -/

/-- The steps that a line has gone in its shorter direction after `k` in the longer one. -/
def shortSteps (long short k : Nat) : Nat := (2 * k * short + long) / (2 * long)

def shortRest (long short k : Nat) : Nat := (2 * k * short + long) % (2 * long)

theorem shortRest_lt (short k : Nat) (hlong : 0 < long) : shortRest long short k < 2 * long := Nat.mod_lt _ (by omega)

theorem shortSteps_start (short : Nat) (hlong : 0 < long) :
    shortSteps long short 0 = 0 ∧ shortRest long short 0 = long :=
  (Nat.div_mod_unique (by omega)).mpr ⟨by omega, by omega⟩

theorem shortSteps_end (short : Nat) (hlong : 0 < long) :
    shortSteps long short long = short ∧ shortRest long short long = long :=
  (Nat.div_mod_unique (by omega)).mpr ⟨by ring, by omega⟩

/-- There is one step more where the rest leaves the remainders. -/
theorem shortSteps_next (hlong : 0 < long) (hle : short ≤ long) (k : Nat) :
    (2 * long ≤ shortRest long short k + 2 * short ∧ shortSteps long short (k + 1) = shortSteps long short k + 1 ∧
        shortRest long short (k + 1) + 2 * long = shortRest long short k + 2 * short) ∨
      (shortRest long short k + 2 * short < 2 * long ∧ shortSteps long short (k + 1) = shortSteps long short k ∧
        shortRest long short (k + 1) = shortRest long short k + 2 * short) := by
  have hdivides := Nat.div_add_mod (2 * k * short + long) (2 * long)
  have hrest := shortRest_lt short k hlong
  have hnext : 2 * (k + 1) * short + long = 2 * k * short + long + 2 * short := by ring
  change 2 * long * shortSteps long short k + shortRest long short k = _ at hdivides
  by_cases hstep : 2 * long ≤ shortRest long short k + 2 * short
  · have hdivision : shortSteps long short (k + 1) = shortSteps long short k + 1 ∧
        shortRest long short (k + 1) = shortRest long short k + 2 * short - 2 * long := by
      refine (Nat.div_mod_unique (by omega)).mpr ⟨?_, by omega⟩
      rw [Nat.mul_add, Nat.mul_one]
      omega
    exact .inl ⟨hstep, hdivision.1, by omega⟩
  · have hdivision : shortSteps long short (k + 1) = shortSteps long short k ∧
        shortRest long short (k + 1) = shortRest long short k + 2 * short :=
      (Nat.div_mod_unique (by omega)).mpr ⟨by omega, by omega⟩
    exact .inr ⟨by omega, hdivision⟩

theorem shortSteps_le (hlong : 0 < long) (hk : k ≤ long) : shortSteps long short k ≤ short := by
  calc shortSteps long short k ≤ shortSteps long short long :=
        Nat.div_le_div_right (Nat.add_le_add_right (Nat.mul_le_mul_right short (Nat.mul_le_mul_left 2 hk)) long)
    _ = short := (shortSteps_end short hlong).1

/-! ## A line after some turns -/

def lineColumns (dx dy k : Nat) : Nat := if dy ≤ dx then k else shortSteps dy dx k

def lineRows (dx dy k : Nat) : Nat := if dy ≤ dx then shortSteps dx dy k else k

/-- Twice the value of `err` after `k` turns of a line with `dx` columns and `dy` rows to go, as a whole number. -/
def lineError (dx dy k : Nat) : Int :=
  if dy ≤ dx then 3 * dx - 2 * dy - shortRest dx dy k else shortRest dy dx k + 2 * dx - 3 * dy

theorem lineTurn (hk : k < max dx dy) :
    lineColumns dx dy (k + 1) = (if -(dy : Int) ≤ lineError dx dy k then lineColumns dx dy k + 1 else lineColumns dx dy k) ∧
    lineRows dx dy (k + 1) = (if lineError dx dy k ≤ dx then lineRows dx dy k + 1 else lineRows dx dy k) ∧
    lineError dx dy (k + 1) = lineError dx dy k - (if -(dy : Int) ≤ lineError dx dy k then 2 * (dy : Int) else 0) +
      (if lineError dx dy k ≤ dx then 2 * (dx : Int) else 0) := by
  unfold lineColumns lineRows lineError
  by_cases hwide : dy ≤ dx
  · have hlong : 0 < dx := by omega
    have hrest := shortRest_lt dy k hlong
    simp only [hwide, if_true]
    have hcolumn : -(dy : Int) ≤ 3 * dx - 2 * dy - shortRest dx dy k := by omega
    simp only [if_pos hcolumn]
    obtain ⟨hstep, hsteps, hnext⟩ | ⟨hstep, hsteps, hnext⟩ := shortSteps_next hlong hwide k
    · have hrow : (3 * dx - 2 * dy - shortRest dx dy k : Int) ≤ dx := by omega
      simp only [if_pos hrow]
      exact ⟨trivial, hsteps, by omega⟩
    · have hrow : ¬ (3 * dx - 2 * dy - shortRest dx dy k : Int) ≤ dx := by omega
      simp only [if_neg hrow]
      exact ⟨trivial, hsteps, by omega⟩
  · have hlong : 0 < dy := by omega
    have hle : dx ≤ dy := by omega
    have hrest := shortRest_lt dx k hlong
    simp only [hwide, if_false]
    have hrow : (shortRest dy dx k + 2 * dx - 3 * dy : Int) ≤ dx := by omega
    simp only [if_pos hrow]
    obtain ⟨hstep, hsteps, hnext⟩ | ⟨hstep, hsteps, hnext⟩ := shortSteps_next hlong hle k
    · have hcolumn : -(dy : Int) ≤ shortRest dy dx k + 2 * dx - 3 * dy := by omega
      simp only [if_pos hcolumn]
      exact ⟨hsteps, trivial, by omega⟩
    · have hcolumn : ¬ -(dy : Int) ≤ shortRest dy dx k + 2 * dx - 3 * dy := by omega
      simp only [if_neg hcolumn]
      exact ⟨hsteps, trivial, by omega⟩

theorem line_start (dx dy : Nat) :
    lineColumns dx dy 0 = 0 ∧ lineRows dx dy 0 = 0 ∧ lineError dx dy 0 = 2 * dx - 2 * dy := by
  unfold lineColumns lineRows lineError
  rcases Nat.eq_zero_or_pos (max dx dy) with hzero | hlong
  · obtain ⟨rfl, rfl⟩ : dx = 0 ∧ dy = 0 := by omega
    decide
  split
  · have hwide : 0 < dx := by omega
    obtain ⟨hsteps, hrest⟩ := shortSteps_start dy hwide
    exact ⟨rfl, hsteps, by omega⟩
  · have hhigh : 0 < dy := by omega
    obtain ⟨hsteps, hrest⟩ := shortSteps_start dx hhigh
    exact ⟨hsteps, rfl, by omega⟩

theorem line_end (dx dy : Nat) : lineColumns dx dy (max dx dy) = dx ∧ lineRows dx dy (max dx dy) = dy ∧
    lineError dx dy (max dx dy) = 2 * dx - 2 * dy := by
  unfold lineColumns lineRows lineError
  rcases Nat.eq_zero_or_pos (max dx dy) with hzero | hlong
  · obtain ⟨rfl, rfl⟩ : dx = 0 ∧ dy = 0 := by omega
    decide
  split
  · rename_i hwide
    rw [max_eq_left hwide] at hlong ⊢
    obtain ⟨hsteps, hrest⟩ := shortSteps_end dy hlong
    exact ⟨rfl, hsteps, by omega⟩
  · rename_i htall
    rw [max_eq_right (by omega)] at hlong ⊢
    obtain ⟨hsteps, hrest⟩ := shortSteps_end dx hlong
    exact ⟨hsteps, rfl, by omega⟩

theorem line_le (hk : k ≤ max dx dy) : lineColumns dx dy k ≤ dx ∧ lineRows dx dy k ≤ dy := by
  unfold lineColumns lineRows
  rcases Nat.eq_zero_or_pos (max dx dy) with hzero | hlong
  · obtain ⟨rfl, rfl⟩ : dx = 0 ∧ dy = 0 := by omega
    obtain rfl : k = 0 := by omega
    decide
  split
  · rename_i hwide
    rw [max_eq_left hwide] at hk hlong
    exact ⟨hk, shortSteps_le hlong hk⟩
  · rename_i htall
    rw [max_eq_right (by omega)] at hk hlong
    exact ⟨shortSteps_le hlong hk, hk⟩

/-- Only the last turn comes to the end. -/
theorem line_before (hk : k < max dx dy) : ¬ (lineColumns dx dy k = dx ∧ lineRows dx dy k = dy) := by
  unfold lineColumns lineRows
  split <;> omega

/-- The state after `k` turns. -/
structure LineAt (x0 y0 : Int) (dx dy : Nat) (sx sy : Int) (k : Nat) (s : LineState) : Prop where
  x : s.x = x0 + sx * lineColumns dx dy k
  y : s.y = y0 + sy * lineRows dx dy k
  err : 2 * s.err = lineError dx dy k

theorem lineAt_start (x0 y0 sx sy : Int) (dx dy : Nat) : LineAt x0 y0 dx dy sx sy 0 ⟨x0, y0, dx + -dy, .clear⟩ := by
  obtain ⟨hcolumns, hrows, herr⟩ := line_start dx dy
  refine ⟨by simp [hcolumns], by simp [hrows], ?_⟩
  rw [herr]
  dsimp only
  omega

theorem LineAt.last (h : LineAt x0 y0 dx dy sx sy (max dx dy) s) : s.x = x0 + sx * dx ∧ s.y = y0 + sy * dy := by
  obtain ⟨hcolumns, hrows, -⟩ := line_end dx dy
  exact ⟨by rw [h.x, hcolumns], by rw [h.y, hrows]⟩

/-- Before the last turn the line is not at its end. -/
theorem LineAt.goesOn (hsx : sx = 1 ∨ sx = -1) (hsy : sy = 1 ∨ sy = -1) (hk : k < max dx dy)
    (h : LineAt x0 y0 dx dy sx sy k s) : ¬ (s.x = x0 + sx * dx ∧ s.y = y0 + sy * dy) := by
  rintro ⟨hx, hy⟩
  rw [h.x] at hx
  rw [h.y] at hy
  refine line_before hk ⟨?_, ?_⟩
  · rcases hsx with rfl | rfl <;> omega
  · rcases hsy with rfl | rfl <;> omega

theorem turnValues_fit {dx dy : Int} : (∀ v ∈ lineTurnValues dx dy sx sy s, FitsInt32 v) ↔ FitsInt32 (2 * s.err) ∧
    (dy ≤ 2 * s.err → FitsInt32 (s.err + dy) ∧ FitsInt32 (s.x + sx)) ∧
    (2 * s.err ≤ dx → FitsInt32 ((if dy ≤ 2 * s.err then s.err + dy else s.err) + dx) ∧ FitsInt32 (s.y + sy)) := by
  unfold lineTurnValues
  dsimp only
  by_cases hcolumn : dy ≤ 2 * s.err <;> by_cases hrow : 2 * s.err ≤ dx <;> simp [hcolumn, hrow, and_assoc]

/-- One turn of a line, where no result of its arithmetic is beyond 32 bits. -/
theorem LineAt.next (fb : FbSize) (color : UInt32) (hsx : sx = 1 ∨ sx = -1) (hsy : sy = 1 ∨ sy = -1)
    (hk : k < max dx dy) (h : LineAt x0 y0 dx dy sx sy k s)
    (hfits : ∀ v ∈ lineTurnValues dx (-dy) sx sy s, FitsInt32 v) :
    ∃ t, lineStep fb (x0 + sx * dx) (y0 + sy * dy) dx (-dy) sx sy color s = some t ∧
      LineAt x0 y0 dx dy sx sy (k + 1) t := by
  obtain ⟨hdouble, hcolumn, hrow⟩ := turnValues_fit.mp hfits
  obtain ⟨hcolumns, hrows, herror⟩ := lineTurn hk
  rw [← h.err] at hcolumns hrows herror
  unfold lineStep
  rw [if_neg (h.goesOn hsx hsy hk), i32_of_fits hdouble.1 hdouble.2]
  refine ⟨_, rfl, ?_, ?_, ?_⟩
  · rw [hcolumns]
    by_cases hc : -(dy : Int) ≤ 2 * s.err
    · simp only [if_pos hc]
      rw [i32_of_fits (hcolumn hc).2.1 (hcolumn hc).2.2, h.x]
      push_cast
      ring
    · simp only [if_neg hc]
      exact h.x
  · rw [hrows]
    by_cases hr : 2 * s.err ≤ dx
    · simp only [if_pos hr]
      rw [i32_of_fits (hrow hr).2.1 (hrow hr).2.2, h.y]
      push_cast
      ring
    · simp only [if_neg hr]
      exact h.y
  · rw [herror]
    -- the column comes first, and the row adds to what it leaves
    have hfirst : (if -(dy : Int) ≤ 2 * s.err then i32 (s.err + -dy) else s.err) =
        if -(dy : Int) ≤ 2 * s.err then s.err + -dy else s.err := by
      split
      · exact i32_of_fits (hcolumn ‹_›).1.1 (hcolumn ‹_›).1.2
      · rfl
    dsimp only
    rw [hfirst]
    by_cases hr : 2 * s.err ≤ dx
    · rw [if_pos hr, if_pos hr, i32_of_fits (hrow hr).1.1 (hrow hr).1.2]
      split <;> ring
    · rw [if_neg hr, if_neg hr]
      split <;> ring

/-! ## The lines that fit -/

/-- The results of the turn after `k` others are within 32 bits. -/
def LineTurnFits (dx dy k : Nat) : Prop :=
  FitsInt32 (lineError dx dy k) ∧ (-dy ≤ lineError dx dy k → -4294967296 ≤ lineError dx dy k - 2 * dy)

instance (dx dy k : Nat) : Decidable (LineTurnFits dx dy k) := by unfold LineTurnFits; infer_instance

/-- What a line must keep to, so that its arithmetic does not overflow. -/
structure LineFits (x0 y0 x1 y1 : Int) : Prop where
  width : (x1 - x0).natAbs < 2147483648
  height : (y1 - y0).natAbs < 2147483648
  turns : ∀ k < max (x1 - x0).natAbs (y1 - y0).natAbs, LineTurnFits (x1 - x0).natAbs (y1 - y0).natAbs k

instance (x0 y0 x1 y1 : Int) : Decidable (LineFits x0 y0 x1 y1) :=
  decidable_of_iff ((x1 - x0).natAbs < 2147483648 ∧ (y1 - y0).natAbs < 2147483648 ∧
      ∀ k < max (x1 - x0).natAbs (y1 - y0).natAbs, LineTurnFits (x1 - x0).natAbs (y1 - y0).natAbs k)
    ⟨fun ⟨hw, hh, hturns⟩ => ⟨hw, hh, hturns⟩, fun h => ⟨h.width, h.height, h.turns⟩⟩

/-- A number of steps between two places. -/
theorem between_fits {a n m : Int} (hsign : sx = 1 ∨ sx = -1) (ha : FitsInt32 a) (hend : FitsInt32 (a + sx * n))
    (hm : 0 ≤ m ∧ m ≤ n) : FitsInt32 (a + sx * m) := by
  unfold FitsInt32 at *
  rcases hsign with rfl | rfl <;> omega

/-- The turn does not overflow exactly if its condition holds, and its error afterwards is within 32 bits. -/
theorem LineAt.values_fit (hsx : sx = 1 ∨ sx = -1) (hsy : sy = 1 ∨ sy = -1) (hx0 : FitsInt32 x0) (hy0 : FitsInt32 y0)
    (hx1 : FitsInt32 (x0 + sx * dx)) (hy1 : FitsInt32 (y0 + sy * dy)) (hw : dx < 2147483648) (hh : dy < 2147483648)
    (hturns : ∀ k < max dx dy, LineTurnFits dx dy k) (hk : k < max dx dy) (h : LineAt x0 y0 dx dy sx sy k s) :
    ∀ v ∈ lineTurnValues dx (-dy) sx sy s, FitsInt32 v := by
  obtain ⟨hcolumns, hrows, herror⟩ := lineTurn hk
  obtain ⟨hleColumns, hleRows⟩ : lineColumns dx dy (k + 1) ≤ dx ∧ lineRows dx dy (k + 1) ≤ dy := line_le hk
  obtain ⟨hdouble, hcolumn⟩ := hturns k hk
  -- the last value of the error is the first
  have hafter : -4294967296 ≤ lineError dx dy (k + 1) ∧ lineError dx dy (k + 1) < 4294967296 := by
    rcases Nat.lt_or_ge (k + 1) (max dx dy) with hlt | hge
    · have := (hturns (k + 1) hlt).1
      unfold FitsInt32 at this
      omega
    · rw [show k + 1 = max dx dy by omega, (line_end dx dy).2.2]
      omega
  rw [← h.err] at hcolumns hrows herror hdouble hcolumn
  refine turnValues_fit.mpr ⟨hdouble, fun hc => ⟨?_, ?_⟩, fun hr => ⟨?_, ?_⟩⟩
  · have := hcolumn hc
    unfold FitsInt32 at *
    omega
  · rw [if_pos hc] at hcolumns
    have hin := between_fits (m := (lineColumns dx dy k + 1 : Nat)) hsx hx0 hx1 ⟨by omega, by omega⟩
    rwa [Int.natCast_succ, Int.mul_add, Int.mul_one, ← Int.add_assoc, ← h.x] at hin
  · rw [if_pos hr] at herror
    unfold FitsInt32
    split
    · rename_i hc
      rw [if_pos hc] at herror
      omega
    · rename_i hc
      rw [if_neg hc] at herror
      omega
  · rw [if_pos hr] at hrows
    have hin := between_fits (m := (lineRows dx dy k + 1 : Nat)) hsy hy0 hy1 ⟨by omega, by omega⟩
    rwa [Int.natCast_succ, Int.mul_add, Int.mul_one, ← Int.add_assoc, ← h.y] at hin

theorem iabs32_fits {n : Int} (hn : n.natAbs < 2147483648) : iabs32 (i32 n) = n.natAbs := by
  rw [i32_of_fits (by omega) (by omega), iabs32]
  split
  · rw [i32_of_fits (by omega) (by omega)]
    omega
  · omega

/-- The loop of `fb_draw_line`, with the columns, rows and directions of the line. -/
theorem fbDrawLine_eq (fb : FbSize) (color : UInt32) (fuel : Nat) (hw : (x1 - x0).natAbs < 2147483648)
    (hh : (y1 - y0).natAbs < 2147483648) :
    fbDrawLineStates fuel fb x0 y0 x1 y1 color =
        trail (lineStep fb x1 y1 (x1 - x0).natAbs (-(y1 - y0).natAbs) (lineSign x0 x1) (lineSign y0 y1) color) fuel
          ⟨x0, y0, (x1 - x0).natAbs + -((y1 - y0).natAbs : Int), .clear⟩ ∧
      fbDrawLine fuel fb x0 y0 x1 y1 color =
        (loop (lineStep fb x1 y1 (x1 - x0).natAbs (-(y1 - y0).natAbs) (lineSign x0 x1) (lineSign y0 y1) color) fuel
          ⟨x0, y0, (x1 - x0).natAbs + -((y1 - y0).natAbs : Int), .clear⟩).map
            fun s => (fbPutpixelI32 fb s.x s.y color).atop s.paint := by
  have hneg : i32 (-((y1 - y0).natAbs : Int)) = -((y1 - y0).natAbs : Int) := i32_of_fits (by omega) (by omega)
  have herr : i32 ((x1 - x0).natAbs + -((y1 - y0).natAbs : Int)) = (x1 - x0).natAbs + -((y1 - y0).natAbs : Int) :=
    i32_of_fits (by omega) (by omega)
  unfold fbDrawLineStates fbDrawLine
  dsimp only
  rw [iabs32_fits hw, iabs32_fits hh, hneg, herr]
  exact ⟨rfl, rfl⟩

/-- After `k` turns of the line from `(x0, y0)` to `(x1, y1)`. -/
def OnLine (x0 y0 x1 y1 : Int) (k : Nat) (s : LineState) : Prop :=
  LineAt x0 y0 (x1 - x0).natAbs (y1 - y0).natAbs (lineSign x0 x1) (lineSign y0 y1) k s

theorem OnLine.goesOn (hk : k < max (x1 - x0).natAbs (y1 - y0).natAbs) (h : OnLine x0 y0 x1 y1 k s) :
    ¬ (s.x = x1 ∧ s.y = y1) := by
  have hgo := LineAt.goesOn (lineSign_cases x0 x1) (lineSign_cases y0 y1) hk h
  rwa [lineSign_end, lineSign_end] at hgo

theorem OnLine.last (h : OnLine x0 y0 x1 y1 (max (x1 - x0).natAbs (y1 - y0).natAbs) s) : s.x = x1 ∧ s.y = y1 := by
  have hend := LineAt.last h
  rwa [lineSign_end, lineSign_end] at hend

theorem OnLine.next (fb : FbSize) (color : UInt32) (hk : k < max (x1 - x0).natAbs (y1 - y0).natAbs)
    (h : OnLine x0 y0 x1 y1 k s)
    (hfits : ∀ v ∈ lineTurnValues (x1 - x0).natAbs (-(y1 - y0).natAbs) (lineSign x0 x1) (lineSign y0 y1) s,
      FitsInt32 v) :
    ∃ t, lineStep fb x1 y1 (x1 - x0).natAbs (-(y1 - y0).natAbs) (lineSign x0 x1) (lineSign y0 y1) color s = some t ∧
      OnLine x0 y0 x1 y1 (k + 1) t := by
  have hnext := LineAt.next fb color (lineSign_cases x0 x1) (lineSign_cases y0 y1) hk h hfits
  rwa [lineSign_end, lineSign_end] at hnext

theorem OnLine.values_fit (hx0 : FitsInt32 x0) (hy0 : FitsInt32 y0) (hx1 : FitsInt32 x1) (hy1 : FitsInt32 y1)
    (hfits : LineFits x0 y0 x1 y1) (hk : k < max (x1 - x0).natAbs (y1 - y0).natAbs) (h : OnLine x0 y0 x1 y1 k s) :
    ∀ v ∈ lineTurnValues (x1 - x0).natAbs (-(y1 - y0).natAbs) (lineSign x0 x1) (lineSign y0 y1) s, FitsInt32 v :=
  LineAt.values_fit (lineSign_cases x0 x1) (lineSign_cases y0 y1) hx0 hy0 (by rwa [lineSign_end])
    (by rwa [lineSign_end]) hfits.width hfits.height hfits.turns hk h

/-- The loop of a line that fits, turn by turn. -/
theorem line_trail (fb : FbSize) (color : UInt32) (hx0 : FitsInt32 x0) (hy0 : FitsInt32 y0) (hx1 : FitsInt32 x1)
    (hy1 : FitsInt32 y1) (hfits : LineFits x0 y0 x1 y1) :
    ∃ t l, Trail (lineStep fb x1 y1 (x1 - x0).natAbs (-(y1 - y0).natAbs) (lineSign x0 x1) (lineSign y0 y1) color)
      (OnLine x0 y0 x1 y1) 0 (max (x1 - x0).natAbs (y1 - y0).natAbs)
      ⟨x0, y0, (x1 - x0).natAbs + -((y1 - y0).natAbs : Int), .clear⟩ t l :=
  loop_counted (OnLine x0 y0 x1 y1)
    (fun _ _ hk h => h.next fb color hk (h.values_fit hx0 hy0 hx1 hy1 hfits hk))
    (fun _ h => if_pos h.last) (Nat.zero_add _) (lineAt_start ..)

/-- A line is computed within `int32_t` exactly if it fits. -/
theorem lineDefined_iff (fb : FbSize) (color : UInt32) (hx0 : FitsInt32 x0) (hy0 : FitsInt32 y0)
    (hx1 : FitsInt32 x1) (hy1 : FitsInt32 y1) : LineDefined fb x0 y0 x1 y1 color ↔ LineFits x0 y0 x1 y1 := by
  constructor
  · intro h
    have hw : (x1 - x0).natAbs < 2147483648 := by
      have := (h.start (x1 - x0).natAbs (by simp [lineStartValues])).2
      omega
    have hh : (y1 - y0).natAbs < 2147483648 := by
      have := (h.start (y1 - y0).natAbs (by simp [lineStartValues])).2
      omega
    -- the turns up to `k` have what a line without overflow has there
    have hstates : ∀ k ≤ max (x1 - x0).natAbs (y1 - y0).natAbs, ∃ s, OnLine x0 y0 x1 y1 k s ∧
        ∀ fuel, k < fuel → (fbDrawLineStates fuel fb x0 y0 x1 y1 color)[k]? = some s := by
      intro k
      induction k with
      | zero =>
        intro _
        refine ⟨_, lineAt_start .., fun fuel hfuel => ?_⟩
        rw [(fbDrawLine_eq fb color fuel hw hh).1]
        obtain ⟨fuel, rfl⟩ := Nat.exists_eq_add_one_of_ne_zero hfuel.ne'
        rw [trail]
        split <;> rfl
      | succ k ih =>
        intro hk
        obtain ⟨s, hs, hat⟩ := ih (Nat.le_of_succ_le hk)
        have hvalues := h.turns (k + 1) s (List.mem_of_getElem? (hat (k + 1) (Nat.lt_succ_self k))) fun heq =>
          hs.goesOn hk (Prod.mk.inj heq)
        obtain ⟨t, hnext, ht⟩ := hs.next fb color hk hvalues
        refine ⟨t, ht, fun fuel hfuel => ?_⟩
        have hbefore := hat fuel (Nat.lt_of_succ_lt hfuel)
        rw [(fbDrawLine_eq fb color fuel hw hh).1] at hbefore ⊢
        exact trail_next hbefore hnext hfuel
    refine ⟨hw, hh, fun k hk => ?_⟩
    obtain ⟨s, hs, hat⟩ := hstates k hk.le
    obtain ⟨hdouble, hcolumn, -⟩ := turnValues_fit.mp (h.turns (k + 1) s
      (List.mem_of_getElem? (hat (k + 1) (Nat.lt_succ_self k))) fun heq => hs.goesOn hk (Prod.mk.inj heq))
    rw [LineAt.err hs] at hdouble hcolumn
    refine ⟨hdouble, fun hc => ?_⟩
    have hafter := (hcolumn hc).1.1
    have herr := LineAt.err hs
    omega
  · intro hfits
    obtain ⟨t, l, htrail⟩ := line_trail fb color hx0 hy0 hx1 hy1 hfits
    have hw := hfits.width
    have hh := hfits.height
    refine ⟨fun v hv => ?_, fun fuel s hs hgo => ?_⟩
    · simp only [lineStartValues, List.mem_cons, List.not_mem_nil, or_false] at hv
      unfold FitsInt32
      omega
    · have hmem : s ∈ l := by
        rw [(fbDrawLine_eq fb color fuel hw hh).1] at hs
        rw [← (htrail.runs (max fuel (max (x1 - x0).natAbs (y1 - y0).natAbs + 1)) (by omega)).1]
        exact trail_subset (le_max_left ..) hs
      obtain ⟨k, hk⟩ := List.mem_iff_getElem?.mp hmem
      have hline := htrail.states k s hk
      rw [Nat.zero_add] at hline
      refine hline.values_fit hx0 hy0 hx1 hy1 hfits ?_
      have hlt := (List.getElem?_eq_some_iff.mp hk).1
      rw [htrail.length] at hlt
      refine lt_of_le_of_ne (Nat.lt_succ_iff.mp hlt) ?_
      rintro rfl
      exact hgo (Prod.ext hline.last.1 hline.last.2)

/-! ## The points -/

/-- The points of a line that fits, from the start to the end. -/
def linePoints (x0 y0 x1 y1 : Int) : List (Int × Int) :=
  (List.range (max (x1 - x0).natAbs (y1 - y0).natAbs + 1)).map fun k =>
    (x0 + lineSign x0 x1 * lineColumns (x1 - x0).natAbs (y1 - y0).natAbs k,
      y0 + lineSign y0 y1 * lineRows (x1 - x0).natAbs (y1 - y0).natAbs k)

/-- Not a step, or one nearer to the end. -/
def StepTowards (stop a b : Int) : Prop := b = a ∨ (b = a + 1 ∧ a < stop) ∨ (b = a - 1 ∧ stop < a)

structure LineVisits (x0 y0 x1 y1 : Int) (points : List (Int × Int)) : Prop where
  length : points.length = max (x1 - x0).natAbs (y1 - y0).natAbs + 1
  first : points.head? = some (x0, y0)
  last : points.getLast? = some (x1, y1)
  steps : points.IsChain fun p q => StepTowards x1 p.1 q.1 ∧ StepTowards y1 p.2 q.2

theorem stepTowards (x0 : Int) {dx k : Nat} (hsign : sx = 1 ∨ sx = -1) (hk : k + 1 ≤ dx) :
    StepTowards (x0 + sx * dx) (x0 + sx * k) (x0 + sx * (k + 1 : Nat)) := by
  unfold StepTowards
  rcases hsign with rfl | rfl <;> omega

theorem linePoints_towards (hk : k < max (x1 - x0).natAbs (y1 - y0).natAbs) :
    StepTowards x1 (x0 + lineSign x0 x1 * lineColumns (x1 - x0).natAbs (y1 - y0).natAbs k)
        (x0 + lineSign x0 x1 * lineColumns (x1 - x0).natAbs (y1 - y0).natAbs (k + 1)) ∧
      StepTowards y1 (y0 + lineSign y0 y1 * lineRows (x1 - x0).natAbs (y1 - y0).natAbs k)
        (y0 + lineSign y0 y1 * lineRows (x1 - x0).natAbs (y1 - y0).natAbs (k + 1)) := by
  obtain ⟨hcolumns, hrows, -⟩ := lineTurn hk
  obtain ⟨hleColumns, hleRows⟩ : lineColumns _ _ (k + 1) ≤ _ ∧ lineRows _ _ (k + 1) ≤ _ := line_le hk
  rw [hcolumns] at hleColumns ⊢
  rw [hrows] at hleRows ⊢
  constructor
  · by_cases hc : -((y1 - y0).natAbs : Int) ≤ lineError (x1 - x0).natAbs (y1 - y0).natAbs k
    · rw [if_pos hc] at hleColumns ⊢
      have hstep := stepTowards x0 (lineSign_cases x0 x1) hleColumns
      rwa [lineSign_end] at hstep
    · rw [if_neg hc]
      exact .inl rfl
  · by_cases hr : lineError (x1 - x0).natAbs (y1 - y0).natAbs k ≤ (x1 - x0).natAbs
    · rw [if_pos hr] at hleRows ⊢
      have hstep := stepTowards y0 (lineSign_cases y0 y1) hleRows
      rwa [lineSign_end] at hstep
    · rw [if_neg hr]
      exact .inl rfl

theorem linePoints_visits (x0 y0 x1 y1 : Int) : LineVisits x0 y0 x1 y1 (linePoints x0 y0 x1 y1) := by
  obtain ⟨hcolumns, hrows, -⟩ := line_start (x1 - x0).natAbs (y1 - y0).natAbs
  obtain ⟨hcolumns', hrows', -⟩ := line_end (x1 - x0).natAbs (y1 - y0).natAbs
  unfold linePoints
  refine ⟨by simp, ?_, ?_, ?_⟩
  · rw [List.head?_map, List.head?_range, if_neg (Nat.succ_ne_zero _), Option.map_some, hcolumns, hrows]
    simp
  · rw [List.getLast?_map, List.getLast?_range, if_neg (Nat.succ_ne_zero _), Option.map_some, Nat.add_sub_cancel,
      hcolumns', hrows', lineSign_end, lineSign_end]
  · rw [List.isChain_map, List.isChain_range_succ]
    exact fun k hk => linePoints_towards hk

/-! ## The pixels -/

/-- What is drawn at the state. -/
def LineState.point (fb : FbSize) (color : UInt32) (s : LineState) : FbPaint := fbPutpixelI32 fb s.x s.y color

theorem lineStep_paint {dx dy : Int} (ht : lineStep fb x1 y1 dx dy sx sy color s = some t) :
    t.paint = (s.point fb color).atop s.paint := by
  unfold lineStep at ht
  split at ht
  · cases ht
  · cases ht
    rfl

theorem line_paint {dx dy : Int} {l : List LineState}
    (hsteps : (s :: l).IsChain fun a b => lineStep fb x1 y1 dx dy sx sy color a = some b)
    (hlast : (s :: l).getLast? = some t) :
    (t.point fb color).atop t.paint = (Paint.all ((s :: l).map (LineState.point fb color))).atop s.paint := by
  induction l generalizing s with
  | nil =>
    obtain rfl : s = t := by simpa using hlast
    rw [List.map_singleton, Paint.all_cons, Paint.all_nil, Paint.clear_atop]
  | cons b l ih =>
    rw [List.isChain_cons_cons] at hsteps
    rw [List.getLast?_cons_cons] at hlast
    rw [ih hsteps.2 hlast, lineStep_paint hsteps.1, List.map_cons (a := s), Paint.all_cons (s.point fb color),
      Paint.atop_assoc]

instance (fb : FbSize) (p : Pixel) : Decidable (fb.Shows p) := by unfold FbSize.Shows; infer_instance

theorem fbPutpixelI32_apply {x y : Int} (hx : x < 2147483648) (hy : y < 2147483648) (p : Pixel) :
    fbPutpixelI32 fb x y color p = if fb.Shows p ∧ ((p.1 : Int), (p.2 : Int)) = (x, y) then some color else none := by
  unfold fbPutpixelI32
  split
  · rename_i hneg
    rw [if_neg]
    · rfl
    · rintro ⟨-, heq⟩
      simp only [Prod.mk.injEq] at heq
      omega
  rename_i hpos
  have hu : ∀ n : Int, 0 ≤ n → n < 2147483648 → (u32 n).toNat = n.toNat := by
    intro n h0 hn
    rw [u32, Int.emod_eq_of_lt h0 (by omega)]
    refine UInt32.toNat_ofNat_of_lt' ?_
    show n.toNat < 4294967296
    omega
  have hux := hu x (by omega) hx
  have huy := hu y (by omega) hy
  unfold fbPutpixel FbSize.Shows
  simp only [UInt32.le_iff_toNat_le, hux, huy]
  obtain ⟨p1, p2⟩ := p
  simp only [Prod.mk.injEq]
  split
  · rename_i hout
    rw [if_neg]
    · rfl
    · omega
  · rename_i hin
    simp only [Prod.mk.injEq]
    congr 1
    rw [eq_iff_iff]
    omega

/-! ## The whole line -/

/-- The line goes through the points, computes with 32 bits what it would with whole numbers, and draws the points that
are on the screen. -/
structure DrawsLine (fb : FbSize) (x0 y0 x1 y1 : Int) (color : UInt32) (points : List (Int × Int)) (fuel : Nat) :
    Prop where
  visits : (fbDrawLineStates fuel fb x0 y0 x1 y1 color).map (fun s => (s.x, s.y)) = points
  fits : ∀ s ∈ fbDrawLineStates fuel fb x0 y0 x1 y1 color, (s.x, s.y) ≠ (x1, y1) →
    ∀ v ∈ lineTurnValues (x1 - x0).natAbs (-(y1 - y0).natAbs) (lineSign x0 x1) (lineSign y0 y1) s, FitsInt32 v
  pixels : ∃ paint, fbDrawLine fuel fb x0 y0 x1 y1 color = some paint ∧
    ∀ p, paint p = if fb.Shows p ∧ ((p.1 : Int), (p.2 : Int)) ∈ points then some color else none

/-- The points of a line whose loop goes through the states. -/
theorem line_pixels {dx dy : Int} {l : List LineState}
    (hsteps : l.IsChain fun a b => lineStep fb x1 y1 dx dy sx sy color a = some b) (hhead : l.head? = some s)
    (hlast : l.getLast? = some t) (hclear : s.paint = .clear)
    (hbounds : ∀ a ∈ l, a.x < 2147483648 ∧ a.y < 2147483648) (p : Pixel) :
    ((t.point fb color).atop t.paint) p =
      if fb.Shows p ∧ ((p.1 : Int), (p.2 : Int)) ∈ l.map (fun s => (s.x, s.y)) then some color else none := by
  obtain ⟨rest, rfl⟩ := List.head?_eq_some_iff.mp hhead
  rw [line_paint hsteps hlast, hclear, Paint.atop_clear]
  have hpoint : ∀ a ∈ s :: rest, a.point fb color p =
      if fb.Shows p ∧ ((p.1 : Int), (p.2 : Int)) = (a.x, a.y) then some color else none := fun a ha =>
    fbPutpixelI32_apply (hbounds a ha).1 (hbounds a ha).2 p
  split
  · rename_i hon
    obtain ⟨a, ha, heq⟩ := List.mem_map.mp hon.2
    refine Paint.all_agree (fun paint hpaint => ?_) ⟨_, List.mem_map_of_mem ha, ?_⟩
    · obtain ⟨b, hb, rfl⟩ := List.mem_map.mp hpaint
      rw [hpoint b hb]
      split
      · exact .inr rfl
      · exact .inl rfl
    · rw [hpoint a ha, if_pos ⟨hon.1, heq.symm⟩]
  · rename_i hoff
    refine Paint.all_none.mpr fun paint hpaint => ?_
    obtain ⟨b, hb, rfl⟩ := List.mem_map.mp hpaint
    rw [hpoint b hb, if_neg]
    rintro ⟨hshows, heq⟩
    exact hoff ⟨hshows, List.mem_map.mpr ⟨b, hb, heq.symm⟩⟩

theorem linePoints_between {a b : Int} (h : (a, b) ∈ linePoints x0 y0 x1 y1) :
    (min x0 x1 ≤ a ∧ a ≤ max x0 x1) ∧ min y0 y1 ≤ b ∧ b ≤ max y0 y1 := by
  obtain ⟨k, hk, heq⟩ := List.mem_map.mp h
  cases heq
  obtain ⟨hcolumns, hrows⟩ := line_le (Nat.lt_succ_iff.mp (List.mem_range.mp hk))
  constructor
  · rcases Int.lt_or_le x0 x1 with hx | hx
    · rw [lineSign, if_pos hx]
      omega
    · rw [lineSign, if_neg (not_lt.mpr hx)]
      omega
  · rcases Int.lt_or_le y0 y1 with hy | hy
    · rw [lineSign, if_pos hy]
      omega
    · rw [lineSign, if_neg (not_lt.mpr hy)]
      omega

/-- A line that fits. -/
theorem fbDrawLine_draws (fb : FbSize) (color : UInt32) (hx0 : FitsInt32 x0) (hy0 : FitsInt32 y0)
    (hx1 : FitsInt32 x1) (hy1 : FitsInt32 y1) (hfits : LineFits x0 y0 x1 y1) (fuel : Nat)
    (hfuel : (linePoints x0 y0 x1 y1).length ≤ fuel) :
    DrawsLine fb x0 y0 x1 y1 color (linePoints x0 y0 x1 y1) fuel := by
  obtain ⟨t, l, htrail⟩ := line_trail fb color hx0 hy0 hx1 hy1 hfits
  obtain ⟨hstates, hdraw⟩ := fbDrawLine_eq fb color fuel hfits.width hfits.height
  obtain ⟨hrun, hloop⟩ := htrail.runs fuel (by
    rw [(linePoints_visits x0 y0 x1 y1).length] at hfuel
    omega)
  have hpoints : l.map (fun s => (s.x, s.y)) = linePoints x0 y0 x1 y1 :=
    htrail.map_eq fun k a ha => Prod.ext (LineAt.x ha) (LineAt.y ha)
  rw [hrun] at hstates
  rw [hloop, Option.map_some] at hdraw
  refine ⟨by rw [hstates, hpoints], ((lineDefined_iff fb color hx0 hy0 hx1 hy1).mpr hfits).turns fuel, _, hdraw,
    fun p => ?_⟩
  rw [← hpoints]
  refine line_pixels htrail.steps htrail.head htrail.last rfl (fun a ha => ?_) p
  have hpoint : (a.x, a.y) ∈ linePoints x0 y0 x1 y1 := hpoints ▸ List.mem_map_of_mem ha
  have hbetween := linePoints_between hpoint
  unfold FitsInt32 at *
  omega

/-- Lines that are short enough fit, whatever their slope. -/
theorem lineFits_short (hw : (x1 - x0).natAbs ≤ 536870912) (hh : (y1 - y0).natAbs ≤ 536870912) :
    LineFits x0 y0 x1 y1 := by
  refine ⟨by omega, by omega, fun k hk => ?_⟩
  unfold LineTurnFits FitsInt32 lineError
  split
  · have hrest := shortRest_lt (y1 - y0).natAbs k (show 0 < (x1 - x0).natAbs by omega)
    omega
  · have hrest := shortRest_lt (x1 - x0).natAbs k (show 0 < (y1 - y0).natAbs by omega)
    omega

theorem fbDrawLine_visits (fb : FbSize) (color : UInt32) (hx0 : x0.natAbs ≤ 2 ^ 28) (hy0 : y0.natAbs ≤ 2 ^ 28)
    (hx1 : x1.natAbs ≤ 2 ^ 28) (hy1 : y1.natAbs ≤ 2 ^ 28) :
    ∃ points, LineVisits x0 y0 x1 y1 points ∧ (∀ v ∈ lineStartValues x0 y0 x1 y1, FitsInt32 v) ∧
      ∀ fuel, points.length ≤ fuel → DrawsLine fb x0 y0 x1 y1 color points fuel := by
  have hfits : LineFits x0 y0 x1 y1 := lineFits_short (by omega) (by omega)
  have hsmall : ∀ n : Int, n.natAbs ≤ 2 ^ 28 → FitsInt32 n := fun n hn => by
    unfold FitsInt32
    omega
  refine ⟨linePoints x0 y0 x1 y1, linePoints_visits x0 y0 x1 y1, ?_, fun fuel hfuel => ?_⟩
  · exact ((lineDefined_iff fb color (hsmall x0 hx0) (hsmall y0 hy0) (hsmall x1 hx1) (hsmall y1 hy1)).mpr hfits).start
  · exact fbDrawLine_draws fb color (hsmall x0 hx0) (hsmall y0 hy0) (hsmall x1 hx1) (hsmall y1 hy1) hfits fuel hfuel

/-- A line to the right and up, half off the screen. -/
theorem fbDrawLine_visits_sample : ∃ points, LineVisits (-2) 3 4 1 points ∧
    (∀ v ∈ lineStartValues (-2) 3 4 1, FitsInt32 v) ∧
      ∀ fuel, points.length ≤ fuel → DrawsLine ⟨8, 8⟩ (-2) 3 4 1 0xFF points fuel :=
  fbDrawLine_visits ⟨8, 8⟩ 0xFF (by decide) (by decide) (by decide) (by decide)

end Armonios
