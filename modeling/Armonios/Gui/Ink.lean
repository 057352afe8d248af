import Armonios.Gui.Fb

/-!
# Where the text is

The characters of a text are on a grid, with a new line after each line feed, and each of them has the pixels of
its glyph: `TextInk`, counted from the corner of the text. The cursor of a drawing function walks over this grid:

* `fontDrawText_ink`, `fontDrawTextClipped_ink`: the pixels that are written;
* `fontTextWidth_spec`: `font_text_width` has room for every one of them.
-/

namespace Armonios

/-- A character with its place on the grid. -/
structure TextCell where
  column : Nat
  line : Nat
  char : UInt8

/-- The characters of a text whose first one is in this column of this line. -/
def textCells : (column line : Nat) → List UInt8 → List TextCell
  | _, _, [] => []
  | column, line, ch :: text =>
    if ch = 10 then textCells 0 (line + 1) text else ⟨column, line, ch⟩ :: textCells (column + 1) line text

/-- The bit of a glyph in this column and row. -/
def glyphBit (glyph : Array UInt8) (col row : Nat) : Prop :=
  glyph.getD row 0 &&& (1 <<< (fontGlyphWidth - 1 - UInt32.ofNat col).toUInt8) ≠ 0

instance (glyph : Array UInt8) (col row : Nat) : Decidable (glyphBit glyph col row) := by
  unfold glyphBit; infer_instance

/-- The character has a glyph with a pixel there. -/
def GlyphInk (ch : UInt8) (col row : Nat) : Prop :=
  col < 8 ∧ row < 8 ∧ ∃ glyph ∈ fontGlyph ch, glyphBit glyph col row

/-- The text has a pixel there, counted from its corner. -/
def TextInk (text : List UInt8) (q : Pixel) : Prop :=
  ∃ cell ∈ textCells 0 0 text, ∃ col row, GlyphInk cell.char col row ∧
    q = (8 * cell.column + col, 10 * cell.line + row)

/-- `(x + q.1, y + q.2)`, as the drawing functions compute it. -/
def pixelFrom (x y : UInt32) (q : Pixel) : Pixel := ((x + UInt32.ofNat q.1).toNat, (y + UInt32.ofNat q.2).toNat)

variable {fb : FbSize} {x y color : UInt32} {text : List UInt8} {p : Pixel}

/-- Near enough to the corner for sums that do not wrap. -/
theorem pixelFrom_eq {q : Pixel} (hx : x.toNat + q.1 < 2 ^ 32) (hy : y.toNat + q.2 < 2 ^ 32) :
    pixelFrom x y q = (x.toNat + q.1, y.toNat + q.2) := by
  have hadd : ∀ (a : UInt32) (n : Nat), a.toNat + n < 2 ^ 32 → (a + UInt32.ofNat n).toNat = a.toNat + n := by
    intro a n hlt
    rw [UInt32.toNat_add, UInt32.toNat_ofNat_of_lt' (Nat.lt_of_le_of_lt (Nat.le_add_left n _) hlt),
      Nat.mod_eq_of_lt hlt]
  rw [pixelFrom, hadd x q.1 hx, hadd y q.2 hy]

/-! ## Glyphs -/

theorem fbPutpixel_ne_none : fbPutpixel fb x y color p ≠ none ↔ fb.Shows p ∧ p = (x.toNat, y.toNat) := by
  unfold fbPutpixel
  split
  · rename_i hout
    simp only [UInt32.le_iff_toNat_le] at hout
    refine ⟨fun h => absurd rfl h, ?_⟩
    rintro ⟨⟨hx, hy⟩, rfl⟩
    dsimp only at hx hy
    omega
  · rename_i hinside
    simp only [UInt32.le_iff_toNat_le, not_or, not_le] at hinside
    by_cases hp : p = (x.toNat, y.toNat)
    · simp only [hp, if_true, ne_eq, reduceCtorEq, not_false_eq_true, and_true, true_iff]
      exact hinside
    · simp [hp]

theorem fontDrawRows_ne_none {glyph : Array UInt8} {rows : List Nat} :
    fontDrawRows fb x y glyph rows color p ≠ none ↔ fb.Shows p ∧
      ∃ row ∈ rows, ∃ col < 8, glyphBit glyph col row ∧ p = pixelFrom x y (col, row) := by
  unfold fontDrawRows
  rw [ne_eq, Paint.all_none]
  simp only [List.mem_flatMap, List.mem_map, List.mem_range, not_forall]
  constructor
  · rintro ⟨paint, ⟨row, hrow, col, hcol, rfl⟩, hpaint⟩
    split at hpaint
    · rename_i hbit
      obtain ⟨hp, heq⟩ := fbPutpixel_ne_none.mp hpaint
      exact ⟨hp, row, hrow, col, hcol, hbit, heq⟩
    · exact absurd rfl hpaint
  · rintro ⟨hp, row, hrow, col, hcol, hbit, heq⟩
    refine ⟨_, ⟨row, hrow, col, hcol, rfl⟩, ?_⟩
    unfold glyphBit at hbit
    rw [if_pos hbit]
    exact fbPutpixel_ne_none.mpr ⟨hp, heq⟩

/-- The pixels of a character, of those rows of its glyph that are drawn. -/
theorem fontDrawGlyph_ne_none (ch : UInt8) {rows : List Nat} {paint : FbPaint}
    (hrows : ∀ row ∈ rows, row < 8)
    (hpaint : ∀ glyph, fontGlyph ch = some glyph → paint = fontDrawRows fb x y glyph rows color)
    (hnone : fontGlyph ch = none → paint = .clear) :
    paint p ≠ none ↔ fb.Shows p ∧ ∃ col, ∃ row ∈ rows, GlyphInk ch col row ∧ p = pixelFrom x y (col, row) := by
  cases hglyph : fontGlyph ch with
  | none =>
    rw [hnone hglyph]
    refine ⟨fun h => absurd rfl h, ?_⟩
    rintro ⟨-, col, row, -, ⟨-, -, glyph, hsome, -⟩, -⟩
    rw [hglyph] at hsome
    cases hsome
  | some glyph =>
    rw [hpaint glyph hglyph, fontDrawRows_ne_none]
    refine and_congr_right fun _ => ⟨?_, ?_⟩
    · rintro ⟨row, hrow, col, hcol, hbit, heq⟩
      exact ⟨col, row, hrow, ⟨hcol, hrows row hrow, glyph, hglyph, hbit⟩, heq⟩
    · rintro ⟨col, row, hrow, ⟨hcol, -, glyph', hglyph', hbit⟩, heq⟩
      rw [hglyph] at hglyph'
      cases hglyph'
      exact ⟨row, hrow, col, hcol, hbit, heq⟩

theorem fontDrawChar_ne_none {ch : UInt8} : fontDrawChar fb x y ch color p ≠ none ↔
    fb.Shows p ∧ ∃ col row, GlyphInk ch col row ∧ p = pixelFrom x y (col, row) := by
  have hglyph : fontDrawChar fb x y ch color p ≠ none ↔ fb.Shows p ∧
      ∃ col, ∃ row ∈ List.range 8, GlyphInk ch col row ∧ p = pixelFrom x y (col, row) :=
    fontDrawGlyph_ne_none ch (fun _ => List.mem_range.mp)
      (fun glyph hglyph => by
        rw [fontDrawChar, hglyph]
        rfl)
      fun hnone => by rw [fontDrawChar, hnone]
  rw [hglyph]
  refine and_congr_right fun _ => exists_congr fun col => exists_congr fun row => ?_
  exact ⟨fun h => h.2, fun h => ⟨List.mem_range.mpr h.1.2.1, h⟩⟩

/-! ## Texts -/

/-- The place of a cell on the grid of a text at `(x, y)`, as the cursor of the drawing functions computes it. -/
theorem pixelFrom_cell (column line col row : Nat) :
    pixelFrom (x + fontCharWidth * UInt32.ofNat column) (y + fontLineHeight * UInt32.ofNat line) (col, row) =
      pixelFrom x y (8 * column + col, 10 * line + row) := by
  have hsum : ∀ (a b : UInt32) (n k : Nat),
      a + b * UInt32.ofNat n + UInt32.ofNat k = a + UInt32.ofNat (b.toNat * n + k) := by
    intro a b n k
    rw [UInt32.ofNat_add, UInt32.ofNat_mul, UInt32.ofNat_toNat, UInt32.add_assoc]
  rw [pixelFrom, hsum, hsum]
  rfl

theorem cursor_next (a b : UInt32) (n : Nat) : a + b * UInt32.ofNat n + b = a + b * UInt32.ofNat (n + 1) := by
  rw [UInt32.ofNat_add, UInt32.mul_add, UInt32.add_assoc]
  simp

/-- The pixels of the characters that are still to be drawn. -/
theorem fontDrawTextAt_ne_none (column line : Nat) : fontDrawTextAt fb x color (x + fontCharWidth * UInt32.ofNat column)
    (y + fontLineHeight * UInt32.ofNat line) text p ≠ none ↔ fb.Shows p ∧ ∃ cell ∈ textCells column line text,
      ∃ col row, GlyphInk cell.char col row ∧
        p = pixelFrom x y (8 * cell.column + col, 10 * cell.line + row) := by
  induction text generalizing column line with
  | nil => simp [fontDrawTextAt, textCells]
  | cons ch text ih =>
    unfold fontDrawTextAt textCells
    split
    · have hstart := ih 0 (line + 1)
      rw [show UInt32.ofNat 0 = 0 from rfl, UInt32.mul_zero, UInt32.add_zero] at hstart
      rw [cursor_next, hstart]
    · rw [ne_eq, Paint.atop_none, not_and_or, ← ne_eq, ← ne_eq, cursor_next, ih, fontDrawChar_ne_none, ← and_or_left]
      simp only [pixelFrom_cell, List.mem_cons, exists_eq_or_imp]
      rw [or_comm]

theorem fontDrawText_ink : fontDrawText fb x y text color p ≠ none ↔
    fb.Shows p ∧ ∃ q, TextInk text q ∧ p = pixelFrom x y q := by
  have hstart := @fontDrawTextAt_ne_none fb x y color text p 0 0
  rw [show UInt32.ofNat 0 = 0 from rfl, UInt32.mul_zero, UInt32.mul_zero, UInt32.add_zero, UInt32.add_zero] at hstart
  rw [fontDrawText, hstart]
  refine and_congr_right fun _ => ⟨?_, ?_⟩
  · rintro ⟨cell, hcell, col, row, hink, rfl⟩
    exact ⟨_, ⟨cell, hcell, col, row, hink, rfl⟩, rfl⟩
  · rintro ⟨q, ⟨cell, hcell, col, row, hink, rfl⟩, rfl⟩
    exact ⟨cell, hcell, col, row, hink, rfl⟩

/-! ## Clipped texts -/

theorem textCells_line {column line : Nat} {cell : TextCell} (h : cell ∈ textCells column line text) :
    line ≤ cell.line := by
  induction text generalizing column line with
  | nil => simp [textCells] at h
  | cons ch text ih =>
    unfold textCells at h
    split at h
    · exact (Nat.le_succ line).trans (ih h)
    · rcases List.mem_cons.mp h with rfl | h
      · exact le_rfl
      · exact ih h

theorem mem_takeWhile_range {P : Nat → Bool} {n : Nat} (hP : ∀ m k, m ≤ k → k < n → P k = true → P m = true) (k : Nat) :
    k ∈ (List.range n).takeWhile P ↔ k < n ∧ P k = true := by
  refine ⟨fun h => ⟨List.mem_range.mp ((List.takeWhile_sublist P).subset h), List.mem_takeWhile_imp h⟩, ?_⟩
  rintro ⟨hk, hp⟩
  have hsplit : List.range n = List.range (k + 1) ++ (List.range (n - (k + 1))).map (k + 1 + ·) := by
    rw [← List.range_add, Nat.add_sub_cancel' hk]
  have hbefore : ∀ m ∈ List.range (k + 1), P m = true :=
    fun m hm => hP m k (Nat.lt_succ_iff.mp (List.mem_range.mp hm)) hk hp
  rw [hsplit, List.takeWhile_append_of_pos hbefore]
  exact List.mem_append_left _ List.self_mem_range_succ

/-- How far below the text a row of a line is. -/
theorem rowBelow (line row : Nat) (h : 10 * line + row < 2 ^ 32) :
    (y + fontLineHeight * UInt32.ofNat line + UInt32.ofNat row - y).toNat = 10 * line + row := by
  have hsum : fontLineHeight * UInt32.ofNat line + UInt32.ofNat row =
      UInt32.ofNat (10 * line + row) := by
    rw [UInt32.ofNat_add, UInt32.ofNat_mul]
    rfl
  rw [UInt32.add_assoc, hsum, UInt32.add_comm, UInt32.add_sub_cancel, UInt32.toNat_ofNat_of_lt' h]

theorem fontDrawTextClippedAt_ne_none {maxH : UInt32} (column line : Nat)
    (hfits : 10 * (line + text.length) + 8 < 2 ^ 32) :
    fontDrawTextClippedAt fb x y maxH color (x + fontCharWidth * UInt32.ofNat column)
      (y + fontLineHeight * UInt32.ofNat line) text p ≠ none ↔ fb.Shows p ∧ ∃ cell ∈ textCells column line text,
        ∃ col row, GlyphInk cell.char col row ∧ 10 * cell.line + row < maxH.toNat ∧
          p = pixelFrom x y (8 * cell.column + col, 10 * cell.line + row) := by
  induction text generalizing column line with
  | nil => simp [fontDrawTextClippedAt, textCells]
  | cons ch text ih =>
    rw [List.length_cons] at hfits
    unfold fontDrawTextClippedAt textCells
    split
    · have hstart := ih 0 (line + 1) (by omega)
      rw [show UInt32.ofNat 0 = 0 from rfl, UInt32.mul_zero, UInt32.add_zero] at hstart
      rw [cursor_next]
      split
      · -- the next line is below the part that is drawn, and so are all after it
        rename_i hbelow
        have hrow := rowBelow (y := y) (line + 1) 0 (by omega)
        rw [show UInt32.ofNat 0 = 0 from rfl, UInt32.add_zero] at hrow
        rw [UInt32.le_iff_toNat_le, hrow] at hbelow
        refine ⟨fun h => absurd rfl h, ?_⟩
        rintro ⟨-, cell, hcell, col, row, -, hlt, -⟩
        have := textCells_line hcell
        omega
      · exact hstart
    · have hbelow : ∀ row < 8, (decide (y + fontLineHeight * UInt32.ofNat line + UInt32.ofNat row - y < maxH) = true ↔
          10 * line + row < maxH.toNat) := by
        intro row hrow
        rw [decide_eq_true_eq, UInt32.lt_iff_toNat_lt, rowBelow line row (by omega)]
      have hrows : ∀ row, (row ∈ (List.range fontGlyphHeight.toNat).takeWhile fun row =>
          decide (y + fontLineHeight * UInt32.ofNat line + UInt32.ofNat row - y < maxH)) ↔
          row < 8 ∧ 10 * line + row < maxH.toNat := by
        intro row
        rw [mem_takeWhile_range fun m k hmk hk hp => ?_]
        · exact and_congr_right fun hrow => hbelow row hrow
        · have hk8 : k < 8 := hk
          rw [hbelow k hk8] at hp
          rw [hbelow m (by omega)]
          omega
      rw [ne_eq, Paint.atop_none, not_and_or, ← ne_eq, ← ne_eq, cursor_next, ih (column + 1) line (by omega),
        fontDrawGlyph_ne_none ch ?inRange ?glyph ?noGlyph, ← and_or_left]
      case inRange => exact fun row hrow => ((hrows row).mp hrow).1
      case glyph =>
        intro glyph hglyph
        rw [hglyph]
      case noGlyph =>
        intro hnone
        rw [hnone]
      simp only [pixelFrom_cell, List.mem_cons, exists_eq_or_imp]
      rw [or_comm]
      refine and_congr_right fun _ => or_congr_left ⟨?_, ?_⟩
      · rintro ⟨col, row, hrow, hink, hp⟩
        exact ⟨col, row, hink, ((hrows row).mp hrow).2, hp⟩
      · rintro ⟨col, row, hink, hlt, hp⟩
        exact ⟨col, row, (hrows row).mpr ⟨hink.2.1, hlt⟩, hink, hp⟩

theorem fontDrawTextClipped_ink {maxH : UInt32} (hfits : 10 * text.length + 8 < 2 ^ 32) :
    fontDrawTextClipped fb x y maxH text color p ≠ none ↔
      fb.Shows p ∧ ∃ q, TextInk text q ∧ q.2 < maxH.toNat ∧ p = pixelFrom x y q := by
  have hstart := @fontDrawTextClippedAt_ne_none fb x y color text p maxH 0 0 (by omega)
  rw [show UInt32.ofNat 0 = 0 from rfl, UInt32.mul_zero, UInt32.mul_zero, UInt32.add_zero, UInt32.add_zero] at hstart
  unfold fontDrawTextClipped
  split
  · rename_i hnone
    refine ⟨fun h => absurd rfl h, ?_⟩
    rintro ⟨-, q, -, hq, -⟩
    rw [hnone] at hq
    exact absurd hq (Nat.not_lt_zero _)
  rw [hstart]
  refine and_congr_right fun _ => ⟨?_, ?_⟩
  · rintro ⟨cell, hcell, col, row, hink, hlt, rfl⟩
    exact ⟨_, ⟨cell, hcell, col, row, hink, rfl⟩, hlt, rfl⟩
  · rintro ⟨q, ⟨cell, hcell, col, row, hink, rfl⟩, hlt, rfl⟩
    exact ⟨cell, hcell, col, row, hink, hlt, rfl⟩

/-! ## The width -/

theorem run_toNat (column : Nat) (h : 8 * column < 2 ^ 32) :
    (fontCharWidth * UInt32.ofNat column).toNat = 8 * column := by
  have hcolumn : (UInt32.ofNat column).toNat = column := UInt32.toNat_ofNat_of_lt' (show column < 2 ^ 32 by omega)
  rw [UInt32.toNat_mul, hcolumn]
  exact Nat.mod_eq_of_lt h

/-- From `column` characters of a line on. -/
theorem fontTextWidthFrom_spec (text : List UInt8) (widest : UInt32) (column line : Nat)
    (hfits : 8 * (column + text.length) < 2 ^ 32) :
    ∃ width, fontTextWidthFrom widest (fontCharWidth * UInt32.ofNat column) text = width ∧
      widest.toNat ≤ width.toNat ∧ 8 * column ≤ width.toNat ∧
      width.toNat ≤ max widest.toNat (8 * (column + text.length)) ∧
      ∀ cell ∈ textCells column line text, 8 * (cell.column + 1) ≤ width.toNat := by
  induction text generalizing widest column line with
  | nil =>
    have hrun := run_toNat column (by omega)
    refine ⟨_, rfl, ?_⟩
    simp only [fontTextWidthFrom, textCells, List.not_mem_nil, List.length_nil, UInt32.lt_iff_toNat_lt,
      apply_ite UInt32.toNat, hrun]
    split <;> simp <;> omega
  | cons ch text ih =>
    rw [List.length_cons] at hfits ⊢
    have hrun := run_toNat column (by omega)
    unfold fontTextWidthFrom textCells
    split
    · -- the line is counted, and the next one starts
      obtain ⟨width, hwidth, hwidest, -, hmost, hcells⟩ := ih
        (if widest < fontCharWidth * UInt32.ofNat column then fontCharWidth * UInt32.ofNat column else widest) 0
          (line + 1)
        (by omega)
      have hmax : (if widest < fontCharWidth * UInt32.ofNat column then fontCharWidth * UInt32.ofNat column
          else widest).toNat = max widest.toNat (8 * column) := by
        simp only [apply_ite UInt32.toNat, hrun, UInt32.lt_iff_toNat_lt]
        split <;> omega
      rw [hmax] at hwidest hmost
      exact ⟨width, hwidth, by omega, by omega, by omega, hcells⟩
    · obtain ⟨width, hwidth, hwidest, hnext, hmost, hcells⟩ := ih widest (column + 1) line (by omega)
      have hsum : fontCharWidth * UInt32.ofNat column + fontCharWidth = fontCharWidth * UInt32.ofNat (column + 1) := by
        have hnext := cursor_next 0 fontCharWidth column
        rwa [UInt32.zero_add, UInt32.zero_add] at hnext
      rw [hsum]
      refine ⟨width, hwidth, hwidest, by omega, by omega, List.forall_mem_cons.mpr ⟨?_, hcells⟩⟩
      dsimp only
      omega

/-- The width of a text whose characters fit into 32 bits is the width of its ink, and no more than that of all its
characters. -/
theorem fontTextWidth_spec (hfits : 8 * text.length < 2 ^ 32) :
    (∀ q, TextInk text q → q.1 < (fontTextWidth text).toNat) ∧ (fontTextWidth text).toNat ≤ 8 * text.length := by
  obtain ⟨width, hwidth, -, -, hmost, hcells⟩ := fontTextWidthFrom_spec text 0 0 0 (by omega)
  have heq : fontTextWidth text = width := hwidth
  rw [heq]
  rw [UInt32.toNat_zero] at hmost
  refine ⟨?_, by omega⟩
  rintro q ⟨cell, hcell, col, row, ⟨hcol, -⟩, rfl⟩
  have := hcells cell hcell
  dsimp only
  omega

end Armonios
