import Armonios.Gui.Painted

/-!
# Redraws

What is on the screen after `gui_draw`, for any desktop and any picture before.

* `guiDrawFull_stale`: when a full redraw depends on the picture before it;
* `guiDrawPartial_full`: when a partial redraw leaves what a full one would;
* `guiHitTest_painted`: when the window that a click goes to is the one that is seen there.
-/

namespace Armonios

open Relation

/-! ## The background -/

/-- The sweep of a row goes on behind the next window. -/
def SweepStep (d : Desktop) (row x x' : UInt32) : Prop :=
  ∃ i, guiNextWindowAtOrAfter row x d = some i ∧ x' = (d.windows i).x + (d.windows i).w

/-- From `x` on, the sweep comes to a place from which on there is no window up to the column. -/
def SweptFrom (d : Desktop) (row x : UInt32) (column : Nat) : Prop :=
  ∃ x', ReflTransGen (SweepStep d row) x x' ∧ x'.toNat ≤ column ∧
    ∀ i, guiNextWindowAtOrAfter row x' d = some i → column < (d.windows i).x.toNat

/-- The background pass of a full redraw paints the pixel. -/
def Swept (d : Desktop) (p : Pixel) : Prop := SweptFrom d (UInt32.ofNat p.2) 0 p.1

section Sweep

variable {d : Desktop} {row x x' : UInt32} {column : Nat} {i : WindowId}

theorem guiNextWindowAtOrAfter_some (h : guiNextWindowAtOrAfter row x d = some i) :
    (d.windows i).Visible ∧ (d.windows i).y ≤ row ∧ row < (d.windows i).y + (d.windows i).h ∧
      x < (d.windows i).x + (d.windows i).w ∧ x ≤ (d.windows i).x := by
  obtain ⟨-, hp, -⟩ := scan_least h
  exact ⟨hp.1, hp.2.1, hp.2.2.1, hp.2.2.2.1, hp.2.2.2.2.1⟩

theorem SweepStep.lt (h : SweepStep d row x x') : x.toNat < x'.toNat := by
  obtain ⟨i, hi, rfl⟩ := h
  exact UInt32.lt_iff_toNat_lt.mp (guiNextWindowAtOrAfter_some hi).2.2.2.1

theorem SweptFrom.le (h : SweptFrom d row x column) : x.toNat ≤ column := by
  obtain ⟨x', hpath, hle, -⟩ := h
  refine le_trans ?_ hle
  clear hle
  induction hpath with
  | refl => exact le_rfl
  | tail _ hstep ih => exact ih.trans hstep.lt.le

theorem sweptFrom_none (h : guiNextWindowAtOrAfter row x d = none) : SweptFrom d row x column ↔ x.toNat ≤ column := by
  refine ⟨SweptFrom.le, fun hle => ⟨x, .refl, hle, fun i hi => ?_⟩⟩
  rw [h] at hi
  cases hi

theorem sweptFrom_some (h : guiNextWindowAtOrAfter row x d = some i) : SweptFrom d row x column ↔
    (x.toNat ≤ column ∧ column < (d.windows i).x.toNat) ∨
      SweptFrom d row ((d.windows i).x + (d.windows i).w) column := by
  constructor
  · rintro ⟨x', hpath, hle, hbefore⟩
    rcases hpath.cases_head with rfl | ⟨y, ⟨j, hj, rfl⟩, hpath⟩
    · exact .inl ⟨hle, hbefore i h⟩
    · rw [h] at hj
      cases hj
      exact .inr ⟨x', hpath, hle, hbefore⟩
  · rintro (⟨hle, hlt⟩ | ⟨x', hpath, hle, hbefore⟩)
    · refine ⟨x, .refl, hle, fun j hj => ?_⟩
      rw [h] at hj
      cases hj
      exact hlt
    · exact ⟨x', hpath.head ⟨i, h, rfl⟩, hle, hbefore⟩

/-- The pixels of one row that a span of the background has. -/
theorem fillSpan {fb : FbSize} {width color : UInt32} {p : Pixel} (hp : fb.Shows p) :
    fbFillrect fb x row width 1 color p =
      if p.2 = row.toNat ∧ x.toNat ≤ p.1 ∧ p.1 < x.toNat + width.toNat then some color else none := by
  rw [fbFillrect_apply]
  congr 1
  have := hp.1
  have := hp.2
  simp only [InRect, UInt32.toNat_one, eq_iff_iff]
  omega

/-- The pixels before the next window. -/
theorem gapSpan {fb : FbSize} {next color : UInt32} {p : Pixel} (hp : fb.Shows p) :
    (if x < next then fbFillrect fb x row (next - x) 1 color else .clear : FbPaint) p =
      if p.2 = row.toNat ∧ x.toNat ≤ p.1 ∧ p.1 < next.toNat then some color else none := by
  split
  · rename_i hx
    have hx' := UInt32.lt_iff_toNat_lt.mp hx
    rw [fillSpan hp, UInt32.toNat_sub_of_le _ _ (UInt32.le_of_lt hx)]
    congr 1
    simp only [eq_iff_iff]
    omega
  · rename_i hx
    have hx' := UInt32.le_iff_toNat_le.mp (UInt32.not_lt.mp hx)
    rw [if_neg]
    · rfl
    · omega

/-- The sweep of a row ends. -/
theorem guiSweepRow_ends (d : Desktop) (row x : UInt32) :
    ∃ paint, Ends (guiSweepRow d row · x) paint ∧ ∀ p, d.fb.Shows p →
      (p.2 = row.toNat ∧ SweptFrom d row x p.1 → paint p = some (guiBackground d row)) ∧
        (¬ (p.2 = row.toNat ∧ SweptFrom d row x p.1) → paint p = none) := by
  induction hn : 2 ^ 32 - x.toNat using Nat.strong_induction_on generalizing x with
  | _ n ih =>
    by_cases hwidth : d.fb.width ≤ x
    · refine ⟨.clear, ⟨0, fun fuel hfuel => ?_⟩, fun p hp => ⟨fun ⟨_, hswept⟩ => ?_, fun _ => rfl⟩⟩
      · obtain ⟨fuel, rfl⟩ : ∃ m, fuel = m + 1 := ⟨fuel - 1, by omega⟩
        simp only [guiSweepRow, hwidth, if_true]
      · have := hswept.le
        have := UInt32.le_iff_toNat_le.mp hwidth
        have := hp.1
        omega
    have hlt : x.toNat < d.fb.width.toNat := UInt32.lt_iff_toNat_lt.mp (UInt32.not_le.mp hwidth)
    cases hnext : guiNextWindowAtOrAfter row x d with
    | none =>
      refine ⟨fbFillrect d.fb x row (d.fb.width - x) 1 (guiBackground d row), ⟨0, fun fuel hfuel => ?_⟩,
        fun p hp => ?_⟩
      · obtain ⟨fuel, rfl⟩ : ∃ m, fuel = m + 1 := ⟨fuel - 1, by omega⟩
        simp only [guiSweepRow, hwidth, if_false, hnext]
      · have hspan := UInt32.toNat_sub_of_le d.fb.width x (UInt32.le_iff_toNat_le.mpr hlt.le)
        have := hp.1
        rw [fillSpan hp, sweptFrom_none hnext, hspan]
        refine ⟨fun h => if_pos ⟨h.1, h.2, by omega⟩, fun h => if_neg fun hin => h ⟨hin.1, hin.2.1⟩⟩
    | some i =>
      have hstep : SweepStep d row x _ := ⟨i, hnext, rfl⟩
      have := hstep.lt
      have := ((d.windows i).x + (d.windows i).w).toNat_lt
      obtain ⟨rest, hends, hrest⟩ := ih _ (by omega) ((d.windows i).x + (d.windows i).w) rfl
      refine ⟨rest.atop (if x < (d.windows i).x then
        fbFillrect d.fb x row ((d.windows i).x - x) 1 (guiBackground d row) else .clear), ?_, fun p hp => ?_⟩
      · obtain ⟨m, hm⟩ := hends
        refine ⟨m + 1, fun fuel hfuel => ?_⟩
        obtain ⟨fuel, rfl⟩ : ∃ m, fuel = m + 1 := ⟨fuel - 1, by omega⟩
        simp only [guiSweepRow, hwidth, if_false, hnext, hm fuel (by omega), Option.map_some]
      · rw [Paint.atop_apply, gapSpan hp, sweptFrom_some hnext]
        obtain ⟨hsome, hnone⟩ := hrest p hp
        by_cases hswept : p.2 = row.toNat ∧ SweptFrom d row ((d.windows i).x + (d.windows i).w) p.1
        · rw [hsome hswept]
          exact ⟨fun _ => rfl, fun h => absurd ⟨hswept.1, .inr hswept.2⟩ h⟩
        · rw [hnone hswept, Option.none_or]
          constructor
          · rintro ⟨hrow, hspan | hlater⟩
            · exact if_pos ⟨hrow, hspan⟩
            · exact absurd ⟨hrow, hlater⟩ hswept
          · exact fun h => if_neg fun hin => h ⟨hin.1, .inl hin.2⟩

/-- The background pass ends, and has painted what is swept. -/
theorem guiSweep_ends (d : Desktop) : ∃ sweep, Ends (guiSweep · d) sweep ∧ ∀ p, d.fb.Shows p →
    (Swept d p → sweep p = some (guiBackground d (UInt32.ofNat p.2))) ∧ (¬ Swept d p → sweep p = none) := by
  choose paint hends hpaint using fun row => guiSweepRow_ends d row 0
  refine ⟨.all ((List.range d.fb.height.toNat).map fun row => paint (UInt32.ofNat row)),
    (Ends.mapM fun row _ => hends (UInt32.ofNat row)).map _, fun p hp => ?_⟩
  have hword : ∀ row < d.fb.height.toNat, (UInt32.ofNat row).toNat = row := fun row hrow =>
    UInt32.toNat_ofNat_of_lt' (hrow.trans d.fb.height.toNat_lt)
  have hrow : ∀ row < d.fb.height.toNat, p.2 ≠ row → paint (UInt32.ofNat row) p = none := fun row hrow hne =>
    (hpaint _ p hp).2 fun h => hne (by rw [h.1, hword row hrow])
  have hown : (Swept d p → paint (UInt32.ofNat p.2) p = some (guiBackground d (UInt32.ofNat p.2))) ∧
      (¬ Swept d p → paint (UInt32.ofNat p.2) p = none) :=
    ⟨fun h => (hpaint _ p hp).1 ⟨(hword _ hp.2).symm, h⟩, fun h => (hpaint _ p hp).2 fun hin => h hin.2⟩
  constructor
  · intro hswept
    refine Paint.all_agree (fun top htop => ?_) ⟨_, List.mem_map.mpr ⟨p.2, List.mem_range.mpr hp.2, rfl⟩, hown.1 hswept⟩
    obtain ⟨row, hmem, rfl⟩ := List.mem_map.mp htop
    by_cases heq : p.2 = row
    · exact .inr (heq ▸ hown.1 hswept)
    · exact .inl (hrow row (List.mem_range.mp hmem) heq)
  · intro hswept
    refine Paint.all_none.mpr fun top htop => ?_
    obtain ⟨row, hmem, rfl⟩ := List.mem_map.mp htop
    by_cases heq : p.2 = row
    · exact heq ▸ hown.2 hswept
    · exact hrow row (List.mem_range.mp hmem) heq

end Sweep

/-! ## The windows -/

/-- The lines of all close boxes that are drawn are computed without overflow. -/
def TitlesFit (d : Desktop) : Prop :=
  ∀ i, Drawn d i → (d.windows i).title ≠ [] → ∀ r ∈ guiCloseBoxRect (d.windows i), BoxFits r

instance (d : Desktop) (i : WindowId) : Decidable (Drawn d i) := by unfold Drawn; infer_instance

instance (d : Desktop) : Decidable (TitlesFit d) := by unfold TitlesFit; infer_instance

/-- One of the windows that are drawn is painted on the pixel. -/
def WindowInked (d : Desktop) (p : Pixel) : Prop := ∃ i, Drawn d i ∧ (d.windows i).Inked d.fb p

section Windows

variable {d : Desktop}

/-- The loop over the windows ends, and leaves out no pixel of a window that is drawn but those of the strip
below its top edge. -/
theorem guiDrawWindows_ends (htitles : TitlesFit d) : ∃ windows, Ends (guiDrawWindows · d) windows ∧
    (∀ i, Drawn d i → ∀ p, d.fb.Shows p → (d.windows i).Covers p → ¬ TitleStrip (d.windows i) p →
      windows p ≠ none) ∧
    ((∀ i, (d.windows i).title.length < guiTitleLen) → ∀ p, windows p ≠ none ↔ d.fb.Shows p ∧ WindowInked d p) := by
  obtain ⟨ids, hids, hmem, -⟩ := guiWindowsAbove_order d 0
  choose! paint hpaint using fun i (hi : Drawn d i) =>
    guiDrawWindow_inked d.fb (d.focusedWindowId = some i) (htitles i hi)
  have hdrawn : ∀ i, i ∈ ids ↔ Drawn d i := fun i => (hmem i).trans ⟨fun h => h.1, fun h => ⟨h, h.2.1⟩⟩
  refine ⟨.all (ids.map paint), hids.bind ((Ends.mapM fun i hi => (hpaint i ((hdrawn i).mp hi)).1).bind (.pure _)),
    fun i hi p hp hcovers hstrip hnone => ?_, fun hlength p => ?_⟩
  · obtain ⟨n, hn⟩ := (hpaint i hi).1
    refine guiDrawWindow_some hi.1 (hn (n + 1) (by omega)) hp hcovers hstrip ?_
    exact Paint.all_none.mp hnone _ (List.mem_map_of_mem ((hdrawn i).mpr hi))
  · rw [ne_eq, Paint.all_none]
    simp only [List.forall_mem_map, not_forall]
    constructor
    · rintro ⟨i, hi, hinked⟩
      obtain ⟨hp, h⟩ := ((hpaint i ((hdrawn i).mp hi)).2 (hlength i) p).mp hinked
      exact ⟨hp, i, (hdrawn i).mp hi, h⟩
    · rintro ⟨hp, i, hi, hinked⟩
      exact ⟨i, (hdrawn i).mpr hi, ((hpaint i hi).2 (hlength i) p).mpr ⟨hp, hinked⟩⟩

end Windows

/-! ## Full redraws -/

section Full

variable {d : Desktop} {p : Pixel}

/-- A screen with a title bar that has a close box. -/
def titledDesktop : Desktop :=
  guiRun (sampleDesktop ⟨64, 48⟩) [.create 1 4 4 40 40 0 0 (some [97]), .setTitleBar 0 12]

end Full

/-! ## Partial redraws -/

/-- The pixel is in the rectangle. -/
def DamageRect.Has (r : DamageRect) (p : Pixel) : Prop :=
  r.x ≤ p.1 ∧ p.1 < i32 (r.x + r.w) ∧ r.y ≤ p.2 ∧ p.2 < i32 (r.y + r.h)

def DamageClip.Has (c : DamageClip) (p : Pixel) : Prop := c.x0 ≤ p.1 ∧ p.1 < c.x1 ∧ c.y0 ≤ p.2 ∧ p.2 < c.y1

instance (c : DamageClip) (p : Pixel) : Decidable (c.Has p) := by unfold DamageClip.Has; infer_instance

/-- The place of the cursor is an `int32_t`. -/
def Cursor.Placed (cursor : Cursor) : Prop :=
  (-2147483648 ≤ cursor.x ∧ cursor.x < 2147483648) ∧ (-2147483648 ≤ cursor.y ∧ cursor.y < 2147483648)

/-- The colours of a partial redraw for one rectangle. -/
def damagePaint (d : Desktop) (windows : FbPaint) (c : DamageClip) : FbPaint :=
  (if MeetsCursor d.cursor c then guiDrawVisibleCursor d else .clear).atop (windows.atop (guiFillDamage d c))

section Partial

variable {d : Desktop} {p : Pixel} {c : DamageClip} {r : DamageRect} {rects : List DamageRect}

theorem FbSize.Fits.s32 {fb : FbSize} (hfb : fb.Fits) :
    s32 fb.width = fb.width.toNat ∧ s32 fb.height = fb.height.toNat := by
  obtain ⟨⟨-, hw⟩, -, hh⟩ := hfb
  exact ⟨s32_toNat (by omega), s32_toNat (by omega)⟩

theorem damageClip_some (hfb : d.fb.Fits) (h : damageClip d.fb r = some c) :
    0 ≤ c.x0 ∧ c.x1 ≤ d.fb.width.toNat ∧ 0 ≤ c.y0 ∧ c.y1 ≤ d.fb.height.toNat ∧ c.x0 < c.x1 ∧ c.y0 < c.y1 := by
  unfold damageClip at h
  rw [hfb.s32.1, hfb.s32.2] at h
  dsimp only at h
  split at h
  · cases h
  · cases h
    simp only
    omega

/-- The rectangles have the pixels of the screen that their clipped parts have. -/
theorem damageClip_has (hfb : d.fb.Fits) (hp : d.fb.Shows p) :
    (∃ r ∈ rects, r.Has p) ↔ ∃ c ∈ rects.filterMap (damageClip d.fb), c.Has p := by
  have hone : ∀ r : DamageRect, r.Has p ↔ ∃ c, damageClip d.fb r = some c ∧ c.Has p := by
    intro r
    obtain ⟨hw, hh⟩ := hp
    unfold damageClip DamageRect.Has DamageClip.Has
    rw [hfb.s32.1, hfb.s32.2]
    dsimp only
    constructor
    · intro h
      refine ⟨_, if_neg ?_, ?_⟩
      · omega
      · dsimp only
        omega
    · rintro ⟨c, hc, hhas⟩
      split at hc
      · cases hc
      · cases hc
        dsimp only at hhas
        omega
  simp only [List.mem_filterMap, hone]
  constructor
  · rintro ⟨r, hr, c, hc, hhas⟩
    exact ⟨c, ⟨r, hr, hc⟩, hhas⟩
  · rintro ⟨c, ⟨r, hr, hc⟩, hhas⟩
    exact ⟨r, hr, c, hc, hhas⟩

/-- The background of a rectangle. -/
theorem guiFillDamage_apply (hfb : d.fb.Fits) (hc : damageClip d.fb r = some c) (hp : d.fb.Shows p) :
    guiFillDamage d c p = if c.Has p then some (guiBackground d (UInt32.ofNat p.2)) else none := by
  obtain ⟨hx0, hx1, hy0, hy1, hx, hy⟩ := damageClip_some hfb hc
  obtain ⟨⟨-, hw⟩, -, hh⟩ := hfb
  have hrows : ∀ k < (c.y1 - c.y0).toNat, fbFillrect d.fb (u32 c.x0) (u32 (c.y0 + k)) (u32 (c.x1 - c.x0)) 1
      (guiBackground d (u32 (c.y0 + k))) p =
        if (p.2 : Int) = c.y0 + k ∧ c.Has p then some (guiBackground d (UInt32.ofNat p.2)) else none := by
    intro k hk
    have hrow : (u32 (c.y0 + k)).toNat = (c.y0 + k).toNat := u32_toNat (by omega) (by omega)
    have hleft := u32_toNat hx0 (by omega)
    have hwidth : (u32 (c.x1 - c.x0)).toNat = (c.x1 - c.x0).toNat := u32_toNat (by omega) (by omega)
    rw [fillSpan hp]
    by_cases heq : (p.2 : Int) = c.y0 + k
    · have hword : u32 (c.y0 + k) = UInt32.ofNat p.2 := by
        rw [← UInt32.toNat_inj, UInt32.toNat_ofNat_of_lt' (hp.2.trans d.fb.height.toNat_lt)]
        omega
      rw [hword]
      rw [hword] at hrow
      congr 1
      simp only [DamageClip.Has, eq_iff_iff]
      omega
    · rw [if_neg (by omega), if_neg (by omega)]
  split
  · rename_i hhas
    have hk : (p.2 - c.y0).toNat < (c.y1 - c.y0).toNat := by
      unfold DamageClip.Has at hhas
      omega
    have hkrow : (p.2 : Int) = c.y0 + (p.2 - c.y0).toNat := by
      unfold DamageClip.Has at hhas
      omega
    refine Paint.all_agree (fun top htop => ?_) ⟨_, List.mem_map.mpr ⟨_, List.mem_range.mpr hk, rfl⟩, ?_⟩
    · obtain ⟨k, hmem, rfl⟩ := List.mem_map.mp htop
      rw [hrows k (List.mem_range.mp hmem)]
      split
      · exact .inr rfl
      · exact .inl rfl
    · rw [hrows _ hk, if_pos ⟨hkrow, hhas⟩]
  · rename_i hhas
    refine Paint.all_none.mpr fun top htop => ?_
    obtain ⟨k, hmem, rfl⟩ := List.mem_map.mp htop
    rw [hrows k (List.mem_range.mp hmem), if_neg (fun h => hhas h.2)]

/-- A rectangle that has a pixel of the cursor meets it. -/
theorem meetsCursor (hfb : d.fb.Fits) (hcursor : d.cursor.Placed) (hp : d.fb.Shows p)
    (hpaint : guiDrawVisibleCursor d p ≠ none) (hhas : c.Has p) : MeetsCursor d.cursor c := by
  unfold guiDrawVisibleCursor at hpaint
  split at hpaint
  · obtain ⟨color, hcolor⟩ := Option.ne_none_iff_exists'.mp hpaint
    obtain ⟨top, htop, hc⟩ := Paint.all_mem hcolor
    simp only [List.mem_flatMap, List.mem_map, List.mem_range] at htop
    obtain ⟨row, hrow, col, hcol, rfl⟩ := htop
    obtain ⟨⟨hx, hx'⟩, hy, hy'⟩ := hcursor
    obtain ⟨⟨-, hw⟩, -, hh⟩ := hfb
    generalize (if d.cursor.shape = guiCursorHand then cursorHandBitmap else cursorArrowBitmap) = bitmap at hc
    split at hc
    · cases hc
    · generalize (if (bitmap.getD row #[]).getD col 0 = 1 then (0xff101010 : UInt32) else 0xffe0e0e0) = dot at hc
      unfold fbPutpixel at hc
      split at hc
      · cases hc
      dsimp only at hc
      split at hc
      · rename_i heq
        obtain ⟨hp1, hp2⟩ := hp
        obtain ⟨h1, h2, h3, h4⟩ := hhas
        rw [heq] at hp1 hp2 h1 h2 h3 h4
        dsimp only at hp1 hp2 h1 h2 h3 h4
        -- the place of the pixel has not wrapped around
        have hplace : ∀ n k : Int, -2147483648 ≤ n → n < 2147483648 → 0 ≤ k → k < 16 →
            (u32 (i32 (n + k))).toNat ≤ 2 ^ 30 → ((u32 (i32 (n + k))).toNat : Int) = n + k := by
          intro n k hn hn' hk hk' hle
          unfold u32 i32 at *
          rw [UInt32.toNat_ofNat_of_lt' (by unfold UInt32.size; omega)] at *
          omega
        have hcol' : (col : Int) < 16 := by
          have : guiCursorW.toNat = 16 := rfl
          omega
        have hrow' : (row : Int) < 16 := by
          have : guiCursorH.toNat = 16 := rfl
          omega
        have hpx := hplace d.cursor.x col hx hx' (by omega) hcol' (by omega)
        have hpy := hplace d.cursor.y row hy hy' (by omega) hrow' (by omega)
        have hw16 : guiCursorW = 16 := rfl
        have hh16 : guiCursorH = 16 := rfl
        unfold MeetsCursor
        rw [hw16, hh16, i32_of_fits (by omega) (by omega), i32_of_fits (by omega) (by omega)]
        omega
      · cases hc
  · simp at hpaint

theorem damagePaint_apply (windows : FbPaint) : damagePaint d windows c p =
    (if MeetsCursor d.cursor c then guiDrawVisibleCursor d p else none).or ((windows p).or (guiFillDamage d c p)) := by
  unfold damagePaint
  split <;> rfl

/-- The pixel of the cursor has another colour in the windows, and the last of the rectangles does not meet the
cursor, so that the windows stay above it. -/
def CursorLost (d : Desktop) (windows : FbPaint) (clips : List DamageClip) (p : Pixel) : Prop :=
  ∃ color below, guiDrawVisibleCursor d p = some color ∧ windows p = some below ∧ below ≠ color ∧
    ∃ c ∈ clips.getLast?, ¬ MeetsCursor d.cursor c

/-- A pixel of a rectangle that a full redraw does not paint, and that does not have the background. -/
def Uncovered (d : Desktop) (windows : FbPaint) (clips : List DamageClip) (f : Pixel → UInt32) (p : Pixel) : Prop :=
  (∃ c ∈ clips, c.Has p) ∧ guiDrawVisibleCursor d p = none ∧ windows p = none ∧ ¬ Swept d p ∧
    f p ≠ guiBackground d (UInt32.ofNat p.2)

section Point

variable {windows sweep : FbPaint} {clips : List DamageClip} {f : Pixel → UInt32} {color below : UInt32}

/-- Below the cursor, where no window is. -/
theorem damagePaints_cursor (hfb : d.fb.Fits) (hcursor : d.cursor.Placed)
    (hclips : ∀ c ∈ clips, ∃ r, damageClip d.fb r = some c) (hp : d.fb.Shows p)
    (hcolor : guiDrawVisibleCursor d p = some color) (hwindows : windows p = none) :
    ((∃ c ∈ clips, c.Has p) → Paint.all (clips.map (damagePaint d windows)) p = some color) ∧
      (Paint.all (clips.map (damagePaint d windows)) p = some color ∨
        Paint.all (clips.map (damagePaint d windows)) p = none) := by
  have hone : ∀ c ∈ clips, (damagePaint d windows c p = none ∨ damagePaint d windows c p = some color) ∧
      (c.Has p → damagePaint d windows c p = some color) := by
    intro c hc
    obtain ⟨r, hr⟩ := hclips c hc
    rw [damagePaint_apply, hwindows, hcolor, Option.none_or, guiFillDamage_apply hfb hr hp]
    by_cases hhas : c.Has p
    · have hmeets : MeetsCursor d.cursor c := meetsCursor hfb hcursor hp (by simp [hcolor]) hhas
      simp [hmeets]
    · by_cases hmeets : MeetsCursor d.cursor c <;> simp [hhas, hmeets]
  have hagree : ∀ top ∈ clips.map (damagePaint d windows), top p = none ∨ top p = some color := fun top htop => by
    obtain ⟨c, hc, rfl⟩ := List.mem_map.mp htop
    exact (hone c hc).1
  constructor
  · rintro ⟨c, hc, hhas⟩
    exact Paint.all_agree hagree ⟨_, List.mem_map_of_mem hc, (hone c hc).2 hhas⟩
  · by_cases hsome : ∃ top ∈ clips.map (damagePaint d windows), top p = some color
    · exact .inl (Paint.all_agree hagree hsome)
    · refine .inr (Paint.all_none.mpr fun top htop => ?_)
      exact (hagree top htop).resolve_right fun h => hsome ⟨top, htop, h⟩

/-- Where neither the cursor nor a window is. -/
theorem damagePaints_background (hfb : d.fb.Fits) (hclips : ∀ c ∈ clips, ∃ r, damageClip d.fb r = some c)
    (hp : d.fb.Shows p) (hcolor : guiDrawVisibleCursor d p = none) (hwindows : windows p = none) :
    ((∃ c ∈ clips, c.Has p) →
        Paint.all (clips.map (damagePaint d windows)) p = some (guiBackground d (UInt32.ofNat p.2))) ∧
      ((¬ ∃ c ∈ clips, c.Has p) → Paint.all (clips.map (damagePaint d windows)) p = none) := by
  have hone : ∀ c ∈ clips, damagePaint d windows c p =
      if c.Has p then some (guiBackground d (UInt32.ofNat p.2)) else none := by
    intro c hc
    obtain ⟨r, hr⟩ := hclips c hc
    rw [damagePaint_apply, hwindows, hcolor, ite_self, Option.none_or, Option.none_or, guiFillDamage_apply hfb hr hp]
  constructor
  · rintro ⟨c, hc, hhas⟩
    refine Paint.all_agree (fun top htop => ?_) ⟨_, List.mem_map_of_mem hc, by rw [hone c hc, if_pos hhas]⟩
    obtain ⟨c, hc, rfl⟩ := List.mem_map.mp htop
    rw [hone c hc]
    split
    · exact .inr rfl
    · exact .inl rfl
  · intro hnone
    refine Paint.all_none.mpr fun top htop => ?_
    obtain ⟨c, hc, rfl⟩ := List.mem_map.mp htop
    rw [hone c hc, if_neg fun hhas => hnone ⟨c, hc, hhas⟩]

/-- Where a window is, the last rectangle decides. -/
theorem damagePaints_window (hwindows : windows p = some below) (c : DamageClip) :
    Paint.all ((clips ++ [c]).map (damagePaint d windows)) p =
      some (((if MeetsCursor d.cursor c then guiDrawVisibleCursor d p else none)).getD below) := by
  rw [List.map_append, List.map_singleton, Paint.all_append, Paint.atop_apply, damagePaint_apply, hwindows]
  cases (if MeetsCursor d.cursor c then guiDrawVisibleCursor d p else none) <;> simp

/-- One pixel of a partial redraw, if a full redraw leaves it outside of the rectangles. -/
theorem damagePaints_eq (hfb : d.fb.Fits) (hcursor : d.cursor.Placed)
    (hclips : ∀ c ∈ clips, ∃ r, damageClip d.fb r = some c) (hp : d.fb.Shows p)
    (hswept : (Swept d p → sweep p = some (guiBackground d (UInt32.ofNat p.2))) ∧ (¬ Swept d p → sweep p = none))
    (hsame : (¬ ∃ c ∈ clips, c.Has p) → ((guiDrawVisibleCursor d).atop (windows.atop sweep)).on f p = f p) :
    (Paint.all (clips.map (damagePaint d windows))).on f p =
      ((guiDrawVisibleCursor d).atop (windows.atop sweep)).on f p ↔
      ¬ CursorLost d windows clips p ∧ ¬ Uncovered d windows clips f p := by
  cases hcolor : guiDrawVisibleCursor d p with
  | none =>
    have hkept : ¬ CursorLost d windows clips p := by
      rintro ⟨color, below, h, -⟩
      rw [hcolor] at h
      cases h
    cases hwindows : windows p with
    | none =>
      obtain ⟨hin, hout⟩ := damagePaints_background hfb hclips hp hcolor hwindows
      by_cases hhas : ∃ c ∈ clips, c.Has p
      · rw [Paint.on_some (hin hhas)]
        by_cases hs : Swept d p
        · have hfull : ((guiDrawVisibleCursor d).atop (windows.atop sweep)) p =
              some (guiBackground d (UInt32.ofNat p.2)) := by simp [hcolor, hwindows, hswept.1 hs]
          rw [Paint.on_some hfull]
          exact iff_of_true rfl ⟨hkept, fun h => h.2.2.2.1 hs⟩
        · have hfull : ((guiDrawVisibleCursor d).atop (windows.atop sweep)) p = none := by
            simp [hcolor, hwindows, hswept.2 hs]
          rw [Paint.on_none hfull]
          constructor
          · exact fun h => ⟨hkept, fun hun => hun.2.2.2.2 h.symm⟩
          · rintro ⟨-, hun⟩
            by_contra hne
            exact hun ⟨hhas, hcolor, hwindows, hs, fun h => hne h.symm⟩
      · rw [Paint.on_none (hout hhas), hsame hhas]
        exact iff_of_true rfl ⟨hkept, fun h => hhas h.1⟩
    | some below =>
      refine iff_of_true ?_ ⟨hkept, fun ⟨_, _, h, _⟩ => by simp [hwindows] at h⟩
      have hfull : ((guiDrawVisibleCursor d).atop (windows.atop sweep)) p = some below := by simp [hcolor, hwindows]
      rw [Paint.on_some hfull]
      rcases List.eq_nil_or_concat clips with rfl | ⟨clips, c, rfl⟩
      · have hf := hsame (by simp)
        rw [Paint.on_some hfull] at hf
        exact hf.symm
      · rw [List.concat_eq_append, Paint.on_some (damagePaints_window hwindows c), hcolor, ite_self, Option.getD_none]
  | some color =>
    have hcovered : ¬ Uncovered d windows clips f p := by
      rintro ⟨-, h, -⟩
      rw [hcolor] at h
      cases h
    have hfull : ((guiDrawVisibleCursor d).atop (windows.atop sweep)) p = some color := by simp [hcolor]
    rw [Paint.on_some hfull]
    rw [Paint.on_some hfull] at hsame
    cases hwindows : windows p with
    | none =>
      refine iff_of_true ?_ ⟨fun ⟨_, _, _, h, _⟩ => by simp [hwindows] at h, hcovered⟩
      obtain ⟨hin, hany⟩ := damagePaints_cursor hfb hcursor hclips hp hcolor hwindows
      by_cases hhas : ∃ c ∈ clips, c.Has p
      · exact Paint.on_some (hin hhas) f
      · rcases hany with hsome | hnone
        · exact Paint.on_some hsome f
        · rw [Paint.on_none hnone]
          exact (hsame hhas).symm
    | some below =>
      rcases List.eq_nil_or_concat clips with rfl | ⟨clips, c, rfl⟩
      · refine iff_of_true (hsame (by simp)).symm ⟨?_, hcovered⟩
        rintro ⟨_, _, _, _, _, c, hc, _⟩
        simp at hc
      · rw [List.concat_eq_append] at hcovered ⊢
        rw [Paint.on_some (damagePaints_window hwindows c), hcolor]
        by_cases hmeets : MeetsCursor d.cursor c
        · rw [if_pos hmeets]
          refine iff_of_true rfl ⟨?_, hcovered⟩
          rintro ⟨_, _, _, _, _, c', hc, hnot⟩
          simp only [List.getLast?_append, List.getLast?_singleton, Option.some_or, Option.mem_def,
            Option.some.injEq] at hc
          exact hnot (hc ▸ hmeets)
        · rw [if_neg hmeets, Option.getD_none]
          constructor
          · rintro rfl
            refine ⟨?_, hcovered⟩
            rintro ⟨color, below', hc, hb, hne, -⟩
            rw [hcolor] at hc
            rw [hwindows] at hb
            cases hc
            cases hb
            exact hne rfl
          · rintro ⟨hkept, -⟩
            by_contra hne
            exact hkept ⟨color, below, hcolor, hwindows, hne, c, by simp, hmeets⟩

end Point

/-- Every redraw of a damage list ends. If a full redraw would leave the picture as it is outside of the rectangles,
then it leaves what a full one would, exactly if at no pixel the cursor is lost, and none is left uncovered. -/
theorem guiDrawPartial_full (hfb : d.fb.Fits) (hcursor : d.cursor.Placed) (htitles : TitlesFit d)
    (rects : List DamageRect) : ∃ full part windows, Ends (guiDrawFull · d) full ∧
      Ends (guiDrawPartial · d rects) part ∧ Ends (guiDrawWindows · d) windows ∧ ∀ f,
        (∀ p, d.fb.Shows p → (¬ ∃ r ∈ rects, r.Has p) → full.on f p = f p) →
          ((∀ p, d.fb.Shows p → part.on f p = full.on f p) ↔ ∀ p, d.fb.Shows p →
            ¬ CursorLost d windows (rects.filterMap (damageClip d.fb)) p ∧
              ¬ Uncovered d windows (rects.filterMap (damageClip d.fb)) f p) := by
  obtain ⟨sweep, hsweep, hswept⟩ := guiSweep_ends d
  obtain ⟨windows, hwindows, -⟩ := guiDrawWindows_ends htitles
  have hclips : ∀ c ∈ rects.filterMap (damageClip d.fb), ∃ r, damageClip d.fb r = some c := fun c hc => by
    obtain ⟨r, -, hr⟩ := List.mem_filterMap.mp hc
    exact ⟨r, hr⟩
  have hdamage : ∀ c, Ends (guiDrawDamage · d c) (damagePaint d windows c) := fun c => hwindows.bind (.pure _)
  refine ⟨_, _, windows, hsweep.bind (hwindows.bind (.pure _)), (Ends.mapM fun c _ => hdamage c).map _, hwindows,
    fun f hsame => ?_⟩
  have hpixel : ∀ p, d.fb.Shows p → _ := fun p hp => damagePaints_eq (f := f) hfb hcursor hclips hp (hswept p hp)
    fun hout => hsame p hp (by rwa [damageClip_has hfb hp])
  exact forall₂_congr hpixel

theorem guiDrawPartial_full_sample : ∃ full part windows, Ends (guiDrawFull · titledDesktop) full ∧
    Ends (guiDrawPartial · titledDesktop [⟨0, 0, 8, 8⟩]) part ∧ Ends (guiDrawWindows · titledDesktop) windows ∧ ∀ f,
      (∀ p, titledDesktop.fb.Shows p → (¬ ∃ r ∈ [(⟨0, 0, 8, 8⟩ : DamageRect)], r.Has p) → full.on f p = f p) →
        ((∀ p, titledDesktop.fb.Shows p → part.on f p = full.on f p) ↔ ∀ p, titledDesktop.fb.Shows p →
          ¬ CursorLost titledDesktop windows ([⟨0, 0, 8, 8⟩].filterMap (damageClip titledDesktop.fb)) p ∧
            ¬ Uncovered titledDesktop windows ([⟨0, 0, 8, 8⟩].filterMap (damageClip titledDesktop.fb)) f p) :=
  guiDrawPartial_full ⟨by decide +kernel, by decide +kernel⟩ ⟨by decide +kernel, by decide +kernel⟩
    (by decide +kernel) _

/-- A window covers the screen, with the cursor over it, and the corner away from the cursor is redrawn. -/
theorem partial_loses_cursor : ∃ full part,
    guiDrawFull 20 (guiRun (guiInit ⟨10, 10⟩ 0xff202428 (sampleDesktop ⟨10, 10⟩)) [.create 1 0 0 10 10 0 0 none]) =
      some full ∧
    guiDrawPartial 20 (guiRun (guiInit ⟨10, 10⟩ 0xff202428 (sampleDesktop ⟨10, 10⟩)) [.create 1 0 0 10 10 0 0 none])
      [⟨0, 0, 2, 2⟩] = some part ∧
    (∀ p, full.on (full.on fun _ => 0) p = full.on (fun _ => 0) p) ∧
    part.on (full.on fun _ => 0) (5, 5) ≠ full.on (full.on fun _ => 0) (5, 5) := by
  have hcursor : (guiDrawFull 20 (guiRun (guiInit ⟨10, 10⟩ 0xff202428 (sampleDesktop ⟨10, 10⟩))
      [.create 1 0 0 10 10 0 0 none])).map (fun full => full (5, 5)) = some (some 0xff101010) := by decide +kernel
  have hwindow : (guiDrawPartial 20 (guiRun (guiInit ⟨10, 10⟩ 0xff202428 (sampleDesktop ⟨10, 10⟩))
      [.create 1 0 0 10 10 0 0 none]) [⟨0, 0, 2, 2⟩]).map (fun part => part (5, 5)) = some (some 0) := by
    decide +kernel
  obtain ⟨full, hfull, hc⟩ := Option.map_eq_some_iff.mp hcursor
  obtain ⟨part, hpart, hw⟩ := Option.map_eq_some_iff.mp hwindow
  refine ⟨full, part, hfull, hpart, fun p => ?_, ?_⟩
  · cases hp : full p with
    | none => simp only [Paint.on, hp, Option.getD_none]
    | some c => simp only [Paint.on, hp, Option.getD_some]
  · rw [Paint.on_some hw, Paint.on_some hc]
    decide

end Partial

/-! ## Clicks -/

/-- `gui_draw` shows the window at the pixel. -/
def PaintsAt (d : Desktop) (i : WindowId) (p : Pixel) : Prop := Drawn d i ∧ (d.windows i).Covers p

/-- The hit test gives the highest of the windows that are shown at the pixel. -/
def HitsTop (d : Desktop) (p : Pixel) : Prop :=
  ∀ i, guiHitTest p.1 p.2 d = some i ↔
    PaintsAt d i p ∧ ∀ j, PaintsAt d j p → (d.windows j).z ≤ (d.windows i).z

section Clicks

variable {d : Desktop} {i j : WindowId} {p : Pixel}

/-- Windows that are drawn have different `z`. -/
theorem Drawn.eq_of_z (hi : Drawn d i) (hj : Drawn d j) (hz : (d.windows i).z = (d.windows j).z) : i = j := by
  rcases lt_trichotomy i j with hlt | heq | hlt
  · exact absurd hz (hj.2.2.2 i hlt hi.1)
  · exact heq
  · exact absurd hz.symm (hi.2.2.2 j hlt hj.1)

theorem PaintsAt.contains (h : PaintsAt d i p) : GuiWindowContains (d.windows i) p.1 p.2 := by
  obtain ⟨hx, hxw, hy, hyh⟩ := h.2
  have hle : ∀ n : UInt32, s32 n ≤ n.toNat := fun n => by
    have := n.toNat_lt
    unfold s32 i32
    omega
  have hx' := hle (d.windows i).x
  have hy' := hle (d.windows i).y
  exact ⟨h.1.1.1, by omega, by omega, by omega, by omega⟩

/-- Of the windows that contain the point the hit test gives the one with the highest `z`, and of those the one
with the highest place. -/
theorem guiHitTest_some {x y : Int} (h : guiHitTest x y d = some i) : GuiWindowContains (d.windows i) x y ∧
    ∀ j ≠ i, GuiWindowContains (d.windows j) x y →
      (d.windows j).z < (d.windows i).z ∨ (d.windows j).z = (d.windows i).z ∧ j < i := by
  obtain ⟨hcontains, before, after, hids, hbefore, hafter⟩ := scan_greatest (fun i => (d.windows i).z.toNat) h
  have hsorted : (before ++ i :: after).Pairwise (· < ·) := hids ▸ List.pairwise_lt_finRange _
  refine ⟨hcontains, fun j hne hj => ?_⟩
  have hmem : j ∈ before ++ i :: after := hids ▸ List.mem_finRange j
  simp only [List.mem_append, List.mem_cons, hne, false_or] at hmem
  rcases hmem with hjb | hja
  · rcases (hbefore j hjb hj).lt_or_eq with hlt | heq
    · exact .inl (UInt32.lt_iff_toNat_lt.mpr hlt)
    · exact .inr ⟨UInt32.toNat_inj.mp heq, (List.pairwise_append.mp hsorted).2.2 j hjb i (by simp)⟩
  · exact .inl (UInt32.lt_iff_toNat_lt.mpr (hafter j hja hj))

/-- A click goes to the window that is seen, exactly if each window that contains the point and is not shown there
has one above it that is. -/
theorem guiHitTest_painted (d : Desktop) (p : Pixel) : HitsTop d p ↔
    ∀ j, GuiWindowContains (d.windows j) p.1 p.2 → ¬ PaintsAt d j p →
      ∃ i, PaintsAt d i p ∧ ((d.windows j).z < (d.windows i).z ∨ (d.windows j).z = (d.windows i).z ∧ j < i) := by
  have hhit : ∀ j, GuiWindowContains (d.windows j) p.1 p.2 → ∃ b, guiHitTest p.1 p.2 d = some b := by
    intro j hj
    cases hscan : guiHitTest p.1 p.2 d with
    | none => exact absurd hj (scan_none.mp hscan j (List.mem_finRange j))
    | some b => exact ⟨b, rfl⟩
  constructor
  · intro htop j hj hpaints
    obtain ⟨b, hb⟩ := hhit j hj
    have hbpaints := ((htop b).mp hb).1
    have hne : j ≠ b := by
      rintro rfl
      exact hpaints hbpaints
    exact ⟨b, hbpaints, (guiHitTest_some hb).2 j hne hj⟩
  · intro hcover i
    constructor
    · intro hi
      obtain ⟨hcontains, habove⟩ := guiHitTest_some hi
      have hpaints : PaintsAt d i p := by
        by_contra hnot
        obtain ⟨b, hb, hz⟩ := hcover i hcontains hnot
        have hne : b ≠ i := by
          rintro rfl
          exact hnot hb
        have := habove b hne hb.contains
        grind
      refine ⟨hpaints, fun j hj => ?_⟩
      by_cases heq : j = i
      · rw [heq]
        exact UInt32.le_refl _
      · rcases habove j heq hj.contains with hlt | ⟨heq, -⟩
        · exact UInt32.le_of_lt hlt
        · rw [heq]
          exact UInt32.le_refl _
    · rintro ⟨hi, htop⟩
      obtain ⟨b, hb⟩ := hhit i hi.contains
      obtain ⟨hcontains, habove⟩ := guiHitTest_some hb
      by_cases heq : i = b
      · rw [heq, hb]
      exfalso
      have hib := habove i heq hi.contains
      by_cases hbp : PaintsAt d b p
      · have hle := htop b hbp
        have hz : (d.windows i).z = (d.windows b).z := by grind
        exact heq (hi.1.eq_of_z hbp.1 hz)
      · obtain ⟨c, hc, hbc⟩ := hcover b hcontains hbp
        rcases hib with hlt | ⟨hz, hib⟩ <;> rcases hbc with hlt' | ⟨hz', hbc⟩
        · exact absurd (UInt32.lt_trans hlt hlt') (UInt32.not_lt.mpr (htop c hc))
        · exact absurd (hz' ▸ hlt) (UInt32.not_lt.mpr (htop c hc))
        · exact absurd (hz ▸ hlt') (UInt32.not_lt.mpr (htop c hc))
        · have hci := hi.1.eq_of_z hc.1 (hz.trans hz')
          exact lt_asymm (hci ▸ hib) hbc

/-- A window is minimized; a click where it was goes to it. -/
theorem minimized_takes_clicks : ¬ HitsTop (guiRun (guiInit ⟨10, 10⟩ 0xff202428 (sampleDesktop ⟨10, 10⟩))
    [.create guiNoOwner 2 2 4 4 0 0 none, .minimize 0]) (3, 3) := by
  intro h
  have hhit : guiHitTest 3 3 (guiRun (guiInit ⟨10, 10⟩ 0xff202428 (sampleDesktop ⟨10, 10⟩))
      [.create guiNoOwner 2 2 4 4 0 0 none, .minimize 0]) = some 0 := by decide +kernel
  have hvisible := ((h 0).mp hhit).1.1.1
  revert hvisible
  decide +kernel

end Clicks

end Armonios
