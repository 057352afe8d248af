import Armonios.Gui.Redraw

/-!
# What the damage covers

* `DamageOk`: the rectangles of the list are on the screen, and there is room for them;
* `damageUnion_has`, `mergeDamage_covers`: the merge pass loses no pixel;
* `guiDamageAdd_covers`: nor does `gui_damage_add`.
-/

namespace Armonios

variable {fb : FbSize} {s : Damage} {a b r rect : DamageRect} {rects : List DamageRect} {x y w h : Int} {p : Pixel}

/-- The pixels that a redraw will draw. -/
def Damage.Covers (s : Damage) (p : Pixel) : Prop := s.full = true ∨ ∃ r ∈ s.rects, r.Has p

/-- A rectangle that is not empty, on the screen. -/
structure DamageRect.Inside (fb : FbSize) (r : DamageRect) : Prop where
  left : 0 ≤ r.x
  width : 0 < r.w
  right : r.x + r.w ≤ fb.width.toNat
  top : 0 ≤ r.y
  height : 0 < r.h
  bottom : r.y + r.h ≤ fb.height.toNat

structure DamageOk (fb : FbSize) (s : Damage) : Prop where
  count : s.rects.length ≤ guiDamageMax
  inside : ∀ r ∈ s.rects, r.Inside fb

/-- The pixels of a rectangle whose ends are taken without wrap. -/
def AreaHas (x y w h : Int) (p : Pixel) : Prop := x ≤ p.1 ∧ p.1 < x + w ∧ y ≤ p.2 ∧ p.2 < y + h

/-- `int32_t` arguments. -/
structure Int32Args (x y w h : Int) : Prop where
  x : -2147483648 ≤ x ∧ x < 2147483648
  y : -2147483648 ≤ y ∧ y < 2147483648
  w : -2147483648 ≤ w ∧ w < 2147483648
  h : -2147483648 ≤ h ∧ h < 2147483648

/-! ## Clipping -/

/-- The ends of a rectangle on the screen do not wrap. -/
theorem DamageRect.Inside.ends (hfb : fb.Fits) (hr : r.Inside fb) :
    i32 (r.x + r.w) = r.x + r.w ∧ i32 (r.y + r.h) = r.y + r.h := by
  obtain ⟨⟨-, hw⟩, -, hh⟩ := hfb
  obtain ⟨hx, hw0, hright, hy, hh0, hbottom⟩ := hr
  exact ⟨i32_of_fits (by omega) (by omega), i32_of_fits (by omega) (by omega)⟩

theorem DamageRect.Inside.has (hfb : fb.Fits) (hr : r.Inside fb) : r.Has p ↔ AreaHas r.x r.y r.w r.h p := by
  obtain ⟨hx, hy⟩ := hr.ends hfb
  rw [DamageRect.Has, hx, hy, AreaHas]

/-- What is left of a rectangle: the part of it on the screen. -/
theorem guiClipDamage_eq (hfb : fb.Fits) (hargs : Int32Args x y w h) : guiClipDamage fb x y w h =
    if w ≤ 0 ∨ h ≤ 0 ∨ fb.width.toNat ≤ x ∨ fb.height.toNat ≤ y ∨ x + w ≤ 0 ∨ y + h ≤ 0 then none
    else some ⟨max x 0, max y 0, min (x + w) fb.width.toNat - max x 0, min (y + h) fb.height.toNat - max y 0⟩ := by
  obtain ⟨hsw, hsh⟩ := hfb.s32
  obtain ⟨⟨hw1, hw2⟩, hh1, hh2⟩ := hfb
  obtain ⟨hx, hy, hw, hh⟩ := hargs
  unfold guiClipDamage
  rw [hsw, hsh]
  by_cases hempty : w ≤ 0 ∨ h ≤ 0
  · rw [if_pos hempty, if_pos (by omega)]
  rw [if_neg hempty]
  -- the first cut takes the part left of the screen, the second one the part right of it
  have hleft : (if x < 0 then i32 (w + x) else w) = x + w - max x 0 := by
    split
    · rw [i32_of_fits] <;> omega
    · omega
  have htop : (if y < 0 then i32 (h + y) else h) = y + h - max y 0 := by
    split
    · rw [i32_of_fits] <;> omega
    · omega
  dsimp only
  rw [hleft, htop]
  by_cases hout : (fb.width.toNat : Int) ≤ max x 0 ∨ (fb.height.toNat : Int) ≤ max y 0
  · rw [if_pos hout, if_pos (by omega)]
  rw [if_neg hout]
  have hright : (if (fb.width.toNat : Int) < max x 0 + (x + w - max x 0) then i32 (fb.width.toNat - max x 0)
      else x + w - max x 0) = min (x + w) fb.width.toNat - max x 0 := by
    split
    · rw [i32_of_fits] <;> omega
    · omega
  have hbottom : (if (fb.height.toNat : Int) < max y 0 + (y + h - max y 0) then i32 (fb.height.toNat - max y 0)
      else y + h - max y 0) = min (y + h) fb.height.toNat - max y 0 := by
    split
    · rw [i32_of_fits] <;> omega
    · omega
  rw [hright, hbottom]
  by_cases hnothing : min (x + w) fb.width.toNat - max x 0 ≤ 0 ∨ min (y + h) fb.height.toNat - max y 0 ≤ 0
  · rw [if_pos hnothing, if_pos (by omega)]
  · rw [if_neg hnothing, if_neg (by omega)]

theorem guiClipDamage_some (hfb : fb.Fits) (hargs : Int32Args x y w h) (hclip : guiClipDamage fb x y w h = some r) :
    r.Inside fb ∧ ∀ p, fb.Shows p → AreaHas x y w h p → r.Has p := by
  rw [guiClipDamage_eq hfb hargs] at hclip
  split at hclip
  · cases hclip
  rename_i hrest
  cases hclip
  have hinside : DamageRect.Inside fb
      ⟨max x 0, max y 0, min (x + w) fb.width.toNat - max x 0, min (y + h) fb.height.toNat - max y 0⟩ := by
    obtain ⟨⟨hw1, -⟩, hh1, -⟩ := hfb
    constructor <;> dsimp only <;> omega
  refine ⟨hinside, fun p hp harea => (hinside.has hfb).mpr ?_⟩
  obtain ⟨hp1, hp2⟩ := hp
  unfold AreaHas at harea ⊢
  dsimp only
  omega

theorem guiClipDamage_none (hfb : fb.Fits) (hargs : Int32Args x y w h) (hclip : guiClipDamage fb x y w h = none)
    (hp : fb.Shows p) : ¬ AreaHas x y w h p := by
  rw [guiClipDamage_eq hfb hargs] at hclip
  split at hclip
  · rename_i hout
    obtain ⟨hp1, hp2⟩ := hp
    unfold AreaHas
    omega
  · cases hclip

/-! ## Merging -/

/-- The union of two rectangles on the screen. -/
theorem damageUnion_eq (hfb : fb.Fits) (ha : a.Inside fb) (hb : b.Inside fb) :
    damageUnion a b = ⟨min a.x b.x, min a.y b.y, max (a.x + a.w) (b.x + b.w) - min a.x b.x,
      max (a.y + a.h) (b.y + b.h) - min a.y b.y⟩ := by
  unfold damageUnion
  rw [(ha.ends hfb).1, (ha.ends hfb).2, (hb.ends hfb).1, (hb.ends hfb).2]
  obtain ⟨⟨-, hw⟩, -, hh⟩ := hfb
  obtain ⟨ha1, ha2, ha3, ha4, ha5, ha6⟩ := ha
  obtain ⟨hb1, hb2, hb3, hb4, hb5, hb6⟩ := hb
  have hwidth : i32 (max (a.x + a.w) (b.x + b.w) - min a.x b.x) = max (a.x + a.w) (b.x + b.w) - min a.x b.x :=
    i32_of_fits (by omega) (by omega)
  have hheight : i32 (max (a.y + a.h) (b.y + b.h) - min a.y b.y) = max (a.y + a.h) (b.y + b.h) - min a.y b.y :=
    i32_of_fits (by omega) (by omega)
  dsimp only
  rw [hwidth, hheight]

theorem damageUnion_inside (hfb : fb.Fits) (ha : a.Inside fb) (hb : b.Inside fb) : (damageUnion a b).Inside fb := by
  rw [damageUnion_eq hfb ha hb]
  obtain ⟨ha1, ha2, ha3, ha4, ha5, ha6⟩ := ha
  obtain ⟨hb1, hb2, hb3, hb4, hb5, hb6⟩ := hb
  constructor <;> dsimp only <;> omega

theorem damageUnion_has (hfb : fb.Fits) (ha : a.Inside fb) (hb : b.Inside fb) (hp : a.Has p ∨ b.Has p) :
    (damageUnion a b).Has p := by
  rw [(damageUnion_inside hfb ha hb).has hfb, damageUnion_eq hfb ha hb]
  rw [ha.has hfb, hb.has hfb] at hp
  unfold AreaHas at hp ⊢
  dsimp only
  omega

/-- The merge pass covers what the rectangle and the list covered, with rectangles on the screen and no more of
them. -/
theorem mergeDamage_covers (hfb : fb.Fits) (hrect : rect.Inside fb) (hrects : ∀ r ∈ rects, r.Inside fb) :
    (mergeDamage rect rects).1.Inside fb ∧ (∀ r ∈ (mergeDamage rect rects).2, r.Inside fb) ∧
      (mergeDamage rect rects).2.length ≤ rects.length ∧
      ∀ p, (rect.Has p ∨ ∃ r ∈ rects, r.Has p) →
        (mergeDamage rect rects).1.Has p ∨ ∃ r ∈ (mergeDamage rect rects).2, r.Has p := by
  induction rects generalizing rect with
  | nil => exact ⟨hrect, by simp [mergeDamage], Nat.le_refl _, fun p hp => hp⟩
  | cons q rects ih =>
    obtain ⟨hq, hrest⟩ := List.forall_mem_cons.mp hrects
    unfold mergeDamage
    split
    · -- `q` goes into the rectangle
      obtain ⟨hinside, hothers, hlength, hcovers⟩ := ih (damageUnion_inside hfb hrect hq) hrest
      refine ⟨hinside, hothers, Nat.le_succ_of_le hlength, fun p hp => hcovers p ?_⟩
      simp only [List.mem_cons, exists_eq_or_imp] at hp
      rcases hp with hp | hp | hp
      · exact .inl (damageUnion_has hfb hrect hq (.inl hp))
      · exact .inl (damageUnion_has hfb hrect hq (.inr hp))
      · exact .inr hp
    · obtain ⟨hinside, hothers, hlength, hcovers⟩ := ih hrect hrest
      refine ⟨hinside, List.forall_mem_cons.mpr ⟨hq, hothers⟩, Nat.succ_le_succ hlength, fun p hp => ?_⟩
      simp only [List.mem_cons, exists_eq_or_imp] at hp ⊢
      rcases hp with hp | hp | hp
      · exact (hcovers p (.inl hp)).imp_right .inr
      · exact .inr (.inl hp)
      · exact (hcovers p (.inr hp)).imp_right .inr

/-! ## The calls -/

theorem damageOk_clear : DamageOk fb guiClearDirty := ⟨Nat.zero_le _, by simp [guiClearDirty]⟩

theorem damageOk_redraw : DamageOk fb guiRequestRedraw := ⟨Nat.zero_le _, by simp [guiRequestRedraw]⟩

theorem guiDamageAdd_ok (hfb : fb.Fits) (hs : DamageOk fb s) (hargs : Int32Args x y w h) :
    DamageOk fb (guiDamageAdd fb x y w h s) ∧ ∀ p, fb.Shows p → (s.Covers p ∨ AreaHas x y w h p) →
      (guiDamageAdd fb x y w h s).Covers p := by
  have hwhole : DamageOk fb { s with rects := [], full := true } := ⟨Nat.zero_le _, by simp⟩
  unfold guiDamageAdd
  split
  · rename_i hfull
    exact ⟨hs, fun _ _ _ => .inl hfull⟩
  rename_i hfull
  cases hclip : guiClipDamage fb x y w h with
  | none => exact ⟨hs, fun p hp hcovers => hcovers.resolve_right (guiClipDamage_none hfb hargs hclip hp)⟩
  | some rect =>
    obtain ⟨hrect, hhas⟩ := guiClipDamage_some hfb hargs hclip
    obtain ⟨hinside, hothers, hlength, hcovers⟩ := mergeDamage_covers hfb hrect hs.inside
    dsimp only
    split
    · exact ⟨hwhole, fun _ _ _ => .inl rfl⟩
    split
    · exact ⟨hwhole, fun _ _ _ => .inl rfl⟩
    rename_i hroom
    refine ⟨⟨?_, fun r hr => ?_⟩, fun p hp hcov => .inr ?_⟩
    · rw [List.length_append, List.length_singleton]
      omega
    · rcases List.mem_append.mp hr with hr | hr
      · exact hothers r hr
      · rw [List.mem_singleton.mp hr]
        exact hinside
    · have hbefore : rect.Has p ∨ ∃ r ∈ s.rects, r.Has p := by
        rcases hcov with (hf | hlist) | harea
        · exact absurd hf hfull
        · exact .inr hlist
        · exact .inl (hhas p hp harea)
      rcases hcovers p hbefore with hmerged | ⟨r, hr, hrp⟩
      · exact ⟨_, List.mem_append_right _ (List.mem_singleton.mpr rfl), hmerged⟩
      · exact ⟨r, List.mem_append_left _ hr, hrp⟩

/-- Adding a rectangle loses no pixel, from any damage that the calls leave. -/
structure DamageLaws (fb : FbSize) : Prop where
  clear : DamageOk fb guiClearDirty
  full : DamageOk fb guiRequestRedraw
  add : ∀ s, DamageOk fb s → ∀ x y w h, Int32Args x y w h → DamageOk fb (guiDamageAdd fb x y w h s)
  kept : ∀ s, DamageOk fb s → ∀ x y w h, Int32Args x y w h → ∀ p, fb.Shows p → s.Covers p →
    (guiDamageAdd fb x y w h s).Covers p
  added : ∀ s, DamageOk fb s → ∀ x y w h, Int32Args x y w h → ∀ p, fb.Shows p → AreaHas x y w h p →
    (guiDamageAdd fb x y w h s).Covers p

theorem guiDamageAdd_covers (hfb : fb.Fits) : DamageLaws fb where
  clear := damageOk_clear
  full := damageOk_redraw
  add _ hs _ _ _ _ hargs := (guiDamageAdd_ok hfb hs hargs).1
  kept _ hs _ _ _ _ hargs p hp hcovers := (guiDamageAdd_ok hfb hs hargs).2 p hp (.inl hcovers)
  added _ hs _ _ _ _ hargs p hp harea := (guiDamageAdd_ok hfb hs hargs).2 p hp (.inr harea)

theorem guiDamageAdd_covers_sample : DamageLaws ⟨640, 480⟩ :=
  guiDamageAdd_covers ⟨by decide, by decide⟩

end Armonios
