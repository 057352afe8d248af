import Armonios.Fat32.Driver
import Mathlib.Data.List.GetD

/-!
# Short names and their text

A short name is a base of one to eight characters and an extension of up to three (`ShortName`). `make_short_name` reads
the text of one, in any case and behind at most one slash (`makeShortName_iff`), and `append_short_name` prints it.

* `NameState.fold_iff`: the loop of `make_short_name`;
* `appendShortName_line`: what `fat32_list_root` makes of an entry;
* `shortName_roundTrip`: the two functions are inverse to each other.
-/

namespace Armonios

/-! ## Printing -/

/-- The status and the output after `append_list_byte`. -/
def appendListByte (capacity : Nat) (out : List UInt8) (value : UInt8) : Bool × List UInt8 :=
  if capacity ≤ out.length then (false, out) else (true, out ++ [value])

/-- Bytes one after the other, up to the first that does not fit. -/
def appendListBytes (capacity : Nat) : List UInt8 → List UInt8 → Bool × List UInt8
  | out, [] => (true, out)
  | out, value :: values =>
    match appendListByte capacity out value with
    | (true, out) => appendListBytes capacity out values
    | (false, out) => (false, out)

/-- The end of the part from `start` on after the loop that drops the spaces. -/
def trimmedEnd (entry : List UInt8) (start : Nat) : Nat → Nat
  | 0 => 0
  | last + 1 => if entry.getD (start + last) 0 = 32 then trimmedEnd entry start last else last + 1

/-- The bytes that `append_short_name` appends if they fit. -/
def shortNameLine (entry : List UInt8) (attr : UInt8) : List UInt8 :=
  let baseEnd := trimmedEnd entry 0 8
  let extEnd := trimmedEnd entry 8 3
  entry.take baseEnd ++ (if 0 < extEnd then 46 :: (entry.drop 8).take extEnd else []) ++
    (if attr &&& attrDirectory ≠ 0 then [47] else []) ++ [10]

def appendShortName (entry : List UInt8) (attr : UInt8) (capacity : Nat) (out : List UInt8) : Bool × List UInt8 :=
  appendListBytes capacity out (shortNameLine entry attr)

theorem appendListBytes_fits {capacity : Nat} {out values : List UInt8} (h : out.length + values.length ≤ capacity) :
    appendListBytes capacity out values = (true, out ++ values) := by
  induction values generalizing out with
  | nil => simp [appendListBytes]
  | cons value values ih =>
    rw [List.length_cons] at h
    rw [appendListBytes, appendListByte, if_neg (by omega)]
    dsimp only
    rw [ih (by simp; omega), List.append_assoc]
    rfl

theorem appendListBytes_cut {capacity : Nat} {out values : List UInt8} (hout : out.length ≤ capacity)
    (h : capacity < out.length + values.length) :
    appendListBytes capacity out values = (false, (out ++ values).take capacity) := by
  induction values generalizing out with
  | nil => simp at h; omega
  | cons value values ih =>
    rw [List.length_cons] at h
    rw [appendListBytes, appendListByte]
    by_cases hfull : capacity ≤ out.length
    · rw [if_pos hfull, List.take_left' (by omega)]
    · rw [if_neg hfull]
      dsimp only
      rw [ih (by simp; omega) (by simp; omega), List.append_assoc]
      rfl

/-! ## Names -/

/-- A character of a stored name. -/
structure NameChar (c : UInt8) : Prop where
  plain : badNameChar c = false
  not_dot : c ≠ 46
  not_slash : c ≠ 47
  upper : asciiUpper c = c

structure ShortName where
  base : List UInt8
  ext : List UInt8
  base_pos : 0 < base.length
  base_le : base.length ≤ 8
  ext_le : ext.length ≤ 3
  base_chars : ∀ c ∈ base, NameChar c
  ext_chars : ∀ c ∈ ext, NameChar c

/-- Spaces up to the length `n`. -/
def padName (n : Nat) (part : List UInt8) : List UInt8 := part ++ List.replicate (n - part.length) 32

def ShortName.bytes (n : ShortName) : List UInt8 := padName 8 n.base ++ padName 3 n.ext

def ShortName.text (n : ShortName) : List UInt8 := n.base ++ if n.ext = [] then [] else 46 :: n.ext

theorem asciiUpper_idem (c : UInt8) : asciiUpper (asciiUpper c) = asciiUpper c := by
  unfold asciiUpper
  split
  · rename_i h
    rw [if_neg]
    simp only [UInt8.le_iff_toNat_le, UInt8.toNat_sub] at h ⊢
    have := c.toNat_lt
    simp at h ⊢
    omega
  · rfl

theorem NameChar.not_space {c : UInt8} (h : NameChar c) : c ≠ 32 := by
  rintro rfl
  exact absurd h.plain (by decide)

/-! ## Reading -/

/-- The variables of `make_short_name` after a base, and after a dot and an extension. -/
def NameState.of (base : List UInt8) (ext : Option (List UInt8)) : NameState where
  out := padName 8 base ++ padName 3 (ext.getD [])
  base := base.length
  ext := (ext.getD []).length
  inExt := ext.isSome

theorem length_padName {n : Nat} {part : List UInt8} (h : part.length ≤ n) : (padName n part).length = n := by
  simp [padName]
  omega

/-- The next character of a part is stored at its end. -/
theorem padName_set {n : Nat} {part : List UInt8} (c : UInt8) (h : part.length < n) :
    (padName n part).set part.length c = padName n (part ++ [c]) := by
  obtain ⟨m, hm⟩ : ∃ m, n - part.length = m + 1 := ⟨n - part.length - 1, by omega⟩
  have hm' : n - (part ++ [c]).length = m := by
    rw [List.length_append, List.length_singleton]
    omega
  rw [padName, padName, hm, hm', List.replicate_succ, List.set_append_right _ _ (Nat.le_refl _)]
  simp

/-- The characters of a part that has been read. -/
def NameChars (chars : List UInt8) : Prop := ∀ c ∈ chars, NameChar c

variable {base ext chars : List UInt8} {st : NameState} {ch : UInt8}

theorem nameChar_upper (hdot : asciiUpper ch ≠ 46) (hslash : asciiUpper ch ≠ 47)
    (hbad : badNameChar (asciiUpper ch) = false) : NameChar (asciiUpper ch) :=
  ⟨hbad, hdot, hslash, asciiUpper_idem ch⟩

/-- A character of the extension. -/
theorem push_ext (hbase : base.length ≤ 8) : (NameState.of base (some ext)).push ch = some st ↔
    NameChar (asciiUpper ch) ∧ ext.length < 3 ∧ st = NameState.of base (some (ext ++ [asciiUpper ch])) := by
  unfold NameState.push
  dsimp only
  by_cases hslash : asciiUpper ch = 47
  · rw [if_pos hslash]
    exact ⟨nofun, fun h => absurd hslash h.1.not_slash⟩
  rw [if_neg hslash]
  by_cases hdot : asciiUpper ch = 46
  · rw [if_pos hdot]
    exact ⟨nofun, fun h => absurd hdot h.1.not_dot⟩
  rw [if_neg hdot]
  by_cases hbad : badNameChar (asciiUpper ch) = true
  · rw [if_pos hbad]
    refine ⟨nofun, fun h => ?_⟩
    rw [h.1.plain] at hbad
    cases hbad
  rw [if_neg hbad, if_pos (show (NameState.of base (some ext)).inExt = true from rfl)]
  by_cases hfull : 3 ≤ ext.length
  · rw [if_pos (show 3 ≤ (NameState.of base (some ext)).ext from hfull)]
    exact ⟨nofun, fun h => by omega⟩
  have hset : (NameState.of base (some ext)).out.set (8 + ext.length) (asciiUpper ch) =
      padName 8 base ++ padName 3 (ext ++ [asciiUpper ch]) := by
    show (padName 8 base ++ padName 3 ext).set _ _ = _
    rw [List.set_append_right _ _ (by rw [length_padName hbase]; omega), length_padName hbase, Nat.add_sub_cancel_left,
      padName_set _ (by omega)]
  rw [if_neg (show ¬ 3 ≤ (NameState.of base (some ext)).ext from hfull)]
  show some (NameState.mk ((NameState.of base (some ext)).out.set (8 + ext.length) (asciiUpper ch)) _ _ _) = _ ↔ _
  rw [hset, Option.some.injEq]
  have hof : NameState.of base (some (ext ++ [asciiUpper ch])) =
      ⟨padName 8 base ++ padName 3 (ext ++ [asciiUpper ch]), base.length, ext.length + 1, true⟩ := by
    simp [NameState.of]
  rw [hof]
  constructor
  · intro h
    exact ⟨nameChar_upper hdot hslash (by simpa using hbad), by omega, h.symm⟩
  · intro h
    exact h.2.2.symm

/-- A character of the base, or the dot. -/
theorem push_base : (NameState.of base none).push ch = some st ↔
    (asciiUpper ch = 46 ∧ 0 < base.length ∧ st = NameState.of base (some [])) ∨
      (NameChar (asciiUpper ch) ∧ base.length < 8 ∧ st = NameState.of (base ++ [asciiUpper ch]) none) := by
  unfold NameState.push
  dsimp only
  by_cases hslash : asciiUpper ch = 47
  · rw [if_pos hslash]
    refine ⟨nofun, fun h => ?_⟩
    rcases h with h | h
    · rw [hslash] at h
      exact absurd h.1 (by decide)
    · exact absurd hslash h.1.not_slash
  rw [if_neg hslash]
  by_cases hdot : asciiUpper ch = 46
  · rw [if_pos hdot]
    show (if (false || decide (base.length = 0)) = true then none else some (NameState.of base (some []))) = _ ↔ _
    by_cases hempty : base.length = 0
    · rw [if_pos (by simpa using hempty)]
      refine ⟨nofun, fun h => ?_⟩
      rcases h with h | h
      · omega
      · exact absurd hdot h.1.not_dot
    · rw [if_neg (by simpa using hempty), Option.some.injEq]
      refine ⟨fun h => .inl ⟨hdot, by omega, h.symm⟩, fun h => ?_⟩
      rcases h with h | h
      · exact h.2.2.symm
      · exact absurd hdot h.1.not_dot
  rw [if_neg hdot]
  by_cases hbad : badNameChar (asciiUpper ch) = true
  · rw [if_pos hbad]
    refine ⟨nofun, fun h => ?_⟩
    rcases h with h | h
    · exact absurd h.1 hdot
    · rw [h.1.plain] at hbad
      cases hbad
  rw [if_neg hbad, if_neg (show ¬ (NameState.of base none).inExt = true by simp [NameState.of])]
  by_cases hfull : 8 ≤ base.length
  · rw [if_pos (show 8 ≤ (NameState.of base none).base from hfull)]
    refine ⟨nofun, fun h => ?_⟩
    rcases h with h | h
    · exact absurd h.1 hdot
    · omega
  have hset : (NameState.of base none).out.set base.length (asciiUpper ch) =
      padName 8 (base ++ [asciiUpper ch]) ++ padName 3 [] := by
    show (padName 8 base ++ padName 3 []).set _ _ = _
    rw [List.set_append_left _ _ (by rw [length_padName (by omega)]; omega), padName_set _ (by omega)]
  rw [if_neg (show ¬ 8 ≤ (NameState.of base none).base from hfull)]
  show some (NameState.mk ((NameState.of base none).out.set base.length (asciiUpper ch)) _ _ _) = _ ↔ _
  rw [hset, Option.some.injEq]
  have hof : NameState.of (base ++ [asciiUpper ch]) none =
      ⟨padName 8 (base ++ [asciiUpper ch]) ++ padName 3 [], base.length + 1, 0, false⟩ := by
    simp [NameState.of]
  rw [hof]
  constructor
  · intro h
    exact .inr ⟨nameChar_upper hdot hslash (by simpa using hbad), by omega, h.symm⟩
  · intro h
    rcases h with h | h
    · exact absurd h.1 hdot
    · exact h.2.2.symm

theorem nameChars_cons {c : UInt8} : NameChars (c :: chars) ↔ NameChar c ∧ NameChars chars := List.forall_mem_cons

/-- The loop inside the extension. -/
theorem fold_ext (hbase : base.length ≤ 8) : chars.foldlM NameState.push (NameState.of base (some ext)) = some st ↔
    NameChars (chars.map asciiUpper) ∧ (chars ≠ [] → ext.length + chars.length ≤ 3) ∧
      st = NameState.of base (some (ext ++ chars.map asciiUpper)) := by
  induction chars generalizing ext with
  | nil => simp [NameChars, eq_comm]
  | cons ch chars ih =>
    rw [List.foldlM_cons, List.map_cons, nameChars_cons]
    show Option.bind _ _ = _ ↔ _
    rw [Option.bind_eq_some_iff]
    constructor
    · rintro ⟨st₁, hpush, hrest⟩
      obtain ⟨hch, hlen, rfl⟩ := (push_ext hbase).mp hpush
      obtain ⟨hchars, hlens, rfl⟩ := ih.mp hrest
      refine ⟨⟨hch, hchars⟩, fun _ => ?_, by simp⟩
      rw [List.length_append, List.length_singleton] at hlens
      rw [List.length_cons]
      by_cases hnil : chars = []
      · rw [hnil, List.length_nil]
        omega
      · have := hlens hnil
        omega
    · rintro ⟨⟨hch, hchars⟩, hlen, rfl⟩
      have hlen := hlen (List.cons_ne_nil _ _)
      rw [List.length_cons] at hlen
      refine ⟨_, (push_ext hbase).mpr ⟨hch, by omega, rfl⟩, ih.mpr ⟨hchars, fun _ => ?_, by simp⟩⟩
      rw [List.length_append, List.length_singleton]
      omega

/-- The loop: it ends inside the base, or the characters have a dot. -/
theorem fold_base (hbase : base.length ≤ 8) : chars.foldlM NameState.push (NameState.of base none) = some st ↔
    (NameChars (chars.map asciiUpper) ∧ base.length + chars.length ≤ 8 ∧
        st = NameState.of (base ++ chars.map asciiUpper) none) ∨
      ∃ more ext, chars.map asciiUpper = more ++ 46 :: ext ∧ NameChars more ∧ NameChars ext ∧
        0 < base.length + more.length ∧ base.length + more.length ≤ 8 ∧ ext.length ≤ 3 ∧
        st = NameState.of (base ++ more) (some ext) := by
  induction chars generalizing base with
  | nil =>
    constructor
    · intro h
      exact .inl ⟨fun c hc => absurd hc List.not_mem_nil, hbase, by simpa using (Option.some.inj h).symm⟩
    · rintro (⟨-, -, rfl⟩ | ⟨more, ext, heq, -⟩)
      · simp
      · exact absurd heq.symm (by simp)
  | cons ch chars ih =>
    rw [List.foldlM_cons, List.map_cons, nameChars_cons]
    show Option.bind _ _ = _ ↔ _
    rw [Option.bind_eq_some_iff]
    constructor
    · rintro ⟨st₁, hpush, hrest⟩
      rcases push_base.mp hpush with ⟨hdot, hpos, rfl⟩ | ⟨hch, hlen, rfl⟩
      · obtain ⟨hchars, hlens, rfl⟩ := (fold_ext hbase).mp hrest
        refine .inr ⟨[], chars.map asciiUpper, by rw [hdot]; rfl, by simp [NameChars], hchars, by simpa using hpos,
          by simpa using hbase, ?_, by simp⟩
        rw [List.length_map]
        by_cases hnil : chars = []
        · simp [hnil]
        · simpa using hlens hnil
      · have hle : (base ++ [asciiUpper ch]).length ≤ 8 := by
          rw [List.length_append, List.length_singleton]
          omega
        rcases (ih hle).mp hrest with ⟨hchars, hlens, rfl⟩ | ⟨more, ext, heq, hmore, hext, hpos, hlens, hle3, rfl⟩
        · rw [List.length_append, List.length_singleton] at hlens
          exact .inl ⟨⟨hch, hchars⟩, by rw [List.length_cons]; omega, by simp⟩
        · rw [List.length_append, List.length_singleton] at hlens
          exact .inr ⟨asciiUpper ch :: more, ext, by rw [heq]; rfl, nameChars_cons.mpr ⟨hch, hmore⟩, hext,
            by rw [List.length_cons]; omega, by rw [List.length_cons]; omega, hle3, by simp⟩
    · rintro (⟨⟨hch, hchars⟩, hlens, rfl⟩ | ⟨more, ext, heq, hmore, hext, hpos, hlens, hle3, rfl⟩)
      · rw [List.length_cons] at hlens
        refine ⟨_, push_base.mpr (.inr ⟨hch, by omega, rfl⟩), (ih ?_).mpr (.inl ⟨hchars, ?_, by simp⟩)⟩
        all_goals
          rw [List.length_append, List.length_singleton]
          omega
      · cases more with
        | nil =>
          obtain ⟨hdot, hchars⟩ := List.cons.inj heq
          rw [List.length_nil, Nat.add_zero] at hpos
          refine ⟨_, push_base.mpr (.inl ⟨hdot, hpos, rfl⟩), (fold_ext hbase).mpr ⟨by rwa [hchars], fun _ => ?_, ?_⟩⟩
          · rw [List.length_nil, Nat.zero_add, ← List.length_map asciiUpper, hchars]
            exact hle3
          · simp [hchars]
        | cons c more =>
          obtain ⟨hc, hchars⟩ := List.cons.inj heq
          obtain ⟨hch, hmore⟩ := nameChars_cons.mp hmore
          rw [List.length_cons] at hlens
          rw [← hc] at hch
          refine ⟨_, push_base.mpr (.inr ⟨hch, by omega, rfl⟩),
            (ih ?_).mpr (.inr ⟨more, ext, hchars, hmore, hext, ?_, ?_,
            hle3, by simp [hc]⟩)⟩
          all_goals
            rw [List.length_append, List.length_singleton]
            omega

/-! ## The two functions -/

/-- The string behind at most one slash. -/
def stripSlash (name : List UInt8) : List UInt8 := if name.head? = some 47 then name.tail else name

theorem dropSlash_eq (name : List UInt8) : dropSlash name = if stripSlash name =
    [] then none else some (stripSlash name) := by
  unfold dropSlash stripSlash
  split
  · rfl
  · rfl
  · rename_i rest hne
    have : rest ≠ [] := by
      rintro rfl
      exact hne rfl
    simp [this]
  · rename_i hnil hslash hcons
    cases name with
    | nil => exact absurd rfl hnil
    | cons c rest =>
      have : c ≠ 47 := by
        rintro rfl
        exact hcons rest rfl
      simp [this]

/-- `make_short_name` reads the text of a name. -/
theorem makeShortName_iff {name short : List UInt8} : makeShortName name = some short ↔
    ∃ n : ShortName, (stripSlash name).map asciiUpper = n.text ∧ short = n.bytes := by
  unfold makeShortName
  rw [dropSlash_eq]
  by_cases hnil : stripSlash name = []
  · rw [if_pos hnil, hnil]
    constructor
    · exact nofun
    · rintro ⟨n, htext, -⟩
      have hpos := n.base_pos
      rw [List.map_nil, ShortName.text] at htext
      rw [(List.append_eq_nil_iff.mp htext.symm).1, List.length_nil] at hpos
      omega
  rw [if_neg hnil]
  show (Option.bind (List.foldlM NameState.push (NameState.of [] none) (stripSlash name)) _) = _ ↔ _
  rw [Option.bind_eq_some_iff]
  constructor
  · rintro ⟨st, hfold, hend⟩
    rcases (fold_base (by simp)).mp hfold with ⟨hchars, hlen, rfl⟩ | ⟨more, ext, heq, hmore, hext, hpos, hlen,
      hle3, rfl⟩
    · rw [List.nil_append] at hend
      split at hend
      · cases hend
      · cases hend
        have hpos : 0 < ((stripSlash name).map asciiUpper).length := by
          rw [List.length_map]
          exact List.length_pos_iff.mpr hnil
        exact ⟨⟨(stripSlash name).map asciiUpper, [], hpos, by simpa using hlen, by simp, hchars, by simp⟩,
          by simp [ShortName.text], rfl⟩
    · rw [List.nil_append] at hend
      split at hend
      · cases hend
      · rename_i hfull
        cases hend
        have hne : ext ≠ [] := by
          rintro rfl
          exact hfull (.inr ⟨rfl, rfl⟩)
        refine ⟨⟨more, ext, by simpa using hpos, by simpa using hlen, hle3, hmore, hext⟩, ?_, rfl⟩
        rw [heq, ShortName.text, if_neg hne]
  · rintro ⟨n, htext, rfl⟩
    by_cases hne : n.ext = []
    · rw [ShortName.text, if_pos hne, List.append_nil] at htext
      refine ⟨NameState.of n.base none, (fold_base (by simp)).mpr (.inl ⟨?_, ?_, ?_⟩), ?_⟩
      · rw [htext]
        exact n.base_chars
      · have hlen := congrArg List.length htext
        rw [List.length_map] at hlen
        rw [List.length_nil, Nat.zero_add, hlen]
        exact n.base_le
      · rw [htext, List.nil_append]
      · have hpos := n.base_pos
        have hend : ¬ (n.base.length = 0 ∨ (false = true ∧ 0 = 0)) := by
          simp only [Bool.false_eq_true, false_and, or_false]
          omega
        rw [ShortName.bytes, hne]
        exact if_neg hend
    · rw [ShortName.text, if_neg hne] at htext
      refine ⟨NameState.of n.base (some n.ext), (fold_base (by simp)).mpr (.inr ⟨n.base, n.ext, htext, n.base_chars,
        n.ext_chars, by simpa using n.base_pos, by simpa using n.base_le, n.ext_le, by simp⟩), ?_⟩
      have hpos := n.base_pos
      have hext := List.length_pos_iff.mpr hne
      exact if_neg (show ¬ (n.base.length = 0 ∨ (true = true ∧ n.ext.length = 0)) by omega)

/-- The end of a part whose last character is no space. -/
theorem trimmedEnd_eq {entry : List UInt8} {start len limit : Nat} (hle : len ≤ limit)
    (hlast : ∀ last, len = last + 1 → entry.getD (start + last) 0 ≠ 32)
    (hspaces : ∀ i, len ≤ i → i < limit → entry.getD (start + i) 0 = 32) : trimmedEnd entry start limit = len := by
  induction limit with
  | zero =>
    rw [Nat.le_zero.mp hle]
    rfl
  | succ limit ih =>
    unfold trimmedEnd
    by_cases heq : len = limit + 1
    · subst heq
      rw [if_neg (hlast limit rfl)]
    · rw [if_pos (hspaces limit (by omega) (Nat.lt_succ_self limit))]
      exact ih (by omega) fun i h h' => hspaces i h (Nat.lt_succ_of_lt h')

theorem padName_space {n i : Nat} {part : List UInt8} (h : part.length ≤ i) (hi : i < n) :
    (padName n part).getD i 0 = 32 := by
  rw [padName, List.getD_append_right _ _ _ _ h, List.getD_eq_getElem?_getD,
    List.getElem?_replicate_of_lt (by omega)]
  rfl

theorem padName_char {n last : Nat} {part : List UInt8} (hchars : NameChars part) (h : part.length = last + 1) :
    (padName n part).getD last 0 ≠ 32 := by
  have hlt : last < part.length := by omega
  rw [padName, List.getD_append _ _ _ _ hlt, List.getD_eq_getElem _ _ hlt]
  exact (hchars _ (List.getElem_mem hlt)).not_space

/-- The line of a stored name has its text, and a slash for a subdirectory. -/
theorem shortNameLine_named (n : ShortName) (attr : UInt8) :
    shortNameLine n.bytes attr = n.text ++ (if attr &&& attrDirectory ≠ 0 then [47] else []) ++ [10] := by
  have hlen := length_padName n.base_le
  have hbase (i : Nat) (hi : i < 8) : n.bytes.getD (0 + i) 0 = (padName 8 n.base).getD i 0 := by
    rw [Nat.zero_add, ShortName.bytes, List.getD_append _ _ _ _ (by omega)]
  have hext (i : Nat) : n.bytes.getD (8 + i) 0 = (padName 3 n.ext).getD i 0 := by
    rw [ShortName.bytes, List.getD_append_right _ _ _ _ (by omega), hlen, Nat.add_sub_cancel_left]
  have hb : trimmedEnd n.bytes 0 8 = n.base.length := by
    refine trimmedEnd_eq n.base_le (fun last hlast => ?_) fun i hi hi' => ?_
    · have hle := n.base_le
      rw [hbase last (by omega)]
      exact padName_char n.base_chars hlast
    · rw [hbase i hi']
      exact padName_space hi hi'
  have he : trimmedEnd n.bytes 8 3 = n.ext.length := by
    refine trimmedEnd_eq n.ext_le (fun last hlast => ?_) fun i hi hi' => ?_
    · rw [hext last]
      exact padName_char n.ext_chars hlast
    · rw [hext i]
      exact padName_space hi hi'
  have hdrop : n.bytes.drop 8 = padName 3 n.ext := List.drop_left' hlen
  have htake : n.bytes.take n.base.length = n.base := by
    rw [ShortName.bytes, padName, List.append_assoc]
    exact List.take_left' rfl
  unfold shortNameLine
  dsimp only
  rw [hb, he, hdrop, htake, ShortName.text]
  by_cases hnil : n.ext = []
  · rw [if_neg (by rw [hnil]; decide), if_pos hnil]
  · rw [if_pos (List.length_pos_iff.mpr hnil), if_neg hnil, padName, List.take_left' rfl]

theorem shortNameLine_bytes (n : ShortName) {attr : UInt8} (hfile : attr &&& attrDirectory = 0) :
    shortNameLine n.bytes attr = n.text ++ [10] := by
  rw [shortNameLine_named, if_neg (not_not.mpr hfile), List.append_nil]

theorem ShortName.map_upper (n : ShortName) : n.text.map asciiUpper = n.text := by
  have hpart {part : List UInt8} (h : NameChars part) : part.map asciiUpper = part :=
    (List.map_congr_left fun c hc => (h c hc).upper).trans (List.map_id part)
  unfold ShortName.text
  rw [List.map_append, hpart n.base_chars]
  split
  · rfl
  · rw [List.map_cons, hpart n.ext_chars]
    rfl

theorem ShortName.stripSlash_text (n : ShortName) : stripSlash n.text = n.text := by
  have hpos := n.base_pos
  cases hbase : n.base with
  | nil =>
    rw [hbase, List.length_nil] at hpos
    omega
  | cons c base =>
    have hc := n.base_chars c (by simp [hbase])
    rw [ShortName.text, hbase, stripSlash, if_neg]
    simpa using hc.not_slash

/-- The text of a name is read as the name. -/
theorem makeShortName_text (n : ShortName) : makeShortName n.text = some n.bytes :=
  makeShortName_iff.mpr ⟨n, by rw [n.stripSlash_text, n.map_upper], rfl⟩

theorem ShortName.bytes_inj {n m : ShortName} : n.bytes = m.bytes ↔ n.text = m.text := by
  constructor
  · intro h
    have hline := shortNameLine_bytes n (show 0 &&& attrDirectory = 0 by decide)
    rw [h, shortNameLine_bytes m (by decide)] at hline
    exact (List.append_cancel_right hline).symm
  · intro h
    have hread := makeShortName_text n
    rw [h, makeShortName_text m] at hread
    exact (Option.some.inj hread).symm

/-! ## The entries of the root directory -/

/-- A part without the spaces at its end. -/
def trimSpaces (part : List UInt8) : List UInt8 := (part.reverse.dropWhile (· = 32)).reverse

theorem trimmedEnd_le (entry : List UInt8) (start limit : Nat) : trimmedEnd entry start limit ≤ limit := by
  induction limit with
  | zero => exact Nat.le_refl 0
  | succ limit ih =>
    unfold trimmedEnd
    split
    · omega
    · exact Nat.le_refl _

theorem take_trimmedEnd {entry : List UInt8} {start limit : Nat} (h : start + limit ≤ entry.length) :
    (entry.drop start).take (trimmedEnd entry start limit) = trimSpaces ((entry.drop start).take limit) := by
  induction limit with
  | zero => rfl
  | succ limit ih =>
    have hlt : limit < (entry.drop start).length := by
      rw [List.length_drop]
      omega
    have hlast : entry.getD (start + limit) 0 = (entry.drop start)[limit] := by
      rw [List.getD_eq_getElem _ _ (by omega), List.getElem_drop]
    have hsplit : trimSpaces ((entry.drop start).take (limit + 1)) =
        if (entry.drop start)[limit] = 32 then trimSpaces ((entry.drop start).take limit)
        else (entry.drop start).take (limit + 1) := by
      rw [List.take_add_one, List.getElem?_eq_getElem hlt, trimSpaces, Option.toList_some, List.reverse_append,
        List.reverse_singleton, List.singleton_append, List.dropWhile_cons]
      by_cases hspace : (entry.drop start)[limit] = 32
      · rw [if_pos (decide_eq_true hspace), if_pos hspace]
        rfl
      · rw [if_neg (by simpa using hspace), if_neg hspace]
        simp
    unfold trimmedEnd
    rw [hlast, hsplit]
    split
    · exact ih (by omega)
    · rfl

theorem shortNameLine_entry (s : Sector) (off : Nat) :
    shortNameLine (entryName s off) (entryAttr s off) = listLine s off := by
  have hlen : (entryName s off).length = 11 := by simp [entryName]
  have hbase := take_trimmedEnd (show 0 + 8 ≤ (entryName s off).length by omega)
  have hext := take_trimmedEnd (show 8 + 3 ≤ (entryName s off).length by omega)
  have hend := trimmedEnd_le (entryName s off) 8 3
  rw [List.drop_zero] at hbase
  rw [List.take_of_length_le (i := 3) (by simp [hlen])] at hext
  unfold trimSpaces at hbase hext
  unfold shortNameLine listLine
  dsimp only
  simp only [hbase, ← hext]
  by_cases hnone : trimmedEnd (entryName s off) 8 3 = 0
  · rw [hnone, if_neg (Nat.lt_irrefl 0), List.take_zero, if_pos rfl]
  · have hpos : 0 < ((entryName s off).drop 8 |>.take (trimmedEnd (entryName s off) 8 3)).length := by
      rw [List.length_take, List.length_drop, hlen]
      omega
    rw [if_pos (Nat.pos_of_ne_zero hnone), if_neg (List.length_pos_iff.mp hpos)]

/-- `append_short_name` on an entry is what a visit of `fat32_list_root` does. -/
theorem appendShortName_line (s : Sector) (off capacity : Nat) (out : List UInt8) (hout : out.length ≤ capacity) :
    appendShortName (entryName s off) (entryAttr s off) capacity out =
      if capacity < out.length + (listLine s off).length then (false, (out ++ listLine s off).take capacity)
      else (true, out ++ listLine s off) := by
  rw [appendShortName, shortNameLine_entry]
  split
  · rename_i hcut
    exact appendListBytes_cut hout hcut
  · rename_i hfits
    exact appendListBytes_fits (by omega)

/-! ## The round trip -/

/-- What is printed for an accepted name is read as the same short name, and is the name in upper case without its
slash. Two accepted names have the same short name exactly if they differ in a slash and in case only. -/
theorem shortName_roundTrip (name short : List UInt8) (h : makeShortName name = some short) :
    (∃ name', name' = (stripSlash name).map asciiUpper ∧ makeShortName name' = some short ∧
        ∀ attr out capacity, attr &&& attrDirectory = 0 → out.length + name'.length + 1 ≤ capacity →
          appendShortName short attr capacity out = (true, out ++ (name' ++ [10]))) ∧
      ∀ other short', makeShortName other = some short' →
        (short = short' ↔ (stripSlash name).map asciiUpper = (stripSlash other).map asciiUpper) := by
  obtain ⟨n, htext, rfl⟩ := makeShortName_iff.mp h
  refine ⟨⟨n.text, htext.symm, makeShortName_text n, fun attr out capacity hfile hroom => ?_⟩, ?_⟩
  · rw [appendShortName, shortNameLine_bytes n hfile]
    refine appendListBytes_fits ?_
    rw [List.length_append, List.length_singleton]
    omega
  · intro other short' h'
    obtain ⟨m, htext', rfl⟩ := makeShortName_iff.mp h'
    rw [htext, htext']
    exact ShortName.bytes_inj

/-- `/Note.txt`. -/
theorem shortName_roundTrip_note :
    (∃ name', name' = (stripSlash [47, 78, 111, 116, 101, 46, 116, 120, 116]).map asciiUpper ∧
        makeShortName name' = some [78, 79, 84, 69, 32, 32, 32, 32, 84, 88, 84] ∧
        ∀ attr out capacity, attr &&& attrDirectory = 0 → out.length + name'.length + 1 ≤ capacity →
          appendShortName [78, 79, 84, 69, 32, 32, 32, 32, 84, 88, 84] attr capacity out =
            (true, out ++ (name' ++ [10]))) ∧
      ∀ other short', makeShortName other = some short' →
        ([78, 79, 84, 69, 32, 32, 32, 32, 84, 88, 84] = short' ↔
          (stripSlash [47, 78, 111, 116, 101, 46, 116, 120, 116]).map asciiUpper = (stripSlash other).map asciiUpper) :=
  shortName_roundTrip _ _ (by decide)

end Armonios
