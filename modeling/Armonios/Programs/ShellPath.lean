import Mathlib

/-!
# The working directory of the shell

`cd` of `programs/apps/shell.c`. The shell keeps its directory as a text in 64 bytes and changes it as a text: an
argument is appended, and `..` cuts the text behind a slash. A C string is the list of its bytes without the NUL.

What the directory is, is a list of names. A name is what is between two slashes, and slashes in a row are like one. The
shell keeps them, so its text may have more of them than there are names, and may end in one.

* `resolvePath_names`: what `resolve_path` does on the names;
* `cdRun_names`: the directory in every run of `cd`;
* `cdRun_returns`: `..` behind a name is the way back, byte for byte.
-/

namespace Armonios

/-- `LINE_CAP`. -/
def shellLineCap : Nat := 64

def slash : UInt8 := 47

/-! ## Paths as texts -/

/-- `path_copy`, where a string that does not fit is an error. -/
def pathCopy (outSize : Nat) (src : List UInt8) : Option (List UInt8) :=
  if src.length < outSize then some src else none

/-- The loop of `path_trim_trailing_slashes` on the length. -/
def trimSlashes (path : List UInt8) : Nat → Nat
  | len + 2 => if path[len + 1]? = some slash then trimSlashes path (len + 1) else len + 2
  | len => len

def pathTrimTrailingSlashes (path : List UInt8) : List UInt8 := path.take (trimSlashes path path.length)

/-- The loop of `path_parent` that goes back to a slash. -/
def dropName (path : List UInt8) : Nat → Nat
  | len + 2 => if path[len + 1]? = some slash then len + 2 else dropName path (len + 1)
  | len => len

def pathParent (path : List UInt8) : List UInt8 :=
  if path = [slash] then path
  else
    let len := dropName path (trimSlashes path path.length)
    if len ≤ 1 then [slash] else path.take (len - 1)

/-- The last loop of `resolve_path`. -/
def appendArg (outSize : Nat) : List UInt8 → List UInt8 → Option (List UInt8)
  | out, [] => some out
  | out, c :: arg => if outSize ≤ out.length + 1 then none else appendArg outSize (out ++ [c]) arg

def resolvePath (cwd arg : List UInt8) (outSize : Nat) : Option (List UInt8) :=
  if arg = [] ∨ arg = [46] then pathCopy outSize cwd
  else if arg = [46, 46] then (pathCopy outSize cwd).map pathParent
  else if arg.head? = some slash then (pathCopy outSize arg).map pathTrimTrailingSlashes
  else
    let start :=
      if cwd = [slash] then if outSize < 2 then none else some [slash]
      else if outSize ≤ cwd.length ∨ outSize ≤ cwd.length + 1 then none
      else some (cwd ++ [slash])
    (start.bind fun out => appendArg outSize out arg).map pathTrimTrailingSlashes

/-- `shell_arg_result_t`, where an argument that is OK comes with it. -/
inductive ShellArg
  | missing
  | ok (arg : List UInt8)
  | tooMany
  | tooLong
  deriving DecidableEq

/-- `parse_one_arg`; 32 is the space. -/
def parseOneArg (input : List UInt8) (outSize : Nat) : ShellArg :=
  let input := input.dropWhile (· = 32)
  if input = [] then .missing
  else
    let arg := input.takeWhile (· ≠ 32)
    if outSize ≤ arg.length then .tooLong
    else if (input.dropWhile (· ≠ 32)).dropWhile (· = 32) ≠ [] then .tooMany
    else .ok arg

/-- The lines that `cmd_cd` emits. -/
inductive CdLine
  | tooManyArgs
  | pathTooLong
  | root
  | notADir
  | cd
  | cwd (path : List UInt8)
  deriving DecidableEq

/-- `cmd_cd`: the new directory and the lines. `readdir` says if `kli_readdir` lists a path. -/
def cmdCd (readdir : List UInt8 → Bool) (cwd input : List UInt8) : List UInt8 × List CdLine :=
  match parseOneArg input shellLineCap with
  | .tooMany => (cwd, [.tooManyArgs])
  | .tooLong => (cwd, [.pathTooLong])
  | .missing => ([slash], [.root])
  | .ok arg =>
    match resolvePath cwd arg shellLineCap with
    | none => (cwd, [.pathTooLong])
    | some path => if readdir path then (path, [.cd, .cwd path]) else (cwd, [.notADir])

/-! ## Paths as names -/

/-- The names of a path, of which `name` has been read. -/
def namesFrom (name : List UInt8) : List UInt8 → List (List UInt8)
  | [] => if name = [] then [] else [name]
  | c :: path =>
    if c = slash then (if name = [] then [] else [name]) ++ namesFrom [] path else namesFrom (name ++ [c]) path

def pathNames (path : List UInt8) : List (List UInt8) := namesFrom [] path

/-- What an argument of `cd` is for. -/
def changeNames (names : List (List UInt8)) (arg : List UInt8) : List (List UInt8) :=
  if arg = [] ∨ arg = [46] then names
  else if arg = [46, 46] then names.dropLast
  else if arg.head? = some slash then pathNames arg
  else names ++ pathNames arg

section Names

variable {name p q arg cwd path : List UInt8} {len outSize : Nat}

theorem namesFrom_append (name p q : List UInt8) :
    namesFrom name (p ++ slash :: q) = namesFrom name p ++ pathNames q := by
  induction p generalizing name with
  | nil => simp [namesFrom, pathNames]
  | cons c p ih =>
    rw [List.cons_append, namesFrom, namesFrom]
    split
    · rw [ih, List.append_assoc]
    · rw [ih]

theorem pathNames_append (p q : List UInt8) : pathNames (p ++ slash :: q) = pathNames p ++ pathNames q :=
  namesFrom_append [] p q

theorem pathNames_slash (p : List UInt8) : pathNames (p ++ [slash]) = pathNames p := by
  rw [pathNames_append]
  simp [pathNames, namesFrom]

theorem namesFrom_name (h : slash ∉ p) : namesFrom name p = if name ++ p = [] then [] else [name ++ p] := by
  induction p generalizing name with
  | nil => simp [namesFrom]
  | cons c p ih =>
    rw [List.mem_cons, not_or] at h
    rw [namesFrom, if_neg (Ne.symm h.1), ih h.2]
    simp

theorem pathNames_name (h : slash ∉ p) (hp : p ≠ []) : pathNames p = [p] := by
  rw [pathNames, namesFrom_name h, if_neg (by simpa using hp), List.nil_append]

/-- The text before the last byte. -/
theorem take_next {c : UInt8} (h : path[len]? = some c) : path.take (len + 1) = path.take len ++ [c] := by
  rw [List.take_add_one, h]
  rfl

theorem trimSlashes_spec (path : List UInt8) (hlen : len ≤ path.length) :
    pathNames (path.take (trimSlashes path len)) = pathNames (path.take len) ∧ trimSlashes path len ≤ len ∧
      (1 ≤ len → 1 ≤ trimSlashes path len) ∧
      ∀ k, trimSlashes path len = k + 2 → path[k + 1]? ≠ some slash := by
  induction len with
  | zero => simp [trimSlashes]
  | succ len ih =>
    cases len with
    | zero => simp [trimSlashes]
    | succ len =>
      obtain ⟨hnames, hle, hpos, hlast⟩ := ih (by omega)
      rw [trimSlashes]
      split
      · rename_i hslash
        refine ⟨?_, by omega, fun _ => hpos (by omega), hlast⟩
        rw [hnames, take_next hslash, pathNames_slash]
      · rename_i hslash
        refine ⟨rfl, Nat.le_refl _, fun _ => by omega, fun k hk => ?_⟩
        cases hk
        exact hslash

theorem dropName_spec (hlen : len ≤ path.length) :
    ∃ name, path.take len = path.take (dropName path len) ++ name ∧ slash ∉ name ∧ dropName path len ≤ len ∧
      (1 ≤ len → 1 ≤ dropName path len) ∧
      (∀ k, dropName path len = k + 2 → path[k + 1]? = some slash) := by
  induction len with
  | zero => exact ⟨[], by simp [dropName]⟩
  | succ len ih =>
    cases len with
    | zero => exact ⟨[], by simp [dropName]⟩
    | succ len =>
      rw [dropName]
      split
      · rename_i hslash
        refine ⟨[], by simp, by simp, Nat.le_refl _, fun _ => by omega, fun k hk => ?_⟩
        cases hk
        exact hslash
      · rename_i hslash
        obtain ⟨name, htake, hname, hle, hpos, hlast⟩ := ih (by omega)
        obtain ⟨c, hc⟩ : ∃ c, path[len + 1]? = some c := ⟨_, List.getElem?_eq_getElem (by omega)⟩
        refine ⟨name ++ [c], ?_, ?_, by omega, fun _ => hpos (by omega), hlast⟩
        · rw [take_next hc, htake, List.append_assoc]
        · have hne : slash ≠ c := by
            rintro rfl
            exact hslash hc
          simp [hname, hne]

theorem pathNames_cons_slash (p : List UInt8) : pathNames (slash :: p) = pathNames p := by
  simp [pathNames, namesFrom]

/-- The last name goes. -/
theorem pathNames_dropLast (p : List UInt8) (h : slash ∉ name) (hname : name ≠ []) :
    (pathNames (p ++ slash :: name)).dropLast = pathNames p := by
  rw [pathNames_append, pathNames_name h hname, List.dropLast_concat]

/-- `..` is the path without its last name. -/
theorem pathNames_parent (h : path.head? = some slash) : pathNames (pathParent path) = (pathNames path).dropLast := by
  obtain ⟨rest, rfl⟩ : ∃ rest, path = slash :: rest := List.head?_eq_some_iff.1 h
  have hroot : pathNames [slash] = [] := rfl
  unfold pathParent
  split
  · rename_i heq
    rw [heq, hroot]
    rfl
  · obtain ⟨hnames, hle, hpos, hlast⟩ := trimSlashes_spec (slash :: rest) (Nat.le_refl _)
    rw [List.take_length] at hnames
    dsimp only
    generalize trimSlashes (slash :: rest) (slash :: rest).length = trimmed at *
    obtain ⟨name, htake, hname, hle', hpos', hlast'⟩ := dropName_spec hle
    rw [← hnames, htake]
    generalize dropName (slash :: rest) trimmed = left at *
    obtain rfl | ⟨len, rfl⟩ : left = 1 ∨ ∃ len, left = len + 2 := by
      have hone := hpos' (hpos (by simp))
      by_cases hleft : left = 1
      · exact .inl hleft
      · exact .inr ⟨left - 2, by omega⟩
    · -- only the slash of the root is left
      rw [if_pos (Nat.le_refl 1), hroot]
      change [] = (pathNames (slash :: name)).dropLast
      by_cases hempty : name = []
      · rw [hempty]
        rfl
      · rw [pathNames_cons_slash, pathNames_name hname hempty]
        rfl
    · rw [if_neg (by omega)]
      have hslash := hlast' len rfl
      have hempty : name ≠ [] := by
        rintro rfl
        -- the text would still end with a slash
        have hlength := congrArg List.length htake
        rw [List.append_nil, List.length_take, List.length_take] at hlength
        have heq : trimmed = len + 2 := by omega
        exact hlast len heq hslash
      rw [take_next hslash, List.append_assoc, List.singleton_append, pathNames_dropLast _ hname hempty]
      rfl

/-- The way back to the last slash. -/
theorem dropName_eq (p : List UInt8) (h : slash ∉ name) (hle : p.length + 1 ≤ len)
    (hlen : len ≤ (p ++ slash :: name).length) : dropName (p ++ slash :: name) len = p.length + 1 := by
  induction len, hle using Nat.le_induction with
  | base =>
    cases p with
    | nil => rfl
    | cons c p =>
      rw [List.length_cons, dropName, if_pos]
      rw [List.getElem?_append_right (by simp), List.length_cons, Nat.sub_self]
      rfl
  | succ len hle ih =>
    obtain ⟨k, rfl⟩ : ∃ k, len = k + 1 := ⟨len - 1, by omega⟩
    rw [dropName, if_neg, ih (by omega)]
    intro hslash
    rw [List.getElem?_append_right (by omega)] at hslash
    obtain ⟨m, hm⟩ : ∃ m, k + 1 - p.length = m + 1 := ⟨k - p.length, by omega⟩
    rw [hm, List.getElem?_cons_succ] at hslash
    exact h (List.mem_of_getElem? hslash)

theorem trimSlashes_eq (p : List UInt8) (h : slash ∉ name) (hname : name ≠ []) :
    trimSlashes (p ++ slash :: name) (p ++ slash :: name).length = (p ++ slash :: name).length := by
  have hpos := List.length_pos_iff.2 hname
  obtain ⟨k, hk⟩ : ∃ k, (p ++ slash :: name).length = k + 2 :=
    ⟨p.length + name.length - 1, by rw [List.length_append, List.length_cons]; omega⟩
  rw [hk, trimSlashes, if_neg]
  intro hslash
  rw [List.length_append, List.length_cons] at hk
  rw [List.getElem?_append_right (by omega)] at hslash
  obtain ⟨m, hm⟩ : ∃ m, k + 1 - p.length = m + 1 := ⟨k - p.length, by omega⟩
  rw [hm, List.getElem?_cons_succ] at hslash
  exact h (List.mem_of_getElem? hslash)

/-- What is behind the last slash goes, and the slash. -/
theorem pathParent_name (p : List UInt8) (h : slash ∉ name) (hname : name ≠ []) :
    pathParent (p ++ slash :: name) = if p = [] then [slash] else p := by
  have hroot : p ++ slash :: name ≠ [slash] := fun hroot => by
    have hlength := congrArg List.length hroot
    have hpos := List.length_pos_iff.2 hname
    simp only [List.length_append, List.length_cons, List.length_nil] at hlength
    omega
  unfold pathParent
  rw [if_neg hroot, trimSlashes_eq p h hname, dropName_eq p h (by simp) (Nat.le_refl _)]
  dsimp only
  by_cases hp : p = []
  · rw [if_pos hp, hp]
    rfl
  · have hpos := List.length_pos_iff.2 hp
    rw [if_neg hp, if_neg (by omega), Nat.add_sub_cancel, List.take_left]

theorem appendArg_eq (out arg : List UInt8) : appendArg outSize out arg =
    if arg ≠ [] ∧ outSize ≤ out.length + arg.length then none else some (out ++ arg) := by
  induction arg generalizing out with
  | nil => simp [appendArg]
  | cons c arg ih =>
    rw [appendArg, ih]
    simp only [List.length_append, List.length_cons, List.length_nil, List.append_assoc, List.singleton_append]
    by_cases hfull : outSize ≤ out.length + 1
    · rw [if_pos hfull, if_pos ⟨by simp, by omega⟩]
    · rw [if_neg hfull]
      by_cases harg : arg = []
      · subst harg
        rw [if_neg (by simp), if_neg (by simpa using hfull)]
      · simp only [ne_eq, harg, not_false_eq_true, true_and, reduceCtorEq]
        rw [Nat.add_assoc, Nat.add_comm 1]

/-- A path that the shell may be in. -/
structure ShellPath (path : List UInt8) : Prop where
  root : path.head? = some slash
  fits : path.length < shellLineCap

theorem shellPath_root : ShellPath [slash] := ⟨rfl, by decide⟩

theorem pathTrim_names (path : List UInt8) : pathNames (pathTrimTrailingSlashes path) = pathNames path := by
  have hnames := (trimSlashes_spec path (Nat.le_refl _)).1
  rwa [List.take_length] at hnames

theorem ShellPath.trim (h : ShellPath path) : ShellPath (pathTrimTrailingSlashes path) := by
  obtain ⟨rest, rfl⟩ : ∃ rest, path = slash :: rest := List.head?_eq_some_iff.1 h.root
  obtain ⟨-, hle, hpos, -⟩ := trimSlashes_spec (slash :: rest) (Nat.le_refl _)
  have hone := hpos (by simp)
  have hfits := h.fits
  refine ⟨?_, ?_⟩
  · rw [pathTrimTrailingSlashes, List.head?_take, if_neg (by omega)]
    rfl
  · rw [pathTrimTrailingSlashes, List.length_take]
    omega

theorem ShellPath.parent (h : ShellPath path) : ShellPath (pathParent path) := by
  have hfits := h.fits
  unfold pathParent
  split
  · exact h
  · dsimp only
    split
    · exact ⟨rfl, by decide⟩
    · rename_i hlen
      refine ⟨?_, ?_⟩
      · rw [List.head?_take, if_neg (by omega)]
        exact h.root
      · rw [List.length_take]
        omega

/-- What a relative argument comes behind, but for the slash. -/
def shellBase (cwd : List UInt8) : List UInt8 := if cwd = [slash] then [] else cwd

theorem pathNames_base (cwd : List UInt8) : pathNames (shellBase cwd) = pathNames cwd := by
  unfold shellBase
  split
  · rename_i hroot
    rw [hroot]
    rfl
  · rfl

theorem resolvePath_relative (harg : arg ≠ []) (hdot : arg ≠ [46]) (hparent : arg ≠ [46, 46])
    (habs : arg.head? ≠ some slash) : resolvePath cwd arg shellLineCap =
      if shellLineCap ≤ (shellBase cwd).length + 1 + arg.length then none
      else some (pathTrimTrailingSlashes (shellBase cwd ++ slash :: arg)) := by
  have hpos : 0 < arg.length := List.length_pos_iff.2 harg
  have hcap : shellLineCap = 64 := rfl
  unfold resolvePath shellBase
  rw [if_neg (by simp [harg, hdot]), if_neg hparent, if_neg habs]
  dsimp only
  by_cases hroot : cwd = [slash]
  · rw [if_pos hroot, if_pos hroot, if_neg (by omega), Option.bind_some, appendArg_eq]
    simp only [List.length_singleton, List.length_nil, Nat.zero_add, ne_eq, harg, not_false_eq_true, true_and,
      List.nil_append, List.singleton_append]
    split <;> rfl
  · rw [if_neg hroot, if_neg hroot]
    by_cases hfull : shellLineCap ≤ cwd.length ∨ shellLineCap ≤ cwd.length + 1
    · rw [if_pos hfull, if_pos (by omega)]
      rfl
    · rw [if_neg hfull, Option.bind_some, appendArg_eq]
      simp only [List.length_append, List.length_singleton, ne_eq, harg, not_false_eq_true, true_and,
        List.append_assoc, List.singleton_append]
      split <;> rfl

/-- On the names, the text is what the argument is for. -/
theorem resolvePath_names (h : ShellPath cwd) (hpath : resolvePath cwd arg shellLineCap = some path) :
    ShellPath path ∧ pathNames path = changeNames (pathNames cwd) arg := by
  have hcopy : pathCopy shellLineCap cwd = some cwd := if_pos h.fits
  unfold changeNames
  by_cases hdot : arg = [] ∨ arg = [46]
  · rw [resolvePath, if_pos hdot, hcopy] at hpath
    cases hpath
    exact ⟨h, by rw [if_pos hdot]⟩
  rw [if_neg hdot]
  by_cases hparent : arg = [46, 46]
  · rw [resolvePath, if_neg hdot, if_pos hparent, hcopy] at hpath
    cases hpath
    exact ⟨h.parent, by rw [if_pos hparent, pathNames_parent h.root]⟩
  rw [if_neg hparent]
  by_cases habs : arg.head? = some slash
  · rw [resolvePath, if_neg hdot, if_neg hparent, if_pos habs, Option.map_eq_some_iff] at hpath
    obtain ⟨copy, hcopy, rfl⟩ := hpath
    simp only [pathCopy, Option.ite_none_right_eq_some, Option.some.injEq] at hcopy
    obtain ⟨hfits, rfl⟩ := hcopy
    have harg : ShellPath arg := ⟨habs, hfits⟩
    exact ⟨harg.trim, by rw [if_pos habs, pathTrim_names]⟩
  · rw [not_or] at hdot
    rw [resolvePath_relative hdot.1 hdot.2 hparent habs] at hpath
    obtain ⟨hfits, hpath⟩ := Option.ite_none_left_eq_some.1 hpath
    cases hpath
    rw [if_neg habs, pathTrim_names, pathNames_append, pathNames_base]
    refine ⟨ShellPath.trim ⟨?_, ?_⟩, rfl⟩
    · unfold shellBase
      split
      · rfl
      · rw [List.head?_append, h.root]
        rfl
    · rw [List.length_append, List.length_cons]
      omega

end Names

/-! ## Runs of `cd` -/

section Runs

variable {cwd name : List UInt8}

/-- The argument that a `cd` goes to, if it goes. -/
def cdArg (readdir : List UInt8 → Bool) (cwd input : List UInt8) : Option (List UInt8) :=
  match parseOneArg input shellLineCap with
  | .missing => some [slash]
  | .ok arg => if (resolvePath cwd arg shellLineCap).any readdir then some arg else none
  | _ => none

/-- A `cd` goes to its argument, or the directory stays. -/
theorem cmdCd_names (h : ShellPath cwd) (readdir : List UInt8 → Bool) (input : List UInt8) :
    ShellPath (cmdCd readdir cwd input).1 ∧
    pathNames (cmdCd readdir cwd input).1 = (cdArg readdir cwd input).toList.foldl changeNames (pathNames cwd) ∧
    (cdArg readdir cwd input = none → (cmdCd readdir cwd input).1 = cwd) := by
  unfold cmdCd cdArg
  cases parseOneArg input shellLineCap with
  | missing => exact ⟨shellPath_root, rfl, nofun⟩
  | tooMany => exact ⟨h, rfl, fun _ => rfl⟩
  | tooLong => exact ⟨h, rfl, fun _ => rfl⟩
  | ok arg =>
    dsimp only
    cases hpath : resolvePath cwd arg shellLineCap with
    | none => exact ⟨h, rfl, fun _ => rfl⟩
    | some path =>
      obtain ⟨hok, hnames⟩ := resolvePath_names h hpath
      dsimp only [Option.any_some]
      by_cases hlist : readdir path = true
      · rw [if_pos hlist, if_pos hlist]
        exact ⟨hok, hnames, nofun⟩
      · rw [if_neg hlist, if_neg hlist]
        exact ⟨h, rfl, fun _ => rfl⟩

/-- The `cd` of a run; what `kli_readdir` lists may change from one to the next. -/
def cdRun (cwd : List UInt8) (es : List ((List UInt8 → Bool) × List UInt8)) : List UInt8 :=
  es.foldl (fun cwd e => (cmdCd e.1 cwd e.2).1) cwd

/-- The arguments that were gone to. -/
def cdArgs : List UInt8 → List ((List UInt8 → Bool) × List UInt8) → List (List UInt8)
  | _, [] => []
  | cwd, e :: es => (cdArg e.1 cwd e.2).toList ++ cdArgs (cmdCd e.1 cwd e.2).1 es

theorem ShellPath.run (h : ShellPath cwd) (es : List ((List UInt8 → Bool) × List UInt8)) :
    ShellPath (cdRun cwd es) ∧ pathNames (cdRun cwd es) = (cdArgs cwd es).foldl changeNames (pathNames cwd) := by
  induction es generalizing cwd with
  | nil => exact ⟨h, rfl⟩
  | cons e es ih =>
    obtain ⟨hok, hstep, -⟩ := cmdCd_names h e.1 e.2
    obtain ⟨hrun, hnames⟩ := ih hok
    refine ⟨hrun, ?_⟩
    rw [cdArgs, List.foldl_append, ← hstep]
    exact hnames

/-- In every run the directory is a path in its buffer, and its names are what the arguments say. -/
theorem cdRun_names (es : List ((List UInt8 → Bool) × List UInt8)) :
    ShellPath (cdRun [slash] es) ∧ pathNames (cdRun [slash] es) = (cdArgs [slash] es).foldl changeNames [] :=
  shellPath_root.run es

/-- The name is an argument by itself. -/
theorem parseOneArg_name (hname : name ≠ []) (hspace : 32 ∉ name) (hfits : name.length < shellLineCap) :
    parseOneArg name shellLineCap = .ok name := by
  have hno : ∀ c ∈ name, c ≠ 32 := fun c hc => ne_of_mem_of_not_mem hc hspace
  have hskip : name.dropWhile (· = 32) = name := by
    cases name with
    | nil => rfl
    | cons c name => rw [List.dropWhile_cons_of_neg (by simpa using hno c List.mem_cons_self)]
  have htake : name.takeWhile (· ≠ 32) = name := List.takeWhile_eq_self_iff.2 (by simpa using hno)
  have hrest : name.dropWhile (· ≠ 32) = [] := List.dropWhile_eq_nil_iff.2 (by simpa using hno)
  unfold parseOneArg
  simp only [hskip, htake, hrest]
  rw [if_neg hname, if_neg (by omega)]
  rfl

/-- In every run, the way to a directory by its name and back with `..` ends where it began, byte for byte. -/
theorem cdRun_returns (es : List ((List UInt8 → Bool) × List UInt8)) {readdir readdir' : List UInt8 → Bool}
    (hcwd : cdRun [slash] es = cwd) (hname : name ≠ []) (hslash : slash ∉ name) (hspace : 32 ∉ name)
    (hdot : name ≠ [46]) (hparent : name ≠ [46, 46])
    (hfits : (shellBase cwd).length + 1 + name.length < shellLineCap)
    (hlist : readdir (shellBase cwd ++ slash :: name) = true) (hlist' : readdir' cwd = true) :
    pathNames (cdRun cwd [(readdir, name)]) = pathNames cwd ++ [name] ∧
      cdRun cwd [(readdir, name), (readdir', [46, 46])] = cwd := by
  have hok : ShellPath cwd := hcwd ▸ (shellPath_root.run es).1
  have habs : name.head? ≠ some slash := fun habs => hslash (List.mem_of_head? habs)
  have hthere : resolvePath cwd name shellLineCap = some (shellBase cwd ++ slash :: name) := by
    rw [resolvePath_relative hname hdot hparent habs, if_neg (by omega), pathTrimTrailingSlashes,
      trimSlashes_eq _ hslash hname, List.take_length]
  have hgo : (cmdCd readdir cwd name).1 = shellBase cwd ++ slash :: name := by
    unfold cmdCd
    rw [parseOneArg_name hname hspace (by omega)]
    dsimp only
    rw [hthere]
    dsimp only
    rw [if_pos hlist]
  have hback : pathParent (shellBase cwd ++ slash :: name) = cwd := by
    rw [pathParent_name _ hslash hname]
    unfold shellBase
    by_cases hroot : cwd = [slash]
    · rw [if_pos hroot, if_pos rfl, hroot]
    · have hne : cwd ≠ [] := by
        rintro rfl
        exact absurd hok.root (by simp)
      rw [if_neg hroot, if_neg hne]
  constructor
  · change pathNames (cmdCd readdir cwd name).1 = _
    rw [hgo, pathNames_append, pathNames_base, pathNames_name hslash hname]
  · change (cmdCd readdir' (cmdCd readdir cwd name).1 [46, 46]).1 = cwd
    have hfits' : (shellBase cwd ++ slash :: name).length < shellLineCap := by
      rw [List.length_append, List.length_cons]
      omega
    have hup : resolvePath (shellBase cwd ++ slash :: name) [46, 46] shellLineCap = some cwd := by
      rw [resolvePath, if_neg (by decide), if_pos rfl, pathCopy, if_pos hfits', Option.map_some, hback]
    rw [hgo]
    unfold cmdCd
    rw [parseOneArg_name (by decide) (by decide) (by decide)]
    dsimp only
    rw [hup]
    dsimp only
    rw [if_pos hlist']

theorem cdRun_returns_sample : pathNames (cdRun [slash, 97] [(fun _ => true, [98, 99])]) = [[97], [98, 99]] ∧
    cdRun [slash, 97] [(fun _ => true, [98, 99]), (fun _ => true, [46, 46])] = [slash, 97] :=
  cdRun_returns [(fun _ => true, [97])] (by decide) (by decide) (by decide) (by decide) (by decide) (by decide)
    (by decide) rfl rfl

end Runs

end Armonios
