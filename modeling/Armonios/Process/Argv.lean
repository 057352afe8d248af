import Armonios.Process.Roster

/-!
# What a spawn reads

`SYS_SPAWN_ARGV` copies the path and the argument strings of its caller. The path and the array of
pointers are checked against the caller's regions; the strings that the pointers lead to are not: both
`sys_spawn_argv` and `panel_boot_place_argv_on_stack` leave that to the other.

* `SpawnArgvSecure`: what the call does is the same in every memory that agrees in the caller's regions;
* `ArgvInside`: the strings lie in these regions;
* `ArgvSafe`: they do if the call comes to them, or they break its limits already by what lies there;
* `sysSpawnArgv_secure`: this is what the call needs to be secure.
-/

namespace Armonios

variable {ρ : Type} {env : Env ρ} {k k' : Kernel ρ} {i : SlotId} {p : Process} {byte byte' : Nat → UInt8}

/-- The arguments of the system call. -/
structure SpawnArgs where
  pathPtr : UInt64
  entryIndex : UInt64
  argvPtr : UInt64
  argc : UInt64

namespace SpawnArgs

def call (args : SpawnArgs) (env : Env ρ) (k : Kernel ρ) : Int × Kernel ρ :=
  sysSpawnArgv env args.pathPtr args.entryIndex args.argvPtr args.argc k

end SpawnArgs

/-- The address is in one of the regions of the process. -/
def inRegions (p : Process) (a : Nat) : Bool := processUserRangeContains a 1 p

/-- Two memories that are the same in the regions of the process. -/
def AgreesIn (p : Process) (byte byte' : Nat → UInt8) : Prop := ∀ a, inRegions p a = true → byte' a = byte a

/-- The result of the call, the argument strings of the new process with it, depends on the memory in the
regions of the caller only. -/
def SpawnArgvSecure (env : Env ρ) (k : Kernel ρ) (i : SlotId) (args : SpawnArgs) : Prop :=
  ∀ byte', AgreesIn (k.processes i) env.byte byte' → args.call { env with byte := byte' } k = args.call env k

/-- The memory as far as it is in the regions of the process; everywhere else it is NUL. -/
def onlyInside (p : Process) (byte : Nat → UInt8) (a : Nat) : UInt8 := if inRegions p a then byte a else 0

/-- The argument strings, each up to its NUL or to the largest length, lie in the regions of the process. -/
def ArgvInside (byte : Nat → UInt8) (p : Process) (argvPtr argc : Nat) : Prop :=
  ∀ t < argc, ∀ n < panelBootArgvMaxBytes,
    (∀ i < n, byte (loadWord byte (argvPtr + 8 * t) + i) ≠ 0) →
      inRegions p (loadWord byte (argvPtr + 8 * t) + n) = true

/-! ## Ranges -/

/-- Every address of a range that is accepted is in a region. -/
theorem inRegions_of_contains {start size a : Nat} (h : processUserRangeContains start size p = true)
    (hsize : size ≤ uint64Max) (h₁ : start ≤ a) (h₂ : a < start + size) : inRegions p a = true := by
  unfold processUserRangeContains userRegionEnd at h
  have hpos : size ≠ 0 := by omega
  simp only [hpos, decide_false, Bool.false_or, false_or] at h
  split at h
  · cases h
  rename_i stop hstop
  split at hstop
  · cases hstop
  rename_i hle
  cases hstop
  rw [List.any_eq_true] at h
  obtain ⟨region, hmem, hregion⟩ := h
  simp only [decide_eq_true_eq] at hregion
  have hfits : ¬a > uint64Max - 1 := by omega
  unfold inRegions processUserRangeContains userRegionEnd
  simp only [one_ne_zero, decide_false, Bool.false_or, false_or, if_neg hfits, List.any_eq_true, decide_eq_true_eq]
  exact ⟨region, hmem, by omega, by omega⟩

theorem inRegions_of_userBufRange {ptr len a : Nat} (h : userBufRange p ptr len = true) (hlen : len ≤ uint64Max)
    (h₁ : ptr ≤ a) (h₂ : a < ptr + len) : inRegions p a = true := by
  unfold userBufRange at h
  simp only [decide_eq_true_eq] at h
  exact inRegions_of_contains h.2 hlen h₁ h₂

/-! ## Memories that agree -/

theorem AgreesIn.copyCstr (h : AgreesIn p byte byte') (ptr left i : Nat) :
    sysUserCopyCstr byte' p ptr left i = sysUserCopyCstr byte p ptr left i := by
  induction left generalizing i with
  | zero => rfl
  | succ left ih =>
    unfold sysUserCopyCstr
    split
    · rfl
    · rename_i hc
      simp only [not_or, Bool.not_eq_false] at hc
      rw [h _ (inRegions_of_userBufRange hc.2.2 (by decide) (Nat.le_refl _) (by omega)), ih]

theorem loadWord_congr {addr : Nat} (h : ∀ a, addr ≤ a → a < addr + 8 → byte' a = byte a) :
    loadWord byte' addr = loadWord byte addr := by
  unfold loadWord
  congr 1
  refine List.map_congr_left fun i hi => ?_
  have hi := List.mem_range.mp hi
  exact h _ (by omega) (by omega)

/-- The memories agree on the string at `str`, as far as a walk with the budget `left` goes. -/
def SameString (byte byte' : Nat → UInt8) (left str : Nat) : Prop :=
  ∀ n < left, (∀ i < n, byte (str + i) ≠ 0) → byte' (str + n) = byte (str + n)

theorem SameString.head {left str : Nat} (h : SameString byte byte' (left + 1) str) : byte' str = byte str :=
  h 0 (by omega) fun i hi => by omega

theorem SameString.tail {left str : Nat} (h : SameString byte byte' (left + 1) str) (hne : byte str ≠ 0) :
    SameString byte byte' left (str + 1) := by
  intro n hn hpre
  have hshift : ∀ i, str + 1 + i = str + (i + 1) := fun i => by omega
  rw [hshift]
  refine h (n + 1) (by omega) fun i hi => ?_
  cases i with
  | zero => exact hne
  | succ i =>
    rw [← hshift]
    exact hpre i (by omega)

theorem SameString.mono {left left' str : Nat} (h : SameString byte byte' left' str) (hle : left ≤ left') :
    SameString byte byte' left str := fun n hn => h n (by omega)

theorem SameString.argvString {left str : Nat} (h : SameString byte byte' left str) :
    argvString byte' left str = argvString byte left str := by
  induction left generalizing str with
  | zero => rfl
  | succ left ih =>
    unfold Armonios.argvString
    rw [h.head]
    split
    · rfl
    · rename_i hne
      exact ih (h.tail hne)

theorem SameString.argvCopy {left str : Nat} (h : SameString byte byte' left str) :
    argvCopy byte' left str = argvCopy byte left str := by
  induction left generalizing str with
  | zero => rfl
  | succ left ih =>
    unfold Armonios.argvCopy
    rw [h.head]
    split
    · rfl
    · rename_i hne
      rw [ih (h.tail hne)]

theorem argvString_le {left str left' : Nat} (h : argvString byte left str = some left') : left' ≤ left := by
  induction left generalizing str with
  | zero => cases h
  | succ left ih =>
    unfold argvString at h
    split at h
    · cases h
      omega
    · have := ih h
      omega

theorem argvStrings_le {argvPtr argc left : Nat} (h : argvStrings byte argvPtr argc = some left) :
    left ≤ panelBootArgvMaxBytes := by
  induction argc generalizing left with
  | zero =>
    cases h
    exact Nat.le_refl _
  | succ argc ih =>
    unfold argvStrings at h
    obtain ⟨left₁, h₁, h₂⟩ := Option.bind_eq_some_iff.mp h
    dsimp only at h₂
    split at h₂
    · cases h₂
    · exact (argvString_le h₂).trans (ih h₁)

/-- The two walks over all strings. -/
theorem argvStrings_congr {argvPtr argc : Nat}
    (hword : ∀ t < argc, loadWord byte' (argvPtr + 8 * t) = loadWord byte (argvPtr + 8 * t))
    (hstr : ∀ t < argc, SameString byte byte' panelBootArgvMaxBytes (loadWord byte (argvPtr + 8 * t))) :
    argvStrings byte' argvPtr argc = argvStrings byte argvPtr argc := by
  induction argc with
  | zero => rfl
  | succ argc ih =>
    have ih := ih (fun t ht => hword t (by omega)) fun t ht => hstr t (by omega)
    unfold argvStrings
    rw [ih, hword argc (by omega)]
    refine Option.bind_congr fun left hleft => ?_
    have hsame := (hstr argc (by omega)).mono (argvStrings_le hleft)
    dsimp only
    rw [hsame.argvString]

theorem argvCopies_congr {argvPtr argc : Nat}
    (hword : ∀ t < argc, loadWord byte' (argvPtr + 8 * t) = loadWord byte (argvPtr + 8 * t))
    (hstr : ∀ t < argc, SameString byte byte' panelBootArgvMaxBytes (loadWord byte (argvPtr + 8 * t))) :
    argvCopies byte' argvPtr argc = argvCopies byte argvPtr argc := by
  unfold argvCopies
  refine List.map_congr_left fun t ht => ?_
  have ht := List.mem_range.mp ht
  rw [hword t ht, (hstr t ht).argvCopy]

theorem placeArgvOnStack_congr {stackPaddr argvPtr argc : Nat} {slot : SlotId}
    (h : argvStrings byte' argvPtr argc = argvStrings byte argvPtr argc) :
    placeArgvOnStack byte' stackPaddr slot argvPtr argc = placeArgvOnStack byte stackPaddr slot argvPtr argc := by
  unfold placeArgvOnStack panelBootPlaceArgvOnStack
  rw [h]

/-- The loader does not read the memory of programs. -/
theorem loadProcess_byte (name : Path) (slot : SlotId) (entryIndex memoryBase memorySize : Nat)
    (mapMmio : Option MapMmio) :
    loadProcess { env with byte := byte' } name slot entryIndex memoryBase memorySize mapMmio =
      loadProcess env name slot entryIndex memoryBase memorySize mapMmio := rfl

theorem spawnInto_congr {name : Path} {slot : SlotId} {entryIndex argvPtr argc : Nat}
    (hstr : argvStrings byte' argvPtr argc = argvStrings env.byte argvPtr argc)
    (hcopy : argvCopies byte' argvPtr argc = argvCopies env.byte argvPtr argc) :
    spawnInto { env with byte := byte' } name slot entryIndex argvPtr argc =
      spawnInto env name slot entryIndex argvPtr argc := by
  have hplace : ∀ stackPaddr, placeArgvOnStack byte' stackPaddr slot argvPtr argc =
      placeArgvOnStack env.byte stackPaddr slot argvPtr argc := fun _ => placeArgvOnStack_congr hstr
  unfold spawnInto
  dsimp only
  rw [hcopy]
  simp only [hplace, loadProcess_byte]

theorem appSpawnVfs_congr {path : Path} {entryIndex argvPtr argc : Nat}
    (hstr : argvStrings byte' argvPtr argc = argvStrings env.byte argvPtr argc)
    (hcopy : argvCopies byte' argvPtr argc = argvCopies env.byte argvPtr argc) :
    appSpawnVfs { env with byte := byte' } path entryIndex argvPtr argc =
      appSpawnVfs env path entryIndex argvPtr argc := by
  unfold appSpawnVfs
  simp only [spawnInto_congr hstr hcopy]

theorem spawnResult_congr {path : Path} {entryIndex argvPtr argc : Nat}
    (hstr : argvStrings byte' argvPtr argc = argvStrings env.byte argvPtr argc)
    (hcopy : argvCopies byte' argvPtr argc = argvCopies env.byte argvPtr argc) :
    spawnResult { env with byte := byte' } path entryIndex argvPtr argc k =
      spawnResult env path entryIndex argvPtr argc k := by
  unfold spawnResult
  rw [appSpawnVfs_congr hstr hcopy]

/-! ## The system call -/

/-- The check of `sys_spawn_argv` on the array of pointers. -/
def argvArrayOk (k : Kernel ρ) (argvPtr argc : UInt64) : Bool :=
  if argc = 0 then decide (argvPtr = 0)
  else decide (argvPtr ≠ 0) && match k.current with
    | none => false
    | some i => userBufRange (k.processes i) argvPtr.toNat (argc.toNat * 8)

/-- A call that passes its checks is a call of `app_spawn_vfs`. -/
theorem call_of_checks {args : SpawnArgs} {path : Path} (hentry : args.entryIndex.toNat < 2 ^ 32)
    (hargc : args.argc.toNat ≤ panelBootArgvMaxStrings) (hpath : pathArgument env k args.pathPtr = some path)
    (harray : argvArrayOk k args.argvPtr args.argc = true) :
    args.call env k = spawnResult env path args.entryIndex.toNat args.argvPtr.toNat args.argc.toNat k := by
  unfold SpawnArgs.call sysSpawnArgv
  rw [if_neg (by omega), hpath]
  exact if_pos harray

/-- The call is refused by its checks, or it is a call of `app_spawn_vfs`. -/
theorem sysSpawnArgv_cases (env : Env ρ) (k : Kernel ρ) (args : SpawnArgs) :
    (∀ byte', (∀ ptr, pathArgument { env with byte := byte' } k ptr = pathArgument env k ptr) →
      args.call { env with byte := byte' } k = (errInval, k)) ∨
    ∃ path, args.entryIndex.toNat < 2 ^ 32 ∧ args.argc.toNat ≤ panelBootArgvMaxStrings ∧
      pathArgument env k args.pathPtr = some path ∧ argvArrayOk k args.argvPtr args.argc = true ∧ ∀ byte',
        (∀ ptr, pathArgument { env with byte := byte' } k ptr = pathArgument env k ptr) →
        args.call { env with byte := byte' } k =
          spawnResult { env with byte := byte' } path args.entryIndex.toNat args.argvPtr.toNat args.argc.toNat k := by
  by_cases hrange : 2 ^ 32 ≤ args.entryIndex.toNat ∨ panelBootArgvMaxStrings < args.argc.toNat
  · refine .inl fun byte' _ => ?_
    unfold SpawnArgs.call sysSpawnArgv
    rw [if_pos hrange]
  cases hpath : pathArgument env k args.pathPtr with
  | none =>
    refine .inl fun byte' hbyte => ?_
    unfold SpawnArgs.call sysSpawnArgv
    rw [if_neg hrange, hbyte, hpath]
  | some path =>
    by_cases hok : argvArrayOk k args.argvPtr args.argc = true
    · refine .inr ⟨path, by omega, by omega, rfl, hok, fun byte' hbyte => ?_⟩
      exact call_of_checks (by omega) (by omega) ((hbyte _).trans hpath) hok
    · refine .inl fun byte' hbyte => ?_
      unfold SpawnArgs.call sysSpawnArgv
      rw [if_neg hrange, hbyte, hpath]
      exact if_neg hok

theorem AgreesIn.pathArgument (env : Env ρ) (hcur : k.current = some i)
    (h : AgreesIn (k.processes i) env.byte byte') (ptr : UInt64) :
    pathArgument { env with byte := byte' } k ptr = pathArgument env k ptr := by
  unfold Armonios.pathArgument
  rw [hcur, Option.bind_some, Option.bind_some]
  exact h.copyCstr _ _ _

/-- The pointers to the strings are read from the regions of the caller. -/
theorem AgreesIn.words {argvPtr argc : UInt64} (hcur : k.current = some i)
    (h : AgreesIn (k.processes i) byte byte') (hargc : argc.toNat ≤ panelBootArgvMaxStrings)
    (hok : argvArrayOk k argvPtr argc = true) {t : Nat} (ht : t < argc.toNat) :
    loadWord byte' (argvPtr.toNat + 8 * t) = loadWord byte (argvPtr.toNat + 8 * t) := by
  have hne : argc ≠ 0 := by
    rintro rfl
    exact absurd ht (by simp)
  unfold argvArrayOk at hok
  rw [if_neg hne, hcur, Bool.and_eq_true] at hok
  have hlen : argc.toNat * 8 ≤ uint64Max := by
    unfold panelBootArgvMaxStrings at hargc
    unfold uint64Max
    omega
  exact loadWord_congr fun a h₁ h₂ => h a (inRegions_of_userBufRange hok.2 hlen (by omega) (by omega))

/-! ## A call that comes to the strings -/

/-- The loader gives a new process for `path` its image, its stack and its table; it does so before any
string is looked at. `slot` is the slot of the process and `l` the loader then. -/
structure LoadsImage (env : Env ρ) (k : Kernel ρ) (path : Path) (entryIndex : Nat) (appName : Path) (slot : SlotId)
    (k₁ : Kernel ρ) (l : Loader ρ) : Prop where
  memory : k.spawnMemorySize ≠ 0
  name : vfsStripPrefix path armoniosRoot = some appName
  short : ¬(appName.length = 0 ∨ 32 ≤ appName.length)
  alloc : processAlloc (processReclaimZombies k).nextSpawnPid appName
    { processReclaimZombies k with nextSpawnPid := ((processReclaimZombies k).nextSpawnPid + 1) % 2 ^ 32 } =
      some (slot, k₁)
  load : loadProcess env appName slot entryIndex k₁.spawnMemoryBase k₁.spawnMemorySize k₁.spawnMapMmio
    ⟨k₁.setProcess slot { k₁.processes slot with state := .blocked }, ⟨0, 0⟩⟩ = .ok () l

/-- The arguments pass the checks of the system call, and there is a program at the path to load. -/
structure ComesToStrings (env : Env ρ) (k : Kernel ρ) (args : SpawnArgs) : Prop where
  entry : args.entryIndex.toNat < 2 ^ 32
  count : args.argc.toNat ≤ panelBootArgvMaxStrings
  array : argvArrayOk k args.argvPtr args.argc = true
  loads : ∃ path, pathArgument env k args.pathPtr = some path ∧
    ∃ appName slot k₁ l, LoadsImage env k path args.entryIndex.toNat appName slot k₁ l

variable {path appName : Path} {entryIndex argvPtr argc : Nat} {slot : SlotId} {k₁ : Kernel ρ} {l : Loader ρ}

theorem onKernel_storage {α : Type} (m : KernelM ρ α) (l : Loader ρ) :
    Wp (onKernel m) l (fun _ l' => l'.storage = l.storage) fun _ _ => True :=
  wp_onPart.mpr (wp_const rfl)

theorem initPanelProcess_stack (slot : SlotId) (image : UserImage) (memoryBase memorySize : Nat)
    (mapMmio : Option MapMmio) (l : Loader ρ) :
    Wp (initPanelProcess slot image memoryBase memorySize mapMmio) l
      (fun _ l' => l'.storage.stackPaddr ≠ 0) fun _ _ => True := by
  have hkeep : ∀ {α β : Type} (m : KernelM ρ α) (f : α → LoaderM ρ β) (l : Loader ρ),
      (∀ a l', l'.storage = l.storage → Wp (f a) l' (fun _ l' => l'.storage.stackPaddr ≠ 0) fun _ _ => True) →
      Wp (onKernel m >>= f) l (fun _ l' => l'.storage.stackPaddr ≠ 0) fun _ _ => True := fun m f l h =>
    wp_bind.mpr (Wp.mono (onKernel_storage m l) h fun _ _ h => h)
  unfold initPanelProcess
  refine wp_bind.mpr (wp_get.mpr (wp_guard (fun _ => trivial) fun _ => hkeep _ _ _ fun stackPaddr l₁ _ => ?_))
  refine wp_bind.mpr (wp_modify.mpr (wp_guard (fun _ => trivial) fun hne => ?_))
  refine hkeep _ _ _ fun _ l₂ h₂ => wp_bind.mpr (wp_get.mpr (hkeep _ _ _ fun _ l₃ h₃ => ?_))
  refine hkeep _ _ _ fun _ l₄ h₄ => wp_bind.mpr (wp_modify.mpr ?_)
  refine Wp.mono (onKernel_storage _ _) (fun _ l₅ h₅ => ?_) fun _ _ h => h
  rw [h₅]
  show l₄.storage.stackPaddr ≠ 0
  rw [h₄, h₃, h₂]
  exact hne

/-- The loader keeps the stack for the arguments. -/
theorem loadProcess_stack (name : Path) (slot : SlotId) (entryIndex memoryBase memorySize : Nat)
    (mapMmio : Option MapMmio) (l : Loader ρ) :
    Wp (loadProcess env name slot entryIndex memoryBase memorySize mapMmio) l
      (fun _ l' => l'.storage.stackPaddr ≠ 0) fun _ _ => True := by
  have habandon : ∀ l₁ : Loader ρ, Wp (abandon slot : LoaderM ρ Unit) l₁
      (fun _ l' => l'.storage.stackPaddr ≠ 0) fun _ _ => True := fun l₁ =>
    wp_bind_any fun _ _ => wp_bind_any fun _ _ => wp_throw.mpr trivial
  unfold loadProcess
  refine wp_bind.mpr (wp_attempt_all.mpr (Wp.mono wp_self (fun image l₁ _ => ?_) fun _ l₁ _ => habandon l₁))
  exact wp_bind.mpr (wp_attempt_all.mpr
    (Wp.mono (initPanelProcess_stack slot image _ _ _ l₁) (fun _ _ h => h) fun _ l₂ _ => habandon l₂))

/-- The strings have room on the stack whenever they are within the budget. -/
theorem placeArgvOnStack_isSome (byte : Nat → UInt8) (slot : SlotId) {stackPaddr : Nat} (hstack : stackPaddr ≠ 0)
    (hargc : argc ≤ panelBootArgvMaxStrings) (hptr : argc ≠ 0 → argvPtr ≠ 0) :
    (placeArgvOnStack byte stackPaddr slot argvPtr argc).isSome = (argvStrings byte argvPtr argc).isSome := by
  unfold placeArgvOnStack panelBootPlaceArgvOnStack
  rw [if_neg hstack, if_neg (by decide)]
  by_cases h0 : argc = 0
  · subst h0
    rfl
  rw [if_neg h0, if_neg (by simp [hptr h0, hargc])]
  cases hs : argvStrings byte argvPtr argc with
  | none => rfl
  | some left =>
    have hsmall : ¬(kernelUserStackSize < (panelBootArgvMaxBytes - left + (argc + 1) * 8 + 15) / 16 * 16 ∨
        uint64Max < panelStackVaddr slot + kernelUserStackSize) := by
      have hslot : slot.val < 16 := slot.isLt
      unfold panelBootArgvMaxStrings at hargc
      unfold kernelUserStackSize panelBootArgvMaxBytes uint64Max panelStackVaddr kernelUserStackVaBase
        kernelUserStackVaStride
      omega
    show (if _ then none else _ : Option Nat).isSome = _
    rw [if_neg hsmall]
    rfl

/-- A run of `app_spawn_vfs` that loads its image ends with the strings. -/
theorem LoadsImage.spec (h : LoadsImage env k path entryIndex appName slot k₁ l)
    (hargc : argc ≤ panelBootArgvMaxStrings) (hptr : argc ≠ 0 → argvPtr ≠ 0) (byte : Nat → UInt8) :
    Wp (appSpawnVfs { env with byte := byte } path entryIndex argvPtr argc) k
      (fun pid k' => argvStrings byte argvPtr argc ≠ none ∧ pid = (processReclaimZombies k).nextSpawnPid ∧
        (k'.processes slot).argv = argvCopies byte argvPtr argc ∧ (k'.processes slot).state = .ready)
      fun _ k' => argvStrings byte argvPtr argc = none ∧ k' = processRelease slot l.kernel := by
  obtain ⟨hmemory, hname, hshort, halloc, hload⟩ := h
  have hstack : l.storage.stackPaddr ≠ 0 := (loadProcess_stack _ _ _ _ _ _ _).of_ok hload
  have hplace := placeArgvOnStack_isSome byte slot hstack hargc hptr
  unfold appSpawnVfs
  refine wp_bind.mpr (wp_get.mpr (wp_guard (fun h0 => absurd h0 hmemory) fun _ => ?_))
  rw [hname]
  refine wp_guard (fun h0 => absurd h0 hshort) fun _ => ?_
  refine wp_bind.mpr (wp_modify.mpr (wp_bind.mpr (wp_get.mpr
    (wp_bind.mpr (wp_modify.mpr (wp_bind.mpr (wp_get.mpr ?_)))))))
  rw [halloc]
  refine wp_bind.mpr (wp_set.mpr (wp_bind.mpr (wp_onPart.mpr ?_)))
  unfold spawnInto
  refine wp_bind.mpr (wp_get.mpr (wp_bind.mpr (wp_of_ok hload (wp_bind.mpr (wp_get.mpr ?_)))))
  cases hp : placeArgvOnStack byte l.storage.stackPaddr slot argvPtr argc with
  | none =>
    rw [hp] at hplace
    refine wp_bind.mpr (wp_onPart.mpr (wp_modify.mpr (wp_throw.mpr ⟨?_, rfl⟩)))
    exact Option.isNone_iff_eq_none.mp (by rw [← Option.not_isSome, ← hplace]; rfl)
  | some argvVaddr =>
    rw [hp] at hplace
    refine wp_onPart.mpr (wp_modify.mpr (wp_pure.mpr ⟨fun hnone => ?_, rfl, ?_, ?_⟩))
    · rw [hnone] at hplace
      cases hplace
    · simp [Kernel.setProcess]
    · simp [Kernel.setProcess]

/-- A call that does not load an image is refused, whatever is in the memory. -/
theorem appSpawnVfs_refused (argvPtr argc : Nat)
    (h : ∀ appName slot k₁ l, ¬LoadsImage env k path entryIndex appName slot k₁ l) :
    ∃ k', ∀ byte, Wp (appSpawnVfs { env with byte := byte } path entryIndex argvPtr argc) k
      (fun _ _ => False) fun _ k'' => k'' = k' := by
  by_cases h0 : k.spawnMemorySize = 0
  · refine ⟨k, fun byte => wp_bind.mpr (wp_get.mpr (wp_guard (fun _ => rfl) fun hne => absurd h0 hne))⟩
  cases hname : vfsStripPrefix path armoniosRoot with
  | none =>
    refine ⟨k, fun byte => wp_bind.mpr (wp_get.mpr (wp_guard (fun _ => rfl) fun _ => ?_))⟩
    rw [hname]
    exact rfl
  | some appName =>
    by_cases hshort : appName.length = 0 ∨ 32 ≤ appName.length
    · refine ⟨k, fun byte => wp_bind.mpr (wp_get.mpr (wp_guard (fun _ => rfl) fun _ => ?_))⟩
      rw [hname]
      exact wp_guard (fun _ => rfl) fun hne => absurd hshort hne
    -- the zombies are reclaimed and the next pid is taken
    let k₂ : Kernel ρ := { processReclaimZombies k with
      nextSpawnPid := ((processReclaimZombies k).nextSpawnPid + 1) % 2 ^ 32 }
    have hto : ∀ byte E, (∀ m, (∀ slot k₁, processAlloc (processReclaimZombies k).nextSpawnPid appName k₂ =
          some (slot, k₁) → m = do
            set (k₁.setProcess slot { k₁.processes slot with state := .blocked })
            withLoader (spawnInto { env with byte := byte } appName slot entryIndex argvPtr argc)
            return (processReclaimZombies k).nextSpawnPid) →
          (processAlloc (processReclaimZombies k).nextSpawnPid appName k₂ = none → m = throw ()) →
          Wp m k₂ (fun _ _ => False) E) →
        Wp (appSpawnVfs { env with byte := byte } path entryIndex argvPtr argc) k (fun _ _ => False) E := by
      intro byte E hw
      unfold appSpawnVfs
      refine wp_bind.mpr (wp_get.mpr (wp_guard (fun h => absurd h h0) fun _ => ?_))
      rw [hname]
      refine wp_guard (fun h => absurd h hshort) fun _ => ?_
      refine wp_bind.mpr (wp_modify.mpr (wp_bind.mpr (wp_get.mpr (wp_bind.mpr (wp_modify.mpr
        (wp_bind.mpr (wp_get.mpr (hw _ (fun slot k₁ h => ?_) fun h => ?_))))))))
      · rw [h]
      · rw [h]
    cases halloc : processAlloc (processReclaimZombies k).nextSpawnPid appName k₂ with
    | none =>
      refine ⟨k₂, fun byte => hto byte _ fun m _ hnone => ?_⟩
      rw [hnone halloc]
      exact rfl
    | some r =>
      obtain ⟨slot, k₁⟩ := r
      cases hload : loadProcess env appName slot entryIndex k₁.spawnMemoryBase k₁.spawnMemorySize k₁.spawnMapMmio
          ⟨k₁.setProcess slot { k₁.processes slot with state := .blocked }, ⟨0, 0⟩⟩ with
      | ok a l => exact absurd ⟨h0, hname, hshort, halloc, hload⟩ (h appName slot k₁ l)
      | error e l =>
        refine ⟨l.kernel, fun byte => hto byte _ fun m hsome _ => ?_⟩
        rw [hsome slot k₁ halloc]
        refine wp_bind.mpr (wp_set.mpr (wp_bind.mpr (wp_onPart.mpr ?_)))
        unfold spawnInto
        exact wp_bind.mpr (wp_get.mpr (wp_bind.mpr (wp_of_error hload rfl)))

/-- What the call returns is what `app_spawn_vfs` ends with. -/
theorem spawnResult_spec {Q : Nat → Kernel ρ → Prop} {E : Unit → Kernel ρ → Prop}
    (h : Wp (appSpawnVfs env path entryIndex argvPtr argc) k Q E) :
    (∃ k', E () k' ∧ spawnResult env path entryIndex argvPtr argc k = (errNoent, k')) ∨
      ∃ pid, Q pid (spawnResult env path entryIndex argvPtr argc k).2 := by
  cases hr : appSpawnVfs env path entryIndex argvPtr argc k with
  | error e k' =>
    refine .inl ⟨k', h.of_error hr, ?_⟩
    unfold spawnResult
    rw [hr]
  | ok pid k' =>
    have hstate : (spawnResult env path entryIndex argvPtr argc k).2 = k' := by
      unfold spawnResult
      rw [hr]
      dsimp only
      split <;> rfl
    exact .inr ⟨pid, hstate ▸ h.of_ok hr⟩

/-! ## Strings in a part of the memory -/

theorem onlyInside_agrees (p : Process) (byte : Nat → UInt8) : AgreesIn p byte (onlyInside p byte) :=
  fun _ ha => if_pos ha

/-- A longer budget is enough when a shorter one is. -/
theorem argvString_mono {left left' str l' : Nat} (hle : left' ≤ left) (h : argvString byte left' str = some l') :
    ∃ l, argvString byte left str = some l ∧ l' ≤ l := by
  induction left' generalizing left str with
  | zero => cases h
  | succ left' ih =>
    obtain ⟨left, rfl⟩ : ∃ n, left = n + 1 := ⟨left - 1, by omega⟩
    unfold argvString at h ⊢
    split at h
    · rename_i h0
      cases h
      exact ⟨left, if_pos h0, by omega⟩
    · rename_i hne
      rw [if_neg hne]
      exact ih (by omega) h

/-- Where the memory outside of the regions is NUL, the strings are the shortest. -/
theorem AgreesIn.argvString {left str l' : Nat} (h : AgreesIn p byte byte')
    (hs : argvString byte' left str = some l') :
    ∃ l, Armonios.argvString (onlyInside p byte) left str = some l ∧ l' ≤ l := by
  induction left generalizing str with
  | zero => cases hs
  | succ left ih =>
    have hle := argvString_le hs
    unfold Armonios.argvString at hs ⊢
    by_cases h0 : onlyInside p byte str = 0
    · refine ⟨left, if_pos h0, ?_⟩
      split at hs
      · cases hs
        exact Nat.le_refl _
      · exact argvString_le hs
    · have hin : inRegions p str = true := by
        by_contra hout
        exact h0 (if_neg hout)
      have hbyte : byte' str ≠ 0 := by
        rw [h str hin, ← onlyInside_agrees p byte str hin]
        exact h0
      rw [if_neg hbyte] at hs
      rw [if_neg h0]
      exact ih hs

theorem AgreesIn.argvStrings {argvPtr argc l' : Nat} (h : AgreesIn p byte byte')
    (hword : ∀ t < argc, loadWord byte' (argvPtr + 8 * t) = loadWord (onlyInside p byte) (argvPtr + 8 * t))
    (hs : argvStrings byte' argvPtr argc = some l') :
    ∃ l, Armonios.argvStrings (onlyInside p byte) argvPtr argc = some l ∧ l' ≤ l := by
  induction argc generalizing l' with
  | zero => exact ⟨_, hs, Nat.le_refl _⟩
  | succ argc ih =>
    unfold Armonios.argvStrings at hs ⊢
    obtain ⟨left', h₁, h₂⟩ := Option.bind_eq_some_iff.mp hs
    obtain ⟨left, hleft, hle⟩ := ih (fun t ht => hword t (by omega)) h₁
    dsimp only at h₂
    rw [hword argc (by omega)] at h₂
    rw [hleft, Option.bind_eq_bind, Option.bind_some]
    dsimp only
    split at h₂
    · cases h₂
    · rename_i hne
      rw [if_neg hne]
      obtain ⟨l₁, hl₁, hle₁⟩ := h.argvString h₂
      obtain ⟨l, hl, hle₂⟩ := argvString_mono hle hl₁
      exact ⟨l, hl, hle₁.trans hle₂⟩

/-- The byte at `n` of a copied string whose first `n` bytes are not NUL. -/
theorem argvCopy_getElem? {left str n : Nat} (hn : n < left) (hpre : ∀ i < n, byte (str + i) ≠ 0) :
    (argvCopy byte left str)[n]? = if byte (str + n) = 0 then none else some (byte (str + n)) := by
  induction left generalizing str n with
  | zero => omega
  | succ left ih =>
    unfold argvCopy
    cases n with
    | zero => by_cases h : byte str = 0 <;> simp [h]
    | succ n =>
      have hshift : ∀ i, str + 1 + i = str + (i + 1) := fun i => by omega
      have hfirst : byte str ≠ 0 := hpre 0 (by omega)
      rw [if_neg hfirst, List.getElem?_cons_succ, ih (by omega), hshift]
      intro i hi
      rw [hshift]
      exact hpre (i + 1) (by omega)

theorem argvCopies_getElem? (byte : Nat → UInt8) {t n : Nat} (ht : t < argc) (hn : n < panelBootArgvMaxBytes)
    (hpre : ∀ i < n, byte (loadWord byte (argvPtr + 8 * t) + i) ≠ 0) :
    (argvCopies byte argvPtr argc)[t]?.bind (·[n]?) =
      if byte (loadWord byte (argvPtr + 8 * t) + n) = 0 then none
      else some (byte (loadWord byte (argvPtr + 8 * t) + n)) := by
  simp only [argvCopies, List.getElem?_map, List.getElem?_range ht, Option.map_some, Option.bind_some,
    argvCopy_getElem? hn hpre]

/-- A string that leaves the regions does so at a first byte. -/
theorem exists_first_outside {argvPtr argc : Nat} (h : ¬ArgvInside byte p argvPtr argc) :
    ∃ t < argc, ∃ n < panelBootArgvMaxBytes,
      (∀ i < n, byte (loadWord byte (argvPtr + 8 * t) + i) ≠ 0 ∧
        inRegions p (loadWord byte (argvPtr + 8 * t) + i) = true) ∧
      inRegions p (loadWord byte (argvPtr + 8 * t) + n) = false := by
  unfold ArgvInside at h
  push Not at h
  obtain ⟨t, ht, hex⟩ := h
  obtain ⟨hn, hpre, hout⟩ := Nat.find_spec hex
  refine ⟨t, ht, Nat.find hex, hn, fun i hi => ⟨hpre i hi, ?_⟩, Bool.eq_false_iff.mpr hout⟩
  by_contra hfirst
  exact Nat.find_min hex hi ⟨by omega, fun j hj => hpre j (by omega), hfirst⟩

/-! ## The condition -/

/-- If the call comes to the strings, they lie in the regions of the caller, or there is a NULL among the
pointers, or what of the strings lies in the regions is too long already. -/
def ArgvSafe (env : Env ρ) (k : Kernel ρ) (i : SlotId) (args : SpawnArgs) : Prop :=
  ComesToStrings env k args →
    argvStrings (onlyInside (k.processes i) env.byte) args.argvPtr.toNat args.argc.toNat ≠ none →
      ArgvInside env.byte (k.processes i) args.argvPtr.toNat args.argc.toNat

theorem argvArrayOk_ptr {argvPtr argc : UInt64} (h : argvArrayOk k argvPtr argc = true) (h0 : argc.toNat ≠ 0) :
    argvPtr.toNat ≠ 0 := by
  have hne : argc ≠ 0 := by
    rintro rfl
    exact h0 rfl
  unfold argvArrayOk at h
  rw [if_neg hne, Bool.and_eq_true, decide_eq_true_eq] at h
  exact fun hz => h.1 (UInt64.toNat_inj.mp hz)

/-- A call that comes to the strings depends on each of them that has room. -/
theorem SpawnArgvSecure.inside {args : SpawnArgs} (hcur : k.current = some i) (h : SpawnArgvSecure env k i args)
    (hcomes : ComesToStrings env k args)
    (hfits : argvStrings (onlyInside (k.processes i) env.byte) args.argvPtr.toNat args.argc.toNat ≠ none) :
    ArgvInside env.byte (k.processes i) args.argvPtr.toNat args.argc.toNat := by
  by_contra hout
  obtain ⟨t, ht, n, hn, hpre, hn0⟩ := exists_first_outside hout
  obtain ⟨hentry, hargc, harray, path, hpath, appName, slot, k₁, l, hl⟩ := hcomes
  have hptr : args.argc.toNat ≠ 0 → args.argvPtr.toNat ≠ 0 := argvArrayOk_ptr harray
  -- two memories that agree with the real one: NUL outside of the regions, and a byte that is not NUL at `a`
  let a := loadWord env.byte (args.argvPtr.toNat + 8 * t) + n
  let b₀ := onlyInside (k.processes i) env.byte
  let b₁ : Nat → UInt8 := Function.update b₀ a 1
  have hagrees₀ : AgreesIn (k.processes i) env.byte b₀ := onlyInside_agrees _ _
  have hagrees₁ : AgreesIn (k.processes i) env.byte b₁ := by
    intro c hc
    have hca : c ≠ a := by
      rintro rfl
      exact absurd hc (by rw [hn0]; decide)
    exact (Function.update_of_ne hca _ _).trans (hagrees₀ c hc)
  have hword : ∀ b, AgreesIn (k.processes i) env.byte b → loadWord b (args.argvPtr.toNat + 8 * t) =
      loadWord env.byte (args.argvPtr.toNat + 8 * t) := fun b hb => hb.words hcur hargc harray ht
  have hpre' : ∀ b, AgreesIn (k.processes i) env.byte b →
      ∀ j < n, b (loadWord b (args.argvPtr.toNat + 8 * t) + j) ≠ 0 := by
    intro b hb j hj
    rw [hword b hb, hb _ (hpre j hj).2]
    exact (hpre j hj).1
  have hcall : ∀ b, AgreesIn (k.processes i) env.byte b → args.call env k =
      spawnResult { env with byte := b } path args.entryIndex.toNat args.argvPtr.toNat args.argc.toNat k := by
    intro b hb
    rw [← h b hb]
    exact call_of_checks hentry hargc (AgreesIn.pathArgument env hcur hb _ ▸ hpath) harray
  have hspec := fun b => spawnResult_spec (hl.spec hargc hptr b)
  have hsame := (hcall b₀ hagrees₀).symm.trans (hcall b₁ hagrees₁)
  rcases hspec b₀ with ⟨k', ⟨hnone, -⟩, -⟩ | ⟨pid, -, -, hargv, hready⟩
  · exact hfits hnone
  rcases hspec b₁ with ⟨k', ⟨-, hk'⟩, heq⟩ | ⟨pid', -, -, hargv', -⟩
  · -- the second call starts no program
    rw [hsame, heq, hk'] at hready
    rw [processRelease_unused] at hready
    cases hready
  · -- the second call has one byte more
    have hb₀ : b₀ a = 0 := if_neg (by rw [hn0]; decide)
    have hb₁ : b₁ a = 1 := Function.update_self _ _ _
    have h₀ := argvCopies_getElem? b₀ ht hn (hpre' b₀ hagrees₀)
    have h₁ := argvCopies_getElem? b₁ ht hn (hpre' b₁ hagrees₁)
    rw [hword b₀ hagrees₀, if_pos hb₀, ← hargv, hsame, hargv'] at h₀
    rw [hword b₁ hagrees₁, h₀, hb₁] at h₁
    exact absurd h₁ (by decide)

/-- The call is secure if and only if it does not come to a string that leaves the regions of the caller. -/
theorem sysSpawnArgv_secure (args : SpawnArgs) (hcur : k.current = some i) :
    SpawnArgvSecure env k i args ↔ ArgvSafe env k i args := by
  refine ⟨fun h hcomes hfits => h.inside hcur hcomes hfits, fun hsafe byte' hagrees => ?_⟩
  have hpath := fun ptr => AgreesIn.pathArgument env hcur hagrees ptr
  rcases sysSpawnArgv_cases env k args with hfail | ⟨path, hentry, hargc, hpathIs, harray, hcall⟩
  · rw [hfail byte' hpath]
    exact (hfail env.byte fun _ => rfl).symm
  rw [hcall byte' hpath, show args.call env k = _ from hcall env.byte fun _ => rfl]
  by_cases hloads : ∃ appName slot k₁ l, LoadsImage env k path args.entryIndex.toNat appName slot k₁ l
  case neg =>
    -- the call is refused before it comes to a string
    obtain ⟨k', hrefused⟩ := appSpawnVfs_refused args.argvPtr.toNat args.argc.toNat
      fun appName slot k₁ l h => hloads ⟨appName, slot, k₁, l, h⟩
    have hresult : ∀ byte, spawnResult { env with byte := byte } path args.entryIndex.toNat args.argvPtr.toNat
        args.argc.toNat k = (errNoent, k') := by
      intro byte
      rcases spawnResult_spec (hrefused byte) with ⟨k'', rfl, heq⟩ | ⟨_, hno⟩
      · exact heq
      · exact hno.elim
    rw [hresult byte']
    exact (hresult env.byte).symm
  have hcomes : ComesToStrings env k args := ⟨hentry, hargc, harray, path, hpathIs, hloads⟩
  have hword : ∀ b, AgreesIn (k.processes i) env.byte b → ∀ t < args.argc.toNat,
      loadWord b (args.argvPtr.toNat + 8 * t) = loadWord env.byte (args.argvPtr.toNat + 8 * t) :=
    fun b hb t ht => AgreesIn.words hcur hb hargc harray ht
  by_cases hfits : argvStrings (onlyInside (k.processes i) env.byte) args.argvPtr.toNat args.argc.toNat = none
  · -- the strings break the limits, whatever lies outside of the regions
    obtain ⟨appName, slot, k₁, l, hl⟩ := hloads
    have hnone : ∀ b, AgreesIn (k.processes i) env.byte b →
        argvStrings b args.argvPtr.toNat args.argc.toNat = none := by
      intro b hb
      by_contra hsome
      obtain ⟨l', hl'⟩ := Option.ne_none_iff_exists'.mp hsome
      obtain ⟨left, hleft, -⟩ := hb.argvStrings (fun t ht => (hword b hb t ht).trans
        (hword _ (onlyInside_agrees _ _) t ht).symm) hl'
      rw [hfits] at hleft
      cases hleft
    have hresult : ∀ b, AgreesIn (k.processes i) env.byte b → spawnResult { env with byte := b } path
        args.entryIndex.toNat args.argvPtr.toNat args.argc.toNat k = (errNoent, processRelease slot l.kernel) := by
      intro b hb
      rcases spawnResult_spec (hl.spec hargc (argvArrayOk_ptr harray) b) with ⟨k', ⟨-, rfl⟩, heq⟩ | ⟨_, hsome, -⟩
      · exact heq
      · exact absurd (hnone b hb) hsome
    rw [hresult byte' hagrees]
    exact (hresult env.byte fun _ _ => rfl).symm
  · have hinside := hsafe hcomes hfits
    have hstr : ∀ t < args.argc.toNat, SameString env.byte byte' panelBootArgvMaxBytes
        (loadWord env.byte (args.argvPtr.toNat + 8 * t)) :=
      fun t ht n hn hpre => hagrees _ (hinside t ht n hn hpre)
    exact spawnResult_congr (argvStrings_congr (hword byte' hagrees) hstr)
      (argvCopies_congr (hword byte' hagrees) hstr)

theorem errInval_neg : ¬0 ≤ errInval := by decide

theorem errNoent_neg : ¬0 ≤ errNoent := by decide

/-- A call that starts a program comes to the strings. -/
theorem comesToStrings_of_started {args : SpawnArgs} (hpid : 0 ≤ (args.call env k).1) : ComesToStrings env k args := by
  rcases sysSpawnArgv_cases env k args with hfail | ⟨path, hentry, hargc, hpath, harray, hcall⟩
  · rw [show args.call env k = (errInval, k) from hfail env.byte fun _ => rfl] at hpid
    exact absurd hpid errInval_neg
  refine ⟨hentry, hargc, harray, path, hpath, ?_⟩
  by_contra hloads
  obtain ⟨k', hrefused⟩ := appSpawnVfs_refused args.argvPtr.toNat args.argc.toNat
    fun appName slot k₁ l h => hloads ⟨appName, slot, k₁, l, h⟩
  rw [call_of_checks hentry hargc hpath harray] at hpid
  rcases spawnResult_spec (hrefused env.byte) with ⟨k'', -, heq⟩ | ⟨_, hno⟩
  · rw [show spawnResult env path _ _ _ k = _ from heq] at hpid
    exact absurd hpid errNoent_neg
  · exact hno

/-! The panel of the sample machine spawns `/armonios/a` with one argument: the array of pointers is at
`0x400100` in its image. -/

/-- `argv[0]` is the address `0x400000` or, with `outside`, the address `0x40000000` in the memory of the
kernel, where there is a string of one byte. -/
def sampleArgvByte (outside : Bool) (a : Nat) : UInt8 :=
  if a < 0x400100 then (armoniosRoot ++ [97]).getD (a - 0x400000) 0
  else if a = 0x400102 then (if outside then 0 else 0x40)
  else if a = 0x400103 then (if outside then 0x40 else 0)
  else if a = 0x40000000 then 65
  else 0

def sampleArgvEnv (outside : Bool) : Env Unit := { sampleEnv with byte := sampleArgvByte outside }

def sampleSpawnArgs : SpawnArgs := ⟨0x400000, 0, 0x400100, 1⟩

theorem sysSpawnArgv_secure_sample : ∃ m : Machine Unit, Run (machineStep sampleEnv AnyEvent) sampleMachine m ∧
    0 ≤ (sampleSpawnArgs.call (sampleArgvEnv false) m.kernel).1 ∧
    SpawnArgvSecure (sampleArgvEnv false) m.kernel 0 sampleSpawnArgs := by
  obtain ⟨m, hm, hf⟩ := exists_sampleRun [sampleBoot, .launch sampleRegs]
    (fun m => (m.kernel.current, decide (0 ≤ (sampleSpawnArgs.call (sampleArgvEnv false) m.kernel).1),
      (List.range 12).all fun n => inRegions (m.kernel.processes 0) (0x400000 + n)))
    (some 0, true, true) (by decide +kernel)
  simp only [Prod.mk.injEq] at hf
  obtain ⟨hcur, hpid, hin⟩ := hf
  refine ⟨m, Machine.run_steps (fun _ _ _ => trivial) hm, by simpa using hpid,
    (sysSpawnArgv_secure sampleSpawnArgs hcur).mpr fun _ _ t ht n _ hpre => ?_⟩
  have ht : t = 0 := Nat.lt_one_iff.mp ht
  subst ht
  have hword : loadWord (sampleArgvEnv false).byte (sampleSpawnArgs.argvPtr.toNat + 8 * 0) = 0x400000 := by
    decide +kernel
  rw [hword] at hpre ⊢
  -- the NUL of the string is its twelfth byte
  have hn : n < 12 := by
    by_contra hge
    exact hpre 11 (by omega) (by decide +kernel)
  exact List.all_eq_true.mp hin n (List.mem_range.mpr hn)

/-- The argument of the new program is a byte of the kernel. -/
theorem spawnArgv_copies_kernel_byte : ∃ m : Machine Unit, Run (machineStep sampleEnv AnyEvent) sampleMachine m ∧
    m.kernel.current = some 0 ∧ 0 ≤ (sampleSpawnArgs.call (sampleArgvEnv true) m.kernel).1 ∧
    ¬SpawnArgvSecure (sampleArgvEnv true) m.kernel 0 sampleSpawnArgs := by
  obtain ⟨m, hm, hf⟩ := exists_sampleRun [sampleBoot, .launch sampleRegs]
    (fun m => (m.kernel.current, decide (0 ≤ (sampleSpawnArgs.call (sampleArgvEnv true) m.kernel).1),
      inRegions (m.kernel.processes 0) 0x40000000,
      (argvStrings (onlyInside (m.kernel.processes 0) (sampleArgvByte true)) 0x400100 1).isSome))
    (some 0, true, false, true) (by decide +kernel)
  simp only [Prod.mk.injEq] at hf
  obtain ⟨hcur, hpid, hout, hfits⟩ := hf
  have hpid : 0 ≤ (sampleSpawnArgs.call (sampleArgvEnv true) m.kernel).1 := by simpa using hpid
  refine ⟨m, Machine.run_steps (fun _ _ _ => trivial) hm, hcur, hpid, fun h => ?_⟩
  have hword : loadWord (sampleArgvByte true) 0x400100 = 0x40000000 := by decide +kernel
  have hin := h.inside hcur (comesToStrings_of_started hpid) (Option.isSome_iff_ne_none.mp hfits) 0 (by decide) 0
    (by decide) fun i hi => by omega
  have haddr : loadWord (sampleArgvEnv true).byte (sampleSpawnArgs.argvPtr.toNat + 8 * 0) + 0 = 0x40000000 := hword
  rw [haddr, hout] at hin
  cases hin

end Armonios
