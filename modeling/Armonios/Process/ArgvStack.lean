import Armonios.Process.Argv

/-!
# The stack image of the arguments

`panel_boot_place_argv_on_stack` puts the pointers of `argv` and behind them the strings at the end of a new stack. Here
it runs on the memory of the kernel, where the stack is at `stack` and the process will see it at `stackBase`.

* `placeStrings_spec`: the loop over the strings;
* `placeArgv_image`: when the function succeeds, and what is on the stack then.
-/

namespace Armonios

abbrev ByteMem := Nat → UInt8

abbrev MemIo := EStateM Err ByteMem

def storeByte (addr : Nat) (value : UInt8) : MemIo Unit := modify fun mem => Function.update mem addr value

def storeBytes (dst : Nat) : List UInt8 → MemIo Unit
  | [] => pure ()
  | value :: values => do
    storeByte dst value
    storeBytes (dst + 1) values

/-- The bytes of a 64-bit word. -/
def u64Bytes (value : Nat) : List UInt8 := (List.range 8).map fun i => UInt8.ofNat (value / 2 ^ (8 * i))

def storeU64 (dst value : Nat) : MemIo Unit := storeBytes dst (u64Bytes value)

/-- The copy of one string: the bytes copied. -/
def copyString : (fuel src dst : Nat) → MemIo Nat
  | 0, _, _ => throw .hang
  | fuel + 1, src, dst => do
    let c := (← get) src
    storeByte dst c
    if c = 0 then return 1
    let len ← copyString fuel (src + 1) (dst + 1)
    return len + 1

/-- The loop over the strings from `i` on. -/
def placeStrings (stack stackBase argvPtr argvVaddr : Nat) : (left i cursor : Nat) → MemIo Unit
  | 0, _, _ => pure ()
  | left + 1, i, cursor => do
    let src := loadWord (← get) (argvPtr + 8 * i)
    let len ← copyString (2 ^ 64) src (stack + (cursor - stackBase))
    storeU64 (stack + (argvVaddr - stackBase) + i * 8) cursor
    placeStrings stack stackBase argvPtr argvVaddr left (i + 1) (cursor + len)

/-- `panel_boot_place_argv_on_stack` once the strings are measured. -/
def placeMeasured (stack stackBase stackSize argvPtr argc stringBytes : Nat) : MemIo Nat := do
  let total := (stringBytes + (argc + 1) * 8 + 15) / 16 * 16
  let stackTop := (stackBase + stackSize) % 2 ^ 64
  if stackSize < total ∨ stackTop < stackBase then throw .fail
  let argvVaddr := stackTop - total
  placeStrings stack stackBase argvPtr argvVaddr argc 0 (argvVaddr + (argc + 1) * 8)
  storeU64 (stack + (argvVaddr - stackBase) + argc * 8) 0
  return argvVaddr

/-- `panel_boot_place_argv_on_stack` with a pointer for its result. -/
def placeArgv (stack stackBase stackSize argvPtr argc : Nat) : MemIo Nat := do
  if stack = 0 ∨ stackSize = 0 then throw .fail
  if argc = 0 then return 0
  if argvPtr = 0 ∨ panelBootArgvMaxStrings < argc then throw .fail
  match argvStrings (← get) argvPtr argc with
  | none => throw .fail
  | some left => placeMeasured stack stackBase stackSize argvPtr argc (panelBootArgvMaxBytes - left)

variable {mem mem' : ByteMem} {str : List UInt8} {strs : List (List UInt8)} {a addr src dst value : Nat}

/-! ## Memory -/

/-- Outside of a range the memories are the same. -/
def SameOutside (mem mem' : ByteMem) (start stop : Nat) : Prop := ∀ a, a < start ∨ stop ≤ a → mem' a = mem a

theorem storeBytes_spec (bytes : List UInt8) : Wp (storeBytes dst bytes) mem
    (fun _ mem' => (∀ i (hi : i < bytes.length), mem' (dst + i) = bytes[i]) ∧
      SameOutside mem mem' dst (dst + bytes.length))
    fun _ _ => False := by
  induction bytes generalizing dst mem with
  | nil => exact ⟨fun i hi => absurd hi (Nat.not_lt_zero i), fun _ _ => rfl⟩
  | cons value values ih =>
    refine wp_bind.mpr (wp_modify.mpr (Wp.mono ih (fun _ mem' h => ?_) fun _ _ h => h))
    obtain ⟨hin, hout⟩ := h
    refine ⟨fun i hi => ?_, fun a ha => ?_⟩
    · cases i with
      | zero =>
        rw [Nat.add_zero, hout dst (.inl (Nat.lt_succ_self dst)), Function.update_self]
        rfl
      | succ i =>
        have := hin i (Nat.lt_of_succ_lt_succ hi)
        rwa [Nat.add_assoc, Nat.add_comm 1] at this
    · rw [List.length_cons] at ha
      rw [hout a (by omega), Function.update_of_ne (by omega)]

theorem leNat_u64Bytes (h : value < 2 ^ 64) : leNat (u64Bytes value) 0 8 = value := by
  simp [leNat, u64Bytes, List.range_succ]
  omega

/-- A word is read back. -/
theorem storeU64_spec (h : value < 2 ^ 64) : Wp (storeU64 dst value) mem
    (fun _ mem' => loadWord mem' dst = value ∧ SameOutside mem mem' dst (dst + 8)) fun _ _ => False := by
  refine Wp.mono (storeBytes_spec (u64Bytes value)) (fun _ mem' hmem => ⟨?_, hmem.2⟩) fun _ _ h => h
  have hbytes : ((List.range 8).map fun i => mem' (dst + i)) = u64Bytes value := by
    refine List.ext_getElem (by simp [u64Bytes]) fun i hi hi' => ?_
    rw [List.getElem_map, List.getElem_range]
    exact hmem.1 i hi'
  rw [loadWord, hbytes, leNat_u64Bytes h]

/-! ## Strings -/

/-- A string with its NUL in the memory. -/
structure CString (mem : ByteMem) (addr : Nat) (str : List UInt8) : Prop where
  bytes : ∀ i (hi : i < str.length), mem (addr + i) = str[i]
  nul : mem (addr + str.length) = 0
  plain : (0 : UInt8) ∉ str

theorem CString.congr (h : CString mem addr str) (hsame : ∀ i ≤ str.length, mem' (addr + i) = mem (addr + i)) :
    CString mem' addr str :=
  ⟨fun i hi => (hsame i (Nat.le_of_lt hi)).trans (h.bytes i hi), (hsame _ (Nat.le_refl _)).trans h.nul, h.plain⟩

theorem cstring_nil : CString mem addr [] ↔ mem addr = 0 :=
  ⟨fun h => h.nul, fun h => ⟨nofun, h, List.not_mem_nil⟩⟩

theorem cstring_cons {c : UInt8} : CString mem addr (c :: str) ↔ mem addr = c ∧ c ≠ 0 ∧ CString mem (addr + 1) str := by
  have hshift (i : Nat) : addr + (i + 1) = addr + 1 + i := by omega
  constructor
  · intro h
    obtain ⟨hc, hplain⟩ := not_or.mp fun hmem => h.plain (List.mem_cons.mpr hmem)
    refine ⟨h.bytes 0 (Nat.succ_pos _), fun h0 => hc h0.symm, fun i hi => ?_, ?_, hplain⟩
    · rw [← hshift]
      exact h.bytes (i + 1) (Nat.succ_lt_succ hi)
    · rw [← hshift]
      exact h.nul
  · rintro ⟨hc, h0, h⟩
    refine ⟨fun i hi => ?_, ?_, ?_⟩
    · cases i with
      | zero => exact hc
      | succ i =>
        rw [hshift]
        exact h.bytes i (Nat.lt_of_succ_lt_succ hi)
    · rw [List.length_cons, hshift]
      exact h.nul
    · rw [List.mem_cons, not_or]
      exact ⟨fun h0' => h0 h0'.symm, h.plain⟩

/-- The walk that measures a string. -/
theorem argvString_cstring {left : Nat} (h : CString mem addr str) :
    argvString mem left addr = if str.length + 1 ≤ left then some (left - (str.length + 1)) else none := by
  induction str generalizing addr left with
  | nil =>
    cases left with
    | zero => rfl
    | succ left =>
      rw [argvString, if_pos (cstring_nil.mp h)]
      rfl
  | cons c str ih =>
    obtain ⟨hc, h0, h⟩ := cstring_cons.mp h
    cases left with
    | zero => rfl
    | succ left =>
      rw [argvString, if_neg (by rw [hc]; exact h0), ih h, List.length_cons]
      simp only [Nat.add_le_add_iff_right, Nat.add_sub_add_right]

theorem argvCopy_cstring {left : Nat} (h : CString mem addr str) (hleft : str.length < left) :
    argvCopy mem left addr = str := by
  induction str generalizing addr left with
  | nil =>
    cases left with
    | zero => rfl
    | succ left => rw [argvCopy, if_pos (cstring_nil.mp h)]
  | cons c str ih =>
    obtain ⟨hc, h0, h⟩ := cstring_cons.mp h
    cases left with
    | zero => exact absurd hleft (Nat.not_lt_zero _)
    | succ left => rw [argvCopy, if_neg (by rw [hc]; exact h0), ih h (Nat.lt_of_succ_lt_succ hleft), hc]

/-- The copy of a string that lies outside of its place. -/
theorem copyString_spec {fuel : Nat} (h : CString mem src str) (hfuel : str.length < fuel)
    (hout : ∀ i ≤ str.length, src + i < dst ∨ dst + str.length < src + i) :
    Wp (copyString fuel src dst) mem (fun len mem' => len = str.length + 1 ∧ CString mem' dst str ∧
      SameOutside mem mem' dst (dst + (str.length + 1))) fun _ _ => False := by
  induction str generalizing src dst fuel mem with
  | nil =>
    obtain ⟨fuel, rfl⟩ : ∃ n, fuel = n + 1 := ⟨fuel - 1, by omega⟩
    have hnul := cstring_nil.mp h
    unfold copyString
    refine wp_bind.mpr (wp_get.mpr (wp_bind.mpr (wp_modify.mpr ?_)))
    rw [hnul, if_pos rfl]
    refine ⟨rfl, cstring_nil.mpr (Function.update_self _ _ _), fun a ha => Function.update_of_ne ?_ _ _⟩
    rw [List.length_nil] at ha
    omega
  | cons c str ih =>
    obtain ⟨fuel, rfl⟩ : ∃ n, fuel = n + 1 := ⟨fuel - 1, by omega⟩
    obtain ⟨hc, h0, hrest⟩ := cstring_cons.mp h
    rw [List.length_cons] at hfuel hout
    unfold copyString
    refine wp_bind.mpr (wp_get.mpr (wp_bind.mpr (wp_modify.mpr ?_)))
    rw [hc, if_neg h0]
    have hrest' : CString (Function.update mem dst c) (src + 1) str := by
      refine hrest.congr fun i hi => Function.update_of_ne ?_ _ _
      have := hout (i + 1) (by omega)
      omega
    refine wp_bind.mpr (Wp.mono (ih hrest' (by omega) fun i hi => ?_) (fun len mem' hcopy => ?_) fun _ _ h => h)
    · have := hout (i + 1) (by omega)
      omega
    obtain ⟨rfl, hcopy, hsame⟩ := hcopy
    refine ⟨rfl, cstring_cons.mpr ⟨?_, h0, hcopy⟩, fun a ha => ?_⟩
    · rw [hsame dst (.inl (Nat.lt_succ_self dst)), Function.update_self]
    · rw [List.length_cons] at ha
      rw [hsame a (by omega), Function.update_of_ne (by omega)]

/-! ## The layout -/

/-- The bytes of the strings with their NULs. -/
def packedSize (strs : List (List UInt8)) : Nat := (strs.map fun str => str.length + 1).sum

/-- The address of a string in the process. -/
def cursorAt (argvVaddr : Nat) (strs : List (List UInt8)) (i : Nat) : Nat :=
  argvVaddr + (strs.length + 1) * 8 + packedSize (strs.take i)

/-- The address in the kernel of an address on the stack of the process. -/
def stackAddr (stack stackBase vaddr : Nat) : Nat := stack + (vaddr - stackBase)

theorem packedSize_take {i : Nat} (hi : i < strs.length) :
    packedSize (strs.take (i + 1)) = packedSize (strs.take i) + (strs[i].length + 1) := by
  unfold packedSize
  rw [List.take_succ_eq_append_getElem hi, List.map_append, List.sum_append]
  simp

theorem packedSize_take_le (n : Nat) : packedSize (strs.take n) ≤ packedSize strs := by
  have hsplit : packedSize strs = packedSize (strs.take n) + packedSize (strs.drop n) := by
    unfold packedSize
    rw [← List.sum_append, ← List.map_append, List.take_append_drop]
  omega

theorem cursorAt_succ (argvVaddr : Nat) {i : Nat} (hi : i < strs.length) :
    cursorAt argvVaddr strs (i + 1) = cursorAt argvVaddr strs i + (strs[i].length + 1) := by
  unfold cursorAt
  rw [packedSize_take hi]
  omega

theorem cursorAt_le {argvVaddr i j : Nat} (hij : i ≤ j) (hj : j ≤ strs.length) :
    cursorAt argvVaddr strs i ≤ cursorAt argvVaddr strs j := by
  induction hij with
  | refl => exact Nat.le_refl _
  | step _ ih =>
    have := ih (Nat.le_of_succ_le hj)
    rw [cursorAt_succ argvVaddr hj]
    omega

/-- A string and the next one. -/
theorem cursorAt_lt {argvVaddr i j : Nat} (hi : i < strs.length) (hij : i < j) (hj : j ≤ strs.length) :
    cursorAt argvVaddr strs i + (strs[i].length + 1) ≤ cursorAt argvVaddr strs j := by
  rw [← cursorAt_succ argvVaddr hi]
  exact cursorAt_le hij hj

/-- What the image of the arguments needs of its stack. -/
structure ArgvLayout (stackBase stackSize argvVaddr : Nat) (strs : List (List UInt8)) : Prop where
  base : stackBase ≤ argvVaddr
  top : cursorAt argvVaddr strs strs.length ≤ stackBase + stackSize
  lt : stackBase + stackSize < 2 ^ 64

/-- The address is not on the stack. -/
def OffStack (stack stackSize a : Nat) : Prop := a < stack ∨ stack + stackSize ≤ a

/-- The strings that the pointers lead to. They and the pointers are not on the stack. -/
structure ArgvStrings (mem : ByteMem) (stack stackSize argvPtr : Nat) (strs : List (List UInt8)) : Prop where
  pointer : ∀ i < strs.length, loadWord mem (argvPtr + 8 * i) ≠ 0
  string : ∀ i (hi : i < strs.length), CString mem (loadWord mem (argvPtr + 8 * i)) strs[i]
  words : ∀ i < strs.length, ∀ j < 8, OffStack stack stackSize (argvPtr + 8 * i + j)
  outside : ∀ i (hi : i < strs.length), ∀ j ≤ strs[i].length,
    OffStack stack stackSize (loadWord mem (argvPtr + 8 * i) + j)

/-- The first `n` strings and their pointers are on the stack. -/
def StringsPlaced (mem : ByteMem) (stack stackBase argvVaddr : Nat) (strs : List (List UInt8)) (n : Nat) : Prop :=
  ∀ i (hi : i < strs.length), i < n →
    loadWord mem (stackAddr stack stackBase argvVaddr + 8 * i) = cursorAt argvVaddr strs i ∧
      CString mem (stackAddr stack stackBase (cursorAt argvVaddr strs i)) strs[i]

section Loop

variable {stack stackBase stackSize argvPtr argvVaddr : Nat}

/-- The pointers and the strings are still the same. -/
theorem ArgvStrings.keep (h : ArgvStrings mem stack stackSize argvPtr strs)
    (hsame : SameOutside mem mem' stack (stack + stackSize)) : ArgvStrings mem' stack stackSize argvPtr strs := by
  have hword (i : Nat) (hi : i < strs.length) :
      loadWord mem' (argvPtr + 8 * i) = loadWord mem (argvPtr + 8 * i) := by
    refine loadWord_congr fun a ha ha' => hsame a ?_
    obtain ⟨j, rfl⟩ := Nat.exists_eq_add_of_le ha
    exact h.words i hi j (by omega)
  refine ⟨fun i hi => ?_, fun i hi => ?_, h.words, fun i hi j hj => ?_⟩
  · rw [hword i hi]
    exact h.pointer i hi
  · rw [hword i hi]
    exact (h.string i hi).congr fun j hj => hsame _ (h.outside i hi j hj)
  · rw [hword i hi]
    exact h.outside i hi j hj

theorem SameOutside.trans {mem'' : ByteMem} {start stop : Nat} (h : SameOutside mem mem' start stop)
    (h' : SameOutside mem' mem'' start stop) : SameOutside mem mem'' start stop :=
  fun a ha => (h' a ha).trans (h a ha)

theorem SameOutside.mono {start stop start' stop' : Nat} (h : SameOutside mem mem' start stop) (hstart : start' ≤ start)
    (hstop : stop ≤ stop') : SameOutside mem mem' start' stop' := fun a ha => h a (by omega)

/-- One more string with its pointer. -/
theorem StringsPlaced.step {mem₁ mem₂ : ByteMem} {i : Nat} (hlayout : ArgvLayout stackBase stackSize argvVaddr strs)
    (hi : i < strs.length) (h : StringsPlaced mem stack stackBase argvVaddr strs i)
    (hcopy : CString mem₁ (stackAddr stack stackBase (cursorAt argvVaddr strs i)) strs[i])
    (hsame₁ : SameOutside mem mem₁ (stackAddr stack stackBase (cursorAt argvVaddr strs i))
      (stackAddr stack stackBase (cursorAt argvVaddr strs i) + (strs[i].length + 1)))
    (hword : loadWord mem₂ (stackAddr stack stackBase argvVaddr + 8 * i) = cursorAt argvVaddr strs i)
    (hsame₂ : SameOutside mem₁ mem₂ (stackAddr stack stackBase argvVaddr + 8 * i)
      (stackAddr stack stackBase argvVaddr + 8 * i + 8)) :
    StringsPlaced mem₂ stack stackBase argvVaddr strs (i + 1) := by
  have hbase := hlayout.base
  have hstart (j : Nat) : argvVaddr + (strs.length + 1) * 8 ≤ cursorAt argvVaddr strs j := Nat.le_add_right _ _
  intro j hj hjn
  have hj8 := hstart j
  have hi8 := hstart i
  rcases Nat.lt_succ_iff_lt_or_eq.mp hjn with hlt | rfl
  · have hnext : cursorAt argvVaddr strs j + (strs[j].length + 1) ≤ cursorAt argvVaddr strs i :=
      cursorAt_lt hj hlt hi.le
    obtain ⟨hw, hs⟩ := h j hj hlt
    refine ⟨Eq.trans (loadWord_congr fun a ha ha' => ?_) hw, hs.congr fun k hk => ?_⟩
    · rw [hsame₂ a (by omega), hsame₁ a (by unfold stackAddr at ha' ⊢; omega)]
    · unfold stackAddr at hsame₁ hsame₂ ⊢
      rw [hsame₂ _ (by omega), hsame₁ _ (by omega)]
  · refine ⟨hword, hcopy.congr fun k hk => hsame₂ _ (.inr ?_)⟩
    unfold stackAddr
    omega

theorem placeStrings_spec {mem₀ : ByteMem} (hlayout : ArgvLayout stackBase stackSize argvVaddr strs)
    (h : ArgvStrings mem₀ stack stackSize argvPtr strs) {left i : Nat} (hleft : i + left = strs.length)
    (hplaced : StringsPlaced mem stack stackBase argvVaddr strs i)
    (hsame : SameOutside mem₀ mem (stackAddr stack stackBase argvVaddr) (stack + stackSize)) :
    Wp (placeStrings stack stackBase argvPtr argvVaddr left i (cursorAt argvVaddr strs i)) mem
      (fun _ mem' => StringsPlaced mem' stack stackBase argvVaddr strs strs.length ∧
        SameOutside mem₀ mem' (stackAddr stack stackBase argvVaddr) (stack + stackSize))
      fun _ _ => False := by
  induction left generalizing i mem with
  | zero =>
    obtain rfl : i = strs.length := hleft
    exact ⟨hplaced, hsame⟩
  | succ left ih =>
    have hi : i < strs.length := by omega
    have hbase := hlayout.base
    have htop := hlayout.top
    have hlt := hlayout.lt
    have hstart : argvVaddr + (strs.length + 1) * 8 ≤ cursorAt argvVaddr strs i := Nat.le_add_right _ _
    have hnext : cursorAt argvVaddr strs i + (strs[i].length + 1) ≤ cursorAt argvVaddr strs strs.length :=
      cursorAt_lt hi hi (Nat.le_refl _)
    have hnow := h.keep (hsame.mono (by unfold stackAddr; omega) (Nat.le_refl _))
    unfold placeStrings
    refine wp_bind.mpr (wp_get.mpr (wp_bind.mpr ?_))
    refine Wp.mono (copyString_spec (hnow.string i hi) (by omega) fun j hj => ?_)
      (fun len mem₁ hcopy => ?_) fun _ _ h => h
    · have hoff := hnow.outside i hi j hj
      unfold OffStack at hoff
      omega
    obtain ⟨rfl, hcopy, hsame₁⟩ := hcopy
    refine wp_bind.mpr (Wp.mono (storeU64_spec (by omega)) (fun _ mem₂ hstore => ?_) fun _ _ h => h)
    obtain ⟨hword, hsame₂⟩ := hstore
    have hcomm : stack + (argvVaddr - stackBase) + i * 8 = stackAddr stack stackBase argvVaddr + 8 * i := by
      unfold stackAddr
      omega
    rw [hcomm] at hword hsame₂
    rw [← cursorAt_succ argvVaddr hi]
    refine ih (by omega) (hplaced.step hlayout hi hcopy hsame₁ hword hsame₂) ?_
    unfold stackAddr at hsame hsame₂ ⊢
    exact hsame.trans ((hsame₁.mono (by omega) (by omega)).trans (hsame₂.mono (by omega) (by omega)))

end Loop

/-! ## The function -/

/-- The bytes that the image takes, aligned. -/
def imageSize (strs : List (List UInt8)) : Nat := (packedSize strs + (strs.length + 1) * 8 + 15) / 16 * 16

/-- The image is small enough for the budget and for the stack, and the stack does not wrap. -/
structure ArgvFits (stackBase stackSize : Nat) (strs : List (List UInt8)) : Prop where
  budget : packedSize strs ≤ panelBootArgvMaxBytes
  room : imageSize strs ≤ stackSize
  lt : stackBase + stackSize < 2 ^ 64

instance (stackBase stackSize : Nat) (strs : List (List UInt8)) : Decidable (ArgvFits stackBase stackSize strs) :=
  decidable_of_iff
    (packedSize strs ≤ panelBootArgvMaxBytes ∧ imageSize strs ≤ stackSize ∧ stackBase + stackSize < 2 ^ 64)
    ⟨fun h => ⟨h.1, h.2.1, h.2.2⟩, fun h => ⟨h.budget, h.room, h.lt⟩⟩

/-- The arguments of a call: one to eight strings and an aligned stack. -/
structure ArgvCall (mem : ByteMem) (stack stackBase stackSize argvPtr : Nat) (strs : List (List UInt8)) : Prop where
  pos : 0 < strs.length
  le : strs.length ≤ panelBootArgvMaxStrings
  stack_ne : stack ≠ 0
  argv_ne : argvPtr ≠ 0
  base_lt : stackBase < 2 ^ 64
  size_lt : stackSize < 2 ^ 64
  aligned : (stackBase + stackSize) % 16 = 0
  strings : ArgvStrings mem stack stackSize argvPtr strs

/-- What is at the end of the stack. -/
structure ArgvImage (mem mem' : ByteMem) (stack stackBase stackSize argvVaddr : Nat) (strs : List (List UInt8)) :
    Prop where
  aligned : argvVaddr % 16 = 0
  inside : stackBase ≤ argvVaddr ∧ argvVaddr + (strs.length + 1) * 8 ≤ stackBase + stackSize
  placed : ∀ i (hi : i < strs.length), ∃ p, loadWord mem' (stackAddr stack stackBase argvVaddr + 8 * i) = p ∧
    stackBase ≤ p ∧ p + (strs[i].length + 1) ≤ stackBase + stackSize ∧
      CString mem' (stackAddr stack stackBase p) strs[i]
  sentinel : loadWord mem' (stackAddr stack stackBase argvVaddr + 8 * strs.length) = 0
  apart : ∀ i < strs.length, argvVaddr + (strs.length + 1) * 8 ≤
    loadWord mem' (stackAddr stack stackBase argvVaddr + 8 * i)
  copies : ∀ i (hi : i < strs.length), ∀ j < strs.length, i < j →
    loadWord mem' (stackAddr stack stackBase argvVaddr + 8 * i) + (strs[i].length + 1) ≤
      loadWord mem' (stackAddr stack stackBase argvVaddr + 8 * j)
  untouched : SameOutside mem mem' (stackAddr stack stackBase argvVaddr) (stack + stackSize)

section Call

variable {stack stackBase stackSize argvPtr argvVaddr : Nat}

/-- The walk that measures the strings. -/
theorem ArgvStrings.measure (h : ArgvStrings mem stack stackSize argvPtr strs) {n : Nat} (hn : n ≤ strs.length) :
    argvStrings mem argvPtr n = if packedSize (strs.take n) ≤ panelBootArgvMaxBytes
      then some (panelBootArgvMaxBytes - packedSize (strs.take n)) else none := by
  induction n with
  | zero => rfl
  | succ n ih =>
    rw [argvStrings, ih (Nat.le_of_succ_le hn), packedSize_take hn]
    by_cases hfits : packedSize (strs.take n) ≤ panelBootArgvMaxBytes
    · rw [if_pos hfits, Option.bind_eq_bind, Option.bind_some]
      dsimp only
      rw [if_neg (h.pointer n hn), argvString_cstring (h.string n hn)]
      by_cases hmore : strs[n].length + 1 ≤ panelBootArgvMaxBytes - packedSize (strs.take n)
      · rw [if_pos hmore, if_pos (by omega), Nat.sub_sub]
      · rw [if_neg hmore, if_neg (by omega)]
    · rw [if_neg hfits, if_neg (by omega), Option.bind_eq_bind, Option.bind_none]

/-- The image that the loop and the last store leave. -/
theorem argvImage_of_placed {mem₀ : ByteMem} (hlayout : ArgvLayout stackBase stackSize argvVaddr strs)
    (haligned : argvVaddr % 16 = 0) (hplaced : StringsPlaced mem stack stackBase argvVaddr strs strs.length)
    (hsame : SameOutside mem₀ mem (stackAddr stack stackBase argvVaddr) (stack + stackSize))
    (hword : loadWord mem' (stackAddr stack stackBase argvVaddr + 8 * strs.length) = 0)
    (hsame' : SameOutside mem mem' (stackAddr stack stackBase argvVaddr + 8 * strs.length)
      (stackAddr stack stackBase argvVaddr + 8 * strs.length + 8)) :
    ArgvImage mem₀ mem' stack stackBase stackSize argvVaddr strs := by
  have hbase := hlayout.base
  have htop := hlayout.top
  have hstart (i : Nat) : argvVaddr + (strs.length + 1) * 8 ≤ cursorAt argvVaddr strs i := Nat.le_add_right _ _
  have hend := hstart strs.length
  have hkept : ∀ i (hi : i < strs.length),
      loadWord mem' (stackAddr stack stackBase argvVaddr + 8 * i) = cursorAt argvVaddr strs i ∧
        CString mem' (stackAddr stack stackBase (cursorAt argvVaddr strs i)) strs[i] := by
    intro i hi
    obtain ⟨hw, hs⟩ := hplaced i hi hi
    refine ⟨Eq.trans (loadWord_congr fun a ha ha' => hsame' a (by omega)) hw, hs.congr fun k hk => hsame' _ (.inr ?_)⟩
    have := hstart i
    unfold stackAddr
    omega
  refine ⟨haligned, ⟨hbase, by omega⟩, fun i hi => ⟨_, (hkept i hi).1, ?_, ?_, (hkept i hi).2⟩, hword, fun i hi => ?_,
    fun i hi j hj hij => ?_, hsame.trans (hsame'.mono (by omega) ?_)⟩
  · have := hstart i
    omega
  · exact (cursorAt_lt hi hi (Nat.le_refl _)).trans htop
  · rw [(hkept i hi).1]
    exact hstart i
  · rw [(hkept i hi).1, (hkept j hj).1]
    exact cursorAt_lt hi hij hj.le
  · unfold stackAddr
    omega

theorem imageSize_pos (strs : List (List UInt8)) : 0 < imageSize strs := by
  unfold imageSize
  omega

/-- The layout at the end of a stack that the image fits. -/
theorem ArgvFits.layout (h : ArgvFits stackBase stackSize strs) :
    ArgvLayout stackBase stackSize (stackBase + stackSize - imageSize strs) strs := by
  have hroom := h.room
  refine ⟨by omega, ?_, h.lt⟩
  unfold cursorAt
  rw [List.take_length]
  have hsize : packedSize strs + (strs.length + 1) * 8 ≤ imageSize strs := by
    unfold imageSize
    omega
  omega

theorem placeMeasured_spec (h : ArgvCall mem stack stackBase stackSize argvPtr strs)
    (hbudget : packedSize strs ≤ panelBootArgvMaxBytes) :
    Wp (placeMeasured stack stackBase stackSize argvPtr strs.length (packedSize strs)) mem
      (fun argvVaddr mem' => ArgvFits stackBase stackSize strs ∧ argvVaddr = stackBase + stackSize - imageSize strs ∧
        ArgvImage mem mem' stack stackBase stackSize argvVaddr strs)
      (fun e mem' => e = .fail ∧ mem' = mem ∧ ¬ ArgvFits stackBase stackSize strs) := by
  have hbase := h.base_lt
  have hsize := h.size_lt
  unfold placeMeasured
  dsimp only
  rw [show (packedSize strs + (strs.length + 1) * 8 + 15) / 16 * 16 = imageSize strs from rfl]
  refine wp_guard (fun hbad => ⟨rfl, rfl, fun hfits => ?_⟩) fun hroom => ?_
  · have hroom := hfits.room
    have hlt := hfits.lt
    rw [Nat.mod_eq_of_lt hlt] at hbad
    omega
  have hfits : ArgvFits stackBase stackSize strs := ⟨hbudget, by omega, by omega⟩
  have hlayout := hfits.layout
  rw [Nat.mod_eq_of_lt hfits.lt]
  have hstart : SameOutside mem mem (stackAddr stack stackBase (stackBase + stackSize - imageSize strs))
      (stack + stackSize) := fun _ _ => rfl
  have hnone : StringsPlaced mem stack stackBase (stackBase + stackSize - imageSize strs) strs 0 :=
    fun _ _ hno => absurd hno (Nat.not_lt_zero _)
  have hloop := placeStrings_spec hlayout h.strings (Nat.zero_add _) hnone hstart
  refine wp_bind.mpr (Wp.mono hloop (fun _ mem₁ hplaced => ?_) fun _ _ hno => hno.elim)
  obtain ⟨hplaced, hsame⟩ := hplaced
  refine wp_bind.mpr (Wp.mono (storeU64_spec (by decide)) (fun _ mem₂ hstore => ?_) fun _ _ hno => hno.elim)
  obtain ⟨hword, hsame'⟩ := hstore
  rw [Nat.mul_comm] at hword hsame'
  refine ⟨hfits, rfl, argvImage_of_placed hlayout ?_ hplaced hsame hword hsame'⟩
  have haligned := h.aligned
  unfold imageSize
  omega

theorem placeArgv_spec (h : ArgvCall mem stack stackBase stackSize argvPtr strs) :
    Wp (placeArgv stack stackBase stackSize argvPtr strs.length) mem
      (fun argvVaddr mem' => ArgvFits stackBase stackSize strs ∧ argvVaddr = stackBase + stackSize - imageSize strs ∧
        ArgvImage mem mem' stack stackBase stackSize argvVaddr strs)
      (fun e mem' => e = .fail ∧ mem' = mem ∧ ¬ ArgvFits stackBase stackSize strs) := by
  have hpos := h.pos
  have hle := h.le
  have himage := imageSize_pos strs
  have hmeasure := h.strings.measure (Nat.le_refl strs.length)
  rw [List.take_length] at hmeasure
  unfold placeArgv
  refine wp_guard (fun hbad => ⟨rfl, rfl, fun hfits => ?_⟩) fun _ => ?_
  · have hroom := hfits.room
    rcases hbad with hbad | hbad
    · exact h.stack_ne hbad
    · omega
  refine wp_ite (fun hzero => absurd hzero (by omega)) fun _ => ?_
  refine wp_guard (fun hbad => ?_) fun _ => ?_
  · rcases hbad with hbad | hbad
    · exact absurd hbad h.argv_ne
    · omega
  refine wp_bind.mpr (wp_get.mpr ?_)
  rw [hmeasure]
  by_cases hbudget : packedSize strs ≤ panelBootArgvMaxBytes
  · rw [if_pos hbudget]
    dsimp only
    rw [Nat.sub_sub_self hbudget]
    exact placeMeasured_spec h hbudget
  · rw [if_neg hbudget]
    exact ⟨rfl, rfl, fun hfits => hbudget hfits.budget⟩

/-- The address and the strings are those that a spawn gives to its process. -/
theorem placeArgv_spawn (h : ArgvCall mem stack stackBase stackSize argvPtr strs) :
    valueOf (placeArgv stack stackBase stackSize argvPtr strs.length) mem =
        panelBootPlaceArgvOnStack mem stackBase stackSize argvPtr strs.length ∧
      (packedSize strs ≤ panelBootArgvMaxBytes → argvCopies mem argvPtr strs.length = strs) := by
  have hpos := h.pos
  have hle := h.le
  have hsize := h.size_lt
  have himage := imageSize_pos strs
  have hmeasure := h.strings.measure (Nat.le_refl strs.length)
  rw [List.take_length] at hmeasure
  have hspawn : panelBootPlaceArgvOnStack mem stackBase stackSize argvPtr strs.length =
      if ArgvFits stackBase stackSize strs then some (stackBase + stackSize - imageSize strs) else none := by
    unfold panelBootPlaceArgvOnStack
    by_cases hzero : stackSize = 0
    · have hno : ¬ ArgvFits stackBase stackSize strs := by
        intro hfits
        have hroom := hfits.room
        omega
      rw [if_pos hzero, if_neg hno]
    have hargs : ¬ (argvPtr = 0 ∨ panelBootArgvMaxStrings < strs.length) := not_or.mpr ⟨h.argv_ne, Nat.not_lt.mpr hle⟩
    rw [if_neg hzero, if_neg (by omega), if_neg hargs, hmeasure]
    by_cases hbudget : packedSize strs ≤ panelBootArgvMaxBytes
    · rw [if_pos hbudget, Option.bind_eq_bind, Option.bind_some]
      dsimp only
      rw [Nat.sub_sub_self hbudget, show (packedSize strs + (strs.length + 1) * 8 + 15) / 16 * 16 =
        imageSize strs from rfl]
      unfold uint64Max
      by_cases hfits : ArgvFits stackBase stackSize strs
      · have hroom := hfits.room
        have hlt := hfits.lt
        rw [if_pos hfits, if_neg (by omega)]
      · rw [if_neg hfits, if_pos]
        by_contra hno
        exact hfits ⟨hbudget, by omega, by omega⟩
    · rw [if_neg hbudget, if_neg fun hfits => hbudget hfits.budget, Option.bind_eq_bind, Option.bind_none]
  constructor
  · have hspec := placeArgv_spec h
    rw [hspawn]
    unfold valueOf
    cases hrun : placeArgv stack stackBase stackSize argvPtr strs.length mem with
    | ok argvVaddr mem' =>
      obtain ⟨hfits, rfl, -⟩ := hspec.of_ok hrun
      rw [if_pos hfits]
    | error e mem' =>
      obtain ⟨-, -, hno⟩ := hspec.of_error hrun
      rw [if_neg hno]
  · intro hbudget
    unfold argvCopies
    refine List.ext_getElem (by simp) fun i hi hi' => ?_
    rw [List.getElem_map, List.getElem_range]
    refine argvCopy_cstring (h.strings.string i hi') ?_
    have htake := packedSize_take hi'
    have hle : packedSize (strs.take (i + 1)) ≤ packedSize strs := packedSize_take_le _
    omega

/-- For one to eight strings outside of an aligned stack: the function succeeds exactly if the strings with their NULs
are at most 256 bytes and the image fits on the stack, which does not wrap. Then the image is there and nothing else has
changed; a call that fails has changed nothing. -/
theorem placeArgv_image (h : ArgvCall mem stack stackBase stackSize argvPtr strs) :
    (ArgvFits stackBase stackSize strs →
      ∃ argvVaddr mem', placeArgv stack stackBase stackSize argvPtr strs.length mem = .ok argvVaddr mem' ∧
        ArgvImage mem mem' stack stackBase stackSize argvVaddr strs) ∧
    (¬ ArgvFits stackBase stackSize strs →
      placeArgv stack stackBase stackSize argvPtr strs.length mem = .error .fail mem) := by
  have hspec := placeArgv_spec h
  cases hrun : placeArgv stack stackBase stackSize argvPtr strs.length mem with
  | ok argvVaddr mem' =>
    obtain ⟨hfits, -, himage⟩ := hspec.of_ok hrun
    exact ⟨fun _ => ⟨argvVaddr, mem', rfl, himage⟩, fun hno => absurd hfits hno⟩
  | error e mem' =>
    obtain ⟨rfl, rfl, hno⟩ := hspec.of_error hrun
    exact ⟨fun hfits => absurd hfits hno, fun _ => rfl⟩

/-- The strings `ls` and `a` at 4096 and 4100, and the pointers to them at 8192. -/
def sampleMem : ByteMem := fun a =>
  if a = 4096 then 108 else if a = 4097 then 115 else if a = 4100 then 97
  else if a = 8193 ∨ a = 8201 then 16 else if a = 8200 then 4 else 0

def sampleStrings : List (List UInt8) := [[108, 115], [97]]

theorem sampleMem_call : ArgvCall sampleMem 32768 8388608 4096 8192 sampleStrings := by
  have htwo {i : Nat} (hi : i < sampleStrings.length) : i = 0 ∨ i = 1 := by
    have : i < 2 := hi
    omega
  have hfirst : loadWord sampleMem (8192 + 8 * 0) = 4096 := by decide
  have hsecond : loadWord sampleMem (8192 + 8 * 1) = 4100 := by decide
  refine ⟨by decide, by decide, by decide, by decide, by decide, by decide, by decide, ?_⟩
  refine ⟨fun i hi => ?_, fun i hi => ?_, fun i hi j hj => ?_, fun i hi j hj => ?_⟩
  · rcases htwo hi with rfl | rfl
    · rw [hfirst]
      decide
    · rw [hsecond]
      decide
  · rcases htwo hi with rfl | rfl
    · rw [hfirst]
      exact cstring_cons.mpr ⟨by decide, by decide, cstring_cons.mpr ⟨by decide, by decide,
        cstring_nil.mpr (by decide)⟩⟩
    · rw [hsecond]
      exact cstring_cons.mpr ⟨by decide, by decide, cstring_nil.mpr (by decide)⟩
  · have hlt : i < 2 := hi
    left
    omega
  · rcases htwo hi with rfl | rfl
    · have hle : j ≤ 2 := hj
      rw [hfirst]
      left
      omega
    · have hle : j ≤ 1 := hj
      rw [hsecond]
      left
      omega

theorem placeArgv_image_two : ∃ argvVaddr mem',
    placeArgv 32768 8388608 4096 8192 2 sampleMem = .ok argvVaddr mem' ∧
      ArgvImage sampleMem mem' 32768 8388608 4096 argvVaddr sampleStrings :=
  (placeArgv_image sampleMem_call).1 (by decide)

end Call

end Armonios
