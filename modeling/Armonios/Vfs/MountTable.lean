import Armonios.Vfs.Tmpfs

/-!
# Mounting

The model of how nodes come into the tables of `kernel/vfs.c`, byte by byte: the fixed path buffers, the list mounts,
and the slots that tmpfs and FAT32 keep for the nodes that they mount. A pointer to a C string is its bytes before the
NUL, `none` if it is null; a pointer into a table is an index.

* `vfsMountStatic`, `vfsMountList`, `tmpfsMountVfs`, `fat32MountVfsFile`: each returns whether it returned 0, and the
  state afterwards;
* `mountRun_ok`: what holds after any calls.
-/

namespace Armonios

namespace MountTable

def vfsMaxListMounts : Nat := 4

/-- A C string, without its NUL. -/
structure CString where
  bytes : List UInt8
  proper : 0 ∉ bytes

/-- As it stands in memory. -/
def CString.memory (s : CString) : List UInt8 := s.bytes ++ [0]

/-- A function that a node can point to. -/
inductive Callback (φ : Type)
  | other (f : φ)
  | tmpfsVfsRead | tmpfsVfsWrite | tmpfsVfsStat
  | fat32VfsRead | fat32VfsWrite | fat32VfsStat

/-- What a node hands to its functions: `g_tmpfs_vfs_names[index]` and `&g_fat32_vfs_files[index]` are two of them. -/
inductive Context (κ : Type)
  | other (c : κ)
  | tmpfsName (index : Nat)
  | fat32File (index : Nat)

/-- `vfs_node_t` of a caller. -/
structure MountNode (φ κ : Type) where
  path : Option CString
  size : Nat
  read : Option (Callback φ)
  write : Option (Callback φ)
  stat : Option (Callback φ)
  context : Option (Context κ)

/-- `g_vfs_nodes[i]`; the path points into `g_vfs_paths`. -/
structure VfsSlot (φ κ : Type) where
  path : Option Nat
  size : Nat
  read : Option (Callback φ)
  write : Option (Callback φ)
  stat : Option (Callback φ)
  context : Option (Context κ)

/-- `vfs_list_mount_t`. -/
structure ListMount (φ κ : Type) where
  path : Vector UInt8 vfsMaxPath
  list : Option φ
  context : Option κ
  used : Bool

/-- `fat32_vfs_file_t`; `fs` says whether the pointer is set. -/
structure Fat32VfsFile where
  fs : Bool
  file : Fat32File

/-- The tables of the VFS, of tmpfs and of FAT32. -/
structure Mounts (φ κ : Type) where
  nodes : Nat → VfsSlot φ κ
  paths : Nat → Vector UInt8 vfsMaxPath
  nodeCount : Nat
  listMounts : Nat → ListMount φ κ
  tmpfsNodes : Nat → MountNode φ κ
  tmpfsNames : Nat → Vector UInt8 tmpfsMaxName
  tmpfsCount : Nat
  fat32Nodes : Nat → MountNode φ κ
  fat32Files : Nat → Fat32VfsFile
  fat32Count : Nat

section Model

variable {φ κ : Type}

/-! ## Strings -/

/-- The loop of `vfs_path_equals`. -/
def equalsFrom : List UInt8 → List UInt8 → Bool
  | l :: left, r :: right => if l ≠ 0 ∧ r ≠ 0 then if l ≠ r then false else equalsFrom left right else l = r
  | _, _ => false

def vfsPathEquals (left right : Option (List UInt8)) : Bool :=
  match left, right with
  | some left, some right => equalsFrom left right
  | _, _ => false

/-- The loop of `vfs_path_is_mountable`. -/
def mountableFrom : Nat → List UInt8 → Bool
  | _, [] => true
  | i, _ :: rest => if vfsMaxPath ≤ i + 1 then false else mountableFrom (i + 1) rest

def vfsPathIsMountable (path : Option CString) : Bool :=
  match path with
  | none => false
  | some path => path.bytes.head? = some 47 && mountableFrom 0 path.bytes

/-- The loop of `vfs_copy_path` and of `tmpfs_copy_name`, and the NUL behind it. -/
def copyFrom {n : Nat} (dest : Vector UInt8 n) : Nat → List UInt8 → Bool × Vector UInt8 n
  | i, [] => (true, dest.setIfInBounds i 0)
  | i, c :: rest => if n ≤ i + 1 then (false, dest) else copyFrom (dest.setIfInBounds i c) (i + 1) rest

def vfsCopyPath (dest : Vector UInt8 vfsMaxPath) (path : Option CString) : Bool × Vector UInt8 vfsMaxPath :=
  match path with
  | none => (false, dest)
  | some path => if path.bytes.head? = some 47 then copyFrom dest 0 path.bytes else (false, dest)

def tmpfsCopyName (dest : Vector UInt8 tmpfsMaxName) (name : Option CString) : Bool × Vector UInt8 tmpfsMaxName :=
  match name with
  | none => (false, dest)
  | some name => if name.bytes = [] then (false, dest) else copyFrom dest 0 name.bytes

/-! ## The VFS -/

/-- `vfs_reset`, without the open files. -/
def vfsReset (s : Mounts φ κ) : Mounts φ κ :=
  { s with
    nodes := fun _ => ⟨none, 0, none, none, none, none⟩
    paths := fun _ => Vector.replicate _ 0
    listMounts := fun _ => ⟨Vector.replicate _ 0, none, none, false⟩
    nodeCount := 0 }

/-- The bytes that `g_vfs_nodes[i].path` points to. -/
def Mounts.pathAt (s : Mounts φ κ) (i : Nat) : Option (List UInt8) :=
  (s.nodes i).path.map fun buffer => (s.paths buffer).toList

def vfsFind (path : Option CString) (s : Mounts φ κ) : Option Nat :=
  match path with
  | none => none
  | some path =>
    if path.bytes = [] then none
    else (List.range s.nodeCount).find? fun i => vfsPathEquals (s.pathAt i) (some path.memory)

/-- What `vfs_mount_static` checks of a node; `before` are those before it in the array. -/
def nodeMountable (s : Mounts φ κ) (before : List (MountNode φ κ)) (node : MountNode φ κ) : Bool :=
  vfsPathIsMountable node.path && (node.read.isSome || node.write.isSome) && (vfsFind node.path s).isNone &&
    before.all fun other => !vfsPathEquals (other.path.map (·.memory)) (node.path.map (·.memory))

/-- The first loop of `vfs_mount_static`. -/
def allMountable (s : Mounts φ κ) : List (MountNode φ κ) → List (MountNode φ κ) → Bool
  | _, [] => true
  | before, node :: rest => nodeMountable s before node && allMountable s (before ++ [node]) rest

/-- The body of the second loop. -/
def mountNode (s : Mounts φ κ) (node : MountNode φ κ) : Mounts φ κ :=
  { s with
    paths := Function.update s.paths s.nodeCount (vfsCopyPath (s.paths s.nodeCount) node.path).2
    nodes := Function.update s.nodes s.nodeCount
      ⟨some s.nodeCount, node.size, node.read, node.write, node.stat, node.context⟩
    nodeCount := s.nodeCount + 1 }

def vfsMountStatic (nodes : List (MountNode φ κ)) (s : Mounts φ κ) : Bool × Mounts φ κ :=
  if nodes = [] ∨ vfsMaxNodes < (s.nodeCount + nodes.length) % 2 ^ 32 ∨ allMountable s [] nodes = false then (false, s)
  else (true, nodes.foldl mountNode s)

def vfsMountList (path : Option CString) (list : Option φ) (context : Option κ) (s : Mounts φ κ) : Bool × Mounts φ κ :=
  if vfsPathIsMountable path = false ∨ list.isNone then (false, s)
  else if (List.range vfsMaxListMounts).any fun i =>
      (s.listMounts i).used && vfsPathEquals (some (s.listMounts i).path.toList) (path.map (·.memory)) then (false, s)
  else
    match (List.range vfsMaxListMounts).find? fun i => !(s.listMounts i).used with
    | none => (false, s)
    | some i =>
      let copied := vfsCopyPath (s.listMounts i).path path
      let put (mount : ListMount φ κ) := { s with listMounts := Function.update s.listMounts i mount }
      if copied.1 then (true, put ⟨copied.2, list, context, true⟩)
      else (false, put { s.listMounts i with path := copied.2 })

/-! ## tmpfs -/

/-- `tmpfs_clear_vfs_slot`. -/
def tmpfsClearVfsSlot (index : Nat) (s : Mounts φ κ) : Mounts φ κ :=
  if tmpfsMaxFiles ≤ index then s
  else
    { s with
      tmpfsNodes := Function.update s.tmpfsNodes index ⟨none, 0, none, none, none, none⟩
      tmpfsNames := Function.update s.tmpfsNames index (Vector.replicate _ 0) }

/-- The size of the file that `tmpfs_find_file` finds. -/
def tmpfsFileSize (files : Tmpfs) (name : Option CString) : Option Nat :=
  name.bind fun name => (tmpfsFindFile files name.bytes).bind fun i => (files.fileAt i).map (·.size)

def tmpfsMountVfs (path name : Option CString) (files : Tmpfs) (s : Mounts φ κ) : Bool × Mounts φ κ :=
  let index := s.tmpfsCount
  match tmpfsFileSize files name with
  | none => (false, s)
  | some size =>
    if (path.bind (·.bytes.head?)) ≠ some 47 ∨ tmpfsMaxFiles ≤ index then (false, s)
    else
      let copied := tmpfsCopyName (s.tmpfsNames index) name
      let s := { s with tmpfsNames := Function.update s.tmpfsNames index copied.2 }
      if copied.1 = false then (false, s)
      else
        let node : MountNode φ κ :=
          ⟨path, size, some .tmpfsVfsRead, some .tmpfsVfsWrite, some .tmpfsVfsStat, some (.tmpfsName index)⟩
        let s := { s with tmpfsNodes := Function.update s.tmpfsNodes index node }
        let result := vfsMountStatic [s.tmpfsNodes index] s
        if result.1 then (true, { result.2 with tmpfsCount := result.2.tmpfsCount + 1 })
        else (false, tmpfsClearVfsSlot index result.2)

/-! ## FAT32 -/

/-- `clear_vfs_slot` of `kernel/fat32.c`. -/
def clearVfsSlot (index : Nat) (s : Mounts φ κ) : Mounts φ κ :=
  if fat32MaxVfsFiles ≤ index then s
  else
    { s with
      fat32Files := Function.update s.fat32Files index ⟨false, ⟨0, 0, 0, 0, 0⟩⟩
      fat32Nodes := Function.update s.fat32Nodes index ⟨none, 0, none, none, none, none⟩ }

/-- `mounted` says that `fs` is a mounted volume; `opened` is what `fat32_open_root` returns for the name, and leaves in
the file. -/
def fat32MountVfsFile (mounted : Bool) (path name : Option CString) (opened : Bool × Fat32File) (s : Mounts φ κ) :
    Bool × Mounts φ κ :=
  let index := s.fat32Count
  if mounted = false ∨ (path.bind (·.bytes.head?)) ≠ some 47 ∨ name.isNone ∨ fat32MaxVfsFiles ≤ index then (false, s)
  else
    let s := clearVfsSlot index s
    let s := { s with fat32Files := Function.update s.fat32Files index ⟨false, opened.2⟩ }
    if opened.1 = false then (false, s)
    else
      let node : MountNode φ κ :=
        ⟨path, opened.2.size, some .fat32VfsRead, some .fat32VfsWrite, some .fat32VfsStat, some (.fat32File index)⟩
      let s :=
        { s with
          fat32Files := Function.update s.fat32Files index ⟨true, opened.2⟩
          fat32Nodes := Function.update s.fat32Nodes index node }
      let result := vfsMountStatic [s.fat32Nodes index] s
      if result.1 then (true, { result.2 with fat32Count := result.2.fat32Count + 1 })
      else (false, clearVfsSlot index result.2)

/-! ## C strings -/

/-- The C string in a buffer. -/
def stringAt {n : Nat} (buffer : Vector UInt8 n) : List UInt8 := buffer.toList.takeWhile (· ≠ 0)

theorem takeWhile_memory {bytes rest : List UInt8} (h : 0 ∉ bytes) :
    (bytes ++ 0 :: rest).takeWhile (· ≠ 0) = bytes := by
  have hproper : ∀ b ∈ bytes, decide (b ≠ 0) = true := by
    intro b hb
    rw [decide_eq_true_iff]
    rintro rfl
    exact h hb
  rw [List.takeWhile_append_of_pos hproper]
  simp

theorem CString.memory_string (s : CString) : s.memory.takeWhile (· ≠ 0) = s.bytes := takeWhile_memory s.proper

theorem CString.memory_proper (s : CString) : (0 : UInt8) ∈ s.memory := by
  simp [CString.memory]

/-- Two strings that end are compared. -/
theorem equalsFrom_iff {left right : List UInt8} (hl : 0 ∈ left) (hr : 0 ∈ right) :
    equalsFrom left right = true ↔ left.takeWhile (· ≠ 0) = right.takeWhile (· ≠ 0) := by
  induction left generalizing right with
  | nil => exact absurd hl List.not_mem_nil
  | cons l left ih =>
    cases right with
    | nil => exact absurd hr List.not_mem_nil
    | cons r right =>
      unfold equalsFrom
      by_cases hl0 : l = 0
      · subst hl0
        by_cases hr0 : r = 0
        · simp [hr0]
        · simp [hr0, Ne.symm hr0]
      by_cases hr0 : r = 0
      · simp [hl0, hr0]
      rw [if_pos ⟨hl0, hr0⟩]
      have hrest := @ih right (by simpa [Ne.symm hl0] using hl) (by simpa [Ne.symm hr0] using hr)
      by_cases heq : l = r
      · subst heq
        rw [if_neg (not_not.mpr rfl), hrest]
        simp [hl0]
      · simp [hl0, hr0, heq]

theorem mountableFrom_iff {i : Nat} {bytes : List UInt8} (h : i < vfsMaxPath) :
    mountableFrom i bytes = true ↔ i + bytes.length < vfsMaxPath := by
  induction bytes generalizing i with
  | nil => simpa [mountableFrom] using h
  | cons c bytes ih =>
    unfold mountableFrom
    rw [List.length_cons]
    split
    · simp
      omega
    · rw [ih (by omega)]
      omega

theorem copyFrom_spec {n i : Nat} {bytes : List UInt8} {dest : Vector UInt8 n} (h : i + bytes.length < n) :
    (copyFrom dest i bytes).1 = true ∧ (copyFrom dest i bytes).2.toList =
      dest.toList.take i ++ bytes ++ 0 :: dest.toList.drop (i + bytes.length + 1) := by
  induction bytes generalizing i dest with
  | nil =>
    refine ⟨rfl, ?_⟩
    rw [List.length_nil, Nat.add_zero] at h
    show (dest.setIfInBounds i 0).toList = _
    rw [Vector.toList_setIfInBounds, List.set_eq_take_append_cons_drop, if_pos (by simpa using h)]
    simp
  | cons c bytes ih =>
    rw [List.length_cons] at h
    unfold copyFrom
    rw [if_neg (by omega)]
    obtain ⟨hok, hlist⟩ := @ih (i + 1) (dest.setIfInBounds i c) (by omega)
    refine ⟨hok, hlist.trans ?_⟩
    rw [Vector.toList_setIfInBounds, List.length_cons]
    have hi : i < dest.toList.length := by
      rw [Vector.length_toList]
      omega
    rw [List.take_add_one, List.take_set_of_le (Nat.le_refl i), List.drop_set_of_lt (by omega),
      List.getElem?_set_self hi]
    simp [Nat.add_comm, Nat.add_left_comm]

/-- A path as `vfs_copy_path` leaves it. -/
structure ProperPath (buffer : Vector UInt8 vfsMaxPath) : Prop where
  terminated : 0 ∈ buffer.toList
  absolute : (stringAt buffer).head? = some 47
  short : (stringAt buffer).length < vfsMaxPath

theorem vfsPathIsMountable_iff {path : Option CString} : vfsPathIsMountable path = true ↔
    ∃ p, path = some p ∧ p.bytes.head? = some 47 ∧ p.bytes.length < vfsMaxPath := by
  unfold vfsPathIsMountable
  cases path with
  | none => simp
  | some p => simp [mountableFrom_iff (show 0 < vfsMaxPath by decide)]

/-- A mountable path is copied whole. -/
theorem vfsCopyPath_spec {p : CString} (dest : Vector UInt8 vfsMaxPath) (habs : p.bytes.head? = some 47)
    (hlen : p.bytes.length < vfsMaxPath) : (vfsCopyPath dest (some p)).1 = true ∧
      ProperPath (vfsCopyPath dest (some p)).2 ∧ stringAt (vfsCopyPath dest (some p)).2 = p.bytes := by
  obtain ⟨hok, hlist⟩ := @copyFrom_spec _ 0 p.bytes dest (by omega)
  have heq : vfsCopyPath dest (some p) = copyFrom dest 0 p.bytes := if_pos habs
  rw [List.take_zero, List.nil_append] at hlist
  have hstring : stringAt (copyFrom dest 0 p.bytes).2 = p.bytes := by
    rw [stringAt, hlist]
    exact takeWhile_memory p.proper
  rw [heq]
  refine ⟨hok, ⟨?_, ?_, ?_⟩, hstring⟩
  · rw [hlist]
    simp
  · rw [hstring]
    exact habs
  · rw [hstring]
    exact hlen

/-! ## The tables -/

/-- What holds of the tables after any calls. -/
structure MountOk (s : Mounts φ κ) : Prop where
  room : s.nodeCount ≤ vfsMaxNodes
  slots : ∀ i < s.nodeCount, (s.nodes i).path = some i
  paths : ∀ i < s.nodeCount, ProperPath (s.paths i)
  distinct : ∀ i < s.nodeCount, ∀ j < s.nodeCount, stringAt (s.paths i) = stringAt (s.paths j) → i = j
  lists : ∀ i < vfsMaxListMounts, (s.listMounts i).used = true → ProperPath (s.listMounts i).path
  listsDistinct : ∀ i < vfsMaxListMounts, ∀ j < vfsMaxListMounts, (s.listMounts i).used = true →
    (s.listMounts j).used = true → stringAt (s.listMounts i).path = stringAt (s.listMounts j).path → i = j

/-- What was mounted stays where it is, and as it is; also the name or file that its functions work on. -/
structure MountsKept (s s' : Mounts φ κ) : Prop where
  count : s.nodeCount ≤ s'.nodeCount
  nodes : ∀ i < s.nodeCount, s'.nodes i = s.nodes i ∧ s'.paths i = s.paths i
  lists : ∀ i < vfsMaxListMounts, (s.listMounts i).used = true → s'.listMounts i = s.listMounts i
  tmpfsCount : s.tmpfsCount ≤ s'.tmpfsCount
  tmpfsNames : ∀ i < s.tmpfsCount, s'.tmpfsNames i = s.tmpfsNames i
  fat32Count : s.fat32Count ≤ s'.fat32Count
  fat32Files : ∀ i < s.fat32Count, s'.fat32Files i = s.fat32Files i

/-- Nothing is mounted that was not before. -/
structure SameMounts (s s' : Mounts φ κ) : Prop where
  nodeCount : s'.nodeCount = s.nodeCount
  nodes : s'.nodes = s.nodes
  paths : s'.paths = s.paths
  lists : s'.listMounts = s.listMounts
  tmpfsCount : s'.tmpfsCount = s.tmpfsCount
  fat32Count : s'.fat32Count = s.fat32Count

/-- The node `i` is the caller's. -/
structure MountedAt (s : Mounts φ κ) (i : Nat) (node : MountNode φ κ) : Prop where
  lt : i < s.nodeCount
  path : ∃ p, node.path = some p ∧ stringAt (s.paths i) = p.bytes
  slot : s.nodes i = ⟨some i, node.size, node.read, node.write, node.stat, node.context⟩

variable {s s' s'' : Mounts φ κ} {nodes rest before : List (MountNode φ κ)} {node : MountNode φ κ}

theorem MountsKept.refl (s : Mounts φ κ) : MountsKept s s :=
  ⟨Nat.le_refl _, fun _ _ => ⟨rfl, rfl⟩, fun _ _ _ => rfl, Nat.le_refl _, fun _ _ => rfl, Nat.le_refl _, fun _ _ => rfl⟩

theorem MountsKept.trans (h : MountsKept s s') (h' : MountsKept s' s'') : MountsKept s s'' := by
  refine ⟨Nat.le_trans h.count h'.count, fun i hi => ?_, fun i hi hu => ?_, Nat.le_trans h.tmpfsCount h'.tmpfsCount,
    fun i hi => ?_, Nat.le_trans h.fat32Count h'.fat32Count, fun i hi => ?_⟩
  · obtain ⟨h1, h2⟩ := h.nodes i hi
    obtain ⟨h1', h2'⟩ := h'.nodes i (Nat.lt_of_lt_of_le hi h.count)
    exact ⟨h1'.trans h1, h2'.trans h2⟩
  · have hsame := h.lists i hi hu
    exact (h'.lists i hi (hsame ▸ hu)).trans hsame
  · exact (h'.tmpfsNames i (Nat.lt_of_lt_of_le hi h.tmpfsCount)).trans (h.tmpfsNames i hi)
  · exact (h'.fat32Files i (Nat.lt_of_lt_of_le hi h.fat32Count)).trans (h.fat32Files i hi)

/-- `vfs_find` returns the node with the path, if there is one. -/
theorem vfsFind_iff (h : MountOk s) (p : CString) (i : Nat) :
    vfsFind (some p) s = some i ↔ i < s.nodeCount ∧ stringAt (s.paths i) = p.bytes := by
  have hequals : ∀ j < s.nodeCount, vfsPathEquals (s.pathAt j) (some p.memory) = true ↔
      stringAt (s.paths j) = p.bytes := by
    intro j hj
    rw [Mounts.pathAt, h.slots j hj]
    show equalsFrom _ _ = true ↔ _
    rw [equalsFrom_iff (h.paths j hj).terminated p.memory_proper, p.memory_string]
    rfl
  unfold vfsFind
  dsimp only
  split
  · rename_i hempty
    constructor
    · rintro ⟨⟩
    · rintro ⟨hi, heq⟩
      have habs := (h.paths i hi).absolute
      rw [heq, hempty] at habs
      cases habs
  constructor
  · intro hfind
    have hlt := List.mem_range.mp (List.mem_of_find?_eq_some hfind)
    have hequal := List.find?_some hfind
    exact ⟨hlt, (hequals i hlt).mp hequal⟩
  · rintro ⟨hi, heq⟩
    cases hfind : (List.range s.nodeCount).find? fun i => vfsPathEquals (s.pathAt i) (some p.memory) with
    | none => exact absurd ((hequals i hi).mpr heq) (List.find?_eq_none.mp hfind i (List.mem_range.mpr hi))
    | some j =>
      have hlt := List.mem_range.mp (List.mem_of_find?_eq_some hfind)
      have hequal := List.find?_some hfind
      have hj := (hequals j hlt).mp hequal
      rw [h.distinct j hlt i hi (hj.trans heq.symm)]

/-- The path is not mounted. -/
theorem vfsFind_none (h : MountOk s) (p : CString) :
    vfsFind (some p) s = none ↔ ∀ i < s.nodeCount, stringAt (s.paths i) ≠ p.bytes := by
  constructor
  · intro hnone i hi heq
    rw [(vfsFind_iff h p i).mpr ⟨hi, heq⟩] at hnone
    cases hnone
  · intro hall
    cases hfind : vfsFind (some p) s with
    | none => rfl
    | some i =>
      obtain ⟨hi, heq⟩ := (vfsFind_iff h p i).mp hfind
      exact absurd heq (hall i hi)

/-- What the first loop has checked: each path is new, and they differ. -/
structure Mountable (s : Mounts φ κ) (nodes : List (MountNode φ κ)) : Prop where
  fresh : ∀ node ∈ nodes, ∃ p, node.path = some p ∧ p.bytes.head? = some 47 ∧ p.bytes.length < vfsMaxPath ∧
    ∀ i < s.nodeCount, stringAt (s.paths i) ≠ p.bytes
  differ : nodes.Pairwise fun a b => ∀ p q, a.path = some p → b.path = some q → p.bytes ≠ q.bytes

theorem nodeMountable_spec (h : MountOk s) (hok : nodeMountable s before node = true) :
    (∃ p, node.path = some p ∧ p.bytes.head? = some 47 ∧ p.bytes.length < vfsMaxPath ∧
      ∀ i < s.nodeCount, stringAt (s.paths i) ≠ p.bytes) ∧
    ∀ other ∈ before, ∀ p q, other.path = some p → node.path = some q → p.bytes ≠ q.bytes := by
  simp only [nodeMountable, Bool.and_eq_true, List.all_eq_true, Bool.not_eq_true', Option.isNone_iff_eq_none] at hok
  obtain ⟨⟨⟨hpath, -⟩, hfind⟩, hbefore⟩ := hok
  obtain ⟨p, hp, habs, hlen⟩ := vfsPathIsMountable_iff.mp hpath
  rw [hp] at hfind
  refine ⟨⟨p, hp, habs, hlen, (vfsFind_none h p).mp hfind⟩, fun other ho q r hq hr heq => ?_⟩
  have hdiff := hbefore other ho
  rw [hq, hr] at hdiff
  have hsame : equalsFrom q.memory r.memory = true := by
    rw [equalsFrom_iff q.memory_proper r.memory_proper, q.memory_string, r.memory_string, heq]
  have hcompared : equalsFrom q.memory r.memory = false := hdiff
  rw [hsame] at hcompared
  cases hcompared

theorem allMountable_spec (h : MountOk s) (hok : allMountable s before nodes = true) :
    Mountable s nodes ∧
      ∀ other ∈ before, ∀ node ∈ nodes, ∀ p q, other.path = some p → node.path = some q → p.bytes ≠ q.bytes := by
  induction nodes generalizing before with
  | nil => exact ⟨⟨fun _ h => absurd h List.not_mem_nil, .nil⟩, fun _ _ _ h => absurd h List.not_mem_nil⟩
  | cons node rest ih =>
    rw [allMountable, Bool.and_eq_true] at hok
    obtain ⟨hnew, hbefore⟩ := nodeMountable_spec h hok.1
    obtain ⟨hrest, hacross⟩ := ih hok.2
    refine ⟨⟨fun n hn => ?_, List.pairwise_cons.mpr ⟨fun n hn => ?_, hrest.differ⟩⟩, fun other ho n hn => ?_⟩
    · rcases List.mem_cons.mp hn with rfl | hn
      · exact hnew
      · exact hrest.fresh n hn
    · exact hacross node (by simp) n hn
    · rcases List.mem_cons.mp hn with rfl | hn
      · exact hbefore other ho
      · exact hacross other (by simp [ho]) n hn

/-- One node more. -/
theorem mountNode_ok (h : MountOk s) (hroom : s.nodeCount < vfsMaxNodes) {p : CString} (hp : node.path = some p)
    (habs : p.bytes.head? = some 47) (hlen : p.bytes.length < vfsMaxPath)
    (hfresh : ∀ i < s.nodeCount, stringAt (s.paths i) ≠ p.bytes) :
    MountOk (mountNode s node) ∧ MountsKept s (mountNode s node) ∧ MountedAt (mountNode s node) s.nodeCount node := by
  obtain ⟨-, hproper, hstring⟩ := vfsCopyPath_spec (s.paths s.nodeCount) habs hlen
  rw [← hp] at hproper hstring
  have hold : ∀ i < s.nodeCount, (mountNode s node).nodes i = s.nodes i ∧ (mountNode s node).paths i = s.paths i :=
    fun i hi => ⟨Function.update_of_ne (Nat.ne_of_lt hi) .., Function.update_of_ne (Nat.ne_of_lt hi) ..⟩
  have hpath : (mountNode s node).paths s.nodeCount = (vfsCopyPath (s.paths s.nodeCount) node.path).2 :=
    Function.update_self ..
  have hslot : (mountNode s node).nodes s.nodeCount =
      ⟨some s.nodeCount, node.size, node.read, node.write, node.stat, node.context⟩ := Function.update_self ..
  have hcases : ∀ i < (mountNode s node).nodeCount, i < s.nodeCount ∨ i = s.nodeCount :=
    fun i hi => Nat.lt_succ_iff_lt_or_eq.mp hi
  refine ⟨⟨hroom, fun i hi => ?_, fun i hi => ?_, fun i hi j hj heq => ?_, h.lists, h.listsDistinct⟩,
    ⟨Nat.le_succ _, hold, fun _ _ _ => rfl, Nat.le_refl _, fun _ _ => rfl, Nat.le_refl _, fun _ _ => rfl⟩,
    Nat.lt_succ_self _, ⟨p, hp, by rw [hpath]; exact hstring⟩, hslot⟩
  · rcases hcases i hi with hi | rfl
    · rw [(hold i hi).1]
      exact h.slots i hi
    · rw [hslot]
  · rcases hcases i hi with hi | rfl
    · rw [(hold i hi).2]
      exact h.paths i hi
    · rw [hpath]
      exact hproper
  · rcases hcases i hi with hi | rfl <;> rcases hcases j hj with hj | rfl
    · rw [(hold i hi).2, (hold j hj).2] at heq
      exact h.distinct i hi j hj heq
    · rw [(hold i hi).2, hpath, hstring] at heq
      exact absurd heq (hfresh i hi)
    · rw [(hold j hj).2, hpath, hstring] at heq
      exact absurd heq.symm (hfresh j hj)
    · rfl

theorem Mountable.mountNode (h : Mountable s (node :: rest)) : Mountable (mountNode s node) rest := by
  obtain ⟨hdiffer, hrest⟩ := List.pairwise_cons.mp h.differ
  obtain ⟨p, hp, habs, hlen, -⟩ := h.fresh node (by simp)
  refine ⟨fun n hn => ?_, hrest⟩
  obtain ⟨q, hq, habs', hlen', hfresh⟩ := h.fresh n (by simp [hn])
  refine ⟨q, hq, habs', hlen', fun i hi => ?_⟩
  rcases Nat.lt_succ_iff_lt_or_eq.mp hi with hi | rfl
  · show stringAt (Function.update s.paths s.nodeCount _ i) ≠ _
    rw [Function.update_of_ne (Nat.ne_of_lt hi)]
    exact hfresh i hi
  · show stringAt (Function.update s.paths s.nodeCount _ s.nodeCount) ≠ _
    rw [Function.update_self, hp, (vfsCopyPath_spec _ habs hlen).2.2]
    exact hdiffer n hn p q hp hq

/-- A mounted node stays mounted. -/
theorem MountedAt.kept {i : Nat} (h : MountedAt s i node) (hk : MountsKept s s') : MountedAt s' i node := by
  obtain ⟨hn, hp⟩ := hk.nodes i h.lt
  refine ⟨Nat.lt_of_lt_of_le h.lt hk.count, ?_, hn.trans h.slot⟩
  rw [hp]
  exact h.path

/-- The second loop of `vfs_mount_static`. -/
theorem foldl_mountNode (h : MountOk s) (hroom : s.nodeCount + nodes.length ≤ vfsMaxNodes) (hm : Mountable s nodes) :
    MountOk (nodes.foldl mountNode s) ∧ MountsKept s (nodes.foldl mountNode s) ∧
      (nodes.foldl mountNode s).nodeCount = s.nodeCount + nodes.length ∧
      ∀ (i : Nat) (node : MountNode φ κ), nodes[i]? = some node →
        MountedAt (nodes.foldl mountNode s) (s.nodeCount + i) node := by
  induction nodes generalizing s with
  | nil => exact ⟨h, .refl s, rfl, fun i node hi => by simp at hi⟩
  | cons node rest ih =>
    rw [List.length_cons] at hroom
    obtain ⟨p, hp, habs, hlen, hfresh⟩ := hm.fresh node (by simp)
    obtain ⟨hok, hkept, hat⟩ := mountNode_ok h (by omega) hp habs hlen hfresh
    have hcount : (mountNode s node).nodeCount = s.nodeCount + 1 := rfl
    obtain ⟨hok', hkept', hcount', hall⟩ := ih hok (by omega) hm.mountNode
    rw [hcount] at hcount' hall
    refine ⟨hok', hkept.trans hkept', by rw [List.length_cons, List.foldl_cons]; omega, fun i n hi => ?_⟩
    cases i with
    | zero =>
      rw [List.getElem?_cons_zero, Option.some.injEq] at hi
      subst hi
      exact hat.kept hkept'
    | succ i =>
      have hrest := hall i n hi
      rwa [Nat.add_assoc, Nat.add_comm 1 i] at hrest

/-- All nodes are mounted, behind those that were. -/
structure MountsAll (nodes : List (MountNode φ κ)) (s s' : Mounts φ κ) : Prop where
  count : s'.nodeCount = s.nodeCount + nodes.length
  mounted : ∀ (i : Nat) (node : MountNode φ κ), nodes[i]? = some node → MountedAt s' (s.nodeCount + i) node

/-- `vfs_mount_static` mounts all nodes, or changes nothing. -/
theorem vfsMountStatic_spec (h : MountOk s) (hlen : nodes.length < 2 ^ 31) :
    vfsMountStatic nodes s = (false, s) ∨
      (vfsMountStatic nodes s = (true, nodes.foldl mountNode s) ∧ MountOk (nodes.foldl mountNode s) ∧
        MountsKept s (nodes.foldl mountNode s) ∧ MountsAll nodes s (nodes.foldl mountNode s)) := by
  unfold vfsMountStatic
  split
  · exact .inl rfl
  · rename_i hcond
    simp only [not_or, Bool.not_eq_false] at hcond
    obtain ⟨-, hroom, hall⟩ := hcond
    have hcount := h.room
    unfold vfsMaxNodes at hcount hroom
    rw [Nat.mod_eq_of_lt (by omega)] at hroom
    obtain ⟨hok, hkept, hcount', hat⟩ := foldl_mountNode h (by unfold vfsMaxNodes; omega) (allMountable_spec h hall).1
    exact .inr ⟨rfl, hok, hkept, hcount', hat⟩

/-! ## Calls -/

/-- What a call did: `ok` says whether it returned 0. -/
structure MountStep (s : Mounts φ κ) (ok : Bool) (s' : Mounts φ κ) : Prop where
  tables : MountOk s'
  kept : MountsKept s s'
  same : ok = false → SameMounts s s'

theorem SameMounts.refl (s : Mounts φ κ) : SameMounts s s := ⟨rfl, rfl, rfl, rfl, rfl, rfl⟩

theorem MountStep.refl (h : MountOk s) : MountStep s false s := ⟨h, .refl s, fun _ => .refl s⟩

theorem SameMounts.ok (h : SameMounts s s') (hok : MountOk s) : MountOk s' := by
  obtain ⟨hc, hn, hp, hl, -, -⟩ := h
  refine ⟨?_, ?_, ?_, ?_, ?_, ?_⟩
  · rw [hc]
    exact hok.room
  · rw [hc, hn]
    exact hok.slots
  · rw [hc, hp]
    exact hok.paths
  · rw [hc, hp]
    exact hok.distinct
  · rw [hl]
    exact hok.lists
  · rw [hl]
    exact hok.listsDistinct

/-- Only slots of tmpfs and FAT32 that no node uses are written. -/
theorem SameMounts.kept (h : SameMounts s s') (ht : ∀ i < s.tmpfsCount, s'.tmpfsNames i = s.tmpfsNames i)
    (hf : ∀ i < s.fat32Count, s'.fat32Files i = s.fat32Files i) : MountsKept s s' := by
  refine ⟨Nat.le_of_eq h.nodeCount.symm, fun i _ => ⟨?_, ?_⟩, fun i _ _ => ?_, Nat.le_of_eq h.tmpfsCount.symm, ht,
    Nat.le_of_eq h.fat32Count.symm, hf⟩
  · rw [h.nodes]
  · rw [h.paths]
  · rw [h.lists]

theorem vfsMountList_step (h : MountOk s) (path : Option CString) (list : Option φ) (context : Option κ) :
    MountStep s (vfsMountList path list context s).1 (vfsMountList path list context s).2 := by
  unfold vfsMountList
  split
  · exact .refl h
  rename_i hcond
  simp only [not_or, Bool.not_eq_false] at hcond
  obtain ⟨p, rfl, habs, hlen⟩ := vfsPathIsMountable_iff.mp hcond.1
  split
  · exact .refl h
  rename_i hnew
  cases hfind : (List.range vfsMaxListMounts).find? fun i => !(s.listMounts i).used with
  | none => exact .refl h
  | some i =>
    have hi := List.mem_range.mp (List.mem_of_find?_eq_some hfind)
    have hfree := List.find?_some hfind
    rw [Bool.not_eq_true'] at hfree
    obtain ⟨hcopied, hproper, hstring⟩ := vfsCopyPath_spec (s.listMounts i).path habs hlen
    have hother : ∀ j < vfsMaxListMounts, (s.listMounts j).used = true → stringAt (s.listMounts j).path ≠ p.bytes := by
      intro j hj hu heq
      refine hnew (List.any_eq_true.mpr ⟨j, List.mem_range.mpr hj, ?_⟩)
      rw [hu, Bool.true_and]
      refine (equalsFrom_iff (h.lists j hj hu).terminated p.memory_proper).mpr ?_
      rw [p.memory_string]
      exact heq
    simp only [hcopied, if_true]
    have hne : ∀ j, (s.listMounts j).used = true → j ≠ i := by
      rintro j hu rfl
      rw [hfree] at hu
      cases hu
    refine ⟨⟨h.room, h.slots, h.paths, h.distinct, fun j hj hu => ?_, fun j hj k hk huj huk heq => ?_⟩,
      ⟨Nat.le_refl _, fun _ _ => ⟨rfl, rfl⟩, fun j _ hu => Function.update_of_ne (hne j hu) .., Nat.le_refl _,
        fun _ _ => rfl, Nat.le_refl _, fun _ _ => rfl⟩, fun hno => by cases hno⟩
    · dsimp only at hu ⊢
      by_cases hji : j = i
      · subst hji
        rw [Function.update_self]
        exact hproper
      · rw [Function.update_of_ne hji] at hu ⊢
        exact h.lists j hj hu
    · dsimp only at huj huk heq
      by_cases hji : j = i <;> by_cases hki : k = i
      · rw [hji, hki]
      · rw [hji, Function.update_self, Function.update_of_ne hki, hstring] at heq
        rw [Function.update_of_ne hki] at huk
        exact absurd heq.symm (hother k hk huk)
      · rw [hki, Function.update_self, Function.update_of_ne hji, hstring] at heq
        rw [Function.update_of_ne hji] at huj
        exact absurd heq (hother j hj huj)
      · rw [Function.update_of_ne hji] at huj heq
        rw [Function.update_of_ne hki] at huk heq
        exact h.listsDistinct j hj k hk huj huk heq

theorem vfsMountStatic_step (h : MountOk s) (hlen : nodes.length < 2 ^ 31) :
    MountStep s (vfsMountStatic nodes s).1 (vfsMountStatic nodes s).2 := by
  rcases vfsMountStatic_spec h hlen with hno | ⟨hyes, hok, hkept, -⟩
  · rw [hno]
    exact .refl h
  · rw [hyes]
    exact ⟨hok, hkept, fun hno => by cases hno⟩

theorem MountStep.idle (h : MountOk s) (hsame : SameMounts s s') (hkept : MountsKept s s') : MountStep s false s' :=
  ⟨hsame.ok h, hkept, fun _ => hsame⟩

/-- A file system mounts the node in a slot of its own: it takes the slot with the node, or gives it back. -/
theorem MountStep.fileSystem {s₁ : Mounts φ κ} (take give : Mounts φ κ → Mounts φ κ) (h : MountOk s)
    (hsame : SameMounts s s₁) (hkept : MountsKept s s₁) (hgive : SameMounts s (give s₁) ∧ MountsKept s (give s₁))
    (htake : ∀ t, MountOk t → MountOk (take t) ∧ MountsKept t (take t)) (node : MountNode φ κ) :
    MountStep s
      (if (vfsMountStatic [node] s₁).1 then (true, take (vfsMountStatic [node] s₁).2)
        else (false, give (vfsMountStatic [node] s₁).2)).1
      (if (vfsMountStatic [node] s₁).1 then (true, take (vfsMountStatic [node] s₁).2)
        else (false, give (vfsMountStatic [node] s₁).2)).2 := by
  have hone : [node].length < 2 ^ 31 := by simp
  rcases vfsMountStatic_spec (hsame.ok h) hone with hno | ⟨hyes, hok, hk, -⟩
  · rw [hno]
    exact ⟨hgive.1.ok h, hgive.2, fun _ => hgive.1⟩
  · rw [hyes]
    obtain ⟨hok', hk'⟩ := htake _ hok
    exact ⟨hok', (hkept.trans hk).trans hk', fun hno => by cases hno⟩

theorem tmpfsMountVfs_step (h : MountOk s) (path name : Option CString) (files : Tmpfs) :
    MountStep s (tmpfsMountVfs path name files s).1 (tmpfsMountVfs path name files s).2 := by
  -- only the slot behind those in use is written
  have hnames : ∀ (v : Vector UInt8 tmpfsMaxName), ∀ i < s.tmpfsCount,
      Function.update s.tmpfsNames s.tmpfsCount v i = s.tmpfsNames i :=
    fun v i hi => Function.update_of_ne (Nat.ne_of_lt hi) ..
  unfold tmpfsMountVfs
  cases tmpfsFileSize files name with
  | none => exact .refl h
  | some size =>
    dsimp only
    split
    · exact .refl h
    rename_i hcond
    split
    · refine .idle h ?_ ?_
      · exact ⟨rfl, rfl, rfl, rfl, rfl, rfl⟩
      · exact SameMounts.kept ⟨rfl, rfl, rfl, rfl, rfl, rfl⟩ (hnames _) fun _ _ => rfl
    · refine MountStep.fileSystem (fun t => { t with tmpfsCount := t.tmpfsCount + 1 })
        (tmpfsClearVfsSlot s.tmpfsCount) h
        ?_ ?_ ?_ (fun t ht => ⟨?_, ?_⟩) _
      · exact ⟨rfl, rfl, rfl, rfl, rfl, rfl⟩
      · exact SameMounts.kept ⟨rfl, rfl, rfl, rfl, rfl, rfl⟩ (hnames _) fun _ _ => rfl
      · unfold tmpfsClearVfsSlot
        rw [if_neg fun hle => hcond (.inr hle)]
        refine ⟨⟨rfl, rfl, rfl, rfl, rfl, rfl⟩, SameMounts.kept ⟨rfl, rfl, rfl, rfl, rfl, rfl⟩ ?_ fun _ _ => rfl⟩
        dsimp only
        rw [Function.update_idem]
        exact hnames _
      · exact ⟨ht.room, ht.slots, ht.paths, ht.distinct, ht.lists, ht.listsDistinct⟩
      · exact ⟨Nat.le_refl _, fun _ _ => ⟨rfl, rfl⟩, fun _ _ _ => rfl, Nat.le_succ _, fun _ _ => rfl, Nat.le_refl _,
          fun _ _ => rfl⟩

theorem fat32MountVfsFile_step (h : MountOk s) (mounted : Bool) (path name : Option CString)
    (opened : Bool × Fat32File) :
    MountStep s (fat32MountVfsFile mounted path name opened s).1 (fat32MountVfsFile mounted path name opened s).2 := by
  have hfiles : ∀ (f : Fat32VfsFile), ∀ i < s.fat32Count,
      Function.update s.fat32Files s.fat32Count f i = s.fat32Files i :=
    fun f i hi => Function.update_of_ne (Nat.ne_of_lt hi) ..
  unfold fat32MountVfsFile
  dsimp only
  split
  · exact .refl h
  rename_i hcond
  have hslot : ¬fat32MaxVfsFiles ≤ s.fat32Count := fun hle => hcond (.inr (.inr (.inr hle)))
  have hclear : ∀ t : Mounts φ κ, clearVfsSlot s.fat32Count t =
      { t with
        fat32Files := Function.update t.fat32Files s.fat32Count ⟨false, ⟨0, 0, 0, 0, 0⟩⟩
        fat32Nodes := Function.update t.fat32Nodes s.fat32Count ⟨none, 0, none, none, none, none⟩ } :=
    fun t => if_neg hslot
  rw [hclear s]
  dsimp only
  simp only [Function.update_idem]
  split
  · refine .idle h ?_ ?_
    · exact ⟨rfl, rfl, rfl, rfl, rfl, rfl⟩
    · exact SameMounts.kept ⟨rfl, rfl, rfl, rfl, rfl, rfl⟩ (fun _ _ => rfl) (hfiles _)
  · refine MountStep.fileSystem (fun t => { t with fat32Count := t.fat32Count + 1 }) (clearVfsSlot s.fat32Count) h
      ?_ ?_ ?_ (fun t ht => ⟨?_, ?_⟩) _
    · exact ⟨rfl, rfl, rfl, rfl, rfl, rfl⟩
    · exact SameMounts.kept ⟨rfl, rfl, rfl, rfl, rfl, rfl⟩ (fun _ _ => rfl) (hfiles _)
    · rw [hclear]
      refine ⟨⟨rfl, rfl, rfl, rfl, rfl, rfl⟩, SameMounts.kept ⟨rfl, rfl, rfl, rfl, rfl, rfl⟩ (fun _ _ => rfl) ?_⟩
      dsimp only
      rw [Function.update_idem]
      exact hfiles _
    · exact ⟨ht.room, ht.slots, ht.paths, ht.distinct, ht.lists, ht.listsDistinct⟩
    · exact ⟨Nat.le_refl _, fun _ _ => ⟨rfl, rfl⟩, fun _ _ _ => rfl, Nat.le_refl _, fun _ _ => rfl, Nat.le_succ _,
        fun _ _ => rfl⟩

/-! ## Runs -/

/-- A call; the arrays of `vfs_mount_static` have fewer than `2 ^ 31` nodes. `files` are the files of tmpfs then. -/
inductive MountCall (φ κ : Type)
  | static (nodes : List (MountNode φ κ)) (short : nodes.length < 2 ^ 31)
  | mountList (path : Option CString) (list : Option φ) (context : Option κ)
  | tmpfs (path name : Option CString) (files : Tmpfs)
  | fat32 (mounted : Bool) (path name : Option CString) (opened : Bool × Fat32File)

def MountCall.run (s : Mounts φ κ) : MountCall φ κ → Bool × Mounts φ κ
  | .static nodes _ => vfsMountStatic nodes s
  | .mountList path list context => vfsMountList path list context s
  | .tmpfs path name files => tmpfsMountVfs path name files s
  | .fat32 mounted path name opened => fat32MountVfsFile mounted path name opened s

/-- The tables after the calls. -/
def mountRun (s : Mounts φ κ) (calls : List (MountCall φ κ)) : Mounts φ κ := calls.foldl (fun s c => (c.run s).2) s

theorem MountCall.step (h : MountOk s) (c : MountCall φ κ) : MountStep s (c.run s).1 (c.run s).2 := by
  cases c with
  | static nodes short => exact vfsMountStatic_step h short
  | mountList path list context => exact vfsMountList_step h path list context
  | tmpfs path name files => exact tmpfsMountVfs_step h path name files
  | fat32 mounted path name opened => exact fat32MountVfsFile_step h mounted path name opened

theorem vfsReset_ok (s : Mounts φ κ) : MountOk (vfsReset s) := by
  refine ⟨Nat.zero_le _, fun _ hi => ?_, fun _ hi => ?_, fun _ hi => ?_, fun _ _ hu => ?_, fun _ _ _ _ hu => ?_⟩
  · exact absurd hi (Nat.not_lt_zero _)
  · exact absurd hi (Nat.not_lt_zero _)
  · exact absurd hi (Nat.not_lt_zero _)
  · cases hu
  · cases hu

theorem mountRun_keeps (h : MountOk s) (calls : List (MountCall φ κ)) :
    MountOk (mountRun s calls) ∧ MountsKept s (mountRun s calls) := by
  induction calls generalizing s with
  | nil => exact ⟨h, .refl s⟩
  | cons c calls ih =>
    have hstep := c.step h
    obtain ⟨hok, hkept⟩ := ih hstep.tables
    exact ⟨hok, hstep.kept.trans hkept⟩

/-- After any calls: the paths are proper and those of a table differ; an array is mounted whole or not at all; a call
that fails mounts nothing; what is mounted stays as it is in all further calls; and `vfs_find` finds the node. -/
theorem mountRun_ok (s₀ : Mounts φ κ) (calls : List (MountCall φ κ)) :
    let s := mountRun (vfsReset s₀) calls
    MountOk s ∧ (∀ more, MountsKept s (mountRun s more)) ∧
      (∀ nodes : List (MountNode φ κ), nodes.length < 2 ^ 31 → vfsMountStatic nodes s = (false, s) ∨
        ∃ s', vfsMountStatic nodes s = (true, s') ∧ MountsAll nodes s s') ∧
      (∀ c : MountCall φ κ, (c.run s).1 = false → SameMounts s (c.run s).2) ∧
      ∀ (p : CString) (i : Nat), vfsFind (some p) s = some i ↔ i < s.nodeCount ∧ stringAt (s.paths i) = p.bytes := by
  intro s
  have hok : MountOk s := (mountRun_keeps (vfsReset_ok s₀) calls).1
  refine ⟨hok, fun more => (mountRun_keeps hok more).2, fun nodes hlen => ?_, fun c => (c.step hok).same,
    vfsFind_iff hok⟩
  rcases vfsMountStatic_spec hok hlen with hno | ⟨hyes, -, -, hall⟩
  · exact .inl hno
  · exact .inr ⟨_, hyes, hall⟩

/-- The path `/a`. -/
def pathA : CString := ⟨[47, 97], by decide⟩

/-- A node and a list have the same path. -/
theorem mountRun_shared : ¬ ∀ (s₀ : Mounts Unit Unit) (calls : List (MountCall Unit Unit)),
    let s := mountRun (vfsReset s₀) calls
    ∀ i < s.nodeCount, ∀ j < vfsMaxListMounts, (s.listMounts j).used = true →
      stringAt (s.paths i) ≠ stringAt (s.listMounts j).path := by
  intro h
  refine h ⟨fun _ => ⟨none, 0, none, none, none, none⟩, fun _ => Vector.replicate _ 0, 0,
    fun _ => ⟨Vector.replicate _ 0, none, none, false⟩, fun _ => ⟨none, 0, none, none, none, none⟩,
    fun _ => Vector.replicate _ 0, 0, fun _ => ⟨none, 0, none, none, none, none⟩, fun _ => ⟨false, ⟨0, 0, 0, 0, 0⟩⟩, 0⟩
    [.static [⟨some pathA, 0, some (.other ()), none, none, none⟩] (by decide), .mountList (some pathA) (some ()) none]
    0 (by decide) 0 (by decide) (by decide) (by decide)

end Model

end MountTable

end Armonios
