import Armonios.Process.Files
import Armonios.Process.Fair
import Armonios.Vfs.Descriptors

/-!
# Who uses the open files

* `next_rest`: what a step of the machine does to the rest of the kernel, which the process code does not
  look at;
* `FdUse`: the system calls that change an entry of the table of open files;
* `openers`: a ghost, for every used entry the process that opened it;
* `machineRun_descriptors`: the table in every run. An entry is there from the `SYS_OPEN` that filled it to
  a `SYS_CLOSE` of any process; the end of a process does not touch the table.
-/

namespace Armonios

/-! ## The rest of the kernel -/

section Rest

variable {ρ : Type} {env : Env ρ} {k k' : Kernel ρ} {m m' : Machine ρ} {slot : SlotId}

/-- The rest of the kernel is the same. -/
def SameRest (k k' : Kernel ρ) : Prop := k'.rest = k.rest

instance : Std.Refl (SameRest : Kernel ρ → Kernel ρ → Prop) := ⟨fun _ => rfl⟩

instance : IsTrans (Kernel ρ) SameRest := ⟨fun _ _ _ h h' => h'.trans h⟩

theorem SameRest.trans {k'' : Kernel ρ} (h : SameRest k k') (h' : SameRest k' k'') : SameRest k k'' :=
  IsTrans.trans k k' k'' h h'

def LoaderRest (l l' : Loader ρ) : Prop := SameRest l.kernel l'.kernel

instance : Std.Refl (LoaderRest : Loader ρ → Loader ρ → Prop) := ⟨fun _ => rfl⟩

instance : IsTrans (Loader ρ) LoaderRest := ⟨fun _ _ _ h h' => SameRest.trans h h'⟩

theorem processRelease_rest (i : SlotId) (k : Kernel ρ) : SameRest k (processRelease i k) := by
  unfold processRelease
  dsimp only
  split <;> rfl

theorem reclaimZombies_rest (k : Kernel ρ) : SameRest k (processReclaimZombies k) := by
  unfold processReclaimZombies
  generalize slots = l
  induction l generalizing k with
  | nil => rfl
  | cons i l ih =>
    rw [List.foldl_cons]
    refine IsTrans.trans (r := SameRest) _ _ _ ?_ (ih _)
    split
    · exact processRelease_rest i k
    · rfl

theorem onSlot_rest {α : Type} (slot : SlotId) (m : SpaceM α) : Moves SameRest (onSlot slot m : KernelM ρ α) := by
  intro k
  refine wp_onPart.mpr ?_
  unfold Wp
  split <;> rfl

theorem loaderSteps_rest : LoaderSteps slot (LoaderRest : Loader ρ → Loader ρ → Prop) where
  pmm _ := fun _ => rfl
  space m := (onSlot_rest slot m).onPart fun _ _ hk => hk
  storage _ := Moves.modify fun _ => rfl
  release := (Moves.modify (processRelease_rest slot)).onPart fun _ _ hk => hk

theorem processAlloc_rest {pid : Nat} {name : Path} (h : processAlloc pid name k = some (slot, k')) :
    SameRest k k' := by
  unfold processAlloc at h
  split at h
  · cases h
  split at h
  · cases h
  · cases h
    rfl

theorem spawnInto_rest (name : Path) (entryIndex argvPtr argc : Nat) :
    Moves LoaderRest (spawnInto env name slot entryIndex argvPtr argc) := by
  refine Moves.get_bind fun l => Moves.bind (loaderSteps_rest.loadProcess _ _ _ _ _) fun _ => ?_
  refine Moves.get_bind fun l => ?_
  split
  · exact Moves.bind loaderSteps_rest.release fun _ => Moves.error _
  · exact fun _ => rfl

theorem appSpawnVfs_rest (env : Env ρ) (path : Path) (entryIndex argvPtr argc : Nat) :
    Moves SameRest (appSpawnVfs env path entryIndex argvPtr argc) := by
  refine Moves.get_bind fun k => Moves.guard ?_
  split
  · exact Moves.error _
  refine Moves.guard (Moves.bind (Moves.modify reclaimZombies_rest) fun _ => Moves.get_bind fun k => ?_)
  refine Moves.bind (Moves.modify fun _ => rfl) fun _ => ?_
  intro k
  refine wp_bind.mpr (wp_get.mpr ?_)
  split
  · exact Moves.error _ k
  · rename_i slot k₁ halloc
    have hrest := processAlloc_rest halloc
    refine wp_bind.mpr (wp_set.mpr (wp_bind.mpr (wp_onPart.mpr ?_)))
    exact Wp.mono (spawnInto_rest _ _ _ _ _) (fun _ l hl => hrest.trans hl) fun _ l hl => hrest.trans hl

theorem panelBootEnter_rest (env : Env ρ) (memoryBase memorySize : Nat) (mapMmio : Option MapMmio) :
    Moves SameRest (panelBootEnter env memoryBase memorySize mapMmio) := by
  refine Moves.bind (Moves.modify reclaimZombies_rest) fun _ => ?_
  intro k
  refine wp_bind.mpr (wp_get.mpr ?_)
  split
  · exact Moves.error _ k
  · rename_i slot k₁ halloc
    have hrest := processAlloc_rest halloc
    refine wp_bind.mpr (wp_set.mpr (wp_bind.mpr (wp_onPart.mpr ?_)))
    refine Wp.mono (loaderSteps_rest.loadProcess _ _ _ _ _ _) (fun _ l hl => ?_) fun _ l hl => hrest.trans hl
    exact wp_bind.mpr (wp_modify.mpr (wp_bind.mpr (wp_modify.mpr (wp_pure.mpr (hrest.trans hl)))))

theorem dispatchNext_rest {current : Option SlotId} {policy : DispatchPolicy} {frame : Frame}
    (h : processDispatchNext current policy k = some (frame, k')) : SameRest k k' := by
  unfold processDispatchNext at h
  split at h
  · cases h
  split at h
  · cases h
  · cases h
    cases current with
    | none => rfl
    | some i =>
      unfold SameRest
      dsimp only
      split <;> rfl

theorem withCurrent_rest (f : Process → Process) (k : Kernel ρ) : SameRest k (withCurrent f k) := by
  unfold withCurrent
  split <;> rfl

theorem onCurrent_rest (m : SpaceM Int) : SameRest k (onCurrent m k).2 := by
  unfold onCurrent
  split
  · rfl
  · rename_i i _
    have h := onSlot_rest i m k
    unfold Wp at h
    split at h <;> rename_i heq <;> rw [heq] <;> exact h

theorem spawnResult_rest (path : Path) (entryIndex argvPtr argc : Nat) :
    SameRest k (spawnResult env path entryIndex argvPtr argc k).2 := by
  have h := appSpawnVfs_rest env path entryIndex argvPtr argc k
  unfold spawnResult
  unfold Wp at h
  split at h
  · rename_i pid k' heq
    rw [heq]
    dsimp only
    split <;> exact h
  · rename_i heq
    rw [heq]
    exact h

/-- A relation that holds of what the rest of the kernel does by itself: the windows of a process are
destroyed, devices are polled, interrupts are handled. -/
structure Unasked (env : Env ρ) (Q : ρ → ρ → Prop) : Prop where
  windows : ∀ pid s, Q s (env.destroyWindows pid s)
  poll : ∀ (k : Kernel ρ) frame, Q k.rest (env.poll k frame)
  irqWork : ∀ (k : Kernel ρ) irq, Q k.rest (env.irqWork k irq)

variable {Q : ρ → ρ → Prop} [Std.Refl Q]

theorem SameRest.related (h : SameRest k k') : Q k.rest k'.rest := by
  rw [h]
  exact Std.Refl.refl _

theorem Unasked.markExited (h : Unasked env Q) (i : SlotId) (code : UInt64) (k : Kernel ρ) :
    Q k.rest (processMarkExited env i code k).rest := by
  unfold processMarkExited
  dsimp only
  split
  · exact Std.Refl.refl _
  · exact h.windows _ _

theorem Unasked.endCurrent [IsTrans ρ Q] (h : Unasked env Q) (code : UInt64) (frame : Frame) (k : Kernel ρ) :
    Q k.rest (endCurrent env code frame k).2.rest := by
  unfold Armonios.endCurrent
  cases hcur : k.current with
  | none =>
    dsimp only
    split
    · rename_i next hd
      exact (dispatchNext_rest hd).related
    · exact Std.Refl.refl _
  | some i =>
    have hexit := h.markExited i code k
    dsimp only
    split
    · rename_i next hd
      exact IsTrans.trans _ _ _ hexit (dispatchNext_rest hd).related
    · exact hexit

/-- A system call that only sets `x0` is one of the rest of the kernel, or leaves it to itself. -/
theorem Unasked.simpleCall (h : Unasked env Q) (frame : Frame) (k : Kernel ρ) :
    Q k.rest (simpleCall env frame k).2.rest ∨ env.other k frame =
      some ((simpleCall env frame k).1, (simpleCall env frame k).2.rest) := by
  unfold Armonios.simpleCall
  dsimp only
  split
  · exact .inl (Std.Refl.refl _)
  split
  · left
    unfold sysSpawn
    split
    · exact Std.Refl.refl _
    split
    · exact Std.Refl.refl _
    · exact (spawnResult_rest _ _ _ _).related
  split
  · left
    unfold sysSpawnArgv
    split
    · exact Std.Refl.refl _
    split
    · exact Std.Refl.refl _
    · dsimp only
      generalize (if frame.arg 3 = 0 then decide (frame.arg 2 = 0) else _) = argvOk
      cases argvOk with
      | true => exact (spawnResult_rest _ _ _ _).related
      | false => exact Std.Refl.refl _
  split
  · left
    rcases sysWait_leaves (frame.arg 0) k with heq | ⟨i, -, -, -, heq⟩ <;> rw [heq]
    · exact Std.Refl.refl _
    · exact (processRelease_rest _ _).related
  split
  · left
    rcases sysKill_leaves env (frame.arg 0) k with heq | ⟨i, -, -, -, heq⟩ <;> rw [heq]
    · exact Std.Refl.refl _
    · exact h.markExited _ _ _
  split
  · exact .inl (onCurrent_rest _).related
  split
  · exact .inl (onCurrent_rest _).related
  split
  · exact .inl (Std.Refl.refl _)
  · rename_i heq
    exact .inr heq

/-- A system call leaves the rest of the kernel to itself, or is one of its calls, made by the process that
is current. -/
theorem Unasked.syscallDispatch [IsTrans ρ Q] (h : Unasked env Q) (regs : Frame) (k : Kernel ρ) :
    Q k.rest (syscallDispatch env regs k).2.rest ∨ ∃ q : Kernel ρ, q.current = k.current ∧
      Q k.rest q.rest ∧ env.other q regs =
        some ((syscallDispatch env regs k).1.arg 0, (syscallDispatch env regs k).2.rest) := by
  have hpoll : Q k.rest (withCurrent (processSaveContext regs) { k with rest := env.poll k regs }).rest := by
    have hsame := withCurrent_rest (processSaveContext regs) { k with rest := env.poll k regs }
    rw [hsame]
    exact h.poll k regs
  have hcur : (withCurrent (processSaveContext regs) { k with rest := env.poll k regs }).current = k.current := by
    unfold withCurrent
    split <;> rfl
  unfold Armonios.syscallDispatch
  dsimp only
  generalize withCurrent (processSaveContext regs) { k with rest := env.poll k regs } = q at hpoll hcur ⊢
  split
  · left
    refine IsTrans.trans _ _ _ (IsTrans.trans _ _ _ hpoll ?_) (withCurrent_rest _ _).related
    exact h.endCurrent _ _ _
  split
  · left
    refine IsTrans.trans _ _ _ (IsTrans.trans _ _ _ hpoll ?_) (withCurrent_rest _ _).related
    unfold sysYield
    dsimp only
    split
    · rename_i next hd
      exact ((withCurrent_rest _ _).trans (dispatchNext_rest hd)).related
    · exact (withCurrent_rest _ _).related
  · dsimp only
    rcases h.simpleCall regs q with hrest | hother
    · left
      exact IsTrans.trans _ _ _ (IsTrans.trans _ _ _ hpoll hrest) (withCurrent_rest _ _).related
    · refine .inr ⟨q, hcur, hpoll, ?_⟩
      rw [hother, withCurrent_rest]
      congr 2
      simp [Frame.arg, Frame.setX0, setReg, Vector.getD]

theorem Unasked.irqHandlerFrame (h : Unasked env Q) (irq : Option UInt32) (regs : Frame) (k : Kernel ρ) :
    Q k.rest (irqHandlerFrame env irq regs k).2.rest := by
  have hsave := withCurrent_rest (processSaveContext regs) k
  unfold Armonios.irqHandlerFrame
  dsimp only
  split
  · exact hsave.related
  · rename_i irq
    have hwork := h.irqWork (withCurrent (processSaveContext regs) k) irq
    rw [hsave] at hwork
    generalize env.irqWork (withCurrent (processSaveContext regs) k) irq = rest at hwork ⊢
    generalize hq : withCurrent _ { withCurrent (processSaveContext regs) k with rest := rest } = q
    have hrest : q.rest = rest := hq ▸ withCurrent_rest _ _
    split
    · rename_i next hd
      rw [dispatchNext_rest hd, hrest]
      exact hwork
    · rw [hrest]
      exact hwork

/-- A step of the machine leaves the rest of the kernel to itself, or is one of its system calls. -/
theorem Unasked.next [IsTrans ρ Q] (h : Unasked env Q) {e : Event} (hstep : m.next env e = some m') :
    Q m.kernel.rest m'.kernel.rest ∨ ∃ regs, ∃ q : Kernel ρ, e = .svc ∧ m.cpu = .user regs ∧
      q.current = m.kernel.current ∧ Q m.kernel.rest q.rest ∧ env.other q regs =
        some ((Armonios.syscallDispatch env regs m.kernel).1.arg 0, m'.kernel.rest) := by
  cases e with
  | boot memoryBase memorySize mapMmio =>
    left
    simp only [Machine.next] at hstep
    split at hstep
    · have hrest := panelBootEnter_rest env memoryBase memorySize mapMmio m.kernel
      unfold Wp at hrest
      split at hrest <;> rename_i heq <;> rw [heq] at hstep <;> cases hstep <;> exact hrest.related
    · cases hstep
  | launch x =>
    left
    simp only [Machine.next] at hstep
    split at hstep
    · cases hstep
      exact Std.Refl.refl _
    · cases hstep
  | run regs =>
    left
    simp only [Machine.next] at hstep
    split at hstep
    · split at hstep
      · cases hstep
        exact Std.Refl.refl _
      · cases hstep
    · cases hstep
  | svc =>
    simp only [Machine.next] at hstep
    split at hstep
    · rename_i regs hc
      cases hstep
      rcases h.syscallDispatch regs m.kernel with hrest | ⟨q, hcur, hq, hother⟩
      · exact .inl hrest
      · exact .inr ⟨regs, q, rfl, hc, hcur, hq, hother⟩
    · cases hstep
  | fault =>
    left
    simp only [Machine.next] at hstep
    split at hstep
    · rename_i regs hc
      cases hstep
      have hsave := withCurrent_rest (processSaveContext regs) m.kernel
      have hend := h.endCurrent kernelUserFaultExitCode regs (withCurrent (processSaveContext regs) m.kernel)
      rw [hsave] at hend
      exact hend
    · cases hstep
  | irq irq =>
    left
    simp only [Machine.next] at hstep
    split at hstep
    · cases hstep
      exact h.irqHandlerFrame _ _ _
    · cases hstep
  | irqEl1 irq regs =>
    left
    simp only [Machine.next] at hstep
    split at hstep
    · cases hstep
    · obtain ⟨cpu, -, rfl⟩ := Option.map_eq_some_iff.mp hstep
      exact h.irqHandlerFrame _ _ _
  | eret =>
    left
    simp only [Machine.next] at hstep
    split at hstep
    · cases hstep
      exact Std.Refl.refl _
    · cases hstep
  | leave =>
    left
    simp only [Machine.next] at hstep
    split at hstep
    · cases hstep
      unfold panelBootLeave
      exact ((reclaimZombies_rest _).trans (processRelease_rest _ _)).related
    · cases hstep

end Rest

/-! ## The table of open files -/

section Table

variable {τ σ β α : Type} {env : FileEnv τ σ β} {regs : Frame} {x0 : UInt64} {k : FileKernel τ σ β}

/-- The VFS is the same. -/
def SameVfs (s s' : FileState τ σ β) : Prop := s'.vfs = s.vfs

instance : Std.Refl (SameVfs : FileState τ σ β → FileState τ σ β → Prop) := ⟨fun _ => rfl⟩

instance : IsTrans (FileState τ σ β) SameVfs := ⟨fun _ _ _ h h' => h'.trans h⟩

theorem FileEnv.unasked (env : FileEnv τ σ β) : Unasked env.toEnv SameVfs :=
  ⟨fun _ _ => rfl, fun _ _ => rfl, fun _ _ => rfl⟩

/-- What a system call with the registers `regs` and the result `x0` can do to the entry `fd`. -/
inductive FdUse (regs : Frame) (x0 : UInt64) (fd : Int) : Option VfsOpenFile → Option VfsOpenFile → Prop
  | opened (index : Nat) (nr : regs.arg 8 = sysOpenNr) (result : x0 = toWord (fd + fdFileBase.toNat)) :
    FdUse regs x0 fd none (some ⟨index, 0, (regs.arg 1).toUInt32 &&& vfsOAccmode⟩)
  | moved (file : VfsOpenFile) (offset : Nat)
      (nr : regs.arg 8 = sysReadNr ∨ regs.arg 8 = sysWriteNr ∨ regs.arg 8 = sysSeekNr)
      (descriptor : fileFd (regs.arg 0) = fd) :
    FdUse regs x0 fd (some file) (some { file with offset })
  | closed (file : VfsOpenFile) (nr : regs.arg 8 = sysCloseNr) (descriptor : fileFd (regs.arg 0) = fd) :
    FdUse regs x0 fd (some file) none

/-- Every entry is as it was, or the call has used it. -/
def FdKept (regs : Frame) (x0 : UInt64) (v v' : FatVfs τ σ) : Prop :=
  ∀ fd, vfsFdAt v' fd = vfsFdAt v fd ∨ FdUse regs x0 fd (vfsFdAt v fd) (vfsFdAt v' fd)

theorem SameTable.fdKept {v v' : FatVfs τ σ} (h : SameTable v v') : FdKept regs x0 v v' := fun fd => .inl (h.fdAt fd)

theorem fdKept_putFd {v v₁ : FatVfs τ σ} {fd : Int} {file : Option VfsOpenFile} (hs : SameTable v v₁) (h0 : 0 ≤ fd)
    (hlt : fd.toNat < vfsMaxOpenFiles) (huse : FdUse regs x0 fd (vfsFdAt v fd) file) :
    FdKept regs x0 v (putFd v₁ fd file) := by
  intro fd'
  rw [fdAt_putFd h0 hlt]
  split
  · rename_i heq
    subst heq
    exact .inr huse
  · exact .inl (hs.fdAt fd')

theorem fdKept_putFd_used {v v₁ : FatVfs τ σ} {fd : Int} {old : VfsOpenFile} {file : Option VfsOpenFile}
    (hs : SameTable v v₁) (hfile : vfsFdAt v fd = some old) (huse : FdUse regs x0 fd (some old) file) :
    FdKept regs x0 v (putFd v₁ fd file) :=
  fdKept_putFd hs (fdAt_lt hfile).1 (fdAt_lt hfile).2 (hfile ▸ huse)

theorem onVfs_of_wp {m : FatVfsM τ σ α} {ok : α → Int} {err : Int} {s : FileState τ σ β}
    {P : Int → FatVfs τ σ → Prop} (h : Wp m s.vfs (fun a v => P (ok a) v) fun _ v => P err v) :
    P (onVfs m ok err s).1 (onVfs m ok err s).2.vfs := by
  unfold Wp at h
  unfold onVfs
  split at h <;> rename_i heq <;> rw [heq] <;> exact h

/-- A call of the VFS that leaves the table alone. -/
theorem onVfs_sameTable {m : FatVfsM τ σ α} (h : Moves SameTable m) (ok : α → Int) (err : Int)
    (s : FileState τ σ β) : SameTable s.vfs (onVfs m ok err s).2.vfs :=
  onVfs_of_wp (P := fun _ v => SameTable s.vfs v) (h s.vfs)

theorem sysOpen_fdKept (hnr : regs.arg 8 = sysOpenNr) : FdKept regs
    (toWord (env.sysOpen (regs.arg 0) (regs.arg 1) k).1) k.rest.vfs
      (env.sysOpen (regs.arg 0) (regs.arg 1) k).2.vfs := by
  unfold FileEnv.sysOpen
  split
  · exact SameTable.rfl.fdKept
  split
  · exact SameTable.rfl.fdKept
  · refine onVfs_of_wp (P := fun x v => FdKept regs (toWord x) k.rest.vfs v) ?_
    refine Wp.mono (openFlags_fills _ _ _) (fun fd v' h => ?_) fun _ v' h => h.fdKept
    obtain ⟨hlt, hfree, v₁, index, hs, rfl⟩ := h
    refine fdKept_putFd hs (by omega) (by simpa using hlt) ?_
    rw [hfree]
    exact .opened index hnr rfl

theorem sysClose_fdKept (hnr : regs.arg 8 = sysCloseNr) : FdKept regs
    (toWord (FileEnv.sysClose (regs.arg 0) k).1) k.rest.vfs (FileEnv.sysClose (regs.arg 0) k).2.vfs := by
  unfold FileEnv.sysClose
  split
  · exact SameTable.rfl.fdKept
  · refine onVfs_of_wp (P := fun x v => FdKept regs (toWord x) k.rest.vfs v) ?_
    refine Wp.mono (close_frees _ _) (fun _ v' h => ?_) fun _ v' h => h.fdKept
    obtain ⟨⟨file, hfile⟩, rfl⟩ := h
    exact fdKept_putFd_used SameTable.rfl hfile (.closed file hnr rfl)

theorem sysSeek_fdKept (hnr : regs.arg 8 = sysSeekNr) : FdKept regs
    (toWord (env.sysSeek (regs.arg 0) (regs.arg 1) (regs.arg 2) k).1) k.rest.vfs
    (env.sysSeek (regs.arg 0) (regs.arg 1) (regs.arg 2) k).2.vfs := by
  unfold FileEnv.sysSeek
  split
  · exact SameTable.rfl.fdKept
  · refine onVfs_of_wp (P := fun x v => FdKept regs (toWord x) k.rest.vfs v) ?_
    refine Wp.mono (seek_moves _ _ _) (fun _ v' h => ?_) fun _ v' h => h.fdKept
    obtain ⟨file, v₁, hfile, hs, rfl⟩ := h
    exact fdKept_putFd_used hs hfile (.moved file _ (.inr (.inr hnr)) rfl)

theorem sysRead_fdKept (hnr : regs.arg 8 = sysReadNr) : FdKept regs
    (toWord (env.sysRead (regs.arg 0) (regs.arg 1) (regs.arg 2) k).1) k.rest.vfs
    (env.sysRead (regs.arg 0) (regs.arg 1) (regs.arg 2) k).2.vfs := by
  unfold FileEnv.sysRead
  split
  · split
    · exact SameTable.rfl.fdKept
    split
    · exact SameTable.rfl.fdKept
    · exact SameTable.rfl.fdKept
  split
  · exact SameTable.rfl.fdKept
  split
  · exact SameTable.rfl.fdKept
  · refine onVfs_of_wp (P := fun x v => FdKept regs (toWord x) k.rest.vfs v) ?_
    refine Wp.mono (readFd_moves _ _ _) (fun bytes v' h => ?_) fun _ v' h => h.fdKept
    obtain ⟨file, node, v₁, hfile, -, -, -, hs, rfl⟩ := h
    exact fdKept_putFd_used hs hfile (.moved file _ (.inl hnr) rfl)

theorem sysWrite_fdKept (hnr : regs.arg 8 = sysWriteNr) : FdKept regs
    (toWord (env.sysWrite (regs.arg 0) (regs.arg 1) (regs.arg 2) k).1) k.rest.vfs
    (env.sysWrite (regs.arg 0) (regs.arg 1) (regs.arg 2) k).2.vfs := by
  unfold FileEnv.sysWrite
  split
  · exact SameTable.rfl.fdKept
  split
  · refine onVfs_of_wp (P := fun x v => FdKept regs (toWord x) k.rest.vfs v) ?_
    refine Wp.mono (writeFd_moves _ _ _) (fun count v' h => ?_) fun _ v' h => h.fdKept
    obtain ⟨file, v₁, hfile, -, hs, rfl⟩ := h
    exact fdKept_putFd_used hs hfile (.moved file _ (.inr (.inl hnr)) rfl)
  split
  · exact SameTable.rfl.fdKept
  · exact SameTable.rfl.fdKept

theorem sysStat_sameTable (pathPtr statPtr : UInt64) :
    SameTable k.rest.vfs (env.sysStat pathPtr statPtr k).2.vfs := by
  unfold FileEnv.sysStat
  split
  · exact SameTable.rfl
  split
  · exact SameTable.rfl
  · exact onVfs_sameTable (Moves.bind (sameTable_nodeOf _) fun node => sameTable_nodeSize node) _ _ _

theorem sysUnlink_sameTable (pathPtr : UInt64) : SameTable k.rest.vfs (env.sysUnlink pathPtr k).2.vfs := by
  unfold FileEnv.sysUnlink
  split
  · exact SameTable.rfl
  · exact onVfs_sameTable (sameTable_unlink _) _ _ _

theorem sysRename_sameTable (oldPtr newPtr : UInt64) :
    SameTable k.rest.vfs (env.sysRename oldPtr newPtr k).2.vfs := by
  unfold FileEnv.sysRename
  split
  · exact onVfs_sameTable (sameTable_rename _ _) _ _ _
  · exact SameTable.rfl

theorem fileCall_fdKept {value : Int} {s : FileState τ σ β} (h : env.fileCall regs k = some (value, s)) :
    FdKept regs (toWord value) k.rest.vfs s.vfs := by
  have hof : ∀ r : Int × FileState τ σ β, some r = some (value, s) → FdKept regs (toWord r.1) k.rest.vfs r.2.vfs →
      FdKept regs (toWord value) k.rest.vfs s.vfs := by
    intro r hr hkept
    cases hr
    exact hkept
  unfold FileEnv.fileCall at h
  dsimp only at h
  split at h
  · exact hof _ h (sysOpen_fdKept ‹_›)
  split at h
  · exact hof _ h (sysClose_fdKept ‹_›)
  split at h
  · exact hof _ h (sysRead_fdKept ‹_›)
  split at h
  · exact hof _ h (sysWrite_fdKept ‹_›)
  split at h
  · exact hof _ h (sysSeek_fdKept ‹_›)
  split at h
  · exact hof _ h (sysStat_sameTable _ _).fdKept
  split at h
  · exact hof _ h (sysUnlink_sameTable _).fdKept
  split at h
  · exact hof _ h (sysRename_sameTable _ _).fdKept
  · cases h

theorem other_fdKept {s : FileState τ σ β} (h : env.toEnv.other k regs = some (x0, s)) :
    FdKept regs x0 k.rest.vfs s.vfs := by
  unfold FileEnv.toEnv at h
  dsimp only at h
  split at h
  · rename_i value s' hcall
    cases h
    exact fileCall_fdKept hcall
  · obtain ⟨⟨x, world, others⟩, -, hs⟩ := Option.map_eq_some_iff.mp h
    cases hs
    exact fun fd => .inl rfl

end Table

/-! ## Runs -/

section Runs

variable {τ σ β : Type} {env : FileEnv τ σ β} {fd : Int}

/-- The same kernel; the memory of the programs, the devices and the windows may be different. -/
structure FileEnv.Sibling (env env' : FileEnv τ σ β) : Prop where
  fs : env'.fs = env.fs
  callbacks : env'.callbacks = env.callbacks
  bootfs : env'.bootfsFind = env.bootfsFind
  returnAddress : env'.returnAddress = env.returnAddress

theorem FileEnv.Sibling.refl (env : FileEnv τ σ β) : env.Sibling env := ⟨rfl, rfl, rfl, rfl⟩

theorem FileEnv.Sibling.toEnv {env' : FileEnv τ σ β} (h : env.Sibling env') : env.toEnv.Sibling env'.toEnv :=
  ⟨h.bootfs, h.returnAddress⟩

/-- An entry of the table of open files. -/
def Machine.fdAt (m : Machine (FileState τ σ β)) (fd : Int) : Option VfsOpenFile := vfsFdAt m.kernel.rest.vfs fd

/-- The process that is current. -/
def callerPid (k : FileKernel τ σ β) : Option Nat := k.current.map fun i => (k.processes i).pid

/-- The machine, and for every used entry of the table the process that opened it. -/
structure Recorded (τ σ β : Type) where
  machine : Machine (FileState τ σ β)
  openers : Int → Option Nat

variable {s s₀ s' : Recorded τ σ β}

/-- An entry that gets used belongs to the process that is current then, until it is free again. -/
def openersAfter (m m' : Machine (FileState τ σ β)) (openers : Int → Option Nat) (fd : Int) : Option Nat :=
  match m.fdAt fd, m'.fdAt fd with
  | _, none => none
  | none, some _ => callerPid m.kernel
  | some _, some _ => openers fd

def Recorded.next (env : FileEnv τ σ β) (s : Recorded τ σ β) (e : Event) : Option (Recorded τ σ β) :=
  (s.machine.next env.toEnv e).map fun m => ⟨m, openersAfter s.machine m s.openers⟩

def recordedStep (env : FileEnv τ σ β) (s s' : Recorded τ σ β) : Prop :=
  ∃ env' e, env.Sibling env' ∧ s.next env' e = some s'

/-- The events one after the other. -/
def Recorded.run (env : FileEnv τ σ β) (s : Recorded τ σ β) : List Event → Option (Recorded τ σ β)
  | [] => some s
  | e :: es => (s.next env e).bind fun s => s.run env es

theorem Recorded.run_steps {es : List Event} (h : s.run env es = some s') : Run (recordedStep env) s s' := by
  induction es generalizing s with
  | nil =>
    cases h
    exact .refl
  | cons e es ih =>
    obtain ⟨s₁, hnext, hrest⟩ := Option.bind_eq_some_iff.mp h
    exact .head ⟨env, e, .refl env, hnext⟩ (ih hrest)

/-- A step in which the entry stays used. -/
def keepsStep (env : FileEnv τ σ β) (fd : Int) (s s' : Recorded τ σ β) : Prop :=
  recordedStep env s s' ∧ (s.machine.fdAt fd).isSome = true ∧ (s'.machine.fdAt fd).isSome = true

/-- The step is a system call of the running process `i` that uses the entry. -/
structure UsedBy (env : FileEnv τ σ β) (fd : Int) (i : SlotId) (m : Machine (FileState τ σ β)) (e : Event)
    (m' : Machine (FileState τ σ β)) : Prop where
  caller : AtUser m.kernel i
  svc : e = .svc
  use : ∃ regs, m.cpu = .user regs ∧
    FdUse regs ((syscallDispatch env.toEnv regs m.kernel).1.arg 0) fd (m.fdAt fd) (m'.fdAt fd)

/-- What holds of the table of open files in a state that a run from `s₀` has reached. -/
structure DescriptorsHeld (env : FileEnv τ σ β) (s₀ s : Recorded τ σ β) : Prop where
  /-- A used entry was filled by a `SYS_OPEN` of its opener, and was never free since. -/
  opened : ∀ fd, (s.machine.fdAt fd).isSome = true → ∃ s₁ s₂ env' i, Run (recordedStep env) s₀ s₁ ∧
    env.Sibling env' ∧ s₁.next env' .svc = some s₂ ∧ s₁.machine.fdAt fd = none ∧
    UsedBy env' fd i s₁.machine .svc s₂.machine ∧ s.openers fd = some (s₁.machine.kernel.processes i).pid ∧
    Run (keepsStep env fd) s₂ s
  /-- An entry changes in no step but a system call on it, of any running process. -/
  changed : ∀ env' e s', env.Sibling env' → s.next env' e = some s' → ∀ fd,
    s'.machine.fdAt fd ≠ s.machine.fdAt fd → ∃ i, UsedBy env' fd i s.machine e s'.machine

theorem Recorded.next_machine {e : Event} (h : s.next env e = some s') :
    s.machine.next env.toEnv e = some s'.machine ∧ s'.openers = openersAfter s.machine s'.machine s.openers := by
  obtain ⟨m, hm, rfl⟩ := Option.map_eq_some_iff.mp h
  exact ⟨hm, rfl⟩

theorem recordedRun_machine (h : Run (recordedStep env) s s') :
    Run (machineStep env.toEnv AnyEvent) s.machine s'.machine := by
  induction h with
  | refl => exact .refl
  | tail _ hst ih =>
    obtain ⟨env', e, hsib, hnext⟩ := hst
    exact ih.tail ⟨env'.toEnv, e, hsib.toEnv, trivial, (Recorded.next_machine hnext).1⟩

/-- A step that changes an entry is a system call that uses it. -/
theorem next_usedBy (fd : Int) {e : Event} (hp : Placed s.machine) (h : s.next env e = some s')
    (hne : s'.machine.fdAt fd ≠ s.machine.fdAt fd) : ∃ i, UsedBy env fd i s.machine e s'.machine := by
  rcases env.unasked.next (Recorded.next_machine h).1 with hsame | ⟨regs, q, he, hc, -, hq, hother⟩
  · refine absurd ?_ hne
    unfold Machine.fdAt
    rw [hsame]
  · have hcpu := hp.cpu
    unfold CpuPlace at hcpu
    rw [hc] at hcpu
    obtain ⟨-, i, hat⟩ := hcpu
    refine ⟨i, hat, he, regs, hc, ?_⟩
    have hkept := other_fdKept hother fd
    rw [hq] at hkept
    exact hkept.resolve_left hne

theorem recordedRun_opened (hm : Booted s₀.machine) (hfree : ∀ fd, s₀.machine.fdAt fd = none)
    (hrun : Run (recordedStep env) s₀ s) (fd : Int) (hused : (s.machine.fdAt fd).isSome = true) :
    ∃ s₁ s₂ env' i, Run (recordedStep env) s₀ s₁ ∧ env.Sibling env' ∧ s₁.next env' .svc = some s₂ ∧
      s₁.machine.fdAt fd = none ∧ UsedBy env' fd i s₁.machine .svc s₂.machine ∧
      s.openers fd = some (s₁.machine.kernel.processes i).pid ∧ Run (keepsStep env fd) s₂ s := by
  induction hrun with
  | refl =>
    rw [hfree] at hused
    cases hused
  | @tail s s' hbefore hst ih =>
    obtain ⟨env', e, hsib, hnext⟩ := hst
    have hopeners := (Recorded.next_machine hnext).2
    obtain ⟨file', hfile'⟩ := Option.isSome_iff_exists.mp hused
    cases hfile : s.machine.fdAt fd with
    | none =>
      -- the step that has filled the entry
      obtain ⟨i, huse⟩ := next_usedBy fd (machineRun_placed hm (recordedRun_machine hbefore)) hnext
        (by rw [hfile, hfile']; simp)
      have he := huse.svc
      subst he
      refine ⟨s, s', env', i, hbefore, hsib, hnext, hfile, huse, ?_, .refl⟩
      rw [hopeners]
      unfold openersAfter callerPid
      rw [hfile, hfile', huse.caller.current]
      rfl
    | some file =>
      obtain ⟨s₁, s₂, env₁, i, h₁, hsib₁, hnext₁, hnone, huse, hpid, hkeep⟩ := ih (by rw [hfile]; rfl)
      refine ⟨s₁, s₂, env₁, i, h₁, hsib₁, hnext₁, hnone, huse, ?_, hkeep.tail ⟨⟨env', e, hsib, hnext⟩, ?_, hused⟩⟩
      · rw [hopeners]
        unfold openersAfter
        rw [hfile, hfile']
        exact hpid
      · rw [hfile]
        rfl

/-- The table of open files in every state of every run, and how it gets to the next one. -/
theorem machineRun_descriptors (hm : Booted s₀.machine) (hfree : ∀ fd, s₀.machine.fdAt fd = none)
    (hrun : Run (recordedStep env) s₀ s) : DescriptorsHeld env s₀ s where
  opened := recordedRun_opened hm hfree hrun
  changed _ _ _ _ hnext fd hne := next_usedBy fd (machineRun_placed hm (recordedRun_machine hrun)) hnext hne

/-! The sample machine with the boot filesystem and no FAT volume. The image of every program begins with the
path of the shell. -/

/-- The bytes of `shell`. -/
def samplePathName : Path := [115, 104, 101, 108, 108]

def sampleFileEnv : FileEnv Path Unit Unit where
  fs := ⟨0, 0, 0, 0, 0, 0, 0, 0, 0, false, false⟩
  callbacks := bootfsCallbacks sampleEnv.bootfsFind
  bootfsFind := sampleEnv.bootfsFind
  returnAddress := sampleEnv.returnAddress
  byte a := (armoniosRoot ++ samplePathName).getD ((a - 0x400000) % 0x10000) 0
  destroyWindows _ _ := ()
  poll _ _ := ()
  irqWork _ _ := ()
  inputQueuePollChar _ := (none, ())
  uartPuts _ _ := ()
  call _ _ := none

def sampleFiles : FileState Path Unit Unit where
  vfs := {
    nodes := [bootfsNode (armoniosRoot ++ samplePathName) samplePathName sampleImage]
    openFiles := Vector.replicate _ none
    world := ⟨[], ⟨fun _ => Sector.zero, none⟩, ()⟩ }
  others := ()

def sampleRecorded : Recorded Path Unit Unit where
  machine := {
    kernel := { sampleMachine.kernel with rest := sampleFiles }
    cpu := .kernel
    irqOn := true
    panel := firstSlot
    kernelPageTable := 0
    owed _ := none }
  openers _ := none

/-- The registers of the system call `nr` with one argument. -/
def sampleCall (nr arg : UInt64) : Event := .run ⟨setReg 0 arg (setReg 8 nr sampleRegs), 0x400100, spsrEl0t, 0x801000⟩

/-- The panel spawns the shell. -/
def sampleShell : List Event := [sampleBoot, .launch sampleRegs, sampleCall sysSpawnNr 0x400000, .svc]

theorem sampleRecorded_booted : Booted sampleRecorded.machine := ⟨rfl, rfl, fun _ => rfl⟩

theorem sampleRecorded_free (fd : Int) : sampleRecorded.machine.fdAt fd = none := by
  unfold Machine.fdAt vfsFdAt
  split
  · rfl
  · rename_i h
    have hlt : fd.toNat < vfsMaxOpenFiles := by omega
    have hget : sampleRecorded.machine.kernel.rest.vfs.openFiles[fd.toNat]? = some none := by
      rw [Vector.getElem?_eq_getElem hlt]
      exact congrArg some (Vector.getElem_replicate hlt)
    rw [hget]
    rfl

/-- The panel opens a file and yields to the shell. -/
def sampleOpenEvents : List Event :=
  sampleShell ++ [sampleCall sysOpenNr 0x400000, .svc, sampleCall sysYieldNr 0, .svc]

theorem machineRun_descriptors_sample : ∃ s : Recorded Path Unit Unit,
    Run (recordedStep sampleFileEnv) sampleRecorded s ∧ s.openers 0 = some 1 ∧ s.machine.kernel.current = some 1 ∧
      DescriptorsHeld sampleFileEnv sampleRecorded s := by
  have h : (sampleRecorded.run sampleFileEnv sampleOpenEvents).map
      (fun s => (s.openers 0, s.machine.kernel.current)) = some (some 1, some 1) := by decide +kernel
  obtain ⟨s, hs, hf⟩ := Option.map_eq_some_iff.mp h
  obtain ⟨hopener, hcur⟩ := Prod.mk.inj hf
  have hrun := Recorded.run_steps hs
  exact ⟨s, hrun, hopener, hcur, machineRun_descriptors sampleRecorded_booted sampleRecorded_free hrun⟩

/-- Every used entry has an opener that is there and has not ended. -/
def OpenersLive (s : Recorded τ σ β) : Prop :=
  ∀ fd, (s.machine.fdAt fd).isSome = true → ∃ i, s.openers fd = some (s.machine.kernel.processes i).pid ∧
    (s.machine.kernel.processes i).state ≠ .unused ∧ (s.machine.kernel.processes i).state ≠ .zombie

/-- A used entry changes only in steps of its opener. -/
def OpenersOnly (env : FileEnv τ σ β) (s : Recorded τ σ β) : Prop :=
  ∀ env' e s', env.Sibling env' → s.next env' e = some s' → ∀ fd, (s.machine.fdAt fd).isSome = true →
    s'.machine.fdAt fd ≠ s.machine.fdAt fd → callerPid s.machine.kernel = s.openers fd

/-- The shell opens a file and ends, and the panel waits for it. -/
def sampleLeftOpen : List Event :=
  sampleShell ++ [sampleCall sysYieldNr 0, .svc, sampleCall sysOpenNr 0x410000, .svc, sampleCall sysExitNr 0, .svc,
    sampleCall sysWaitNr 2, .svc]

/-- The descriptor of a process that is gone stays used, and the shell closes a descriptor that the panel has
opened. -/
theorem descriptors_outlive_openers :
    (∃ s, Run (recordedStep sampleFileEnv) sampleRecorded s ∧ s.openers 0 = some 2 ∧
      s.machine.kernel.current = some 0 ∧ ¬OpenersLive s) ∧
    ∃ s, Run (recordedStep sampleFileEnv) sampleRecorded s ∧ s.openers 0 = some 1 ∧
      callerPid s.machine.kernel = some 2 ∧ ¬OpenersOnly sampleFileEnv s := by
  constructor
  · have h : (sampleRecorded.run sampleFileEnv sampleLeftOpen).map (fun s =>
        (s.openers 0, s.machine.kernel.current, (s.machine.fdAt 0).isSome,
          slots.all fun i => (s.machine.kernel.processes i).pid ≠ 2)) = some (some 2, some 0, true, true) := by
      decide +kernel
    obtain ⟨s, hs, hf⟩ := Option.map_eq_some_iff.mp h
    simp only [Prod.mk.injEq] at hf
    obtain ⟨hopener, hcur, hused, hgone⟩ := hf
    refine ⟨s, Recorded.run_steps hs, hopener, hcur, fun hlive => ?_⟩
    obtain ⟨i, hi, -⟩ := hlive 0 hused
    rw [hopener] at hi
    have hne := List.all_eq_true.mp hgone i (List.mem_finRange i)
    exact of_decide_eq_true hne (Option.some.inj hi).symm
  · have h : (sampleRecorded.run sampleFileEnv (sampleOpenEvents ++ [sampleCall sysCloseNr 3])).map (fun s =>
        (s.openers 0, callerPid s.machine.kernel, (s.machine.fdAt 0).isSome,
          (s.next sampleFileEnv .svc).map fun s' => s'.machine.fdAt 0)) =
        some (some 1, some 2, true, some none) := by
      decide +kernel
    obtain ⟨s, hs, hf⟩ := Option.map_eq_some_iff.mp h
    simp only [Prod.mk.injEq] at hf
    obtain ⟨hopener, hcaller, hused, hnext⟩ := hf
    obtain ⟨s', hstep, hclosed⟩ := Option.map_eq_some_iff.mp hnext
    refine ⟨s, Recorded.run_steps hs, hopener, hcaller, fun honly => ?_⟩
    have hsame := honly _ _ _ (.refl _) hstep 0 hused (by
      rw [hclosed]
      intro heq
      rw [← heq] at hused
      cases hused)
    rw [hcaller, hopener] at hsame
    cases hsame

end Runs

end Armonios
