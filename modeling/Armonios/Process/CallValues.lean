import Armonios.Process.OpenFiles

/-!
# Values of system calls

Two places where a word of 64 bits is not what a caller takes it for.

* `sysWait_exact`: the value of `SYS_WAIT` is an exit code or an error, in the same register;
* `fdExact_iff`: the number of a descriptor loses its upper half on the way to the VFS.
-/

namespace Armonios

/-! ## Exit codes -/

section Wait

variable {ρ : Type} {pid : UInt64} {k : Kernel ρ} {i : SlotId}

/-- An error leaves the kernel as it is, and the exit code of a process that goes is the value. -/
structure WaitExact (pid : UInt64) (k : Kernel ρ) : Prop where
  error : (sysWait pid k).1 < 0 → (sysWait pid k).2 = k
  released : ∀ i, (k.processes i).state ≠ .unused → ((sysWait pid k).2.processes i).state = .unused →
    toWord (sysWait pid k).1 = (k.processes i).exitCode

/-- The process in slot `i` is the one that the call may release. -/
structure Waitable (pid : UInt64) (k : Kernel ρ) (i : SlotId) : Prop where
  number : pid ≠ 0 ∧ pid.toNat < 2 ^ 32
  found : processFind pid.toNat k = some i
  other : k.current ≠ some i
  zombie : (k.processes i).state = .zombie

theorem sysWait_waitable (h : Waitable pid k i) :
    sysWait pid k = ((k.processes i).exitCode.toInt64.toInt, processRelease i k) := by
  have hpid : ¬ (pid = 0 ∨ 2 ^ 32 ≤ pid.toNat) := fun hbad => hbad.elim h.number.1 (not_le.mpr h.number.2)
  have hwait : ¬ (k.current = some i ∨ (k.processes i).state ≠ .zombie) :=
    fun hbad => hbad.elim h.other fun hz => hz h.zombie
  unfold sysWait processWaitZombie
  rw [if_neg hpid, h.found]
  dsimp only
  rw [if_neg (not_not.mpr h.zombie), if_neg hwait]

theorem sysWait_not_waitable (h : ∀ i, ¬ Waitable pid k i) : (sysWait pid k).2 = k := by
  unfold sysWait processWaitZombie
  by_cases hpid : pid = 0 ∨ 2 ^ 32 ≤ pid.toNat
  · rw [if_pos hpid]
  rw [if_neg hpid]
  obtain ⟨h0, hlt⟩ := not_or.mp hpid
  cases hfind : processFind pid.toNat k with
  | none => rfl
  | some i =>
    dsimp only
    split
    · rfl
    · rename_i hzombie
      have hcurrent : k.current = some i := by
        by_contra hother
        exact h i ⟨⟨h0, not_le.mp hlt⟩, hfind, hother, not_not.mp hzombie⟩
      rw [if_pos (.inl hcurrent)]

theorem exitCode_toInt (code : UInt64) :
    code.toInt64.toInt = if code.toNat < 2 ^ 63 then (code.toNat : Int) else code.toNat - 2 ^ 64 := by
  have h : code.toInt64.toInt = if 2 * code.toNat < 2 ^ 64 then (code.toNat : Int) else code.toNat - (2 ^ 64 : Nat) :=
    BitVec.toInt_eq_toNat_cond code.toBitVec
  rw [h]
  split <;> split <;> omega

theorem exitCode_nonneg (code : UInt64) : 0 ≤ code.toInt64.toInt ↔ code.toNat < 2 ^ 63 := by
  have hlt := code.toNat_lt
  rw [exitCode_toInt]
  split <;> omega

/-- The register has the bits of the exit code. -/
theorem toWord_exitCode (code : UInt64) : toWord code.toInt64.toInt = code := by
  have hlt := code.toNat_lt
  unfold toWord UInt64.ofInt
  rw [exitCode_toInt, ← UInt64.toNat_inj, UInt64.toNat_ofNat']
  split <;> omega

theorem sysWait_exact (pid : UInt64) (k : Kernel ρ) :
    WaitExact pid k ↔ ∀ i, Waitable pid k i → (k.processes i).exitCode.toNat < 2 ^ 63 := by
  constructor
  · intro h i hi
    have hvalue := sysWait_waitable hi
    by_contra hbig
    -- the value is taken for an error, but the process is gone
    have hneg : (sysWait pid k).1 < 0 := by
      rw [hvalue]
      exact not_le.mp fun hnonneg => hbig ((exitCode_nonneg _).mp hnonneg)
    have hsame := h.error hneg
    rw [hvalue] at hsame
    have hunused := processRelease_unused i k
    have hzombie := hi.zombie
    rw [← hsame] at hzombie
    rw [hunused] at hzombie
    cases hzombie
  · intro h
    by_cases hany : ∃ i, Waitable pid k i
    · obtain ⟨i, hi⟩ := hany
      have hvalue := sysWait_waitable hi
      refine ⟨fun hneg => ?_, fun j hused hgone => ?_⟩
      · rw [hvalue] at hneg
        exact absurd ((exitCode_nonneg _).mpr (h i hi)) (not_le.mpr hneg)
      · rw [hvalue] at hgone ⊢
        have hj : j = i := by
          by_contra hne
          rw [(processRelease_zombie hi.zombie).1, Function.update_of_ne hne] at hgone
          exact hused hgone
        rw [hj]
        exact toWord_exitCode _
    · have hsame := sysWait_not_waitable (not_exists.mp hany)
      refine ⟨fun _ => hsame, fun j hused hgone => ?_⟩
      rw [hsame] at hgone
      exact absurd hgone hused

/-- The panel waits for process 2, which has called `sys_exit(-11)`. -/
def sampleExited (code : UInt64) : Kernel Unit :=
  { sampleMachine.kernel with
    processes := Function.update sampleMachine.kernel.processes secondSlot
      { processInit 2 [] with state := .zombie, exitCode := code }
    current := some firstSlot }

/-- The wait returns `ERR_AGAIN`, and the process is gone. -/
theorem exited_again : ¬ WaitExact 2 (sampleExited 0xfffffffffffffff5) := by
  intro h
  have hneg : (sysWait 2 (sampleExited 0xfffffffffffffff5)).1 < 0 := by decide +kernel
  have hstate : ((sysWait 2 (sampleExited 0xfffffffffffffff5)).2.processes secondSlot).state = .zombie := by
    rw [h.error hneg]
    rfl
  revert hstate
  decide +kernel

end Wait

/-! ## Descriptors -/

section Descriptors

variable {τ σ β α : Type} {env : FileEnv τ σ β} {k : FileKernel τ σ β} {fd : UInt64}

/-- The system calls on a descriptor, without the descriptor. -/
inductive FdCall
  | read (buf len : UInt64)
  | write (buf len : UInt64)
  | seek (offset whence : UInt64)
  | close

def FdCall.run (env : FileEnv τ σ β) (fd : UInt64) (k : FileKernel τ σ β) : FdCall → Int × FileState τ σ β
  | read buf len => env.sysRead fd buf len k
  | write buf len => env.sysWrite fd buf len k
  | seek offset whence => env.sysSeek fd offset whence k
  | close => FileEnv.sysClose fd k

/-- The call works on the open file with the number that it is given, or is refused. -/
structure FdExact (env : FileEnv τ σ β) (fd : UInt64) (k : FileKernel τ σ β) (call : FdCall) : Prop where
  acts : ∀ n : Int, vfsFdAt (call.run env fd k).2.vfs n ≠ vfsFdAt k.rest.vfs n → (fd.toNat : Int) = 3 + n
  refused : 3 ≤ fd.toNat → (∀ n : Int, (fd.toNat : Int) = 3 + n → vfsFdAt k.rest.vfs n = none) →
    (call.run env fd k).1 < 0 ∧ (call.run env fd k).2 = k.rest

/-- No open file has the number of `fd` modulo 2^32 but not `fd` itself. -/
def NoAlias (fd : UInt64) (k : FileKernel τ σ β) : Prop :=
  3 ≤ fd.toNat → ∀ n : Nat, (vfsFdAt k.rest.vfs n).isSome → (fd.toNat - 3) % 2 ^ 32 = n → fd.toNat = 3 + n

theorem fdFileBase_le : fdFileBase ≤ fd ↔ 3 ≤ fd.toNat := by
  rw [UInt64.le_iff_toNat_le]
  rfl

theorem fileFd_toNat (h : 3 ≤ fd.toNat) : fileFd fd = toInt32 ((fd.toNat - 3) % 2 ^ 32) := by
  unfold fileFd
  rw [UInt64.toNat_sub_of_le _ _ (fdFileBase_le.mpr h)]
  rfl

/-- The number that the VFS gets is the one that the program gave, if that file is open. -/
theorem NoAlias.fileFd (h : NoAlias fd k) (hfd : 3 ≤ fd.toNat) (hopen : vfsFdAt k.rest.vfs (fileFd fd) ≠ none) :
    (fd.toNat : Int) = 3 + Armonios.fileFd fd := by
  obtain ⟨file, hfile⟩ := Option.ne_none_iff_exists'.mp hopen
  obtain ⟨h0, hlt⟩ := fdAt_lt hfile
  rw [fileFd_toNat hfd] at hfile h0 hlt ⊢
  unfold toInt32 at hfile h0 hlt ⊢
  split at hlt
  · rename_i hsmall
    rw [if_pos hsmall] at hfile
    have := h hfd ((fd.toNat - 3) % 2 ^ 32) (by rw [hfile]; rfl) rfl
    rw [if_pos hsmall]
    omega
  · rename_i hbig
    rw [if_neg hbig] at h0
    omega

/-! ### One call of the VFS -/

/-- What a call of the VFS on the descriptor `n` may do. -/
def OnFd (n : Int) (m : FatVfsM τ σ α) (v : FatVfs τ σ) : Prop :=
  Wp m v (fun _ v' => vfsFdAt v n ≠ none ∧ ∀ i, i ≠ n → vfsFdAt v' i = vfsFdAt v i)
    fun _ v' => (∀ i, vfsFdAt v' i = vfsFdAt v i) ∧ (vfsFdAt v n = none → v' = v)

theorem fdNode_closed {n : Int} {f : VfsOpenFile × VfsNode (FatCtx τ) → FatVfsM τ σ α} {v : FatVfs τ σ}
    (h : vfsFdAt v n = none) : Wp (vfsFdNode n >>= f) v (fun _ _ => False) fun _ v' => v' = v := by
  refine wp_bind.mpr (Wp.mono (fdNode_spec n v) (fun p v' hp => ?_) fun _ _ hv => hv)
  rw [h] at hp
  cases hp.2.1

/-- A call that fails on a closed descriptor, and at its end replaces the open file. -/
theorem onFd_of {n : Int} {m : FatVfsM τ σ α} {v : FatVfs τ σ} {Q : α → FatVfs τ σ → Prop}
    (hclosed : vfsFdAt v n = none → Wp m v (fun _ _ => False) fun _ v' => v' = v)
    (h : Wp m v Q fun _ v' => SameTable v v')
    (hput : ∀ a v', Q a v' → ∃ v₁ file, SameTable v v₁ ∧ v' = putFd v₁ n file) : OnFd n m v := by
  cases hfile : vfsFdAt v n with
  | none =>
    refine Wp.mono (hclosed hfile) (fun _ _ hno => hno.elim) fun _ v' hv => ?_
    rw [hv]
    exact ⟨fun _ => rfl, fun _ => rfl⟩
  | some file =>
    obtain ⟨h0, hlt⟩ := fdAt_lt hfile
    refine Wp.mono h (fun a v' hq => ?_) fun _ v' hs => ⟨hs.fdAt, fun hno => ?_⟩
    · obtain ⟨v₁, file', hs, rfl⟩ := hput a v' hq
      refine ⟨by simp [hfile], fun i hi => ?_⟩
      rw [fdAt_putFd h0 hlt, if_neg hi, hs.fdAt]
    · rw [hfile] at hno
      cases hno

theorem onFd_read (cb : Callbacks (FatCtx τ) (FatWorld σ)) (n : Int) (cap : Nat) (v : FatVfs τ σ) :
    OnFd n (vfsReadFd cb n cap) v := by
  refine onFd_of fdNode_closed (readFd_moves n cap v) fun bytes v' h => ?_
  obtain ⟨file, node, v₁, -, -, -, -, hs, hput⟩ := h
  exact ⟨v₁, _, hs, hput⟩

theorem onFd_write (cb : Callbacks (FatCtx τ) (FatWorld σ)) (n : Int) (buf : List UInt8) (v : FatVfs τ σ) :
    OnFd n (vfsWriteFd cb n buf) v := by
  refine onFd_of fdNode_closed (writeFd_moves n buf v) fun count v' h => ?_
  obtain ⟨file, v₁, -, -, hs, hput⟩ := h
  exact ⟨v₁, _, hs, hput⟩

theorem onFd_seek (cb : Callbacks (FatCtx τ) (FatWorld σ)) (n : Int) (off : Nat) (v : FatVfs τ σ) :
    OnFd n (vfsSeek cb n off) v := by
  refine onFd_of fdNode_closed (seek_moves n off v) fun _ v' h => ?_
  obtain ⟨file, v₁, -, hs, hput⟩ := h
  exact ⟨v₁, _, hs, hput⟩

theorem onFd_close (n : Int) (v : FatVfs τ σ) : OnFd n (vfsClose n) v := by
  refine onFd_of (fun h => ?_) (close_frees n v) fun _ v' hput => ⟨v, none, SameTable.rfl, hput.2⟩
  unfold vfsClose
  refine wp_bind.mpr (wp_get.mpr ?_)
  rw [h]
  rfl

/-! ### The system calls -/

/-- A result that leaves the VFS alone, and is an error unless the number is below `FD_FILE_BASE`. -/
theorem fdExact_aside {call : FdCall} (hvfs : (call.run env fd k).2.vfs = k.rest.vfs)
    (hrest : 3 ≤ fd.toNat → (call.run env fd k).1 < 0 ∧ (call.run env fd k).2 = k.rest) :
    FdExact env fd k call where
  acts n hne := absurd (by rw [hvfs]) hne
  refused hfd _ := hrest hfd

theorem fdExact_refused {call : FdCall} {err : Int} (hrun : call.run env fd k = (err, k.rest)) (herr : err < 0) :
    FdExact env fd k call := by
  refine fdExact_aside ?_ fun _ => ?_
  · rw [hrun]
  · rw [hrun]
    exact ⟨herr, rfl⟩

theorem fdExact_onVfs {call : FdCall} {m : FatVfsM τ σ α} {f : α → Int}
    (hrun : call.run env fd k = onVfs m f errBadf k.rest) (hfd : 3 ≤ fd.toNat) (h : OnFd (fileFd fd) m k.rest.vfs)
    (halias : NoAlias fd k) : FdExact env fd k call := by
  have hother : vfsFdAt k.rest.vfs (fileFd fd) ≠ none → (fd.toNat : Int) = 3 + fileFd fd := halias.fileFd hfd
  cases hm : m k.rest.vfs with
  | ok a v' =>
    obtain ⟨hopen, hsame⟩ := h.of_ok hm
    have hvalue : call.run env fd k = (f a, { k.rest with vfs := v' }) := by
      rw [hrun, onVfs, hm]
    refine ⟨fun n hne => ?_, fun _ hclosed => absurd (hclosed _ (hother hopen)) hopen⟩
    rw [hvalue] at hne
    by_cases hn : n = fileFd fd
    · rw [hn]
      exact hother hopen
    · exact absurd (hsame n hn) hne
  | error e v' =>
    obtain ⟨hsame, hnone⟩ := h.of_error hm
    have hvalue : call.run env fd k = (errBadf, { k.rest with vfs := v' }) := by
      rw [hrun, onVfs, hm]
    refine ⟨fun n hne => ?_, fun _ hclosed => ?_⟩
    · rw [hvalue] at hne
      exact absurd (hsame n) hne
    · have hv' : v' = k.rest.vfs := hnone (by_contra fun hopen => hopen (hclosed _ (hother hopen)))
      have herr : errBadf < 0 := by decide
      rw [hvalue, hv']
      exact ⟨herr, rfl⟩

theorem fdExact_file (h : NoAlias fd k) (hfd : 3 ≤ fd.toNat) (call : FdCall) : FdExact env fd k call := by
  have hbase : fdFileBase ≤ fd := fdFileBase_le.mpr hfd
  have hlow : ¬ fd < fdFileBase := UInt64.not_lt.mpr hbase
  have hstdin : fd ≠ fdStdin := by
    rintro rfl
    exact absurd hfd (by decide)
  cases call with
  | read buf len =>
    by_cases hbuf : bufArgument k buf len = false
    · have hrun : (FdCall.read buf len).run env fd k = (errInval, k.rest) := by
        rw [FdCall.run, FileEnv.sysRead, if_neg hstdin, if_neg hlow, if_pos hbuf]
      exact fdExact_refused hrun (by decide)
    · refine fdExact_onVfs (f := fun bytes => bytes.length) ?_ hfd (onFd_read env.allCallbacks _ len.toNat _) h
      rw [FdCall.run, FileEnv.sysRead, if_neg hstdin, if_neg hlow, if_neg hbuf]
  | write buf len =>
    by_cases hbuf : bufArgument k buf len = false
    · have hrun : (FdCall.write buf len).run env fd k = (errInval, k.rest) := by
        rw [FdCall.run, FileEnv.sysWrite, if_pos hbuf]
      exact fdExact_refused hrun (by decide)
    · have hon := onFd_write env.allCallbacks (fileFd fd) (env.bufBytes buf len) k.rest.vfs
      refine fdExact_onVfs (f := fun count : Nat => count) ?_ hfd hon h
      rw [FdCall.run, FileEnv.sysWrite, if_neg hbuf, if_pos hbase]
  | seek offset whence =>
    by_cases hwhence : whence = 0
    · refine fdExact_onVfs (f := fun _ => offset.toNat) ?_ hfd (onFd_seek env.allCallbacks _ offset.toNat _) h
      rw [FdCall.run, FileEnv.sysSeek, if_neg (not_or.mpr ⟨hlow, not_not.mpr hwhence⟩)]
    · have hrun : (FdCall.seek offset whence).run env fd k = (errInval, k.rest) := by
        rw [FdCall.run, FileEnv.sysSeek, if_pos (.inr hwhence)]
      exact fdExact_refused hrun (by decide)
  | close =>
    refine fdExact_onVfs (f := fun _ => 0) ?_ hfd (onFd_close _ _) h
    rw [FdCall.run, FileEnv.sysClose, if_neg hlow]

/-- The numbers below `FD_FILE_BASE` are not looked up in the VFS. -/
theorem fdExact_stdio (hfd : ¬ 3 ≤ fd.toNat) (call : FdCall) : FdExact env fd k call := by
  have hbase : ¬ fdFileBase ≤ fd := fun hle => hfd (fdFileBase_le.mp hle)
  have hlow : fd < fdFileBase := UInt64.not_le.mp hbase
  refine fdExact_aside ?_ fun h => absurd h hfd
  cases call with
  | read buf len =>
    rw [FdCall.run, FileEnv.sysRead, if_pos hlow]
    split_ifs <;> rfl
  | write buf len =>
    rw [FdCall.run, FileEnv.sysWrite, if_neg hbase]
    split_ifs <;> rfl
  | seek offset whence => rw [FdCall.run, FileEnv.sysSeek, if_pos (.inl hlow)]
  | close => rw [FdCall.run, FileEnv.sysClose, if_pos hlow]

/-- The open file that a close with an alias of its number frees. -/
theorem close_alias (env : FileEnv τ σ β) (hfd : 3 ≤ fd.toNat) {n : Nat} (hopen : (vfsFdAt k.rest.vfs n).isSome)
    (hn : (fd.toNat - 3) % 2 ^ 32 = n) : vfsFdAt (FdCall.close.run env fd k).2.vfs n = none := by
  have hlow : ¬ fd < fdFileBase := UInt64.not_lt.mpr (fdFileBase_le.mpr hfd)
  obtain ⟨file, hfile⟩ := Option.isSome_iff_exists.mp hopen
  obtain ⟨h0, hlt⟩ := fdAt_lt hfile
  have hnumber : fileFd fd = n := by
    have hmax : vfsMaxOpenFiles < 2 ^ 31 := by decide
    rw [fileFd_toNat hfd, hn, toInt32, if_pos (by omega)]
  have hrun : vfsClose (fileFd fd) k.rest.vfs = .ok () (putFd k.rest.vfs n none) := by
    refine Wp.eq_ok ?_
    unfold vfsClose
    refine wp_bind.mpr (wp_get.mpr ?_)
    rw [hnumber, hfile]
    exact wp_modify.mpr ⟨rfl, rfl⟩
  rw [FdCall.run, FileEnv.sysClose, if_neg hlow, onVfs, hrun]
  show vfsFdAt (putFd k.rest.vfs n none) n = none
  rw [fdAt_putFd h0 hlt, if_pos rfl]

theorem fdExact_iff (env : FileEnv τ σ β) (fd : UInt64) (k : FileKernel τ σ β) :
    (∀ call, FdExact env fd k call) ↔ NoAlias fd k := by
  constructor
  · intro h hfd n hopen hn
    have hclosed := close_alias env hfd hopen hn
    have hnumber := (h .close).acts n (by
      intro hsame
      rw [← hsame, hclosed] at hopen
      cases hopen)
    omega
  · intro h call
    by_cases hfd : 3 ≤ fd.toNat
    · exact fdExact_file h hfd call
    · exact fdExact_stdio hfd call

/-- The panel has opened a file. -/
def sampleOneOpen : FileKernel Path Unit Unit :=
  { sampleMachine.kernel with
    rest := { sampleFiles with
      vfs := { sampleFiles.vfs with
        openFiles := sampleFiles.vfs.openFiles.setIfInBounds 0 (some ⟨0, 0, vfsORdonly⟩) } } }

/-- `sys_close(2^32 + 3)` closes the descriptor 0 of the VFS. -/
theorem close_wraps : ¬ ∀ call, FdExact sampleFileEnv 0x100000003 sampleOneOpen call := by
  intro h
  have hsame := mt ((h .close).acts 0) (by decide)
  revert hsame
  decide +kernel

end Descriptors

end Armonios
