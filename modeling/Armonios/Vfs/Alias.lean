import Armonios.Vfs.Handle

/-!
# Two paths of one FAT file

Two spellings of an 8.3 name are two paths of `/fat/` and one directory entry. Each path gets a VFS
node with a handle of its own, and a write through one handle changes the entry and its own handle
only. `Contents` is what a file system without handles would hold: the bytes of every short name, as
the completed writes left them. The paths of one file agree (`AliasHolds`) while a write either finds
no second handle for its file or ends where the file ends (`AliasMeets`), so that what the handles
copy stays as it is.

* `vfsRun_aliasHolds`: in every run of opens, reads, writes, seeks, closes and stats with such writes.
-/

namespace Armonios

variable {τ ρ : Type} {fs : Fat32Fs} {other : Callbacks τ ρ} {r : List Nat} {v v' : FatVfs τ ρ}
  {disk disk' : Nat → Sector} {s t : Slot} {l l' m : List Nat} {w : List UInt8}

/-! ## Contents -/

/-- The bytes of every short name. -/
abbrev Contents := List UInt8 → List UInt8

open Classical in
/-- What the disk holds for a short name; nothing where there is no file. -/
noncomputable def fileContents (fs : Fat32Fs) (r : List Nat) (disk : Nat → Sector) : Contents := fun w =>
  if h : ∃ p : Slot × List Nat, p.1 ∈ slotsOf fs r ∧ Hit w disk p.1 ∧ FileChain fs disk p.1 p.2 then
    fileBytes fs disk h.choose.1 h.choose.2
  else []

theorem fileContents_hit (ht : Tidy fs r disk) (hs : s ∈ slotsOf fs r) (hit : Hit w disk s)
    (hc : FileChain fs disk s l) : fileContents fs r disk w = fileBytes fs disk s l := by
  have hex : ∃ p : Slot × List Nat, p.1 ∈ slotsOf fs r ∧ Hit w disk p.1 ∧ FileChain fs disk p.1 p.2 :=
    ⟨(s, l), hs, hit, hc⟩
  unfold fileContents
  rw [dif_pos hex]
  obtain ⟨h1, h2, h3⟩ := hex.choose_spec
  have hslot := ht.unique h1 hs h2 hit
  rw [hslot] at h3
  rw [hslot, hc.unique h3]

theorem fileContents_none (h : ∀ s ∈ slotsOf fs r, ¬Hit w disk s) : fileContents fs r disk w = [] := by
  unfold fileContents
  rw [dif_neg]
  rintro ⟨p, hp, hit, -⟩
  exact h p.1 hp hit

/-- The contents of a short name depend on the file that has it. -/
theorem fileContents_congr (hv : Volume fs allLive r disk) (ht : Tidy fs r disk) (ht' : Tidy fs r disk')
    (hhit : ∀ s ∈ slotsOf fs r, Hit w disk' s → Hit w disk s)
    (hkeep : ∀ s ∈ slotsOf fs r, Hit w disk s → ∀ l, FileChain fs disk s l →
      Hit w disk' s ∧ FileChain fs disk' s l ∧ fileBytes fs disk' s l = fileBytes fs disk s l) :
    fileContents fs r disk' w = fileContents fs r disk w := by
  by_cases hex : ∃ s ∈ slotsOf fs r, Hit w disk s
  · obtain ⟨s, hs, hit⟩ := hex
    obtain ⟨l, hl, -⟩ := hv.fileChain allLive_selectsFiles hs hit.1 hit.2.1
    obtain ⟨h1, h2, h3⟩ := hkeep s hs hit l hl
    rw [fileContents_hit ht' hs h1 h2, fileContents_hit ht hs hit hl, h3]
  · rw [fileContents_none fun s hs hit => hex ⟨s, hs, hhit s hs hit⟩,
      fileContents_none fun s hs hit => hex ⟨s, hs, hit⟩]

theorem fileBytes_length (hfit : slotSize disk s ≤ l.length * clusterBytesOf fs) :
    (fileBytes fs disk s l).length = slotSize disk s := by
  unfold fileBytes
  rw [List.length_take, length_chainBytes]
  omega

/-- The other files of a new file's directory. -/
theorem Created.other_file {b : Nat} (h : Created fs allLive r w s b disk disk')
    (hv : Volume fs allLive r disk) (ht : t ∈ slotsOf fs r) (hl : LiveFile disk t)
    (hc : FileChain fs disk t l) :
    SameEntry disk disk' t ∧ FileChain fs disk' t l ∧ fileBytes fs disk' t l = fileBytes fs disk t l := by
  have hts : t ≠ s := by
    rintro rfl
    rcases h.slot.1 with h0 | h0
    · exact hl.1.1 h0
    · exact hl.1.2.1 h0
  have hsame := h.others t ht hts
  have hfresh : b ∉ l := by
    intro hb
    rcases hc with ⟨h2, hc⟩ | ⟨-, rfl⟩
    · exact hv.fresh_of_free h.free _ _ _ (heads_of_file allLive_selectsFiles ht hl.1 hl.2 h2) hc hb
    · cases hb
  refine ⟨hsame, hc.keep hv ht hl hsame fun x hx hxd => h.next x hxd (ne_of_mem_of_not_mem hx hfresh), ?_⟩
  have hbytes : chainBytes fs disk' l = chainBytes fs disk l := by
    rcases hc with ⟨h2, hc⟩ | ⟨-, rfl⟩
    · have hhead := heads_of_file allLive_selectsFiles ht hl.1 hl.2 h2
      refine lbaBytes_congr fun lba hlba => h.data lba (dataBase_le_of_mem hlba) ?_ fun he => ?_
      · intro hcell
        refine chainLbas_disjoint (m := [b]) (fun _ hx => hv.family.ok_of_mem hhead hc hx)
          (by simpa using h.inData) (fun x hx hxb => ?_) hlba (mem_chainLbas.mpr ⟨b, by simp, hcell⟩)
        exact hfresh (List.mem_singleton.mp hxb ▸ hx)
      · exact hv.root_disjoint hhead hc hlba (by rw [he]; exact (mem_slotsOf.mp h.slot.mem).1)
    · simp [chainBytes, chainLbas, lbaBytes]
  unfold fileBytes
  rw [hbytes, hsame.size]

/-- A new file is empty, as a short name without a file is. -/
theorem fileContents_created {b : Nat} {name : Path} {d d' : Dev} (hok : FatOk fs r d) (hok' : FatOk fs r d')
    (hw : makeShortName name = some w) (hcr : Created fs allLive r w s b d.disk d'.disk)
    (hno : ¬∃ s l, Openable fs r d.disk name s l) :
    fileContents fs r d'.disk = fileContents fs r d.disk := by
  funext u
  by_cases huw : u = w
  · subst huw
    rw [fileContents_none fun t ht => hok.tidy.no_hit hok.volume hw hno ht]
    by_cases hlive : Hit u d'.disk s
    · obtain ⟨l, hl, -⟩ := hok'.volume.fileChain allLive_selectsFiles hcr.slot.mem hlive.1 hlive.2.1
      rw [fileContents_hit hok'.tidy hcr.slot.mem hlive hl]
      unfold fileBytes
      rw [hcr.size, List.take_zero]
    · refine fileContents_none fun t ht hit => ?_
      by_cases hts : t = s
      · exact hlive (hts ▸ hit)
      · exact hok.tidy.no_hit hok.volume hw hno ht ((hcr.others t ht hts).hit.mp hit)
  · refine fileContents_congr hok.volume hok.tidy hok'.tidy (fun t ht hit => ?_) fun t ht hit l hl => ?_
    · have hts : t ≠ s := by
        rintro rfl
        exact huw (hit.2.2.symm.trans hcr.name)
      exact (hcr.others t ht hts).hit.mp hit
    · obtain ⟨h1, h2, h3⟩ := hcr.other_file hok.volume ht hit.liveFile hl
      exact ⟨h1.hit.mpr hit, h2, h3⟩

/-- A write changes the contents of its own file only. -/
theorem fileContents_touched (hv : Volume fs allLive r disk) (ht : Tidy fs r disk) (ht' : Tidy fs r disk')
    (hs : s ∈ slotsOf fs r) (hl : LiveFile disk s) (hc : FileChain fs disk s l)
    (h : Touched fs allLive r s l disk l' disk') :
    fileContents fs r disk' = Function.update (fileContents fs r disk)
      (entryName (disk s.lba) s.offset) (fileBytes fs disk' s l') := by
  funext u
  by_cases hu : u = entryName (disk s.lba) s.offset
  · subst hu
    have hit : Hit (entryName (disk s.lba) s.offset) disk' s := (h.hit hs).mpr ⟨hl.1, hl.2, rfl⟩
    rw [Function.update_self, fileContents_hit ht' hs hit h.chain]
  · rw [Function.update_of_ne hu]
    refine fileContents_congr hv ht ht' (fun t htm hit => (h.hit htm).mp hit) fun t htm hit m hm => ?_
    have hts : t ≠ s := by
      rintro rfl
      exact hu hit.2.2.symm
    obtain ⟨h1, h2⟩ := h.other_file hv hs hl.1 rfl hc htm hts hit.1 rfl hm
    exact ⟨(h.hit htm).mpr hit, h1, h2⟩

/-! ## Runs -/

/-- The state of a run: the VFS, and the contents as the completed writes left them. -/
structure AliasRun (τ ρ : Type) where
  vfs : FatVfs τ ρ
  contents : Contents

/-- The calls of a run: all but unlink and rename. -/
def VfsOp.keepsNames : VfsOp → Bool
  | .unlink _ => false
  | .rename _ _ => false
  | _ => true

/-- The contents after a call: a completed write puts its buffer after what stood before its offset.
Nothing is said of a write that failed; then they are what the disk has. -/
noncomputable def contentsAfter (fs : Fat32Fs) (other : Callbacks τ ρ) (r : List Nat) (v : FatVfs τ ρ)
    (op : VfsOp) (c : Contents) : Contents :=
  match op.fatWrite v with
  | none => c
  | some (i, off, buf) =>
    match v.world.files[i]? with
    | none => c
    | some file =>
      let w := entryName (v.world.dev.disk file.slot.lba) file.slot.offset
      Function.update c w (if op.ok fs other v then (c w).take off ++ buf
        else fileContents fs r (op.next fs other v).world.dev.disk w)

/-- One call that satisfies `cond`. -/
def aliasStep (fs : Fat32Fs) (other : Callbacks τ ρ) (r : List Nat) (cond : FatVfs τ ρ → VfsOp → Prop)
    (st st' : AliasRun τ ρ) : Prop :=
  ∃ op : VfsOp, op.keepsNames = true ∧ Supplied fs r st.vfs op ∧ cond st.vfs op ∧
    st'.vfs = op.next fs other st.vfs ∧ st'.contents = contentsAfter fs other r st.vfs op st.contents

/-- What the paths of FAT files show: the contents of their short name, whatever the spelling; and the
handles have the chains of a well-formed volume. -/
structure AliasHolds (fs : Fat32Fs) (other : Callbacks τ ρ) (r : List Nat) (st : AliasRun τ ρ) : Prop where
  stat : ∀ p name w k node i, vfsFind st.vfs.nodes p = some k → st.vfs.nodes[k]? = some node →
    node.context = .fat i → vfsFat32RootName p = some name → makeShortName name = some w →
    vfsStat (fatCallbacks fs other) p st.vfs = .ok (st.contents w).length st.vfs
  read : ∀ p name w k node i, vfsFind st.vfs.nodes p = some k → st.vfs.nodes[k]? = some node →
    node.context = .fat i → vfsFat32RootName p = some name → makeShortName name = some w →
    ∀ off cap, off ≤ (st.contents w).length →
      vfsRead (fatCallbacks fs other) p off cap st.vfs = .ok (((st.contents w).drop off).take cap) st.vfs
  whole : Volume fs allLive r st.vfs.world.dev.disk
  chains : ∀ (i : Nat) file, st.vfs.world.files[i]? = some file →
    ∃ l, FreshHandle fs r st.vfs.world.dev.disk file l

/-- The condition on a call: a write finds no second handle for its file, or it ends where the file
ends, or it starts behind the end and fails. -/
def AliasMeets (v : FatVfs τ ρ) (op : VfsOp) : Prop :=
  ∀ i off buf file, op.fatWrite v = some (i, off, buf) → v.world.files[i]? = some file →
    (∀ (j : Nat) file', j ≠ i → v.world.files[j]? = some file' → file'.slot ≠ file.slot) ∨
      off + buf.length = file.size ∨ file.size < off

/-- The node of a FAT file: its path has the short name of the file. -/
structure NodeOk (r : List Nat) (v : FatVfs τ ρ) (node : VfsNode (FatCtx τ)) (i : Nat) : Prop where
  file : ∃ name w file, vfsFat32RootName node.path = some name ∧ makeShortName name = some w ∧
    v.world.files[i]? = some file ∧ Hit w v.world.dev.disk file.slot
  read : node.read = true
  stat : node.stat = true

structure AliasInv (fs : Fat32Fs) (r : List Nat) (st : AliasRun τ ρ) : Prop where
  fat : FatOk fs r st.vfs.world.dev
  contents : st.contents = fileContents fs r st.vfs.world.dev.disk
  fresh : ∀ (i : Nat) file, st.vfs.world.files[i]? = some file →
    ∃ l, FreshHandle fs r st.vfs.world.dev.disk file l
  nodes : ∀ (k : Nat) node i, st.vfs.nodes[k]? = some node → node.context = .fat i → NodeOk r st.vfs node i

/-! ## What the paths show -/

theorem vfsFind_some {κ : Type} {nodes : List (VfsNode κ)} {p : Path} {k : Nat} {node : VfsNode κ}
    (h : vfsFind nodes p = some k) (hk : nodes[k]? = some node) : node.path = p := by
  unfold vfsFind at h
  split at h
  · cases h
  · obtain ⟨hlt, hp, -⟩ := List.findIdx?_eq_some_iff_getElem.mp h
    obtain ⟨hlt', rfl⟩ := List.getElem?_eq_some_iff.mp hk
    simpa using hp

/-- A program on the handle `i` that returns and leaves the handle and the device alone. -/
theorem onFatFile_returns {α : Type} {m : FileIo α} {i : Nat} {file : Fat32File} {a : α}
    (hi : v.world.files[i]? = some file)
    (h : m ⟨file, v.world.dev⟩ = .ok a ⟨file, v.world.dev⟩) :
    (onWorld (onFatFile i m) : FatVfsM τ ρ α) v = .ok a v := by
  unfold onWorld onPart onFatFile
  simp only [hi]
  unfold onPart
  simp only [h, set_same hi]

/-- `vfs_stat` and `vfs_read` show the contents `c` under the path, and leave the state as it is. -/
structure ShowsFile {κ ω : Type} (cb : Callbacks κ ω) (v : Vfs κ ω) (p : Path) (c : List UInt8) : Prop where
  stat : vfsStat cb p v = .ok c.length v
  read : ∀ off cap, off ≤ c.length → vfsRead cb p off cap v = .ok ((c.drop off).take cap) v

theorem nodeOf_returns {κ ω : Type} {v : Vfs κ ω} {p : Path} {k : Nat} {node : VfsNode κ}
    (hk : vfsFind v.nodes p = some k) (hnode : v.nodes[k]? = some node) :
    (vfsNodeOf p : VfsM κ ω _) v = .ok node v := by
  have hb : (vfsFind v.nodes p >>= (v.nodes[·]?)) = some node := by
    rw [hk]
    exact hnode
  refine Wp.eq_ok (wp_bind.mpr (wp_get.mpr ?_))
  simp only [hb]
  exact ⟨rfl, rfl⟩

/-- A node whose callbacks do so. -/
theorem showsFile_of_node {κ ω : Type} {cb : Callbacks κ ω} {v : Vfs κ ω} {p : Path} {k : Nat} {node : VfsNode κ}
    {c : List UInt8} (hk : vfsFind v.nodes p = some k) (hnode : v.nodes[k]? = some node) (hread : node.read = true)
    (hsize : vfsNodeSize cb node v = .ok c.length v)
    (hcb : ∀ off cap, off ≤ c.length →
      (onWorld (cb.read node.context off cap) : VfsM κ ω _) v = .ok ((c.drop off).take cap) v) :
    ShowsFile cb v p c := by
  have hof := nodeOf_returns (ω := ω) hk hnode
  refine ⟨Wp.eq_ok (wp_bind.mpr (wp_of_ok hof (wp_of_ok hsize ⟨rfl, rfl⟩))), fun off cap hoff => ?_⟩
  have hvalid : vfsReadResultValid off c.length cap ((c.drop off).take cap).length = true := by
    unfold vfsReadResultValid
    rw [List.length_take, List.length_drop]
    simp only [Bool.and_eq_true, decide_eq_true_eq]
    omega
  refine Wp.eq_ok (wp_bind.mpr (wp_of_ok hof ?_))
  unfold readNode
  refine wp_guard (fun h => by rw [hread] at h; cases h) fun _ => wp_bind.mpr (wp_of_ok hsize ?_)
  refine wp_guard (fun h => absurd hoff (by omega)) fun _ => wp_bind.mpr (wp_of_ok (hcb off cap hoff) ?_)
  exact wp_guard (fun h => by rw [hvalid] at h; cases h) fun _ => ⟨rfl, rfl⟩

theorem FreshHandle.nodeSize {i : Nat} {node : VfsNode (FatCtx τ)} {file : Fat32File} (hctx : node.context = .fat i)
    (hstat : node.stat = true) (hfile : v.world.files[i]? = some file) :
    vfsNodeSize (fatCallbacks fs other) node v = .ok file.size v := by
  unfold vfsNodeSize
  rw [hstat, if_pos rfl, hctx]
  exact onFatFile_returns hfile rfl

/-- A node with a fresh handle shows the bytes on the disk. -/
theorem FreshHandle.view {p : Path} {k i : Nat} {node : VfsNode (FatCtx τ)} {file : Fat32File}
    (hf : FreshHandle fs r v.world.dev.disk file l) (hok : FatOk fs r v.world.dev)
    (hk : vfsFind v.nodes p = some k) (hnode : v.nodes[k]? = some node) (hctx : node.context = .fat i)
    (hread : node.read = true) (hstat : node.stat = true) (hfile : v.world.files[i]? = some file) :
    ShowsFile (fatCallbacks fs other) v p (fileBytes fs v.world.dev.disk file.slot l) := by
  have hl : ∀ x ∈ l, InData fs x := by
    obtain ⟨l', hl', hin⟩ := hok.volume.fileChain allLive_selectsFiles hf.mem hf.live.1 hf.live.2
    rw [hl'.unique hf.chain]
    exact hin
  have hlong := (hok.tidy.fits _ hf.mem hf.live l hf.chain).1
  have hlen : (fileBytes fs v.world.dev.disk file.slot l).length = file.size := by
    rw [fileBytes_length hlong, hf.size]
  refine showsFile_of_node hk hnode hread ?_ fun off cap hoff => ?_
  · rw [hlen]
    exact FreshHandle.nodeSize hctx hstat hfile
  · rw [hlen] at hoff
    have hbytes : fat32Read fs file off cap v.world.dev =
        .ok (((fileBytes fs v.world.dev.disk file.slot l).drop off).take cap) v.world.dev :=
      read_returns hok.volume.geometry hok.reliable (by rw [hf.agrees]; rfl) hf.size hf.chain hl hlong
        (by rw [← hf.size]; exact hoff)
    rw [hctx]
    refine onFatFile_returns hfile (Wp.eq_ok (wp_bind.mpr (wp_get.mpr (wp_onPart.mpr ?_))))
    exact wp_of_ok hbytes ⟨rfl, rfl⟩

theorem AliasInv.view {st : AliasRun τ ρ} (h : AliasInv fs r st) {p name : Path} {k i : Nat}
    {node : VfsNode (FatCtx τ)} (hk : vfsFind st.vfs.nodes p = some k)
    (hnode : st.vfs.nodes[k]? = some node) (hctx : node.context = .fat i)
    (hname : vfsFat32RootName p = some name) (hw : makeShortName name = some w) :
    ShowsFile (fatCallbacks fs other) st.vfs p (st.contents w) := by
  obtain ⟨⟨name', w', file, hname', hw', hfile, hit⟩, hread, hstat⟩ := h.nodes k node i hnode hctx
  rw [vfsFind_some hk hnode, hname] at hname'
  cases hname'
  rw [hw] at hw'
  cases hw'
  obtain ⟨l, hf⟩ := h.fresh i file hfile
  have hc : st.contents w = fileBytes fs st.vfs.world.dev.disk file.slot l := by
    rw [h.contents]
    exact fileContents_hit h.fat.tidy hf.mem hit hf.chain
  rw [hc]
  exact hf.view h.fat hk hnode hctx hread hstat hfile

theorem AliasInv.holds {st : AliasRun τ ρ} (h : AliasInv fs r st) : AliasHolds fs other r st :=
  ⟨fun _ _ _ _ _ _ hk hn hc hname hw => (h.view hk hn hc hname hw).stat,
    fun _ _ _ _ _ _ hk hn hc hname hw => (h.view hk hn hc hname hw).read, h.fat.volume, h.fresh⟩

/-! ## One call -/

theorem AliasInv.same {st : AliasRun τ ρ} (h : AliasInv fs r st) (hs : SameFat st.vfs v') :
    AliasInv fs r ⟨v', st.contents⟩ := by
  refine ⟨by rw [hs.dev]; exact h.fat, by rw [hs.dev]; exact h.contents, fun i file hi => ?_, fun k node i hk hc => ?_⟩
  · rw [hs.files] at hi
    rw [hs.dev]
    exact h.fresh i file hi
  · rw [hs.nodes] at hk
    obtain ⟨⟨name, w, file, h1, h2, h3, h4⟩, h5, h6⟩ := h.nodes k node i hk hc
    exact ⟨⟨name, w, file, h1, h2, by rw [hs.files]; exact h3, by rw [hs.dev]; exact h4⟩, h5, h6⟩

/-- A new file. -/
theorem AliasInv.created {st : AliasRun τ ρ} {name : Path} {d : Dev} (h : AliasInv fs r st)
    (hok : FatOk fs r d) (hnew : NewFile fs r name st.vfs.world.dev d) :
    AliasInv fs r ⟨withDev st.vfs d, st.contents⟩ := by
  obtain ⟨⟨w, s, b, hw, hcr⟩, hno⟩ := hnew
  refine ⟨hok, ?_, fun i file hi => ?_, fun k node i hk hc => ?_⟩
  · rw [h.contents]
    exact (fileContents_created h.fat hok hw hcr hno).symm
  · obtain ⟨l, hf⟩ := h.fresh i file hi
    obtain ⟨hsame, hchain, -⟩ := hcr.other_file h.fat.volume hf.mem hf.live hf.chain
    exact ⟨l, hf.of_fields (hsame.liveFile.mpr hf.live) hsame.first hsame.size hchain⟩
  · obtain ⟨⟨name', w', file, h1, h2, h3, h4⟩, h5, h6⟩ := h.nodes k node i hk hc
    obtain ⟨l, hf⟩ := h.fresh i file h3
    have hsame := (hcr.other_file h.fat.volume hf.mem hf.live hf.chain).1
    exact ⟨⟨name', w', file, h1, h2, h3, hsame.hit.mpr h4⟩, h5, h6⟩

theorem getElem?_concat_some {β : Type} {xs : List β} {x y : β} {i : Nat} (h : (xs ++ [x])[i]? = some y) :
    xs[i]? = some y ∨ (i = xs.length ∧ y = x) := by
  rw [List.getElem?_append] at h
  split at h
  · exact .inl h
  · rename_i hi
    have hi' : i - xs.length = 0 := by
      by_contra hne
      rw [List.getElem?_eq_none (by simp; omega)] at h
      cases h
    rw [hi'] at h
    cases h
    exact .inr ⟨by omega, rfl⟩

/-- A mount under a path of the file's own name. -/
theorem AliasInv.mounts {st : AliasRun τ ρ} {path name n : Path} (h : AliasInv fs r st)
    (hpath : vfsFat32RootName path = some n) (hname : makeShortName n = makeShortName name)
    (hm : Mounts fs r path name st.vfs v') : AliasInv fs r ⟨v', st.contents⟩ := by
  obtain ⟨s, l, ho, hnodes, hfiles⟩ := hm.mounted
  obtain ⟨w, hw, -⟩ := ho.found
  have hnew : v'.world.files[st.vfs.world.files.length]? = some (handleOf fs st.vfs.world.dev.disk s l) := by
    rw [hfiles]
    simp
  refine ⟨by rw [hm.dev]; exact h.fat, by rw [hm.dev]; exact h.contents, fun i file hi => ?_, fun k node i hk hc => ?_⟩
  · rw [hm.dev]
    rw [hfiles] at hi
    rcases getElem?_concat_some hi with hi | ⟨-, rfl⟩
    · exact h.fresh i file hi
    · exact ⟨l, ho.mem, ⟨ho.live, ho.isFile⟩, ho.chain, rfl⟩
  · rw [hnodes] at hk
    rcases getElem?_concat_some hk with hk | ⟨-, rfl⟩
    · obtain ⟨⟨name', w', file, h1, h2, h3, h4⟩, h5, h6⟩ := h.nodes k node i hk hc
      refine ⟨⟨name', w', file, h1, h2, ?_, by rw [hm.dev]; exact h4⟩, h5, h6⟩
      obtain ⟨hlt, -⟩ := List.getElem?_eq_some_iff.mp h3
      rw [hfiles, List.getElem?_append_left hlt]
      exact h3
    · cases hc
      refine ⟨⟨n, w, _, hpath, by rw [hname]; exact hw, hnew, ?_⟩, rfl, rfl⟩
      rw [hm.dev]
      exact ho.hit hw

/-- The bytes of a file after a completed write. -/
theorem FreshWrite.bytes {t t' : OpenFile} {off : Nat} {buf : List UInt8}
    (hfw : FreshWrite fs r off buf t l true t' l') (hf : FreshHandle fs r t.dev.disk t.file l) :
    fileBytes fs t'.dev.disk t.file.slot l' = (fileBytes fs t.dev.disk t.file.slot l).take off ++ buf := by
  obtain ⟨hoff, hsize, hcont⟩ := hfw.done rfl
  have hs : slotSize t'.dev.disk t.file.slot = off + buf.length := by
    rw [← hsize, hfw.fresh.size, hfw.slot]
  unfold fileBytes
  rw [hs, hcont, List.take_take, Nat.min_eq_left (by rw [← hf.size]; exact hoff)]

/-- A write that meets the condition. -/
theorem AliasInv.wrote {st : AliasRun τ ρ} {op : VfsOp} {i off : Nat} {buf : List UInt8} {file : Fat32File}
    {ok : Bool} (h : AliasInv fs r st) (hop : op.fatWrite st.vfs = some (i, off, buf))
    (hret : op.ok fs other st.vfs = true → ok = true)
    (hwr : FatWrote fs i off buf file ok st.vfs (op.next fs other st.vfs)) (hsup : ∀ l,
      FreshHandle fs r st.vfs.world.dev.disk file l → FreeClusters fs st.vfs.world.dev.disk
        (clustersFor fs (off + buf.length) - l.length))
    (hcond : (∀ (j : Nat) file', j ≠ i → st.vfs.world.files[j]? = some file' → file'.slot ≠ file.slot) ∨
      off + buf.length = file.size ∨ file.size < off) :
    AliasInv fs r ⟨op.next fs other st.vfs, contentsAfter fs other r st.vfs op st.contents⟩ := by
  obtain ⟨t, hran, hfiles, hdev⟩ := hwr.ran
  obtain ⟨l, hf⟩ := h.fresh i file hwr.handle
  obtain ⟨l', hfw⟩ := freshWrite (t := ⟨file, st.vfs.world.dev⟩) h.fat hf (hsup l hf) hran
  have hcontents : contentsAfter fs other r st.vfs op st.contents = fileContents fs r t.dev.disk := by
    rw [fileContents_touched h.fat.volume h.fat.tidy hfw.fat.tidy hf.mem hf.live hf.chain hfw.touched]
    unfold contentsAfter
    simp only [hop, hwr.handle]
    rw [← h.contents]
    congr 1
    have hit : Hit (entryName (st.vfs.world.dev.disk file.slot.lba) file.slot.offset) st.vfs.world.dev.disk
        file.slot := ⟨hf.live.1, hf.live.2, rfl⟩
    split
    · rename_i hok
      obtain rfl := hret hok
      rw [hfw.bytes hf, h.contents, fileContents_hit h.fat.tidy hf.mem hit hf.chain]
    · rw [hdev]
      exact fileContents_hit hfw.fat.tidy hf.mem ((hfw.touched.hit hf.mem).mpr hit) hfw.touched.chain
  have hother : ∀ (j : Nat) file', j ≠ i → st.vfs.world.files[j]? = some file' →
      ∃ m, FreshHandle fs r t.dev.disk file' m := by
    intro j file' hj hfile'
    obtain ⟨m, hm⟩ := h.fresh j file' hfile'
    rcases hcond with hc | hc | hc
    · exact ⟨m, hfw.other h.fat hf hm (.inl (hc j file' hj hfile'))⟩
    · exact ⟨m, hfw.other h.fat hf hm (.inr hc)⟩
    · rw [write_behind (t := ⟨file, st.vfs.world.dev⟩) hc hran]
      exact ⟨m, hm⟩
  refine ⟨by rw [hdev]; exact hfw.fat, by rw [hdev]; exact hcontents, fun j file' hj => ?_,
    fun k node j hk hc => ?_⟩
  · rw [hdev]
    rw [hfiles] at hj
    by_cases hji : j = i
    · subst hji
      rw [List.getElem?_set_self (List.getElem?_eq_some_iff.mp hwr.handle).1] at hj
      cases hj
      exact ⟨l', hfw.fresh⟩
    · rw [List.getElem?_set_ne (Ne.symm hji)] at hj
      exact hother j file' hji hj
  · rw [hwr.nodes] at hk
    obtain ⟨⟨name', w', file', h1, h2, h3, h4⟩, h5, h6⟩ := h.nodes k node j hk hc
    obtain ⟨m, hm⟩ := h.fresh j file' h3
    by_cases hji : j = i
    · subst hji
      rw [hwr.handle] at h3
      cases h3
      refine ⟨⟨name', w', t.file, h1, h2, ?_, ?_⟩, h5, h6⟩
      · rw [hfiles]
        exact List.getElem?_set_self (List.getElem?_eq_some_iff.mp hwr.handle).1
      · rw [hdev, hfw.slot]
        exact (hfw.touched.hit hf.mem).mpr h4
    · refine ⟨⟨name', w', file', h1, h2, ?_, ?_⟩, h5, h6⟩
      · rw [hfiles, List.getElem?_set_ne (Ne.symm hji)]
        exact h3
      · rw [hdev]
        exact (hfw.touched.hit hm.mem).mpr h4

/-- A write that came to nothing, or none. -/
theorem contentsAfter_same {st : AliasRun τ ρ} {op : VfsOp} (h : AliasInv fs r st)
    (hs : SameFat st.vfs (op.next fs other st.vfs))
    (hret : op.fatWrite st.vfs = none ∨ op.ok fs other st.vfs = false) :
    contentsAfter fs other r st.vfs op st.contents = st.contents := by
  unfold contentsAfter
  split
  · rfl
  · split
    · rfl
    · rename_i hw _ _ _
      have hfail : op.ok fs other st.vfs = false := hret.resolve_left (by rw [hw]; simp)
      simp only [hfail, Bool.false_eq_true, if_false]
      rw [hs.dev, ← h.contents, Function.update_eq_self]

theorem AliasInv.next_same {st : AliasRun τ ρ} {op : VfsOp} (h : AliasInv fs r st)
    (hs : SameFat st.vfs (op.next fs other st.vfs))
    (hret : op.fatWrite st.vfs = none ∨ op.ok fs other st.vfs = false) :
    AliasInv fs r ⟨op.next fs other st.vfs, contentsAfter fs other r st.vfs op st.contents⟩ := by
  rw [contentsAfter_same h hs hret]
  exact h.same hs

theorem AliasInv.next_write {st : AliasRun τ ρ} {op : VfsOp} (h : AliasInv fs r st)
    (heff : WriteEffect fs op st.vfs (op.ok fs other st.vfs) (op.next fs other st.vfs))
    (hsup : ∀ i off buf file l, op.fatWrite st.vfs = some (i, off, buf) → st.vfs.world.files[i]? = some file →
      FreshHandle fs r st.vfs.world.dev.disk file l →
      FreeClusters fs st.vfs.world.dev.disk (clustersFor fs (off + buf.length) - l.length))
    (hmeets : AliasMeets st.vfs op) :
    AliasInv fs r ⟨op.next fs other st.vfs, contentsAfter fs other r st.vfs op st.contents⟩ := by
  rcases heff with ⟨hw, hs⟩ | ⟨i, off, buf, hw, ⟨hret, hs⟩ | ⟨file, ok, hret, hwr⟩⟩
  · exact h.next_same hs (.inl hw)
  · exact h.next_same hs (.inr hret)
  · exact h.wrote hw hret hwr (fun l => hsup i off buf file l hw hwr.handle)
      (hmeets i off buf file hw hwr.handle)

theorem AliasInv.next_open {st : AliasRun τ ρ} {path : Path} {flags : UInt32} (h : AliasInv fs r st)
    (hsup : Supplied fs r st.vfs (.openFlags path flags)) :
    AliasInv fs r ⟨(VfsOp.openFlags path flags).next fs other st.vfs, st.contents⟩ := by
  rcases openFlags_effect other path flags h.fat hsup with hs | ⟨name, d, hname, -, hfat, hd, hrest⟩
  · exact h.same hs
  have hcreated : AliasInv fs r ⟨withDev st.vfs d, st.contents⟩ := by
    rcases hd with rfl | ⟨-, hnew⟩
    · exact h
    · exact h.created hfat hnew
  rcases hrest with hs | ⟨v₁, hm, hs⟩
  · exact hcreated.same hs
  · exact (hcreated.mounts hname rfl hm).same hs

theorem AliasInv.next_mount {st : AliasRun τ ρ} {path name : Path} (h : AliasInv fs r st)
    (hsup : Supplied fs r st.vfs (.mountFile path name)) :
    AliasInv fs r ⟨(VfsOp.mountFile path name).next fs other st.vfs, st.contents⟩ := by
  obtain ⟨n, hn, hnn⟩ := hsup
  rcases mountFile_effect other path name h.fat with hs | hm
  · exact h.same hs
  · exact h.mounts hn hnn hm

theorem aliasStep_aliasInv {st st' : AliasRun τ ρ} (h : AliasInv fs r st)
    (hstep : aliasStep fs other r AliasMeets st st') : AliasInv fs r st' := by
  obtain ⟨op, hnames, hsup, hmeets, hvfs, hcont⟩ := hstep
  obtain ⟨v', c'⟩ := st'
  obtain rfl : v' = _ := hvfs
  obtain rfl : c' = _ := hcont
  have hquiet : op.readOnly = true → op.fatWrite st.vfs = none →
      AliasInv fs r ⟨op.next fs other st.vfs, contentsAfter fs other r st.vfs op st.contents⟩ :=
    fun hro hw => h.next_same (readOnly_same hro h.fat.reliable) (.inl hw)
  cases op with
  | unlink path => cases hnames
  | rename oldPath newPath => cases hnames
  | openFlags path flags => exact h.next_open hsup
  | mountFile path name => exact h.next_mount hsup
  | write path off buf => exact h.next_write (write_effect path off buf h.fat.reliable) hsup hmeets
  | writeFd fd buf => exact h.next_write (writeFd_effect fd buf h.fat.reliable) hsup hmeets
  | read path off cap => exact hquiet rfl rfl
  | stat path => exact hquiet rfl rfl
  | readFd fd cap => exact hquiet rfl rfl
  | seek fd off => exact hquiet rfl rfl
  | close fd => exact hquiet rfl rfl

/-! ## Runs -/

/-- From a reliable device with a well-formed volume and a tidy directory, and no FAT file mounted:
in every run of calls that find their free clusters and in which every write to a file with two
handles ends where the file ends, all paths of a file show its contents. -/
theorem vfsRun_aliasHolds {st : AliasRun τ ρ} (hok : FatOk fs r v.world.dev) (hfiles : v.world.files = [])
    (hnodes : ∀ node ∈ v.nodes, ∃ ctx, node.context = .other ctx)
    (hrun : Run (aliasStep fs other r AliasMeets) ⟨v, fileContents fs r v.world.dev.disk⟩ st) :
    AliasHolds fs other r st := by
  have hstart : AliasInv fs r (⟨v, fileContents fs r v.world.dev.disk⟩ : AliasRun τ ρ) := by
    refine ⟨hok, rfl, fun i file hi => ?_, fun k node i hk hc => ?_⟩
    · rw [hfiles] at hi
      cases hi
    · obtain ⟨ctx, hctx⟩ := hnodes node (List.mem_of_getElem? hk)
      rw [hctx] at hc
      cases hc
  exact (Run.invariant (AliasInv fs r) (fun _ _ => aliasStep_aliasInv) hstart hrun).holds

/-- A call from a state of a run. -/
noncomputable def AliasRun.after (fs : Fat32Fs) (other : Callbacks τ ρ) (r : List Nat) (st : AliasRun τ ρ)
    (op : VfsOp) : AliasRun τ ρ where
  vfs := op.next fs other st.vfs
  contents := contentsAfter fs other r st.vfs op st.contents

@[simp] theorem AliasRun.after_vfs (st : AliasRun τ ρ) (op : VfsOp) :
    (st.after fs other r op).vfs = op.next fs other st.vfs := rfl

theorem supplied_open {path : Path} : Supplied fs r v (.openFlags path 0) := by
  intro name _ _ h
  exact absurd rfl h

/-- The path `/fat/A`. -/
def samplePath' : Path := fatRoot ++ [65]

/-- The small volume with its file open under both paths. -/
noncomputable def sampleOpened : AliasRun Unit Unit :=
  ((⟨sampleVfs, fileContents sampleFs [2] sampleVfs.world.dev.disk⟩ : AliasRun Unit Unit).after sampleFs noOther
    [2] (.openFlags samplePath 0)).after sampleFs noOther [2] (.openFlags samplePath' 0)

theorem sampleOpened_run {cond : FatVfs Unit Unit → VfsOp → Prop}
    (h : ∀ v path, cond v (.openFlags path 0)) : Run (aliasStep sampleFs noOther [2] cond)
      ⟨sampleVfs, fileContents sampleFs [2] sampleVfs.world.dev.disk⟩ sampleOpened := by
  have hopen : ∀ st path, aliasStep sampleFs noOther [2] cond st
      (st.after sampleFs noOther [2] (.openFlags path 0)) :=
    fun st path => ⟨.openFlags path 0, rfl, supplied_open, h st.vfs path, rfl, rfl⟩
  exact (Relation.ReflTransGen.single (hopen _ samplePath)).tail (hopen _ samplePath')

/-- The cluster 4 is free, which is enough for a write of up to 512 bytes. -/
theorem sampleOpened_supplied {buf : List UInt8} (h : clustersFor sampleFs buf.length ≤ 1)
    (hw : (VfsOp.write samplePath 0 buf).fatWrite sampleOpened.vfs = some (0, 0, buf)) :
    Supplied sampleFs [2] sampleOpened.vfs (.write samplePath 0 buf) := by
  intro i off b file l hb _ _
  rw [hw] at hb
  cases hb
  have hfree : nextOf sampleFs sampleOpened.vfs.world.dev.disk 4 = 0 := by decide +kernel
  rw [Nat.zero_add]
  rcases Nat.le_one_iff_eq_zero_or_eq_one.mp ((Nat.sub_le _ l.length).trans h) with h0 | h1
  · rw [h0]
    exact ⟨[], by simp⟩
  · rw [h1]
    exact ⟨[4], by simp, rfl, by simpa using ⟨by decide, hfree⟩⟩

/-- A write of five bytes to the file of five bytes, seen under the other path. -/
theorem vfsRun_aliasHolds_sample : AliasHolds sampleFs noOther [2]
    (sampleOpened.after sampleFs noOther [2] (.write samplePath 0 [1, 2, 3, 4, 5])) := by
  have hw : (VfsOp.write samplePath 0 [1, 2, 3, 4, 5]).fatWrite sampleOpened.vfs =
      some (0, 0, [1, 2, 3, 4, 5]) := by
    decide +kernel
  have hsize : (sampleOpened.vfs.world.files[0]?).map Fat32File.size = some 5 := by decide +kernel
  have hmeets : AliasMeets sampleOpened.vfs (.write samplePath 0 [1, 2, 3, 4, 5]) := by
    intro i off buf file h hf
    rw [hw] at h
    cases h
    rw [hf] at hsize
    exact .inr (.inl (Option.some.inj hsize).symm)
  have hstep : aliasStep sampleFs noOther [2] AliasMeets sampleOpened
      (sampleOpened.after sampleFs noOther [2] (.write samplePath 0 [1, 2, 3, 4, 5])) :=
    ⟨.write samplePath 0 [1, 2, 3, 4, 5], rfl, sampleOpened_supplied (by decide) hw, hmeets, rfl, rfl⟩
  exact vfsRun_aliasHolds sample_fatOk rfl (fun node h => by cases h)
    ((sampleOpened_run fun v path i off buf file h => by cases h).tail hstep)

/-- The size that `vfs_stat` returns on the small volume. -/
def statSize (path : Path) (v : FatVfs Unit Unit) : Option Nat :=
  match vfsStat (fatCallbacks sampleFs noOther) path v with
  | .ok n _ => some n
  | .error _ _ => none

/-- A write of two bytes: the other path still has the old size. -/
theorem write_leaves_alias : ¬∀ st : AliasRun Unit Unit, Run (aliasStep sampleFs noOther [2] fun _ _ => True)
    ⟨sampleVfs, fileContents sampleFs [2] sampleVfs.world.dev.disk⟩ st → AliasHolds sampleFs noOther [2] st := by
  intro hall
  have hw : (VfsOp.write samplePath 0 [1, 2]).fatWrite sampleOpened.vfs = some (0, 0, [1, 2]) := by
    decide +kernel
  let st := sampleOpened.after sampleFs noOther [2] (.write samplePath 0 [1, 2])
  have hstep : aliasStep sampleFs noOther [2] (fun _ _ => True) sampleOpened st :=
    ⟨.write samplePath 0 [1, 2], rfl, sampleOpened_supplied (by decide) hw, trivial, rfl, rfl⟩
  have h := hall st ((sampleOpened_run fun _ _ => trivial).tail hstep)
  have hstat : ∀ path k i, vfsFind st.vfs.nodes path = some k →
      (st.vfs.nodes[k]?).map (·.context) = some (.fat i) → vfsFat32RootName path = some (path.drop 5) →
      makeShortName (path.drop 5) = some [65, 32, 32, 32, 32, 32, 32, 32, 32, 32, 32] →
      vfsStat (fatCallbacks sampleFs noOther) path st.vfs =
        .ok (st.contents [65, 32, 32, 32, 32, 32, 32, 32, 32, 32, 32]).length st.vfs := by
    intro path k i hk hn hname hshort
    obtain ⟨node, hnode, hctx⟩ := Option.map_eq_some_iff.mp hn
    exact h.stat path _ _ k node i hk hnode hctx hname hshort
  have hlower := hstat samplePath 0 0 (by decide +kernel) (by decide +kernel) (by decide) (by decide)
  have hupper := hstat samplePath' 1 1 (by decide +kernel) (by decide +kernel) (by decide) (by decide)
  have hdiff : statSize samplePath st.vfs ≠ statSize samplePath' st.vfs := by decide +kernel
  unfold statSize at hdiff
  rw [hlower, hupper] at hdiff
  exact hdiff rfl

end Armonios
