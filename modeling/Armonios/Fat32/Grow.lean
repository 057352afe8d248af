import Armonios.Fat32.ReadSpec

/-!
# A file chain that grows

While `fat32_write` runs, the chain of its file gets longer and its sectors are overwritten; nothing
else on the volume changes. `Grown` is this relation between the disk before and the disk at some
point of the write, and it is kept by the two steps the driver makes: a write to a sector of the
chain (`Grown.write`), a cluster after the last one (`Grown.alloc`).

`Job` is what a write has at its start, `Job.At` the invariant of its loops. A fault leaves the
chain grown (`Job.Failed`, left), or it hits between the link and the mark of a new cluster.

* `advance_spec`: one step of `advance_or_allocate_cluster` along the chain or past its end.
-/

namespace Armonios

variable {fs : Fat32Fs} {sel : UInt8 → Bool} {r : List Nat} {s : Slot} {disk₀ disk disk' : Nat → Sector}
  {l₀ l : List Nat}

/-- Since the disk `disk₀` the chain of the entry `s` has grown from `l₀` to `l`, and only its
sectors and its FAT entries have changed. -/
structure Grown (fs : Fat32Fs) (sel : UInt8 → Bool) (r : List Nat) (s : Slot) (l₀ : List Nat)
    (disk₀ : Nat → Sector) (l : List Nat) (disk : Nat → Sector) : Prop where
  volume : Volume fs sel r disk
  head : heads fs sel r disk (some s) = some (slotFirst disk₀ s)
  chain : Chain (nextOf fs disk) Eoc (slotFirst disk₀ s) l
  grows : l₀ <+: l
  data : ∀ lba, dataBase fs ≤ lba → lba ∉ chainLbas fs l → disk lba = disk₀ lba
  next : ∀ x, InData fs x → x ∉ l → nextOf fs disk x = nextOf fs disk₀ x
  fresh : ∀ x ∈ l, x ∉ l₀ → nextOf fs disk₀ x = 0

namespace Grown

theorem refl (hv : Volume fs sel r disk) (hh : heads fs sel r disk (some s) = some (slotFirst disk s))
    (hc : Chain (nextOf fs disk) Eoc (slotFirst disk s) l) : Grown fs sel r s l disk l disk :=
  ⟨hv, hh, hc, List.prefix_refl l, fun _ _ _ => rfl, fun _ _ _ => rfl, fun _ h h' => absurd h h'⟩

theorem inData (h : Grown fs sel r s l₀ disk₀ l disk) {x : Nat} (hx : x ∈ l) : InData fs x :=
  h.volume.family.ok_of_mem h.head h.chain hx

theorem not_root (h : Grown fs sel r s l₀ disk₀ l disk) {lba : Nat} (hr : lba ∈ chainLbas fs r) :
    lba ∉ chainLbas fs l :=
  fun hl => h.volume.root_disjoint h.head h.chain hl hr

/-- The directory is as it was. -/
theorem entry (h : Grown fs sel r s l₀ disk₀ l disk) {t : Slot} (ht : t ∈ slotsOf fs r) :
    disk t.lba = disk₀ t.lba :=
  h.data _ (dataBase_le_of_mem (mem_slotsOf.mp ht).1) (h.not_root (mem_slotsOf.mp ht).1)

/-- A write to sectors of the chain. -/
theorem write (h : Grown fs sel r s l₀ disk₀ l disk)
    (hw : ∀ lba, lba ∉ chainLbas fs l → disk' lba = disk lba) : Grown fs sel r s l₀ disk₀ l disk' := by
  have hkeep : ∀ lba, lba < dataBase fs ∨ lba ∈ chainLbas fs r → disk' lba = disk lba := by
    rintro lba hlba
    refine hw lba fun hmem => ?_
    rcases hlba with hlba | hlba
    · have := dataBase_le_of_mem hmem
      omega
    · exact h.not_root hlba hmem
  obtain ⟨hv, hn⟩ := h.volume.of_data hkeep
  have he : ∀ t ∈ slotsOf fs r, SameEntry disk disk' t := fun t ht =>
    SameEntry.of_eq (hw _ (h.not_root (mem_slotsOf.mp ht).1))
  refine ⟨hv, ?_, h.chain.congr fun y hy => hn y (h.inData hy), h.grows, ?_, ?_,
    h.fresh⟩
  · rw [heads_congr fun hs => he s hs]
    exact h.head
  · intro lba hlba hmem
    rw [hw lba hmem, h.data lba hlba hmem]
  · intro x hx hxl
    rw [hn x hx, h.next x hx hxl]

/-- A new cluster after the last one. -/
theorem alloc {q : List Nat} {p b : Nat} (h : Grown fs sel r s l₀ disk₀ (q ++ [p]) disk)
    (hb : NewTail fs p b disk disk') : Grown fs sel r s l₀ disk₀ (q ++ [p, b]) disk' := by
  have hfresh := h.volume.fresh_of_free hb.free
  have hbq : b ∉ q ++ [p] := hfresh _ _ _ h.head h.chain
  have hp : InData fs p := h.inData (by simp)
  have hpb : p ≠ b := by
    rintro rfl
    simp at hbq
  have hsame : ∀ t ∈ slotsOf fs r, SameEntry disk disk' t := fun t ht =>
    SameEntry.of_eq (hb.data _ (dataBase_le_of_mem (mem_slotsOf.mp ht).1))
  have hheads : heads fs sel r disk' = heads fs sel r disk := by
    funext i
    rcases i with _ | t
    · rfl
    · exact heads_congr (hsame t)
  have hlink : nextOf fs disk' p = b := by rw [hb.entry p hp, if_neg hpb, if_pos rfl]
  have hmark : Eoc (nextOf fs disk' b) := by rw [hb.entry b hb.inData, if_pos rfl]
  obtain ⟨hfam, hchain⟩ := h.volume.family.extend h.head h.chain hfresh hb.inData hb.inData.not_eoc
    hlink hmark fun y hy hyp hyb => by rw [hb.entry y hy, if_neg hyb, if_neg hyp]
  have hroot : Chain (nextOf fs disk') Eoc fs.rootCluster r := by
    obtain ⟨m, hm, -⟩ := hfam.chain (i := none) heads_none
    have hkeep : ∀ y ∈ r, nextOf fs disk' y = nextOf fs disk y := by
      intro y hy
      have hyq : y ∉ q ++ [p] := h.volume.family.disj (i := none) (by simp) heads_none h.head
        h.volume.root h.chain y hy
      have hyb : y ≠ b := fun e => hfresh none _ _ heads_none h.volume.root (e ▸ hy)
      have hyp : y ≠ p := fun e => hyq (by simp [e])
      rw [hb.entry y (h.volume.inData_root hy), if_neg hyb, if_neg hyp]
    exact h.volume.root.congr hkeep
  refine ⟨⟨h.volume.geometry, hroot, hheads ▸ hfam⟩, by rw [hheads]; exact h.head, hchain, ?_, ?_, ?_,
    ?_⟩
  · exact h.grows.trans ⟨[b], by simp⟩
  · intro lba hlba hmem
    rw [hb.data lba hlba, h.data lba hlba]
    intro hm
    obtain ⟨x, hx, hx'⟩ := mem_chainLbas.mp hm
    exact hmem (mem_chainLbas.mpr ⟨x, by simp at hx ⊢; tauto, hx'⟩)
  · intro x hx hxl
    simp only [List.mem_append, List.mem_cons, List.not_mem_nil, or_false, not_or] at hxl
    rw [hb.entry x hx, if_neg hxl.2.2, if_neg hxl.2.1, h.next x hx (by simp; tauto)]
  · intro x hx hx0
    by_cases hxb : x = b
    · rw [hxb, ← h.next b hb.inData hbq]
      exact hb.free
    · refine h.fresh x ?_ hx0
      simp only [List.mem_append, List.mem_cons, List.not_mem_nil, or_false] at hx ⊢
      tauto

end Grown

/-! ## The loops of a write -/

/-- The state at the start of the loops of a write: the entry and its chain, the disk, the handle,
the number of clusters the write needs, the fault ahead. -/
structure Job where
  slot : Slot
  chain : List Nat
  disk : Nat → Sector
  file : Fat32File
  want : Nat
  armed : Option Site

variable {j : Job} {t t' : OpenFile}

/-- The chain has grown to `l`, not beyond what the write needs; of the handle only the capacity may
have changed. -/
structure Job.Kept (fs : Fat32Fs) (sel : UInt8 → Bool) (r : List Nat) (j : Job) (l : List Nat)
    (t : OpenFile) : Prop where
  grown : Grown fs sel r j.slot j.chain j.disk l t.dev.disk
  file : t.file = { j.file with capacity := t.file.capacity }
  bound : t.file.capacity ≤ 0xffffffff
  needed : l.length ≤ max j.chain.length j.want

/-- The capacity of the handle has grown with the chain. -/
def Job.Counted (fs : Fat32Fs) (j : Job) (l : List Nat) (t : OpenFile) : Prop :=
  t.file.capacity = j.file.capacity + (l.length - j.chain.length) * clusterBytesOf fs

/-- The invariant of the loops. -/
structure Job.At (fs : Fat32Fs) (sel : UInt8 → Bool) (r : List Nat) (j : Job) (l : List Nat)
    (t : OpenFile) : Prop extends Job.Kept fs sel r j l t where
  capacity : j.Counted fs l t
  free : FreeClusters fs t.dev.disk (j.want - l.length)
  copies : SameCopies fs j.disk → SameCopies fs t.dev.disk
  armed : t.dev.armed = j.armed

/-- The sites of the loops at which a fault leaves the chains whole. -/
def writeSites : Set Site := linkSites ∪ {.dataRead, .dataWrite}

/-- The loops stopped with a whole chain, or with a link to a free cluster. -/
def Job.Failed (fs : Fat32Fs) (sel : UInt8 → Bool) (r : List Nat) (j : Job) (t : OpenFile) : Prop :=
  (∃ l, j.Kept fs sel r l t ∧
    Stopped writeSites ((SameCopies fs j.disk → SameCopies fs t.dev.disk) ∧ j.Counted fs l t) j.armed
      t.dev) ∨
  ((∃ q p b disk, Grown fs sel r j.slot j.chain j.disk (q ++ [p]) disk ∧
      TornLink fs p b disk t.dev.disk) ∧
    t.file = { j.file with capacity := t.file.capacity } ∧ Stopped tornLinkSites False j.armed t.dev)

theorem Job.At.inData (h : j.At fs sel r l t) {x : Nat} (hx : x ∈ l) : InData fs x := h.grown.inData hx

/-- A refusal or a fault that left the disk as it is. -/
theorem Job.At.failed (h : j.At fs sel r l t) {d' : Dev} {S : Set Site} {F : Prop}
    (hd : d'.disk = t.dev.disk) (hs : Stopped S F t.dev.armed d') (hS : S ⊆ writeSites) :
    j.Failed fs sel r { t with dev := d' } := by
  refine .inl ⟨l, ⟨?_, h.file, h.bound, h.needed⟩, ?_⟩
  · show Grown _ _ _ _ _ _ _ d'.disk
    rw [hd]
    exact h.grown
  · show Stopped _ _ _ d'
    rw [h.armed] at hs
    refine hs.mono hS fun _ => ⟨fun hc => ?_, h.capacity⟩
    show SameCopies fs d'.disk
    rw [hd]
    exact h.copies hc

/-- A refusal of the driver itself. -/
theorem Job.At.refused (h : j.At fs sel r l t) : j.Failed fs sel r t :=
  .inl ⟨l, h.toKept, .inl ⟨⟨h.copies, h.capacity⟩, h.armed⟩⟩

/-- The same state after a read. -/
theorem Job.At.of_read (h : j.At fs sel r l t) {d' : Dev} (hd : d'.disk = t.dev.disk)
    (ha : d'.armed = t.dev.armed) : j.At fs sel r l { t with dev := d' } := by
  refine ⟨⟨?_, h.file, h.bound, h.needed⟩, h.capacity, ?_, ?_, ?_⟩
  · show Grown _ _ _ _ _ _ _ d'.disk
    rw [hd]
    exact h.grown
  · show FreeClusters fs d'.disk _
    rw [hd]
    exact h.free
  · show _ → SameCopies fs d'.disk
    rw [hd]
    exact h.copies
  · show d'.armed = _
    rw [ha, h.armed]

section OnDev

variable {α β : Type} {m : Io α} {f : α → FileIo β} {S : Set Site} {F : Prop} {P : α → Prop}
  {Q : β → OpenFile → Prop} {E : Err → OpenFile → Prop}

theorem wp_onDev_bind : Wp (onDev m >>= f) t Q E ↔ Wp m t.dev
    (fun a d' => Wp (f a) { t with dev := d' } Q E) (fun e d' => E e { t with dev := d' }) := by
  rw [wp_bind]
  exact wp_onPart

theorem ReadsTo.onDev_bind (h : ReadsTo m S F t.dev P)
    (hq : ∀ a d', d'.disk = t.dev.disk → d'.armed = t.dev.armed → P a →
      Wp (f a) { t with dev := d' } Q E)
    (he : ∀ d', d'.disk = t.dev.disk → Stopped S F t.dev.armed d' → E .fail { t with dev := d' }) :
    Wp (onDev m >>= f) t Q E := by
  rw [wp_onDev_bind]
  refine Wp.mono h (fun a d' ⟨h1, h2, h3⟩ => hq a d' h1 h2 h3) ?_
  rintro e d' ⟨rfl, h2, h3⟩
  exact he d' h2 h3

end OnDev

/-- The step of a write from `c` comes to take the cluster `b`. -/
def AdvanceTakes (fs : Fat32Fs) (c : Nat) (t : OpenFile) (b : Nat) : Prop :=
  ∃ v d₁ d₂, readFatEntry fs .lookup c t.dev = .ok v d₁ ∧ clusterIsEoc v = true ∧
    t.file.capacity + clusterBytesOf fs ≤ 0xffffffff ∧ findFreeCluster fs d₁ = .ok b d₂

/-- To the next cluster of the chain. -/
def Followed (fs : Fat32Fs) (c : Nat) (t : OpenFile) (c' : Nat) (t' : OpenFile) : Prop :=
  c' = nextOf fs t.dev.disk c ∧ ¬Eoc c' ∧ t'.dev.disk = t.dev.disk ∧ t'.file = t.file

/-- To a new cluster after the last one. -/
def Appended (fs : Fat32Fs) (c : Nat) (t : OpenFile) (c' : Nat) (t' : OpenFile) : Prop :=
  Eoc (nextOf fs t.dev.disk c) ∧ NewTail fs c c' t.dev.disk t'.dev.disk ∧
    (SameCopies fs t.dev.disk → SameCopies fs t'.dev.disk) ∧
    t'.file = { t.file with capacity := t.file.capacity + clusterBytesOf fs } ∧
    t.file.capacity + clusterBytesOf fs ≤ 0xffffffff

/-- What is left of a step that failed. -/
def StepFailed (fs : Fat32Fs) (c : Nat) (t t' : OpenFile) : Prop :=
  t'.file = t.file ∧
    (t'.dev.disk = t.dev.disk ∧ Stopped linkSites True t.dev.armed t'.dev ∨
      Eoc (nextOf fs t.dev.disk c) ∧
        ((∃ b, NewTail fs c b t.dev.disk t'.dev.disk) ∧ Stopped linkSites False t.dev.armed t'.dev ∨
          (∃ b, TornLink fs c b t.dev.disk t'.dev.disk) ∧ Stopped tornLinkSites False t.dev.armed t'.dev))

/-- One step, where the cluster that it takes is one of the data area. -/
theorem advance_step {c : Nat} (hm : Mounted fs) (hw : fs.writable) (hc : InData fs c)
    (hbad : nextOf fs t.dev.disk c ≠ clusterBad) (hown : ∀ b, AdvanceTakes fs c t b → InData fs b) :
    Wp (advanceOrAllocateCluster fs (clusterBytesOf fs) c) t
      (fun c' t' => t'.dev.armed = t.dev.armed ∧ (Followed fs c t c' t' ∨ Appended fs c t c' t'))
      (fun e t' => e = .fail ∧ StepFailed fs c t t') := by
  unfold advanceOrAllocateCluster
  refine wp_guard (fun h2 => absurd hc.ge (by omega)) fun _ => ?_
  rw [wp_onDev_bind]
  refine Wp.mono (Wp.and (readFatEntry_spec .lookup t.dev hm hc hbad) wp_self) (fun v d1 h => ?_) fun e d1 h => ?_
  swap
  · obtain ⟨⟨he, h1, s1⟩, -⟩ := h
    exact ⟨he, rfl, .inl ⟨h1, s1.mono (fun x hx => .inl (.inl hx)) fun h => h.elim⟩⟩
  obtain ⟨⟨h1, a1, hv⟩, hrun⟩ := h
  refine wp_ite (fun heoc => ?_) fun heoc => ?_
  · -- the end of the chain
    have hlast : Eoc (nextOf fs t.dev.disk c) := by
      rw [← hv]
      exact of_decide_eq_true heoc
    refine wp_bind.mpr (wp_get.mpr (wp_guard (fun _ => ?_) fun hcap => ?_))
    · exact ⟨rfl, rfl, .inl ⟨h1, .inl ⟨trivial, a1⟩⟩⟩
    simp only [not_or, not_lt] at hcap
    have hcap' : t.file.capacity + clusterBytesOf fs ≤ 0xffffffff := by
      have hle := hcap.1
      have hroom : t.file.capacity ≤ 0xffffffff - clusterBytesOf fs := hcap.2
      omega
    have hfinds : FindsOwn fs d1 := fun b d2 hfind => hown b ⟨v, d1, d2, hrun, heoc, hcap', hfind⟩
    rw [wp_onDev_bind]
    refine Wp.mono (allocateNext_spec hm hw hc (by rw [h1]; exact hlast) hfinds) ?_ ?_
    · rintro b d2 ⟨hnew, hcop, a2⟩
      rw [h1] at hnew hcop
      exact wp_bind.mpr (wp_modify.mpr (wp_pure.mpr
        ⟨a2.trans a1, .inr ⟨hlast, hnew, hcop, rfl, hcap'⟩⟩))
    · rintro e d2 ⟨he, hfail⟩
      rw [h1, a1] at hfail
      exact ⟨he, rfl, hfail.imp_right fun h => ⟨hlast, h⟩⟩
  · -- the next cluster of the chain
    refine wp_ite (fun _ => ⟨rfl, rfl, .inl ⟨h1, .inl ⟨trivial, a1⟩⟩⟩) fun _ => wp_pure.mpr ?_
    exact ⟨a1, .inl ⟨hv, fun h => heoc (decide_eq_true h), h1, rfl⟩⟩

theorem AdvanceTakes.ended {c b : Nat} (h : AdvanceTakes fs c t b) : Eoc (nextOf fs t.dev.disk c) := by
  obtain ⟨v, d₁, d₂, hread, heoc, -, -⟩ := h
  obtain ⟨-, -, -, rfl⟩ := readFatEntry_any.of_ok hread
  exact of_decide_eq_true heoc

theorem Job.At.takes {p : List Nat} {c b : Nat} (h : j.At fs sel r (p ++ [c]) t) (hwant : p.length + 1 < j.want)
    (htakes : AdvanceTakes fs c t b) : InData fs b := by
  obtain ⟨v, d₁, d₂, hread, -, -, hfind⟩ := htakes
  have hdisk := (readFatEntry_any.of_ok hread).1
  have hfree := h.free
  rw [← hdisk, List.length_append, List.length_singleton] at hfree
  obtain ⟨n, hn⟩ : ∃ n, j.want - (p.length + 1) = n + 1 := ⟨j.want - (p.length + 1) - 1, by omega⟩
  rw [hn] at hfree
  exact hfree.findsOwn b d₂ hfind

/-- From the cluster `c` of the chain to the next one, which is allocated where the chain ends. -/
theorem advance_spec {p q : List Nat} {c : Nat} (hw : fs.writable) (h : j.At fs sel r (p ++ c :: q) t)
    (hwant : p.length + 1 < j.want) :
    Wp (advanceOrAllocateCluster fs (clusterBytesOf fs) c) t
      (fun c' t' => ∃ q', j.At fs sel r (p ++ c :: (c' :: q')) t' ∧ q <+: c' :: q' ∧
        ∀ lba, dataBase fs ≤ lba → t'.dev.disk lba = t.dev.disk lba)
      (fun e t' => e = .fail ∧ j.Failed fs sel r t') := by
  have hm := h.grown.volume.geometry
  have hc : InData fs c := h.inData (by simp)
  have hl : ∀ y ∈ p ++ c :: q, InData fs y := fun y hy => h.inData hy
  have htail := h.grown.chain.suffix.tail
  have hnil : Eoc (nextOf fs t.dev.disk c) → q = [] := fun heoc => htail.nil_of_stop heoc
  have hlen : (p ++ [c]).length = p.length + 1 := by simp
  have hmax := le_max_right j.chain.length j.want
  have hneeded : (p ++ [c] ++ [c]).length ≤ max j.chain.length j.want := by
    rw [List.length_append, hlen, List.length_singleton]
    omega
  have hown : ∀ b, AdvanceTakes fs c t b → InData fs b := by
    intro b htakes
    obtain rfl := hnil htakes.ended
    exact h.takes hwant htakes
  refine Wp.mono (advance_step hm hw hc (next_ne_bad h.grown.chain hl (by simp)) hown) ?_ ?_
  · rintro c' t' ⟨harm, ⟨hnext, hne, hdisk, hfile⟩ | ⟨heoc, hnew, hcop, hfile, hcap⟩⟩
    · obtain ⟨q', rfl⟩ := htail.eq_cons (by rw [← hnext]; exact hne)
      rw [← hnext] at h ⊢
      refine ⟨q', ?_, List.prefix_refl _, fun lba _ => by rw [hdisk]⟩
      obtain ⟨file', d'⟩ := t'
      obtain rfl : file' = t.file := hfile
      exact h.of_read hdisk harm
    · obtain rfl := hnil heoc
      refine ⟨[], ⟨⟨h.grown.alloc hnew, ?_, ?_, ?_⟩, ?_, ?_, fun hs => hcop (h.copies hs), harm.trans h.armed⟩,
        by simp, hnew.data⟩
      · rw [hfile, h.file]
      · rw [hfile]
        exact hcap
      · rw [List.length_append, hlen, List.length_singleton] at hneeded
        simp only [List.length_append, List.length_cons, List.length_nil]
        omega
      · have hpre := h.grown.grows.length_le
        have hcapv := h.capacity
        unfold Job.Counted at hcapv ⊢
        rw [hfile]
        simp only [List.length_append, List.length_cons, List.length_nil] at hpre hcapv ⊢
        have e : p.length + (0 + 1 + 1) - j.chain.length = p.length + (0 + 1) - j.chain.length + 1 := by
          omega
        rw [hcapv, e, Nat.add_mul (_ - _), Nat.one_mul]
        omega
      · have hfree := h.free
        rw [hlen] at hfree
        obtain ⟨n, hn⟩ : ∃ n, j.want - (p.length + 1) = n + 1 := ⟨j.want - (p.length + 1) - 1, by omega⟩
        have hw' : j.want - (p ++ [c, c']).length = n := by
          simp only [List.length_append, List.length_cons, List.length_nil]
          omega
        rw [hn] at hfree
        rw [hw']
        refine hfree.take c' fun x hx hxb hx0 => ?_
        rw [hnew.entry x hx, if_neg hxb, if_neg]
        · exact hx0
        · rintro rfl
          rw [hx0] at heoc
          exact absurd heoc (by decide)
  · rintro e t' ⟨he, hfile, hfail⟩
    obtain ⟨file', d'⟩ := t'
    obtain rfl : file' = t.file := hfile
    refine ⟨he, ?_⟩
    rcases hfail with ⟨hd, hs⟩ | ⟨heoc, hs⟩
    · exact h.failed hd hs fun x hx => .inl hx
    obtain rfl := hnil heoc
    rw [h.armed] at hs
    rcases hs with ⟨⟨b, hnew⟩, hs⟩ | ⟨⟨b, htorn⟩, hs⟩
    · refine .inl ⟨p ++ [c, b], ⟨h.grown.alloc hnew, h.file, h.bound, ?_⟩, hs.mono (fun x hx => .inl hx) False.elim⟩
      simp only [List.length_append, List.length_cons, List.length_nil] at hneeded ⊢
      omega
    · exact .inr ⟨⟨p, c, b, t.dev.disk, h.grown, htorn⟩, h.file, hs⟩

end Armonios
