import Armonios.Fat32.Mount
import Armonios.Fat32.Walks

/-!
# Walks of a file's chain

`free_cluster_chain` and `file_chain_capacity` follow the links of the FAT from any cluster, whatever the FAT contains.
The first ends because it clears the entries that it has followed, the second because its total is bounded.

* `writeFatEntry_clears`: a cleared entry is 0 from then on, and no other entry gets a link;
* `chainWalks_terminate`: both end, and a capacity is that of a chain.
-/

namespace Armonios

variable {fs : Fat32Fs} {disk disk' disk'' : Nat → Sector} {d : Dev} {c x fuel total : Nat} {site : Site} {use : FatUse}

/-! ## Cleared entries -/

/-- An entry is as it was, or 0. -/
def Cleared (fs : Fat32Fs) (disk disk' : Nat → Sector) : Prop :=
  ∀ x, nextOf fs disk' x = nextOf fs disk x ∨ nextOf fs disk' x = 0

theorem Cleared.refl : Cleared fs disk disk := fun _ => .inl rfl

theorem Cleared.trans (h : Cleared fs disk disk') (h' : Cleared fs disk' disk'') : Cleared fs disk disk'' := by
  intro x
  rcases h' x with hx | hx
  · rw [hx]
    exact h x
  · exact .inr hx

theorem Cleared.zero (h : Cleared fs disk disk') (hx : nextOf fs disk x = 0) : nextOf fs disk' x = 0 := by
  rcases h x with hx' | hx'
  · exact hx'.trans hx
  · exact hx'

theorem entryOffset_fits (c : Nat) : entryOffset c + 4 ≤ 512 ∧ entryOffset c % 4 = 0 := by
  unfold entryOffset
  omega

/-- The entries of a sector lie side by side. -/
theorem le32_clear (s : Sector) (x c : Nat) : le32 (s.patch (entryOffset c) (putLe32 0)) (entryOffset x) =
    if entryOffset x = entryOffset c then 0 else le32 s (entryOffset x) := by
  have hx := entryOffset_fits x
  have hc := entryOffset_fits c
  split
  · rename_i heq
    rw [heq]
    exact le32_patch_putLe32 s hc.1
  · rename_i hne
    refine le32_patch_out s ?_
    rw [length_putLe32]
    omega

theorem putSector_clears (fs : Fat32Fs) (disk : Nat → Sector) (lba c : Nat) :
    Cleared fs disk (putSector disk lba ((disk lba).patch (entryOffset c) (putLe32 0))) := by
  intro x
  unfold nextOf fatAt
  by_cases hlba : fatSector fs 0 x = lba
  · rw [hlba, putSector_same, le32_clear]
    split
    · exact .inr rfl
    · exact .inl rfl
  · rw [putSector_ne _ _ hlba]
    exact .inl rfl

theorem putSector_clears_self (fs : Fat32Fs) (disk : Nat → Sector) (c : Nat) :
    nextOf fs (putSector disk (fatSector fs 0 c) ((disk (fatSector fs 0 c)).patch (entryOffset c) (putLe32 0))) c =
      0 := by
  unfold nextOf fatAt
  rw [putSector_same, le32_clear, if_pos rfl, Nat.zero_mod]

theorem writeSector_any {lba : Nat} {s : Sector} :
    Wp (writeSector fs site lba s) d (fun _ d' => d'.disk = putSector d.disk lba s) fun e _ => e = .fail := by
  unfold writeSector
  refine wp_guard (fun _ => rfl) fun _ => wp_bind.mpr ?_
  refine wp_callback (fun d' hdisk _ => ?_) fun _ _ _ => rfl
  show (fun l => if l = lba then s else d'.disk l) = putSector d.disk lba s
  rw [hdisk]
  rfl

theorem writeFatCopy_clears (k : Nat) : Wp (writeFatCopy fs use c 0 k) d
    (fun _ d' => Cleared fs d.disk d'.disk ∧ (k = 0 → nextOf fs d'.disk c = 0)) fun e _ => e = .fail := by
  unfold writeFatCopy
  refine readSector_any.wp_bind (fun s d₁ hdisk _ hs => ?_) fun _ _ _ => rfl
  refine writeSector_any.mono (fun _ d₂ hd₂ => ?_) fun _ _ he => he
  rw [hd₂, hdisk, hs, Nat.zero_mod]
  refine ⟨putSector_clears fs d.disk (fatSector fs k c) c, ?_⟩
  rintro rfl
  exact putSector_clears_self ..

theorem writeFatCopies_clears (k n : Nat) : Wp (writeFatCopies fs use c 0 k n) d
    (fun _ d' => Cleared fs d.disk d'.disk ∧ (k = 0 → 0 < n → nextOf fs d'.disk c = 0)) fun e _ => e = .fail := by
  induction n generalizing k d with
  | zero => exact ⟨.refl, fun _ h => absurd h (Nat.lt_irrefl 0)⟩
  | succ n ih =>
    unfold writeFatCopies
    refine wp_bind.mpr ((writeFatCopy_clears k).mono (fun _ d₁ ⟨hfirst, hc⟩ => ?_) fun _ _ he => he)
    refine (ih (k + 1)).mono (fun _ d₂ ⟨hrest, _⟩ => ?_) fun _ _ he => he
    exact ⟨hfirst.trans hrest, fun hk _ => hrest.zero (hc hk)⟩

theorem writeFatEntry_clears (hcopies : 0 < fs.fatCount) : Wp (writeFatEntry fs use c 0) d
    (fun _ d' => Cleared fs d.disk d'.disk ∧ nextOf fs d'.disk c = 0) fun e _ => e = .fail := by
  unfold writeFatEntry
  refine wp_guard (fun _ => rfl) fun _ => ?_
  exact (writeFatCopies_clears 0 fs.fatCount).mono (fun _ d' h => ⟨h.1, h.2 rfl hcopies⟩) fun _ _ he => he

/-! ## The chain that is freed -/

/-- How many entries that a link can lead to have a link. -/
def linked (fs : Fat32Fs) (disk : Nat → Sector) : Nat := {x ∈ Finset.range clusterRange | nextOf fs disk x ≠ 0}.card

theorem linked_le (fs : Fat32Fs) (disk : Nat → Sector) : linked fs disk ≤ clusterRange :=
  calc linked fs disk ≤ (Finset.range clusterRange).card := Finset.card_filter_le _ _
    _ = clusterRange := Finset.card_range _

theorem Cleared.linked_lt (h : Cleared fs disk disk') (hc : c < clusterRange) (hlink : nextOf fs disk c ≠ 0)
    (hnow : nextOf fs disk' c = 0) : linked fs disk' < linked fs disk := by
  refine Finset.card_lt_card ⟨fun x hx => ?_, fun hsub => ?_⟩
  · rw [Finset.mem_filter] at hx ⊢
    exact ⟨hx.1, fun hzero => hx.2 (h.zero hzero)⟩
  · have hmem := hsub (Finset.mem_filter.mpr ⟨Finset.mem_range.mpr hc, hlink⟩)
    exact (Finset.mem_filter.mp hmem).2 hnow

theorem Cleared.linked_le (h : Cleared fs disk disk') : linked fs disk' ≤ linked fs disk := by
  refine Finset.card_le_card fun x hx => ?_
  rw [Finset.mem_filter] at hx ⊢
  exact ⟨hx.1, fun hzero => hx.2 (h.zero hzero)⟩

/-- Each round but the last clears a link. Only the first cluster may be too large for one. -/
theorem freeLoop_noHang (hcopies : 0 < fs.fatCount) {first : Bool}
    (hfuel : linked fs d.disk + 1 + (if c < clusterRange then 0 else 1) < fuel) :
      NoHang (freeLoop fs fuel first c) d := by
  induction fuel generalizing c first d with
  | zero => omega
  | succ fuel ih =>
    unfold freeLoop
    refine wp_ite (fun _ => ?_) fun _ => trivial
    refine readFatEntry_any.wp_bind (fun v d₁ hdisk _ hv => ?_) fun _ _ _ => by decide
    have hlt : v < clusterRange := by
      rw [hv.2]
      exact fatAt_lt ..
    refine wp_bind.mpr ((writeFatEntry_clears hcopies).mono (fun _ d₂ hwritten => ?_) fun e _ he => ?_)
    swap
    · rw [he]
      decide
    obtain ⟨hcleared, hnow⟩ := hwritten
    rw [hdisk] at hcleared
    by_cases hzero : v = 0
    · obtain ⟨n, rfl⟩ := Nat.exists_eq_add_one_of_ne_zero (n := fuel) (by omega)
      subst hzero
      exact trivial
    refine ih ?_
    rw [if_pos hlt]
    have hle := hcleared.linked_le
    by_cases hc : c < clusterRange
    · have hless := hcleared.linked_lt hc (hv.2 ▸ hzero) hnow
      omega
    · rw [if_neg hc] at hfuel
      omega

/-! ## The capacity -/

/-- A number that ends a walk. -/
def EndsWalk (c : Nat) : Prop := c < 2 ∨ clusterIsEoc c = true

theorem capacityLoop_chain : Wp (capacityLoop fs fuel total c) d
    (fun capacity d' => d'.disk = d.disk ∧ ∃ l, Chain (nextOf fs d.disk) EndsWalk c l ∧
      capacity = total + l.length * clusterBytesOf fs ∧ (l ≠ [] → capacity ≤ 0xffffffff)) fun _ _ => True := by
  induction fuel generalizing total c d with
  | zero => trivial
  | succ fuel ih =>
    unfold capacityLoop
    refine wp_ite (fun hgo => ?_) fun hend => ?_
    swap
    · refine ⟨rfl, [], .done ?_, by simp, fun h => absurd rfl h⟩
      by_cases h2 : c < 2
      · exact .inl h2
      · exact .inr (Bool.not_eq_false _ ▸ fun heoc => hend ⟨Nat.le_of_not_lt h2, heoc⟩)
    refine wp_guard (fun _ => trivial) fun hfits => ?_
    refine readFatEntry_any.wp_bind (fun v d₁ hdisk _ hv => ?_) fun _ _ _ => trivial
    refine ih.mono (fun capacity d₂ hrest => ?_) fun _ _ _ => trivial
    obtain ⟨hsame, l, hchain, hcapacity, hbound⟩ := hrest
    rw [hdisk] at hsame hchain
    refine ⟨hsame, c :: l, .step ?_ (hv.2 ▸ hchain), ?_, fun _ => ?_⟩
    · rintro (h2 | heoc)
      · exact absurd hgo.1 (Nat.not_le.mpr h2)
      · exact absurd (heoc.symm.trans hgo.2) (by decide)
    · rw [hcapacity, List.length_cons, Nat.add_mul, Nat.one_mul]
      omega
    · cases l with
      | nil =>
        rw [List.length_nil, Nat.zero_mul] at hcapacity
        omega
      | cons b l => exact hbound (List.cons_ne_nil b l)

theorem fileChainCapacity_chain : Wp (fileChainCapacity fs c) d
    (fun capacity d' => d'.disk = d.disk ∧ ∃ l, Chain (nextOf fs d.disk) EndsWalk c l ∧
      capacity = l.length * clusterBytesOf fs ∧ capacity < 2 ^ 32) fun _ _ => True := by
  unfold fileChainCapacity
  refine wp_guard (fun _ => trivial) fun _ => ?_
  refine capacityLoop_chain.mono (fun capacity d' hwalk => ?_) fun _ _ _ => trivial
  obtain ⟨hdisk, l, hchain, hcapacity, hbound⟩ := hwalk
  rw [Nat.zero_add] at hcapacity
  refine ⟨hdisk, l, hchain, hcapacity, ?_⟩
  cases l with
  | nil =>
    rw [hcapacity, List.length_nil, Nat.zero_mul]
    decide
  | cons b l => exact Nat.lt_succ_of_le (hbound (List.cons_ne_nil b l))

/-! ## Both walks -/

/-- The walks from the cluster end, and a capacity that is returned is the number of bytes of a chain. -/
structure ChainWalks (fs : Fat32Fs) (first : Nat) (d : Dev) : Prop where
  free : NoHang (freeClusterChain fs first) d
  capacity : NoHang (fileChainCapacity fs first) d
  exact : ∀ bytes d', fileChainCapacity fs first d = .ok bytes d' → d'.disk = d.disk ∧
    ∃ l, Chain (nextOf fs d.disk) EndsWalk first l ∧ bytes = l.length * clusterBytesOf fs ∧ bytes < 2 ^ 32

theorem chainWalks_terminate {g : Fat32Fs} {d₀ d₁ : Dev} (hmount : fat32Mount d₀ = .ok g d₁) (set : Bool) (first : Nat)
    (d : Dev) : ChainWalks (fat32SetWriteSector g set) first d := by
  obtain ⟨haccepted, rfl⟩ := (fat32Mount_spec d₀).of_ok hmount
  have hchecked := haccepted.checked
  have hcopies : 0 < (fat32SetWriteSector (bootGeometry (d₀.disk 0)) set).fatCount :=
    Nat.pos_of_ne_zero hchecked.fatCount
  have hbytes : 512 ≤ clusterBytesOf (fat32SetWriteSector (bootGeometry (d₀.disk 0)) set) :=
    Nat.le_mul_of_pos_left 512 (Nat.pos_of_ne_zero hchecked.sectorsPerCluster)
  refine ⟨?_, ?_, fun bytes d' hrun => fileChainCapacity_chain.of_ok hrun⟩
  · unfold freeClusterChain
    refine wp_guard (fun _ => by decide) fun _ => freeLoop_noHang hcopies ?_
    have hle := linked_le (fat32SetWriteSector (bootGeometry (d₀.disk 0)) set) d.disk
    unfold clusterRange at hle
    unfold walkFuel
    split <;> omega
  · unfold fileChainCapacity
    refine wp_guard (fun _ => by decide) fun _ => capacityLoop_noHang (Nat.zero_le _) ?_
    have hmul := Nat.mul_le_mul_left walkFuel hbytes
    unfold walkFuel at hmul ⊢
    omega

theorem chainWalks_terminate_loop : ChainWalks (fat32SetWriteSector (bootGeometry smallBoot) true) 2 ⟨loopDisk, none⟩ :=
  chainWalks_terminate loopDisk_mounts true 2 ⟨loopDisk, none⟩

end Armonios
