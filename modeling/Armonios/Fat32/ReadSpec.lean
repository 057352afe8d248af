import Armonios.Fat32.DirSpec

/-!
# What `fat32_read` returns

The bytes of a file are those of its chain up to its size. A read goes to the cluster of its offset
and copies from there sector by sector; on a chain that is long enough it returns the slice of the
contents that was asked for.

* `read_spec`: every read of a file with a chain long enough for its size.
-/

namespace Armonios

variable {fs : Fat32Fs} {disk : Nat → Sector} {d : Dev} {c : Nat}

/-- The contents of the file with the entry `s` and the chain `l`. -/
def fileBytes (fs : Fat32Fs) (disk : Nat → Sector) (s : Slot) (l : List Nat) : List UInt8 :=
  (chainBytes fs disk l).take (slotSize disk s)

theorem readSectors_spec (hm : Mounted fs) (hc : InData fs c) {is : List Nat} {off rem : Nat}
    (his : ∀ i ∈ is, i < fs.sectorsPerCluster) :
    ReadsTo (readSectors fs c is off rem) {.dataRead} False d
      (fun bs => bs = ((lbaBytes d.disk (is.map (lbaOf fs c + ·))).drop off).take rem) := by
  induction is generalizing off rem d with
  | nil => exact ReadsTo.pure (by simp [lbaBytes])
  | cons i is ih =>
    have hi := his i (by simp)
    have ih := fun {off rem d} => @ih d off rem fun j hj => his j (by simp [hj])
    have hb : lbaBytes d.disk ((i :: is).map (lbaOf fs c + ·)) =
        (d.disk (lbaOf fs c + i)).bytes ++ lbaBytes d.disk (is.map (lbaOf fs c + ·)) := by
      simp [lbaBytes]
    have hlen := (d.disk (lbaOf fs c + i)).length_bytes
    rw [hb]
    unfold readSectors
    split
    · rename_i h0
      exact ReadsTo.pure (by simp [h0])
    split
    · rename_i h512
      refine ih.mono (fun _ h => h) id fun bs h => ?_
      have hdrop : (d.disk (lbaOf fs c + i)).bytes.drop off = [] := List.drop_of_length_le (by omega)
      rw [h, List.drop_append, hdrop, List.nil_append, hlen]
    · rename_i h0 h512
      rw [hm.clusterToLba hc hi]
      refine ReadsTo.bind ((readSector_spec fun _ => hc.lba_lt hi)) fun sec d1 h1 _ hs => ?_
      refine ReadsTo.bind ih fun rest d2 h2 _ hr => ReadsTo.pure ?_
      rw [hr, hs, h1, List.drop_append, List.take_append, List.drop_zero, List.length_drop,
        List.length_take, List.length_drop, hlen]
      have e : off - 512 = 0 := by omega
      have e' : rem - min rem (512 - off) = rem - (512 - off) := by omega
      rw [e, e', List.drop_zero]

theorem readSkip_spec (hm : Mounted fs) {l : List Nat} {a skip fuel : Nat}
    (hc : Chain (nextOf fs d.disk) Eoc a l) (hl : ∀ y ∈ l, InData fs y)
    (hs : skip < l.length * clusterBytesOf fs) (hfuel : l.length < fuel) :
    ReadsTo (readSkip fs fuel skip a) {.lookup} False d
      (fun res => ∃ p q, l = p ++ res.2 :: q ∧ skip = p.length * clusterBytesOf fs + res.1 ∧
        res.1 < clusterBytesOf fs) := by
  induction l generalizing a skip fuel d with
  | nil => simp at hs
  | cons b l ih =>
    obtain rfl := hc.head_eq
    obtain ⟨fuel, rfl⟩ : ∃ f, fuel = f + 1 := ⟨fuel - 1, by omega⟩
    rw [List.length_cons, Nat.add_mul, Nat.one_mul] at hs
    unfold readSkip
    split
    · rename_i hge
      have hread := readFatEntry_spec .lookup d hm (hl a (by simp))
        (next_ne_bad hc hl (by simp))
      refine ReadsTo.bind hread fun v d1 h1 _ hv => ?_
      have hne : l ≠ [] := by rintro rfl; simp at hs; omega
      obtain ⟨b, l', rfl⟩ := List.exists_cons_of_ne_nil hne
      have hvb : v = b := by rw [hv]; exact hc.tail.head_eq
      have hbd := hl b (by simp)
      refine ReadsTo.guard (fun h => ?_) fun _ => ?_
      · rw [hvb, hbd.clusterIsEoc] at h
        have := hbd.ge
        simp at h
        omega
      · have hc' : Chain (nextOf fs d1.disk) Eoc v (b :: l') := by rw [hv, h1]; exact hc.tail
        refine (ih hc' (fun y hy => hl y (by simp [hy])) (by omega) (by simp at hfuel ⊢; omega)).mono
          (fun _ h => h) id ?_
        rintro ⟨sk, cl⟩ ⟨p, q, hpq, he, hlt⟩
        refine ⟨a :: p, q, by rw [hpq]; rfl, ?_, hlt⟩
        rw [List.length_cons, Nat.add_mul, Nat.one_mul]
        omega
    · exact ReadsTo.pure ⟨[], l, rfl, by simp, by omega⟩

theorem readLoop_spec (hm : Mounted fs) {l : List Nat} {a skip rem fuel : Nat}
    (hc : Chain (nextOf fs d.disk) Eoc a l) (hl : ∀ y ∈ l, InData fs y)
    (hs : skip < clusterBytesOf fs) (hrem : 0 < rem) (hfit : skip + rem ≤ l.length * clusterBytesOf fs)
    (hfuel : l.length < fuel) :
    ReadsTo (readLoop fs fuel skip rem a) {.dataRead, .lookup} False d
      (fun bs => bs = ((chainBytes fs d.disk l).drop skip).take rem) := by
  induction l generalizing a skip rem fuel d with
  | nil => simp at hfit; omega
  | cons b l ih =>
    obtain rfl := hc.head_eq
    obtain ⟨fuel, rfl⟩ : ∃ f, fuel = f + 1 := ⟨fuel - 1, by omega⟩
    have ha := hl a (by simp)
    rw [List.length_cons, Nat.add_mul, Nat.one_mul] at hfit
    have hcell : (lbaBytes d.disk (cellLbas fs a)).length = clusterBytesOf fs := by
      rw [length_lbaBytes, length_cellLbas, clusterBytesOf]
    unfold readLoop
    rw [if_neg (by omega), chainBytes_cons, List.drop_append, List.take_append,
      List.length_drop, hcell]
    have e : skip - clusterBytesOf fs = 0 := by omega
    rw [e, List.drop_zero]
    refine ReadsTo.bind ((readSectors_spec hm ha fun i hi => List.mem_range.mp hi).mono (by simp) id
      fun _ h => h) fun part d1 h1 _ hpart => ?_
    change part = (List.drop skip (lbaBytes d.disk (cellLbas fs a))).take rem at hpart
    have hplen : part.length = min rem (clusterBytesOf fs - skip) := by
      rw [hpart, List.length_take, List.length_drop, hcell]
    rw [← hpart]
    split
    · rename_i h0
      refine ReadsTo.pure ?_
      have : rem - (clusterBytesOf fs - skip) = 0 := by omega
      rw [this, List.take_zero, List.append_nil]
    · rename_i h0
      have hread := readFatEntry_spec .lookup d1 hm ha
        (by rw [h1]; exact next_ne_bad hc hl (by simp))
      refine ReadsTo.bind (hread.mono (by simp) id fun _ h => h) fun v d2 h2 _ hv => ?_
      have hne : l ≠ [] := by rintro rfl; simp at hfit; omega
      obtain ⟨b, l', rfl⟩ := List.exists_cons_of_ne_nil hne
      have hvb : v = b := by rw [hv, h1]; exact hc.tail.head_eq
      have hbd := hl b (by simp)
      refine ReadsTo.guard (fun h => ?_) fun _ => ?_
      · rw [hvb, hbd.clusterIsEoc] at h
        have := hbd.ge
        simp at h
        omega
      · have hc' : Chain (nextOf fs d2.disk) Eoc v (b :: l') := by rw [hv, h2, h1]; exact hc.tail
        have hpos : 0 < clusterBytesOf fs := by omega
        refine ReadsTo.bind (ih hc' (fun y hy => hl y (by simp [hy])) hpos (by omega) (by omega)
          (by simp at hfuel ⊢; omega)) fun rest d3 _ _ hrest => ReadsTo.pure ?_
        have e' : rem - part.length = rem - (clusterBytesOf fs - skip) := by omega
        rw [hrest, h2, h1, List.drop_zero, e']

/-- The sites of `fat32_read`. -/
def readSites : Set Site := {.dataRead, .lookup}

theorem clusterBytesOf_pos (hm : Mounted fs) : 0 < clusterBytesOf fs :=
  Nat.mul_pos hm.cluster_pos (by decide)

/-- A read of a file whose chain `l` is long enough. -/
theorem read_spec (hm : Mounted fs) {file : Fat32File} {l : List Nat} {off cap : Nat}
    (hc : 2 ≤ file.firstCluster → Chain (nextOf fs d.disk) Eoc file.firstCluster l)
    (h0 : file.firstCluster < 2 → l = []) (hl : ∀ y ∈ l, InData fs y)
    (hlong : file.size ≤ l.length * clusterBytesOf fs) :
    ReadsTo (fat32Read fs file off cap) readSites (file.size < off) d
      (fun bs => bs = (((chainBytes fs d.disk l).take file.size).drop off).take cap) := by
  unfold fat32Read
  refine ReadsTo.guard (fun h => ?_) fun hoff => ?_
  · rw [hm.mounted] at h
    simpa using h
  rw [hm.mounted] at hoff
  simp only [Bool.true_eq_false, false_or, not_lt] at hoff
  have hslice : (((chainBytes fs d.disk l).take file.size).drop off).take cap =
      ((chainBytes fs d.disk l).drop off).take (min (file.size - off) cap) := by
    rw [List.drop_take, List.take_take, Nat.min_comm]
  rw [hslice]
  refine ReadsTo.ite (fun hz => ReadsTo.pure (by rw [hz, List.take_zero])) fun hz => ?_
  have h2 : 2 ≤ file.firstCluster := by
    by_contra h
    rw [h0 (by omega)] at hlong
    simp at hlong
    omega
  have hc := hc h2
  refine ReadsTo.guard (fun h => by omega) fun _ => ?_
  refine ReadsTo.bind ((readSkip_spec hm hc hl (by omega) (chain_length_lt hc hl)).mono
    (by simp [readSites]) (fun h => h.elim) fun _ h => h) fun res d1 h1 _ hres => ?_
  obtain ⟨p, q, hpq, hskip, hlt⟩ := hres
  have hc' : Chain (nextOf fs d1.disk) Eoc res.2 (res.2 :: q) := by
    rw [h1]
    rw [hpq] at hc
    exact hc.suffix
  have hlen : l.length * clusterBytesOf fs =
      p.length * clusterBytesOf fs + (res.2 :: q).length * clusterBytesOf fs := by
    rw [hpq, List.length_append, Nat.add_mul]
  have hlt' := chain_length_lt hc hl
  refine (readLoop_spec hm hc' (fun y hy => hl y (by rw [hpq]; simp at hy ⊢; tauto)) hlt (by omega)
    (by omega) ?_).mono (fun _ h => h) (fun h => h.elim) fun bs h => ?_
  · rw [hpq] at hlt'
    simp at hlt' ⊢
    omega
  · have hp : (chainBytes fs d.disk p).length = p.length * clusterBytesOf fs := length_chainBytes _ _ _
    rw [h, h1, hpq, chainBytes_append, hskip, ← List.drop_drop, ← hp, List.drop_left]

end Armonios
