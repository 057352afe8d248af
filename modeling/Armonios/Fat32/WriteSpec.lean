import Armonios.Fat32.Grow
import Armonios.Fat32.Entry

/-!
# The loops of `fat32_write`

The loops of a write go along the chain of the file and past its end. Their invariant is `Job.At`;
what they add is said of the bytes before the end of the write: those before its start are the old
ones, then comes the buffer.

* `writeSectors_spec`: the sectors of one cluster, an `overlay` of its bytes;
* `writeSkip_spec`, `writeLoop_spec`: the two loops.
-/

namespace Armonios

variable {fs : Fat32Fs} {sel : UInt8 → Bool} {r : List Nat} {s : Slot} {disk disk' : Nat → Sector}
  {l : List Nat} {d : Dev} {c : Nat} {j : Job} {t : OpenFile}

/-! ## One cluster -/

theorem bytes_patch (sec : Sector) (off : Nat) (bs : List UInt8) :
    (sec.patch off bs).bytes = overlay off bs sec.bytes := by
  apply List.ext_getElem?
  intro i
  rw [getElem?_overlay, Sector.length_bytes]
  by_cases hi : i < 512
  · rw [List.getElem?_eq_getElem (by rw [Sector.length_bytes]; exact hi), Sector.getElem_bytes,
      Sector.byte_patch]
    by_cases hc : off ≤ i ∧ i < off + bs.length
    · rw [if_pos ⟨hi, hc⟩, if_pos ⟨hc.1, hc.2, hi⟩, List.getD_eq_getElem?_getD,
        List.getElem?_eq_getElem (by omega), Option.getD_some]
    · rw [if_neg (fun h => hc h.2), if_neg (fun h => hc ⟨h.1, h.2.1⟩),
        List.getElem?_eq_getElem (by rw [Sector.length_bytes]; exact hi), Sector.getElem_bytes]
  · rw [if_neg (fun h => hi h.2.2), List.getElem?_eq_none (by rw [Sector.length_bytes]; omega),
      List.getElem?_eq_none (by rw [Sector.length_bytes]; omega)]

/-- The sectors of one cluster: the buffer from `off` on, and what is left of it. -/
theorem writeSectors_spec (hm : Mounted fs) (hw : fs.writable) (hc : InData fs c) {is : List Nat}
    {off : Nat} {rest : List UInt8} (his : ∀ i ∈ is, i < fs.sectorsPerCluster) (hnd : is.Nodup) :
    Wp (writeSectors fs c is off rest) d
      (fun rest' d' => rest' = rest.drop (is.length * 512 - off) ∧
        lbaBytes d'.disk (is.map (lbaOf fs c + ·)) =
          overlay off rest (lbaBytes d.disk (is.map (lbaOf fs c + ·))) ∧
        (∀ lba, lba ∉ is.map (lbaOf fs c + ·) → d'.disk lba = d.disk lba) ∧ d'.armed = d.armed)
      (fun e d' => e = .fail ∧ (∀ lba, lba ∉ is.map (lbaOf fs c + ·) → d'.disk lba = d.disk lba) ∧
        Stopped {.dataRead, .dataWrite} False d.armed d') := by
  induction is generalizing off rest d with
  | nil => exact ⟨by simp, by simp [lbaBytes, overlay], fun _ _ => rfl, rfl⟩
  | cons i is ih =>
    have hi := his i (by simp)
    have hi' := (List.nodup_cons.mp hnd).1
    have ih := fun {off rest d} => @ih d off rest
      (fun k hk => his k (by simp [hk])) (List.nodup_cons.mp hnd).2
    have hcons : ∀ disk : Nat → Sector, lbaBytes disk ((i :: is).map (lbaOf fs c + ·)) =
        (disk (lbaOf fs c + i)).bytes ++ lbaBytes disk (is.map (lbaOf fs c + ·)) := fun disk => by
      simp [lbaBytes]
    have hnot : lbaOf fs c + i ∉ is.map (lbaOf fs c + ·) := by
      rintro h
      obtain ⟨k, hk, he⟩ := List.mem_map.mp h
      have : k = i := by omega
      exact hi' (this ▸ hk)
    have hout : ∀ lba, lba ∉ (i :: is).map (lbaOf fs c + ·) →
        lba ≠ lbaOf fs c + i ∧ lba ∉ is.map (lbaOf fs c + ·) := fun lba h => by
      rw [List.map_cons, List.mem_cons, not_or] at h
      exact h
    have hlen := (d.disk (lbaOf fs c + i)).length_bytes
    unfold writeSectors
    refine wp_ite (fun h0 => ?_) fun h0 => wp_ite (fun h512 => ?_) fun h512 => ?_
    · exact ⟨by simp [h0], by rw [h0, overlay_nil], fun _ _ => rfl, rfl⟩
    · refine Wp.mono ih ?_ ?_
      · rintro rest' d' ⟨h1, h2, h3, h4⟩
        refine ⟨?_, ?_, fun lba hlba => h3 lba (hout lba hlba).2, h4⟩
        · have e : is.length * 512 - (off - 512) = (is.length + 1) * 512 - off := by omega
          rw [h1, List.length_cons, e]
        · rw [hcons, hcons, h2, h3 _ hnot, overlay_append_skip _ _ _ _ (by omega), hlen]
      · rintro e d' ⟨h1, h2, h3⟩
        exact ⟨h1, fun lba hlba => h2 lba (hout lba hlba).2, h3⟩
    · simp only [hm.clusterToLba hc hi]
      have hlt := hc.lba_lt hi
      refine (readSector_spec fun _ => hlt).wp_bind (fun sec d1 h1 a1 hs => ?_) fun d1 h1 s1 => ?_
      swap
      · exact ⟨rfl, fun lba _ => by rw [h1], s1.mono (by simp) id⟩
      refine wp_bind.mpr (wp_writeSector hw hm.mounted hlt (fun d2 h2 a2 => ?_) fun d2 h2 s2 => ?_)
      swap
      · rw [a1] at s2
        exact ⟨rfl, fun lba _ => by rw [h2, h1], s2.mono (by simp) id⟩
      have hd2 : ∀ lba, lba ≠ lbaOf fs c + i → d2.disk lba = d.disk lba := fun lba h => by
        rw [h2, putSector_ne _ _ h, h1]
      refine Wp.mono ih ?_ ?_
      · rintro rest' d' ⟨q1, q2, q3, q4⟩
        refine ⟨?_, ?_, fun lba hlba => ?_, by rw [q4, a2, a1]⟩
        · rw [q1, List.drop_drop, List.length_cons]
          rcases Nat.le_total (512 - off) rest.length with h | h
          · have e : 512 - off + (is.length * 512 - 0) = (is.length + 1) * 512 - off := by omega
            rw [Nat.min_eq_left h, e]
          · rw [List.drop_of_length_le (by omega), List.drop_of_length_le (by omega)]
        · have hrest : lbaBytes d2.disk (is.map (lbaOf fs c + ·)) =
              lbaBytes d.disk (is.map (lbaOf fs c + ·)) :=
            lbaBytes_congr fun lba hlba => hd2 lba fun e => hnot (e ▸ hlba)
          have htake : rest.take (min (512 - off) rest.length) = rest.take (512 - off) := by
            rcases Nat.le_total (512 - off) rest.length with h | h
            · rw [Nat.min_eq_left h]
            · rw [Nat.min_eq_right h, List.take_length, List.take_of_length_le h]
          have hdrop : rest.drop (min (512 - off) rest.length) = rest.drop (512 - off) := by
            rcases Nat.le_total (512 - off) rest.length with h | h
            · rw [Nat.min_eq_left h]
            · rw [Nat.min_eq_right h, List.drop_length, List.drop_of_length_le h]
          rw [hcons, hcons, q2, hrest, hdrop, q3 _ hnot, h2, putSector_same, bytes_patch, htake, hs,
            overlay_take _ _ _ _ (by omega), overlay_append _ _ _ _ (by omega), hlen]
        · rw [q3 lba (hout lba hlba).2, hd2 lba (hout lba hlba).1]
      · rintro e d' ⟨q1, q2, q3⟩
        refine ⟨q1, fun lba hlba => ?_, by rw [a2, a1] at q3; exact q3⟩
        rw [q2 lba (hout lba hlba).2, hd2 lba (hout lba hlba).1]

/-! ## The loops -/

/-- The first loop: to the cluster of the offset. -/
theorem writeSkip_spec {p q : List Nat} {skip fuel : Nat} (hw : fs.writable)
    (h : j.At fs sel r (p ++ c :: q) t)
    (hneed : p.length * clusterBytesOf fs + skip < j.want * clusterBytesOf fs)
    (hfuel : j.want ≤ p.length + fuel) :
    Wp (writeSkip fs fuel skip c) t
      (fun res t' => ∃ p' q', j.At fs sel r (p' ++ res.2 :: q') t' ∧
        p ++ c :: q <+: p' ++ res.2 :: q' ∧
        p'.length * clusterBytesOf fs + res.1 = p.length * clusterBytesOf fs + skip ∧
        res.1 < clusterBytesOf fs ∧ ∀ lba, dataBase fs ≤ lba → t'.dev.disk lba = t.dev.disk lba)
      (fun e t' => e = .fail ∧ j.Failed fs sel r t') := by
  have hlt : p.length < j.want := by
    by_contra hge
    have := Nat.mul_le_mul_right (clusterBytesOf fs) (Nat.le_of_not_lt hge)
    omega
  induction fuel generalizing p q c skip t with
  | zero => omega
  | succ fuel ih =>
    unfold writeSkip
    refine wp_ite (fun hge => ?_) fun hge => ?_
    · have hwant : p.length + 1 < j.want := by
        by_contra hn
        have := Nat.mul_le_mul_right (clusterBytesOf fs) (show j.want ≤ p.length + 1 by omega)
        rw [Nat.add_mul, Nat.one_mul] at this
        omega
      refine wp_bind.mpr (Wp.mono (advance_spec hw h hwant) ?_ fun _ _ h => h)
      rintro c' t1 ⟨q', h1, hpre, hdata⟩
      have e : p ++ c :: (c' :: q') = (p ++ [c]) ++ c' :: q' := by simp
      rw [e] at h1
      have hlen : (p ++ [c]).length = p.length + 1 := by simp
      refine Wp.mono (ih h1 ?_ (by rw [hlen]; omega) (by rw [hlen]; exact hwant)) ?_ fun _ _ h => h
      · rw [hlen, Nat.add_mul, Nat.one_mul]
        omega
      · rintro res t' ⟨p', q'', g1, g2, g3, g4, g5⟩
        refine ⟨p', q'', g1, ?_, ?_, g4, fun lba hl => by rw [g5 lba hl, hdata lba hl]⟩
        · refine List.IsPrefix.trans ?_ g2
          rw [← e]
          obtain ⟨u, hu⟩ := hpre
          exact ⟨u, by rw [← hu]; simp⟩
        · rw [g3, hlen, Nat.add_mul, Nat.one_mul]
          omega
    · exact ⟨p, q, h, List.prefix_refl _, rfl, by omega, fun _ _ => rfl⟩

/-- The bytes of a chain with one cluster picked out. -/
theorem chainBytes_split (fs : Fat32Fs) (disk : Nat → Sector) (p q : List Nat) (c : Nat) :
    chainBytes fs disk (p ++ c :: q) =
      chainBytes fs disk p ++ (lbaBytes disk (cellLbas fs c) ++ chainBytes fs disk q) := by
  rw [chainBytes_append, chainBytes_cons]

theorem length_cellBytes (fs : Fat32Fs) (disk : Nat → Sector) (c : Nat) :
    (lbaBytes disk (cellLbas fs c)).length = clusterBytesOf fs := by
  rw [length_lbaBytes, length_cellLbas, clusterBytesOf]

/-- One cluster of the second loop, as an effect on the bytes of the chain. -/
theorem writeCluster_spec {p q : List Nat} {skip : Nat} {rest : List UInt8} (hw : fs.writable)
    (h : j.At fs sel r (p ++ c :: q) t) :
    Wp (writeSectors fs c (List.range fs.sectorsPerCluster) skip rest) t.dev
      (fun rest' d' => rest' = rest.drop (clusterBytesOf fs - skip) ∧
        j.At fs sel r (p ++ c :: q) { t with dev := d' } ∧
        lbaBytes d'.disk (cellLbas fs c) = overlay skip rest (lbaBytes t.dev.disk (cellLbas fs c)) ∧
        ∀ x ∈ p, lbaBytes d'.disk (cellLbas fs x) = lbaBytes t.dev.disk (cellLbas fs x))
      (fun e d' => e = .fail ∧ j.Failed fs sel r { t with dev := d' }) := by
  have hm := h.grown.volume.geometry
  have hc : InData fs c := h.inData (by simp)
  have hcell : ∀ lba, lba ∉ chainLbas fs (p ++ c :: q) →
      lba ∉ (List.range fs.sectorsPerCluster).map (lbaOf fs c + ·) := fun lba hlba hmem =>
    hlba (mem_chainLbas.mpr ⟨c, by simp, hmem⟩)
  refine Wp.mono (writeSectors_spec hm hw hc (fun i hi => List.mem_range.mp hi) List.nodup_range) ?_ ?_
  · rintro rest' d' ⟨h1, h2, h3, h4⟩
    rw [List.length_range] at h1
    have hg := h.grown.write fun lba hlba => h3 lba (hcell lba hlba)
    have hnext : ∀ x, InData fs x → nextOf fs d'.disk x = nextOf fs t.dev.disk x := by
      intro x hx
      have hlt := (hx.fatSector hm hm.fats_pos).2
      unfold nextOf fatAt
      rw [h3 _ fun hmem => ?_]
      obtain ⟨i, -, he⟩ := List.mem_map.mp hmem
      have := dataBase_le_lbaOf fs c i
      omega
    refine ⟨h1, ⟨⟨hg, h.file, h.bound, h.needed⟩, h.capacity, ?_, ?_, by show d'.armed = _; rw [h4, h.armed]⟩,
      h2, ?_⟩
    · obtain ⟨m, hnd, hlen, hmf⟩ := h.free
      exact ⟨m, hnd, hlen, fun x hx => ⟨(hmf x hx).1, by
        show nextOf fs d'.disk x = 0
        rw [hnext x (hmf x hx).1, (hmf x hx).2]⟩⟩
    · intro hsame k hk i hi
      have hkm : (k + 1) * fs.sectorsPerFat ≤ fs.fatCount * fs.sectorsPerFat :=
        Nat.mul_le_mul_right _ hk
      rw [Nat.add_mul, Nat.one_mul] at hkm
      have hout : ∀ lba, lba < dataBase fs → d'.disk lba = t.dev.disk lba := fun lba hlt =>
        h3 lba fun hmem => by
          obtain ⟨i, -, he⟩ := List.mem_map.mp hmem
          have := dataBase_le_lbaOf fs c i
          omega
      show d'.disk _ = d'.disk _
      rw [hout _ (by unfold dataBase; omega), hout _ (by unfold dataBase; omega)]
      exact h.copies hsame k hk i hi
    · intro x hx
      have hxc : x ≠ c := by
        rintro rfl
        have := h.grown.chain.nodup
        rw [List.nodup_append] at this
        exact this.2.2 x hx x (by simp) rfl
      refine lbaBytes_congr fun lba hlba => h3 lba fun hmem => ?_
      obtain ⟨i, hi, rfl⟩ := mem_cellLbas.mp hlba
      obtain ⟨k, hk, he⟩ := List.mem_map.mp hmem
      exact hxc ((h.inData (by simp [hx])).lba_inj hc hi (List.mem_range.mp hk) he.symm).1
  · rintro e d' ⟨h1, h2, h3⟩
    refine ⟨h1, .inl ⟨_, ⟨h.grown.write fun lba hlba => h2 lba (hcell lba hlba), h.file, h.bound,
      h.needed⟩, ?_⟩⟩
    rw [h.armed] at h3
    exact h3.mono (fun x hx => .inr hx) fun h => h.elim

theorem chainBytes_congr {disk disk' : Nat → Sector} {l : List Nat}
    (h : ∀ x ∈ l, lbaBytes disk' (cellLbas fs x) = lbaBytes disk (cellLbas fs x)) :
    chainBytes fs disk' l = chainBytes fs disk l := by
  induction l with
  | nil => simp [chainBytes, chainLbas, lbaBytes]
  | cons a l ih =>
    rw [chainBytes_cons, chainBytes_cons, h a (by simp), ih fun x hx => h x (by simp [hx])]

/-- Chains are in the data area, so their bytes depend on it only. -/
theorem chainBytes_of_data {disk disk' : Nat → Sector} {l : List Nat}
    (h : ∀ lba, dataBase fs ≤ lba → disk' lba = disk lba) :
    chainBytes fs disk' l = chainBytes fs disk l :=
  lbaBytes_congr fun lba hl => h lba (dataBase_le_of_mem hl)

/-- The second loop: after it the bytes before the end of the write are the old ones before its start
and then the buffer. -/
theorem writeLoop_spec {p q : List Nat} {skip fuel : Nat} {rest : List UInt8} (hw : fs.writable)
    (h : j.At fs sel r (p ++ c :: q) t) (hskip : skip < clusterBytesOf fs) (hrest : rest ≠ [])
    (hneed : p.length * clusterBytesOf fs + skip + rest.length ≤ j.want * clusterBytesOf fs)
    (hfuel : j.want ≤ p.length + fuel) :
    Wp (writeLoop fs fuel skip rest c) t
      (fun _ t' => ∃ l', j.At fs sel r l' t' ∧ p ++ c :: q <+: l' ∧
        p.length * clusterBytesOf fs + skip + rest.length ≤ l'.length * clusterBytesOf fs ∧
        (chainBytes fs t'.dev.disk l').take (p.length * clusterBytesOf fs + skip + rest.length) =
          (chainBytes fs t.dev.disk (p ++ c :: q)).take (p.length * clusterBytesOf fs + skip) ++ rest)
      (fun e t' => e = .fail ∧ j.Failed fs sel r t') := by
  have hlt : p.length < j.want := by
    by_contra hge
    have := Nat.mul_le_mul_right (clusterBytesOf fs) (Nat.le_of_not_lt hge)
    have := List.length_pos_iff.mpr hrest
    omega
  induction fuel generalizing p q c skip rest t with
  | zero => omega
  | succ fuel ih =>
    have hc : InData fs c := h.inData (by simp)
    unfold writeLoop
    rw [if_neg hrest, if_neg (by rw [hc.clusterIsEoc]; have := hc.ge; simp; omega), wp_onDev_bind]
    refine Wp.mono (writeCluster_spec hw h) ?_ fun _ _ h => h
    rintro rest' d1 ⟨hr', h1, hcell, hpre⟩
    have hcp : chainBytes fs d1.disk p = chainBytes fs t.dev.disk p := chainBytes_congr hpre
    have hlp : (chainBytes fs t.dev.disk p).length = p.length * clusterBytesOf fs :=
      length_chainBytes _ _ _
    have hlc := length_cellBytes fs t.dev.disk c
    have hlc1 := length_cellBytes fs d1.disk c
    have hold : (chainBytes fs t.dev.disk (p ++ c :: q)).take (p.length * clusterBytesOf fs + skip) =
        chainBytes fs t.dev.disk p ++ (lbaBytes t.dev.disk (cellLbas fs c)).take skip := by
      rw [chainBytes_split, ← hlp, List.take_length_add_append, List.take_append_of_le_length (by omega)]
    rw [hold]
    refine wp_ite (fun h0 => ?_) fun h0 => ?_
    · -- the buffer ends in this cluster
      have hend : skip + rest.length ≤ clusterBytesOf fs := by
        rw [hr'] at h0
        have := List.drop_eq_nil_iff.mp h0
        omega
      refine ⟨p ++ c :: q, h1, List.prefix_refl _, ?_, ?_⟩
      · rw [List.length_append, List.length_cons, Nat.add_mul, Nat.add_mul, Nat.one_mul]
        omega
      · show (chainBytes fs d1.disk _).take _ = _
        rw [chainBytes_split, hcp, hcell, Nat.add_assoc, ← hlp, List.take_length_add_append,
          List.take_append_of_le_length (by rw [length_overlay]; omega),
          take_overlay _ _ _ (by omega), List.append_assoc]
    · -- it goes on in the next one
      have hlen' : rest'.length = rest.length - (clusterBytesOf fs - skip) := by rw [hr', List.length_drop]
      have hpos := List.length_pos_iff.mpr h0
      have hwant : p.length + 1 < j.want := by
        by_contra hn
        have := Nat.mul_le_mul_right (clusterBytesOf fs) (show j.want ≤ p.length + 1 by omega)
        rw [Nat.add_mul, Nat.one_mul] at this
        omega
      refine wp_bind.mpr (Wp.mono (advance_spec hw h1 hwant) ?_ fun _ _ h => h)
      rintro c' t2 ⟨q', h2, hq, hdata⟩
      have e : p ++ c :: (c' :: q') = (p ++ [c]) ++ c' :: q' := by simp
      rw [e] at h2
      have hlen : (p ++ [c]).length = p.length + 1 := by simp
      have hpos1 : (p ++ [c]).length * clusterBytesOf fs + 0 =
          p.length * clusterBytesOf fs + clusterBytesOf fs := by
        rw [hlen, Nat.add_mul, Nat.one_mul, Nat.add_zero]
      have hspc : 0 < clusterBytesOf fs := by omega
      refine Wp.mono (ih h2 hspc h0 (by rw [hpos1]; omega) (by rw [hlen]; omega)
        (by rw [hlen]; exact hwant)) ?_ fun _ _ h => h
      rintro _ t' ⟨l', g1, g2, g3, g4⟩
      refine ⟨l', g1, ?_, by rw [hpos1] at g3; omega, ?_⟩
      · refine List.IsPrefix.trans ?_ g2
        rw [← e]
        obtain ⟨u, hu⟩ := hq
        exact ⟨u, by rw [← hu]; simp⟩
      · have hsum : p.length * clusterBytesOf fs + skip + rest.length =
            (p ++ [c]).length * clusterBytesOf fs + 0 + rest'.length := by rw [hpos1]; omega
        have hnew : (chainBytes fs t2.dev.disk ((p ++ [c]) ++ c' :: q')).take
            ((p ++ [c]).length * clusterBytesOf fs + 0) =
            chainBytes fs t.dev.disk p ++ overlay skip rest (lbaBytes t.dev.disk (cellLbas fs c)) := by
          have hl2 : (chainBytes fs t2.dev.disk (p ++ [c])).length =
              (p ++ [c]).length * clusterBytesOf fs + 0 := length_chainBytes _ _ _
          have hsame : ∀ m, chainBytes fs t2.dev.disk m = chainBytes fs d1.disk m := fun m =>
            chainBytes_of_data hdata
          rw [chainBytes_append, ← hl2, List.take_left, chainBytes_append, hsame, hcp, hsame,
            chainBytes_cons, hcell]
          simp [chainBytes, chainLbas, lbaBytes]
        have hover : overlay skip rest (lbaBytes t.dev.disk (cellLbas fs c)) =
            (lbaBytes t.dev.disk (cellLbas fs c)).take skip ++ rest.take (clusterBytesOf fs - skip) := by
          unfold overlay
          rw [hlc, List.drop_of_length_le (by omega), List.append_nil]
        rw [hsum, g4, hnew, hover, hr', List.append_assoc, List.append_assoc, List.take_append_drop,
          ← List.append_assoc]

end Armonios
