import Armonios.Drivers.VirtioNetTx

/-!
# Receiving frames

`virtio_net_recv` of `drivers/net/virtio_net.c`, one store a step, between the steps of a device that takes the
descriptors in the order in which they are available, and uses each one that it has once, in any order.

* `rxNext_inv`: each descriptor is in one place (`RxInv.owners`), and a frame that waits is in its buffer;
* `rxSound`: a call that finds no frame comes when all frames were returned, and no call fails behind its checks;
* `RxWaits.returns`: a call that has begun when a frame waits returns it with its seventh step;
* `virtioNet_run`: both queues, in every state of a run.

The logs of the two rings are ghosts; the rings have the entries that are still needed (`HoldsLog`).
-/

namespace Armonios

/-- `RX_BUF_SIZE`. -/
def rxBufSize : Nat := virtioNetHdrSize + virtioNetFrameSize

/-- `virtq_desc_t`, where the address is the number of a buffer. -/
structure RxDesc where
  addr : Nat
  len : Nat
  flags : BitVec 16
  next : Nat

/-- `virtq_used_elem_t`. -/
structure RxUsedElem where
  id : Nat
  len : Nat

/-- Where the call is. -/
inductive RxPc
  | out
  | entered (maxLen : Nat)
  | found (maxLen : Nat)
  | indexed (maxLen desc : Nat)
  | copied (maxLen desc : Nat) (data : List UInt8)
  | described (maxLen desc : Nat) (data : List UInt8)
  | listed (maxLen desc : Nat) (data : List UInt8)
  | posted (maxLen : Nat) (data : List UInt8)

/-- The globals and the device, which has taken `taken` descriptors and has `held` of them. `availLog` are the
descriptors that were made available, `usedLog` those that were used, with the bytes that the device has written, and
`got` what the calls have returned, with their limits. -/
structure NetRx where
  ready : Bool
  desc : Nat → RxDesc
  buf : Nat → List UInt8
  availRing : Nat → Nat
  availIdx : BitVec 16
  usedRing : Nat → RxUsedElem
  usedIdx : BitVec 16
  lastUsed : BitVec 16
  pc : RxPc
  taken : Nat
  held : List Nat
  availLog : List Nat
  usedLog : List (Nat × List UInt8)
  got : List (Nat × List UInt8)

/-- The descriptor of a buffer. -/
def rxDesc (i : Nat) : RxDesc := ⟨i, rxBufSize, 2, (i + 1) % virtioNetQueueSize⟩

/-- After `virtio_net_init`. -/
def netRxInit : NetRx where
  ready := true
  desc := rxDesc
  buf := fun _ => List.replicate rxBufSize 0
  availRing := id
  availIdx := BitVec.ofNat 16 virtioNetQueueSize
  usedRing := fun _ => ⟨0, 0⟩
  usedIdx := 0
  lastUsed := 0
  pc := .out
  taken := 0
  held := []
  availLog := List.range virtioNetQueueSize
  usedLog := []
  got := []

/-- The length that is copied of a used entry. -/
def rxCopyLen (maxLen len : Nat) : Nat :=
  let copyLen := if len ≤ virtioNetHdrSize then 0 else len - virtioNetHdrSize
  let copyLen := if copyLen > maxLen then maxLen else copyLen
  if copyLen > virtioNetFrameSize then virtioNetFrameSize else copyLen

inductive RxEvent
  | recv (ready : Bool) (maxLen : Nat)
  | run
  | take
  | write (desc : Nat) (bytes : List UInt8)
  | use (desc len : Nat)

/-- The next step of the call, with the value that it returns. -/
def rxRun (s : NetRx) : Option Int × NetRx :=
  match s.pc with
  | .out => (none, s)
  | .entered maxLen => if s.usedIdx = s.lastUsed then (some 0, { s with pc := .out }) else
    (none, { s with pc := .found maxLen })
  | .found maxLen =>
    let descIdx := (s.usedRing (s.lastUsed.toNat % virtioNetQueueSize)).id % 2 ^ 16
    if virtioNetQueueSize ≤ descIdx then (some (-1), { s with lastUsed := s.lastUsed + 1, pc := .out })
    else (none, { s with pc := .indexed maxLen descIdx })
  | .indexed maxLen desc =>
    let copyLen := rxCopyLen maxLen (s.usedRing (s.lastUsed.toNat % virtioNetQueueSize)).len
    (none, { s with pc := .copied maxLen desc (((s.buf desc).drop virtioNetHdrSize).take copyLen) })
  | .copied maxLen desc data =>
    (none, { s with desc := Function.update s.desc desc (rxDesc desc), pc := .described maxLen desc data })
  | .described maxLen desc data =>
    (none, { s with
      availRing := Function.update s.availRing (s.availIdx.toNat % virtioNetQueueSize) desc
      pc := .listed maxLen desc data })
  | .listed maxLen desc data =>
    -- the device has the descriptor again from here on
    (none, { s with availIdx := s.availIdx + 1, pc := .posted maxLen data, availLog := s.availLog ++ [desc] })
  | .posted maxLen data =>
    (some data.length, { s with lastUsed := s.lastUsed + 1, pc := .out, got := s.got ++ [(maxLen, data)] })

/-- The device takes the next descriptor. -/
def rxTake (s : NetRx) : NetRx :=
  if BitVec.ofNat 16 s.taken ≠ s.availIdx then
    { s with taken := s.taken + 1, held := s.held ++ [s.availRing (s.taken % virtioNetQueueSize)] }
  else s

/-- The device writes to a buffer that it has. -/
def rxWrite (desc : Nat) (bytes : List UInt8) (s : NetRx) : NetRx :=
  if desc ∈ s.held then
    let addr := (s.desc desc).addr
    { s with buf := Function.update s.buf addr (overlay 0 (bytes.take (s.desc desc).len) (s.buf addr)) }
  else s

/-- The device is done with a descriptor, and has written `len` bytes. -/
def rxUse (desc len : Nat) (s : NetRx) : NetRx :=
  if desc ∈ s.held ∧ len ≤ (s.desc desc).len then
    { s with
      usedRing := Function.update s.usedRing (s.usedIdx.toNat % virtioNetQueueSize) ⟨desc, len⟩
      usedIdx := s.usedIdx + 1
      held := s.held.erase desc
      usedLog := s.usedLog ++ [(desc, (s.buf (s.desc desc).addr).take len)] }
  else s

/-- A call whose arguments or device are not valid returns −1. -/
def rxStep (s : NetRx) : RxEvent → Option Int × NetRx
  | .recv valid maxLen => match s.pc with
    | .out => if s.ready = false ∨ valid = false then (some (-1), s) else (none, { s with pc := .entered maxLen })
    | _ => (none, s)
  | .run => rxRun s
  | .take => (none, rxTake s)
  | .write desc bytes => (none, rxWrite desc bytes s)
  | .use desc len => (none, rxUse desc len s)

def rxNext (s : NetRx) (e : RxEvent) : NetRx := (rxStep s e).2

/-! ## The invariant -/

/-- How many used descriptors are available again. -/
def NetRx.reposted (s : NetRx) : Nat := s.availLog.length - virtioNetQueueSize

/-- The descriptors that are available, those that the device has, and those whose frames wait. -/
def NetRx.owners (s : NetRx) : List Nat :=
  s.availLog.drop s.taken ++ s.held ++ (s.usedLog.drop s.reposted).map Prod.fst

/-- What a call with a limit returns of the bytes that the device has written. -/
def rxData (maxLen : Nat) (bytes : List UInt8) : List UInt8 :=
  (bytes.drop virtioNetHdrSize).take (min maxLen virtioNetFrameSize)

/-- The rings, the buffers and what was returned. -/
structure RxCounts (s : NetRx) : Prop where
  desc : s.desc = rxDesc
  size : ∀ i, (s.buf i).length = rxBufSize
  full : virtioNetQueueSize ≤ s.availLog.length
  availIdx : s.availIdx = BitVec.ofNat 16 s.availLog.length
  usedIdx : s.usedIdx = BitVec.ofNat 16 s.usedLog.length
  lastUsed : s.lastUsed = BitVec.ofNat 16 s.got.length
  taken_le : s.taken ≤ s.availLog.length
  reposted_le : s.reposted ≤ s.usedLog.length
  avail : HoldsLog virtioNetQueueSize s.availRing s.availLog s.taken
  used : HoldsLog virtioNetQueueSize s.usedRing (s.usedLog.map fun entry => ⟨entry.1, entry.2.length⟩) s.reposted
  owners : s.owners.Perm (List.range virtioNetQueueSize)
  frames : ∀ (k desc : Nat) (bytes : List UInt8), s.reposted ≤ k → s.usedLog[k]? = some (desc, bytes) →
    (s.buf desc).take bytes.length = bytes
  small : ∀ entry ∈ s.usedLog, entry.2.length ≤ rxBufSize
  got : ∀ (k maxLen : Nat) (data : List UInt8), s.got[k]? = some (maxLen, data) →
    ∃ desc bytes, s.usedLog[k]? = some (desc, bytes) ∧ data = rxData maxLen bytes

/-- The frame of the call waits in the buffer of the descriptor. -/
def RxCalls (s : NetRx) (desc : Nat) (bytes : List UInt8) : Prop :=
  s.reposted = s.got.length ∧ s.usedLog[s.got.length]? = some (desc, bytes)

/-- What holds at each place of a call. -/
def RxAtPc (s : NetRx) : RxPc → Prop
  | .out | .entered _ => s.reposted = s.got.length
  | .found _ => ∃ desc bytes, RxCalls s desc bytes
  | .indexed _ desc => ∃ bytes, RxCalls s desc bytes
  | .copied maxLen desc data | .described maxLen desc data => ∃ bytes, RxCalls s desc bytes ∧ data = rxData maxLen bytes
  | .listed maxLen desc data => (∃ bytes, RxCalls s desc bytes ∧ data = rxData maxLen bytes) ∧
      s.availRing (s.availLog.length % virtioNetQueueSize) = desc
  | .posted maxLen data => s.reposted = s.got.length + 1 ∧
      ∃ desc bytes, s.usedLog[s.got.length]? = some (desc, bytes) ∧ data = rxData maxLen bytes

structure RxInv (s : NetRx) : Prop extends RxCounts s where
  atPc : RxAtPc s s.pc

section Steps

variable {s : NetRx} {e : RxEvent} {desc maxLen : Nat} {bytes data : List UInt8}

/-! ### Descriptors -/

theorem RxCounts.length_owners (h : RxCounts s) :
    s.availLog.length - s.taken + s.held.length + (s.usedLog.length - s.reposted) = virtioNetQueueSize := by
  have hlen := h.owners.length_eq
  simpa [NetRx.owners, Nat.add_assoc] using hlen

theorem RxCounts.nodup (h : RxCounts s) : s.owners.Nodup := h.owners.nodup_iff.mpr List.nodup_range

/-- The descriptor of a frame that waits is one of the sixteen, and the device does not have it. -/
theorem RxCounts.waiting (h : RxCounts s) {k : Nat} (hk : s.reposted ≤ k)
    (hentry : s.usedLog[k]? = some (desc, bytes)) :
    desc < virtioNetQueueSize ∧ desc ∉ s.held := by
  have hmem : desc ∈ (s.usedLog.drop s.reposted).map Prod.fst := by
    refine List.mem_map.mpr ⟨(desc, bytes), List.mem_iff_getElem?.mpr ⟨k - s.reposted, ?_⟩, rfl⟩
    rw [List.getElem?_drop, Nat.add_sub_cancel' hk, hentry]
  have hnd := h.nodup
  unfold NetRx.owners at hnd
  constructor
  · have hown : desc ∈ s.owners := List.mem_append_right _ hmem
    exact List.mem_range.mp (h.owners.mem_iff.mp hown)
  · intro hheld
    exact (List.nodup_append.mp hnd).2.2 desc (List.mem_append_right _ hheld) desc hmem rfl

/-- The used entry of a call. -/
theorem RxCounts.usedElem (h : RxCounts s) (hcall : RxCalls s desc bytes) :
    s.usedRing (s.lastUsed.toNat % virtioNetQueueSize) = ⟨desc, bytes.length⟩ := by
  rw [h.lastUsed, counter_mod (by decide)]
  refine h.used _ _ (by rw [hcall.1]) ?_
  rw [List.getElem?_map, hcall.2]
  rfl

/-- The counters differ exactly if a frame waits. -/
theorem RxCounts.used_iff (h : RxCounts s) (hr : s.reposted = s.got.length) :
    s.usedIdx = s.lastUsed ↔ s.usedLog.length = s.got.length := by
  have hle := h.reposted_le
  have hlen := h.length_owners
  unfold virtioNetQueueSize at hlen
  rw [h.usedIdx, h.lastUsed, eq_comm, counter_eq_iff (by omega) (by omega), eq_comm]

/-- Only the place changes. -/
theorem RxCounts.at_pc (h : RxCounts s) (pc : RxPc) : RxCounts { s with pc := pc } :=
  ⟨h.desc, h.size, h.full, h.availIdx, h.usedIdx, h.lastUsed, h.taken_le, h.reposted_le, h.avail, h.used, h.owners,
    h.frames, h.small, h.got⟩

/-- The lengths that are copied are those of the frame, up to the limit. -/
theorem rxCopyLen_eq (maxLen len : Nat) :
    rxCopyLen maxLen len = min (len - virtioNetHdrSize) (min maxLen virtioNetFrameSize) := by
  unfold rxCopyLen
  simp only
  split <;> split <;> split <;> omega

theorem copied_eq {buf : List UInt8} (hbytes : buf.take bytes.length = bytes) :
    (buf.drop virtioNetHdrSize).take (rxCopyLen maxLen bytes.length) = rxData maxLen bytes := by
  rw [rxCopyLen_eq, rxData]
  conv_rhs => rw [← hbytes, List.drop_take, List.take_take]
  rw [Nat.min_comm]

/-! ### The device -/

theorem rxTake_inv (h : RxInv s) : RxInv (rxTake s) := by
  unfold rxTake
  split
  · rename_i hne
    have hlen := h.length_owners
    have hle := h.taken_le
    unfold virtioNetQueueSize at hlen
    rw [ne_eq, h.availIdx, counter_eq_iff hle (by omega)] at hne
    have hlt : s.taken < s.availLog.length := by omega
    have hslot := h.avail s.taken _ (Nat.le_refl _) (List.getElem?_eq_getElem hlt)
    refine ⟨⟨h.desc, h.size, h.full, h.availIdx, h.usedIdx, h.lastUsed, hlt, h.reposted_le,
      h.avail.mono (Nat.le_succ _), h.used, ?_, h.frames, h.small, h.got⟩, h.atPc⟩
    refine List.Perm.trans ?_ h.owners
    unfold NetRx.owners NetRx.reposted
    dsimp only
    rw [hslot, List.drop_eq_getElem_cons hlt]
    refine List.Perm.append_right _ ?_
    rw [← List.append_assoc]
    exact List.perm_append_singleton _ _
  · exact h

theorem rxWrite_inv (h : RxInv s) (desc : Nat) (bytes : List UInt8) : RxInv (rxWrite desc bytes s) := by
  unfold rxWrite
  split
  · rename_i hheld
    have haddr : (s.desc desc).addr = desc := by
      rw [h.desc]
      rfl
    refine ⟨⟨h.desc, fun i => ?_, h.full, h.availIdx, h.usedIdx, h.lastUsed, h.taken_le, h.reposted_le, h.avail, h.used,
      h.owners, fun k d frame hk hentry => ?_, h.small, h.got⟩, h.atPc⟩
    · dsimp only
      rw [haddr]
      by_cases hi : i = desc
      · subst hi
        rw [Function.update_self, length_overlay, h.size]
      · rw [Function.update_of_ne hi, h.size]
    · have hne : d ≠ desc := by
        rintro rfl
        exact (h.waiting hk hentry).2 hheld
      dsimp only
      rw [haddr, Function.update_of_ne hne]
      exact h.frames k d frame hk hentry
  · exact h

theorem rxUse_inv (h : RxInv s) (desc len : Nat) : RxInv (rxUse desc len s) := by
  unfold rxUse
  split
  · rename_i huse
    obtain ⟨hheld, hlen⟩ := huse
    have haddr : (s.desc desc).addr = desc := by
      rw [h.desc]
      rfl
    have hsize : len ≤ rxBufSize := by
      rw [h.desc] at hlen
      exact hlen
    have hbytes : ((s.buf desc).take len).length = len := by
      rw [List.length_take, h.size, Nat.min_eq_left hsize]
    have hroom : s.usedLog.length < s.reposted + virtioNetQueueSize := by
      have hown := h.length_owners
      have hpos := List.length_pos_of_mem hheld
      omega
    have hle := h.reposted_le
    -- what was used before stays used
    have hold : ∀ (k : Nat) x, s.usedLog[k]? = some x →
        (s.usedLog ++ [(desc, (s.buf (s.desc desc).addr).take len)])[k]? = some x := by
      intro k x hx
      rwa [List.getElem?_append_left (List.getElem?_eq_some_iff.mp hx).1]
    refine ⟨⟨h.desc, h.size, h.full, h.availIdx, ?_, h.lastUsed, h.taken_le, ?_, h.avail, ?_, ?_,
      fun k d frame hk hentry => ?_, fun entry hmem => ?_, fun k m data hk => ?_⟩, ?_⟩
    · dsimp only
      rw [h.usedIdx, counter_succ, List.length_append, List.length_singleton]
    · dsimp only [NetRx.reposted]
      rw [List.length_append]
      exact Nat.le_trans hle (Nat.le_add_right _ _)
    · dsimp only
      rw [List.map_append, h.usedIdx, counter_mod (by decide), haddr, List.map_singleton, hbytes]
      have hpush := h.used.push (by rwa [List.length_map]) ⟨desc, len⟩
      rwa [List.length_map] at hpush
    · refine List.Perm.trans ?_ h.owners
      unfold NetRx.owners NetRx.reposted at *
      dsimp only at *
      rw [List.drop_append_of_le_length hle, List.map_append, List.append_assoc, List.append_assoc]
      refine List.Perm.append_left _ ?_
      have hperm := List.perm_cons_erase hheld
      refine List.Perm.trans ?_ (hperm.symm.append_right _)
      simp only [List.map_cons, List.map_nil]
      rw [← List.append_assoc]
      exact List.perm_append_singleton _ _
    · dsimp only at *
      by_cases hlast : k < s.usedLog.length
      · rw [List.getElem?_append_left hlast] at hentry
        exact h.frames k d frame hk hentry
      · have hk' := (List.getElem?_eq_some_iff.mp hentry).1
        rw [List.length_append, List.length_singleton] at hk'
        obtain rfl : k = s.usedLog.length := by omega
        rw [List.getElem?_concat_length] at hentry
        cases hentry
        rw [haddr, hbytes]
    · rcases List.mem_append.mp hmem with hmem | hmem
      · exact h.small entry hmem
      · rw [List.mem_singleton] at hmem
        subst hmem
        rw [haddr]
        exact hbytes.le.trans hsize
    · obtain ⟨d, frame, hentry, hdata⟩ := h.got k m data hk
      exact ⟨d, frame, hold k _ hentry, hdata⟩
    · have hat := h.atPc
      revert hat
      dsimp only
      cases s.pc with
      | out => exact id
      | entered m => exact id
      | found m =>
        rintro ⟨d, frame, hr, hentry⟩
        exact ⟨d, frame, hr, hold _ _ hentry⟩
      | indexed m d =>
        rintro ⟨frame, hr, hentry⟩
        exact ⟨frame, hr, hold _ _ hentry⟩
      | copied m d data =>
        rintro ⟨frame, ⟨hr, hentry⟩, hdata⟩
        exact ⟨frame, ⟨hr, hold _ _ hentry⟩, hdata⟩
      | described m d data =>
        rintro ⟨frame, ⟨hr, hentry⟩, hdata⟩
        exact ⟨frame, ⟨hr, hold _ _ hentry⟩, hdata⟩
      | listed m d data =>
        rintro ⟨⟨frame, ⟨hr, hentry⟩, hdata⟩, hslot⟩
        exact ⟨⟨frame, ⟨hr, hold _ _ hentry⟩, hdata⟩, hslot⟩
      | posted m data =>
        rintro ⟨hr, d, frame, hentry, hdata⟩
        exact ⟨hr, d, frame, hold _ _ hentry, hdata⟩
  · exact h

/-! ### The driver -/

/-- A descriptor is available again. -/
theorem RxCounts.repost (h : RxCounts s) (hcall : RxCalls s desc bytes)
    (hslot : s.availRing (s.availLog.length % virtioNetQueueSize) = desc) (pc : RxPc) :
    RxCounts { s with availIdx := s.availIdx + 1, pc := pc, availLog := s.availLog ++ [desc] } := by
  obtain ⟨hr, hentry⟩ := hcall
  have hfull := h.full
  have hlt : s.got.length < s.usedLog.length := (List.getElem?_eq_some_iff.mp hentry).1
  have hnext : (s.availLog ++ [desc]).length - virtioNetQueueSize = s.reposted + 1 := by
    rw [List.length_append, List.length_singleton, NetRx.reposted]
    omega
  have hle : s.reposted ≤ s.reposted + 1 := Nat.le_succ _
  refine ⟨h.desc, h.size, ?_, ?_, h.usedIdx, h.lastUsed, ?_, ?_, h.avail.append hslot, ?_, ?_, fun k d frame hk => ?_,
    h.small, h.got⟩
  · dsimp only
    rw [List.length_append]
    exact Nat.le_trans hfull (Nat.le_add_right _ _)
  · dsimp only
    rw [h.availIdx, counter_succ, List.length_append, List.length_singleton]
  · dsimp only
    rw [List.length_append]
    exact Nat.le_trans h.taken_le (Nat.le_add_right _ _)
  · unfold NetRx.reposted
    dsimp only
    rw [hnext, hr]
    exact hlt
  · unfold NetRx.reposted
    dsimp only
    rw [hnext]
    exact h.used.mono hle
  · refine List.Perm.trans ?_ h.owners
    have hdrop : s.usedLog.drop s.reposted = (desc, bytes) :: s.usedLog.drop (s.reposted + 1) := by
      rw [hr] at *
      rw [List.drop_eq_getElem_cons hlt]
      congr 1
      exact (List.getElem?_eq_some_iff.mp hentry).2
    unfold NetRx.owners
    rw [hdrop]
    unfold NetRx.reposted
    dsimp only
    rw [hnext, List.drop_append_of_le_length h.taken_le, List.map_cons]
    simp only [List.append_assoc]
    refine List.Perm.append_left _ ?_
    exact (@List.perm_middle _ _ s.held _).symm
  · intro hentry'
    have hk' : s.reposted + 1 ≤ k := by
      unfold NetRx.reposted at hk
      dsimp only at hk
      rwa [hnext] at hk
    exact h.frames k d frame (Nat.le_of_succ_le hk') hentry'

/-- A step of the driver keeps the invariant. -/
theorem rxRun_inv (h : RxInv s) : RxInv (rxRun s).2 := by
  have hcounts := h.toRxCounts
  have hat := h.atPc
  unfold rxRun
  cases hpc : s.pc <;> rw [hpc] at hat <;> dsimp only
  case out => exact h
  case entered maxLen =>
    split
    · exact ⟨hcounts.at_pc _, hat⟩
    · rename_i hne
      have hr : s.reposted = s.got.length := hat
      rw [hcounts.used_iff hr] at hne
      have hle := h.reposted_le
      have hlt : s.got.length < s.usedLog.length := by omega
      exact ⟨hcounts.at_pc _, _, _, hr, List.getElem?_eq_getElem hlt⟩
  case found maxLen =>
    obtain ⟨desc, bytes, hcall⟩ := hat
    obtain ⟨hdesc, -⟩ := hcounts.waiting (by rw [hcall.1]) hcall.2
    rw [hcounts.usedElem hcall]
    have hmod : desc % 2 ^ 16 = desc := Nat.mod_eq_of_lt (Nat.lt_of_lt_of_le hdesc (by decide))
    dsimp only
    rw [hmod, if_neg (Nat.not_le.mpr hdesc)]
    exact ⟨hcounts.at_pc _, bytes, hcall⟩
  case indexed maxLen desc =>
    obtain ⟨bytes, hcall⟩ := hat
    have hbytes := h.frames _ _ _ (by rw [hcall.1]) hcall.2
    rw [hcounts.usedElem hcall]
    exact ⟨hcounts.at_pc _, bytes, hcall, copied_eq hbytes⟩
  case copied maxLen desc data =>
    refine ⟨⟨?_, h.size, h.full, h.availIdx, h.usedIdx, h.lastUsed, h.taken_le, h.reposted_le, h.avail, h.used,
      h.owners,
      h.frames, h.small, h.got⟩, hat⟩
    dsimp only
    rw [h.desc, Function.update_eq_self]
  case described maxLen desc data =>
    obtain ⟨bytes, hcall, hdata⟩ := hat
    have hroom : s.availLog.length < s.taken + virtioNetQueueSize := by
      have hown := hcounts.length_owners
      have hlt := (List.getElem?_eq_some_iff.mp hcall.2).1
      have hr := hcall.1
      omega
    have hslot : s.availIdx.toNat % virtioNetQueueSize = s.availLog.length % virtioNetQueueSize := by
      rw [h.availIdx, counter_mod (by decide)]
    rw [hslot]
    refine ⟨⟨h.desc, h.size, h.full, h.availIdx, h.usedIdx, h.lastUsed, h.taken_le, h.reposted_le,
      h.avail.write hroom desc, h.used, h.owners, h.frames, h.small, h.got⟩, ⟨bytes, hcall, hdata⟩,
        Function.update_self ..⟩
  case listed maxLen desc data =>
    obtain ⟨⟨bytes, hcall, hdata⟩, hslot⟩ := hat
    refine ⟨hcounts.repost hcall hslot _, ?_, desc, bytes, hcall.2, hdata⟩
    have hfull := h.full
    have hr := hcall.1
    unfold NetRx.reposted at *
    dsimp only
    rw [List.length_append, List.length_singleton]
    omega
  case posted maxLen data =>
    obtain ⟨hr, desc, bytes, hentry, hdata⟩ := hat
    refine ⟨⟨h.desc, h.size, h.full, h.availIdx, h.usedIdx, ?_, h.taken_le, h.reposted_le, h.avail, h.used, h.owners,
      h.frames, h.small, fun k m d hk => ?_⟩, ?_⟩
    · dsimp only
      rw [h.lastUsed, counter_succ, List.length_append, List.length_singleton]
    · dsimp only at hk
      by_cases hlast : k < s.got.length
      · rw [List.getElem?_append_left hlast] at hk
        exact h.got k m d hk
      · have hk' := (List.getElem?_eq_some_iff.mp hk).1
        rw [List.length_append, List.length_singleton] at hk'
        obtain rfl : k = s.got.length := by omega
        rw [List.getElem?_concat_length] at hk
        cases hk
        exact ⟨desc, bytes, hentry, hdata⟩
    · show s.reposted = (s.got ++ [(maxLen, data)]).length
      rw [List.length_append, List.length_singleton, hr]

theorem rxNext_inv (h : RxInv s) (e : RxEvent) : RxInv (rxNext s e) := by
  unfold rxNext
  cases e with
  | recv valid maxLen =>
    have hat := h.atPc
    simp only [rxStep]
    cases hpc : s.pc with
    | out =>
      rw [hpc] at hat
      dsimp only
      split
      · exact h
      · exact ⟨h.toRxCounts.at_pc _, hat⟩
    | _ => exact h
  | run => exact rxRun_inv h
  | take => exact rxTake_inv h
  | write desc bytes => exact rxWrite_inv h desc bytes
  | use desc len => exact rxUse_inv h desc len

/-- What a call returns is right for the frames that were completed. -/
structure RxSound (s : NetRx) (e : RxEvent) : Prop where
  empty : ∀ maxLen, s.pc = .entered maxLen → (rxStep s e).1 = some 0 → s.got.length = s.usedLog.length
  valid : ∀ maxLen, s.pc = .found maxLen → (rxStep s e).1 = none
  next : ∀ maxLen data, s.pc = .posted maxLen data → (rxStep s e).1 = some data.length →
    ∃ desc bytes, s.usedLog[s.got.length]? = some (desc, bytes) ∧ data = rxData maxLen bytes

theorem rxSound (h : RxInv s) (e : RxEvent) : RxSound s e := by
  have hat := h.atPc
  refine ⟨fun maxLen hpc hret => ?_, fun maxLen hpc => ?_, fun maxLen data hpc _ => ?_⟩ <;> rw [hpc] at hat
  · cases e with
    | run =>
      simp only [rxStep, rxRun, hpc] at hret
      split at hret
      · rename_i heq
        exact ((h.toRxCounts.used_iff hat).mp heq).symm
      · cases hret
    | recv valid m =>
      simp only [rxStep, hpc] at hret
      cases hret
    | take => cases hret
    | write => cases hret
    | use => cases hret
  · cases e with
    | run =>
      obtain ⟨desc, bytes, hcall⟩ := hat
      obtain ⟨hdesc, -⟩ := h.toRxCounts.waiting (by rw [hcall.1]) hcall.2
      have hmod : desc % 2 ^ 16 = desc := Nat.mod_eq_of_lt (Nat.lt_of_lt_of_le hdesc (by decide))
      simp only [rxStep, rxRun, hpc, h.toRxCounts.usedElem hcall, hmod]
      rw [if_neg (Nat.not_le.mpr hdesc)]
    | recv valid m => simp only [rxStep, hpc]
    | take => rfl
    | write => rfl
    | use => rfl
  · exact hat.2

/-! ### The call goes on -/

/-- The limit of the call, and how many steps of it are left. -/
def RxPc.left : RxPc → Option (Nat × Nat)
  | .out => none
  | .entered maxLen => some (maxLen, 7)
  | .found maxLen => some (maxLen, 6)
  | .indexed maxLen _ => some (maxLen, 5)
  | .copied maxLen _ _ => some (maxLen, 4)
  | .described maxLen _ _ => some (maxLen, 3)
  | .listed maxLen _ _ => some (maxLen, 2)
  | .posted maxLen _ => some (maxLen, 1)

def RxEvent.isRun : RxEvent → Bool
  | .run => true
  | _ => false

/-- A call is on its way with these steps left, and this frame is the next one. -/
structure RxWaits (s : NetRx) (maxLen left : Nat) (bytes : List UInt8) : Prop where
  left : s.pc.left = some (maxLen, left)
  next : ∃ desc, s.usedLog[s.got.length]? = some (desc, bytes)

/-- What the device does, and what is no step of the call, leaves the call where it is. -/
theorem RxWaits.others {left : Nat} (hw : RxWaits s maxLen left bytes) (he : e.isRun = false) :
    RxWaits (rxNext s e) maxLen left bytes ∧ (rxNext s e).got = s.got := by
  obtain ⟨hleft, desc, hnext⟩ := hw
  cases e with
  | run => cases he
  | recv valid m =>
    have hsame : rxNext s (.recv valid m) = s := by
      unfold rxNext
      simp only [rxStep]
      cases hpc : s.pc with
      | out =>
        rw [hpc] at hleft
        cases hleft
      | _ => rfl
    rw [hsame]
    exact ⟨⟨hleft, desc, hnext⟩, rfl⟩
  | take =>
    unfold rxNext rxStep rxTake
    dsimp only
    split <;> exact ⟨⟨hleft, desc, hnext⟩, rfl⟩
  | write d b =>
    unfold rxNext rxStep rxWrite
    dsimp only
    split <;> exact ⟨⟨hleft, desc, hnext⟩, rfl⟩
  | use d len =>
    unfold rxNext rxStep rxUse
    dsimp only
    split
    · refine ⟨⟨hleft, desc, ?_⟩, rfl⟩
      dsimp only
      rwa [List.getElem?_append_left (List.getElem?_eq_some_iff.mp hnext).1]
    · exact ⟨⟨hleft, desc, hnext⟩, rfl⟩

/-- A step of the call is one less that is left, and the last one returns the frame. -/
theorem RxWaits.run (h : RxInv s) {left : Nat} (hw : RxWaits s maxLen (left + 1) bytes) :
    if left = 0 then (rxStep s .run).1 = some (rxData maxLen bytes).length ∧
        (rxNext s .run).got = s.got ++ [(maxLen, rxData maxLen bytes)]
      else RxWaits (rxNext s .run) maxLen left bytes ∧ (rxNext s .run).got = s.got := by
  obtain ⟨hleft, desc, hnext⟩ := hw
  have hcounts := h.toRxCounts
  have hat := h.atPc
  have hlt : s.got.length < s.usedLog.length := (List.getElem?_eq_some_iff.mp hnext).1
  unfold rxNext rxStep rxRun
  cases hpc : s.pc <;> rw [hpc] at hat hleft <;> cases hleft <;> dsimp only
  case entered =>
    have hne : s.usedIdx ≠ s.lastUsed := fun heq => by
      have hlen := (hcounts.used_iff hat).mp heq
      omega
    rw [if_neg (by omega), if_neg hne]
    exact ⟨⟨rfl, desc, hnext⟩, rfl⟩
  case found =>
    obtain ⟨d, b, hcall⟩ := hat
    obtain ⟨hd, -⟩ := hcounts.waiting (by rw [hcall.1]) hcall.2
    have hmod : d % 2 ^ 16 = d := Nat.mod_eq_of_lt (Nat.lt_of_lt_of_le hd (by decide))
    rw [if_neg (by omega), hcounts.usedElem hcall]
    dsimp only
    rw [hmod, if_neg (Nat.not_le.mpr hd)]
    exact ⟨⟨rfl, desc, hnext⟩, rfl⟩
  case posted data =>
    obtain ⟨-, d, b, hentry, rfl⟩ := hat
    rw [hnext] at hentry
    cases hentry
    rw [if_pos rfl]
    exact ⟨rfl, rfl⟩
  all_goals exact ⟨⟨rfl, desc, hnext⟩, rfl⟩

/-- Whatever the device does in between, the call returns the frame with its last step. -/
theorem RxWaits.returns (h : RxInv s) {left : Nat} (hw : RxWaits s maxLen (left + 1) bytes) {es : List RxEvent}
    (hes : left < es.countP RxEvent.isRun) :
    ∃ es' es'', es = es' ++ .run :: es'' ∧ es'.countP RxEvent.isRun = left ∧
      (rxStep (es'.foldl rxNext s) .run).1 = some (rxData maxLen bytes).length ∧
      (rxNext (es'.foldl rxNext s) .run).got = s.got ++ [(maxLen, rxData maxLen bytes)] := by
  induction es generalizing s left with
  | nil => simp at hes
  | cons e es ih =>
    cases he : e.isRun with
    | false =>
      obtain ⟨hw', hgot⟩ := hw.others he
      rw [List.countP_cons_of_neg (by simp [he])] at hes
      obtain ⟨es', es'', rfl, hcount, hret, hdata⟩ := ih (rxNext_inv h e) hw' hes
      refine ⟨e :: es', es'', rfl, ?_, hret, by rw [← hgot]; exact hdata⟩
      rw [List.countP_cons_of_neg (by simp [he]), hcount]
    | true =>
      obtain rfl : e = .run := by
        cases e with
        | run => rfl
        | _ => cases he
      have hrun := hw.run h
      cases left with
      | zero =>
        rw [if_pos rfl] at hrun
        exact ⟨[], es, rfl, rfl, hrun.1, hrun.2⟩
      | succ left =>
        rw [if_neg (by omega)] at hrun
        obtain ⟨hw', hgot⟩ := hrun
        rw [List.countP_cons_of_pos he] at hes
        obtain ⟨es', es'', rfl, hcount, hret, hdata⟩ := ih (rxNext_inv h .run) hw' (by omega)
        refine ⟨.run :: es', es'', rfl, ?_, hret, by rw [← hgot]; exact hdata⟩
        rw [List.countP_cons_of_pos he, hcount]

end Steps

theorem netRxInit_inv : RxInv netRxInit := by
  have hrange : ∀ k a, (List.range virtioNetQueueSize)[k]? = some a → k % virtioNetQueueSize = a := by
    intro k a ha
    obtain ⟨hk, hget⟩ := List.getElem?_eq_some_iff.mp ha
    rw [List.getElem_range] at hget
    rw [List.length_range] at hk
    rw [← hget, Nat.mod_eq_of_lt hk]
  refine ⟨⟨rfl, fun i => List.length_replicate, ?_, ?_, rfl, rfl, Nat.zero_le _, Nat.zero_le _,
    fun k a _ ha => hrange k a ha,
    fun k a _ ha => ?_, ?_, fun k d bytes _ hentry => ?_, fun entry hmem => ?_,
    fun k m data hk => ?_⟩, ?_⟩
  · simp [netRxInit]
  · simp [netRxInit]
  · simp [netRxInit] at ha
  · simp [netRxInit, NetRx.owners]
  · simp [netRxInit] at hentry
  · simp [netRxInit] at hmem
  · simp [netRxInit] at hk
  · show (List.range virtioNetQueueSize).length - virtioNetQueueSize = 0
    simp

/-! ## Both queues -/

structure VirtioNet where
  tx : NetTx
  rx : NetRx

inductive NetEvent
  | tx (e : TxEvent)
  | rx (e : RxEvent)

/-- After `virtio_net_init`. -/
def virtioNetInit : VirtioNet := ⟨netTxInit, netRxInit⟩

/-- The queues have nothing in common, so a call of one may come in the middle of a call of the other. -/
def netNext (s : VirtioNet) : NetEvent → VirtioNet
  | .tx e => { s with tx := txNext s.tx e }
  | .rx e => { s with rx := rxNext s.rx e }

/-- What the driver promises of a state, and of each step that may come next. -/
structure NetOk (s : VirtioNet) : Prop where
  send : ∀ e, TxSound s.tx e
  wire : s.tx.wire <+: s.tx.sent.map txBytes
  recv : ∀ e, RxSound s.rx e
  got : ∀ (k maxLen : Nat) (data : List UInt8), s.rx.got[k]? = some (maxLen, data) →
    ∃ desc bytes, s.rx.usedLog[k]? = some (desc, bytes) ∧ data = (bytes.drop virtioNetHdrSize).take maxLen
  owners : s.rx.owners.Perm (List.range virtioNetQueueSize)
  /-- With its seventh step a call that has begun returns the next frame, where one is completed. -/
  returns : ∀ (maxLen desc : Nat) (bytes : List UInt8) (es : List RxEvent), s.rx.pc = .entered maxLen →
    s.rx.usedLog[s.rx.got.length]? = some (desc, bytes) → 7 ≤ es.countP RxEvent.isRun →
    ∃ es' es'', es = es' ++ .run :: es'' ∧ es'.countP RxEvent.isRun = 6 ∧
      (rxStep (es'.foldl rxNext s.rx) .run).1 = some ((bytes.drop virtioNetHdrSize).take maxLen).length ∧
      (rxNext (es'.foldl rxNext s.rx) .run).got = s.rx.got ++ [(maxLen, (bytes.drop virtioNetHdrSize).take maxLen)]

/-- No frame is longer than its buffer. -/
theorem RxCounts.data_eq {s : NetRx} (h : RxCounts s) {k desc : Nat} {bytes : List UInt8}
    (hentry : s.usedLog[k]? = some (desc, bytes)) (maxLen : Nat) :
    rxData maxLen bytes = (bytes.drop virtioNetHdrSize).take maxLen := by
  have hsmall := h.small _ (List.mem_of_getElem? hentry)
  have hlen : (bytes.drop virtioNetHdrSize).length ≤ virtioNetFrameSize := by
    rw [List.length_drop]
    unfold rxBufSize at hsmall
    dsimp only at hsmall
    omega
  rw [rxData, ← List.take_take, List.take_of_length_le hlen]

theorem netOk {s : VirtioNet} (htx : TxInv s.tx) (hrx : RxInv s.rx) : NetOk s := by
  refine ⟨txSound htx, ?_, rxSound hrx, fun k maxLen data hk => ?_, hrx.owners,
    fun maxLen desc bytes es hpc hentry hes => ?_⟩
  · rw [htx.wire]
    exact List.take_prefix _ _
  · obtain ⟨desc, bytes, hentry, hdata⟩ := hrx.got k maxLen data hk
    exact ⟨desc, bytes, hentry, hdata.trans (hrx.data_eq hentry maxLen)⟩
  · have hwaits : RxWaits s.rx maxLen 7 bytes := ⟨by rw [hpc]; rfl, desc, hentry⟩
    rw [← hrx.data_eq hentry maxLen]
    exact hwaits.returns hrx hes

/-- Both queues keep their promises in every state of a run. -/
theorem virtioNet_run (es : List NetEvent) : NetOk (es.foldl netNext virtioNetInit) := by
  have hinv : ∀ s : VirtioNet, TxInv s.tx → RxInv s.rx →
      TxInv (es.foldl netNext s).tx ∧ RxInv (es.foldl netNext s).rx := by
    induction es with
    | nil => exact fun s htx hrx => ⟨htx, hrx⟩
    | cons e es ih =>
      intro s htx hrx
      cases e with
      | tx e => exact ih _ (txNext_inv htx e) hrx
      | rx e => exact ih _ htx (rxNext_inv hrx e)
  obtain ⟨htx, hrx⟩ := hinv virtioNetInit netTxInit_inv netRxInit_inv
  exact netOk htx hrx

end Armonios
