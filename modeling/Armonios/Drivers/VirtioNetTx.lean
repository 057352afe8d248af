import Armonios.Lib.Overlay
import Armonios.Lib.RingLog
import Armonios.Lib.Run

/-!
# Sending frames

`virtio_net_send` of `drivers/net/virtio_net.c`, one store or one spin a step, between the completions of the device.
All frames are sent from `g_tx_buf`; `g_tx_pending` says that the device may have it.

* `txNext_inv`: what holds at each place of a call;
* `txSound`: a call that returns 0 has its own frame on the wire, and nothing is stored to a frame that the device has.

The device has at most one frame, so a change of `g_tx_used.idx` is the end of that one, however late it comes.
-/

namespace Armonios

/-- `VIRTIO_NET_QUEUE_SIZE`. -/
def virtioNetQueueSize : Nat := 16

/-- `VIRTIO_NET_POLL_LIMIT`. -/
def virtioNetPollLimit : Nat := 100000

/-- `VIRTIO_NET_FRAME_SIZE`. -/
def virtioNetFrameSize : Nat := 1536

/-- `VIRTIO_NET_HDR_SIZE`. -/
def virtioNetHdrSize : Nat := 12

/-- `TX_BUF_SIZE`. -/
def txBufSize : Nat := virtioNetHdrSize + virtioNetFrameSize

/-- Where the call is, with the frame that is sent. -/
inductive TxPc
  | out
  | entered (frame : List UInt8)
  | reclaiming (frame : List UInt8)
  | checked (frame : List UInt8)
  | filled (frame : List UInt8)
  | chained (frame : List UInt8)
  | available (frame : List UInt8)
  | polling (frame : List UInt8) (spins : Nat)
  | changed (frame : List UInt8)

/-- The globals and the device. `sent` are the frames that were made available, and `wire` is what the device has read
of those that it has completed; `acked` counts the ones that the driver knows of. -/
structure NetTx where
  ready : Bool
  buf : List UInt8
  descLen : Nat
  availRing : Nat → BitVec 16
  availIdx : BitVec 16
  usedIdx : BitVec 16
  lastUsed : BitVec 16
  pending : Bool
  pc : TxPc
  sent : List (List UInt8)
  wire : List (List UInt8)
  acked : Nat

/-- After `virtio_net_init`. -/
def netTxInit : NetTx where
  ready := true
  buf := List.replicate txBufSize 0
  descLen := 0
  availRing := fun _ => 0
  availIdx := 0
  usedIdx := 0
  lastUsed := 0
  pending := false
  pc := .out
  sent := []
  wire := []
  acked := 0

/-- The bytes of a frame behind its header. -/
def txBytes (frame : List UInt8) : List UInt8 := List.replicate virtioNetHdrSize 0 ++ frame

inductive TxEvent
  | send (data : Option (List UInt8))
  | run
  | complete

inductive TxCell
  | buf
  | desc
  deriving DecidableEq

/-- What the driver does in a step: the value that the call returns, and what it stores to. -/
structure TxOut where
  returned : Option Int
  stored : List TxCell

def TxOut.none : TxOut := ⟨Option.none, []⟩

/-- The checks of the arguments; `none` is a null pointer. -/
def txSend (data : Option (List UInt8)) (s : NetTx) : TxOut × NetTx :=
  match data with
  | none => (⟨some (-1), []⟩, s)
  | some data =>
    if s.ready = false ∨ data.length = 0 then (⟨some (-1), []⟩, s)
    else (.none, { s with pc := .entered (data.take virtioNetFrameSize) })

/-- The next step of the call. -/
def txRun (s : NetTx) : TxOut × NetTx :=
  match s.pc with
  | .out => (.none, s)
  | .entered frame =>
    if s.usedIdx ≠ s.lastUsed then (.none, { s with pc := .reclaiming frame })
    else (.none, { s with pc := .checked frame })
  | .reclaiming frame =>
    (.none, { s with lastUsed := s.usedIdx, pending := false, pc := .checked frame, acked := s.wire.length })
  | .checked frame =>
    if s.pending then (⟨some (-2), []⟩, { s with pc := .out })
    else (⟨none, [.buf]⟩, { s with buf := overlay 0 (txBytes frame) s.buf, pc := .filled frame })
  | .filled frame => (⟨none, [.desc]⟩, { s with descLen := virtioNetHdrSize + frame.length, pc := .chained frame })
  | .chained frame =>
    -- the device has the frame from here on
    (.none, { s with
      availRing := Function.update s.availRing (s.availIdx.toNat % virtioNetQueueSize) 0
      availIdx := s.availIdx + 1
      pc := .available frame
      sent := s.sent ++ [frame] })
  | .available frame => (.none, { s with pending := true, pc := .polling frame 0 })
  | .polling frame spins =>
    if spins < virtioNetPollLimit then
      if s.usedIdx ≠ s.lastUsed then (.none, { s with pc := .changed frame })
      else (.none, { s with pc := .polling frame (spins + 1) })
    else (⟨some (-2), []⟩, { s with pc := .out })
  | .changed _ =>
    (⟨some 0, []⟩, { s with lastUsed := s.usedIdx, pending := false, pc := .out, acked := s.wire.length })

/-- The device has read the frame that it has. -/
def txComplete (s : NetTx) : NetTx :=
  if s.wire.length < s.sent.length then
    { s with usedIdx := s.usedIdx + 1, wire := s.wire ++ [s.buf.take s.descLen] }
  else s

def txStep (s : NetTx) : TxEvent → TxOut × NetTx
  | .send data => match s.pc with
    | .out => txSend data s
    | _ => (.none, s)
  | .run => txRun s
  | .complete => (.none, txComplete s)

def txNext (s : NetTx) (e : TxEvent) : NetTx := (txStep s e).2

/-- A call that succeeds has its own frame on the wire, and nothing is stored to what the device has. -/
structure TxSound (s : NetTx) (e : TxEvent) : Prop where
  own : (txStep s e).1.returned = some 0 → ∃ frame, s.pc = .changed frame ∧ s.sent.getLast? = some frame ∧
    s.wire = s.sent.map txBytes
  kept : (txStep s e).1.stored ≠ [] → s.wire.length = s.sent.length

/-! ## The invariant -/

/-- The counters, and the frame that the device has. -/
structure TxCounts (s : NetTx) : Prop where
  size : s.buf.length = txBufSize
  availIdx : s.availIdx = BitVec.ofNat 16 s.sent.length
  usedIdx : s.usedIdx = BitVec.ofNat 16 s.wire.length
  lastUsed : s.lastUsed = BitVec.ofNat 16 s.acked
  acked_le : s.acked ≤ s.wire.length
  wire_le : s.wire.length ≤ s.sent.length
  one : s.sent.length ≤ s.acked + 1
  wire : s.wire = (s.sent.map txBytes).take s.wire.length
  frame : s.wire.length < s.sent.length → ∀ frame, s.sent.getLast? = some frame → s.buf.take s.descLen = txBytes frame

/-- What holds at each place of a call. -/
def TxAtPc (s : NetTx) : TxPc → Prop
  | .out => (s.pending = false → s.acked = s.sent.length)
  | .entered frame | .checked frame => frame.length ≤ virtioNetFrameSize ∧ (s.pending = false → s.acked = s.sent.length)
  | .reclaiming frame => frame.length ≤ virtioNetFrameSize ∧ s.wire.length = s.sent.length
  | .filled frame => frame.length ≤ virtioNetFrameSize ∧ s.acked = s.sent.length ∧
      s.buf.take (virtioNetHdrSize + frame.length) = txBytes frame ∧ s.pending = false
  | .chained frame => s.acked = s.sent.length ∧ s.buf.take s.descLen = txBytes frame
  | .available frame => s.sent.getLast? = some frame ∧ s.sent.length = s.acked + 1
  | .polling frame _ => s.sent.getLast? = some frame ∧ s.sent.length = s.acked + 1 ∧ s.pending = true
  | .changed frame => s.sent.getLast? = some frame ∧ s.wire.length = s.sent.length

structure TxInv (s : NetTx) : Prop extends TxCounts s where
  atPc : TxAtPc s s.pc

section Steps

variable {s : NetTx} {e : TxEvent} {frame : List UInt8}

/-- The counters differ exactly if the device has completed a frame since. -/
theorem TxCounts.used_iff (h : TxCounts s) : s.usedIdx = s.lastUsed ↔ s.wire.length = s.acked := by
  have hle := h.acked_le
  have hw := h.wire_le
  have hone := h.one
  rw [h.usedIdx, h.lastUsed, eq_comm, counter_eq_iff hle (by omega), eq_comm]

theorem take_txFrame (hsize : s.buf.length = txBufSize) (hframe : frame.length ≤ virtioNetFrameSize) :
    (overlay 0 (txBytes frame) s.buf).take (virtioNetHdrSize + frame.length) = txBytes frame := by
  have hlen : (txBytes frame).length = virtioNetHdrSize + frame.length := by
    simp [txBytes]
  have htake := take_overlay 0 (txBytes frame) s.buf (by rw [hlen, hsize, txBufSize]; omega)
  rw [Nat.zero_add, List.take_zero, List.nil_append, hlen] at htake
  exact htake

/-- Only the place changes. -/
theorem TxCounts.at_pc (h : TxCounts s) (pc : TxPc) : TxCounts { s with pc := pc } :=
  ⟨h.size, h.availIdx, h.usedIdx, h.lastUsed, h.acked_le, h.wire_le, h.one, h.wire, h.frame⟩

/-- The driver takes note of the frames that are completed. -/
theorem TxCounts.reclaim (h : TxCounts s) (hall : s.wire.length = s.sent.length) (pc : TxPc) :
    TxCounts { s with lastUsed := s.usedIdx, pending := false, pc := pc, acked := s.wire.length } :=
  ⟨h.size, h.availIdx, h.usedIdx, h.usedIdx, Nat.le_refl _, h.wire_le, by dsimp only; omega, h.wire, h.frame⟩

theorem txSend_inv (h : TxInv s) (hpc : s.pc = .out) (data : Option (List UInt8)) : TxInv (txSend data s).2 := by
  have hat := h.atPc
  rw [hpc] at hat
  unfold txSend
  cases data with
  | none => exact h
  | some data =>
    dsimp only
    split
    · exact h
    · exact ⟨h.toTxCounts.at_pc _, List.length_take_le _ _, hat⟩

theorem txComplete_inv (h : TxInv s) : TxInv (txComplete s) := by
  unfold txComplete
  split
  · rename_i hlt
    have hone := h.one
    have hacked := h.acked_le
    have hne : s.sent ≠ [] := List.ne_nil_of_length_pos (by omega)
    have hbytes := h.frame hlt _ (List.getLast?_eq_some_getLast hne)
    -- the frame is the only one that the device had
    have hwire : s.wire ++ [s.buf.take s.descLen] = s.sent.map txBytes := by
      have hsplit := List.dropLast_append_getLast hne
      have hfirst : s.wire = s.sent.dropLast.map txBytes := by
        rw [h.wire, List.map_take.symm, List.dropLast_eq_take]
        congr 2
        omega
      rw [hbytes, hfirst]
      conv_rhs => rw [← hsplit]
      simp
    have hlen : s.wire.length + 1 = s.sent.length := by omega
    refine ⟨⟨h.size, h.availIdx, ?_, h.lastUsed, ?_, ?_, h.one, ?_, ?_⟩, ?_⟩
    · rw [h.usedIdx, counter_succ]
      simp
    · simp
      omega
    · simp
      omega
    · dsimp only
      rw [hwire, List.take_of_length_le (by simp)]
    · intro hno
      simp at hno
      omega
    · have hat := h.atPc
      simp only
      cases hpc : s.pc <;> rw [hpc] at hat
      case out => exact hat
      case entered frame => exact hat
      case reclaiming frame =>
        have := hat.2
        omega
      case checked frame => exact hat
      case filled frame => exact hat
      case chained frame => exact hat
      case available frame => exact hat
      case polling frame spins => exact hat
      case changed frame =>
        have := hat.2
        omega
  · exact h

/-- A step of the driver keeps the invariant. -/
theorem txRun_inv (h : TxInv s) : TxInv (txRun s).2 := by
  have hcounts := h.toTxCounts
  have hused := hcounts.used_iff
  have hat := h.atPc
  have hacked := h.acked_le
  have hle := h.wire_le
  have hone := h.one
  unfold txRun
  cases hpc : s.pc <;> rw [hpc] at hat <;> dsimp only
  case out => exact h
  case entered frame =>
    split
    · rename_i hne
      rw [ne_eq, hused] at hne
      exact ⟨hcounts.at_pc _, hat.1, by dsimp only; omega⟩
    · exact ⟨hcounts.at_pc _, hat⟩
  case reclaiming frame => exact ⟨hcounts.reclaim hat.2 _, hat.1, fun _ => hat.2⟩
  case checked frame =>
    by_cases hp : s.pending = true
    · rw [if_pos hp]
      exact ⟨hcounts.at_pc _, fun hno => absurd (hp.symm.trans hno) (by decide)⟩
    · rw [if_neg hp]
      rw [Bool.not_eq_true] at hp
      have hall := hat.2 hp
      refine ⟨⟨?_, h.availIdx, h.usedIdx, h.lastUsed, h.acked_le, h.wire_le, h.one, h.wire, ?_⟩, hat.1, hall, ?_, hp⟩
      · exact (length_overlay _ _ _).trans h.size
      · intro hlt
        exact absurd (show s.wire.length < s.sent.length from hlt) (by omega)
      · exact take_txFrame h.size hat.1
  case filled frame =>
    obtain ⟨hframe, hall, hbytes, -⟩ := hat
    refine ⟨⟨h.size, h.availIdx, h.usedIdx, h.lastUsed, h.acked_le, h.wire_le, h.one, h.wire, ?_⟩, hall, hbytes⟩
    intro hlt
    dsimp only at hlt
    omega
  case chained frame =>
    obtain ⟨hall, hbytes⟩ := hat
    refine ⟨⟨h.size, ?_, h.usedIdx, h.lastUsed, h.acked_le, ?_, ?_, ?_, ?_⟩, ?_, ?_⟩
    · rw [h.availIdx, counter_succ]
      simp
    · simp
      omega
    · simp
      omega
    · have hwire := h.wire
      dsimp only
      rw [List.map_append, List.take_append_of_le_length (by simpa using hle)]
      exact hwire
    · intro _ last hlast
      rw [List.getLast?_concat] at hlast
      cases hlast
      exact hbytes
    · exact List.getLast?_concat ..
    · simp
      omega
  case available frame =>
    exact ⟨⟨h.size, h.availIdx, h.usedIdx, h.lastUsed, h.acked_le, h.wire_le, h.one, h.wire, h.frame⟩, hat.1,
      hat.2, rfl⟩
  case polling frame spins =>
    split
    · split
      · rename_i hne
        rw [ne_eq, hused] at hne
        exact ⟨hcounts.at_pc _, hat.1, by dsimp only; omega⟩
      · exact ⟨hcounts.at_pc _, hat⟩
    · exact ⟨hcounts.at_pc _, fun hno => absurd (hat.2.2.symm.trans hno) (by decide)⟩
  case changed frame => exact ⟨hcounts.reclaim hat.2 _, fun _ => hat.2⟩

theorem txNext_inv (h : TxInv s) (e : TxEvent) : TxInv (txNext s e) := by
  unfold txNext
  cases e with
  | send data =>
    simp only [txStep]
    cases hpc : s.pc with
    | out => exact txSend_inv h hpc data
    | _ => exact h
  | run => exact txRun_inv h
  | complete => exact txComplete_inv h

/-- The checks of a call return no success and store to nothing. -/
theorem txSend_out (s : NetTx) (data : Option (List UInt8)) :
    (txStep s (.send data)).1.returned ≠ some 0 ∧ (txStep s (.send data)).1.stored = [] := by
  simp only [txStep]
  cases s.pc with
  | out =>
    unfold txSend
    cases data with
    | none => simp
    | some data =>
      dsimp only
      split <;> simp [TxOut.none]
  | _ => simp [TxOut.none]

theorem txSound (h : TxInv s) (e : TxEvent) : TxSound s e := by
  have hat := h.atPc
  cases e with
  | send data =>
    obtain ⟨hret, hstored⟩ := txSend_out s data
    exact ⟨fun h0 => absurd h0 hret, fun hne => absurd hstored hne⟩
  | complete => exact ⟨fun hret => (nomatch hret), fun hstored => absurd rfl hstored⟩
  | run =>
    cases hpc : s.pc <;> rw [hpc] at hat
    case out | reclaiming | chained | available => constructor <;> simp [txStep, txRun, hpc, TxOut.none]
    case entered frame =>
      constructor <;> simp only [txStep, txRun, hpc] <;> split <;> simp [TxOut.none]
    case polling frame spins =>
      constructor <;> simp only [txStep, txRun, hpc] <;> split <;> (try split) <;> simp [TxOut.none]
    case checked frame =>
      constructor <;> simp only [txStep, txRun, hpc]
      · split <;> simp
      · split
        · simp
        · rename_i hp
          have hall := hat.2 (by simpa using hp)
          have hacked := h.acked_le
          have hle := h.wire_le
          intro _
          omega
    case filled frame =>
      have hacked := h.acked_le
      have hle := h.wire_le
      exact ⟨fun hret => by simp [txStep, txRun, hpc] at hret, fun _ => by have := hat.2.1; omega⟩
    case changed frame =>
      refine ⟨fun _ => ⟨frame, hpc, hat.1, ?_⟩, fun hstored => by simp [txStep, txRun, hpc] at hstored⟩
      rw [h.wire, List.take_of_length_le (by simp [hat.2])]

end Steps

theorem netTxInit_inv : TxInv netTxInit := by
  refine ⟨⟨List.length_replicate, rfl, rfl, rfl, Nat.le_refl _, Nat.le_refl _, Nat.zero_le _, rfl, fun hlt => ?_⟩,
    fun _ => rfl⟩
  exact absurd hlt (Nat.lt_irrefl 0)

end Armonios
