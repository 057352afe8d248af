import Armonios.Lib.Run
import Mathlib.Data.List.Basic

/-!
# Requests to the block device

`virtio_blk_read_sector` and `virtio_blk_write_sector` of `drivers/storage/virtio_blk.c`, one store or one spin a step,
between the steps of a device that completes each request once, whenever it likes. The header, the status byte and the
descriptors are static, and all requests share them.

* `blkRun_sound`: a run keeps to the rules (`BlkSound`) exactly if each call begins when the device has no request.
* `blkRun_late`: a request that is completed after its time-out ends a later call.

The driver takes any change of `g_used.idx` for the end of its request.
-/

namespace Armonios

/-- `VIRTIO_BLK_POLL_LIMIT`. -/
def virtioBlkPollLimit : Nat := 10000000

/-- `VIRTIO_BLK_QUEUE_SIZE`. -/
def virtioBlkQueueSize : Nat := 8

/-- `virtio_blk_read_sector` or `virtio_blk_write_sector`. -/
inductive BlkOp
  | read
  | write
  deriving DecidableEq

/-- `VIRTIO_BLK_T_IN` and `VIRTIO_BLK_T_OUT`. -/
def BlkOp.type : BlkOp → BitVec 32
  | read => 0
  | write => 1

/-- The flags of `g_desc[1]`: the device writes what is read. -/
def BlkOp.flags : BlkOp → BitVec 16
  | read => 1 ||| 2
  | write => 1

/-- `virtio_blk_req_t`. -/
structure BlkReq where
  type : BitVec 32
  reserved : BitVec 32
  sector : BitVec 64
  deriving DecidableEq

/-- What the address of a descriptor is the address of. -/
inductive BlkAddr
  | null
  | request
  | buffer (addr : BitVec 64)
  | status
  deriving DecidableEq

/-- `virtq_desc_t`. -/
structure BlkDesc where
  addr : BlkAddr
  len : BitVec 32
  flags : BitVec 16
  next : BitVec 16
  deriving DecidableEq

/-- Where the call is. -/
inductive BlkPc
  | out
  | filled (op : BlkOp) (buffer : BitVec 64)
  | chained
  | polling (spins : Nat)
  | changed
  | acked
  deriving DecidableEq

/-- The globals and the device. The requests are numbered in the order in which they are made available; `owned` and
`completed` are those that the device has and has had. -/
structure Blk where
  ready : Bool
  request : BlkReq
  status : BitVec 8
  desc : Vector BlkDesc virtioBlkQueueSize
  availRing : Vector (BitVec 16) virtioBlkQueueSize
  availIdx : BitVec 16
  usedIdx : BitVec 16
  lastUsedIdx : BitVec 16
  pc : BlkPc
  posted : Nat
  owned : List Nat
  completed : List (Nat × BitVec 8)

/-- After `virtio_blk_init`. -/
def virtioBlkInit : Blk where
  ready := true
  request := ⟨0, 0, 0⟩
  status := 0xff
  desc := Vector.replicate _ ⟨.null, 0, 0, 0⟩
  availRing := Vector.replicate _ 0
  availIdx := 0
  usedIdx := 0
  lastUsedIdx := 0
  pc := .out
  posted := 0
  owned := []
  completed := []

inductive BlkEvent
  | call (op : BlkOp) (sector buffer : BitVec 64)
  | run
  | complete (request : Nat) (status : BitVec 8)
  deriving DecidableEq

/-- What the device reads or writes of a request. -/
inductive BlkCell
  | request
  | status
  | desc
  deriving DecidableEq

/-- What the driver does in a step: the value that the call returns, and the cells that it stores to. -/
structure BlkOut where
  returned : Option Int
  stored : List BlkCell

def BlkOut.none : BlkOut := ⟨Option.none, []⟩

/-- `g_desc` for a request. -/
def blkChain (op : BlkOp) (buffer : BitVec 64) (desc : Vector BlkDesc virtioBlkQueueSize) :
    Vector BlkDesc virtioBlkQueueSize :=
  ((desc.setIfInBounds 0 ⟨.request, 16, 1, 1⟩).setIfInBounds 1 ⟨.buffer buffer, 512, op.flags, 2⟩).setIfInBounds 2
    ⟨.status, 1, 2, 0⟩

/-- The checks of the arguments, the header and the status byte. -/
def blkCall (op : BlkOp) (sector buffer : BitVec 64) (s : Blk) : BlkOut × Blk :=
  if s.ready = false ∨ buffer = 0#64 then (⟨some (-1), []⟩, s)
  else (⟨none, [.request, .status]⟩,
    { s with request := ⟨op.type, 0, sector⟩, status := 0xff, pc := .filled op buffer })

/-- The next step of the call. -/
def blkRun (s : Blk) : BlkOut × Blk :=
  match s.pc with
  | .out => (.none, s)
  | .filled op buffer => (⟨none, [.desc]⟩, { s with desc := blkChain op buffer s.desc, pc := .chained })
  | .chained =>
    -- the device has the request from here on
    (.none, { s with
      availRing := s.availRing.setIfInBounds (s.availIdx.toNat % virtioBlkQueueSize) 0
      availIdx := s.availIdx + 1
      pc := .polling 0
      posted := s.posted + 1
      owned := s.owned ++ [s.posted] })
  | .polling spins =>
    if spins < virtioBlkPollLimit then
      if s.usedIdx ≠ s.lastUsedIdx then (.none, { s with pc := .changed })
      else (.none, { s with pc := .polling (spins + 1) })
    else (⟨some (-2), []⟩, { s with pc := .out })
  | .changed => (.none, { s with lastUsedIdx := s.usedIdx, pc := .acked })
  | .acked => (⟨some (if s.status = 0#8 then 0 else -3), []⟩, { s with pc := .out })

/-- The device writes the status byte of a request that it has. -/
def blkComplete (request : Nat) (status : BitVec 8) (s : Blk) : Blk :=
  if request ∈ s.owned then
    { s with
      status := status
      usedIdx := s.usedIdx + 1
      owned := s.owned.erase request
      completed := (request, status) :: s.completed }
  else s

def blkStep (s : Blk) : BlkEvent → BlkOut × Blk
  | .call op sector buffer => if s.pc = .out then blkCall op sector buffer s else (.none, s)
  | .run => blkRun s
  | .complete request status => (.none, blkComplete request status s)

def blkNext (s : Blk) (e : BlkEvent) : Blk := (blkStep s e).2

/-- A call that succeeds has its own request completed with status OK, and nothing is stored to what the device has. -/
structure BlkSound (s : Blk) (e : BlkEvent) : Prop where
  own : (blkStep s e).1.returned = some 0 → (s.posted - 1, 0#8) ∈ s.completed
  kept : (blkStep s e).1.stored ≠ [] → s.owned = []

/-- The event begins a request. -/
def BlkStarts (s : Blk) (e : BlkEvent) : Prop :=
  ∃ op sector buffer, e = .call op sector buffer ∧ s.pc = .out ∧ s.ready = true ∧ buffer ≠ 0#64

/-- A request is begun when the device has none. -/
def BlkAlone (s : Blk) (e : BlkEvent) : Prop := BlkStarts s e → s.owned = []

/-! ## Requests one at a time -/

/-- The device has the request of the call, or has completed it. -/
structure BlkWaits (s : Blk) : Prop where
  posted : 0 < s.posted
  owned : (s.owned = [s.posted - 1] ∧ s.status = 0xff) ∨ (s.owned = [] ∧ (s.posted - 1, s.status) ∈ s.completed)

/-- What holds at each place of a call. -/
def BlkAtPc (s : Blk) : BlkPc → Prop
  | .out => True
  | .filled .. | .chained => s.owned = [] ∧ s.status = 0xff
  | .polling _ | .changed | .acked => BlkWaits s

section Steps

variable {s : Blk} {e : BlkEvent}

theorem blkCall_start {op : BlkOp} {sector buffer : BitVec 64} (h : BlkStarts s (.call op sector buffer)) :
    blkStep s (.call op sector buffer) = (⟨none, [.request, .status]⟩,
      { s with request := ⟨op.type, 0, sector⟩, status := 0xff, pc := .filled op buffer }) := by
  obtain ⟨_, _, _, heq, hpc, hready, hbuffer⟩ := h
  cases heq
  simp [blkStep, hpc, blkCall, hready, hbuffer]

/-- A call that begins no request leaves everything as it was. -/
theorem blkCall_idle {op : BlkOp} {sector buffer : BitVec 64} (h : ¬ BlkStarts s (.call op sector buffer)) :
    (blkStep s (.call op sector buffer)).2 = s ∧ (blkStep s (.call op sector buffer)).1.stored = [] ∧
      (blkStep s (.call op sector buffer)).1.returned ≠ some 0 := by
  unfold blkStep
  by_cases hpc : s.pc = .out
  · by_cases hargs : s.ready = false ∨ buffer = 0#64
    · simp [hpc, blkCall, hargs]
    · simp only [not_or, Bool.not_eq_false] at hargs
      exact absurd ⟨_, _, _, rfl, hpc, hargs.1, hargs.2⟩ h
  · simp [hpc, BlkOut.none]

theorem blkComplete_waits {request : Nat} {status : BitVec 8} (h : BlkWaits s) :
    BlkWaits (blkComplete request status s) := by
  unfold blkComplete
  split
  · rename_i hmem
    refine ⟨h.posted, .inr ?_⟩
    rcases h.owned with ⟨howned, -⟩ | ⟨howned, -⟩
    · rw [howned, List.mem_singleton] at hmem
      subst hmem
      simp [howned]
    · rw [howned] at hmem
      cases hmem
  · exact h

theorem blkComplete_pc {request : Nat} {status : BitVec 8} : (blkComplete request status s).pc = s.pc := by
  unfold blkComplete
  split <;> rfl

/-- Each step keeps what holds at the places of a call. -/
theorem blkNext_atPc (h : BlkAtPc s s.pc) (halone : BlkAlone s e) : BlkAtPc (blkNext s e) (blkNext s e).pc := by
  unfold blkNext
  cases e with
  | call op sector buffer =>
    by_cases hstart : BlkStarts s (.call op sector buffer)
    · rw [blkCall_start hstart]
      exact ⟨halone hstart, rfl⟩
    · rw [(blkCall_idle hstart).1]
      exact h
  | complete request status =>
    simp only [blkStep, blkComplete_pc]
    cases hpc : s.pc <;> rw [hpc] at h
    case out => trivial
    case filled | chained =>
      have hnone : request ∉ s.owned := by
        rw [h.1]
        exact List.not_mem_nil
      rw [blkComplete, if_neg hnone]
      exact h
    case polling | changed | acked => exact blkComplete_waits h
  | run =>
    simp only [blkStep, blkRun]
    cases hpc : s.pc <;> rw [hpc] at h
    case out =>
      rw [hpc]
      trivial
    case filled op buffer => exact h
    case chained =>
      refine ⟨Nat.succ_pos _, .inl ⟨?_, h.2⟩⟩
      simp [h.1]
    case polling spins =>
      dsimp only
      split
      · split <;> exact ⟨h.posted, h.owned⟩
      · trivial
    case changed => exact ⟨h.posted, h.owned⟩
    case acked => trivial

/-- A step keeps to the rules exactly if it begins no request while the device has one. -/
theorem sound_iff (h : BlkAtPc s s.pc) : BlkSound s e ↔ BlkAlone s e := by
  cases e with
  | call op sector buffer =>
    by_cases hstart : BlkStarts s (.call op sector buffer)
    · have hstep := blkCall_start hstart
      constructor
      · intro hsound _
        exact hsound.kept (by simp [hstep])
      · intro halone
        exact ⟨fun hret => by simp [hstep] at hret, fun _ => halone hstart⟩
    · obtain ⟨-, hstored, hret⟩ := blkCall_idle hstart
      exact ⟨fun _ hs => absurd hs hstart, fun _ => ⟨fun h => absurd h hret, fun h => absurd hstored h⟩⟩
  | complete request status =>
    refine ⟨fun _ hs => ?_, fun _ => ⟨fun hret => ?_, fun hstored => ?_⟩⟩
    · obtain ⟨_, _, _, heq, -⟩ := hs
      cases heq
    · cases hret
    · exact absurd rfl hstored
  | run =>
    refine ⟨fun _ hs => ?_, fun _ => ?_⟩
    · obtain ⟨_, _, _, heq, -⟩ := hs
      cases heq
    cases hpc : s.pc <;> rw [hpc] at h
    case out | chained | changed => constructor <;> simp [blkStep, blkRun, hpc, BlkOut.none]
    case filled op buffer => exact ⟨fun hret => by simp [blkStep, blkRun, hpc] at hret, fun _ => h.1⟩
    case polling spins =>
      constructor <;> simp only [blkStep, blkRun, hpc] <;> split <;> (try split) <;> simp [BlkOut.none]
    case acked =>
      refine ⟨fun hret => ?_, fun hstored => by simp [blkStep, blkRun, hpc] at hstored⟩
      have hok : s.status = 0#8 := by
        by_contra hno
        simp [blkStep, blkRun, hpc, hno] at hret
      -- the status byte was stored to by the device
      rcases h.owned with ⟨-, hff⟩ | ⟨-, hdone⟩
      · rw [hok] at hff
        exact absurd hff (by decide)
      · rwa [hok] at hdone

end Steps

/-- The rules are kept exactly if each request is begun when the device has none. -/
theorem blkRun_sound (es : List BlkEvent) :
    EachStep blkNext BlkSound virtioBlkInit es ↔ EachStep blkNext BlkAlone virtioBlkInit es :=
  eachStep_iff_while (fun _ _ h halone => blkNext_atPc h halone) (fun _ _ h => sound_iff h) trivial

/-! ## A late completion -/

/-- The spins of a call whose request is not completed. -/
theorem spins_foldl (s : Blk) (n k : Nat) (hk : k + n ≤ virtioBlkPollLimit) (hidx : s.usedIdx = s.lastUsedIdx) :
    (List.replicate n BlkEvent.run).foldl blkNext { s with pc := .polling k } = { s with pc := .polling (k + n) } := by
  induction n generalizing k with
  | zero => rfl
  | succ n ih =>
    rw [List.replicate_succ, List.foldl_cons]
    have hspin : blkNext { s with pc := .polling k } .run = { s with pc := .polling (k + 1) } := by
      have hlt : k < virtioBlkPollLimit := by omega
      simp [blkNext, blkStep, blkRun, hlt, hidx]
    rw [hspin, ih (k + 1) (by omega), Nat.add_assoc, Nat.add_comm 1 n]

/-- A call whose request is not completed in time. -/
def timedOut (op : BlkOp) (sector buffer : BitVec 64) : List BlkEvent :=
  [.call op sector buffer, .run, .run] ++ List.replicate virtioBlkPollLimit .run ++ [.run]

theorem timedOut_foldl {s : Blk} {op : BlkOp} {sector buffer : BitVec 64} (h : BlkStarts s (.call op sector buffer))
    (hidx : s.usedIdx = s.lastUsedIdx) : (timedOut op sector buffer).foldl blkNext s = { s with
      request := ⟨op.type, 0, sector⟩
      status := 0xff
      desc := blkChain op buffer s.desc
      availRing := s.availRing.setIfInBounds (s.availIdx.toNat % virtioBlkQueueSize) 0
      availIdx := s.availIdx + 1
      posted := s.posted + 1
      owned := s.owned ++ [s.posted] } := by
  have hpc : s.pc = .out := by
    obtain ⟨_, _, _, heq, hpc, -⟩ := h
    cases heq
    exact hpc
  have hcall := congrArg Prod.snd (blkCall_start h)
  -- the request is made available
  have hposted : [.call op sector buffer, .run, .run].foldl blkNext s = { s with
      request := ⟨op.type, 0, sector⟩
      status := 0xff
      desc := blkChain op buffer s.desc
      availRing := s.availRing.setIfInBounds (s.availIdx.toNat % virtioBlkQueueSize) 0
      availIdx := s.availIdx + 1
      pc := .polling 0
      posted := s.posted + 1
      owned := s.owned ++ [s.posted] } := by
    simp only [List.foldl_cons, List.foldl_nil, blkNext, hcall]
    rfl
  rw [timedOut, List.foldl_append, List.foldl_append, hposted]
  have hspins := spins_foldl { s with
      request := ⟨op.type, 0, sector⟩
      status := 0xff
      desc := blkChain op buffer s.desc
      availRing := s.availRing.setIfInBounds (s.availIdx.toNat % virtioBlkQueueSize) 0
      availIdx := s.availIdx + 1
      posted := s.posted + 1
      owned := s.owned ++ [s.posted] } virtioBlkPollLimit 0 (by omega) hidx
  dsimp only at hspins
  rw [hspins]
  simp [blkNext, blkStep, blkRun, hpc]

/-- The device completes the first of two requests while the second call waits. -/
def lateRun : List BlkEvent :=
  timedOut .read 5 0x1000 ++ [.call .read 6 0x2000, .run, .run, .complete 0 0, .run, .run, .run]

/-- The second call returns 0 for the first request. -/
theorem blkRun_late : ¬ EachStep blkNext BlkSound virtioBlkInit lateRun := by
  have hstart : BlkStarts virtioBlkInit (.call .read 5 0x1000) := ⟨_, _, _, rfl, rfl, rfl, by decide⟩
  unfold lateRun
  rw [eachStep_append, timedOut_foldl hstart rfl]
  rintro ⟨-, -, -, -, -, -, -, hlast, -⟩
  have hown := hlast.own rfl
  simp [virtioBlkInit, blkNext, blkStep, blkCall, blkRun, blkComplete, virtioBlkPollLimit] at hown

end Armonios
