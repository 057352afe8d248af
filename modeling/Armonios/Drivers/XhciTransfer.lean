import Armonios.Drivers.XhciRing
import Mathlib.Data.Fin.VecNotation

/-!
# Control transfers

`wait_transfer` and `xhci_control_transfer_device` of `drivers/usb/xhci.c`, over the events that `event_next` gets spin by
spin. The length of a transfer is taken from the event of the status stage.

* `waitTransfer_reaches`: the wait comes to the event of its TRB, and puts the others into the stash;
* `controlTransfer_exact_iff`: a transfer reports and copies what the device has sent exactly if that is all that was
  asked for and no event from before is in the stash under the address of its last TRB.
-/

namespace Armonios

def xhciTrbTransferEvent : BitVec 32 := 32
def xhciCcSuccess : BitVec 32 := 1
def xhciCcShortPacket : BitVec 32 := 13
def xhciCompletionStash : Nat := 8
def xhciControlBufSize : UInt16 := 512

/-- `trb_completion_code`. -/
def trbCompletionCode (status : BitVec 32) : BitVec 32 := status >>> 24

/-- `completion_ok`. -/
def CompletionOk (code : BitVec 32) : Prop := code = xhciCcSuccess ∨ code = xhciCcShortPacket

instance (code : BitVec 32) : Decidable (CompletionOk code) := inferInstanceAs (Decidable (_ ∨ _))

/-- The TRB that a transfer event is about: its address, and the slot and the endpoint. -/
structure TrbKey where
  ptr : BitVec 64
  slotId : BitVec 8
  dci : BitVec 8
  deriving DecidableEq

/-- The three fields of an event that are compared. -/
def Trb.IsFor (key : TrbKey) (event : Trb) : Prop :=
  event.parameter = key.ptr ∧ event.control >>> 16 &&& 0x1f = key.dci.setWidth 32 ∧
    event.control >>> 24 &&& 0xff = key.slotId.setWidth 32

instance (key : TrbKey) (event : Trb) : Decidable (event.IsFor key) := inferInstanceAs (Decidable (_ ∧ _ ∧ _))

/-! ## The stash -/

/-- `stashed`, with the events of the entries that are used. -/
abbrev Stash := Fin xhciCompletionStash → Option Trb

def stashPlaces : List (Fin xhciCompletionStash) := List.finRange xhciCompletionStash

def stashTransferEvent (event : Trb) (stash : Stash) : Stash :=
  if trbGetType event.control ≠ xhciTrbTransferEvent then stash
  else
    match stashPlaces.find? fun i => (stash i).isNone with
    | none => stash
    | some i => Function.update stash i (some event)

/-- The first event for the TRB, and the stash without it. -/
def takeStashedTransfer (key : TrbKey) (stash : Stash) : Option (Trb × Stash) :=
  (stashPlaces.find? fun i => (stash i).any fun event => event.IsFor key).bind fun i =>
    (stash i).map fun event => (event, Function.update stash i none)

/-! ## The wait -/

/-- What `wait_transfer` says of a transfer. -/
inductive TransferWait
  | failed
  | pending
  | done (actual : UInt16)
  deriving DecidableEq

/-- The value for an event of the TRB. -/
def transferOutcome (requested : UInt16) (event : Trb) : TransferWait :=
  if CompletionOk (trbCompletionCode event.status) then
    let residue := min (event.status &&& 0x00ffffff).toNat requested.toNat
    .done (UInt16.ofNat (requested.toNat - residue))
  else .failed

/-- The loop over the spins. -/
def waitSpins (key : TrbKey) (requested : UInt16) : List (Option Trb) → Stash → TransferWait × Stash
  | [], stash => (.pending, stash)
  | none :: spins, stash => waitSpins key requested spins stash
  | some event :: spins, stash =>
    if trbGetType event.control ≠ xhciTrbTransferEvent then waitSpins key requested spins stash
    else if ¬ event.IsFor key then waitSpins key requested spins (stashTransferEvent event stash)
    else (transferOutcome requested event, stash)

/-- `wait_transfer`; at most `spinLimit` of the spins are made. -/
def waitTransfer (key : TrbKey) (spinLimit : Nat) (requested : UInt16) (spins : List (Option Trb)) (stash : Stash) :
    TransferWait × Stash :=
  match takeStashedTransfer key stash with
  | some taken => (transferOutcome requested taken.1, taken.2)
  | none => waitSpins key requested (spins.take spinLimit) stash

/-! ## The transfer -/

/-- The places of a transfer ring before its Link TRB. -/
def xhciTransferPlaces : Nat := 31

/-- `xhci_ring_t` of an endpoint that has been set up. -/
structure TransferRing where
  base : BitVec 64
  enqueue : Fin xhciTransferPlaces

/-- The address of a place. -/
def TransferRing.trb (ring : TransferRing) (i : Fin xhciTransferPlaces) : BitVec 64 :=
  ring.base + BitVec.ofNat 64 (16 * i.val)

/-- The place after this one, past the Link TRB. -/
def nextPlace (i : Fin xhciTransferPlaces) : Fin xhciTransferPlaces :=
  ⟨(i.val + 1) % xhciTransferPlaces, Nat.mod_lt _ (by decide)⟩

/-- `ring_push`, without what it stores: the address of the TRB. -/
def TransferRing.push (ring : TransferRing) : BitVec 64 × TransferRing :=
  (ring.trb ring.enqueue, { ring with enqueue := nextPlace ring.enqueue })

/-- What a control transfer works on. -/
structure XhciControl where
  ring : TransferRing
  stash : Stash
  controlBuffer : Nat → UInt8
  inControlXfer : Bool

/-- A call: the slot of the device, the direction of the setup packet, and the caller's bytes. -/
structure ControlRequest where
  slotId : BitVec 8
  isIn : Bool
  data : Option (Nat → UInt8)
  dataSize : UInt16

/-- The size after the clamp. -/
def ControlRequest.size (request : ControlRequest) : UInt16 :=
  if xhciControlBufSize < request.dataSize then xhciControlBufSize else request.dataSize

/-- The addresses of the data and of the status TRB, and the ring after the pushes. Without data there is no data TRB. -/
def controlTrbs (size : UInt16) (ring : TransferRing) : BitVec 64 × BitVec 64 × TransferRing :=
  let setup := ring.push
  let data := if 0 < size then setup.2.push else setup
  let status := data.2.push
  (data.1, status.1, status.2)

/-- What the controller does: the bounce buffer if nobody waits for an event, what `event_next` gets in each spin, and
the bounce buffer at the end of them. -/
structure ControlAnswer where
  atOnce : Nat → UInt8
  spins : List (Option Trb)
  buffer : Nat → UInt8

/-- What a call leaves: its value, the caller's bytes, and the state. -/
structure ControlDone where
  ret : Int
  data : Option (Nat → UInt8)
  state : XhciControl

/-- The first `count` bytes of the one before those of the other. -/
def copyBytes (count : Nat) (src dst : Nat → UInt8) : Nat → UInt8 := fun i => if i < count then src i else dst i

/-- `xhci_control_transfer_device`, for a request other than SET_ADDRESS. -/
def xhciControlTransferDevice (request : ControlRequest) (answer : ControlAnswer) (s : XhciControl) : ControlDone :=
  if request.slotId = 0 then ⟨-1, request.data, s⟩
  else if s.inControlXfer then ⟨-1, request.data, s⟩
  else
    let size := request.size
    let trbs := controlTrbs size s.ring
    let key : TrbKey := ⟨trbs.2.1, request.slotId, 1⟩
    let atOnce := (takeStashedTransfer key s.stash).isSome
    let waited := waitTransfer key 1000000 size answer.spins s.stash
    let state : XhciControl := ⟨trbs.2.2, waited.2, if atOnce then answer.atOnce else answer.buffer, false⟩
    match waited.1 with
    | .failed => ⟨-1, request.data, state⟩
    | .pending => ⟨-1, request.data, state⟩
    | .done actual =>
      let actual := if size < actual then size else actual
      ⟨actual.toNat, if request.isIn then request.data.map
        (copyBytes actual.toNat state.controlBuffer) else request.data,
        state⟩

/-! ## The wait comes to the event -/

/-- A transfer event for the TRB, with its code and residue. -/
structure TransferEvent (key : TrbKey) (code : BitVec 32) (residue : Nat) (event : Trb) : Prop where
  type : trbGetType event.control = xhciTrbTransferEvent
  isFor : event.IsFor key
  code : trbCompletionCode event.status = code
  residue : (event.status &&& 0x00ffffff).toNat = residue

section Wait

variable {key : TrbKey} {requested : UInt16} {spins rest : List (Option Trb)} {event : Trb}

theorem waitSpins_skip (key : TrbKey) (requested : UInt16) (rest : List (Option Trb)) (stash : Stash)
    (hspins : ∀ event, some event ∈ spins → ¬ (trbGetType event.control = xhciTrbTransferEvent ∧ event.IsFor key)) :
    ∃ stash', waitSpins key requested (spins ++ rest) stash = waitSpins key requested rest stash' := by
  induction spins generalizing stash with
  | nil => exact ⟨stash, rfl⟩
  | cons spin spins ih =>
    have ih := fun stash => ih stash fun event hevent => hspins event (by simp [hevent])
    cases spin with
    | none => exact ih stash
    | some event =>
      have hother := hspins event (by simp)
      rw [List.cons_append, waitSpins]
      split
      · exact ih stash
      · rename_i htype
        rw [if_pos fun hfor => hother ⟨not_not.mp htype, hfor⟩]
        exact ih _

theorem transferOutcome_success (requested : UInt16) (h : TransferEvent key xhciCcSuccess 0 event) :
    transferOutcome requested event = .done requested := by
  rw [transferOutcome, if_pos (.inl h.code), h.residue]
  simp

/-- The value says no more than what was asked for. -/
theorem transferOutcome_cases (requested : UInt16) (event : Trb) : transferOutcome requested event = .failed ∨
    ∃ actual, actual ≤ requested ∧ transferOutcome requested event = .done actual := by
  have hlt := requested.toNat_lt
  unfold transferOutcome
  split
  · refine .inr ⟨_, ?_, rfl⟩
    rw [UInt16.le_iff_toNat_le, UInt16.toNat_ofNat_of_lt' (by
      have : UInt16.size = 65536 := rfl
      omega)]
    omega
  · exact .inl rfl

/-- The wait comes to the event, if nothing is in the stash for its TRB. -/
theorem waitTransfer_reaches (requested : UInt16) {spinLimit : Nat} {stash : Stash}
    (hstash : takeStashedTransfer key stash = none)
    (hspins : ∀ event, some event ∈ spins → ¬ (trbGetType event.control = xhciTrbTransferEvent ∧ event.IsFor key))
    (hlimit : spins.length < spinLimit) (hevent : TransferEvent key xhciCcSuccess 0 event) :
    (waitTransfer key spinLimit requested (spins ++ [some event]) stash).1 = .done requested := by
  rw [waitTransfer, hstash]
  dsimp only
  rw [List.take_of_length_le (by simp; omega)]
  obtain ⟨stash', heq⟩ := waitSpins_skip key requested [some event] stash hspins
  rw [heq, waitSpins, if_neg (not_not_intro hevent.type), if_neg (not_not_intro hevent.isFor),
    transferOutcome_success requested hevent]

end Wait

/-! ## Transfers in -/

section Trbs

variable {ring : TransferRing} {size : UInt16}

theorem trb_inj {i j : Fin xhciTransferPlaces} (h : ring.trb i = ring.trb j) : i = j := by
  have hi := i.isLt
  have hj := j.isLt
  unfold xhciTransferPlaces at hi hj
  have hoffset := congrArg BitVec.toNat (add_left_cancel h)
  rw [BitVec.toNat_ofNat, BitVec.toNat_ofNat, Nat.mod_eq_of_lt (by omega), Nat.mod_eq_of_lt (by omega)] at hoffset
  exact Fin.ext (by omega)

theorem nextPlace_ne (i : Fin xhciTransferPlaces) : nextPlace i ≠ i := by
  intro h
  have hval := congrArg Fin.val h
  have hi := i.isLt
  unfold nextPlace at hval
  unfold xhciTransferPlaces at hi hval
  simp only at hval
  omega

/-- The data and the status have TRBs of their own. -/
theorem controlTrbs_ne (h : 0 < size) : (controlTrbs size ring).1 ≠ (controlTrbs size ring).2.1 := by
  simp only [controlTrbs, if_pos h]
  exact fun heq => nextPlace_ne _ (trb_inj heq).symm

end Trbs

def ControlRequest.statusKey (request : ControlRequest) (s : XhciControl) : TrbKey :=
  ⟨(controlTrbs request.size s.ring).2.1, request.slotId, 1⟩

def ControlRequest.dataKey (request : ControlRequest) (s : XhciControl) : TrbKey :=
  ⟨(controlTrbs request.size s.ring).1, request.slotId, 1⟩

/-- A transfer in, of a device that sends `sent`. A short packet has an event of the data TRB with the residue; the
status event has residue 0, and the bytes are in the bounce buffer before it comes. Other events may come in between. -/
structure InTransfer (request : ControlRequest) (s : XhciControl) where
  isIn : request.isIn = true
  hasSlot : request.slotId ≠ 0
  idle : s.inControlXfer = false
  sent : List UInt8
  fits : sent.length ≤ request.size.toNat
  before : List (Option Trb)
  between : List (Option Trb)
  others : ∀ event, some event ∈ before ++ between →
    ¬ (trbGetType event.control = xhciTrbTransferEvent ∧ event.IsFor (request.statusKey s))
  inTime : before.length + between.length + 2 ≤ 1000000
  dataEvent : Trb
  isData : TransferEvent (request.dataKey s) xhciCcShortPacket (request.size.toNat - sent.length) dataEvent
  statusEvent : Trb
  isStatus : TransferEvent (request.statusKey s) xhciCcSuccess 0 statusEvent
  atOnce : Nat → UInt8

namespace InTransfer

variable {request : ControlRequest} {s : XhciControl}

def byte (transfer : InTransfer request s) (i : Nat) : UInt8 := transfer.sent.getD i 0

/-- The spins before the status event. -/
def spins (transfer : InTransfer request s) : List (Option Trb) :=
  transfer.before ++ (if transfer.sent.length < request.size.toNat then [some transfer.dataEvent] else []) ++
    transfer.between

def answer (transfer : InTransfer request s) : ControlAnswer where
  atOnce := transfer.atOnce
  spins := transfer.spins ++ [some transfer.statusEvent]
  buffer := copyBytes transfer.sent.length transfer.byte s.controlBuffer

/-- What the call leaves. -/
def outcome (transfer : InTransfer request s) : ControlDone := xhciControlTransferDevice request transfer.answer s

/-- The value is the number of bytes that the device has sent, and those are the bytes that the caller gets. -/
def Exact (transfer : InTransfer request s) : Prop :=
  transfer.outcome.ret = transfer.sent.length ∧
    transfer.outcome.data = request.data.map (copyBytes transfer.sent.length transfer.byte)

/-- Nothing is in the stash for the status TRB, and the device sends as much as was asked for. Or else an event is there
that happens to say what the device sends, and the bounce buffer happens to have it already. -/
def Undisturbed (transfer : InTransfer request s) : Prop :=
  match takeStashedTransfer (request.statusKey s) s.stash with
  | none => transfer.sent.length = request.size.toNat
  | some stale => transferOutcome request.size stale.1 = .done (UInt16.ofNat transfer.sent.length) ∧
      (request.data = none ∨ ∀ i < transfer.sent.length, transfer.atOnce i = transfer.byte i)

theorem spins_others (transfer : InTransfer request s) : ∀ event, some event ∈ transfer.spins →
    ¬ (trbGetType event.control = xhciTrbTransferEvent ∧ event.IsFor (request.statusKey s)) := by
  intro event hevent
  rw [spins, List.append_assoc, List.mem_append, List.mem_append] at hevent
  rcases hevent with hevent | hevent | hevent
  · exact transfer.others event (List.mem_append_left _ hevent)
  · split at hevent
    · rename_i hshort
      obtain rfl : event = transfer.dataEvent := by simpa using hevent
      rintro ⟨-, hfor⟩
      have hsize : 0 < request.size := by
        rw [UInt16.lt_iff_toNat_lt]
        exact Nat.lt_of_le_of_lt (Nat.zero_le _) hshort
      exact controlTrbs_ne hsize (transfer.isData.isFor.1.symm.trans hfor.1)
    · cases hevent
  · exact transfer.others event (List.mem_append_right _ hevent)

theorem spins_length (transfer : InTransfer request s) : transfer.spins.length < 1000000 := by
  have hinTime := transfer.inTime
  rw [spins, List.length_append, List.length_append]
  split
  · rw [List.length_singleton]
    omega
  · rw [List.length_nil]
    omega

theorem copyBytes_eq_iff {count : Nat} {src src' : Nat → UInt8} (data : Option (Nat → UInt8)) :
    data.map (copyBytes count src) = data.map (copyBytes count src') ↔ data = none ∨ ∀ i < count, src i = src' i := by
  cases data with
  | none => simp
  | some dst =>
    simp only [Option.map_some, Option.some.injEq, reduceCtorEq, false_or]
    constructor
    · intro h i hi
      have := congrFun h i
      simpa [copyBytes, hi] using this
    · intro h
      funext i
      unfold copyBytes
      split
      · exact h i ‹_›
      · rfl

/-- What the call leaves after the wait. -/
theorem outcome_done (transfer : InTransfer request s) {actual : UInt16} (hle : actual ≤ request.size)
    (hwait : (waitTransfer (request.statusKey s) 1000000 request.size transfer.answer.spins s.stash).1 = .done actual) :
    transfer.outcome.ret = actual.toNat ∧
      transfer.outcome.data = request.data.map (copyBytes actual.toNat
        (if (takeStashedTransfer (request.statusKey s) s.stash).isSome then transfer.atOnce
          else copyBytes transfer.sent.length transfer.byte s.controlBuffer)) := by
  have hidle : s.inControlXfer ≠ true := by simp [transfer.idle]
  have houtcome : transfer.outcome = _ := (if_neg transfer.hasSlot).trans (if_neg hidle)
  dsimp only [ControlRequest.statusKey] at hwait houtcome
  rw [hwait] at houtcome
  simp only [transfer.isIn, if_true, if_neg (UInt16.not_lt.mpr hle)] at houtcome
  rw [houtcome]
  exact ⟨rfl, rfl⟩

theorem outcome_failed (transfer : InTransfer request s)
    (hwait : (waitTransfer (request.statusKey s) 1000000 request.size transfer.answer.spins s.stash).1 = .failed) :
    transfer.outcome.ret = -1 := by
  have hidle : s.inControlXfer ≠ true := by simp [transfer.idle]
  have houtcome : transfer.outcome = _ := (if_neg transfer.hasSlot).trans (if_neg hidle)
  dsimp only [ControlRequest.statusKey] at hwait houtcome
  rw [hwait] at houtcome
  rw [houtcome]

end InTransfer

/-- For every state and every transfer in. -/
theorem controlTransfer_exact_iff (request : ControlRequest) (s : XhciControl) (transfer : InTransfer request s) :
    transfer.Exact ↔ transfer.Undisturbed := by
  have hsize := request.size.toNat_lt
  have hfits := transfer.fits
  unfold InTransfer.Exact InTransfer.Undisturbed
  cases hstash : takeStashedTransfer (request.statusKey s) s.stash with
  | none =>
    -- the wait is for the status event, which says nothing of the length
    have hwait := waitTransfer_reaches request.size hstash transfer.spins_others transfer.spins_length
      transfer.isStatus
    obtain ⟨hret, hdata⟩ := transfer.outcome_done (UInt16.le_refl _) hwait
    rw [hstash] at hdata
    rw [hret, hdata]
    simp only [Option.isSome_none, Bool.false_eq_true, if_false]
    constructor
    · rintro ⟨hlength, -⟩
      omega
    · intro hlength
      rw [hlength]
      refine ⟨rfl, (InTransfer.copyBytes_eq_iff _).mpr (.inr fun i hi => ?_)⟩
      rw [copyBytes, if_pos hi]
  | some stale =>
    -- the wait ends with the event of another transfer
    have hwait : (waitTransfer (request.statusKey s) 1000000 request.size transfer.answer.spins s.stash).1 =
        transferOutcome request.size stale.1 := by
      rw [waitTransfer, hstash]
    dsimp only
    rcases transferOutcome_cases request.size stale.1 with hfailed | ⟨actual, hle, hdone⟩
    · rw [hfailed] at hwait ⊢
      have hret := transfer.outcome_failed hwait
      refine iff_of_false (fun h => ?_) (by simp)
      have := h.1.symm.trans hret
      omega
    · rw [hdone] at hwait ⊢
      obtain ⟨hret, hdata⟩ := transfer.outcome_done hle hwait
      rw [hstash] at hdata
      simp only [Option.isSome_some, if_true] at hdata
      rw [hret, hdata]
      have hlength : ((actual.toNat : Int) = transfer.sent.length) ↔
          TransferWait.done actual = .done (UInt16.ofNat transfer.sent.length) := by
        rw [TransferWait.done.injEq, ← UInt16.toNat_inj, UInt16.toNat_ofNat_of_lt' (by
          have : UInt16.size = 65536 := rfl
          omega)]
        omega
      rw [← hlength]
      refine and_congr_right fun heq => ?_
      have hcount : actual.toNat = transfer.sent.length := by omega
      rw [hcount]
      exact InTransfer.copyBytes_eq_iff _

/-! ## A short packet -/

def sampleInRequest : ControlRequest := ⟨1, true, some fun _ => 0, 9⟩

/-- The bounce buffer has the bytes of an earlier transfer. -/
def sampleControl : XhciControl := ⟨⟨0x1000, ⟨0, by decide⟩⟩, fun _ => none, fun _ => 0xaa, false⟩

/-- A device that sends three of nine bytes. -/
def sampleShortTransfer : InTransfer sampleInRequest sampleControl where
  isIn := rfl
  hasSlot := by decide
  idle := rfl
  sent := [9, 2, 34]
  fits := by decide
  before := []
  between := [none]
  others := by simp
  inTime := by decide
  dataEvent := ⟨0x1010, 0x0d000006, 0x01018000⟩
  isData := ⟨by decide, by decide, by decide, by decide⟩
  statusEvent := ⟨0x1020, 0x01000000, 0x01018000⟩
  isStatus := ⟨by decide, by decide, by decide, by decide⟩
  atOnce _ := 0xaa

/-- The call says nine, and the caller gets bytes of the earlier transfer. -/
theorem sampleShortTransfer_wrong : ¬ sampleShortTransfer.Exact ∧ sampleShortTransfer.outcome.ret = 9 ∧
    sampleShortTransfer.outcome.data.map (fun data => data 5) = some 0xaa := by
  have hret : sampleShortTransfer.outcome.ret = 9 := by decide +kernel
  refine ⟨fun h => ?_, hret, by decide +kernel⟩
  have hlength := hret.symm.trans h.1
  exact absurd hlength (by decide)

end Armonios
