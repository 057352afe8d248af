import Armonios.Drivers.XhciTransfer

/-!
# Transfers one after the other

The waits of `drivers/usb/xhci.c` over a whole run: the driver makes control and interrupt transfers on all endpoints, and
between any two of its spins the controller may report what it has done. Events wait in the event ring, and those that
nobody has asked for in the stash.

A transfer has a number, as a ghost, and an event has the number of the transfer that it reports.

* `xhciStep`: one step of the driver or of the controller;
* `XhciInv`: what holds when every event is for the transfer that its TRB is used for now;
* `Orderly`: the steps that keep this.
-/

namespace Armonios

def xhciMaxDevices : Nat := 4
def xhciMaxEndpoints : Nat := 32
def xhciTrbCommandEvent : BitVec 32 := 33

/-- An endpoint of a device. Endpoint 1 is the one for control transfers. -/
structure XhciEndpoint where
  index : Fin xhciMaxDevices
  dci : Fin xhciMaxEndpoints
  deriving DecidableEq

/-- The address of a place of the ring at `base`. -/
def trbAt (base : BitVec 64) (i : Fin xhciTransferPlaces) : BitVec 64 := (TransferRing.mk base i).trb i

/-- The slots of the devices and where the transfer rings are, which do not overlap. -/
structure XhciLayout where
  slotId : Fin xhciMaxDevices → BitVec 8
  base : XhciEndpoint → BitVec 64
  apart : ∀ a b i j, trbAt (base a) i = trbAt (base b) j → a = b

/-- The TRB at an address of the endpoint. -/
def XhciLayout.key (layout : XhciLayout) (ep : XhciEndpoint) (ptr : BitVec 64) : TrbKey :=
  ⟨ptr, layout.slotId ep.index, BitVec.ofNat 8 ep.dci.val⟩

/-- A transfer that the controller has not finished. -/
structure Td where
  id : Nat
  setup : Option TrbKey
  data : Option TrbKey
  last : TrbKey

def Td.keys (td : Td) : List TrbKey := td.setup.toList ++ td.data.toList ++ [td.last]

/-- An entry of `pending_intr_trb` and `pending_intr_len`. -/
structure PendingIntr where
  key : TrbKey
  len : UInt16
  td : Nat

/-- A call of `wait_transfer`, for a control transfer or for what is pending at an endpoint. -/
structure TransferAwait where
  key : TrbKey
  requested : UInt16
  td : Nat
  pendingAt : Option XhciEndpoint
  left : Nat

/-- The wait that the driver is in. -/
inductive XhciWait
  | transfer (w : TransferAwait)
  | command (trb : BitVec 64) (left : Nat)

/-- A wait that came to an event, with the transfer that the event reports. -/
structure WaitReturn where
  key : TrbKey
  td : Nat
  event : Trb
  tag : Nat
  outcome : TransferWait

structure XhciSystem where
  enqueue : XhciEndpoint → Fin xhciTransferPlaces
  pending : XhciEndpoint → Option PendingIntr
  stash : Stash
  /-- The transfers that the events of the stash report. -/
  tags : Fin xhciCompletionStash → Nat
  /-- The event ring: the events that have not been read, with the transfers that they report. -/
  events : List (Trb × Nat)
  /-- What the controller has to do. -/
  tds : List Td
  started : Nat
  wait : Option XhciWait
  returns : List WaitReturn

theorem xhciTransferPlaces_pos : 0 < xhciTransferPlaces := by decide

/-- No transfer has been made. -/
def xhciIdle : XhciSystem where
  enqueue _ := ⟨0, xhciTransferPlaces_pos⟩
  pending _ := none
  stash _ := none
  tags _ := 0
  events := []
  tds := []
  started := 0
  wait := none
  returns := []

/-! ## The driver -/

/-- A wait ends with an event; `xhci_interrupt_in_device` then clears what was pending. -/
def finishWait (w : TransferAwait) (event : Trb) (tag : Nat) (outcome : TransferWait) (s : XhciSystem) : XhciSystem :=
  { s with
    wait := none
    pending := match w.pendingAt with
      | none => s.pending
      | some ep => Function.update s.pending ep none
    returns := s.returns ++ [⟨w.key, w.td, event, tag, outcome⟩] }

/-- The beginning of `wait_transfer`: the stash. -/
def startWait (w : TransferAwait) (s : XhciSystem) : XhciSystem :=
  match takeStashedTransfer w.key s.stash with
  | some (event, stash) =>
    let place := stashPlaces.find? fun i => (s.stash i).any fun event => event.IsFor w.key
    finishWait w event (place.elim 0 s.tags) (transferOutcome w.requested event) { s with stash }
  | none => { s with wait := some (.transfer w) }

/-- `stash_transfer_event`, with the number of the transfer. -/
def stashTagged (event : Trb) (tag : Nat) (s : XhciSystem) : XhciSystem :=
  { s with
    stash := stashTransferEvent event s.stash
    tags := (stashPlaces.find? fun i => (s.stash i).isNone).elim s.tags fun i => Function.update s.tags i tag }

/-- A spin of `wait_transfer` that gets an event. -/
def transferSpin (w : TransferAwait) (event : Trb) (tag : Nat) (s : XhciSystem) : XhciSystem :=
  match waitSpins w.key w.requested [some event] s.stash with
  | (.pending, _) =>
    if trbGetType event.control ≠ xhciTrbTransferEvent then s else stashTagged event tag s
  | (outcome, _) => finishWait w event tag outcome s

/-- A spin of `wait_command` that gets an event. -/
def commandSpin (trb : BitVec 64) (event : Trb) (tag : Nat) (s : XhciSystem) : XhciSystem :=
  if trbGetType event.control = xhciTrbTransferEvent then stashTagged event tag s
  else if trbGetType event.control = xhciTrbCommandEvent ∧ event.parameter = trb then { s with wait := none }
  else s

/-- The number of spins. -/
def xhciControlSpins : Nat := 1000000
def xhciInterruptSpins : Nat := 5000
def xhciCommandSpins : Nat := 1000000

/-- The endpoint for the control transfers of a device. -/
def controlEndpoint (index : Fin xhciMaxDevices) : XhciEndpoint := ⟨index, ⟨1, by decide⟩⟩

/-- The setup, data and status TRBs of a control transfer. -/
def controlTd (layout : XhciLayout) (index : Fin xhciMaxDevices) (size : UInt16) (s : XhciSystem) : Td :=
  let ep := controlEndpoint index
  let ring : TransferRing := ⟨layout.base ep, s.enqueue ep⟩
  let trbs := controlTrbs size ring
  { id := s.started
    setup := some (layout.key ep ring.push.1)
    data := if 0 < size then some (layout.key ep trbs.1) else none
    last := layout.key ep trbs.2.1 }

/-- The pushes of `xhci_control_transfer_device`, and its wait for the status TRB. -/
def startControl (layout : XhciLayout) (index : Fin xhciMaxDevices) (size : UInt16) (s : XhciSystem) : XhciSystem :=
  let ep := controlEndpoint index
  let td := controlTd layout index size s
  startWait ⟨td.last, size, td.id, none, xhciControlSpins⟩
    { s with
      enqueue := Function.update s.enqueue ep (controlTrbs size ⟨layout.base ep, s.enqueue ep⟩).2.2.enqueue
      tds := s.tds ++ [td]
      started := s.started + 1 }

/-- The push of `xhci_interrupt_in_device`. -/
def pushInterrupt (layout : XhciLayout) (ep : XhciEndpoint) (len : UInt16) (s : XhciSystem) : XhciSystem :=
  let pushed := (TransferRing.mk (layout.base ep) (s.enqueue ep)).push
  let key := layout.key ep pushed.1
  { s with
    enqueue := Function.update s.enqueue ep pushed.2.enqueue
    pending := Function.update s.pending ep (some ⟨key, len, s.started⟩)
    tds := s.tds ++ [⟨s.started, none, none, key⟩]
    started := s.started + 1 }

/-- The wait of `xhci_interrupt_in_device` for what is pending. -/
def awaitInterrupt (ep : XhciEndpoint) (s : XhciSystem) : XhciSystem :=
  match s.pending ep with
  | none => s
  | some p => startWait ⟨p.key, p.len, p.td, some ep, xhciInterruptSpins⟩ s

/-- One spin. -/
def spinOnce (s : XhciSystem) : Option XhciSystem :=
  match s.wait with
  | none => none
  | some (.transfer w) =>
    match w.left, s.events with
    | 0, _ => some { s with wait := none }
    | left + 1, [] => some { s with wait := some (.transfer { w with left }) }
    | left + 1, (event, tag) :: events =>
      some (transferSpin w event tag { s with events, wait := some (.transfer { w with left }) })
  | some (.command trb left) =>
    match left, s.events with
    | 0, _ => some { s with wait := none }
    | left + 1, [] => some { s with wait := some (.command trb left) }
    | left + 1, (event, tag) :: events =>
      some (commandSpin trb event tag { s with events, wait := some (.command trb left) })

/-! ## The controller -/

/-- The controller reports the transfer with this event: it is then over, or goes on after a short packet, or the event is
not one for it. -/
def Td.after (td : Td) (event : Trb) : Option (Option Td) :=
  if trbGetType event.control ≠ xhciTrbTransferEvent then none
  else if event.IsFor td.last then some none
  else if td.data.any (fun key => event.IsFor key) ∧ trbCompletionCode event.status = xhciCcShortPacket then
    some (some { td with data := none })
  else if ¬ CompletionOk (trbCompletionCode event.status) ∧ td.keys.any (fun key => event.IsFor key) then some none
  else none

/-- The controller writes an event for the transfer at `i`. -/
def reportTd (i : Nat) (event : Trb) (s : XhciSystem) : Option XhciSystem := do
  let td ← s.tds[i]?
  let after ← td.after event
  return { s with
    events := s.events ++ [(event, td.id)]
    tds := after.elim (s.tds.eraseIdx i) (s.tds.set i) }

/-! ## Steps -/

inductive XhciAct
  | control (index : Fin xhciMaxDevices) (size : UInt16)
  | interruptIn (ep : XhciEndpoint) (len : UInt16)
  | command (trb : BitVec 64)
  | spin
  | report (i : Nat) (event : Trb)
  /-- An event that is not about a transfer. -/
  | notice (event : Trb)

/-- One step; `none` where it cannot happen. -/
def xhciStep (layout : XhciLayout) (s : XhciSystem) : XhciAct → Option XhciSystem
  | .control index size => if s.wait.isSome then none else some (startControl layout index size s)
  | .interruptIn ep len =>
    if s.wait.isSome ∨ ep.dci.val = 1 then none
    else
      match s.pending ep with
      | some _ => some (awaitInterrupt ep s)
      | none => some (awaitInterrupt ep (pushInterrupt layout ep len s))
  | .command trb => if s.wait.isSome then none else some { s with wait := some (.command trb xhciCommandSpins) }
  | .spin => spinOnce s
  | .report i event => reportTd i event s
  | .notice event =>
    if trbGetType event.control = xhciTrbTransferEvent then none else some { s with events := s.events ++ [(event, 0)] }

/-! ## Events that nobody has taken -/

variable {layout : XhciLayout} {s s' t : XhciSystem} {event e : Trb} {tag g : Nat} {key : TrbKey} {w : TransferAwait}
  {ep : XhciEndpoint}

/-- A transfer event is in the event ring or in the stash. -/
def XhciSystem.Left (s : XhciSystem) (event : Trb) (tag : Nat) : Prop :=
  trbGetType event.control = xhciTrbTransferEvent ∧ (event, tag) ∈ s.events ∨
    ∃ i, s.stash i = some event ∧ s.tags i = tag

/-- A transfer that is pending or waited for uses this TRB. -/
def XhciSystem.Active (s : XhciSystem) (key : TrbKey) (td : Nat) : Prop :=
  (∃ ep p, s.pending ep = some p ∧ p.key = key ∧ p.td = td) ∨
    ∃ w, s.wait = some (.transfer w) ∧ w.key = key ∧ w.td = td

theorem takeStashed_some {stash stash' : Stash} (h : takeStashedTransfer key stash = some (event, stash')) :
    ∃ i, (stashPlaces.find? fun i => (stash i).any fun event => event.IsFor key) = some i ∧ stash i = some event ∧
      event.IsFor key ∧ stash' = Function.update stash i none := by
  unfold takeStashedTransfer at h
  obtain ⟨i, hi, hmap⟩ := Option.bind_eq_some_iff.mp h
  obtain ⟨event', hstash, heq⟩ := Option.map_eq_some_iff.mp hmap
  cases heq
  have hfor := List.find?_some hi
  rw [hstash] at hfor
  exact ⟨i, hi, hstash, by simpa using hfor, rfl⟩

/-- The event goes to a free place, or the stash is full. -/
theorem stashTagged_cases (htype : trbGetType event.control = xhciTrbTransferEvent) (tag : Nat) (s : XhciSystem) :
    (∀ i, s.stash i ≠ none) ∧ stashTagged event tag s = s ∨
      ∃ i, s.stash i = none ∧ stashTagged event tag s =
        { s with stash := Function.update s.stash i (some event), tags := Function.update s.tags i tag } := by
  unfold stashTagged stashTransferEvent
  rw [if_neg (not_not_intro htype)]
  cases hfree : stashPlaces.find? fun i => (s.stash i).isNone with
  | none =>
    refine .inl ⟨fun i hi => ?_, rfl⟩
    have hno := List.find?_eq_none.mp hfree i (List.mem_finRange i)
    simp [hi] at hno
  | some i => exact .inr ⟨i, by simpa using List.find?_some hfree, rfl⟩

theorem stashTagged_left (htype : trbGetType event.control = xhciTrbTransferEvent)
    (h : (stashTagged event tag s).Left e g) : e = event ∧ g = tag ∨ s.Left e g := by
  rcases stashTagged_cases htype tag s with ⟨-, heq⟩ | ⟨i, -, heq⟩ <;> rw [heq] at h
  · exact .inr h
  rcases h with hevents | ⟨j, hj, hg⟩
  · exact .inr (.inl hevents)
  dsimp only at hj hg
  by_cases hji : j = i
  · subst hji
    rw [Function.update_self] at hj hg
    exact .inl ⟨(Option.some.inj hj).symm, hg.symm⟩
  · rw [Function.update_of_ne hji] at hj hg
    exact .inr (.inr ⟨j, hj, hg⟩)

/-- What was there stays. -/
theorem stashTagged_keeps (htype : trbGetType event.control = xhciTrbTransferEvent) (h : s.Left e g) :
    (stashTagged event tag s).Left e g := by
  rcases stashTagged_cases htype tag s with ⟨-, heq⟩ | ⟨i, hfree, heq⟩ <;> rw [heq]
  · exact h
  rcases h with hevents | ⟨j, hj, hg⟩
  · exact .inl hevents
  have hji : j ≠ i := by
    rintro rfl
    rw [hfree] at hj
    cases hj
  refine .inr ⟨j, ?_, ?_⟩
  · dsimp only
    rw [Function.update_of_ne hji]
    exact hj
  · dsimp only
    rw [Function.update_of_ne hji]
    exact hg

/-- With a free place the event is there, too. -/
theorem stashTagged_self {i : Fin xhciCompletionStash} (htype : trbGetType event.control = xhciTrbTransferEvent)
    (hi : s.stash i = none) : (stashTagged event tag s).Left event tag := by
  rcases stashTagged_cases htype tag s with ⟨hfull, -⟩ | ⟨j, -, heq⟩
  · exact absurd hi (hfull i)
  · rw [heq]
    exact .inr ⟨j, by simp, by simp⟩

/-! ## The invariant -/

/-- The completion of what is pending is still to come, or has not been lost. -/
def XhciSystem.Kept (s : XhciSystem) (p : PendingIntr) : Prop :=
  ⟨p.td, none, none, p.key⟩ ∈ s.tds ∨ ∃ event, s.Left event p.td ∧ event.IsFor p.key

/-- The wait is for what is pending at its endpoint, or for a control transfer. -/
def XhciSystem.WaitsFor (layout : XhciLayout) (s : XhciSystem) (w : TransferAwait) : Prop :=
  match w.pendingAt with
  | some ep => ∃ p, s.pending ep = some p ∧ p.key = w.key ∧ p.td = w.td
  | none => ∃ ep i, ep.dci.val = 1 ∧ w.key = layout.key ep (trbAt (layout.base ep) i)

structure XhciInv (layout : XhciLayout) (s : XhciSystem) : Prop where
  /-- An event for a TRB in use is one for its transfer. -/
  fresh : ∀ key td, s.Active key td → ∀ event tag, s.Left event tag → event.IsFor key → tag = td
  owed : ∀ key td, s.Active key td → ∀ t ∈ s.tds, key ∈ t.keys → t.id = td
  kept : ∀ ep p, s.pending ep = some p → s.Kept p
  places : ∀ ep p, s.pending ep = some p → ep.dci.val ≠ 1 ∧ ∃ i, p.key = layout.key ep (trbAt (layout.base ep) i)
  awaited : ∀ w, s.wait = some (.transfer w) → s.WaitsFor layout w
  returned : ∀ r ∈ s.returns, r.event.IsFor r.key ∧ r.tag = r.td

theorem xhciIdle_inv (layout : XhciLayout) : XhciInv layout xhciIdle := by
  have hnone : ∀ key td, ¬ xhciIdle.Active key td := by
    rintro key td (⟨ep, p, hp, -⟩ | ⟨w, hw, -⟩)
    · cases hp
    · cases hw
  refine ⟨fun key td h => absurd h (hnone key td), fun key td h => absurd h (hnone key td), ?_, ?_, ?_, ?_⟩
  · intro ep p hp
    cases hp
  · intro ep p hp
    cases hp
  · intro w hw
    cases hw
  · intro r hr
    cases hr

/-- An event is for one TRB. -/
theorem IsFor.unique {key key' : TrbKey} (h : event.IsFor key) (h' : event.IsFor key') : key = key' := by
  have hwiden : ∀ x y : BitVec 8, x.setWidth 32 = y.setWidth 32 → x = y := by
    intro x y hxy
    have hnat := congrArg BitVec.toNat hxy
    rw [BitVec.toNat_setWidth_of_le (by decide), BitVec.toNat_setWidth_of_le (by decide)] at hnat
    exact BitVec.eq_of_toNat_eq hnat
  obtain ⟨hptr, hdci, hslot⟩ := h
  obtain ⟨hptr', hdci', hslot'⟩ := h'
  cases key
  cases key'
  congr
  · exact hptr.symm.trans hptr'
  · exact hwiden _ _ (hslot.symm.trans hslot')
  · exact hwiden _ _ (hdci.symm.trans hdci')

/-- Where the TRB of a wait is. -/
theorem XhciInv.waits_place (h : XhciInv layout s) (hw : s.WaitsFor layout w) :
    ∃ ep i, w.key = layout.key ep (trbAt (layout.base ep) i) ∧ (w.pendingAt = some ep ∨ ep.dci.val = 1) := by
  unfold XhciSystem.WaitsFor at hw
  split at hw
  · rename_i ep hpend
    obtain ⟨p, hp, hkey, -⟩ := hw
    obtain ⟨-, i, hi⟩ := h.places ep p hp
    exact ⟨ep, i, hkey ▸ hi, .inl hpend⟩
  · obtain ⟨ep, i, hdci, hkey⟩ := hw
    exact ⟨ep, i, hkey, .inr hdci⟩

/-- An event of a wait is no event of what is pending elsewhere. -/
theorem XhciInv.wait_apart (h : XhciInv layout s) (hw : s.WaitsFor layout w) {p : PendingIntr}
    (hp : s.pending ep = some p) (hep : w.pendingAt ≠ some ep) (hfor : event.IsFor w.key) : ¬ event.IsFor p.key := by
  intro hforp
  obtain ⟨ep', i, hkey, hplace⟩ := h.waits_place hw
  obtain ⟨hdci, j, hj⟩ := h.places ep p hp
  have heq := IsFor.unique hfor hforp
  rw [hkey, hj] at heq
  obtain rfl := layout.apart _ _ _ _ (congrArg TrbKey.ptr heq)
  rcases hplace with hpend | hone
  · exact hep hpend
  · exact hdci hone

/-- A wait takes its event from the ring or the stash and ends. -/
theorem XhciInv.finish (h : XhciInv layout s) (hw : s.WaitsFor layout w) (hfor : event.IsFor w.key)
    (htag : tag = w.td) (outcome : TransferWait) (hpending : t.pending = s.pending) (htds : t.tds = s.tds)
    (hreturns : t.returns = s.returns) (hleft : ∀ e g, t.Left e g → s.Left e g)
    (hothers : ∀ e g, s.Left e g → e = event ∨ t.Left e g) :
    XhciInv layout (finishWait w event tag outcome t) := by
  have hpend : ∀ ep p, (finishWait w event tag outcome t).pending ep = some p →
      w.pendingAt ≠ some ep ∧ s.pending ep = some p := by
    intro ep p hp
    unfold finishWait at hp
    cases hat : w.pendingAt with
    | none =>
      simp only [hat, hpending] at hp
      exact ⟨by simp, hp⟩
    | some ep' =>
      simp only [hat, hpending] at hp
      by_cases hee : ep = ep'
      · rw [hee, Function.update_self] at hp
        cases hp
      · rw [Function.update_of_ne hee] at hp
        exact ⟨by simpa using fun heq => hee heq.symm, hp⟩
  have hactive : ∀ key td, (finishWait w event tag outcome t).Active key td → s.Active key td := by
    rintro key td (⟨ep, p, hp, hkey, htd⟩ | ⟨w', hw', -⟩)
    · exact .inl ⟨ep, p, (hpend ep p hp).2, hkey, htd⟩
    · cases hw'
  refine ⟨fun key td ha e g hl => h.fresh key td (hactive key td ha) e g (hleft e g hl), ?_, ?_, ?_, ?_, ?_⟩
  · intro key td ha td' htd'
    exact h.owed key td (hactive key td ha) td' (htds ▸ htd')
  · intro ep p hp
    obtain ⟨hep, hold⟩ := hpend ep p hp
    rcases h.kept ep p hold with htd | ⟨e, hl, hefor⟩
    · exact .inl (htds.symm ▸ htd)
    rcases hothers e _ hl with rfl | hl
    · exact absurd hefor (h.wait_apart hw hold hep hfor)
    · exact .inr ⟨e, hl, hefor⟩
  · exact fun ep p hp => h.places ep p (hpend ep p hp).2
  · intro w' hw'
    cases hw'
  · intro r hr
    have hr : r ∈ t.returns ++ [⟨w.key, w.td, event, tag, outcome⟩] := hr
    rw [hreturns, List.mem_append, List.mem_singleton] at hr
    rcases hr with hr | rfl
    · exact h.returned r hr
    · exact ⟨hfor, htag⟩

/-- The driver goes on waiting, or stops to; it has lost no event of what is pending. -/
theorem XhciInv.reads (h : XhciInv layout s) (hactive : ∀ key td, t.Active key td → s.Active key td)
    (hpending : t.pending = s.pending) (htds : t.tds = s.tds) (hreturns : t.returns = s.returns)
    (hleft : ∀ e g, t.Left e g → s.Left e g)
    (hkept : ∀ ep p, s.pending ep = some p → ∀ e g, s.Left e g → e.IsFor p.key → t.Left e g)
    (hawaited : ∀ w, t.wait = some (.transfer w) → s.WaitsFor layout w) : XhciInv layout t := by
  refine ⟨fun key td ha e g hl => h.fresh key td (hactive key td ha) e g (hleft e g hl), ?_, ?_, ?_, ?_, ?_⟩
  · intro key td ha td' htd'
    exact h.owed key td (hactive key td ha) td' (htds ▸ htd')
  · intro ep p hp
    rw [hpending] at hp
    rcases h.kept ep p hp with htd | ⟨e, hl, hfor⟩
    · exact .inl (htds.symm ▸ htd)
    · exact .inr ⟨e, hkept ep p hp e _ hl hfor, hfor⟩
  · intro ep p hp
    exact h.places ep p (hpending ▸ hp)
  · intro w hw
    have hw := hawaited w hw
    unfold XhciSystem.WaitsFor at hw ⊢
    rw [hpending]
    exact hw
  · rw [hreturns]
    exact h.returned

/-! ## Waits -/

/-- The stash without one of its events. -/
theorem left_taken {i : Fin xhciCompletionStash} (hi : s.stash i = some event) :
    (∀ e g, { s with stash := Function.update s.stash i none }.Left e g → s.Left e g) ∧
      ∀ e g, s.Left e g → e = event ∨ { s with stash := Function.update s.stash i none }.Left e g := by
  constructor
  · rintro e g (hevents | ⟨j, hj, hg⟩)
    · exact .inl hevents
    · by_cases hji : j = i
      · subst hji
        simp at hj
      · exact .inr ⟨j, by simpa [hji] using hj, hg⟩
  · rintro e g (hevents | ⟨j, hj, hg⟩)
    · exact .inr (.inl hevents)
    · by_cases hji : j = i
      · subst hji
        exact .inl (Option.some.inj (hj.symm.trans hi))
      · exact .inr (.inr ⟨j, by simpa [hji] using hj, hg⟩)

/-- The event ring without its first event. -/
theorem left_popped {events : List (Trb × Nat)} (hevents : s.events = (event, tag) :: events) (wait : Option XhciWait) :
    (∀ e g, { s with events, wait }.Left e g → s.Left e g) ∧
      ∀ e g, s.Left e g → (trbGetType e.control = xhciTrbTransferEvent ∧ e = event ∧ g = tag) ∨
        { s with events, wait }.Left e g := by
  constructor
  · rintro e g (⟨htype, hmem⟩ | hstash)
    · exact .inl ⟨htype, by rw [hevents]; exact List.mem_cons_of_mem _ hmem⟩
    · exact .inr hstash
  · rintro e g (⟨htype, hmem⟩ | hstash)
    · rw [hevents, List.mem_cons] at hmem
      rcases hmem with heq | hmem
      · cases heq
        exact .inl ⟨htype, rfl, rfl⟩
      · exact .inr (.inl ⟨htype, hmem⟩)
    · exact .inr (.inr hstash)

theorem startWait_inv (h : XhciInv layout s) (hw : s.WaitsFor layout w)
    (hfresh : ∀ e g, s.Left e g → e.IsFor w.key → g = w.td) (howed : ∀ t ∈ s.tds, w.key ∈ t.keys → t.id = w.td) :
    XhciInv layout (startWait w s) := by
  unfold startWait
  cases htake : takeStashedTransfer w.key s.stash with
  | some taken =>
    obtain ⟨event, stash⟩ := taken
    obtain ⟨i, hfind, hi, hfor, rfl⟩ := takeStashed_some htake
    obtain ⟨hleft, hothers⟩ := left_taken hi
    dsimp only
    rw [hfind]
    exact h.finish hw hfor (hfresh event _ (.inr ⟨i, hi, rfl⟩) hfor) _ rfl rfl rfl hleft hothers
  | none =>
    have hactive : ∀ key td, { s with wait := some (.transfer w) }.Active key td →
        s.Active key td ∨ key = w.key ∧ td = w.td := by
      rintro key td (hpending | ⟨w', hw', rfl, rfl⟩)
      · exact .inl (.inl hpending)
      · cases hw'
        exact .inr ⟨rfl, rfl⟩
    refine ⟨?_, ?_, h.kept, h.places, ?_, h.returned⟩
    · intro key td ha e g hl
      rcases hactive key td ha with ha | ⟨rfl, rfl⟩
      · exact h.fresh key td ha e g hl
      · exact hfresh e g hl
    · intro key td ha t ht
      rcases hactive key td ha with ha | ⟨rfl, rfl⟩
      · exact h.owed key td ha t ht
      · exact howed t ht
    · intro w' hw'
      cases hw'
      exact hw

/-! ## Steps that are in order -/

/-- Nothing is left of an earlier transfer with this TRB: no event, and the controller has finished it. -/
def XhciSystem.Unused (s : XhciSystem) (key : TrbKey) : Prop :=
  (∀ event tag, s.Left event tag → ¬ event.IsFor key) ∧ ∀ td ∈ s.tds, key ∉ td.keys

/-- The driver is waiting for another event than this one. -/
def XhciWait.Passes (event : Trb) : XhciWait → Prop
  | transfer w => w.left ≠ 0 ∧ ¬ event.IsFor w.key
  | command _ left => left ≠ 0

/-- The event that the spin puts into the stash, if it is for what is pending, finds a free place. -/
def XhciSystem.HasRoom (s : XhciSystem) : Prop :=
  ∀ event tag events wait, s.events = (event, tag) :: events → s.wait = some wait → wait.Passes event →
    trbGetType event.control = xhciTrbTransferEvent →
    ∀ ep p, s.pending ep = some p → event.IsFor p.key → ∃ i, s.stash i = none

/-- The TRB of the next interrupt transfer. -/
def interruptKey (layout : XhciLayout) (ep : XhciEndpoint) (s : XhciSystem) : TrbKey :=
  layout.key ep (TransferRing.mk (layout.base ep) (s.enqueue ep)).push.1

/-- A transfer starts with a TRB that is unused, and no event of what is pending comes to a full stash. -/
def Orderly (layout : XhciLayout) (s : XhciSystem) : XhciAct → Prop
  | .control index size => s.Unused (controlTd layout index size s).last
  | .interruptIn ep _ => s.pending ep = none → s.Unused (interruptKey layout ep s)
  | .spin => s.HasRoom
  | _ => True

theorem transferSpin_cases (w : TransferAwait) (event : Trb) (tag : Nat) (s : XhciSystem) :
    trbGetType event.control ≠ xhciTrbTransferEvent ∧ transferSpin w event tag s = s ∨
    trbGetType event.control = xhciTrbTransferEvent ∧ ¬ event.IsFor w.key ∧
      transferSpin w event tag s = stashTagged event tag s ∨
    trbGetType event.control = xhciTrbTransferEvent ∧ event.IsFor w.key ∧
      transferSpin w event tag s = finishWait w event tag (transferOutcome w.requested event) s := by
  unfold transferSpin
  by_cases htype : trbGetType event.control = xhciTrbTransferEvent
  · by_cases hfor : event.IsFor w.key
    · refine .inr (.inr ⟨htype, hfor, ?_⟩)
      rw [waitSpins, if_neg (not_not_intro htype), if_neg (not_not_intro hfor)]
      rcases transferOutcome_cases w.requested event with hfailed | ⟨actual, -, hdone⟩
      · rw [hfailed]
      · rw [hdone]
    · refine .inr (.inl ⟨htype, hfor, ?_⟩)
      rw [waitSpins, if_neg (not_not_intro htype), if_pos hfor, waitSpins]
      dsimp only
      rw [if_neg (not_not_intro htype)]
  · refine .inl ⟨htype, ?_⟩
    rw [waitSpins, if_pos htype, waitSpins]
    dsimp only
    rw [if_pos htype]

/-- A wait for a transfer is the one before, with other spins left. -/
def XhciSystem.Continues (s : XhciSystem) (wait : Option XhciWait) : Prop :=
  ∀ w, wait = some (.transfer w) →
    ∃ w', s.wait = some (.transfer w') ∧ w'.key = w.key ∧ w'.td = w.td ∧ w'.pendingAt = w.pendingAt

theorem Continues.active {wait : Option XhciWait} (h : s.Continues wait) (hpending : t.pending = s.pending)
    (hwait : t.wait = wait) {td : Nat} (ha : t.Active key td) : s.Active key td := by
  rcases ha with ⟨ep, p, hp, hkey, htd⟩ | ⟨w, hw, rfl, rfl⟩
  · exact .inl ⟨ep, p, hpending ▸ hp, hkey, htd⟩
  · obtain ⟨w', hw', hkey, htd, -⟩ := h w (hwait ▸ hw)
    exact .inr ⟨w', hw', hkey, htd⟩

theorem XhciInv.continues_awaited (h : XhciInv layout s) {wait : Option XhciWait} (hwait : s.Continues wait)
    (hw : wait = some (.transfer w)) : s.WaitsFor layout w := by
  obtain ⟨w', hw', hkey, htd, hat⟩ := hwait w hw
  have hold := h.awaited w' hw'
  unfold XhciSystem.WaitsFor at hold ⊢
  rw [← hkey, ← htd, ← hat]
  exact hold

theorem XhciInv.continued (h : XhciInv layout s) {wait : Option XhciWait} (hwait : s.Continues wait) :
    XhciInv layout { s with wait } :=
  h.reads (fun _ _ ha => Continues.active (t := { s with wait }) hwait rfl rfl ha) rfl rfl rfl (fun _ _ hl => hl) (fun _ _ _ _ _ hl _ => hl)
    fun _ hw => h.continues_awaited hwait hw

/-- The driver reads an event that it does not wait for. -/
theorem XhciInv.passed (h : XhciInv layout s) {events : List (Trb × Nat)} {wait : Option XhciWait}
    (hevents : s.events = (event, tag) :: events) (hwait : s.Continues wait)
    (hroom : trbGetType event.control = xhciTrbTransferEvent →
      ∀ ep p, s.pending ep = some p → event.IsFor p.key → ∃ i, s.stash i = none) :
    (trbGetType event.control ≠ xhciTrbTransferEvent → XhciInv layout { s with events, wait }) ∧
      (trbGetType event.control = xhciTrbTransferEvent →
        XhciInv layout (stashTagged event tag { s with events, wait })) := by
  obtain ⟨hleft, hothers⟩ := left_popped hevents wait
  have hactive : ∀ t : XhciSystem, t.pending = s.pending → t.wait = wait → ∀ key td, t.Active key td →
      s.Active key td := fun t hpending ht key td ha => Continues.active hwait hpending ht ha
  constructor
  · intro htype
    refine h.reads (hactive _ rfl rfl) rfl rfl rfl hleft (fun ep p hp e g hl hfor => ?_)
      fun w hw => h.continues_awaited hwait hw
    rcases hothers e g hl with ⟨htype', rfl, -⟩ | hl
    · exact absurd htype' htype
    · exact hl
  · intro htype
    refine h.reads (hactive _ rfl rfl) rfl rfl rfl ?_ (fun ep p hp e g hl hfor => ?_)
      fun w hw => h.continues_awaited hwait hw
    · intro e g hl
      rcases stashTagged_left htype hl with ⟨rfl, rfl⟩ | hl
      · exact .inl ⟨htype, by rw [hevents]; exact List.mem_cons_self⟩
      · exact hleft e g hl
    · rcases hothers e g hl with ⟨-, rfl, rfl⟩ | hl
      · obtain ⟨i, hi⟩ := hroom htype ep p hp hfor
        exact stashTagged_self (i := i) htype hi
      · exact stashTagged_keeps htype hl

theorem transferSpin_inv (h : XhciInv layout s) (hroom : s.HasRoom) (hw : s.wait = some (.transfer w)) {left : Nat}
    (hleft : w.left = left + 1) {events : List (Trb × Nat)} (hevents : s.events = (event, tag) :: events) :
    XhciInv layout (transferSpin w event tag { s with events, wait := some (.transfer { w with left }) }) := by
  have hsame : s.Continues (some (.transfer { w with left })) := by
    intro w' heq
    cases heq
    exact ⟨w, hw, rfl, rfl, rfl⟩
  rcases transferSpin_cases w event tag { s with events, wait := some (.transfer { w with left }) } with
    ⟨htype, heq⟩ | ⟨htype, hfor, heq⟩ | ⟨htype, hfor, heq⟩ <;> rw [heq]
  · exact (h.passed hevents hsame fun htype' => absurd htype' htype).1 htype
  · refine (h.passed hevents hsame fun _ ep p hp hforp => ?_).2 htype
    exact hroom event tag events _ hevents hw ⟨by simp [hleft], hfor⟩ htype ep p hp hforp
  · -- the event that is waited for
    have hl : s.Left event tag := .inl ⟨htype, by rw [hevents]; exact List.mem_cons_self⟩
    obtain ⟨hpop, hothers⟩ := left_popped hevents (some (XhciWait.transfer { w with left }))
    refine h.finish (h.awaited w hw) hfor (h.fresh w.key w.td (.inr ⟨w, hw, rfl, rfl⟩) event tag hl hfor) _ rfl rfl
      rfl hpop fun e g hl => ?_
    rcases hothers e g hl with ⟨-, heq, -⟩ | hl
    · exact .inl heq
    · exact .inr hl

theorem spinOnce_inv (h : XhciInv layout s) (hroom : s.HasRoom) (hstep : spinOnce s = some s') : XhciInv layout s' := by
  have hstop : s.Continues none := fun _ hno => by cases hno
  have hcommand : ∀ trb left, s.Continues (some (.command trb left)) := fun _ _ _ hno => by cases hno
  unfold spinOnce at hstep
  split at hstep
  · cases hstep
  · rename_i w hw
    split at hstep
    · cases hstep
      exact h.continued hstop
    · cases hstep
      refine h.continued fun w' heq => ?_
      cases heq
      exact ⟨w, hw, rfl, rfl, rfl⟩
    · rename_i left event tag events hleft hevents
      cases hstep
      exact transferSpin_inv h hroom hw hleft hevents
  · rename_i trb left hw
    split at hstep
    · cases hstep
      exact h.continued hstop
    · cases hstep
      exact h.continued (hcommand _ _)
    · rename_i left' event tag events hevents
      cases hstep
      unfold commandSpin
      split
      · rename_i htype
        refine (h.passed hevents (hcommand _ _) fun _ ep p hp hforp => ?_).2 htype
        exact hroom event tag events _ hevents hw (by simp [XhciWait.Passes]) htype ep p hp hforp
      rename_i htype
      split
      · exact (h.passed hevents hstop fun htype' => absurd htype' htype).1 htype
      · exact (h.passed hevents (hcommand _ _) fun htype' => absurd htype' htype).1 htype

/-! ## Pushes -/

/-- A TRB of an endpoint where nothing is active is used by no active transfer. -/
theorem XhciInv.place_free (h : XhciInv layout s) (hwait : s.wait = none) {td : Nat} {i : Fin xhciTransferPlaces}
    (hep : s.pending ep = none) (ha : s.Active key td) : key ≠ layout.key ep (trbAt (layout.base ep) i) := by
  rcases ha with ⟨ep', p, hp, rfl, -⟩ | ⟨w, hw, -⟩
  · rintro hkey
    obtain ⟨-, j, hj⟩ := h.places ep' p hp
    obtain rfl := layout.apart _ _ _ _ (congrArg TrbKey.ptr (hj.symm.trans hkey))
    rw [hep] at hp
    cases hp
  · rw [hwait] at hw
    cases hw

/-- Nothing is pending at an endpoint for control transfers. -/
theorem XhciInv.control_idle (h : XhciInv layout s) (hdci : ep.dci.val = 1) : s.pending ep = none := by
  cases hp : s.pending ep with
  | none => rfl
  | some p => exact absurd hdci (h.places ep p hp).1

theorem controlTd_places {index : Fin xhciMaxDevices} {size : UInt16} (hkey : key ∈ (controlTd layout index size s).keys) :
    ∃ i, key = layout.key (controlEndpoint index) (trbAt (layout.base (controlEndpoint index)) i) := by
  simp only [Td.keys, controlTd, List.mem_append, Option.mem_toList, List.mem_singleton] at hkey
  rcases hkey with (hkey | hkey) | rfl
  · cases hkey
    exact ⟨_, rfl⟩
  · split at hkey
    · rename_i hsize
      cases hkey
      simp only [controlTrbs, if_pos hsize]
      exact ⟨_, rfl⟩
    · cases hkey
  · unfold controlTrbs
    split <;> exact ⟨_, rfl⟩

theorem startControl_inv (h : XhciInv layout s) (hwait : s.wait = none) {index : Fin xhciMaxDevices} {size : UInt16}
    (hunused : s.Unused (controlTd layout index size s).last) : XhciInv layout (startControl layout index size s) := by
  have hidle : s.pending (controlEndpoint index) = none := h.control_idle rfl
  unfold startControl
  dsimp only
  have hlast : (controlTd layout index size s).last ∈ (controlTd layout index size s).keys :=
    List.mem_append_right _ (List.mem_singleton_self _)
  obtain ⟨i, hi⟩ := controlTd_places hlast
  -- the transfer is there, and nobody waits for it yet
  have hpushed : XhciInv layout
      { s with
        enqueue := Function.update s.enqueue (controlEndpoint index)
          (controlTrbs size ⟨layout.base (controlEndpoint index), s.enqueue (controlEndpoint index)⟩).2.2.enqueue
        tds := s.tds ++ [controlTd layout index size s]
        started := s.started + 1 } := by
    refine ⟨h.fresh, fun key td ha t ht hkey => ?_, fun ep p hp => ?_, h.places, h.awaited, h.returned⟩
    · rcases List.mem_append.mp ht with ht | ht
      · exact h.owed key td ha t ht hkey
      · rw [List.mem_singleton.mp ht] at hkey
        obtain ⟨j, hj⟩ := controlTd_places hkey
        exact absurd hj (h.place_free hwait hidle ha)
    · rcases h.kept ep p hp with htd | hleft
      · exact .inl (List.mem_append_left _ htd)
      · exact .inr hleft
  refine startWait_inv hpushed ⟨controlEndpoint index, i, rfl, hi⟩ ?_ ?_
  · exact fun e g hl hfor => absurd hfor (hunused.1 e g hl)
  · intro t ht hkey
    rcases List.mem_append.mp ht with ht | ht
    · exact absurd hkey (hunused.2 t ht)
    · rw [List.mem_singleton.mp ht]

theorem pushInterrupt_inv (h : XhciInv layout s) (hwait : s.wait = none) (hdci : ep.dci.val ≠ 1) {len : UInt16}
    (hep : s.pending ep = none) (hunused : s.Unused (interruptKey layout ep s)) :
    XhciInv layout (pushInterrupt layout ep len s) := by
  have hpending : ∀ ep' p, (pushInterrupt layout ep len s).pending ep' = some p →
      ep' = ep ∧ p = ⟨interruptKey layout ep s, len, s.started⟩ ∨ s.pending ep' = some p := by
    intro ep' p hp
    unfold pushInterrupt at hp
    dsimp only at hp
    by_cases hee : ep' = ep
    · subst hee
      rw [Function.update_self] at hp
      exact .inl ⟨rfl, (Option.some.inj hp).symm⟩
    · rw [Function.update_of_ne hee] at hp
      exact .inr hp
  have hactive : ∀ key td, (pushInterrupt layout ep len s).Active key td →
      key = interruptKey layout ep s ∧ td = s.started ∨ s.Active key td := by
    rintro key td (⟨ep', p, hp, rfl, rfl⟩ | ⟨w, hw, hrest⟩)
    · rcases hpending ep' p hp with ⟨-, rfl⟩ | hp
      · exact .inl ⟨rfl, rfl⟩
      · exact .inr (.inl ⟨ep', p, hp, rfl, rfl⟩)
    · exact .inr (.inr ⟨w, hw, hrest⟩)
  have htds : (pushInterrupt layout ep len s).tds =
      s.tds ++ [⟨s.started, none, none, interruptKey layout ep s⟩] := rfl
  refine ⟨fun key td ha e g hl hfor => ?_, fun key td ha t ht hkey => ?_, fun ep' p hp => ?_, fun ep' p hp => ?_,
    fun w hw => ?_, h.returned⟩
  · rcases hactive key td ha with ⟨rfl, rfl⟩ | ha
    · exact absurd hfor (hunused.1 e g hl)
    · exact h.fresh key td ha e g hl hfor
  · rw [htds, List.mem_append, List.mem_singleton] at ht
    rcases hactive key td ha with ⟨rfl, rfl⟩ | ha
    · rcases ht with ht | rfl
      · exact absurd hkey (hunused.2 t ht)
      · rfl
    · rcases ht with ht | rfl
      · exact h.owed key td ha t ht hkey
      · have hkey : key = interruptKey layout ep s := by simpa [Td.keys] using hkey
        exact absurd hkey (h.place_free (i := s.enqueue ep) hwait hep ha)
  · rw [XhciSystem.Kept, htds]
    rcases hpending ep' p hp with ⟨-, rfl⟩ | hp
    · exact .inl (List.mem_append_right _ (List.mem_singleton_self _))
    · rcases h.kept ep' p hp with htd | hleft
      · exact .inl (List.mem_append_left _ htd)
      · exact .inr hleft
  · rcases hpending ep' p hp with ⟨rfl, rfl⟩ | hp
    · exact ⟨hdci, s.enqueue ep', rfl⟩
    · exact h.places ep' p hp
  · have hw : s.wait = some (.transfer w) := hw
    rw [hwait] at hw
    cases hw

theorem awaitInterrupt_inv (h : XhciInv layout s) : XhciInv layout (awaitInterrupt ep s) := by
  unfold awaitInterrupt
  split
  · exact h
  · rename_i p hp
    have ha : s.Active p.key p.td := .inl ⟨ep, p, hp, rfl, rfl⟩
    exact startWait_inv h ⟨p, hp, rfl, rfl⟩ (h.fresh _ _ ha) (h.owed _ _ ha)

/-! ## Reports -/

/-- An event of a transfer is for one of its TRBs. A transfer that goes on after it has a data TRB. -/
theorem Td.after_some {td : Td} {after : Option Td} (h : td.after event = some after) :
    trbGetType event.control = xhciTrbTransferEvent ∧ (∃ key ∈ td.keys, event.IsFor key) ∧
      ∀ td' ∈ after, td.data ≠ none ∧ td' = { td with data := none } := by
  unfold Td.after at h
  split at h
  · cases h
  rename_i htype
  refine ⟨not_not.mp htype, ?_⟩
  split at h
  · rename_i hlast
    cases h
    exact ⟨⟨td.last, List.mem_append_right _ (List.mem_singleton_self _), hlast⟩, fun _ hno => by cases hno⟩
  split at h
  · rename_i hshort
    cases h
    cases hdata : td.data with
    | none => simp [hdata] at hshort
    | some key =>
      refine ⟨⟨key, ?_, by simpa [hdata] using hshort.1⟩, fun td' htd' => ?_⟩
      · simp [Td.keys, hdata]
      · cases htd'
        exact ⟨by simp, rfl⟩
  split at h
  · rename_i hfailed
    cases h
    obtain ⟨key, hkey, hfor⟩ := List.any_eq_true.mp hfailed.2
    exact ⟨⟨key, hkey, by simpa using hfor⟩, fun _ hno => by cases hno⟩
  · cases h

/-- A report, with what the controller has left to do. -/
theorem XhciInv.reported (h : XhciInv layout s) {td : Td} (htd : td ∈ s.tds)
    (htype : trbGetType event.control = xhciTrbTransferEvent) (hkey : ∃ key ∈ td.keys, event.IsFor key) {rest : List Td}
    (hrest : ∀ t ∈ rest, t ∈ s.tds ∨ t = { td with data := none }) (hstill : ∀ t ∈ s.tds, t ∈ rest ∨ t = td) :
    XhciInv layout { s with events := s.events ++ [(event, td.id)], tds := rest } := by
  obtain ⟨key₀, hkey₀, hfor₀⟩ := hkey
  refine ⟨fun key td' ha e g hl hfor => ?_, fun key td' ha t ht hkey => ?_, fun ep p hp => ?_, h.places, h.awaited,
    h.returned⟩
  · rcases hl with ⟨htype', hmem⟩ | hstash
    · rcases List.mem_append.mp hmem with hmem | hmem
      · exact h.fresh key td' ha e g (.inl ⟨htype', hmem⟩) hfor
      · obtain ⟨rfl, rfl⟩ := Prod.mk.inj (List.mem_singleton.mp hmem)
        rw [← IsFor.unique hfor₀ hfor] at ha
        exact h.owed key₀ td' ha td htd hkey₀
    · exact h.fresh key td' ha e g (.inr hstash) hfor
  · rcases hrest t ht with ht | rfl
    · exact h.owed key td' ha t ht hkey
    · refine h.owed key td' ha td htd ?_
      simp only [Td.keys, List.mem_append, Option.toList_none, List.not_mem_nil, or_false] at hkey ⊢
      exact hkey.imp_left .inl
  · rcases h.kept ep p hp with hold | ⟨e, hl, hfor⟩
    · rcases hstill _ hold with hold | rfl
      · exact .inl hold
      · -- the controller has finished it with this event
        have hkey : key₀ = p.key := by simpa [Td.keys] using hkey₀
        refine .inr ⟨event, .inl ⟨htype, List.mem_append_right _ (List.mem_singleton_self _)⟩, hkey ▸ hfor₀⟩
    · refine .inr ⟨e, ?_, hfor⟩
      rcases hl with ⟨htype', hmem⟩ | hstash
      · exact .inl ⟨htype', List.mem_append_left _ hmem⟩
      · exact .inr hstash

theorem reportTd_inv {i : Nat} (h : XhciInv layout s) (hstep : reportTd i event s = some s') : XhciInv layout s' := by
  unfold reportTd at hstep
  obtain ⟨td, hi, hstep⟩ := Option.bind_eq_some_iff.mp hstep
  obtain ⟨after, hafter, hstep⟩ := Option.bind_eq_some_iff.mp hstep
  obtain ⟨htype, hkey, hgoes⟩ := Td.after_some hafter
  obtain ⟨hlt, hget⟩ := List.getElem?_eq_some_iff.mp hi
  have hsplit : s.tds = s.tds.take i ++ td :: s.tds.drop (i + 1) := by
    rw [← hget, List.cons_getElem_drop_succ, List.take_append_drop]
  have htd : td ∈ s.tds := List.mem_of_getElem? hi
  have hin : ∀ t ∈ s.tds, t = td ∨ t ∈ s.tds.take i ∨ t ∈ s.tds.drop (i + 1) := by
    intro t ht
    rw [hsplit, List.mem_append, List.mem_cons] at ht
    tauto
  cases hstep
  cases after with
  | none =>
    refine h.reported htd htype hkey (fun t ht => ?_) fun t ht => ?_
    · exact .inl (List.mem_of_mem_eraseIdx ht)
    · rw [Option.elim_none, List.eraseIdx_eq_take_drop_succ, List.mem_append]
      exact (hin t ht).elim .inr .inl
  | some td' =>
    obtain ⟨-, rfl⟩ := hgoes td' rfl
    refine h.reported htd htype hkey (fun t ht => ?_) fun t ht => ?_
    · exact List.mem_or_eq_of_mem_set ht
    · rw [Option.elim_some, List.set_eq_take_append_cons_drop, if_pos hlt, List.mem_append, List.mem_cons]
      rcases hin t ht with heq | hbefore | hafter
      · exact .inr heq
      · exact .inl (.inl hbefore)
      · exact .inl (.inr (.inr hafter))

theorem notice_inv (h : XhciInv layout s) (htype : trbGetType event.control ≠ xhciTrbTransferEvent) :
    XhciInv layout { s with events := s.events ++ [(event, 0)] } := by
  have hleft : ∀ e g, { s with events := s.events ++ [(event, 0)] }.Left e g ↔ s.Left e g := by
    intro e g
    refine or_congr (and_congr_right fun htype' => ?_) Iff.rfl
    rw [List.mem_append, List.mem_singleton]
    refine or_iff_left fun heq => htype ?_
    rw [← (Prod.mk.inj heq).1]
    exact htype'
  refine ⟨fun key td ha e g hl => h.fresh key td ha e g ((hleft e g).mp hl), h.owed, fun ep p hp => ?_, h.places,
    h.awaited, h.returned⟩
  rcases h.kept ep p hp with htd | ⟨e, hl, hfor⟩
  · exact .inl htd
  · exact .inr ⟨e, (hleft e _).mpr hl, hfor⟩

/-! ## Runs -/

theorem xhciStep_inv {act : XhciAct} (h : XhciInv layout s) (hact : Orderly layout s act)
    (hstep : xhciStep layout s act = some s') : XhciInv layout s' := by
  cases act with
  | control index size =>
    simp only [xhciStep] at hstep
    split at hstep <;> cases hstep
    rename_i hwait
    exact startControl_inv h (by simpa using hwait) hact
  | interruptIn ep len =>
    simp only [xhciStep] at hstep
    split at hstep
    · cases hstep
    rename_i hcan
    obtain ⟨hwait, hdci⟩ := not_or.mp hcan
    split at hstep <;> cases hstep
    · exact awaitInterrupt_inv h
    · rename_i hep
      exact awaitInterrupt_inv (pushInterrupt_inv h (by simpa using hwait) hdci hep (hact hep))
  | command trb =>
    simp only [xhciStep] at hstep
    split at hstep <;> cases hstep
    exact h.continued fun _ hno => by cases hno
  | spin => exact spinOnce_inv h hact hstep
  | report i event => exact reportTd_inv h hstep
  | notice event =>
    simp only [xhciStep] at hstep
    split at hstep <;> cases hstep
    exact notice_inv h ‹_›

/-- A wait that returns 0 has come to an event that reports the transfer that it waits for. -/
def XhciSystem.Attributed (s : XhciSystem) : Prop :=
  ∀ r ∈ s.returns, ∀ actual, r.outcome = .done actual → r.event.IsFor r.key ∧ r.tag = r.td

/-- The controller has not finished what is pending, or its event is still there. -/
def XhciSystem.NoneLost (s : XhciSystem) : Prop :=
  ∀ ep p, s.pending ep = some p → (∃ td ∈ s.tds, td.id = p.td) ∨ ∃ event, s.Left event p.td ∧ event.IsFor p.key

/-- One step with an act that satisfies `cond`. -/
def xhciMove (layout : XhciLayout) (cond : XhciSystem → XhciAct → Prop) (s s' : XhciSystem) : Prop :=
  ∃ act, cond s act ∧ xhciStep layout s act = some s'

theorem xhciRun_inv (hrun : Run (xhciMove layout (Orderly layout)) xhciIdle s) : XhciInv layout s := by
  refine hrun.invariant (XhciInv layout) (fun s t hs hst => ?_) (xhciIdle_inv layout)
  obtain ⟨act, hact, hstep⟩ := hst
  exact xhciStep_inv hs hact hstep

/-- In every run whose steps are in order. -/
theorem xhciRun_orderly (hrun : Run (xhciMove layout (Orderly layout)) xhciIdle s) : s.Attributed ∧ s.NoneLost := by
  have hinv := xhciRun_inv hrun
  refine ⟨fun r hr _ _ => hinv.returned r hr, fun ep p hp => ?_⟩
  rcases hinv.kept ep p hp with htd | hleft
  · exact .inl ⟨_, htd, rfl⟩
  · exact .inr hleft

/-- The acts one after the other. -/
def xhciRun (layout : XhciLayout) (s : XhciSystem) : List XhciAct → Option XhciSystem
  | [] => some s
  | act :: acts => (xhciStep layout s act).bind fun s => xhciRun layout s acts

theorem xhciRun_moves {acts : List XhciAct} (h : xhciRun layout s acts = some s') :
    Run (xhciMove layout fun _ _ => True) s s' := by
  induction acts generalizing s with
  | nil =>
    cases h
    exact .refl
  | cons act acts ih =>
    obtain ⟨t, hstep, hrest⟩ := Option.bind_eq_some_iff.mp h
    exact .head ⟨act, trivial, hstep⟩ (ih hrest)

/-- Whether the step is in order; a free place in the stash is room enough. -/
def orderly (layout : XhciLayout) (s : XhciSystem) (act : XhciAct) : Bool :=
  let unused (key : TrbKey) : Bool := s.events.all (fun event => ¬ event.1.IsFor key) &&
    stashPlaces.all (fun i => (s.stash i).all fun event => ¬ event.IsFor key) &&
    s.tds.all fun td => key ∉ td.keys
  match act with
  | .control index size => unused (controlTd layout index size s).last
  | .interruptIn ep _ => (s.pending ep).isSome || unused (interruptKey layout ep s)
  | .spin => stashPlaces.any fun i => (s.stash i).isNone
  | _ => true

theorem orderly_sound {act : XhciAct} (h : orderly layout s act = true) : Orderly layout s act := by
  have hunused : ∀ key, (s.events.all (fun event => ¬ event.1.IsFor key) &&
      stashPlaces.all (fun i => (s.stash i).all fun event => ¬ event.IsFor key) &&
      s.tds.all fun td => key ∉ td.keys) = true → s.Unused key := by
    intro key hkey
    simp only [Bool.and_eq_true, List.all_eq_true, decide_eq_true_eq] at hkey
    obtain ⟨⟨hevents, hstash⟩, htds⟩ := hkey
    refine ⟨?_, htds⟩
    rintro event tag (⟨-, hmem⟩ | ⟨i, hi, -⟩)
    · exact hevents _ hmem
    · have hall := hstash i (List.mem_finRange i)
      rw [hi] at hall
      simpa using hall
  cases act with
  | control index size => exact hunused _ h
  | interruptIn ep len =>
    intro hep
    simp only [orderly, hep, Option.isSome_none, Bool.false_or] at h
    exact hunused _ h
  | spin =>
    obtain ⟨i, -, hi⟩ := List.any_eq_true.mp h
    exact fun _ _ _ _ _ _ _ _ _ _ _ _ => ⟨i, by simpa using hi⟩
  | command trb => trivial
  | report i event => trivial
  | notice event => trivial

/-- The acts one after the other, as long as they are in order. -/
def orderlyRun (layout : XhciLayout) (s : XhciSystem) : List XhciAct → Option XhciSystem
  | [] => some s
  | act :: acts =>
    if orderly layout s act then (xhciStep layout s act).bind fun s => orderlyRun layout s acts else none

theorem orderlyRun_moves {acts : List XhciAct} (h : orderlyRun layout s acts = some s') :
    Run (xhciMove layout (Orderly layout)) s s' := by
  induction acts generalizing s with
  | nil =>
    cases h
    exact .refl
  | cons act acts ih =>
    rw [orderlyRun] at h
    split at h
    · rename_i hact
      obtain ⟨t, hstep, hrest⟩ := Option.bind_eq_some_iff.mp h
      exact .head ⟨act, orderly_sound hact, hstep⟩ (ih hrest)
    · cases h

/-! ## A short packet, and the ring once around -/

/-- The rings one after the other. -/
def sampleRings : XhciLayout where
  slotId index := BitVec.ofNat 8 (index.val + 1)
  base ep := BitVec.ofNat 64 (0x10000 + (ep.index.val * 32 + ep.dci.val) * 512)
  apart := by
    rintro ⟨a, b⟩ ⟨c, d⟩ i j h
    have ha := a.isLt
    have hb := b.isLt
    have hc := c.isLt
    have hd := d.isLt
    have hi := i.isLt
    have hj := j.isLt
    unfold xhciMaxDevices at ha hc
    unfold xhciMaxEndpoints at hb hd
    unfold xhciTransferPlaces at hi hj
    have hnat := congrArg BitVec.toNat h
    simp only [trbAt, TransferRing.trb, BitVec.toNat_add, BitVec.toNat_ofNat] at hnat
    have hac : a.val = c.val := by omega
    have hbd : b.val = d.val := by omega
    rw [Fin.ext hac, Fin.ext hbd]

def firstDevice : Fin xhciMaxDevices := ⟨0, by decide⟩

/-- An event of a control transfer of the first device, at a place of the ring. -/
def sampleEvent (status : BitVec 32) (place : Nat) : Trb :=
  ⟨BitVec.ofNat 64 (0x10200 + 16 * (place % 31)), status, 0x01018000⟩

/-- A control transfer in which all bytes come, at a place of the ring. -/
def sampleWhole (place : Nat) : List XhciAct :=
  [.control firstDevice 18, .report 0 (sampleEvent 0x01000000 (place + 2)), .spin]

/-- Eight of eighteen bytes come in the first transfer, and the TRB of its data is that of the status of the eleventh. -/
def sampleAround : List XhciAct :=
  [.control firstDevice 18, .report 0 (sampleEvent 0x0d00000a 1), .report 0 (sampleEvent 0x01000000 2), .spin, .spin] ++
    ([3, 6, 9, 12, 15, 18, 21, 24, 27].flatMap sampleWhole) ++ [.control firstDevice 18]

/-- The eleventh transfer returns at once with the event of the first. -/
theorem xhciRun_confused : ¬ ∀ layout s, Run (xhciMove layout fun _ _ => True) xhciIdle s → s.Attributed ∧ s.NoneLost := by
  intro hall
  have h : (xhciRun sampleRings xhciIdle sampleAround).map (fun s =>
      s.returns.getLast?.map fun r => (r.tag, r.td, r.outcome)) = some (some (0, 10, .done 8)) := by
    decide +kernel
  obtain ⟨s, hs, hf⟩ := Option.map_eq_some_iff.mp h
  obtain ⟨r, hr, hfields⟩ := Option.map_eq_some_iff.mp hf
  simp only [Prod.mk.injEq] at hfields
  obtain ⟨htag, htd, houtcome⟩ := hfields
  have hsame := ((hall sampleRings s (xhciRun_moves hs)).1 r (List.mem_of_getLast? hr) 8 houtcome).2
  omega

/-- The mouse is on endpoint 3 of the second device. -/
def sampleMouseEndpoint : XhciEndpoint := ⟨⟨1, by decide⟩, ⟨3, by decide⟩⟩

/-- A short control transfer and a report of the mouse. -/
def sampleOrderly : List XhciAct :=
  [.control firstDevice 18, .report 0 (sampleEvent 0x0d00000a 1), .report 0 (sampleEvent 0x01000000 2), .spin, .spin,
    .interruptIn sampleMouseEndpoint 4, .report 0 ⟨0x14600, 0x01000000, 0x02038000⟩, .spin]

theorem xhciRun_orderly_sample : ∃ s, Run (xhciMove sampleRings (Orderly sampleRings)) xhciIdle s ∧
    s.returns.map WaitReturn.outcome = [.done 18, .done 4] ∧ s.Attributed ∧ s.NoneLost := by
  have h : (orderlyRun sampleRings xhciIdle sampleOrderly).map (fun s => s.returns.map WaitReturn.outcome) =
      some [.done 18, .done 4] := by
    decide +kernel
  obtain ⟨s, hs, hf⟩ := Option.map_eq_some_iff.mp h
  have hrun := orderlyRun_moves hs
  exact ⟨s, hrun, hf, xhciRun_orderly hrun⟩

end Armonios
