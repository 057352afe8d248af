import Armonios.Drivers.Hid
import Armonios.Drivers.XhciTransfer
import Armonios.Gui.Keyboard

/-!
# Polling the HID devices

The model of `usb_hid_mouse_report` and `usb_hid_poll_device` of `drivers/usb/hid_driver.c`, with the end of
`xhci_interrupt_in_device` of `drivers/usb/xhci.c`. The report is a local of the poll, which the transfer fills as
far as the device has sent, and all of it is read.

* `shortKeyboard_differs`, `shortMouse_differs`: a short report with one byte or another in the rest of the local;
* `usbHidPollDevice_stack`: the local matters exactly for the short reports.
-/

namespace Armonios

/-! ## The mouse -/

/-- A turn of the loop over the buttons. An error is the `break`. -/
def mouseTurn (report : HidBootMouseReport) (changed outLen : UInt8) (events : List InputEvent) (i : UInt8) :
    Except (List InputEvent) (List InputEvent) :=
  let mask : UInt8 := 1 <<< i
  if changed &&& mask = 0 then .ok events
  else if outLen.toNat ≤ events.length then .error events
  else .ok (events ++ [.mouseButton i.toUInt32 (report.buttons &&& mask ≠ 0)])

/-- `usb_hid_mouse_report`, with what is stored in `out`. -/
def usbHidMouseReport (dev : UsbHidDevice) (report : HidBootMouseReport) (outLen : UInt8) :
    UsbHidDevice × List InputEvent :=
  if outLen = 0 then (dev, [])
  else
    let moved := if report.dx ≠ 0 ∨ report.dy ≠ 0 then [.mouseMove report.dx.toInt report.dy.toInt] else []
    let changed := report.buttons ^^^ dev.prevButtons
    ({ dev with prevButtons := report.buttons }, leaves ([0, 1, 2].foldlM (mouseTurn report changed outLen) moved))

/-! ## The transfer -/

/-- The interrupt transfer of a poll: `usb_active_controller`, the default device for a device without a controller
of its own, the wait, and the bytes of `interrupt_buffer`. -/
structure HidTransfer where
  active : Bool
  hasDefaultDevice : Bool
  wait : TransferWait
  interruptBuffer : Nat → UInt8

/-- `xhci_interrupt_in_device` from the wait on: its value, and the bytes of `buf`. -/
def xhciInterruptInDevice (transfer : HidTransfer) (size : Nat) (buf : Nat → UInt8) : Int × (Nat → UInt8) :=
  match transfer.wait with
  | .failed => (-1, buf)
  | .pending => (0, buf)
  | .done actual =>
    let actual := min actual.toNat size
    (actual, fun i => if i < actual then transfer.interruptBuffer i else buf i)

/-- `xhci_interrupt_in`. -/
def xhciInterruptIn (transfer : HidTransfer) (size : Nat) (buf : Nat → UInt8) : Int × (Nat → UInt8) :=
  if transfer.hasDefaultDevice = false then (-1, buf) else xhciInterruptInDevice transfer size buf

/-! ## The poll -/

def hidBootKeyboardReportSize : Nat := 8
def hidBootMouseReportSize : Nat := 3

/-- The report that the bytes are. -/
def HidBootKeyboardReport.ofBytes (bytes : Nat → UInt8) : HidBootKeyboardReport :=
  ⟨bytes 0, bytes 1, fun i => bytes (2 + i.val)⟩

def HidBootMouseReport.ofBytes (bytes : Nat → UInt8) : HidBootMouseReport :=
    ⟨bytes 0, (bytes 1).toInt8, (bytes 2).toInt8⟩

def inputQueuePushAll (events : List InputEvent) (queue : InputQueue) : InputQueue :=
  events.foldl (fun queue event => (inputQueuePush event queue).getD queue) queue

structure HidPolled where
  ret : Int
  dev : UsbHidDevice
  queue : InputQueue

/-- The transfer of a device, into a local with the bytes of `stack`. -/
def UsbHidDevice.interruptIn (dev : UsbHidDevice) (transfer : HidTransfer) (size : Nat) (stack : Nat → UInt8) :
    Int × (Nat → UInt8) :=
  if dev.hasCtrl then xhciInterruptInDevice transfer size stack else xhciInterruptIn transfer size stack

def usbHidPollDevice (transfer : HidTransfer) (stack : Nat → UInt8) (dev : UsbHidDevice) (queue : InputQueue) :
    HidPolled :=
  if dev.endpointIn = 0 then ⟨-1, dev, queue⟩
  else if transfer.active = false then ⟨-1, dev, queue⟩
  else if dev.protocol = 0x01 then
    let report := dev.interruptIn transfer hidBootKeyboardReportSize stack
    if report.1 ≤ 0 then ⟨report.1, dev, queue⟩
    else
      let out := usbHidKeyboardReport dev (.ofBytes report.2) 8
      ⟨out.events.length, out.dev, inputQueuePushAll (out.events.map KeyEvent.toInput) queue⟩
  else if dev.protocol = 0x02 then
    let report := dev.interruptIn transfer hidBootMouseReportSize stack
    if report.1 ≤ 0 then ⟨report.1, dev, queue⟩
    else
      let out := usbHidMouseReport dev (.ofBytes report.2) 4
      ⟨out.2.length, out.1, inputQueuePushAll out.2 queue⟩
  else ⟨-1, dev, queue⟩

/-- A poll, with what it finds. The others that use the queue keep it well formed. -/
structure HidPoll where
  transfer : HidTransfer
  stack : Nat → UInt8
  queue : { queue : InputQueue // queue.Ok }

/-- A device after some polls. -/
def usbHidPolls (dev : UsbHidDevice) (polls : List HidPoll) : UsbHidDevice :=
  polls.foldl (fun dev poll => (usbHidPollDevice poll.transfer poll.stack dev poll.queue.val).dev) dev

/-- The device has sent some bytes of a report, and not all. -/
def HidTransfer.Short (transfer : HidTransfer) (size : Nat) : Prop :=
  match transfer.wait with
  | .done actual => 0 < actual.toNat ∧ actual.toNat < size
  | _ => False

/-- The controller gets to the device. -/
def UsbHidDevice.Reached (dev : UsbHidDevice) (transfer : HidTransfer) : Prop :=
  dev.hasCtrl = true ∨ transfer.hasDefaultDevice = true

/-- A short report that matters: one of a keyboard, or one of a mouse while there is room in the queue. -/
def UsbHidDevice.ShortReport (dev : UsbHidDevice) (transfer : HidTransfer) (queue : InputQueue) : Prop :=
  (dev.endpointIn ≠ 0 ∧ transfer.active = true ∧ dev.Reached transfer) ∧
    (dev.protocol = 0x01 ∧ transfer.Short hidBootKeyboardReportSize ∨
      dev.protocol = 0x02 ∧ transfer.Short hidBootMouseReportSize ∧ queue.waiting.length < inputEventQueueSize)

/-! ## Short keyboard reports -/

theorem exists_unused_byte (l : List UInt8) (h : l.length < 256) : ∃ x, x ∉ l := by
  have hcard : (l.map UInt8.toNat).toFinset.card < (Finset.range 256).card := by
    have := List.toFinset_card_le (l.map UInt8.toNat)
    rw [List.length_map] at this
    rw [Finset.card_range]
    omega
  obtain ⟨n, hn, hunused⟩ := Finset.exists_mem_notMem_of_card_lt_card hcard
  refine ⟨UInt8.ofNat n, fun hmem => hunused ?_⟩
  rw [List.mem_toFinset]
  refine List.mem_map.mpr ⟨_, hmem, ?_⟩
  exact UInt8.toNat_ofNat_of_lt' (Finset.mem_range.mp hn)

/-- The report of which `n` bytes have been sent, with `x` in the rest. -/
def shortReport (sent : Nat → UInt8) (n : Nat) (x : UInt8) : HidBootKeyboardReport :=
  .ofBytes fun i => if i < n then sent i else x

section Keyboard

variable {dev : UsbHidDevice} {report : HidBootKeyboardReport} {outLen : UInt8} {s t : KeyboardTurn} {i : KeySlot}
  {key x : UInt8} {sent : Nat → UInt8} {n : Nat}

theorem shortReport_key (hn : n < 8) (x : UInt8) (j : KeySlot) :
    (shortReport sent n x).keys j = x ∨ ∃ k : Fin 5, (∀ y, (shortReport sent n y).keys j = sent (2 + k.val)) ∧
      (shortReport sent n x).keys j = sent (2 + k.val) := by
  have hkey : ∀ y, (shortReport sent n y).keys j = if 2 + j.val < n then sent (2 + j.val) else y := fun _ => rfl
  by_cases hj : 2 + j.val < n
  · refine .inr ⟨⟨j.val, by omega⟩, fun y => ?_, ?_⟩ <;> rw [hkey, if_pos hj]
  · rw [hkey, if_neg hj]
    exact .inl rfl

theorem shortReport_last (hn : n < 8) (x : UInt8) : (shortReport sent n x).keys ⟨5, by decide⟩ = x :=
  if_neg (by simp only; omega)

/-- A held key that the report has stays, and is not to be released. -/
theorem usbHidKeyboardReport_kept (hout : 6 ≤ outLen.toNat) (hheld : dev.prevKeys i ≠ 0)
    (hin : keyInReport report (dev.prevKeys i) = true) :
    (usbHidKeyboardReport dev report outLen).dev.entry i = (dev.prevKeys i, 0) := by
  refine usbHidKeyboardReport_entries (fun t => t.entry i = (dev.prevKeys i, 0)) hout (fun t ht => ?_) fun s j hs => ?_
  · rw [ht]
    exact (if_neg hheld).trans (if_pos hin)
  · have hprev : s.dev.prevKeys i = dev.prevKeys i := congrArg Prod.fst hs
    rcases pressTurn_entry report outLen s j i with h | ⟨h, -, hkey | hfree⟩
    · rw [h, hs]
    · rw [h, ← hkey, hprev]
    · exact absurd (hprev.symm.trans hfree) hheld

/-- A held key that the report does not have is to be released, or gone. -/
theorem usbHidKeyboardReport_not_kept (hout : 6 ≤ outLen.toNat) (hheld : dev.prevKeys i ≠ 0)
    (hin : keyInReport report (dev.prevKeys i) = false) :
    (usbHidKeyboardReport dev report outLen).dev.entry i ≠ (dev.prevKeys i, 0) := by
  refine usbHidKeyboardReport_entries (fun t => t.entry i ≠ (dev.prevKeys i, 0)) hout (fun t ht => ?_) fun s j hs => ?_
  · rw [ht]
    rw [releaseEntry, UsbHidDevice.entry_fst, if_neg hheld, if_neg (by simp [hin])]
    by_cases hpending : (dev.entry i).2 = 0
    · rw [if_pos hpending]
      simp
    · rw [if_neg hpending]
      simpa using fun h : 0 = dev.prevKeys i => hheld h.symm
  · rcases pressTurn_entry report outLen s j i with h | ⟨h, -, -⟩
    · rwa [h]
    · rw [h]
      intro heq
      rw [← Bool.not_eq_true, keyInReport_iff] at hin
      exact hin ⟨j, congrArg Prod.fst heq⟩

/-- A key that is neither held nor in the report is not held afterwards. -/
theorem usbHidKeyboardReport_absent (hout : 6 ≤ outLen.toNat) (hkey : key ≠ 0) (hnew : ∀ j, dev.prevKeys j ≠ key)
    (hin : ∀ j, report.keys j ≠ key) (i : KeySlot) : (usbHidKeyboardReport dev report outLen).dev.prevKeys i ≠ key := by
  refine usbHidKeyboardReport_entries (fun t => t.prevKeys i ≠ key) hout (fun t ht => ?_) fun s j hs => ?_
  · have hprev : t.prevKeys i = (releaseEntry report (dev.entry i)).1 := congrArg Prod.fst (ht i)
    rw [hprev, releaseEntry]
    split
    · exact hnew i
    · split
      · exact hnew i
      · split
        · exact hnew i
        · exact hkey.symm
  · rcases pressTurn_entry report outLen s j i with h | ⟨h, -, -⟩
    · have hprev := congrArg Prod.fst h
      exact fun heq => hs (hprev.symm.trans heq)
    · have hprev := congrArg Prod.fst h
      exact fun heq => hin j (hprev.symm.trans heq)

/-- With a report that has all the keys that are held the first loop releases none. -/
theorem releaseLoop_held (hheld : ∀ i, dev.prevKeys i ≠ 0 → ∃ j, report.keys j = dev.prevKeys i) :
    Flows (fun t : KeyboardTurn => t.dev.prevKeys = dev.prevKeys ∧ t.events = []) (fun _ => False)
      (keySlots.foldlM (releaseTurn report outLen) ⟨dev, []⟩) := by
  refine flows_foldlM (P := fun _ (t : KeyboardTurn) => t.dev.prevKeys = dev.prevKeys ∧ t.events = [])
    (fun i l s hs => ?_) ⟨rfl, rfl⟩
  unfold releaseTurn
  dsimp only
  split
  · exact hs
  · rename_i hkey
    have hin : keyInReport report (s.dev.prevKeys i) = true := by
      rw [keyInReport_iff, hs.1]
      rw [hs.1] at hkey
      exact hheld i hkey
    rw [if_pos hin]
    exact hs

/-- What holds of the entries while the second loop has the slots of `l` before it. -/
structure Pressing (report : HidBootKeyboardReport) (l : List KeySlot) (t : KeyboardTurn) : Prop where
  room : t.events.length + l.length ≤ 6
  distinct : DistinctKeys t.dev.prevKeys
  reported : ∀ i, t.dev.prevKeys i ≠ 0 → ∃ j, report.keys j = t.dev.prevKeys i
  pressed : ∀ j, j ∉ l → report.keys j ≠ 0 → HoldsKey t.dev.prevKeys (report.keys j) ∨ ∀ i, t.dev.prevKeys i ≠ 0

theorem Pressing.next {l : List KeySlot} (h : Pressing report (i :: l) s) (hroom : t.events.length + l.length ≤ 6)
    (hdistinct : DistinctKeys t.dev.prevKeys)
    (hprev : ∀ j, t.dev.prevKeys j = s.dev.prevKeys j ∨ t.dev.prevKeys j = report.keys i ∧ s.dev.prevKeys j = 0)
    (hi : report.keys i ≠ 0 → HoldsKey t.dev.prevKeys (report.keys i) ∨ ∀ j, t.dev.prevKeys j ≠ 0) :
    Pressing report l t := by
  refine ⟨hroom, hdistinct, fun j hj => ?_, fun j hj hkey => ?_⟩
  · rcases hprev j with heq | ⟨heq, -⟩
    · rw [heq] at hj ⊢
      exact h.reported j hj
    · exact ⟨i, heq.symm⟩
  · by_cases hji : j = i
    · subst hji
      exact hi hkey
    · rcases h.pressed j (by simp [hji, hj]) hkey with ⟨-, k, hk⟩ | hfull
      · refine .inl ⟨hkey, k, ?_⟩
        rcases hprev k with heq | ⟨-, hfree⟩
        · rw [heq, hk]
        · exact absurd (hk.symm.trans hfree) hkey
      · refine .inr fun k => ?_
        rcases hprev k with heq | ⟨-, hfree⟩
        · rw [heq]
          exact hfull k
        · exact absurd hfree (hfull k)

theorem pressTurn_pressing {l : List KeySlot} (hout : 6 < outLen.toNat) (h : Pressing report (i :: l) s) :
    Flows (Pressing report l) (fun _ => False) (pressTurn report outLen s i) := by
  have hroom := h.room
  have hdistinct : DistinctKeys (leaves (pressTurn report outLen s i)).dev.prevKeys :=
    h.distinct.change pressTurn_change
  rw [List.length_cons] at hroom
  unfold pressTurn at hdistinct ⊢
  dsimp only at hdistinct ⊢
  split
  · rename_i hnone
    exact h.next (by omega) h.distinct (fun _ => .inl rfl) fun hkey => absurd hnone hkey
  · rename_i hkey
    rw [if_neg hkey] at hdistinct
    cases hseen : keySlot s.dev (report.keys i) with
    | some seen =>
      exact h.next (by simp only; omega) h.distinct (fun _ => .inl rfl) fun _ =>
        .inl ⟨hkey, seen, keySlot_some hseen⟩
    | none =>
      cases hslot : emptyKeySlot s.dev with
      | none =>
        exact h.next (by omega) h.distinct (fun _ => .inl rfl) fun _ => .inr (keySlot_none.mp hslot)
      | some slot =>
        simp only [hseen, hslot, leaves_emit] at hdistinct
        dsimp only
        have hlength : ¬ outLen.toNat ≤ (s.events ++ [(⟨report.keys i, true⟩ : KeyEvent)]).length := by
          rw [List.length_append, List.length_singleton]
          omega
        unfold KeyboardTurn.emit
        dsimp only
        rw [if_neg hlength]
        refine h.next (by simp; omega) hdistinct (fun j => ?_) fun _ => .inl ⟨hkey, slot, ?_⟩
        · rw [UsbHidDevice.setKey_prevKeys, Function.update_apply]
          split
          · rename_i hj
            subst hj
            exact .inr ⟨rfl, keySlot_some hslot⟩
          · exact .inl rfl
        · rw [UsbHidDevice.setKey_prevKeys, Function.update_self]

/-- If the report has all the keys that are held, then it has all those that are held afterwards, and each of its own
is held unless no entry is free. -/
theorem usbHidKeyboardReport_pressed (report : HidBootKeyboardReport) (hout : 6 < outLen.toNat)
    (hdistinct : DistinctKeys dev.prevKeys)
    (hheld : ∀ i, dev.prevKeys i ≠ 0 → ∃ j, report.keys j = dev.prevKeys i) :
    let after := (usbHidKeyboardReport dev report outLen).dev.prevKeys
    DistinctKeys after ∧ (∀ i, after i ≠ 0 → ∃ j, report.keys j = after i) ∧
      ∀ j, report.keys j ≠ 0 → HoldsKey after (report.keys j) ∨ ∀ i, after i ≠ 0 := by
  have hne : outLen ≠ 0 := by
    rintro rfl
    simp at hout
  have hloops : Flows (Pressing report []) (fun _ => False)
      (keySlots.foldlM (releaseTurn report outLen) ⟨dev, []⟩ >>= fun s =>
        keySlots.foldlM (pressTurn report outLen) s) := by
    refine (releaseLoop_held hheld).bind fun s hs => ?_
    refine flows_foldlM (P := Pressing report) (fun i l s h => pressTurn_pressing hout h) ⟨?_, ?_, ?_, ?_⟩
    · simp [hs.2, keySlots]
    · rwa [hs.1]
    · rwa [hs.1]
    · intro j hj
      simp [keySlots] at hj
  rw [usbHidKeyboardReport, if_neg hne]
  have hall : Pressing report [] (leaves (keySlots.foldlM (releaseTurn report outLen) ⟨dev, []⟩ >>= fun s =>
      keySlots.foldlM (pressTurn report outLen) s)) := hloops.imp (fun _ h => h) fun _ h => h.elim
  exact ⟨hall.distinct, hall.reported, fun j => hall.pressed j (by simp)⟩

/-- With a report of which less than the last key has been sent, there are two values of the rest that leave
different entries. -/
theorem shortKeyboard_differs (sent : Nat → UInt8) (hn : n < 8) (hout : 6 < outLen.toNat)
    (hdistinct : DistinctKeys dev.prevKeys) :
    ∃ x y, (usbHidKeyboardReport dev (shortReport sent n x) outLen).dev ≠
      (usbHidKeyboardReport dev (shortReport sent n y) outLen).dev := by
  have hout' : 6 ≤ outLen.toNat := Nat.le_of_lt hout
  by_cases hheld : ∀ i, dev.prevKeys i ≠ 0 → ∃ j, ∀ y, (shortReport sent n y).keys j = dev.prevKeys i
  · -- every held key has been sent: a new key finds a free entry
    obtain ⟨x, hx⟩ := exists_unused_byte
      (0 :: (List.finRange 6).map dev.prevKeys ++ (List.finRange 5).map fun k => sent (2 + k.val)) (by simp)
    simp only [List.cons_append, List.mem_cons, List.mem_append, List.mem_map, List.mem_finRange, true_and, not_or,
      not_exists] at hx
    obtain ⟨hkey, hnew, hsent⟩ := hx
    refine ⟨x, 0, fun heq => ?_⟩
    have habsent : ∀ i, (usbHidKeyboardReport dev (shortReport sent n 0) outLen).dev.prevKeys i ≠ x := by
      refine usbHidKeyboardReport_absent hout' hkey hnew fun j => ?_
      rcases shortReport_key hn 0 j with h | ⟨k, -, h⟩
      · rw [h]
        exact Ne.symm hkey
      · rw [h]
        exact hsent k
    rw [← heq] at habsent
    obtain ⟨hafter, hreported, hpressed⟩ := usbHidKeyboardReport_pressed (shortReport sent n x) hout
      hdistinct fun i hi => (hheld i hi).imp fun j hj => hj x
    have hlast := hpressed ⟨5, by decide⟩
    rw [shortReport_last hn] at hlast
    rcases hlast hkey with ⟨-, i, hi⟩ | hfull
    · exact habsent i hi
    · -- six keys among the five that may have been sent
      have hplace : ∀ i, ∃ k : Fin 5, sent (2 + k.val) =
          (usbHidKeyboardReport dev (shortReport sent n x) outLen).dev.prevKeys i := by
        intro i
        obtain ⟨j, hj⟩ := hreported i (hfull i)
        rcases shortReport_key hn x j with h | ⟨k, -, h⟩
        · exact absurd (hj.symm.trans h) (habsent i)
        · exact ⟨k, h.symm.trans hj⟩
      choose place hplace using hplace
      have hinj : Function.Injective place := by
        intro i j hij
        refine hafter i j ?_ (hfull i)
        rw [← hplace i, ← hplace j, hij]
      have hcard := Fintype.card_le_of_injective place hinj
      simp at hcard
  · -- a held key has not been sent
    push Not at hheld
    obtain ⟨i, hi, hunsent⟩ := hheld
    refine ⟨dev.prevKeys i, 0, fun heq => ?_⟩
    have hkept : (usbHidKeyboardReport dev (shortReport sent n (dev.prevKeys i)) outLen).dev.entry i =
        (dev.prevKeys i, 0) :=
      usbHidKeyboardReport_kept hout' hi (keyInReport_iff.mpr ⟨_, shortReport_last hn _⟩)
    have hin : keyInReport (shortReport sent n 0) (dev.prevKeys i) = false := by
      rw [← Bool.not_eq_true, keyInReport_iff]
      rintro ⟨j, hj⟩
      rcases shortReport_key hn 0 j with h | ⟨k, hall, h⟩
      · exact hi (hj.symm.trans h)
      · obtain ⟨y, hy⟩ := hunsent j
        exact hy ((hall y).trans (h.symm.trans hj))
    have hgone := usbHidKeyboardReport_not_kept hout' hi hin
    rw [← heq] at hgone
    exact hgone hkept

end Keyboard

/-! ## Short mouse reports -/

section Mouse

variable {dev : UsbHidDevice} {report : HidBootMouseReport} {outLen : UInt8} {queue : InputQueue}
  {event : InputEvent} {events : List InputEvent}

theorem mouseTurn_head {changed : UInt8} (i : UInt8) (h : events.head? = some event) :
    (leaves (mouseTurn report changed outLen events i)).head? = some event := by
  unfold mouseTurn
  dsimp only
  split
  · exact h
  · split
    · exact h
    · simp [leaves, h]

/-- A motion is the first event. -/
theorem usbHidMouseReport_head (dev : UsbHidDevice) (report : HidBootMouseReport) (hout : outLen ≠ 0)
    (hmoved : report.dx ≠ 0 ∨ report.dy ≠ 0) :
    (usbHidMouseReport dev report outLen).2.head? = some (.mouseMove report.dx.toInt report.dy.toInt) := by
  rw [usbHidMouseReport, if_neg hout]
  dsimp only
  rw [if_pos hmoved]
  exact flows_leaves.mp <| flows_foldlM
    (P := fun _ (l : List InputEvent) => l.head? = some (.mouseMove report.dx.toInt report.dy.toInt))
    (fun i _ l hl => flows_leaves.mpr (mouseTurn_head i hl)) rfl

theorem usbHidMouseReport_dev (dev : UsbHidDevice) (report : HidBootMouseReport) (hout : outLen ≠ 0) :
    (usbHidMouseReport dev report outLen).1 = { dev with prevButtons := report.buttons } := by
  rw [usbHidMouseReport, if_neg hout]

theorem inputQueuePushAll_prefix (hok : queue.Ok) (events : List InputEvent) :
    queue.waiting <+: (inputQueuePushAll events queue).waiting := by
  induction events generalizing queue with
  | nil => exact List.prefix_refl _
  | cons event events ih =>
    obtain ⟨hok', hwaiting⟩ := inputQueuePush_waiting hok event
    exact List.IsPrefix.trans (by rw [hwaiting]; exact List.prefix_append ..) (ih hok')

/-- With room for it the first event is the next one in the queue. -/
theorem inputQueuePushAll_next (hok : queue.Ok) (hroom : queue.waiting.length < inputEventQueueSize)
    (hhead : events.head? = some event) :
    (inputQueuePushAll events queue).waiting[queue.waiting.length]? = some event := by
  cases events with
  | nil => cases hhead
  | cons first events =>
    cases hhead
    obtain ⟨hok', hwaiting⟩ := inputQueuePush_waiting hok event
    rw [if_pos hroom] at hwaiting
    obtain ⟨rest, hrest⟩ := inputQueuePushAll_prefix hok' events
    rw [inputQueuePushAll, List.foldl_cons, ← inputQueuePushAll, ← hrest, hwaiting]
    simp

theorem inputQueuePushAll_full (hfull : inputEventQueueSize ≤ queue.waiting.length) (events : List InputEvent) :
    inputQueuePushAll events queue = queue := by
  induction events with
  | nil => rfl
  | cons event events ih =>
    have hpush : inputQueuePush event queue = none := Ring.push_none.mpr hfull
    rw [inputQueuePushAll, List.foldl_cons, hpush]
    exact ih

/-- With a report that ends before the last byte there are two values of the rest with two motions. -/
theorem shortMouse_differs (sent : Nat → UInt8) {n : Nat} (hn : n < 3) (hout : outLen ≠ 0) (hok : queue.Ok)
    (hroom : queue.waiting.length < inputEventQueueSize) :
    let after x := inputQueuePushAll (usbHidMouseReport dev
      (.ofBytes fun i => if i < n then sent i else x) outLen).2 queue
    after 1 ≠ after 2 := by
  intro after heq
  have hnext : ∀ x : UInt8, x.toInt8 ≠ 0 → ∃ dx, (after x).waiting[queue.waiting.length]? =
      some (.mouseMove dx x.toInt8.toInt) := by
    intro x hx
    have hdy : (HidBootMouseReport.ofBytes fun i => if i < n then sent i else x).dy = x.toInt8 := by
      simp only [HidBootMouseReport.ofBytes, if_neg (show ¬ 2 < n by omega)]
    have hhead := usbHidMouseReport_head dev (.ofBytes fun i => if i < n then sent i else x) hout
      (.inr (by rw [hdy]; exact hx))
    rw [hdy] at hhead
    exact ⟨_, inputQueuePushAll_next hok hroom hhead⟩
  obtain ⟨dx, h1⟩ := hnext 1 (by decide)
  obtain ⟨dx', h2⟩ := hnext 2 (by decide)
  rw [heq, h2] at h1
  simp only [Option.some.injEq, InputEvent.mouseMove.injEq] at h1
  exact absurd h1.2 (by decide)

end Mouse

/-! ## The bytes that have not been sent -/

section Poll

variable {dev : UsbHidDevice} {transfer : HidTransfer} {queue : InputQueue} {size : Nat}

theorem interruptIn_eq (dev : UsbHidDevice) (transfer : HidTransfer) (size : Nat) (stack : Nat → UInt8) :
    (dev.Reached transfer ∧ dev.interruptIn transfer size stack = xhciInterruptInDevice transfer size stack) ∨
      (¬ dev.Reached transfer ∧ dev.interruptIn transfer size stack = (-1, stack)) := by
  unfold UsbHidDevice.Reached UsbHidDevice.interruptIn xhciInterruptIn
  cases dev.hasCtrl <;> cases transfer.hasDefaultDevice <;> simp

/-- The transfer of a poll has nothing, or `n` bytes. -/
theorem interruptIn_cases (dev : UsbHidDevice) (transfer : HidTransfer) (size : Nat) :
    ((∃ status : Int, status ≤ 0 ∧ ∀ stack, (dev.interruptIn transfer size stack).1 = status) ∧
        ¬ (dev.Reached transfer ∧ transfer.Short size)) ∨
      ∃ n : Nat, 0 < n ∧ n ≤ size ∧
        (∀ stack, (dev.interruptIn transfer size stack).1 = n ∧
          (dev.interruptIn transfer size stack).2 = fun i => if i < n then transfer.interruptBuffer i else stack i) ∧
        (n < size ↔ dev.Reached transfer ∧ transfer.Short size) := by
  by_cases hreach : dev.Reached transfer
  · have heq : ∀ stack, dev.interruptIn transfer size stack = xhciInterruptInDevice transfer size stack := fun stack =>
      (interruptIn_eq dev transfer size stack).elim And.right fun h => absurd hreach h.1
    simp only [heq, hreach, true_and]
    unfold xhciInterruptInDevice HidTransfer.Short
    cases transfer.wait with
    | failed => exact .inl ⟨⟨-1, by omega, fun _ => rfl⟩, id⟩
    | pending => exact .inl ⟨⟨0, by omega, fun _ => rfl⟩, id⟩
    | done actual =>
      by_cases hpos : 0 < min actual.toNat size
      · exact .inr ⟨_, hpos, Nat.min_le_right .., fun _ => ⟨rfl, rfl⟩, by simp only; omega⟩
      · exact .inl ⟨⟨0, Int.le_refl 0, fun _ => by simp only; omega⟩, by simp only; omega⟩
  · have heq : ∀ stack, dev.interruptIn transfer size stack = (-1, stack) := fun stack =>
      (interruptIn_eq dev transfer size stack).elim (fun h => absurd h.1 hreach) And.right
    exact .inl ⟨⟨-1, by omega, fun stack => by rw [heq]⟩, fun h => hreach h.1⟩

/-- The device and the queue after the poll are the same for every two values of the local. -/
def SameAfterPoll (transfer : HidTransfer) (dev : UsbHidDevice) (queue : InputQueue) : Prop :=
  ∀ stack stack', (usbHidPollDevice transfer stack dev queue).dev = (usbHidPollDevice transfer stack' dev queue).dev ∧
    (usbHidPollDevice transfer stack dev queue).queue = (usbHidPollDevice transfer stack' dev queue).queue

theorem keyboardPoll_same (hdistinct : DistinctKeys dev.prevKeys) (hendpoint : dev.endpointIn ≠ 0)
    (hactive : transfer.active = true) (hkeyboard : dev.protocol = 0x01) :
    SameAfterPoll transfer dev queue ↔ ¬ (dev.Reached transfer ∧ transfer.Short hidBootKeyboardReportSize) := by
  unfold SameAfterPoll usbHidPollDevice
  simp only [if_neg hendpoint, hactive, Bool.true_eq_false, if_false, if_pos hkeyboard]
  rcases interruptIn_cases dev transfer hidBootKeyboardReportSize with ⟨⟨status, hle, hstatus⟩, hshort⟩ |
    ⟨n, hpos, hle, hvalue, hshort⟩
  · simp only [hstatus, if_pos hle, and_self, implies_true, hshort, not_false_eq_true]
  · have hsome : ¬ (n : Int) ≤ 0 := by omega
    simp only [(hvalue _).1, (hvalue _).2, if_neg hsome]
    rw [← hshort]
    constructor
    · intro h hlt
      obtain ⟨x, y, hne⟩ := shortKeyboard_differs transfer.interruptBuffer hlt
        (by decide : 6 < (8 : UInt8).toNat) hdistinct
      exact hne (h (fun _ => x) fun _ => y).1
    · intro hge stack stack'
      have hsame : ∀ stack : Nat → UInt8, HidBootKeyboardReport.ofBytes
          (fun i => if i < n then transfer.interruptBuffer i else stack i) = .ofBytes transfer.interruptBuffer := by
        intro stack
        have hn : n = 8 := by
          unfold hidBootKeyboardReportSize at hle hge
          omega
        have hkeys : ∀ i : KeySlot, 2 + i.val < 8 := fun i => by omega
        simp [HidBootKeyboardReport.ofBytes, hn, hkeys]
      rw [hsame, hsame]
      exact ⟨rfl, rfl⟩

theorem mousePoll_same (hok : queue.Ok) (hendpoint : dev.endpointIn ≠ 0) (hactive : transfer.active = true)
    (hmouse : dev.protocol = 0x02) :
    SameAfterPoll transfer dev queue ↔
      ¬ (dev.Reached transfer ∧ transfer.Short hidBootMouseReportSize ∧
        queue.waiting.length < inputEventQueueSize) := by
  have hkeyboard : dev.protocol ≠ 0x01 := by
    rw [hmouse]
    decide
  have hout : (4 : UInt8) ≠ 0 := by decide
  unfold SameAfterPoll usbHidPollDevice
  simp only [if_neg hendpoint, hactive, Bool.true_eq_false, if_false, if_neg hkeyboard, if_pos hmouse]
  rw [← and_assoc]
  rcases interruptIn_cases dev transfer hidBootMouseReportSize with ⟨⟨status, hle, hstatus⟩, hshort⟩ |
    ⟨n, hpos, hle, hvalue, hshort⟩
  · simp only [hstatus, if_pos hle, and_self, implies_true, hshort, false_and, not_false_eq_true]
  · have hsome : ¬ (n : Int) ≤ 0 := by omega
    simp only [(hvalue _).1, (hvalue _).2, if_neg hsome, usbHidMouseReport_dev dev _ hout]
    rw [← hshort]
    constructor
    · rintro h ⟨hlt, hroom⟩
      exact shortMouse_differs transfer.interruptBuffer hlt hout hok hroom (h (fun _ => 1) fun _ => 2).2
    · intro hnot stack stack'
      have hfirst : ∀ stack : Nat → UInt8, (HidBootMouseReport.ofBytes
          (fun i => if i < n then transfer.interruptBuffer i else stack i)).buttons = transfer.interruptBuffer 0 :=
        fun stack => if_pos hpos
      simp only [hfirst, true_and]
      by_cases hroom : queue.waiting.length < inputEventQueueSize
      · have hn : n = 3 := by
          have hge : ¬ n < hidBootMouseReportSize := fun hlt => hnot ⟨hlt, hroom⟩
          unfold hidBootMouseReportSize at hle hge
          omega
        simp [HidBootMouseReport.ofBytes, hn]
      · rw [inputQueuePushAll_full (by omega), inputQueuePushAll_full (by omega)]

/-- A poll without a transfer, or of another device. -/
theorem otherPoll_same (h : dev.endpointIn = 0 ∨ transfer.active = false ∨ dev.protocol ≠ 0x01 ∧ dev.protocol ≠ 0x02) :
    SameAfterPoll transfer dev queue := by
  intro stack stack'
  unfold usbHidPollDevice
  by_cases hendpoint : dev.endpointIn = 0
  · simp only [if_pos hendpoint, and_self]
  · by_cases hactive : transfer.active = false
    · simp only [if_neg hendpoint, if_pos hactive, and_self]
    · obtain ⟨hkeyboard, hmouse⟩ := (h.resolve_left hendpoint).resolve_left hactive
      simp only [if_neg hendpoint, if_neg hactive, if_neg hkeyboard, if_neg hmouse, and_self]

theorem usbHidPollDevice_same (hdistinct : DistinctKeys dev.prevKeys) (hok : queue.Ok) :
    SameAfterPoll transfer dev queue ↔ ¬ dev.ShortReport transfer queue := by
  unfold UsbHidDevice.ShortReport
  by_cases hendpoint : dev.endpointIn = 0
  · exact iff_of_true (otherPoll_same (.inl hendpoint)) fun h => h.1.1 hendpoint
  by_cases hactive : transfer.active = true
  · by_cases hkeyboard : dev.protocol = 0x01
    · have hmouse : dev.protocol ≠ 0x02 := by
        rw [hkeyboard]
        decide
      rw [keyboardPoll_same hdistinct hendpoint hactive hkeyboard]
      simp [hendpoint, hactive, hkeyboard]
    · by_cases hmouse : dev.protocol = 0x02
      · rw [mousePoll_same hok hendpoint hactive hmouse]
        simp [hendpoint, hactive, hmouse]
      · refine iff_of_true (otherPoll_same (.inr (.inr ⟨hkeyboard, hmouse⟩))) ?_
        rintro ⟨-, ⟨h, -⟩ | ⟨h, -⟩⟩
        · exact hkeyboard h
        · exact hmouse h
  · exact iff_of_true (otherPoll_same (.inr (.inl (by simpa using hactive)))) fun h => hactive h.1.2.1

theorem usbHidPollDevice_distinct (h : DistinctKeys dev.prevKeys) (transfer : HidTransfer) (stack : Nat → UInt8)
    (queue : InputQueue) : DistinctKeys (usbHidPollDevice transfer stack dev queue).dev.prevKeys := by
  unfold usbHidPollDevice
  dsimp only
  split_ifs
  · exact h
  · exact h
  · exact h
  · exact usbHidKeyboardReport_inv (fun t => DistinctKeys t.dev.prevKeys) (fun _ _ ht hchange => ht.change hchange) h
  · exact h
  · rw [usbHidMouseReport_dev _ _ (by decide)]
    exact h
  · exact h

theorem usbHidPolls_distinct (dev : UsbHidDevice) (polls : List HidPoll) :
    DistinctKeys (usbHidPolls dev.added polls).prevKeys :=
  List.foldlRecOn polls _ (motive := fun (d : UsbHidDevice) => DistinctKeys d.prevKeys)
    (fun _ _ _ h => absurd rfl h) fun _ h poll _ => usbHidPollDevice_distinct h poll.transfer poll.stack poll.queue.val

/-- After any polls of a device, what the next poll leaves and queues depends on the bytes of its local exactly if the
report is short. -/
theorem usbHidPollDevice_stack (dev : UsbHidDevice) (polls : List HidPoll) (transfer : HidTransfer)
    (queue : { queue : InputQueue // queue.Ok }) :
    SameAfterPoll transfer (usbHidPolls dev.added polls) queue.val ↔
      ¬ (usbHidPolls dev.added polls).ShortReport transfer queue.val :=
  usbHidPollDevice_same (usbHidPolls_distinct dev polls) queue.property

def sampleKeyboard : UsbHidDevice := UsbHidDevice.added ⟨0x01, 1, 10, 8, true, fun _ => 0, fun _ => 0, 0⟩

/-- The first byte of a report. -/
def sampleOneByte : HidTransfer := ⟨true, true, .done 1, fun _ => 0⟩

/-- The key `a` may be in the rest of the local. -/
theorem sampleKeyboard_differs : ¬ SameAfterPoll sampleOneByte sampleKeyboard ⟨fun _ => .keyPress 0, 0, 0, 0⟩ := by
  intro h
  have hkey := congrArg (fun d : UsbHidDevice => d.prevKeys 0) (h (fun _ => 0) fun _ => 4).1
  exact absurd hkey (by decide +kernel)

end Poll

end Armonios
