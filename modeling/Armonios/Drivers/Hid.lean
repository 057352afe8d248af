import Armonios.Lib.Loop
import Armonios.Lib.Switches
import Armonios.Gui.Input

/-!
# The HID boot reports

The model of `drivers/usb/hid.c` and of the reports of `drivers/usb/hid_driver.c`. A key that is no longer in the
report is released with the second report that does not have it.

* `usbHidKeyboardReport_turn`: what a turn of the two loops may do, and so what a report does;
* `usbHidKeyboardRun_tracks`: the keys of a device are those that its events have pressed and not released.
-/

namespace Armonios

/-! ## The reports -/

def hidKeyNone : UInt8 := 0

/-- The entries of `prev_keys`, and of the keys of a report. -/
abbrev KeySlot := Fin 6

/-- `hid_boot_keyboard_report_t`. -/
structure HidBootKeyboardReport where
  modifiers : UInt8
  reserved : UInt8
  keys : KeySlot → UInt8

/-- `hid_boot_mouse_report_t`. -/
structure HidBootMouseReport where
  buttons : UInt8
  dx : Int8
  dy : Int8

/-- `kHIDUnshifted`, from the first entry that is not 0 on. -/
def kHidUnshifted : List UInt8 :=
  "abcdefghijklmnopqrstuvwxyz1234567890".toList.map (fun c => c.toNat.toUInt8) ++
    [0x0a, 0x1b, 0x08, 0x09, 0x20] ++ "-=[]\\".toList.map (fun c => c.toNat.toUInt8) ++ [0] ++
    [0x3b, 0x27, 0x60, 0x2c, 0x2e, 0x2f]

/-- `kHIDShifted`, from the first entry that is not 0 on. -/
def kHidShifted : List UInt8 :=
  "ABCDEFGHIJKLMNOPQRSTUVWXYZ!@#$%^&*()".toList.map (fun c => c.toNat.toUInt8) ++
    [0x0a, 0x1b, 0x08, 0x09, 0x20] ++ [0x5f, 0x2b, 0x7b, 0x7d, 0x7c, 0] ++
    [0x3a, 0x22, 0x7e, 0x3c, 0x3e, 0x3f]

def hidUsageToAscii (usage : UInt8) (shifted : Bool) : UInt8 :=
  if 0x80 ≤ usage then 0
  else if usage < 0x04 then 0
  else (if shifted then kHidShifted else kHidUnshifted).getD (usage.toNat - 4) 0

/-- A key event with the usage that it is about; on is `INPUT_EVENT_KEY_PRESS`. -/
abbrev KeyEvent := Switch UInt8

/-- The event as it is stored in `out`. -/
def KeyEvent.toInput (event : KeyEvent) : InputEvent :=
  let key := (hidUsageToAscii event.key false).toUInt32
  if event.on then .keyPress key else .keyRelease key

/-- `usb_hid_device_t`. Of its `usb_device` only the pointer to the controller is looked at. -/
structure UsbHidDevice where
  protocol : UInt8
  endpointIn : UInt8
  interval : UInt8
  maxPacket : UInt16
  hasCtrl : Bool
  prevKeys : KeySlot → UInt8
  releasePending : KeySlot → UInt8
  prevButtons : UInt8

namespace UsbHidDevice

/-- The end of `usb_hid_add_device`. -/
def added (dev : UsbHidDevice) : UsbHidDevice :=
  { dev with prevKeys := fun _ => hidKeyNone, releasePending := fun _ => 0, prevButtons := 0 }

def setPending (dev : UsbHidDevice) (i : KeySlot) (pending : UInt8) : UsbHidDevice :=
  { dev with releasePending := Function.update dev.releasePending i pending }

def setKey (dev : UsbHidDevice) (i : KeySlot) (key : UInt8) : UsbHidDevice :=
  { dev with
    prevKeys := Function.update dev.prevKeys i key
    releasePending := Function.update dev.releasePending i 0 }

@[simp] theorem added_prevKeys (dev : UsbHidDevice) : dev.added.prevKeys = fun _ => 0 := rfl

@[simp] theorem setPending_prevKeys (dev : UsbHidDevice) (i : KeySlot) (pending : UInt8) :
    (dev.setPending i pending).prevKeys = dev.prevKeys := rfl

@[simp] theorem setKey_prevKeys (dev : UsbHidDevice) (i : KeySlot) (key : UInt8) :
    (dev.setKey i key).prevKeys = Function.update dev.prevKeys i key := rfl

end UsbHidDevice

def keySlots : List KeySlot := List.finRange 6

def keyInReport (report : HidBootKeyboardReport) (key : UInt8) : Bool := keySlots.any fun i => report.keys i = key

/-- `none` for −1. -/
def keySlot (dev : UsbHidDevice) (key : UInt8) : Option KeySlot := keySlots.find? fun i => dev.prevKeys i = key

def emptyKeySlot (dev : UsbHidDevice) : Option KeySlot := keySlots.find? fun i => dev.prevKeys i = hidKeyNone

/-- The device and the events that are in `out`. -/
structure KeyboardTurn where
  dev : UsbHidDevice
  events : List KeyEvent

/-- The next event, with the entry of its key. An error is a return. -/
def KeyboardTurn.emit (outLen : UInt8) (i : KeySlot) (key : UInt8) (event : KeyEvent) (s : KeyboardTurn) :
    Except KeyboardTurn KeyboardTurn :=
  let s' : KeyboardTurn := ⟨s.dev.setKey i key, s.events ++ [event]⟩
  if outLen.toNat ≤ s'.events.length then .error s' else .ok s'

/-- A turn of the first loop. -/
def releaseTurn (report : HidBootKeyboardReport) (outLen : UInt8) (s : KeyboardTurn) (i : KeySlot) :
    Except KeyboardTurn KeyboardTurn :=
  let prev := s.dev.prevKeys i
  if prev = hidKeyNone then .ok s
  else if keyInReport report prev then .ok { s with dev := s.dev.setPending i 0 }
  else if s.dev.releasePending i = 0 then .ok { s with dev := s.dev.setPending i 1 }
  else s.emit outLen i hidKeyNone ⟨prev, false⟩

/-- A turn of the second loop. -/
def pressTurn (report : HidBootKeyboardReport) (outLen : UInt8) (s : KeyboardTurn) (i : KeySlot) :
    Except KeyboardTurn KeyboardTurn :=
  let cur := report.keys i
  if cur = hidKeyNone then .ok s
  else
    match keySlot s.dev cur with
    | some seen => .ok { s with dev := s.dev.setPending seen 0 }
    | none =>
      match emptyKeySlot s.dev with
      | none => .ok s
      | some slot => s.emit outLen slot cur ⟨cur, true⟩

/-- `usb_hid_keyboard_report`; the events are stored in `out`, and their number is returned. -/
def usbHidKeyboardReport (dev : UsbHidDevice) (report : HidBootKeyboardReport) (outLen : UInt8) : KeyboardTurn :=
  if outLen = 0 then ⟨dev, []⟩
  else
    leaves do
      let s ← keySlots.foldlM (releaseTurn report outLen) ⟨dev, []⟩
      keySlots.foldlM (pressTurn report outLen) s

/-- The reports of a device, with the length of `out` for each, and all the events. -/
def usbHidKeyboardRun (dev : UsbHidDevice) (reports : List (HidBootKeyboardReport × UInt8)) : KeyboardTurn :=
  reports.foldl (fun s report =>
    let next := usbHidKeyboardReport s.dev report.1 report.2
    ⟨next.dev, s.events ++ next.events⟩) ⟨dev, []⟩

example : ((usbHidKeyboardRun (UsbHidDevice.added ⟨1, 1, 8, 8, true, fun _ => 7, fun _ => 0, 0⟩)
    [(⟨0, 0, ![4, 4, 5, 0, 0, 0]⟩, 8), (⟨0, 0, fun _ => 0⟩, 8), (⟨0, 0, fun _ => 0⟩, 1)]).events =
    [⟨4, true⟩, ⟨5, true⟩, ⟨4, false⟩]) := by decide +kernel

/-! ## The keys that are held -/

/-- What a turn does to the entries and the events. -/
inductive KeyboardTurn.Change (s : KeyboardTurn) : KeyboardTurn → Prop
  | kept {t : KeyboardTurn} (hprev : t.dev.prevKeys = s.dev.prevKeys) (hevents : t.events = s.events) : s.Change t
  | released {t : KeyboardTurn} (i : KeySlot) (hheld : s.dev.prevKeys i ≠ 0)
      (hprev : t.dev.prevKeys = Function.update s.dev.prevKeys i 0)
      (hevents : t.events = s.events ++ [⟨s.dev.prevKeys i, false⟩]) : s.Change t
  | pressed {t : KeyboardTurn} (i : KeySlot) (key : UInt8) (hkey : key ≠ 0) (hnew : ∀ j, s.dev.prevKeys j ≠ key)
      (hfree : s.dev.prevKeys i = 0) (hprev : t.dev.prevKeys = Function.update s.dev.prevKeys i key)
      (hevents : t.events = s.events ++ [⟨key, true⟩]) : s.Change t

section Turns

variable {report : HidBootKeyboardReport} {outLen : UInt8} {s : KeyboardTurn} {i j : KeySlot} {key : UInt8}
  {dev : UsbHidDevice}

theorem leaves_emit (event : KeyEvent) :
    leaves (s.emit outLen i key event) = ⟨s.dev.setKey i key, s.events ++ [event]⟩ := by
  unfold KeyboardTurn.emit
  dsimp only
  split <;> rfl

theorem keySlot_none : keySlot dev key = none ↔ ∀ j, dev.prevKeys j ≠ key := by
  simp [keySlot, keySlots]

theorem keySlot_some (h : keySlot dev key = some i) : dev.prevKeys i = key := by
  simpa using List.find?_some h

theorem keyInReport_iff : keyInReport report key = true ↔ ∃ j, report.keys j = key := by
  simp [keyInReport, keySlots]

theorem releaseTurn_change : s.Change (leaves (releaseTurn report outLen s i)) := by
  unfold releaseTurn
  dsimp only
  split
  · exact .kept rfl rfl
  · rename_i hheld
    split
    · exact .kept rfl rfl
    · split
      · exact .kept rfl rfl
      · rw [leaves_emit]
        exact .released i hheld rfl rfl

theorem pressTurn_change : s.Change (leaves (pressTurn report outLen s i)) := by
  unfold pressTurn
  dsimp only
  split
  · exact .kept rfl rfl
  · rename_i hkey
    cases hseen : keySlot s.dev (report.keys i) with
    | some seen => exact .kept rfl rfl
    | none =>
      cases hslot : emptyKeySlot s.dev with
      | none => exact .kept rfl rfl
      | some slot =>
        dsimp only
        rw [leaves_emit]
        exact .pressed slot _ hkey (keySlot_none.mp hseen) (keySlot_some hslot) rfl rfl

/-- A report is a run of changes. -/
theorem usbHidKeyboardReport_inv (Inv : KeyboardTurn → Prop) (hchange : ∀ s t, Inv s → s.Change t → Inv t)
    (hstart : Inv ⟨dev, []⟩) : Inv (usbHidKeyboardReport dev report outLen) := by
  unfold usbHidKeyboardReport
  split
  · exact hstart
  · refine flows_leaves.mp (Flows.bind (P := Inv) ?_ fun s hs => ?_)
    · exact flows_foldlM (P := fun _ => Inv)
        (fun i _ s hs => flows_leaves.mpr (hchange s _ hs releaseTurn_change)) hstart
    · exact flows_foldlM (P := fun _ => Inv)
        (fun i _ s hs => flows_leaves.mpr (hchange s _ hs pressTurn_change)) hs

/-- While there is room in `out`, the function goes on. -/
def KeyboardTurn.Fits (outLen : UInt8) (s : KeyboardTurn) : Prop := s.events.length < outLen.toNat

theorem emit_fits (event : KeyEvent) (h : s.Fits outLen) :
    Flows (KeyboardTurn.Fits outLen) (fun s => s.events.length ≤ outLen.toNat) (s.emit outLen i key event) := by
  unfold KeyboardTurn.Fits at h
  unfold KeyboardTurn.emit
  dsimp only
  split
  · simp only [Flows, List.length_append, List.length_singleton]
    omega
  · simp only [Flows, KeyboardTurn.Fits]
    omega

theorem releaseTurn_fits (h : s.Fits outLen) :
    Flows (KeyboardTurn.Fits outLen) (fun s => s.events.length ≤ outLen.toNat) (releaseTurn report outLen s i) := by
  unfold releaseTurn
  dsimp only
  split
  · exact h
  · split
    · exact h
    · split
      · exact h
      · exact emit_fits _ h

theorem pressTurn_fits (h : s.Fits outLen) :
    Flows (KeyboardTurn.Fits outLen) (fun s => s.events.length ≤ outLen.toNat) (pressTurn report outLen s i) := by
  unfold pressTurn
  dsimp only
  split
  · exact h
  · split
    · exact h
    · split
      · exact h
      · exact emit_fits _ h

theorem usbHidKeyboardReport_length (dev : UsbHidDevice) (report : HidBootKeyboardReport) (outLen : UInt8) :
    (usbHidKeyboardReport dev report outLen).events.length ≤ outLen.toNat := by
  unfold usbHidKeyboardReport
  split
  · exact Nat.zero_le _
  · rename_i hout
    have hfits : KeyboardTurn.Fits outLen ⟨dev, []⟩ :=
      Nat.pos_of_ne_zero fun h => hout (UInt8.toNat_inj.mp h)
    refine Flows.imp (P := (KeyboardTurn.Fits outLen)) (Flows.bind (P := (KeyboardTurn.Fits outLen)) ?_ fun s hs => ?_)
      (fun s hs => Nat.le_of_lt hs) fun s hs => hs
    · exact flows_foldlM (P := fun _ => (KeyboardTurn.Fits outLen)) (fun i _ s hs => releaseTurn_fits hs) hfits
    · exact flows_foldlM (P := fun _ => (KeyboardTurn.Fits outLen)) (fun i _ s hs => pressTurn_fits hs) hs

end Turns

/-- A key is in an entry. -/
def HoldsKey (prevKeys : KeySlot → UInt8) (key : UInt8) : Prop := key ≠ 0 ∧ ∃ i, prevKeys i = key

/-- No key is in two entries. -/
def DistinctKeys (prevKeys : KeySlot → UInt8) : Prop := ∀ i j, prevKeys i = prevKeys j → prevKeys i ≠ 0 → i = j

/-- Those in the entries are those that the events have pressed and not released. -/
structure KeysOk (prevKeys : KeySlot → UInt8) (log : List KeyEvent) : Prop where
  distinct : DistinctKeys prevKeys
  tracks : Tracks (HoldsKey prevKeys) log

section Keys

variable {prevKeys : KeySlot → UInt8} {log : List KeyEvent} {s t : KeyboardTurn} {i : KeySlot} {key : UInt8}

theorem keysOk_none : KeysOk (fun _ => 0) [] where
  distinct _ _ _ h := absurd rfl h
  tracks := by
    have : HoldsKey (fun _ => 0) = fun _ => False := by
      funext key
      simp [HoldsKey, eq_comm]
    rw [this]
    exact .nil

theorem holdsKey_release (hdistinct : DistinctKeys prevKeys) (hheld : prevKeys i ≠ 0) (key : UInt8) :
    HoldsKey (Function.update prevKeys i 0) key ↔ key ≠ prevKeys i ∧ HoldsKey prevKeys key := by
  constructor
  · rintro ⟨hkey, j, hj⟩
    have hne : j ≠ i := fun hij => by
      subst hij
      rw [Function.update_self] at hj
      exact hkey hj.symm
    rw [Function.update_of_ne hne] at hj
    refine ⟨fun he => hne ?_, hkey, j, hj⟩
    exact hdistinct j i (by rw [hj, he]) (by rwa [hj])
  · rintro ⟨hne, hkey, j, hj⟩
    refine ⟨hkey, j, ?_⟩
    rw [Function.update_of_ne (by rintro rfl; exact hne hj.symm), hj]

theorem holdsKey_press (hkey : key ≠ 0) (hfree : prevKeys i = 0) (u : UInt8) :
    HoldsKey (Function.update prevKeys i key) u ↔ u = key ∨ HoldsKey prevKeys u := by
  constructor
  · rintro ⟨hu, j, hj⟩
    by_cases hji : j = i
    · subst hji
      rw [Function.update_self] at hj
      exact .inl hj.symm
    · rw [Function.update_of_ne hji] at hj
      exact .inr ⟨hu, j, hj⟩
  · rintro (rfl | ⟨hu, j, hj⟩)
    · exact ⟨hkey, i, Function.update_self ..⟩
    · refine ⟨hu, j, ?_⟩
      rw [Function.update_of_ne (by rintro rfl; exact hu (hj.symm.trans hfree)), hj]

theorem DistinctKeys.change (h : DistinctKeys s.dev.prevKeys) (hchange : s.Change t) : DistinctKeys t.dev.prevKeys := by
  cases hchange with
  | kept hprev hevents => rwa [hprev]
  | released i hheld hprev hevents =>
    rw [hprev]
    intro j k hjk hj
    simp only [Function.update_apply] at hjk hj
    split at hj
    · exact absurd rfl hj
    · split at hjk
      · contradiction
      · split at hjk
        · exact absurd hjk hj
        · exact h j k hjk hj
  | pressed i key hkey hnew hfree hprev hevents =>
    rw [hprev]
    intro j k hjk hj
    simp only [Function.update_apply] at hjk hj
    by_cases hji : j = i
    · by_cases hki : k = i
      · rw [hji, hki]
      · rw [if_pos hji, if_neg hki] at hjk
        exact absurd hjk.symm (hnew k)
    · rw [if_neg hji] at hjk hj
      by_cases hki : k = i
      · rw [if_pos hki] at hjk
        exact absurd hjk (hnew j)
      · rw [if_neg hki] at hjk
        exact h j k hjk hj

theorem KeysOk.change (h : KeysOk s.dev.prevKeys (log ++ s.events)) (hchange : s.Change t) :
    KeysOk t.dev.prevKeys (log ++ t.events) := by
  refine ⟨h.distinct.change hchange, ?_⟩
  cases hchange with
  | kept hprev hevents =>
    rw [hprev, hevents]
    exact h.tracks
  | released i hheld hprev hevents =>
    rw [hprev, hevents, ← List.append_assoc]
    exact h.tracks.switch_off ⟨hheld, i, rfl⟩ (holdsKey_release h.distinct hheld)
  | pressed i key hkey hnew hfree hprev hevents =>
    rw [hprev, hevents, ← List.append_assoc]
    exact h.tracks.switch_on (fun ⟨_, j, hj⟩ => hnew j hj) (holdsKey_press hkey hfree)

/-- The events of a run, from a device that has just been added. -/
theorem usbHidKeyboardRun_keysOk (dev : UsbHidDevice) (reports : List (HidBootKeyboardReport × UInt8)) :
    KeysOk (usbHidKeyboardRun dev.added reports).dev.prevKeys (usbHidKeyboardRun dev.added reports).events := by
  unfold usbHidKeyboardRun
  refine List.foldlRecOn reports _ (motive := fun (s :
    KeyboardTurn) => KeysOk s.dev.prevKeys s.events) keysOk_none fun s hs report _ => ?_
  exact usbHidKeyboardReport_inv (fun t => KeysOk t.dev.prevKeys (s.events ++ t.events))
    (fun _ _ ht hchange => ht.change hchange) (by simpa using hs)

end Keys

/-! ## The keys of a report -/

/-- The key is held, or there is no entry for it. -/
def Taken (dev : UsbHidDevice) (key : UInt8) : Prop :=
  (∃ i, dev.prevKeys i = key) ∨ ∀ i, dev.prevKeys i ≠ 0

section Pressed

variable {report : HidBootKeyboardReport} {outLen key : UInt8} {s t : KeyboardTurn} {i : KeySlot}

/-- The second loop does not let go of a key. -/
theorem Taken.kept (hkey : key ≠ 0) (h : Taken s.dev key)
    (hkept : ∀ j, s.dev.prevKeys j ≠ 0 → t.dev.prevKeys j = s.dev.prevKeys j) : Taken t.dev key := by
  rcases h with ⟨j, hj⟩ | hfull
  · exact .inl ⟨j, (hkept j (by rwa [hj])).trans hj⟩
  · exact .inr fun j => by rw [hkept j (hfull j)]; exact hfull j

/-- A turn of the second loop takes its key, and keeps the others; it returns only if `out` is full. -/
theorem pressTurn_taken (report : HidBootKeyboardReport) (outLen : UInt8) (s : KeyboardTurn) (i : KeySlot) :
    Flows (fun t => (report.keys i ≠ 0 → Taken t.dev (report.keys i)) ∧
        ∀ j, s.dev.prevKeys j ≠ 0 → t.dev.prevKeys j = s.dev.prevKeys j)
      (fun t => outLen.toNat ≤ t.events.length) (pressTurn report outLen s i) := by
  unfold pressTurn
  dsimp only
  by_cases hkey : report.keys i = hidKeyNone
  · rw [if_pos hkey]
    exact ⟨fun hne => absurd hkey hne, fun _ _ => rfl⟩
  rw [if_neg hkey]
  cases hseen : keySlot s.dev (report.keys i) with
  | some seen => exact ⟨fun _ => .inl ⟨seen, keySlot_some hseen⟩, fun _ _ => rfl⟩
  | none =>
    cases hslot : emptyKeySlot s.dev with
    | none => exact ⟨fun _ => .inr (keySlot_none.mp hslot), fun _ _ => rfl⟩
    | some slot =>
      dsimp only [KeyboardTurn.emit]
      split
      · rename_i hfull
        exact hfull
      · refine ⟨fun _ => .inl ⟨slot, Function.update_self ..⟩, fun j hj => Function.update_of_ne ?_ _ _⟩
        rintro rfl
        exact hj (keySlot_some hslot)

/-- A key of the report is held at the end, unless all entries are taken or `out` is full. -/
theorem usbHidKeyboardReport_taken (dev : UsbHidDevice) (report : HidBootKeyboardReport) (outLen : UInt8)
    (hkey : report.keys i ≠ 0) :
    Taken (usbHidKeyboardReport dev report outLen).dev (report.keys i) ∨
      outLen.toNat ≤ (usbHidKeyboardReport dev report outLen).events.length := by
  unfold usbHidKeyboardReport
  split
  · rename_i hout
    exact .inr (by simp [hout])
  have hrelease : Flows (fun _ => True) (fun t => outLen.toNat ≤ t.events.length)
      (keySlots.foldlM (releaseTurn report outLen) ⟨dev, []⟩) := by
    refine flows_foldlM (P := fun _ _ => True) (fun a _ s _ => ?_) trivial
    unfold releaseTurn KeyboardTurn.emit
    dsimp only
    repeat' split
    all_goals first | exact trivial | assumption
  -- before each turn, the keys of the turns that are over are taken
  have hpress : ∀ s : KeyboardTurn, Flows (fun t => Taken t.dev (report.keys i))
      (fun t => outLen.toNat ≤ t.events.length) (keySlots.foldlM (pressTurn report outLen) s) := by
    intro s
    have hloop : Flows (fun t : KeyboardTurn => i ∉ [] → Taken t.dev (report.keys i))
        (fun t => outLen.toNat ≤ t.events.length) (keySlots.foldlM (pressTurn report outLen) s) := by
      refine flows_foldlM (P := fun l (t : KeyboardTurn) => i ∉ l → Taken t.dev (report.keys i))
        (fun a l t ht => ?_) fun hno => absurd (List.mem_finRange i) hno
      refine (pressTurn_taken report outLen t a).mono fun t' h' hl => ?_
      by_cases ha : i = a
      · subst ha
        exact h'.1 hkey
      · exact (ht (by simp [ha, hl])).kept hkey h'.2
    exact hloop.mono fun t ht => ht List.not_mem_nil
  have hflows := hrelease.bind fun s _ => hpress s
  generalize keySlots.foldlM (releaseTurn report outLen) ⟨dev, []⟩ >>= _ = x at hflows ⊢
  cases x with
  | ok t => exact .inl hflows
  | error t => exact .inr hflows

end Pressed

/-! ## The entries -/

/-- What the first loop does to an entry of `prev_keys` and `release_pending`. -/
def releaseEntry (report : HidBootKeyboardReport) (entry : UInt8 × UInt8) : UInt8 × UInt8 :=
  if entry.1 = 0 then entry
  else if keyInReport report entry.1 then (entry.1, 0)
  else if entry.2 = 0 then (entry.1, 1)
  else (0, 0)

namespace UsbHidDevice

/-- The entry of a key. -/
def entry (dev : UsbHidDevice) (i : KeySlot) : UInt8 × UInt8 := (dev.prevKeys i, dev.releasePending i)

@[simp] theorem entry_fst (dev : UsbHidDevice) (i : KeySlot) : (dev.entry i).1 = dev.prevKeys i := rfl

end UsbHidDevice

section Entries

variable {report : HidBootKeyboardReport} {outLen : UInt8} {s : KeyboardTurn} {i : KeySlot} {dev : UsbHidDevice}

theorem setPending_entry (pending : UInt8) (j : KeySlot) :
    (dev.setPending i pending).entry j = if j = i then (dev.prevKeys i, pending) else dev.entry j := by
  by_cases hj : j = i
  · subst hj
    simp [UsbHidDevice.entry, UsbHidDevice.setPending]
  · simp [UsbHidDevice.entry, UsbHidDevice.setPending, hj]

theorem setKey_entry (key : UInt8) (j : KeySlot) :
    (dev.setKey i key).entry j = if j = i then (key, 0) else dev.entry j := by
  by_cases hj : j = i
  · subst hj
    simp [UsbHidDevice.entry, UsbHidDevice.setKey]
  · simp [UsbHidDevice.entry, UsbHidDevice.setKey, hj]

/-- A turn of the first loop changes its own entry. -/
theorem releaseTurn_entry (report : HidBootKeyboardReport) (outLen : UInt8) (s : KeyboardTurn) (i : KeySlot) :
    Flows (fun t => (∀ j, t.dev.entry j = if j = i then releaseEntry report (s.dev.entry i) else s.dev.entry j) ∧
        t.events.length ≤ s.events.length + 1)
      (fun t => (∀ j, t.dev.entry j = if j = i then releaseEntry report (s.dev.entry i) else s.dev.entry j) ∧
        outLen.toNat ≤ s.events.length + 1) (releaseTurn report outLen s i) := by
  unfold releaseTurn
  dsimp only
  by_cases hheld : s.dev.prevKeys i = hidKeyNone
  · have hentry : releaseEntry report (s.dev.entry i) = s.dev.entry i := if_pos hheld
    rw [if_pos hheld, hentry]
    refine ⟨fun j => ?_, Nat.le_succ _⟩
    split
    · rename_i h
      rw [h]
    · rfl
  · rw [if_neg hheld]
    by_cases hin : keyInReport report (s.dev.prevKeys i) = true
    · have hentry : releaseEntry report (s.dev.entry i) = (s.dev.prevKeys i, 0) := (if_neg hheld).trans (if_pos hin)
      rw [if_pos hin, hentry]
      exact ⟨setPending_entry 0, Nat.le_succ _⟩
    · rw [if_neg hin]
      by_cases hpending : s.dev.releasePending i = 0
      · have hentry : releaseEntry report (s.dev.entry i) = (s.dev.prevKeys i, 1) :=
          (if_neg hheld).trans ((if_neg hin).trans (if_pos hpending))
        rw [if_pos hpending, hentry]
        exact ⟨setPending_entry 1, Nat.le_succ _⟩
      · have hentry : releaseEntry report (s.dev.entry i) = (0, 0) :=
          (if_neg hheld).trans ((if_neg hin).trans (if_neg hpending))
        rw [if_neg hpending, hentry]
        unfold KeyboardTurn.emit
        dsimp only
        split
        · rename_i hfull
          exact ⟨setKey_entry 0, by simpa using hfull⟩
        · exact ⟨setKey_entry 0, by simp⟩

/-- With room for six events the first loop gets to every entry. -/
theorem releaseLoop_entry (dev : UsbHidDevice) (report : HidBootKeyboardReport) (hout : 6 ≤ outLen.toNat) :
    Flows (fun t => ∀ j, t.dev.entry j = releaseEntry report (dev.entry j))
      (fun t => ∀ j, t.dev.entry j = releaseEntry report (dev.entry j))
      (keySlots.foldlM (releaseTurn report outLen) ⟨dev, []⟩) := by
  -- the entries of the slots that are left are the old ones; while a slot is left, `out` is not full
  let Going (l : List KeySlot) (t : KeyboardTurn) : Prop := l.Nodup ∧ t.events.length + l.length ≤ 6 ∧
    ∀ j, t.dev.entry j = if j ∈ l then dev.entry j else releaseEntry report (dev.entry j)
  have hloop : Flows (Going []) (fun t => ∀ j, t.dev.entry j = releaseEntry report (dev.entry j))
      (keySlots.foldlM (releaseTurn report outLen) ⟨dev, []⟩) := by
    refine flows_foldlM (P := Going) (fun a l s hs => ?_) ⟨List.nodup_finRange 6, by simp [keySlots], ?_⟩
    · obtain ⟨hnodup, hroom, hentry⟩ := hs
      obtain ⟨ha, hl⟩ := List.nodup_cons.mp hnodup
      have hnext : ∀ t : KeyboardTurn,
          (∀ j, t.dev.entry j = if j = a then releaseEntry report (s.dev.entry a) else s.dev.entry j) →
          ∀ j, t.dev.entry j = if j ∈ l then dev.entry j else releaseEntry report (dev.entry j) := by
        intro t ht j
        rw [ht j]
        by_cases hj : j = a
        · subst hj
          rw [if_pos rfl, if_neg ha, hentry, if_pos (by simp)]
        · rw [if_neg hj, hentry]
          simp [hj]
      have hturn := releaseTurn_entry report outLen s a
      rw [List.length_cons] at hroom
      cases hx : releaseTurn report outLen s a with
      | ok t =>
        rw [hx] at hturn
        exact ⟨hl, by have := hturn.2; omega, hnext t hturn.1⟩
      | error t =>
        rw [hx] at hturn
        intro j
        rw [hnext t hturn.1 j]
        have hnil : l = [] := List.eq_nil_of_length_eq_zero (by have := hturn.2; omega)
        simp [hnil]
    · intro j
      simp [keySlots]
  cases hx : keySlots.foldlM (releaseTurn report outLen) ⟨dev, []⟩ with
  | ok t =>
    rw [hx] at hloop
    intro j
    simpa using hloop.2.2 j
  | error t =>
    rw [hx] at hloop
    exact hloop

/-- A turn of the second loop changes an entry only to its own key. -/
theorem pressTurn_entry (report : HidBootKeyboardReport) (outLen : UInt8) (s : KeyboardTurn) (i j : KeySlot) :
    (leaves (pressTurn report outLen s i)).dev.entry j = s.dev.entry j ∨
      (leaves (pressTurn report outLen s i)).dev.entry j = (report.keys i, 0) ∧ report.keys i ≠ 0 ∧
        (s.dev.prevKeys j = report.keys i ∨ s.dev.prevKeys j = 0) := by
  unfold pressTurn
  dsimp only
  split
  · exact .inl rfl
  · rename_i hkey
    cases hseen : keySlot s.dev (report.keys i) with
    | some seen =>
      simp only [leaves, setPending_entry]
      split
      · rename_i hj
        subst hj
        rw [keySlot_some hseen]
        exact .inr ⟨rfl, hkey, .inl rfl⟩
      · exact .inl rfl
    | none =>
      cases hslot : emptyKeySlot s.dev with
      | none => exact .inl rfl
      | some slot =>
        simp only [leaves_emit, setKey_entry]
        split
        · rename_i hj
          subst hj
          exact .inr ⟨rfl, hkey, .inr (keySlot_some hslot)⟩
        · exact .inl rfl

/-- What holds after the first loop, and is kept by the turns of the second. -/
theorem usbHidKeyboardReport_entries (Inv : UsbHidDevice → Prop) (hout : 6 ≤ outLen.toNat)
    (hstart : ∀ t : UsbHidDevice, (∀ j, t.entry j = releaseEntry report (dev.entry j)) → Inv t)
    (hpress : ∀ s i, Inv s.dev → Inv (leaves (pressTurn report outLen s i)).dev) :
    Inv (usbHidKeyboardReport dev report outLen).dev := by
  have hne : outLen ≠ 0 := by
    rintro rfl
    simp at hout
  rw [usbHidKeyboardReport, if_neg hne]
  have hfirst : Flows (fun t : KeyboardTurn => Inv t.dev) (fun t => Inv t.dev)
      (keySlots.foldlM (releaseTurn report outLen) ⟨dev, []⟩) := by
    have hentries := releaseLoop_entry dev report hout
    cases hx : keySlots.foldlM (releaseTurn report outLen) ⟨dev, []⟩ with
    | ok t =>
      rw [hx] at hentries
      exact hstart _ hentries
    | error t =>
      rw [hx] at hentries
      exact hstart _ hentries
  have hall : Flows (fun t : KeyboardTurn => Inv t.dev) (fun t => Inv t.dev)
      (keySlots.foldlM (releaseTurn report outLen) ⟨dev, []⟩ >>= fun s =>
        keySlots.foldlM (pressTurn report outLen) s) :=
    hfirst.bind fun s hs =>
      flows_foldlM (P := fun _ t => Inv t.dev) (fun i _ s hs => flows_leaves.mpr (hpress s i hs)) hs
  exact flows_leaves.mp hall

/-- A report without keys. -/
theorem usbHidKeyboardReport_empty (dev : UsbHidDevice) (hempty : ∀ j, report.keys j = 0) (hout : 6 ≤ outLen.toNat)
    (i : KeySlot) : (usbHidKeyboardReport dev report outLen).dev.entry i = releaseEntry report (dev.entry i) := by
  refine usbHidKeyboardReport_entries (fun t => t.entry i = releaseEntry report (dev.entry i)) hout
    (fun t ht => ht i) fun s j hs => ?_
  rcases pressTurn_entry report outLen s j i with h | ⟨-, hkey, -⟩
  · rw [h, hs]
  · exact absurd (hempty j) hkey

theorem releaseEntry_twice {report' : HidBootKeyboardReport} (hempty : ∀ j, report.keys j = 0)
    (hempty' : ∀ j, report'.keys j = 0) (entry : UInt8 × UInt8) :
    (releaseEntry report' (releaseEntry report entry)).1 = 0 := by
  have hout : ∀ {r : HidBootKeyboardReport} {key : UInt8}, (∀ j, r.keys j = 0) → key ≠ 0 →
    keyInReport r key = false := by
    intro r key hr hkey
    rw [← Bool.not_eq_true, keyInReport_iff]
    rintro ⟨j, hj⟩
    exact hkey (hj.symm.trans (hr j))
  unfold releaseEntry
  by_cases hkey : entry.1 = 0
  · simp [hkey]
  · by_cases hpending : entry.2 = 0 <;> simp [hkey, hpending, hout hempty hkey, hout hempty' hkey]

end Entries

/-! ## The run -/

/-- The reports of a keyboard. For each usage the events are a press, a release and so on; each key is in one entry,
and those in the entries are those that have been pressed and not released; no report has more events than `out`
has room for; a key of a report has been pressed after it, unless all entries are taken or `out` is full; and two
empty reports in a row, with room for six events, release every key. -/
theorem usbHidKeyboardRun_tracks (dev : UsbHidDevice) (reports : List (HidBootKeyboardReport × UInt8)) :
    let run := usbHidKeyboardRun dev.added reports
    (∀ key, Alternates (switchesOf key run.events)) ∧
    (∀ i j, run.dev.prevKeys i = run.dev.prevKeys j → run.dev.prevKeys i ≠ 0 → i = j) ∧
    (∀ key, key ≠ 0 ∧ (∃ i, run.dev.prevKeys i = key) ↔ IsOn key run.events) ∧
    (∀ report outLen, (usbHidKeyboardReport run.dev report outLen).events.length ≤ outLen.toNat) ∧
    (∀ report outLen i, report.keys i ≠ 0 →
      let next := usbHidKeyboardRun dev.added (reports ++ [(report, outLen)])
      IsOn (report.keys i) next.events ∨ (∀ j, next.dev.prevKeys j ≠ 0) ∨
        outLen.toNat ≤ (usbHidKeyboardReport run.dev report outLen).events.length) ∧
    ∀ report report' outLen outLen', (∀ i, report.keys i = 0) → (∀ i, report'.keys i = 0) → 6 ≤ outLen.toNat →
      6 ≤ outLen'.toNat →
      let empty := usbHidKeyboardRun dev.added (reports ++ [(report, outLen), (report', outLen')])
      (∀ i, empty.dev.prevKeys i = 0) ∧ ∀ key, ¬ IsOn key empty.events := by
  have hrun := usbHidKeyboardRun_keysOk dev reports
  refine ⟨hrun.tracks.alternates, hrun.distinct, hrun.tracks.held, usbHidKeyboardReport_length _, ?_, ?_⟩
  · intro report outLen i hkey next
    have hdev : next.dev = (usbHidKeyboardReport (usbHidKeyboardRun dev.added reports).dev report outLen).dev := by
      simp [next, usbHidKeyboardRun]
    rcases usbHidKeyboardReport_taken (usbHidKeyboardRun dev.added reports).dev report outLen hkey with
      (hheld | hfull) | hout
    · rw [← hdev] at hheld
      exact .inl (((usbHidKeyboardRun_keysOk dev _).tracks.held _).mp ⟨hkey, hheld⟩)
    · rw [← hdev] at hfull
      exact .inr (.inl hfull)
    · exact .inr (.inr hout)
  intro report report' outLen outLen' hreport hreport' hout hout' empty
  have hfree : ∀ i, empty.dev.prevKeys i = 0 := by
    intro i
    have hlast : empty.dev = (usbHidKeyboardReport (usbHidKeyboardReport
        (usbHidKeyboardRun dev.added reports).dev report outLen).dev report' outLen').dev := by
      simp [empty, usbHidKeyboardRun]
    have hentry := usbHidKeyboardReport_empty
      (usbHidKeyboardReport (usbHidKeyboardRun dev.added reports).dev report outLen).dev hreport' hout' i
    rw [usbHidKeyboardReport_empty _ hreport hout] at hentry
    rw [hlast]
    exact (congrArg Prod.fst hentry).trans (releaseEntry_twice hreport hreport' _)
  refine ⟨hfree, fun key hon => ?_⟩
  obtain ⟨hkey, i, hi⟩ := ((usbHidKeyboardRun_keysOk dev _).tracks.held key).mpr hon
  exact hkey (hi.symm.trans (hfree i))

end Armonios
