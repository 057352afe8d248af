import Armonios.Drivers.UsbWalk
import Mathlib.Logic.Function.Basic

/-!
# The configuration descriptor

`usb_get_config_descriptor` and `usb_device_get_config_descriptor` of `drivers/usb/usb_core.c`: a transfer of the header,
one of as much as the header says, and the walk over that. Neither looks at how many bytes a transfer has returned.

* `configuration_same`: what the device has returned decides the walk, if it is all that has been asked for;
* `shortHeader_differs`, `shortConfiguration_differs`: otherwise a device and two buffers with different walks.
-/

namespace Armonios

open Reads

/-- `usb_setup_t`. -/
structure UsbSetup where
  bmRequestType : UInt8
  bRequest : UInt8
  wValue : UInt16
  wIndex : UInt16
  wLength : UInt16

def usbReqGetDescriptor : UInt8 := 0x06

/-- What a device does with its transfers, the first being number 0: how many bytes it returns, and which. The value is
−1 where there is no number. -/
structure ControlDevice where
  count : Nat → UsbSetup → Option Nat
  bytes : Nat → UsbSetup → Nat → UInt8

/-- The buffer after a transfer of at most `len` bytes. -/
def receive (bytes : Nat → UInt8) (count len : Nat) (buffer : Nat → UInt8) : Nat → UInt8 := fun i =>
  if i < min count len then bytes i else buffer i

/-- `wTotalLength` of the header in the buffer. -/
def wTotalLength (buffer : Nat → UInt8) : Nat := (buffer 2).toNat + 256 * (buffer 3).toNat

/-- The test of the header. -/
def ConfigHeaderOk (buffer : Nat → UInt8) : Prop :=
  9 ≤ (buffer 0).toNat ∧ buffer 1 = usbDescConfiguration ∧ (buffer 0).toNat ≤ wTotalLength buffer

instance (buffer : Nat → UInt8) : Decidable (ConfigHeaderOk buffer) := inferInstanceAs (Decidable (_ ∧ _ ∧ _))

/-- The request of the configuration descriptor `index`. -/
def configSetup (index : UInt8) (wLength : Nat) : UsbSetup :=
  ⟨0x80, usbReqGetDescriptor, usbDescConfiguration.toUInt16 <<< 8 ||| index.toUInt16, 0, UInt16.ofNat wLength⟩

/-- From the test of the header on, with the second transfer. -/
def getConfigTotal (device : ControlDevice) (index : UInt8) (bufferLen : UInt16) (buffer : Nat → UInt8) :
    Option UsbConfigWalk :=
  if ConfigHeaderOk buffer then
    let total := min (wTotalLength buffer) bufferLen.toNat
    match device.count 1 (configSetup index total) with
    | none => none
    | some count =>
      run (receive (device.bytes 1 (configSetup index total)) count total buffer) (usbWalkConfiguration total)
  else none

/-- The body of the two functions, over their transfer; `none` for −1. -/
def getConfigDescriptor (device : ControlDevice) (index : UInt8) (bufferLen : UInt16) (buffer : Nat → UInt8) :
    Option UsbConfigWalk :=
  if bufferLen.toNat < 9 then none
  else
    match device.count 0 (configSetup index 9) with
    | none => none
    | some count =>
      getConfigTotal device index bufferLen (receive (device.bytes 0 (configSetup index 9)) count 9 buffer)

/-- `usb_get_config_descriptor`, over the installed transfer. -/
def usbGetConfigDescriptor (xfer : ControlDevice) := getConfigDescriptor xfer

/-- `usb_device_get_config_descriptor`, over `usb_device_xfer` for the device. -/
def usbDeviceGetConfigDescriptor (usbDeviceXfer : ControlDevice) := getConfigDescriptor usbDeviceXfer

/-- What `count` and `count'` bytes of the two transfers leave is what the walk of `total` bytes looks at. The walk of
ten bytes or less with a header of nine reads nothing behind it. -/
def Covers (total count count' : Nat) : Prop := total ≤ max (min count 9) count' ∨ count' = 0 ∧ total ≤ 10

/-- The transfers return enough, or no walk is made. -/
def ReturnsEnough (count : Nat → UsbSetup → Option Nat) (index : UInt8) (bufferLen : UInt16) : Prop :=
  bufferLen.toNat < 9 ∨
  count 0 (configSetup index 9) = none ∨
  (∀ total, 9 ≤ total → total ≤ bufferLen.toNat → count 1 (configSetup index total) = none) ∨
  ∃ n ∈ count 0 (configSetup index 9), 4 ≤ n ∧
    ∀ total, 9 ≤ total → total ≤ bufferLen.toNat → ∀ n' ∈ count 1 (configSetup index total), Covers total n n'

/-! ## Walks over the same bytes -/

section Same

variable {buffer buffer' : Nat → UInt8} {n cursor : Nat} {s : UsbWalkState}

/-- At the end of the buffer, or at its last byte. -/
theorem usbWalkFrom_last (buffer : Nat → UInt8) (s : UsbWalkState) (h : n ≤ cursor + 1) :
    run buffer (usbWalkFrom n cursor s) = if n ≤ cursor then some s else none := by
  rw [usbWalkFrom]
  by_cases hend : n ≤ cursor
  · rw [if_neg (by omega), if_pos hend, run_pure]
  · rw [if_pos (by omega), if_neg hend, run_bind, run_readByte, run_bind, run_readByte]
    by_cases hlen : (buffer cursor).toNat < 2
    · rw [if_pos hlen, run_pure]
    · rw [if_neg hlen, if_pos (by omega), run_pure]

theorem usbWalkFrom_congr (h : ∀ i < n, buffer i = buffer' i) (cursor : Nat) (s : UsbWalkState) :
    run buffer (usbWalkFrom n cursor s) = run buffer' (usbWalkFrom n cursor s) := by
  induction hm : n - cursor using Nat.strongRecOn generalizing cursor s with
  | ind m ih =>
    subst hm
    by_cases hlast : n ≤ cursor + 1
    · rw [usbWalkFrom_last buffer s hlast, usbWalkFrom_last buffer' s hlast]
    rw [usbWalkFrom, if_pos (by omega), run_bind, run_readByte, run_bind, run_readByte, run_bind, run_readByte,
      run_bind, run_readByte, h cursor (by omega), h (cursor + 1) (by omega)]
    split
    · rfl
    split
    · rfl
    rename_i hlen hfits
    have hstep : run buffer (usbWalkStep cursor (buffer' cursor).toNat (buffer' (cursor + 1)) s) =
        run buffer' (usbWalkStep cursor (buffer' cursor).toNat (buffer' (cursor + 1)) s) :=
      run_congr (usbWalkStep_within _ _ _ _) fun i hi => h i (by omega)
    rw [run_bind, run_bind, hstep]
    cases run buffer' (usbWalkStep cursor (buffer' cursor).toNat (buffer' (cursor + 1)) s) with
    | none => rfl
    | some next => exact ih _ (by omega) _ _ rfl

/-- The walk looks at the first two bytes and at what the loop looks at. -/
theorem usbWalkConfiguration_congr (h0 : buffer 0 = buffer' 0) (h1 : buffer 1 = buffer' 1)
    (hloop : run buffer (usbWalkFrom n (buffer 0).toNat ⟨[], none⟩) =
      run buffer' (usbWalkFrom n (buffer 0).toNat ⟨[], none⟩)) :
    run buffer (usbWalkConfiguration n) = run buffer' (usbWalkConfiguration n) := by
  rcases usbWalkConfiguration_eq buffer n with ⟨hrun, -, hheader⟩ | ⟨hrun, -, hheader⟩
  all_goals rcases usbWalkConfiguration_eq buffer' n with ⟨hrun', -, hheader'⟩ | ⟨hrun', -, hheader'⟩
  · rw [hrun, hrun']
  · rw [← h0, ← h1] at hheader'
    exact absurd hheader' hheader
  · rw [← h0, ← h1] at hheader'
    exact absurd hheader hheader'
  · rw [hrun, hrun', hloop, h0]

end Same

/-! ## Enough bytes -/

section Enough

variable {device : ControlDevice} {index : UInt8} {bufferLen : UInt16} {count total : Nat}

theorem receive_lt {bytes buffer : Nat → UInt8} {len i : Nat} (h : i < min count len) :
    receive bytes count len buffer i = bytes i := if_pos h

theorem receive_ge {bytes buffer : Nat → UInt8} {len i : Nat} (h : min count len ≤ i) :
    receive bytes count len buffer i = buffer i := if_neg (by omega)

/-- The walk of what the two transfers leave. -/
theorem configuration_same (bytes bytes' buffer buffer' : Nat → UInt8) {count' : Nat} (hcount : 4 ≤ count)
    (hheader : ConfigHeaderOk (receive bytes count 9 buffer)) (htotal : 9 ≤ total)
      (hcovers : Covers total count count') :
    run (receive bytes' count' total (receive bytes count 9 buffer)) (usbWalkConfiguration total) =
      run (receive bytes' count' total (receive bytes count 9 buffer')) (usbWalkConfiguration total) := by
  have hfirst : ∀ i < min count 9, receive bytes count 9 buffer i = receive bytes count 9 buffer' i := fun i hi => by
    rw [receive_lt hi, receive_lt hi]
  have hboth : ∀ i < max (min count 9) (min count' total),
      receive bytes' count' total (receive bytes count 9 buffer) i =
        receive bytes' count' total (receive bytes count 9 buffer') i := by
    intro i hi
    unfold receive
    split
    · rfl
    · exact hfirst i (by omega)
  refine usbWalkConfiguration_congr (hboth 0 (by omega)) (hboth 1 (by omega)) ?_
  rcases hcovers with hcovers | ⟨hzero, hten⟩
  · exact usbWalkFrom_congr (fun i hi => hboth i (by omega)) _ _
  · -- the loop starts at the end, or at the last byte
    have hlen : 9 ≤ (receive bytes' count' total (receive bytes count 9 buffer) 0).toNat := by
      rw [receive_ge (by omega)]
      exact hheader.1
    rw [usbWalkFrom_last _ _ (by omega), usbWalkFrom_last _ _ (by omega)]

theorem wTotalLength_receive (bytes buffer buffer' : Nat → UInt8) (hcount : 4 ≤ count) :
    wTotalLength (receive bytes count 9 buffer) = wTotalLength (receive bytes count 9 buffer') := by
  unfold wTotalLength
  rw [receive_lt (by omega), receive_lt (by omega), receive_lt (by omega), receive_lt (by omega)]

theorem configHeaderOk_receive (bytes buffer buffer' : Nat → UInt8) (hcount : 4 ≤ count)
    (h : ConfigHeaderOk (receive bytes count 9 buffer)) : ConfigHeaderOk (receive bytes count 9 buffer') := by
  unfold ConfigHeaderOk at h ⊢
  rw [← wTotalLength_receive bytes buffer buffer' hcount, receive_lt (by omega), receive_lt (by omega)]
  rwa [receive_lt (by omega), receive_lt (by omega)] at h

theorem getConfigDescriptor_same (h : ReturnsEnough device.count index bufferLen) (buffer buffer' : Nat → UInt8) :
    getConfigDescriptor device index bufferLen buffer = getConfigDescriptor device index bufferLen buffer' := by
  unfold getConfigDescriptor
  rcases h with hshort | hfails | hsecond | ⟨count, hfirst, hcount, hall⟩
  · rw [if_pos hshort, if_pos hshort]
  · rw [hfails]
  · -- there is no second transfer
    by_cases hshort : bufferLen.toNat < 9
    · rw [if_pos hshort, if_pos hshort]
    rw [if_neg hshort, if_neg hshort]
    cases device.count 0 (configSetup index 9) with
    | none => rfl
    | some count =>
      have hnone : ∀ buffer, getConfigTotal device index bufferLen buffer = none := by
        intro buffer
        unfold getConfigTotal
        split
        · rename_i hheader
          obtain ⟨hlen, -, htotal⟩ := hheader
          dsimp only
          rw [hsecond _ (by omega) (Nat.min_le_right ..)]
        · rfl
      dsimp only
      rw [hnone, hnone]
  · rw [hfirst]
    split
    · rfl
    rename_i hshort
    dsimp only
    unfold getConfigTotal
    by_cases hheader : ConfigHeaderOk (receive (device.bytes 0 (configSetup index 9)) count 9 buffer)
    · have hheader' := configHeaderOk_receive _ buffer buffer' hcount hheader
      have htotal : 9 ≤ min (wTotalLength (receive (device.bytes 0 (configSetup index 9)) count 9 buffer))
          bufferLen.toNat := by
        have := hheader.1
        have := hheader.2.2
        omega
      rw [if_pos hheader, if_pos hheader', ← wTotalLength_receive _ buffer buffer' hcount]
      dsimp only
      cases hsecond : device.count 1 (configSetup index
        (min (wTotalLength (receive (device.bytes 0 (configSetup index 9)) count 9 buffer)) bufferLen.toNat)) with
      | none => rfl
      | some count' =>
        exact configuration_same _ _ _ _ hcount hheader htotal
          (hall _ htotal (Nat.min_le_right ..) count' hsecond)
    · rw [if_neg hheader, if_neg fun h => hheader (configHeaderOk_receive _ buffer' buffer hcount h)]

end Enough

/-! ## Short transfers -/

section Short

variable {buffer : Nat → UInt8} {n cursor sent : Nat} {s : UsbWalkState}

/-- Descriptors of two bytes and no type that the walk knows. -/
theorem usbWalkFrom_twos (buffer : Nat → UInt8) (n : Nat) (s : UsbWalkState) (k : Nat) (hn : n = cursor + 2 * k)
    (htwos : ∀ i, cursor ≤ i → i < n → buffer i = 2) : run buffer (usbWalkFrom n cursor s) = some s := by
  induction k generalizing cursor with
  | zero => rw [usbWalkFrom_last _ _ (by omega), if_pos (by omega)]
  | succ k ih =>
    have hlen := htwos cursor (Nat.le_refl _) (by omega)
    have htype := htwos (cursor + 1) (by omega) (by omega)
    rw [usbWalkFrom, if_pos (by omega), run_bind, run_readByte, run_bind, run_readByte, hlen, htype]
    have htwo : (2 : UInt8).toNat = 2 := rfl
    have hstep : run buffer (usbWalkStep cursor (2 : UInt8).toNat 2 s) = some s := rfl
    rw [if_neg (by decide), if_neg (by omega), run_bind, hstep]
    exact ih (by omega) fun i hi hin => htwos i (by omega) hin

/-- The same up to `sent`, and then what is no descriptor. -/
theorem usbWalkFrom_fours (buffer : Nat → UInt8) (n : Nat) (s : UsbWalkState) (k : Nat) (hn : n = cursor + 2 * k)
    (hcursor : cursor < n) (hsent : sent < n) (htwos : ∀ i, cursor ≤ i → i < sent → buffer i = 2)
    (hfours : ∀ i, sent ≤ i → i < n → buffer i = 4) : run buffer (usbWalkFrom n cursor s) = none := by
  induction k generalizing cursor with
  | zero => omega
  | succ k ih =>
    have htwo : (2 : UInt8).toNat = 2 := rfl
    have hfour : (4 : UInt8).toNat = 4 := rfl
    have hbad : ∀ len, len < 9 → run buffer (usbWalkStep cursor len 4 s) = none := by
      intro len hlen
      have hiface : (4 : UInt8) = usbDescInterface := rfl
      rw [usbWalkStep, if_pos hiface, if_pos hlen, run_pure]
    rw [usbWalkFrom, if_pos hcursor, run_bind, run_readByte, run_bind, run_readByte]
    by_cases hin : cursor < sent
    · rw [htwos cursor (Nat.le_refl _) hin, if_neg (by decide), if_neg (by omega), run_bind]
      by_cases hin' : cursor + 1 < sent
      · have hstep : run buffer (usbWalkStep cursor (2 : UInt8).toNat 2 s) = some s := rfl
        rw [htwos (cursor + 1) (by omega) hin', hstep]
        exact ih (by omega) (by omega) fun i hi hlt => htwos i (by omega) hlt
      · rw [hfours (cursor + 1) (by omega) (by omega), hbad _ (by omega)]
        rfl
    · rw [hfours cursor (by omega) (by omega), if_neg (by decide)]
      split
      · rw [run_pure]
      · rw [run_bind, hfours (cursor + 1) (by omega) (by omega), hbad _ (by omega)]
        rfl

/-- A header, and the byte 2 everywhere else. -/
def configBlob (start low high : UInt8) (i : Nat) : UInt8 :=
  if i = 0 then start else if i = 2 then low else if i = 3 then high else 2

theorem configBlob_rest {start low high : UInt8} {i : Nat} (h : 4 ≤ i) : configBlob start low high i = 2 := by
  rw [configBlob, if_neg (by omega), if_neg (by omega), if_neg (by omega)]

theorem walk_twos (hn : 4 ≤ n) (hstart : 4 ≤ (buffer 0).toNat) (htype : buffer 1 = usbDescConfiguration)
    (hle : (buffer 0).toNat ≤ n) (heven : (n - (buffer 0).toNat) % 2 = 0) (htwos : ∀ i, 4 ≤ i → buffer i = 2) :
    run buffer (usbWalkConfiguration n) = some ⟨0, [], n⟩ := by
  rcases usbWalkConfiguration_eq buffer n with ⟨-, -, hheader⟩ | ⟨hrun, -, -⟩
  · exact absurd ⟨hn, hstart, htype⟩ hheader
  · rw [hrun, usbWalkFrom_twos buffer n _ ((n - (buffer 0).toNat) / 2) (by omega) fun i hi _ => htwos i (by omega)]
    rfl

theorem walk_fours (sent : Nat) (hlt : (buffer 0).toNat < n) (heven : (n - (buffer 0).toNat) % 2 = 0) (hsent : sent < n)
    (htwos : ∀ i, 4 ≤ i → i < sent → buffer i = 2) (hfours : ∀ i, sent ≤ i → i < n → buffer i = 4) :
    run buffer (usbWalkConfiguration n) = none := by
  rcases usbWalkConfiguration_eq buffer n with ⟨hrun, -, -⟩ | ⟨hrun, -, -, hstart, -⟩
  · exact hrun
  · rw [hrun, usbWalkFrom_fours buffer n _ ((n - (buffer 0).toNat) / 2) (by omega) hlt hsent
      (fun i hi hlt => htwos i (by omega) hlt) hfours]
    rfl

theorem walk_bufferEnd {walk : UsbConfigWalk} (h : run buffer (usbWalkConfiguration n) = some walk) :
    walk.bufferEnd = n := by
  rcases usbWalkConfiguration_eq buffer n with ⟨hrun, -, -⟩ | ⟨hrun, -, -⟩
  · rw [hrun] at h
    cases h
  · rw [hrun] at h
    obtain ⟨s, -, rfl⟩ := Option.map_eq_some_iff.mp h
    rfl

end Short

section Counts

variable {counts : Nat → UsbSetup → Option Nat} {index : UInt8} {bufferLen : UInt16} {count count' total : Nat}

/-- Another high byte of `wTotalLength` that has not been sent. -/
theorem exists_totals (htotal : 9 ≤ total) (hle : total ≤ bufferLen.toNat) :
    ∃ low high high' : UInt8, min (low.toNat + 256 * high.toNat) bufferLen.toNat = total ∧
      (low.toNat + 256 * high'.toNat < 9 ∨ min (low.toNat + 256 * high'.toNat) bufferLen.toNat ≠ total) := by
  have hlt := bufferLen.toNat_lt
  have hbyte : ∀ k, k < 256 → (UInt8.ofNat k).toNat = k := fun k hk => UInt8.toNat_ofNat_of_lt' hk
  by_cases hbig : 256 ≤ total
  · refine ⟨UInt8.ofNat (total % 256), UInt8.ofNat (total / 256), 0, ?_, .inr ?_⟩
    · rw [hbyte _ (by omega), hbyte _ (by omega)]
      omega
    · rw [hbyte _ (by omega)]
      simp
      omega
  · by_cases hlast : total = bufferLen.toNat
    · refine ⟨0, 1, 0, ?_, .inl (by decide)⟩
      have hone : (0 : UInt8).toNat + 256 * (1 : UInt8).toNat = 256 := rfl
      omega
    · refine ⟨UInt8.ofNat total, 0, 1, ?_, .inr ?_⟩
      · rw [hbyte _ (by omega)]
        simp
        omega
      · rw [hbyte _ (by omega)]
        simp
        omega

/-- The value where both transfers are made. -/
theorem getConfigDescriptor_eq (device : ControlDevice) (buffer : Nat → UInt8) (hlen : 9 ≤ bufferLen.toNat)
    (hfirst : device.count 0 (configSetup index 9) = some count)
    (hheader : ConfigHeaderOk (receive (device.bytes 0 (configSetup index 9)) count 9 buffer))
    (htotal : min (wTotalLength (receive (device.bytes 0
      (configSetup index 9)) count 9 buffer)) bufferLen.toNat = total)
    (hsecond : device.count 1 (configSetup index total) = some count') :
    getConfigDescriptor device index bufferLen buffer =
      run (receive (device.bytes 1 (configSetup index total)) count' total
        (receive (device.bytes 0 (configSetup index 9)) count 9 buffer)) (usbWalkConfiguration total) := by
  subst htotal
  rw [getConfigDescriptor, if_neg (by omega), hfirst]
  dsimp only
  rw [getConfigTotal, if_pos hheader]
  dsimp only
  rw [hsecond]

/-- Two walks of different lengths differ. -/
theorem getConfigDescriptor_total {device : ControlDevice} {buffer : Nat → UInt8} {walk : UsbConfigWalk}
    (hfirst : device.count 0 (configSetup index 9) = some count)
    (h : getConfigDescriptor device index bufferLen buffer = some walk) :
    ConfigHeaderOk (receive (device.bytes 0 (configSetup index 9)) count 9 buffer) ∧
      walk.bufferEnd =
        min (wTotalLength (receive (device.bytes 0 (configSetup index 9)) count 9 buffer)) bufferLen.toNat := by
  unfold getConfigDescriptor at h
  split at h
  · cases h
  rw [hfirst] at h
  dsimp only at h
  unfold getConfigTotal at h
  split at h
  swap
  · cases h
  rename_i hheader
  refine ⟨hheader, ?_⟩
  dsimp only at h
  split at h
  · cases h
  · exact walk_bufferEnd h

/-- Every device with these counts and every two buffers have one walk. -/
def SameConfig (get : ControlDevice → UInt8 → UInt16 → (Nat → UInt8) → Option UsbConfigWalk)
    (counts : Nat → UsbSetup → Option Nat) (index : UInt8) (bufferLen : UInt16) : Prop :=
  ∀ bytes buffer buffer', get ⟨counts, bytes⟩ index bufferLen buffer = get ⟨counts, bytes⟩ index bufferLen buffer'

/-- A first byte of the header that is of the parity of the total. -/
def evenStart (total : Nat) : UInt8 := if total % 2 = 0 then 10 else 9

theorem evenStart_toNat (total : Nat) : (evenStart total).toNat = if total % 2 = 0 then 10 else 9 := by
  unfold evenStart
  split <;> rfl

theorem configBlob_header {start low high : UInt8} (hstart : 9 ≤ start.toNat)
    (hle : start.toNat ≤ low.toNat + 256 * high.toNat) : ConfigHeaderOk (configBlob start low high) :=
  ⟨hstart, rfl, hle⟩

theorem receive_self (bytes : Nat → UInt8) (count len : Nat) : receive bytes count len bytes = bytes := by
  funext i
  unfold receive
  split <;> rfl

/-- With less than the length of the header the rest of it is the buffer's. -/
theorem shortHeader_differs (hlen : 9 ≤ bufferLen.toNat) (hfirst : counts 0 (configSetup index 9) = some count)
    (hcount : count < 4) (htotal : 9 ≤ total) (hle : total ≤ bufferLen.toNat)
    (hsecond : counts 1 (configSetup index total) = some count') :
    ¬ SameConfig getConfigDescriptor counts index bufferLen := by
  intro hsame
  obtain ⟨low, high, high', heq, hother⟩ := exists_totals htotal hle
  have hstart := evenStart_toNat total
  -- the device sends what the first buffer has already
  let blob := configBlob (evenStart total) low high
  have hsame' := hsame (fun _ _ => blob) blob (Function.update blob 3 high')
  have hgood : getConfigDescriptor ⟨counts, fun _ _ => blob⟩ index bufferLen blob = some ⟨0, [], total⟩ := by
    have hheader : ConfigHeaderOk blob := configBlob_header (by rw [hstart]; split <;> omega) (by
      rw [hstart]
      split <;> omega)
    have hzero : blob 0 = evenStart total := rfl
    have hwalk : run blob (usbWalkConfiguration total) = some ⟨0, [], total⟩ := by
      refine walk_twos (by omega) ?_ rfl ?_ ?_ fun i hi => configBlob_rest hi
      all_goals
        rw [hzero, hstart]
        split <;> omega
    have hrun := getConfigDescriptor_eq ⟨counts, fun _ _ => blob⟩ blob hlen hfirst
      (by rwa [receive_self]) (by rw [receive_self]; exact heq) hsecond
    rw [hrun, receive_self, receive_self]
    exact hwalk
  rw [hgood] at hsame'
  obtain ⟨⟨hbyte, -, hheader⟩, hend⟩ := getConfigDescriptor_total hfirst hsame'.symm
  have htwo : receive blob count 9 (Function.update blob 3 high') 2 = low := by
    unfold receive
    split <;> rfl
  have hthree : receive blob count 9 (Function.update blob 3 high') 3 = high' := by
    rw [receive_ge (by omega), Function.update_self]
  simp only [wTotalLength, htwo, hthree] at hheader hend
  rcases hother with hsmall | hother
  · omega
  · exact hother hend.symm

/-- With less than the total the rest of it is the buffer's. -/
theorem shortConfiguration_differs (hlen : 9 ≤ bufferLen.toNat) (hfirst : counts 0 (configSetup index 9) = some count)
    (hcount : 4 ≤ count) (htotal : 9 ≤ total) (hle : total ≤ bufferLen.toNat)
    (hsecond : counts 1 (configSetup index total) = some count') (hcovers : ¬ Covers total count count') :
    ¬ SameConfig getConfigDescriptor counts index bufferLen := by
  intro hsame
  have hlt := bufferLen.toNat_lt
  have hbyte : ∀ k, k < 256 → (UInt8.ofNat k).toNat = k := fun k hk => UInt8.toNat_ofNat_of_lt' hk
  have hstart := evenStart_toNat total
  let low := UInt8.ofNat (total % 256)
  let high := UInt8.ofNat (total / 256)
  have hsum : low.toNat + 256 * high.toNat = total := by
    rw [hbyte _ (by omega), hbyte _ (by omega)]
    omega
  -- the walk starts at a byte of the parity of the total, and goes on in descriptors of two bytes
  let small : UInt8 := if total % 2 = 0 then 4 else 5
  have hsmall : small.toNat = if total % 2 = 0 then 4 else 5 := by
    dsimp only [small]
    split <;> rfl
  let first := configBlob (evenStart total) low high
  let second := configBlob small low high
  let device : ControlDevice := ⟨counts, fun k _ => if k = 0 then first else second⟩
  let left (buffer : Nat → UInt8) := receive second count' total (receive first count 9 buffer)
  have heq : ∀ buffer, getConfigDescriptor device index bufferLen buffer =
      run (left buffer) (usbWalkConfiguration total) := by
    intro buffer
    have hsent : ∀ i < 4, receive first count 9 buffer i = first i := fun i hi => receive_lt (by omega)
    have hsum' : wTotalLength (receive first count 9 buffer) = total := by
      rw [wTotalLength, hsent 2 (by omega), hsent 3 (by omega)]
      exact hsum
    have hheader : ConfigHeaderOk (receive first count 9 buffer) := by
      unfold ConfigHeaderOk
      rw [hsum', hsent 0 (by omega), hsent 1 (by omega)]
      refine ⟨?_, rfl, ?_⟩
      all_goals
        have hzero : first 0 = evenStart total := rfl
        rw [hzero, hstart]
        split <;> omega
    exact getConfigDescriptor_eq device buffer hlen hfirst hheader
      (by rw [show device.bytes 0 (configSetup index 9) = first from rfl, hsum']; omega) hsecond
  have hleft : ∀ buffer i, left buffer i =
      if i < min count' total then second i else if i < min count 9 then first i else buffer i := fun _ _ => rfl
  unfold Covers at hcovers
  -- the first byte is one of the two
  have hzero : ∀ buffer, (left buffer 0).toNat < total ∧ 4 ≤ (left buffer 0).toNat ∧
      (total - (left buffer 0).toNat) % 2 = 0 := by
    intro buffer
    have hfirst0 : first 0 = evenStart total := rfl
    have hsecond0 : second 0 = small := rfl
    rw [hleft, hfirst0, hsecond0]
    by_cases hnone : 0 < min count' total
    · rw [if_pos hnone, hsmall]
      split <;> omega
    · rw [if_neg hnone, if_pos (by omega), hstart]
      split <;> omega
  have hone : ∀ buffer, left buffer 1 = usbDescConfiguration := by
    intro buffer
    rw [hleft]
    split
    · rfl
    · rw [if_pos (by omega)]
      rfl
  have hrest : ∀ buffer i, 4 ≤ i → left buffer i = if i < max (min count 9)
    (min count' total) then 2 else buffer i := by
    intro buffer i hi
    have hfirsti : first i = 2 := configBlob_rest hi
    have hsecondi : second i = 2 := configBlob_rest hi
    rw [hleft, hfirsti, hsecondi]
    by_cases hsent : i < min count' total
    · rw [if_pos hsent, if_pos (by omega)]
    · rw [if_neg hsent]
      by_cases hsent' : i < min count 9
      · rw [if_pos hsent', if_pos (by omega)]
      · rw [if_neg hsent', if_neg (by omega)]
  have hgood : run (left fun _ => 2) (usbWalkConfiguration total) = some ⟨0, [], total⟩ := by
    obtain ⟨hlt, hfour, heven⟩ := hzero fun _ => 2
    refine walk_twos (by omega) hfour (hone _) (Nat.le_of_lt hlt) heven fun i hi => ?_
    rw [hrest _ i hi]
    split <;> rfl
  have hbad : run (left fun _ => 4) (usbWalkConfiguration total) = none := by
    obtain ⟨hlt, -, heven⟩ := hzero fun _ => 4
    refine walk_fours (max (min count 9) (min count' total)) hlt heven (by omega) ?_ ?_
    · intro i hi hsent
      rw [hrest _ i hi, if_pos hsent]
    · intro i hi _
      rw [hrest _ i (by omega), if_neg (by omega)]
  have hboth := hsame device.bytes (fun _ => 2) fun _ => 4
  rw [show (⟨counts, device.bytes⟩ : ControlDevice) = device from rfl, heq, heq, hgood, hbad] at hboth
  cases hboth

/-- For the counts of a device the walk is the device's own, whatever it sends, exactly if it returns enough. -/
theorem getConfigDescriptor_same_iff (counts : Nat → UsbSetup → Option Nat) (index : UInt8) (bufferLen : UInt16) :
    SameConfig getConfigDescriptor counts index bufferLen ↔ ReturnsEnough counts index bufferLen := by
  refine ⟨fun hsame => ?_, fun h bytes buffer buffer' => getConfigDescriptor_same h buffer buffer'⟩
  by_contra hnot
  unfold ReturnsEnough at hnot
  simp only [not_or, not_exists, not_and] at hnot
  obtain ⟨hlen, hfirst, hsecond, hall⟩ := hnot
  obtain ⟨count, hfirst⟩ := Option.ne_none_iff_exists'.mp hfirst
  by_cases hcount : 4 ≤ count
  · have hbad := hall count hfirst hcount
    push Not at hbad
    obtain ⟨total, htotal, hle, count', hsecond', hcovers⟩ := hbad
    exact shortConfiguration_differs (by omega) hfirst hcount htotal hle hsecond' hcovers hsame
  · push Not at hsecond
    obtain ⟨total, htotal, hle, hsome⟩ := hsecond
    obtain ⟨count', hsecond'⟩ := Option.ne_none_iff_exists'.mp hsome
    exact shortHeader_differs (by omega) hfirst (by omega) htotal hle hsecond' hsame

/-- The same of both functions. -/
theorem configDescriptor_counts (counts : Nat → UsbSetup → Option Nat) (index : UInt8) (bufferLen : UInt16) :
    (SameConfig usbGetConfigDescriptor counts index bufferLen ↔ ReturnsEnough counts index bufferLen) ∧
      (SameConfig usbDeviceGetConfigDescriptor counts index bufferLen ↔ ReturnsEnough counts index bufferLen) :=
  ⟨getConfigDescriptor_same_iff counts index bufferLen, getConfigDescriptor_same_iff counts index bufferLen⟩

/-- The header says 34 bytes, and the device returns nine of them. -/
def sampleShortDevice : ControlDevice :=
  ⟨fun _ _ => some 9, fun _ _ i => [9, 2, 34, 0, 1, 1, 0, 0xa0, 50].getD i 0⟩

/-- A keyboard that the device has not sent. -/
def sampleStaleBuffer (i : Nat) : UInt8 :=
  [0, 0, 0, 0, 0, 0, 0, 0, 0, 9, 4, 0, 0, 1, 3, 1, 1, 0, 9, 0x21, 0x11, 1, 0, 1, 0x22, 63, 0,
    7, 5, 0x81, 3, 8, 0, 10].getD i 0

theorem sampleStaleBuffer_differs :
    usbGetConfigDescriptor sampleShortDevice 0 256 sampleStaleBuffer =
        some ⟨0, [⟨9, [⟨27, 0x81, 3, 8⟩], some 18⟩], 34⟩ ∧
      usbGetConfigDescriptor sampleShortDevice 0 256 (fun _ => 0) = none ∧
      ¬ SameConfig usbGetConfigDescriptor sampleShortDevice.count 0 256 := by
  have hstale : usbGetConfigDescriptor sampleShortDevice 0 256 sampleStaleBuffer =
      some ⟨0, [⟨9, [⟨27, 0x81, 3, 8⟩], some 18⟩], 34⟩ := by decide +kernel
  have hzero : usbGetConfigDescriptor sampleShortDevice 0 256 (fun _ => 0) = none := by decide +kernel
  refine ⟨hstale, hzero, fun hsame => ?_⟩
  have hboth := hsame sampleShortDevice.bytes sampleStaleBuffer fun _ => 0
  rw [show (⟨sampleShortDevice.count, sampleShortDevice.bytes⟩ : ControlDevice) = sampleShortDevice from rfl, hstale,
    hzero] at hboth
  cases hboth

end Counts

end Armonios
