import Armonios.Lib.Groups
import Armonios.Lib.Reads

/-!
# The walk over a USB configuration

`usb_walk_configuration` of `drivers/usb/usb_core.c`, as a program that reads the buffer. Pointers are positions in it.

* `usbWalkStep_spec`: what the loop makes of one descriptor, and what it reads;
* `usbWalkConfiguration_spec`: the walk succeeds exactly for a sequence of descriptors of the right sizes, and what it
  records is the first interfaces with their first endpoints and their last HID descriptor;
* `usbWalkConfiguration_reads`: it reads past the buffer exactly if a descriptor starts at the last byte.
-/

namespace Armonios

open Reads

def usbDescConfiguration : UInt8 := 0x02
def usbDescInterface : UInt8 := 0x04
def usbDescEndpoint : UInt8 := 0x05
def usbDescHid : UInt8 := 0x21

def usbMaxInterfaces : Nat := 4
def usbMaxEndpoints : Nat := 4

/-- `usb_endpoint_ref_t`. -/
structure UsbEndpointRef where
  desc : Nat
  address : UInt8
  transferType : UInt8
  maxPacket : UInt16
  deriving DecidableEq

/-- `usb_interface_ref_t`, with the endpoints up to `endpoint_count`. -/
structure UsbInterfaceRef where
  desc : Nat
  endpoints : List UsbEndpointRef
  hid : Option Nat
  deriving DecidableEq

/-- `usb_config_walk_t`, with the interfaces up to `interface_count`. -/
structure UsbConfigWalk where
  config : Nat
  interfaces : List UsbInterfaceRef
  bufferEnd : Nat
  deriving DecidableEq

/-- The interfaces, and the index that `cur_iface` points to. -/
structure UsbWalkState where
  interfaces : List UsbInterfaceRef
  curIface : Option Nat

def UsbInterfaceRef.addEndpoint (ep : UsbEndpointRef) (iface : UsbInterfaceRef) : UsbInterfaceRef :=
  { iface with endpoints := iface.endpoints ++ [ep] }

def UsbInterfaceRef.setHid (desc : Nat) (iface : UsbInterfaceRef) : UsbInterfaceRef := { iface with hid := some desc }

/-- `endpoint_count` of the interface. -/
def UsbWalkState.endpointCount (s : UsbWalkState) (i : Nat) : Nat :=
  (s.interfaces[i]?.map fun iface => iface.endpoints.length).getD 0

/-- The fields of the endpoint descriptor at the cursor. -/
def readEndpointRef (cursor : Nat) : Reads UsbEndpointRef := do
  let address ← readByte (cursor + 2)
  let attributes ← readByte (cursor + 3)
  let low ← readByte (cursor + 4)
  let high ← readByte (cursor + 5)
  return ⟨cursor, address, attributes &&& 0x03, low.toUInt16 ||| high.toUInt16 <<< 8⟩

/-- What the loop makes of the descriptor at the cursor; `none` for the status −1. -/
def usbWalkStep (cursor len : Nat) (type : UInt8) (s : UsbWalkState) : Reads (Option UsbWalkState) :=
  if type = usbDescInterface then
    if len < 9 then return none
    else if s.interfaces.length < usbMaxInterfaces then
      return some ⟨s.interfaces ++ [⟨cursor, [], none⟩], some s.interfaces.length⟩
    else return some { s with curIface := none }
  else if type = usbDescEndpoint then
    match s.curIface with
    | none => return some s
    | some i =>
      if usbMaxEndpoints ≤ s.endpointCount i then return some s
      else if len < 7 then return none
      else do
        let ep ← readEndpointRef cursor
        return some { s with interfaces := s.interfaces.modify i (UsbInterfaceRef.addEndpoint ep) }
  else if type = usbDescHid then
    if len < 9 then return none
    else
      match s.curIface with
      | none => return some s
      | some i => return some { s with interfaces := s.interfaces.modify i (UsbInterfaceRef.setHid cursor) }
  else return some s

/-- The loop. -/
def usbWalkFrom (n cursor : Nat) (s : UsbWalkState) : Reads (Option UsbWalkState) :=
  if cursor < n then do
    let len ← readByte cursor
    let type ← readByte (cursor + 1)
    if len.toNat < 2 then return none
    else if n < cursor + len.toNat then return none
    else do
      let s ← usbWalkStep cursor len.toNat type s
      match s with
      | none => return none
      | some s => usbWalkFrom n (cursor + len.toNat) s
  else return some s
termination_by n - cursor

/-- `usb_walk_configuration` of `n` bytes. -/
def usbWalkConfiguration (n : Nat) : Reads (Option UsbConfigWalk) :=
  if n < 4 then return none
  else do
    let bLength ← readByte 0
    if bLength < 4 then return none
    else do
      let type ← readByte 1
      if type ≠ usbDescConfiguration then return none
      else do
        let s ← usbWalkFrom n bLength.toNat ⟨[], none⟩
        return s.map fun s => ⟨0, s.interfaces, n⟩

/-! ## The descriptors -/

structure UsbDescriptor where
  offset : Nat
  len : Nat
  type : UInt8

def descriptorAt (buffer : Nat → UInt8) (offset : Nat) : UsbDescriptor :=
  ⟨offset, (buffer offset).toNat, buffer (offset + 1)⟩

/-- The descriptors from `start` on, each after the length byte of the one before, up to `stop`. -/
inductive DescriptorChain (buffer : Nat → UInt8) (stop : Nat) : Nat → List UsbDescriptor → Prop
  | nil : DescriptorChain buffer stop stop []
  | cons {start : Nat} {ds : List UsbDescriptor} (hlen : 2 ≤ (buffer start).toNat)
      (h : DescriptorChain buffer stop (start + (buffer start).toNat) ds) :
      DescriptorChain buffer stop start (descriptorAt buffer start :: ds)

/-- The descriptors of a buffer of `n` bytes from `start` on. -/
def DescriptorsFrom (buffer : Nat → UInt8) (n start : Nat) (ds : List UsbDescriptor) : Prop :=
  n ≤ start ∧ ds = [] ∨ DescriptorChain buffer n start ds

abbrev UsbDescriptor.IsInterface (d : UsbDescriptor) : Prop := d.type = usbDescInterface

def interfaceGroups (ds : List UsbDescriptor) : List (UsbDescriptor × List UsbDescriptor) :=
  groups UsbDescriptor.IsInterface ds

def endpointsOf (group : UsbDescriptor × List UsbDescriptor) : List UsbDescriptor :=
  group.2.filter fun d => d.type = usbDescEndpoint

def hidsOf (group : UsbDescriptor × List UsbDescriptor) : List UsbDescriptor :=
  group.2.filter fun d => d.type = usbDescHid

/-- The reference of an endpoint descriptor. -/
def endpointRef (buffer : Nat → UInt8) (d : UsbDescriptor) : UsbEndpointRef :=
  ⟨d.offset, buffer (d.offset + 2), buffer (d.offset + 3) &&& 0x03,
    (buffer (d.offset + 4)).toUInt16 ||| (buffer (d.offset + 5)).toUInt16 <<< 8⟩

/-- The reference of an interface: its first endpoints, and its last HID descriptor. -/
def interfaceRef (buffer : Nat → UInt8) (group : UsbDescriptor × List UsbDescriptor) : UsbInterfaceRef where
  desc := group.1.offset
  endpoints := ((endpointsOf group).take usbMaxEndpoints).map (endpointRef buffer)
  hid := (hidsOf group).getLast?.map (·.offset)

/-- The first interfaces of the descriptors. -/
def interfaceRefs (buffer : Nat → UInt8) (ds : List UsbDescriptor) : List UsbInterfaceRef :=
  ((interfaceGroups ds).take usbMaxInterfaces).map (interfaceRef buffer)

/-- The next endpoint is recorded. -/
def EndpointWanted (ds : List UsbDescriptor) : Prop :=
  (interfaceGroups ds).length ≤ usbMaxInterfaces ∧
    ∃ group ∈ (interfaceGroups ds).getLast?, (endpointsOf group).length < usbMaxEndpoints

/-- A descriptor has the size of its type, after those before it. -/
structure RightSize (before : List UsbDescriptor) (d : UsbDescriptor) : Prop where
  interface : d.type = usbDescInterface → 9 ≤ d.len
  hid : d.type = usbDescHid → 9 ≤ d.len
  endpoint : d.type = usbDescEndpoint → EndpointWanted before → 7 ≤ d.len

/-- The interface and HID descriptors, and the endpoint descriptors that are recorded, have their sizes. -/
def RightSizes (before : List UsbDescriptor) : List UsbDescriptor → Prop
  | [] => True
  | d :: ds => RightSize before d ∧ RightSizes (before ++ [d]) ds

/-- A descriptor of at least `size` bytes at the offset is inside the buffer. -/
def DescriptorInside (buffer : Nat → UInt8) (n size offset : Nat) : Prop :=
  size ≤ (buffer offset).toNat ∧ offset + (buffer offset).toNat ≤ n

/-- So are those of an interface. -/
structure UsbInterfaceRef.Inside (buffer : Nat → UInt8) (n : Nat) (iface : UsbInterfaceRef) : Prop where
  desc : DescriptorInside buffer n 9 iface.desc
  endpoints : ∀ ep ∈ iface.endpoints, DescriptorInside buffer n 7 ep.desc
  hid : ∀ desc ∈ iface.hid, DescriptorInside buffer n 9 desc

/-! ## One descriptor -/

section Step

variable {buffer : Nat → UInt8} {before : List UsbDescriptor} {gs : List (UsbDescriptor × List UsbDescriptor)}
  {group : UsbDescriptor × List UsbDescriptor} {cursor : Nat} {d : UsbDescriptor}

/-- The state of the loop after some descriptors. -/
def stateOfGroups (buffer : Nat → UInt8) (gs : List (UsbDescriptor × List UsbDescriptor)) : UsbWalkState where
  interfaces := (gs.take usbMaxInterfaces).map (interfaceRef buffer)
  curIface := if gs = [] ∨ usbMaxInterfaces < gs.length then none else some (gs.length - 1)

def stateAfter (buffer : Nat → UInt8) (ds : List UsbDescriptor) : UsbWalkState :=
  stateOfGroups buffer (interfaceGroups ds)

theorem stateOfGroups_open (buffer : Nat → UInt8) (group : UsbDescriptor × List UsbDescriptor)
    (h : gs.length < usbMaxInterfaces) :
    stateOfGroups buffer (gs ++ [group]) =
      ⟨gs.map (interfaceRef buffer) ++ [interfaceRef buffer group], some gs.length⟩ := by
  have hlength : (gs ++ [group]).length ≤ usbMaxInterfaces := by
    rw [List.length_append, List.length_singleton]
    omega
  unfold stateOfGroups
  rw [List.take_of_length_le hlength, if_neg (by simp; omega)]
  simp

theorem stateOfGroups_closed (buffer : Nat → UInt8) (group : UsbDescriptor × List UsbDescriptor)
    (h : usbMaxInterfaces ≤ gs.length) :
    stateOfGroups buffer (gs ++ [group]) = ⟨(gs.take usbMaxInterfaces).map (interfaceRef buffer), none⟩ := by
  unfold stateOfGroups
  rw [List.take_append_of_le_length h, if_pos (.inr (by simp; omega))]

theorem modify_last {α : Type} (f : α → α) (l : List α) (a : α) : (l ++ [a]).modify l.length f = l ++ [f a] := by
  induction l with
  | nil => rfl
  | cons b l ih => simpa using ih

/-- A descriptor that is none of an interface goes to the last interface. -/
theorem interfaceGroups_member (hd : d.type ≠ usbDescInterface) (hgroups : interfaceGroups before = gs ++ [group]) :
    interfaceGroups (before ++ [d]) = gs ++ [(group.1, group.2 ++ [d])] :=
  groups_last UsbDescriptor.IsInterface hd hgroups

theorem endpointWanted_iff (hgroups : interfaceGroups before = gs ++ [group]) :
    EndpointWanted before ↔ gs.length < usbMaxInterfaces ∧ (endpointsOf group).length < usbMaxEndpoints := by
  simp only [EndpointWanted, hgroups, List.length_append, List.length_singleton, List.getLast?_append,
    List.getLast?_singleton, Option.some_or, Option.mem_def, Option.some.injEq, exists_eq_left', Nat.succ_le_iff]

theorem run_readEndpointRef (buffer : Nat → UInt8) (cursor : Nat) :
    run buffer (readEndpointRef cursor) = endpointRef buffer (descriptorAt buffer cursor) := by
  simp [readEndpointRef, endpointRef, descriptorAt]

theorem endpointCount_last (refs : List UsbInterfaceRef) (ref : UsbInterfaceRef) :
    UsbWalkState.endpointCount ⟨refs ++ [ref], some refs.length⟩ refs.length = ref.endpoints.length := by
  simp [UsbWalkState.endpointCount]

/-- An interface descriptor. -/
theorem usbWalkStep_interface (hd : (descriptorAt buffer cursor).type = usbDescInterface) :
    run buffer (usbWalkStep cursor (buffer cursor).toNat (buffer (cursor + 1)) (stateAfter buffer before)) =
      if 9 ≤ (buffer cursor).toNat then some (stateAfter buffer
        (before ++ [descriptorAt buffer cursor])) else none := by
  have htype : buffer (cursor + 1) = usbDescInterface := hd
  unfold usbWalkStep stateAfter
  rw [if_pos htype]
  have hnext : interfaceGroups (before ++ [descriptorAt buffer cursor]) =
      interfaceGroups before ++ [(descriptorAt buffer cursor, [])] := groups_head UsbDescriptor.IsInterface hd before
  by_cases hlen : 9 ≤ (buffer cursor).toNat
  · rw [if_neg (by omega), if_pos hlen, hnext]
    by_cases hroom : (interfaceGroups before).length < usbMaxInterfaces
    · rw [if_pos (by simp [stateOfGroups]; omega), stateOfGroups_open buffer _ hroom]
      have htake : (interfaceGroups before).take usbMaxInterfaces = interfaceGroups before :=
        List.take_of_length_le (by omega)
      simp only [stateOfGroups, htake, run_pure, List.length_map]
      rfl
    · rw [if_neg (by simp [stateOfGroups]; omega), stateOfGroups_closed buffer _ (by omega)]
      rfl
  · rw [if_pos (by omega), if_neg hlen]
    rfl

/-- The last interface of the state, if it is one of the first. -/
theorem curIface_cases (buffer : Nat → UInt8) (before : List UsbDescriptor) :
    (∃ gs group, interfaceGroups before = gs ++ [group] ∧ gs.length < usbMaxInterfaces ∧
        stateAfter buffer before = ⟨gs.map (interfaceRef buffer) ++ [interfaceRef buffer group], some gs.length⟩) ∨
      (¬ EndpointWanted before ∧ (stateAfter buffer before).curIface = none ∧
        ∀ d : UsbDescriptor, ¬ d.IsInterface → stateAfter buffer (before ++ [d]) = stateAfter buffer before) := by
  unfold stateAfter
  rcases List.eq_nil_or_concat (interfaceGroups before) with hnil | ⟨gs, group, hgroups⟩
  · refine .inr ⟨by simp [EndpointWanted, hnil], by simp [hnil, stateOfGroups], fun d hd => ?_⟩
    rw [hnil, interfaceGroups, groups_lead _ hd hnil]
  · rw [List.concat_eq_append] at hgroups
    by_cases hroom : gs.length < usbMaxInterfaces
    · exact .inl ⟨gs, group, hgroups, hroom, by rw [hgroups, stateOfGroups_open buffer group hroom]⟩
    · have hfull : usbMaxInterfaces ≤ gs.length := Nat.le_of_not_lt hroom
      refine .inr ⟨fun h => hroom ((endpointWanted_iff hgroups).mp h).1, ?_, fun d hd => ?_⟩
      · rw [hgroups, stateOfGroups_closed buffer _ hfull]
      · rw [interfaceGroups_member hd hgroups, hgroups, stateOfGroups_closed buffer _ hfull,
          stateOfGroups_closed buffer _ hfull]

/-- A descriptor that goes to one of the first interfaces. -/
theorem stateAfter_member (hd : ¬ d.IsInterface) (hgroups : interfaceGroups before = gs ++ [group])
    (hroom : gs.length < usbMaxInterfaces) :
    stateAfter buffer (before ++ [d]) =
      ⟨gs.map (interfaceRef buffer) ++ [interfaceRef buffer (group.1, group.2 ++ [d])], some gs.length⟩ := by
  rw [stateAfter, interfaceGroups_member hd hgroups, stateOfGroups_open buffer _ hroom]

theorem interfaceRef_other (h : d.type ≠ usbDescEndpoint) (h' : d.type ≠ usbDescHid) :
    interfaceRef buffer (group.1, group.2 ++ [d]) = interfaceRef buffer group := by
  simp [interfaceRef, endpointsOf, hidsOf, h, h']

theorem interfaceRef_hid (h : d.type = usbDescHid) :
    interfaceRef buffer (group.1, group.2 ++ [d]) = (interfaceRef buffer group).setHid d.offset := by
  have hne : d.type ≠ usbDescEndpoint := by
    rw [h]
    decide
  have hendpoints : endpointsOf (group.1, group.2 ++ [d]) = endpointsOf group := by simp [endpointsOf, hne]
  have hhids : hidsOf (group.1, group.2 ++ [d]) = hidsOf group ++ [d] := by simp [hidsOf, h]
  unfold interfaceRef UsbInterfaceRef.setHid
  rw [hendpoints, hhids]
  simp

theorem interfaceRef_endpoint (h : d.type = usbDescEndpoint) :
    interfaceRef buffer (group.1, group.2 ++ [d]) =
      if (endpointsOf group).length < usbMaxEndpoints
        then (interfaceRef buffer group).addEndpoint (endpointRef buffer d) else interfaceRef buffer group := by
  have hne : d.type ≠ usbDescHid := by
    rw [h]
    decide
  have hendpoints : endpointsOf (group.1, group.2 ++ [d]) = endpointsOf group ++ [d] := by simp [endpointsOf, h]
  have hhids : hidsOf (group.1, group.2 ++ [d]) = hidsOf group := by simp [hidsOf, hne]
  unfold interfaceRef UsbInterfaceRef.addEndpoint
  rw [hendpoints, hhids]
  split
  · rename_i hroom
    rw [List.take_of_length_le (by simp; omega), List.take_of_length_le (by omega)]
    simp
  · rw [List.take_append_of_le_length (by omega)]

theorem endpoints_length (buffer : Nat → UInt8) (group : UsbDescriptor × List UsbDescriptor) :
    (interfaceRef buffer group).endpoints.length = min usbMaxEndpoints (endpointsOf group).length := by
  simp [interfaceRef]

/-- An endpoint descriptor. -/
theorem usbWalkStep_endpoint (before : List UsbDescriptor)
    (hd : (descriptorAt buffer cursor).type = usbDescEndpoint) :
    run buffer (usbWalkStep cursor (buffer cursor).toNat (buffer (cursor + 1)) (stateAfter buffer before)) = none ∧
        EndpointWanted before ∧ (buffer cursor).toNat < 7 ∨
      run buffer (usbWalkStep cursor (buffer cursor).toNat (buffer (cursor + 1)) (stateAfter buffer before)) =
          some (stateAfter buffer (before ++ [descriptorAt buffer cursor])) ∧
        (EndpointWanted before → 7 ≤ (buffer cursor).toNat) := by
  have htype : buffer (cursor + 1) = usbDescEndpoint := hd
  have hiface : ¬ (descriptorAt buffer cursor).IsInterface := by
    unfold UsbDescriptor.IsInterface
    rw [hd]
    decide
  unfold usbWalkStep
  rw [if_neg (by rw [htype]; decide), if_pos htype]
  rcases curIface_cases buffer before with ⟨gs, group, hgroups, hroom, hstate⟩ | ⟨hwanted, hcur, hsame⟩
  · rw [stateAfter_member hiface hgroups hroom, interfaceRef_endpoint hd, hstate]
    have hcount : UsbWalkState.endpointCount
        ⟨gs.map (interfaceRef buffer) ++ [interfaceRef buffer group], some gs.length⟩ gs.length =
          min usbMaxEndpoints (endpointsOf group).length := by
      have := endpointCount_last (gs.map (interfaceRef buffer)) (interfaceRef buffer group)
      rwa [List.length_map, endpoints_length] at this
    dsimp only
    rw [hcount]
    by_cases hfull : (endpointsOf group).length < usbMaxEndpoints
    · rw [if_neg (by omega), if_pos hfull]
      by_cases hlen : (buffer cursor).toNat < 7
      · rw [if_pos hlen]
        exact .inl ⟨rfl, (endpointWanted_iff hgroups).mpr ⟨hroom, hfull⟩, hlen⟩
      · rw [if_neg hlen, run_bind, run_readEndpointRef, run_pure]
        have hmodify := modify_last (UsbInterfaceRef.addEndpoint (endpointRef buffer (descriptorAt buffer cursor)))
          (gs.map (interfaceRef buffer)) (interfaceRef buffer group)
        rw [List.length_map] at hmodify
        rw [hmodify]
        exact .inr ⟨rfl, fun _ => by omega⟩
    · rw [if_pos (by omega), if_neg hfull]
      exact .inr ⟨rfl, fun h => absurd ((endpointWanted_iff hgroups).mp h).2 hfull⟩
  · rw [hcur, hsame _ hiface]
    exact .inr ⟨rfl, fun h => absurd h hwanted⟩

/-- A HID descriptor. -/
theorem usbWalkStep_hid (hd : (descriptorAt buffer cursor).type = usbDescHid) :
    run buffer (usbWalkStep cursor (buffer cursor).toNat (buffer (cursor + 1)) (stateAfter buffer before)) =
      if 9 ≤ (buffer cursor).toNat then some (stateAfter buffer
        (before ++ [descriptorAt buffer cursor])) else none := by
  have htype : buffer (cursor + 1) = usbDescHid := hd
  have hiface : ¬ (descriptorAt buffer cursor).IsInterface := by
    unfold UsbDescriptor.IsInterface
    rw [hd]
    decide
  unfold usbWalkStep
  rw [if_neg (by rw [htype]; decide), if_neg (by rw [htype]; decide), if_pos htype]
  by_cases hlen : 9 ≤ (buffer cursor).toNat
  · rw [if_neg (by omega), if_pos hlen]
    rcases curIface_cases buffer before with ⟨gs, group, hgroups, hroom, hstate⟩ | ⟨-, hcur, hsame⟩
    · rw [stateAfter_member hiface hgroups hroom, interfaceRef_hid hd, hstate]
      have hmodify := modify_last (UsbInterfaceRef.setHid cursor) (gs.map (interfaceRef buffer))
        (interfaceRef buffer group)
      rw [List.length_map] at hmodify
      dsimp only
      rw [hmodify]
      rfl
    · rw [hcur, hsame _ hiface]
      rfl
  · rw [if_pos (by omega), if_neg hlen]
    rfl

/-- Another descriptor. -/
theorem usbWalkStep_other (hiface : ¬ (descriptorAt buffer cursor).IsInterface)
    (hendpoint : (descriptorAt buffer cursor).type ≠ usbDescEndpoint)
    (hhid : (descriptorAt buffer cursor).type ≠ usbDescHid) :
    run buffer (usbWalkStep cursor (buffer cursor).toNat (buffer (cursor + 1)) (stateAfter buffer before)) =
      some (stateAfter buffer (before ++ [descriptorAt buffer cursor])) := by
  have htype : buffer (cursor + 1) ≠ usbDescInterface := hiface
  have htype' : buffer (cursor + 1) ≠ usbDescEndpoint := hendpoint
  have htype'' : buffer (cursor + 1) ≠ usbDescHid := hhid
  unfold usbWalkStep
  rw [if_neg htype, if_neg htype', if_neg htype'', run_pure]
  rcases curIface_cases buffer before with ⟨gs, group, hgroups, hroom, hstate⟩ | ⟨-, -, hsame⟩
  · rw [stateAfter_member hiface hgroups hroom, interfaceRef_other hendpoint hhid, hstate]
  · rw [hsame _ hiface]

/-- What the loop makes of a descriptor. -/
theorem usbWalkStep_spec (buffer : Nat → UInt8) (cursor : Nat) (before : List UsbDescriptor) :
    let step := usbWalkStep cursor (buffer cursor).toNat (buffer (cursor + 1)) (stateAfter buffer before)
    (RightSize before (descriptorAt buffer cursor) ∧
        run buffer step = some (stateAfter buffer (before ++ [descriptorAt buffer cursor]))) ∨
      (¬ RightSize before (descriptorAt buffer cursor) ∧ run buffer step = none) := by
  intro step
  have hne : usbDescInterface ≠ usbDescHid ∧ usbDescInterface ≠ usbDescEndpoint ∧ usbDescEndpoint ≠ usbDescHid := by
    decide
  by_cases hiface : (descriptorAt buffer cursor).IsInterface
  · have hrun : run buffer step = _ := usbWalkStep_interface hiface
    by_cases hlen : 9 ≤ (buffer cursor).toNat
    · rw [if_pos hlen] at hrun
      exact .inl ⟨⟨fun _ => hlen, fun _ => hlen, fun _ _ => Nat.le_trans (by decide) hlen⟩, hrun⟩
    · rw [if_neg hlen] at hrun
      exact .inr ⟨fun h => hlen (h.interface hiface), hrun⟩
  by_cases hhid : (descriptorAt buffer cursor).type = usbDescHid
  · have hrun : run buffer step = _ := usbWalkStep_hid hhid
    by_cases hlen : 9 ≤ (buffer cursor).toNat
    · rw [if_pos hlen] at hrun
      exact .inl ⟨⟨fun _ => hlen, fun _ => hlen, fun _ _ => Nat.le_trans (by decide) hlen⟩, hrun⟩
    · rw [if_neg hlen] at hrun
      exact .inr ⟨fun h => hlen (h.hid hhid), hrun⟩
  by_cases hendpoint : (descriptorAt buffer cursor).type = usbDescEndpoint
  · rcases usbWalkStep_endpoint before hendpoint with ⟨hrun, hwanted, hlen⟩ | ⟨hrun, hlen⟩
    · exact .inr ⟨fun h => absurd (h.endpoint hendpoint hwanted) (Nat.not_le_of_lt hlen), hrun⟩
    · exact .inl ⟨⟨fun h => absurd h hiface, fun h => absurd h hhid, fun _ => hlen⟩, hrun⟩
  · exact .inl ⟨⟨fun h => absurd h hiface, fun h => absurd h hhid, fun h => absurd h hendpoint⟩,
      usbWalkStep_other hiface hendpoint hhid⟩

theorem usbWalkStep_within (cursor len : Nat) (type : UInt8) (s : UsbWalkState) :
    (usbWalkStep cursor len type s).Within fun i => cursor ≤ i ∧ i < cursor + len := by
  unfold usbWalkStep
  split
  · split
    · exact within_pure _
    split <;> exact within_pure _
  split
  · split
    · exact within_pure _
    split
    · exact within_pure _
    split
    · exact within_pure _
    · refine Within.bind ?_ fun _ => within_pure _
      unfold readEndpointRef
      refine (within_readByte ⟨by omega, by omega⟩).bind fun _ => (within_readByte ⟨by omega, by omega⟩).bind fun _ =>
        (within_readByte ⟨by omega, by omega⟩).bind fun _ => (within_readByte ⟨by omega, by omega⟩).bind fun _ =>
          within_pure _
  split
  · split
    · exact within_pure _
    split <;> exact within_pure _
  · exact within_pure _

theorem mem_modify {α : Type} {f : α → α} {l : List α} {i : Nat} {a : α} (h : a ∈ l.modify i f) :
    a ∈ l ∨ ∃ b ∈ l, a = f b := by
  obtain ⟨j, hj⟩ := List.mem_iff_getElem?.mp h
  rw [List.getElem?_modify] at hj
  cases hb : l[j]? with
  | none =>
    rw [hb] at hj
    cases hj
  | some b =>
    have hmem := List.mem_of_getElem? hb
    rw [hb] at hj
    cases hj
    dsimp only
    split
    · exact .inr ⟨b, hmem, rfl⟩
    · exact .inl hmem

/-- What is recorded is inside the buffer. -/
theorem usbWalkStep_inside {n : Nat} {s s' : UsbWalkState} {type : UInt8}
    (hs : ∀ iface ∈ s.interfaces, iface.Inside buffer n)
    (hfits : cursor + (buffer cursor).toNat ≤ n)
    (h : run buffer (usbWalkStep cursor (buffer cursor).toNat type s) = some s') :
    ∀ iface ∈ s'.interfaces, iface.Inside buffer n := by
  unfold usbWalkStep at h
  split at h
  · split at h
    · cases h
    rename_i hlen
    split at h
    · cases h
      refine List.forall_mem_append.mpr ⟨hs, ?_⟩
      simp only [List.mem_singleton, forall_eq]
      exact ⟨⟨Nat.le_of_not_lt hlen, hfits⟩, by simp, by simp⟩
    · cases h
      exact hs
  split at h
  · split at h
    · cases h
      exact hs
    split at h
    · cases h
      exact hs
    split at h
    · cases h
    · rename_i hlen
      rw [run_bind, run_readEndpointRef, run_pure] at h
      cases h
      intro iface hiface
      rcases mem_modify hiface with hold | ⟨old, hold, rfl⟩
      · exact hs iface hold
      · refine ⟨(hs old hold).desc, List.forall_mem_append.mpr ⟨(hs old hold).endpoints, ?_⟩, (hs old hold).hid⟩
        simp only [List.mem_singleton, forall_eq]
        exact ⟨Nat.le_of_not_lt hlen, hfits⟩
  split at h
  · split at h
    · cases h
    rename_i hlen
    split at h
    · cases h
      exact hs
    · cases h
      intro iface hiface
      rcases mem_modify hiface with hold | ⟨old, hold, rfl⟩
      · exact hs iface hold
      · refine ⟨(hs old hold).desc, (hs old hold).endpoints, ?_⟩
        simp only [UsbInterfaceRef.setHid, Option.mem_def, Option.some.injEq, forall_eq']
        exact ⟨Nat.le_of_not_lt hlen, hfits⟩
  · cases h
    exact hs

end Step

/-! ## The loop -/

section Walk

variable {buffer : Nat → UInt8} {n stop start cursor : Nat} {ds : List UsbDescriptor}

theorem DescriptorChain.le (h : DescriptorChain buffer stop start ds) : start ≤ stop := by
  induction h with
  | nil => exact Nat.le_refl _
  | cons hlen _ ih => omega

theorem descriptorChain_cons (h : start < stop) : DescriptorChain buffer stop start ds ↔
    2 ≤ (buffer start).toNat ∧ ∃ rest, ds = descriptorAt buffer start :: rest ∧
      DescriptorChain buffer stop (start + (buffer start).toNat) rest := by
  constructor
  · intro hchain
    cases hchain with
    | nil => exact absurd h (Nat.lt_irrefl _)
    | cons hlen hrest => exact ⟨hlen, _, rfl, hrest⟩
  · rintro ⟨hlen, rest, rfl, hrest⟩
    exact .cons hlen hrest

theorem descriptorsFrom_end (h : n ≤ start) : DescriptorsFrom buffer n start ds ↔ ds = [] := by
  refine ⟨fun hds => ?_, fun hds => .inl ⟨h, hds⟩⟩
  rcases hds with ⟨-, hds⟩ | hchain
  · exact hds
  · cases hchain with
    | nil => rfl
    | cons hlen hrest =>
      have := hrest.le
      omega

theorem descriptorsFrom_cons (h : start < n) : DescriptorsFrom buffer n start ds ↔
    2 ≤ (buffer start).toNat ∧ start + (buffer start).toNat ≤ n ∧ ∃ rest, ds = descriptorAt buffer start :: rest ∧
      DescriptorsFrom buffer n (start + (buffer start).toNat) rest := by
  have hdrop : DescriptorsFrom buffer n start ds ↔ DescriptorChain buffer n start ds :=
    ⟨fun hds => hds.resolve_left fun hend => by omega, .inr⟩
  rw [hdrop, descriptorChain_cons h]
  constructor
  · rintro ⟨hlen, rest, rfl, hrest⟩
    exact ⟨hlen, hrest.le, rest, rfl, .inr hrest⟩
  · rintro ⟨hlen, hle, rest, rfl, ⟨hend, rfl⟩ | hrest⟩
    · refine ⟨hlen, [], rfl, ?_⟩
      have hstop : start + (buffer start).toNat = n := Nat.le_antisymm hle hend
      rw [hstop]
      exact .nil
    · exact ⟨hlen, rest, rfl, hrest⟩

/-- The loop, after the descriptors before the cursor. -/
theorem usbWalkFrom_run (buffer : Nat → UInt8) (n cursor : Nat) (before : List UsbDescriptor) (s : UsbWalkState) :
    run buffer (usbWalkFrom n cursor (stateAfter buffer before)) = some s ↔
      ∃ ds, DescriptorsFrom buffer n cursor ds ∧ RightSizes before ds ∧ s = stateAfter buffer (before ++ ds) := by
  -- on the bytes that are ahead
  induction h : n - cursor using Nat.strongRecOn generalizing cursor before with
  | ind m ih =>
    subst h
    rw [usbWalkFrom]
    split
    swap
    · rename_i hend
      simp only [run_pure, Option.some.injEq, descriptorsFrom_end (Nat.le_of_not_lt hend), exists_eq_left, RightSizes,
        true_and, List.append_nil]
      exact eq_comm
    rename_i hcursor
    rw [run_bind, run_readByte, run_bind, run_readByte]
    simp only [descriptorsFrom_cons hcursor]
    by_cases hlen : (buffer cursor).toNat < 2
    · rw [if_pos hlen, run_pure]
      exact iff_of_false (by simp) fun ⟨_, h, _⟩ => absurd h.1 (by omega)
    by_cases hfits : n < cursor + (buffer cursor).toNat
    · rw [if_neg hlen, if_pos hfits, run_pure]
      exact iff_of_false (by simp) fun ⟨_, h, _⟩ => absurd h.2.1 (by omega)
    rw [if_neg hlen, if_neg hfits, run_bind]
    rcases usbWalkStep_spec buffer cursor before with ⟨hsize, hrun⟩ | ⟨hsize, hrun⟩
    · rw [hrun]
      dsimp only
      rw [ih _ (by omega) (cursor + (buffer cursor).toNat) _ rfl]
      constructor
      · rintro ⟨rest, hrest, hsizes, rfl⟩
        exact ⟨descriptorAt buffer cursor :: rest, ⟨by omega, by omega, rest, rfl, hrest⟩, ⟨hsize, hsizes⟩, by simp⟩
      · rintro ⟨_, ⟨-, -, rest, rfl, hrest⟩, hsizes, rfl⟩
        exact ⟨rest, hrest, hsizes.2, by simp⟩
    · rw [hrun]
      refine iff_of_false (by simp) ?_
      rintro ⟨_, ⟨-, -, rest, rfl, -⟩, hsizes, -⟩
      exact hsize hsizes.1

/-- The loop reads past the buffer exactly if it comes to a descriptor at the last byte. -/
theorem usbWalkFrom_touched (buffer : Nat → UInt8) {n : Nat} (hn : 0 < n) (cursor : Nat) (before : List UsbDescriptor) :
    (∀ pos ∈ touched buffer (usbWalkFrom n cursor (stateAfter buffer before)), pos < n) ↔
      ¬ ∃ ds, DescriptorChain buffer (n - 1) cursor ds ∧ RightSizes before ds := by
  induction h : n - cursor using Nat.strongRecOn generalizing cursor before with
  | ind m ih =>
    subst h
    rw [usbWalkFrom]
    split
    swap
    · refine iff_of_true (by simp) ?_
      rintro ⟨ds, hchain, -⟩
      have := hchain.le
      omega
    rename_i hcursor
    rw [touched_bind, touched_readByte, run_readByte, touched_bind, touched_readByte, run_readByte]
    by_cases hlast : cursor = n - 1
    · refine iff_of_false (fun hall => ?_) (not_not_intro ⟨[], by rw [hlast]; exact .nil, trivial⟩)
      have := hall (cursor + 1) (by simp)
      omega
    have hhead : cursor < n ∧ cursor + 1 < n := by omega
    simp only [List.singleton_append, List.forall_mem_cons, hhead, true_and,
      descriptorChain_cons (show cursor < n - 1 by omega)]
    split
    · rename_i hlen
      refine iff_of_true (by simp) ?_
      rintro ⟨_, ⟨h, -⟩, -⟩
      omega
    split
    · rename_i hfits
      refine iff_of_true (by simp) ?_
      rintro ⟨_, ⟨-, rest, -, hrest⟩, -⟩
      have := hrest.le
      omega
    rename_i hlen hfits
    rw [touched_bind]
    have hstep : ∀ pos ∈ touched buffer
        (usbWalkStep cursor (buffer cursor).toNat (buffer (cursor + 1)) (stateAfter buffer before)), pos < n := by
      intro pos hpos
      have := (usbWalkStep_within _ _ _ _).touched pos hpos
      omega
    rw [List.forall_mem_append, and_iff_right hstep]
    rcases usbWalkStep_spec buffer cursor before with ⟨hsize, hrun⟩ | ⟨hsize, hrun⟩
    · rw [hrun]
      dsimp only
      rw [ih _ (by omega) (cursor + (buffer cursor).toNat) _ rfl, not_iff_not]
      constructor
      · rintro ⟨rest, hrest, hsizes⟩
        exact ⟨descriptorAt buffer cursor :: rest, ⟨by omega, rest, rfl, hrest⟩, hsize, hsizes⟩
      · rintro ⟨_, ⟨-, rest, rfl, hrest⟩, hsizes⟩
        exact ⟨rest, hrest, hsizes.2⟩
    · rw [hrun]
      refine iff_of_true (by simp) ?_
      rintro ⟨_, ⟨-, rest, rfl, -⟩, hsizes⟩
      exact hsize hsizes.1

theorem usbWalkFrom_inside {s s' : UsbWalkState} (hs : ∀ iface ∈ s.interfaces, iface.Inside buffer n)
    (h : run buffer (usbWalkFrom n cursor s) = some s') : ∀ iface ∈ s'.interfaces, iface.Inside buffer n := by
  induction hm : n - cursor using Nat.strongRecOn generalizing cursor s with
  | ind m ih =>
    subst hm
    rw [usbWalkFrom] at h
    split at h
    swap
    · cases h
      exact hs
    rw [run_bind, run_readByte, run_bind, run_readByte] at h
    split at h
    · cases h
    split at h
    · cases h
    rename_i hlen hfits
    rw [run_bind] at h
    cases hstep : run buffer (usbWalkStep cursor (buffer cursor).toNat (buffer (cursor + 1)) s) with
    | none =>
      rw [hstep] at h
      cases h
    | some next =>
      rw [hstep] at h
      exact ih _ (by omega) (usbWalkStep_inside hs (by omega) hstep) h rfl

end Walk

/-! ## The walk -/

theorem stateAfter_nil (buffer : Nat → UInt8) : stateAfter buffer [] = ⟨[], none⟩ := rfl

/-- The walk after the header. -/
theorem usbWalkConfiguration_eq (buffer : Nat → UInt8) (n : Nat) :
    (run buffer (usbWalkConfiguration n) = none ∧ (∀ pos ∈ touched buffer (usbWalkConfiguration n), pos < n) ∧
        ¬ (4 ≤ n ∧ 4 ≤ (buffer 0).toNat ∧ buffer 1 = usbDescConfiguration)) ∨
      (run buffer (usbWalkConfiguration n) =
          (run buffer (usbWalkFrom n (buffer 0).toNat ⟨[], none⟩)).map (fun s => ⟨0, s.interfaces, n⟩) ∧
        touched buffer (usbWalkConfiguration n) =
          0 :: 1 :: touched buffer (usbWalkFrom n (buffer 0).toNat ⟨[], none⟩) ∧
        4 ≤ n ∧ 4 ≤ (buffer 0).toNat ∧ buffer 1 = usbDescConfiguration) := by
  unfold usbWalkConfiguration
  by_cases hn : n < 4
  · rw [if_pos hn]
    exact .inl ⟨rfl, by simp, fun h => by omega⟩
  rw [if_neg hn, run_bind, run_readByte, touched_bind, run_readByte, touched_readByte]
  by_cases hlen : buffer 0 < 4
  · rw [if_pos hlen]
    have hlen' : (buffer 0).toNat < 4 := hlen
    refine .inl ⟨rfl, ?_, fun h => by omega⟩
    simp
    omega
  have hlen' : ¬ (buffer 0).toNat < 4 := hlen
  rw [if_neg hlen, run_bind, run_readByte, touched_bind, run_readByte, touched_readByte]
  by_cases htype : buffer 1 = usbDescConfiguration
  · rw [if_neg (not_not_intro htype), run_bind, touched_bind]
    exact .inr ⟨rfl, by simp, by omega, by omega, htype⟩
  · rw [if_pos htype]
    refine .inl ⟨rfl, ?_, fun h => htype h.2.2⟩
    simp
    omega

/-- The walk ends with the record of the descriptors exactly if the header is one of a configuration and the
descriptors have their sizes. Those that it records are inside the buffer. The header is recorded too, as position 0;
only its first four bytes are: with a length above `n` it ends past the buffer, and no descriptor follows. -/
theorem usbWalkConfiguration_spec (buffer : Nat → UInt8) (n : Nat) :
    (∀ walk, run buffer (usbWalkConfiguration n) = some walk ↔
      (4 ≤ n ∧ 4 ≤ (buffer 0).toNat ∧ buffer 1 = usbDescConfiguration) ∧
        ∃ ds, DescriptorsFrom buffer n (buffer 0).toNat ds ∧ RightSizes [] ds ∧
          walk = ⟨0, interfaceRefs buffer ds, n⟩) ∧
    ∀ walk, run buffer (usbWalkConfiguration n) = some walk → ∀ iface ∈ walk.interfaces, iface.Inside buffer n := by
  rcases usbWalkConfiguration_eq buffer n with ⟨hrun, -, hheader⟩ | ⟨hrun, -, hheader⟩
  · rw [hrun]
    exact ⟨fun walk => iff_of_false (by simp) fun h => hheader h.1, by simp⟩
  rw [hrun]
  simp only [Option.map_eq_some_iff]
  refine ⟨fun walk => ?_, ?_⟩
  · rw [and_iff_right hheader]
    constructor
    · rintro ⟨s, hs, rfl⟩
      rw [← stateAfter_nil buffer, usbWalkFrom_run] at hs
      obtain ⟨ds, hds, hsizes, rfl⟩ := hs
      exact ⟨ds, hds, hsizes, rfl⟩
    · rintro ⟨ds, hds, hsizes, rfl⟩
      refine ⟨stateAfter buffer ds, ?_, rfl⟩
      rw [← stateAfter_nil buffer, usbWalkFrom_run]
      exact ⟨ds, hds, hsizes, rfl⟩
  · rintro walk ⟨s, hs, rfl⟩
    exact usbWalkFrom_inside (by simp) hs

/-- A keyboard. -/
example : run (fun i => [9, 2, 34, 0, 1, 1, 0, 0xa0, 50, 9, 4, 0, 0, 1, 3, 1, 1, 0, 9, 0x21, 0x11, 1, 0, 1, 0x22, 63, 0,
    7, 5, 0x81, 3, 8, 0, 10].getD i 0) (usbWalkConfiguration 34) =
      some ⟨0, [⟨9, [⟨27, 0x81, 3, 8⟩], some 18⟩], 34⟩ := by decide +kernel

/-- The walk reads past the buffer exactly if it comes to a descriptor at the last byte. -/
theorem usbWalkConfiguration_reads (buffer : Nat → UInt8) (n : Nat) :
    (∀ pos ∈ touched buffer (usbWalkConfiguration n), pos < n) ↔
      ¬ ((4 ≤ n ∧ 4 ≤ (buffer 0).toNat ∧ buffer 1 = usbDescConfiguration) ∧
        ∃ ds, DescriptorChain buffer (n - 1) (buffer 0).toNat ds ∧ RightSizes [] ds) := by
  rcases usbWalkConfiguration_eq buffer n with ⟨-, htouched, hheader⟩ | ⟨-, htouched, hheader⟩
  · exact iff_of_true htouched fun h => hheader h.1
  · have hn := hheader.1
    have hends : 0 < n ∧ 1 < n := by omega
    rw [htouched, and_iff_right hheader, ← usbWalkFrom_touched buffer hends.1, stateAfter_nil]
    simp [hends]

/-- A configuration of ten bytes, with the first byte of a descriptor after the header. -/
def sampleCutConfiguration (i : Nat) : UInt8 := [9, 2, 10, 0, 1, 1, 0, 0x80, 50, 9].getD i 0

theorem sampleCutConfiguration_reads :
    ¬ ∀ pos ∈ touched sampleCutConfiguration (usbWalkConfiguration 10), pos < 10 := by decide +kernel

end Armonios
