import Mathlib
import Armonios.Lib.Scan

/-!
# Messages between processes

The model of `kernel/ipc.c`: eight slots of copied messages, each with the sequence number of its
sending. The order of the messages is not the order of the slots: a send takes the first free slot, and
a receive looks for the least sequence number among the slots of its target. A null pointer is `none`.

`Queues` says what that is for: one queue for each receiver. `ipcRun_queues` is the refinement, for every
list of calls in which the sequence number does not wrap.
-/

namespace Armonios

abbrev ipcMaxMessages : Nat := 8
abbrev ipcMaxMessageSize : Nat := 16

/-- `ipc_message_t`. -/
structure IpcMessage where
  senderPid : UInt32
  targetPid : UInt32
  size : UInt32
  data : Vector UInt8 ipcMaxMessageSize
  deriving DecidableEq

/-- `ipc_slot_t`. -/
structure IpcSlot where
  message : IpcMessage
  sequence : UInt64
  used : Bool
  deriving DecidableEq

abbrev IpcSlotId := Fin ipcMaxMessages

/-- `g_ipc_slots` and `g_ipc_next_sequence`. -/
structure Ipc where
  slots : IpcSlotId → IpcSlot
  nextSequence : UInt64

/-- The bytes of `dest` afterwards; `src` has the byte at each offset. -/
def ipcCopyPayload (src : Nat → UInt8) (size : UInt32) : Vector UInt8 ipcMaxMessageSize :=
  Vector.ofFn fun i => if i.val < size.toNat then src i else 0

/-- A slot after `ipc_clear_slot`. -/
def ipcClearSlot : IpcSlot where
  message := ⟨0, 0, 0, Vector.replicate ipcMaxMessageSize 0⟩
  sequence := 0
  used := false

def ipcFindFreeSlot (s : Ipc) : Option IpcSlotId :=
  (List.finRange ipcMaxMessages).find? fun i => (s.slots i).used = false

def ipcFindOldestTargetSlot (targetPid : UInt32) (s : Ipc) : Option IpcSlotId :=
  scan (fun i => (s.slots i).used = true ∧ (s.slots i).message.targetPid = targetPid)
    (fun i oldest => (s.slots i).sequence.toNat < (s.slots oldest).sequence.toNat)
    (List.finRange ipcMaxMessages)

def ipcInit : Ipc where
  slots _ := ipcClearSlot
  nextSequence := 1

/-- The status, and the queue afterwards. -/
def ipcSend (senderPid targetPid : UInt32) (data : Option (Nat → UInt8)) (size : UInt32) (s : Ipc) :
    Int × Ipc :=
  match data with
  | none => (-1, s)
  | some data =>
    if senderPid = 0 ∨ targetPid = 0 ∨ size = 0 ∨ ipcMaxMessageSize < size.toNat then (-1, s)
    else
      match ipcFindFreeSlot s with
      | none => (-1, s)
      | some i =>
        (0, { slots := Function.update s.slots i
                ⟨⟨senderPid, targetPid, size, ipcCopyPayload data size⟩, s.nextSequence, true⟩
              nextSequence := s.nextSequence + 1 })

/-- The status, `*message` and the queue afterwards. -/
def ipcRecv (targetPid : UInt32) (message : Option IpcMessage) (s : Ipc) :
    Int × Option IpcMessage × Ipc :=
  if targetPid = 0 ∨ message = none then (-1, message, s)
  else
    match ipcFindOldestTargetSlot targetPid s with
    | none => (-1, message, s)
    | some i =>
      let m := (s.slots i).message
      (0, some { m with data := ipcCopyPayload (fun i => m.data.toArray.getD i 0) m.size },
        { s with slots := Function.update s.slots i ipcClearSlot })

/-! ## Calls -/

/-- A call, with its arguments. -/
inductive IpcCall
  | send (senderPid targetPid : UInt32) (data : Option (Nat → UInt8)) (size : UInt32)
  | recv (targetPid : UInt32) (message : Option IpcMessage)

/-- What the caller has afterwards: the status and, for a receive, `*message`. -/
structure IpcReply where
  status : Int
  message : Option IpcMessage
  deriving DecidableEq

def ipcStep (s : Ipc) : IpcCall → IpcReply × Ipc
  | .send senderPid targetPid data size =>
    let (status, s) := ipcSend senderPid targetPid data size s
    (⟨status, none⟩, s)
  | .recv targetPid message =>
    let (status, message, s) := ipcRecv targetPid message s
    (⟨status, message⟩, s)

/-- The replies to the calls, in their order. -/
def ipcRun (s : Ipc) : List IpcCall → List IpcReply × Ipc
  | [] => ([], s)
  | call :: calls =>
    let (reply, s) := ipcStep s call
    let (replies, s) := ipcRun s calls
    (reply :: replies, s)

/-- What the caller's `*message` was before the call. -/
def IpcCall.message : IpcCall → Option IpcMessage
  | .send .. => none
  | .recv _ message => message

theorem ipcSend_fails {senderPid targetPid size : UInt32} {data : Option (Nat → UInt8)} {s : Ipc}
    (h : (ipcSend senderPid targetPid data size s).1 ≠ 0) :
    (ipcSend senderPid targetPid data size s).2 = s := by
  unfold ipcSend at h ⊢
  grind

theorem ipcRecv_fails {targetPid : UInt32} {message : Option IpcMessage} {s : Ipc}
    (h : (ipcRecv targetPid message s).1 ≠ 0) : (ipcRecv targetPid message s).2 = (message, s) := by
  unfold ipcRecv at h ⊢
  grind

/-- A failing call changes nothing. -/
theorem ipcStep_fails {s : Ipc} {call : IpcCall} (h : (ipcStep s call).1.status ≠ 0) :
    (ipcStep s call).1.message = call.message ∧ (ipcStep s call).2 = s := by
  cases call with
  | send senderPid targetPid data size => exact ⟨rfl, ipcSend_fails h⟩
  | recv targetPid message =>
    have hsame := ipcRecv_fails h
    exact ⟨congrArg Prod.fst hsame, congrArg Prod.snd hsame⟩

/-! ## One queue for each receiver -/

/-- The messages that wait for each receiver, the oldest first. -/
abbrev Queues := UInt32 → List IpcMessage

namespace Queues

def empty : Queues := fun _ => []

/-- How many messages wait, over all receivers. -/
def total (q : Queues) : Nat := ∑ t : Fin (2 ^ 32), (q (UInt32.ofFin t)).length

end Queues

/-- The message with the first `size` of the sender's bytes, and zeros behind them. -/
def IpcMessage.sent (senderPid targetPid : UInt32) (data : Nat → UInt8) (size : UInt32) : IpcMessage where
  senderPid := senderPid
  targetPid := targetPid
  size := size
  data := Vector.ofFn fun i => if i.val < size.toNat then data i else 0

/-- The arguments that a send may have. -/
def SendValid (senderPid targetPid size : UInt32) : Prop :=
  senderPid ≠ 0 ∧ targetPid ≠ 0 ∧ 0 < size.toNat ∧ size.toNat ≤ ipcMaxMessageSize

instance (senderPid targetPid size : UInt32) : Decidable (SendValid senderPid targetPid size) := by
  unfold SendValid; infer_instance

namespace Queues

/-- A send appends to the queue of its target, a receive takes the head of the receiver's queue. -/
def step (q : Queues) : IpcCall → IpcReply × Queues
  | .send senderPid targetPid (some data) size =>
    if SendValid senderPid targetPid size ∧ q.total < ipcMaxMessages then
      (⟨0, none⟩, Function.update q targetPid (q targetPid ++ [.sent senderPid targetPid data size]))
    else (⟨-1, none⟩, q)
  | .send _ _ none _ => (⟨-1, none⟩, q)
  | .recv targetPid (some old) =>
    match q targetPid with
    | [] => (⟨-1, some old⟩, q)
    | message :: rest => (⟨0, some message⟩, Function.update q targetPid rest)
  | .recv _ none => (⟨-1, none⟩, q)

def run (q : Queues) : List IpcCall → List IpcReply × Queues
  | [] => ([], q)
  | call :: calls =>
    let (reply, q) := q.step call
    let (replies, q) := run q calls
    (reply :: replies, q)

end Queues

/-- The messages that were sent to `t`, in the order of the sends that succeeded. -/
def sentTo (t : UInt32) (trace : List (IpcCall × IpcReply)) : List IpcMessage :=
  trace.filterMap fun
    | (.send senderPid targetPid (some data) size, reply) =>
      if targetPid = t ∧ reply.status = 0 then some (.sent senderPid targetPid data size) else none
    | _ => none

theorem sentTo_cons (t : UInt32) (x : IpcCall × IpcReply) (trace : List (IpcCall × IpcReply)) :
    sentTo t (x :: trace) = sentTo t [x] ++ sentTo t trace := by
  rw [← List.singleton_append]
  exact List.filterMap_append

/-- The messages that were received for `t`, in order. -/
def receivedBy (t : UInt32) (trace : List (IpcCall × IpcReply)) : List IpcMessage :=
  trace.filterMap fun
    | (.recv targetPid _, reply) => if targetPid = t ∧ reply.status = 0 then reply.message else none
    | _ => none

theorem receivedBy_cons (t : UInt32) (x : IpcCall × IpcReply) (trace : List (IpcCall × IpcReply)) :
    receivedBy t (x :: trace) = receivedBy t [x] ++ receivedBy t trace := by
  rw [← List.singleton_append]
  exact List.filterMap_append

/-! ## What the slots hold -/

/-- The slots in use, the oldest message first; `n` messages have been sent so far. -/
structure Represents (s : Ipc) (n : Nat) (order : List IpcSlotId) (q : Queues) : Prop where
  used : ∀ i, i ∈ order ↔ (s.slots i).used = true
  sorted : order.Pairwise fun i j => (s.slots i).sequence.toNat < (s.slots j).sequence.toNat
  sent : ∀ i ∈ order, (s.slots i).sequence.toNat ≤ n
  next : s.nextSequence = UInt64.ofNat (n + 1)
  queue : ∀ t, q t = (order.filter fun i => (s.slots i).message.targetPid = t).map fun i => (s.slots i).message
  message : ∀ i ∈ order, ∃ senderPid targetPid data size, SendValid senderPid targetPid size ∧
    (s.slots i).message = .sent senderPid targetPid data size

theorem ipcInit_represents : Represents ipcInit 0 [] Queues.empty where
  used i := by simp [ipcInit, ipcClearSlot]
  sorted := List.Pairwise.nil
  sent i hi := by simp at hi
  next := rfl
  queue t := rfl
  message i hi := by simp at hi

theorem length_filter_targets (l : List IpcSlotId) (target : IpcSlotId → UInt32) :
    ∑ t : Fin (2 ^ 32), (l.filter fun i => target i = UInt32.ofFin t).length = l.length := by
  induction l with
  | nil => simp
  | cons i l ih =>
    have hone : ∀ t : Fin (2 ^ 32), ((i :: l).filter fun j => target j = UInt32.ofFin t).length =
        (if t = (target i).toFin then 1 else 0) + (l.filter fun j => target j = UInt32.ofFin t).length := by
      intro t
      have hiff : target i = UInt32.ofFin t ↔ t = (target i).toFin := by
        constructor
        · intro h; simp [h]
        · intro h; simp [h]
      by_cases h : target i = UInt32.ofFin t
      · simp [h, Nat.add_comm]
      · simp [h, mt hiff.mpr h]
    rw [Finset.sum_congr rfl fun t _ => hone t, Finset.sum_add_distrib, ih]
    simp [Nat.add_comm]

namespace Represents

variable {s : Ipc} {n : Nat} {order : List IpcSlotId} {q : Queues} {i : IpcSlotId} {t : UInt32}

theorem total (h : Represents s n order q) : q.total = order.length := by
  have hlength : ∀ t, (q t).length = (order.filter fun i => (s.slots i).message.targetPid = t).length := by
    intro t
    rw [h.queue t, List.length_map]
  simp only [Queues.total, hlength]
  exact length_filter_targets order fun i => (s.slots i).message.targetPid

theorem nodup (h : Represents s n order q) : order.Nodup := by
  refine h.sorted.imp ?_
  intro i j hij heq
  rw [heq] at hij
  exact lt_irrefl _ hij

/-- The slots are full if the queues are. -/
theorem findFree_none (h : Represents s n order q) (hfree : ipcFindFreeSlot s = none) :
    ¬ q.total < ipcMaxMessages := by
  have hall : ∀ i, i ∈ order := by
    intro i
    have hi := List.find?_eq_none.mp hfree i (List.mem_finRange i)
    rw [h.used i]
    simpa using hi
  have hcard : (List.finRange ipcMaxMessages).length ≤ order.length :=
    (List.nodup_finRange _).subperm (fun i _ => hall i) |>.length_le
  rw [h.total]
  simpa using hcard

theorem findFree_some (h : Represents s n order q) (hfree : ipcFindFreeSlot s = some i) :
    i ∉ order ∧ q.total < ipcMaxMessages := by
  have hunused : (s.slots i).used = false := by simpa using List.find?_some hfree
  have hnot : i ∉ order := by simp [h.used i, hunused]
  have hcard := (List.nodup_cons.mpr ⟨hnot, h.nodup⟩).length_le_card
  rw [h.total]
  simp only [List.length_cons, Fintype.card_fin] at hcard
  exact ⟨hnot, hcard⟩

/-- The oldest slot of a target is the first of the order. -/
theorem findOldest (h : Represents s n order q) :
    ipcFindOldestTargetSlot t s = (order.filter fun i => (s.slots i).message.targetPid = t).head? := by
  cases hfind : ipcFindOldestTargetSlot t s with
  | none =>
    have hnone := scan_none.mp hfind
    symm
    rw [List.head?_eq_none_iff, List.filter_eq_nil_iff]
    intro i hi
    have := hnone i (List.mem_finRange i)
    simp [(h.used i).mp hi] at this
    simpa using this
  | some b =>
    unfold ipcFindOldestTargetSlot at hfind
    obtain ⟨-, ⟨hused, htarget⟩, hleast⟩ := scan_least hfind
    have hmem : b ∈ order.filter fun i => (s.slots i).message.targetPid = t := by
      simp [h.used b, hused, htarget]
    have hsorted := h.sorted.filter fun i => (s.slots i).message.targetPid = t
    cases hl : order.filter fun i => (s.slots i).message.targetPid = t with
    | nil => simp [hl] at hmem
    | cons a rest =>
      -- an older slot of the target would have a smaller number than the least
      rw [hl] at hmem hsorted
      rcases List.mem_cons.mp hmem with rfl | hrest
      · rfl
      · have hlt := (List.pairwise_cons.mp hsorted).1 b hrest
        have ha : a ∈ order.filter fun i => (s.slots i).message.targetPid = t := by simp [hl]
        obtain ⟨hao, hat⟩ := List.mem_filter.mp ha
        have hle := hleast a (List.mem_finRange a) ⟨(h.used a).mp hao, by simpa using hat⟩
        exact absurd (lt_of_lt_of_le hlt hle) (lt_irrefl _)

/-- What a receive copies out of a slot is the message of the slot. -/
theorem copy (h : Represents s n order q) (hi : i ∈ order) :
    { (s.slots i).message with
      data := ipcCopyPayload (fun j => (s.slots i).message.data.toArray.getD j 0) (s.slots i).message.size } =
      (s.slots i).message := by
  obtain ⟨senderPid, targetPid, data, size, hvalid, hm⟩ := h.message i hi
  rw [hm]
  simp only [IpcMessage.sent, ipcCopyPayload, IpcMessage.mk.injEq, true_and]
  ext j hj
  by_cases hsize : j < size.toNat <;> simp [hsize]

/-- After a send, the new slot is the last of the order. -/
theorem send (h : Represents s n order q) (hn : n + 1 < 2 ^ 64) (hi : i ∉ order)
    {senderPid targetPid size : UInt32} {data : Nat → UInt8} (hvalid : SendValid senderPid targetPid size) :
    Represents
      { slots := Function.update s.slots i
          ⟨⟨senderPid, targetPid, size, ipcCopyPayload data size⟩, s.nextSequence, true⟩
        nextSequence := s.nextSequence + 1 }
      (n + 1) (order ++ [i])
      (Function.update q targetPid (q targetPid ++ [.sent senderPid targetPid data size])) := by
  have hother : ∀ j ∈ order, j ≠ i := fun j hj heq => hi (heq ▸ hj)
  have hnext : s.nextSequence.toNat = n + 1 := by rw [h.next, UInt64.toNat_ofNat', Nat.mod_eq_of_lt hn]
  constructor
  · intro j
    by_cases hj : j = i
    · simp [hj]
    · simp [hj, h.used j]
  · refine List.pairwise_append.mpr ⟨?_, List.pairwise_singleton _ _, ?_⟩
    · refine h.sorted.imp_of_mem ?_
      intro a b ha hb hab
      simpa [hother a ha, hother b hb] using hab
    · intro a ha b hb
      obtain rfl := List.mem_singleton.mp hb
      have := h.sent a ha
      simp only [Function.update_of_ne (hother a ha), Function.update_self, hnext]
      omega
  · intro j hj
    rcases List.mem_append.mp hj with hj | hj
    · have := h.sent j hj
      simp only [Function.update_of_ne (hother j hj)]
      omega
    · obtain rfl := List.mem_singleton.mp hj
      simp [hnext]
  · simp [h.next, UInt64.ofNat_add]
  · intro t
    have hold : (order.filter fun j => (Function.update s.slots i
          ⟨⟨senderPid, targetPid, size, ipcCopyPayload data size⟩, s.nextSequence, true⟩ j).message.targetPid = t) =
        order.filter fun j => (s.slots j).message.targetPid = t := by
      refine List.filter_congr ?_
      intro j hj
      rw [Function.update_of_ne (hother j hj)]
    have hmap : ((order.filter fun j => (s.slots j).message.targetPid = t).map fun j => (Function.update s.slots i
          ⟨⟨senderPid, targetPid, size, ipcCopyPayload data size⟩, s.nextSequence, true⟩ j).message) = q t := by
      rw [h.queue t]
      refine List.map_congr_left ?_
      intro j hj
      rw [Function.update_of_ne (hother j (List.mem_filter.mp hj).1)]
    simp only [List.filter_append, List.map_append, hold, hmap]
    by_cases ht : t = targetPid
    · subst ht
      simp [IpcMessage.sent, ipcCopyPayload]
    · simp [ht, Ne.symm ht]
  · intro j hj
    rcases List.mem_append.mp hj with hj | hj
    · simpa [Function.update_of_ne (hother j hj)] using h.message j hj
    · obtain rfl := List.mem_singleton.mp hj
      exact ⟨senderPid, targetPid, data, size, hvalid, by simp [IpcMessage.sent, ipcCopyPayload]⟩

/-- A receive takes its slot out of the order and leaves the others where they are. -/
theorem recv (h : Represents s n order q) {rest : List IpcSlotId}
    (hhead : (order.filter fun j => (s.slots j).message.targetPid = t) = i :: rest) :
    Represents { s with slots := Function.update s.slots i ipcClearSlot } n (order.filter (· ≠ i))
      (Function.update q t (rest.map fun j => (s.slots j).message)) := by
  have hi : i ∈ order ∧ (s.slots i).message.targetPid = t := by
    have : i ∈ order.filter fun j => (s.slots j).message.targetPid = t := by simp [hhead]
    simpa using this
  have hother : ∀ j ∈ order.filter (· ≠ i), j ∈ order ∧ j ≠ i := by
    intro j hj
    simpa using hj
  constructor
  · intro j
    by_cases hj : j = i
    · simp [hj, ipcClearSlot]
    · simp [hj, h.used j]
  · refine (h.sorted.filter _).imp_of_mem ?_
    intro a b ha hb hab
    simpa [Function.update_of_ne (hother a ha).2, Function.update_of_ne (hother b hb).2] using hab
  · intro j hj
    simp only [Function.update_of_ne (hother j hj).2]
    exact h.sent j (hother j hj).1
  · exact h.next
  · intro u
    have hold : ((order.filter (· ≠ i)).filter fun j =>
          (Function.update s.slots i ipcClearSlot j).message.targetPid = u) =
        (order.filter fun j => (s.slots j).message.targetPid = u).filter (· ≠ i) := by
      rw [List.filter_filter, List.filter_filter]
      refine List.filter_congr ?_
      intro j _
      by_cases hj : j = i <;> simp [hj]
    have hmap : (((order.filter fun j => (s.slots j).message.targetPid = u).filter (· ≠ i)).map fun j =>
          (Function.update s.slots i ipcClearSlot j).message) =
        ((order.filter fun j => (s.slots j).message.targetPid = u).filter (· ≠ i)).map fun j =>
          (s.slots j).message := by
      refine List.map_congr_left ?_
      intro j hj
      have hne : j ≠ i := by simpa using (List.mem_filter.mp hj).2
      rw [Function.update_of_ne hne]
    rw [hold, hmap]
    by_cases hu : u = t
    · -- the head of the queue goes, and it is nowhere else in it
      subst hu
      have hnodup : (i :: rest).Nodup := hhead ▸ h.nodup.filter _
      have hrest : rest.filter (· ≠ i) = rest := by
        rw [List.filter_eq_self]
        intro j hj
        simpa using fun heq : j = i => (List.nodup_cons.mp hnodup).1 (heq ▸ hj)
      simp only [Function.update_self, hhead]
      rw [List.filter_cons_of_neg (by simp), hrest]
    · rw [Function.update_of_ne hu, h.queue u]
      congr 1
      symm
      rw [List.filter_eq_self]
      intro j hj
      have hju : (s.slots j).message.targetPid = u := by simpa using (List.mem_filter.mp hj).2
      have hne : j ≠ i := by
        rintro rfl
        exact hu (hju ▸ hi.2)
      simpa using hne
  · intro j hj
    simpa [Function.update_of_ne (hother j hj).2] using h.message j (hother j hj).1

/-- One call: the reply is that of the queues, and the slots go on representing them. -/
theorem step (h : Represents s n order q) (hn : n + 1 < 2 ^ 64) (call : IpcCall) :
    (ipcStep s call).1 = (q.step call).1 ∧
      ∃ m ≤ n + 1, ∃ order', Represents (ipcStep s call).2 m order' (q.step call).2 := by
  have hsame : ∃ m ≤ n + 1, ∃ order', Represents s m order' q := ⟨n, by omega, order, h⟩
  cases call with
  | send senderPid targetPid data size =>
    cases data with
    | none => exact ⟨rfl, hsame⟩
    | some data =>
      have hvalid : SendValid senderPid targetPid size ↔
          ¬ (senderPid = 0 ∨ targetPid = 0 ∨ size = 0 ∨ ipcMaxMessageSize < size.toNat) := by
        have hsize : size = 0 ↔ size.toNat = 0 := by rw [← UInt32.toNat_inj]; rfl
        rw [hsize]
        grind [SendValid]
      simp only [ipcStep, ipcSend, Queues.step]
      by_cases hargs : SendValid senderPid targetPid size
      · rw [if_neg (hvalid.mp hargs)]
        cases hfree : ipcFindFreeSlot s with
        | none =>
          rw [if_neg fun hroom => h.findFree_none hfree hroom.2]
          exact ⟨rfl, hsame⟩
        | some i =>
          obtain ⟨hi, hroom⟩ := h.findFree_some hfree
          rw [if_pos ⟨hargs, hroom⟩]
          exact ⟨rfl, n + 1, le_rfl, order ++ [i], h.send hn hi hargs⟩
      · rw [if_pos (not_not.mp (mt hvalid.mpr hargs)), if_neg fun hboth => hargs hboth.1]
        exact ⟨rfl, hsame⟩
  | recv targetPid message =>
    cases message with
    | none => simpa [ipcStep, ipcRecv, Queues.step] using hsame
    | some old =>
      have hqueue := h.queue targetPid
      have hfind : ipcFindOldestTargetSlot targetPid s = _ := h.findOldest
      cases hl : order.filter fun i => (s.slots i).message.targetPid = targetPid with
      | nil =>
        rw [hl] at hqueue hfind
        simpa [ipcStep, ipcRecv, Queues.step, hqueue, hfind] using hsame
      | cons i rest =>
        have hi : i ∈ order.filter fun i => (s.slots i).message.targetPid = targetPid := by simp [hl]
        obtain ⟨hio, hit⟩ := List.mem_filter.mp hi
        have hzero : targetPid ≠ 0 := by
          obtain ⟨senderPid, target, data, size, hvalid, hm⟩ := h.message i hio
          rw [hm] at hit
          have : target = targetPid := of_decide_eq_true hit
          exact this ▸ hvalid.2.1
        have hrecv := h.recv hl
        rw [hl] at hqueue hfind
        simp only [ipcStep, ipcRecv, Queues.step, hqueue, hfind, List.head?_cons, List.map_cons]
        simp only [hzero, false_or, reduceCtorEq, if_false]
        exact ⟨by rw [h.copy hio], n, by omega, _, hrecv⟩

end Represents

theorem ipcRun_represents {calls : List IpcCall} {s : Ipc} {n : Nat} {order : List IpcSlotId} {q : Queues}
    (h : Represents s n order q) (hn : n + calls.length < 2 ^ 64) :
    (ipcRun s calls).1 = (q.run calls).1 := by
  induction calls generalizing s n order q with
  | nil => rfl
  | cons call calls ih =>
    rw [List.length_cons] at hn
    obtain ⟨hreply, m, hm, order', hnext⟩ := h.step (by omega) call
    have hrest := ih hnext (by omega)
    simp only [ipcRun, Queues.run, hreply, hrest]

namespace Queues

/-- One call: what was queued or is sent is what is received or is still queued. -/
theorem step_conserves (q : Queues) (call : IpcCall) (t : UInt32) :
    q t ++ sentTo t [(call, (q.step call).1)] = receivedBy t [(call, (q.step call).1)] ++ (q.step call).2 t := by
  cases call with
  | send senderPid targetPid data size =>
    cases data with
    | none => simp [step, sentTo, receivedBy]
    | some data =>
      by_cases hok : SendValid senderPid targetPid size ∧ q.total < ipcMaxMessages
      · by_cases ht : targetPid = t
        · subst ht
          simp [step, sentTo, receivedBy, hok]
        · simp [step, sentTo, receivedBy, hok, ht, Ne.symm ht]
      · simp [step, sentTo, receivedBy, hok]
  | recv targetPid message =>
    cases message with
    | none => simp [step, sentTo, receivedBy]
    | some old =>
      cases hq : q targetPid with
      | nil => simp [step, sentTo, receivedBy, hq]
      | cons message rest =>
        by_cases ht : targetPid = t
        · subst ht
          simp [step, sentTo, receivedBy, hq]
        · simp [step, sentTo, receivedBy, hq, ht, Ne.symm ht]

/-- Over a run no message is lost, doubled, reordered or delivered to another receiver. -/
theorem run_conserves (q : Queues) (calls : List IpcCall) (t : UInt32) :
    q t ++ sentTo t (calls.zip (q.run calls).1) =
      receivedBy t (calls.zip (q.run calls).1) ++ (q.run calls).2 t := by
  induction calls generalizing q with
  | nil => simp [run, sentTo, receivedBy]
  | cons call calls ih =>
    have hone := q.step_conserves call t
    have hrest := ih (q.step call).2
    simp only [run, List.zip_cons_cons]
    rw [sentTo_cons, receivedBy_cons, ← List.append_assoc, hone, List.append_assoc, hrest, List.append_assoc]

end Queues

/-- The slots refine one queue for each receiver. -/
theorem ipcRun_queues (calls : List IpcCall) (hcalls : calls.length < 2 ^ 64) :
    (ipcRun ipcInit calls).1 = (Queues.empty.run calls).1 ∧
      (∀ t, sentTo t (calls.zip (ipcRun ipcInit calls).1) =
        receivedBy t (calls.zip (ipcRun ipcInit calls).1) ++ (Queues.empty.run calls).2 t) ∧
      ∀ before call after, calls = before ++ call :: after →
        (ipcStep (ipcRun ipcInit before).2 call).1.status ≠ 0 →
        (ipcStep (ipcRun ipcInit before).2 call).1.message = call.message ∧
          (ipcStep (ipcRun ipcInit before).2 call).2 = (ipcRun ipcInit before).2 := by
  have hreplies := ipcRun_represents ipcInit_represents (by rwa [Nat.zero_add])
  refine ⟨hreplies, ?_, ?_⟩
  · intro t
    rw [hreplies]
    simpa [Queues.empty] using Queues.empty.run_conserves calls t
  · intro before call after _ hfails
    exact ipcStep_fails hfails


/-- Two receivers whose messages come and go in another order than the slots. -/
def sampleIpcCalls : List IpcCall :=
  [.send 1 2 (some fun _ => 7) 1, .send 1 3 (some fun _ => 8) 2, .recv 2 none,
    .recv 2 (some ipcClearSlot.message), .send 4 3 (some fun _ => 9) 3, .recv 3 (some ipcClearSlot.message),
    .send 0 3 (some fun _ => 9) 3, .recv 3 (some ipcClearSlot.message), .recv 3 (some ipcClearSlot.message)]

theorem ipcRun_queues_sample :
    (Queues.empty.run sampleIpcCalls).1.map (·.status) = [0, 0, -1, 0, 0, 0, -1, 0, -1] ∧
      sentTo 3 (sampleIpcCalls.zip (ipcRun ipcInit sampleIpcCalls).1) =
        [.sent 1 3 (fun _ => 8) 2, .sent 4 3 (fun _ => 9) 3] := by
  obtain ⟨hreplies, -, -⟩ := ipcRun_queues sampleIpcCalls (by decide)
  rw [← hreplies]
  decide

end Armonios
