import Armonios.Lib.LapRing
import Armonios.Lib.Run

/-!
# The rings of the xHCI driver

`ring_push` of `drivers/usb/xhci.c` with a consumer that follows the specification, and `event_next` with a producer that
does. Each store of a field is a step, and the other party may come in between.

* `pushNext_inv`: what holds at each store of a push;
* `eventNext_inv`: what holds at each load of an event.

The last place of a producer ring is a Link TRB. It has the bit of the lap that was completed last, so a consumer that
still stands there a lap later does not pass it (`linkRun_stuck`).
-/

namespace Armonios

/-- `xhci_trb_t`. -/
structure Trb where
  parameter : BitVec 64
  status : BitVec 32
  control : BitVec 32
  deriving DecidableEq

def xhciTrbCycle : BitVec 32 := 1
def xhciTrbTc : BitVec 32 := 2
def xhciTrbLink : BitVec 32 := 6

/-- `trb_type`. -/
def trbType (type : BitVec 32) : BitVec 32 := type <<< 10

/-- `trb_get_type`. -/
def trbGetType (control : BitVec 32) : BitVec 32 := (control &&& 0x3f <<< 10) >>> 10

/-- The cycle bit. -/
def Trb.cycle (trb : Trb) : Bool := trb.control.getLsbD 0

/-- The fields without the cycle bit. -/
def Trb.fields (trb : Trb) : Trb := { trb with control := trb.control &&& ~~~xhciTrbCycle }

/-- The control word of a cycle. -/
def cycleBit (cycle : Bool) : BitVec 32 := if cycle then xhciTrbCycle else 0

/-! ## The producer -/

/-- What is stored next. -/
inductive PushPc
  | out
  | parameter (trb : Trb)
  | status (trb : Trb)
  | control (trb : Trb)
  | advance
  | linkParameter
  | linkStatus
  | linkControl
  | wrap
  deriving DecidableEq

/-- `xhci_ring_t` at the address `base`, its storage, and the consumer. `pushed` are the TRBs that the cycle bit has
given to the consumer, and `seen` those that it has consumed. -/
structure PushRing where
  base : BitVec 64
  size : Nat
  trbs : Nat → Trb
  enqueue : Nat
  cycle : Bool
  pc : PushPc
  dequeue : Nat
  consumerCycle : Bool
  pushed : List Trb
  seen : List Trb

/-- `ring_init`, and a consumer at its start. -/
def ringInit (base : BitVec 64) (size : Nat) : PushRing where
  base := base
  size := size
  trbs := Function.update (fun _ => ⟨0, 0, 0⟩) (size - 1) ⟨base, 0, trbType xhciTrbLink ||| xhciTrbTc ||| xhciTrbCycle⟩
  enqueue := 0
  cycle := true
  pc := .out
  dequeue := 0
  consumerCycle := true
  pushed := []
  seen := []

inductive PushEvent
  | push (trb : Trb)
  | run
  | consume
  deriving DecidableEq

/-- The call of `ring_push`. -/
def pushCall (trb : Trb) (s : PushRing) : PushRing :=
  if s.size - 1 ≤ s.enqueue then s else { s with pc := .parameter trb }

/-- The next store of `ring_push`. -/
def pushRun (s : PushRing) : PushRing :=
  let store (i : Nat) (trb : Trb) := Function.update s.trbs i trb
  let here := s.trbs s.enqueue
  let link := s.trbs (s.size - 1)
  match s.pc with
  | .out => s
  | .parameter trb => { s with trbs := store s.enqueue { here with parameter := trb.parameter }, pc := .status trb }
  | .status trb => { s with trbs := store s.enqueue { here with status := trb.status }, pc := .control trb }
  | .control trb =>
    -- the consumer has the TRB from here on
    { s with
      trbs := store s.enqueue { here with control := trb.control ||| cycleBit s.cycle }
      pc := .advance
      pushed := s.pushed ++ [trb] }
  | .advance => { s with enqueue := s.enqueue + 1, pc := if s.enqueue + 1 = s.size - 1 then .linkParameter else .out }
  | .linkParameter => { s with trbs := store (s.size - 1) { link with parameter := s.base }, pc := .linkStatus }
  | .linkStatus => { s with trbs := store (s.size - 1) { link with status := 0 }, pc := .linkControl }
  | .linkControl =>
    { s with
      trbs := store (s.size - 1) { link with control := trbType xhciTrbLink ||| xhciTrbTc ||| cycleBit s.cycle }
      pc := .wrap }
  | .wrap => { s with enqueue := 0, cycle := !s.cycle, pc := .out }

/-- The consumer can go on. -/
def PushRing.ready (s : PushRing) : Bool := (s.trbs s.dequeue).cycle = s.consumerCycle

/-- The consumer takes the TRB at its place, or follows a Link TRB. -/
def pushConsume (s : PushRing) : PushRing :=
  let trb := s.trbs s.dequeue
  if trb.cycle ≠ s.consumerCycle then s
  else if trbGetType trb.control = xhciTrbLink then
    { s with
      dequeue := (trb.parameter - s.base).toNat / 16
      consumerCycle := if trb.control &&& xhciTrbTc ≠ 0 then !s.consumerCycle else s.consumerCycle }
  else { s with dequeue := s.dequeue + 1, seen := s.seen ++ [trb] }

def pushNext (s : PushRing) : PushEvent → PushRing
  | .push trb => if s.pc = .out then pushCall trb s else s
  | .run => pushRun s
  | .consume => pushConsume s

/-- What the callers of `ring_push` pass: no cycle bit, and no Link TRB. -/
def WorkTrb (trb : Trb) : Prop := trb.control &&& xhciTrbCycle = 0 ∧ trbGetType trb.control ≠ xhciTrbLink

instance (trb : Trb) : Decidable (WorkTrb trb) := by unfold WorkTrb; infer_instance

/-- A push leaves no more than `size - 1` TRBs to the consumer. -/
def PushBounded (s : PushRing) : PushEvent → Prop
  | .push trb => WorkTrb trb ∧ s.pushed.length + 1 ≤ s.seen.length + (s.size - 1)
  | _ => True

instance (s : PushRing) : ∀ e, Decidable (PushBounded s e)
  | .push trb => inferInstanceAs (Decidable (WorkTrb trb ∧ s.pushed.length + 1 ≤ s.seen.length + (s.size - 1)))
  | .run => isTrue trivial
  | .consume => isTrue trivial

/-- And the Link TRB is not rewritten under the consumer. -/
def PushAdmissible (s : PushRing) (e : PushEvent) : Prop :=
  PushBounded s e ∧ ∀ trb, e = .push trb → s.enqueue + 2 = s.size → s.dequeue ≠ s.size - 1

instance (s : PushRing) : ∀ e, Decidable (PushAdmissible s e)
  | .push trb => decidable_of_iff (PushBounded s (.push trb) ∧ (s.enqueue + 2 = s.size → s.dequeue ≠ s.size - 1))
      ⟨fun h => ⟨h.1, fun _ _ => h.2⟩, fun h => ⟨h.1, h.2 trb rfl⟩⟩
  | .run => isTrue ⟨trivial, fun _ h => nomatch h⟩
  | .consume => isTrue ⟨trivial, fun _ h => nomatch h⟩

/-- The consumer has seen the first of the pushed TRBs, each as it was pushed, and all of them when it has to wait. -/
structure SeesPushed (s : PushRing) : Prop where
  seen : s.seen.map Trb.fields = s.pushed.take s.seen.length
  waits : s.ready = false → s.seen.length = s.pushed.length

/-! ### The invariant -/

/-- The pushed TRB with the cycle bit of its lap. -/
def onLap (cap k : Nat) (trb : Trb) : Trb := { trb with control := trb.control ||| cycleBit (lapBit cap k) }

/-- The Link TRB after the laps that were linked; a new ring has that of the first lap. -/
def linkTrb (base : BitVec 64) (laps : Nat) : Trb :=
  ⟨base, 0, trbType xhciTrbLink ||| xhciTrbTc ||| cycleBit (lapParity (laps - 1))⟩

/-- How many laps the Link TRB was written for, after `n` TRBs. -/
def lapsLinked (cap n : Nat) : PushPc → Nat
  | .advance | .linkParameter | .linkStatus | .linkControl => (n - 1) / cap
  | _ => n / cap

/-- What holds at each store, with `cap` places for TRBs. -/
def PushAtPc (s : PushRing) (cap : Nat) : PushPc → Prop
  | .out => s.enqueue = s.pushed.length % cap ∧ s.cycle = lapBit cap s.pushed.length
  | .parameter trb => s.enqueue = s.pushed.length % cap ∧ s.cycle = lapBit cap s.pushed.length ∧ WorkTrb trb ∧
      s.pushed.length < s.seen.length + cap ∧ (s.pushed.length % cap + 1 = cap → s.dequeue ≠ cap)
  | .status trb => s.enqueue = s.pushed.length % cap ∧ s.cycle = lapBit cap s.pushed.length ∧ WorkTrb trb ∧
      s.pushed.length < s.seen.length + cap ∧ (s.pushed.length % cap + 1 = cap → s.dequeue ≠ cap) ∧
      (s.trbs s.enqueue).parameter = trb.parameter
  | .control trb => s.enqueue = s.pushed.length % cap ∧ s.cycle = lapBit cap s.pushed.length ∧ WorkTrb trb ∧
      s.pushed.length < s.seen.length + cap ∧ (s.pushed.length % cap + 1 = cap → s.dequeue ≠ cap) ∧
      (s.trbs s.enqueue).parameter = trb.parameter ∧ (s.trbs s.enqueue).status = trb.status
  | .advance => 0 < s.pushed.length ∧ s.enqueue = (s.pushed.length - 1) % cap ∧
      s.cycle = lapBit cap (s.pushed.length - 1)
  | .linkParameter | .linkStatus | .linkControl | .wrap => 0 < s.pushed.length ∧ s.pushed.length % cap = 0 ∧
      s.cycle = lapBit cap (s.pushed.length - 1)

/-- The consumer is at a TRB, or at the Link TRB behind a lap. -/
def ConsumerAt (s : PushRing) (cap : Nat) : Prop :=
  (s.dequeue = s.seen.length % cap ∧ s.consumerCycle = lapBit cap s.seen.length) ∨
    (s.dequeue = cap ∧ 0 < s.seen.length ∧ s.seen.length % cap = 0 ∧
      s.consumerCycle = lapBit cap (s.seen.length - 1) ∧ s.pushed.length < s.seen.length + cap)

structure PushInv (s : PushRing) (cap : Nat) : Prop where
  pos : 0 < cap
  size : s.size = cap + 1
  work : ∀ trb ∈ s.pushed, WorkTrb trb
  ring : LapRing Trb.cycle cap s.trbs (s.pushed.mapIdx (onLap cap)) s.seen.length
  le : s.seen.length ≤ s.pushed.length
  room : s.pushed.length ≤ s.seen.length + cap
  seen : s.seen = (s.pushed.mapIdx (onLap cap)).take s.seen.length
  link : s.trbs cap = linkTrb s.base (lapsLinked cap s.pushed.length s.pc)
  consumer : ConsumerAt s cap
  atPc : PushAtPc s cap s.pc

/-! ### TRBs -/

section Trbs

variable {cap k : Nat} {trb : Trb}

@[simp] theorem cycleBit_lsb (cycle : Bool) : (cycleBit cycle).getLsbD 0 = cycle := by
  cases cycle <;> rfl

theorem WorkTrb.cycle (h : WorkTrb trb) : trb.cycle = false := by
  have hbit := congrArg (fun x => x.getLsbD 0) h.1
  simpa [xhciTrbCycle, Trb.cycle] using hbit

theorem onLap_cycle (h : trb.cycle = false) : (onLap cap k trb).cycle = lapBit cap k := by
  unfold Trb.cycle at h
  rw [Trb.cycle, onLap, BitVec.getLsbD_or, h, cycleBit_lsb, Bool.false_or]

/-- The cycle bit is not part of the type. -/
theorem trbGetType_cycle (control : BitVec 32) (cycle : Bool) :
    trbGetType (control ||| cycleBit cycle) = trbGetType control := by
  have hbit : cycleBit cycle &&& 0x3f <<< 10 = 0 := by
    cases cycle <;> rfl
  unfold trbGetType
  rw [BitVec.and_or_distrib_right, hbit]
  simp

theorem onLap_fields (h : trb.cycle = false) : (onLap cap k trb).fields = trb := by
  have hhigh : ∀ cycle, ∀ i < 32, i ≠ 0 → (cycleBit cycle).getLsbD i = false ∧ (~~~xhciTrbCycle).getLsbD i = true := by
    decide
  unfold onLap Trb.fields
  unfold Trb.cycle at h
  obtain ⟨parameter, status, control⟩ := trb
  congr 1
  refine BitVec.eq_of_getLsbD_eq fun i hi => ?_
  rw [BitVec.getLsbD_and, BitVec.getLsbD_or]
  by_cases h0 : i = 0
  · subst h0
    rw [h]
    simp [xhciTrbCycle]
  · rw [(hhigh _ i hi h0).1, (hhigh true i hi h0).2, Bool.or_false, Bool.and_true]

theorem linkTrb_cycle (base : BitVec 64) (laps : Nat) : (linkTrb base laps).cycle = lapParity (laps - 1) := by
  unfold linkTrb Trb.cycle
  dsimp only
  cases lapParity (laps - 1) <;> decide

theorem linkTrb_type (base : BitVec 64) (laps : Nat) : trbGetType (linkTrb base laps).control = xhciTrbLink := by
  unfold linkTrb
  dsimp only
  cases lapParity (laps - 1) <;> decide

theorem linkTrb_tc (base : BitVec 64) (laps : Nat) : (linkTrb base laps).control &&& xhciTrbTc ≠ 0 := by
  unfold linkTrb
  dsimp only
  cases lapParity (laps - 1) <;> decide

end Trbs

/-! ### Steps -/

section Steps

variable {s : PushRing} {cap : Nat} {trb : Trb}

theorem length_log (s : PushRing) (cap : Nat) : (s.pushed.mapIdx (onLap cap)).length = s.pushed.length :=
  List.length_mapIdx

/-- A store to the Link TRB leaves the others. -/
theorem PushInv.ring_link (h : PushInv s cap) (trb : Trb) :
    LapRing Trb.cycle cap (Function.update s.trbs cap trb) (s.pushed.mapIdx (onLap cap)) s.seen.length :=
  h.ring.congr h.pos fun _ hi => Function.update_of_ne (Nat.ne_of_lt hi) ..

/-- A store to the place of the next TRB that leaves its cycle bit. -/
theorem PushInv.ring_store (h : PushInv s cap) (hroom : s.pushed.length < s.seen.length + cap)
    (hcycle : trb.cycle = (s.trbs (s.pushed.length % cap)).cycle) :
    LapRing Trb.cycle cap (Function.update s.trbs (s.pushed.length % cap) trb) (s.pushed.mapIdx (onLap cap))
      s.seen.length := by
  have hwrite := h.ring.write (a := trb) (by rwa [length_log]) (by rwa [length_log])
  rwa [length_log] at hwrite

/-- The Link TRB is not at the place of a TRB. -/
theorem link_store (h : PushInv s cap) (n : Nat) (trb : Trb) : Function.update s.trbs (n % cap) trb cap = s.trbs cap :=
  Function.update_of_ne (Nat.ne_of_lt (Nat.mod_lt n h.pos)).symm ..

theorem pushCall_inv (h : PushInv s cap) (hpc : s.pc = .out) (hadm : PushAdmissible s (.push trb)) :
    PushInv (pushCall trb s) cap := by
  have hat := h.atPc
  rw [hpc] at hat
  obtain ⟨henqueue, hcycle⟩ := hat
  have hlt := Nat.mod_lt s.pushed.length h.pos
  have hlink := h.link
  rw [hpc] at hlink
  obtain ⟨⟨hwork, hbound⟩, hstands⟩ := hadm
  rw [h.size] at hbound hstands
  have hfits : ¬ s.size - 1 ≤ s.enqueue := by
    rw [h.size, henqueue]
    omega
  unfold pushCall
  rw [if_neg hfits]
  refine ⟨h.pos, h.size, h.work, h.ring, h.le, h.room, h.seen, hlink, h.consumer, henqueue, hcycle, hwork, ?_, ?_⟩
  · dsimp only
    omega
  · intro hlast
    exact hstands trb rfl (by rw [henqueue]; dsimp only at hlast; omega)

/-- The next store of a push keeps the invariant. -/
theorem pushRun_inv (h : PushInv s cap) : PushInv (pushRun s) cap := by
  have hat := h.atPc
  have hsize : s.size - 1 = cap := by rw [h.size]; rfl
  have hlink := h.link
  unfold pushRun
  rw [hsize]
  cases hpc : s.pc <;> rw [hpc] at hat hlink <;> dsimp only
  case out => exact h
  case parameter trb =>
    obtain ⟨henqueue, hcycle, hwork, hroom, hstands⟩ := hat
    rw [henqueue]
    refine ⟨h.pos, h.size, h.work, h.ring_store hroom rfl, h.le, h.room, h.seen, ?_, h.consumer, rfl, hcycle,
      hwork, hroom,
      hstands, ?_⟩
    · exact (link_store h _ _).trans hlink
    · dsimp only
      rw [Function.update_self]
  case status trb =>
    obtain ⟨henqueue, hcycle, hwork, hroom, hstands, hparameter⟩ := hat
    rw [henqueue] at hparameter ⊢
    refine ⟨h.pos, h.size, h.work, h.ring_store hroom rfl, h.le, h.room, h.seen, ?_, h.consumer, rfl, hcycle,
      hwork, hroom,
      hstands, ?_, ?_⟩
    · exact (link_store h _ _).trans hlink
    · dsimp only
      rw [Function.update_self]
      exact hparameter
    · dsimp only
      rw [Function.update_self]
  case control trb =>
    obtain ⟨henqueue, hcycle, hwork, hroom, hstands, hparameter, hstatus⟩ := hat
    rw [henqueue] at hparameter hstatus ⊢
    have htrb : ({ s.trbs (s.pushed.length % cap) with control := trb.control ||| cycleBit s.cycle } : Trb) =
        onLap cap s.pushed.length trb := by
      rw [onLap, ← hcycle]
      cases hs : s.trbs (s.pushed.length % cap)
      simp_all
    rw [htrb]
    have hpush := h.ring.push h.pos (by rwa [length_log]) (by rw [length_log]; exact onLap_cycle hwork.cycle)
    rw [length_log] at hpush
    refine ⟨h.pos, h.size, ?_, ?_, ?_, ?_, ?_, ?_, ?_, ?_⟩
    · intro t ht
      rcases List.mem_append.mp ht with ht | ht
      · exact h.work t ht
      · rw [List.mem_singleton.mp ht]
        exact hwork
    · dsimp only
      rw [List.mapIdx_concat]
      exact hpush
    · dsimp only
      rw [List.length_append]
      exact Nat.le_trans h.le (Nat.le_add_right _ _)
    · dsimp only
      rw [List.length_append, List.length_singleton]
      exact hroom
    · dsimp only
      rw [List.mapIdx_concat, List.take_append_of_le_length (by rw [length_log]; exact h.le)]
      exact h.seen
    · dsimp only
      rw [link_store h, hlink, List.length_append, List.length_singleton]
      rfl
    · -- the consumer is not a whole lap behind at the Link TRB
      rcases h.consumer with hc | ⟨hd, hpos, hmod, hcc, hlt⟩
      · exact .inl hc
      · refine .inr ⟨hd, hpos, hmod, hcc, ?_⟩
        dsimp only
        rw [List.length_append, List.length_singleton]
        by_contra hfull
        have hn : s.pushed.length + 1 = s.seen.length + cap := by omega
        have hlast : s.pushed.length % cap + 1 = cap := by
          by_contra hne
          have hstay := (succ_stays h.pos hne).1
          rw [hn, Nat.add_mod_right, hmod] at hstay
          omega
        exact hstands hlast hd
    · refine ⟨?_, ?_, ?_⟩
      · simp
      · simp
      · simpa using hcycle
  case advance =>
    obtain ⟨hpos, henqueue, hcycle⟩ := hat
    obtain ⟨k, hk⟩ : ∃ k, s.pushed.length = k + 1 := ⟨s.pushed.length - 1, by omega⟩
    rw [hk, Nat.add_sub_cancel] at henqueue hcycle
    by_cases hlast : s.enqueue + 1 = cap
    · rw [if_pos hlast]
      rw [henqueue] at hlast
      refine ⟨h.pos, h.size, h.work, h.ring, h.le, h.room, h.seen, hlink, h.consumer, hpos, ?_, ?_⟩
      · rw [hk]
        exact (succ_wraps hlast).1
      · rw [hk]
        exact hcycle
    · rw [if_neg hlast]
      rw [henqueue] at hlast
      obtain ⟨hmod, hdiv⟩ := succ_stays h.pos hlast
      refine ⟨h.pos, h.size, h.work, h.ring, h.le, h.room, h.seen, ?_, h.consumer, ?_, ?_⟩
      · rw [hk] at hlink ⊢
        simp only [lapsLinked, Nat.add_sub_cancel] at hlink ⊢
        rw [hdiv]
        exact hlink
      · dsimp only
        rw [hk, hmod, henqueue]
      · dsimp only
        rw [hk, hcycle, lapBit, lapBit, hdiv]
  case linkParameter =>
    refine ⟨h.pos, h.size, h.work, h.ring_link _, h.le, h.room, h.seen, ?_, h.consumer, hat⟩
    dsimp only
    rw [Function.update_self, hlink]
    rfl
  case linkStatus =>
    refine ⟨h.pos, h.size, h.work, h.ring_link _, h.le, h.room, h.seen, ?_, h.consumer, hat⟩
    dsimp only
    rw [Function.update_self, hlink]
    rfl
  case linkControl =>
    obtain ⟨hpos, hmod, hcycle⟩ := hat
    refine ⟨h.pos, h.size, h.work, h.ring_link _, h.le, h.room, h.seen, ?_, h.consumer, hpos, hmod, hcycle⟩
    have hlap : lapsLinked cap s.pushed.length .wrap - 1 = (s.pushed.length - 1) / cap := by
      show s.pushed.length / cap - 1 = _
      rw [(lap_end h.pos hpos hmod).1, Nat.add_sub_cancel]
    dsimp only
    rw [Function.update_self, hlink, hcycle, linkTrb, linkTrb, hlap]
    rfl
  case wrap =>
    obtain ⟨hpos, hmod, hcycle⟩ := hat
    refine ⟨h.pos, h.size, h.work, h.ring, h.le, h.room, h.seen, hlink, h.consumer, hmod.symm, ?_⟩
    dsimp only
    rw [hcycle, (lap_end h.pos hpos hmod).2]

/-- The consumer goes on at a TRB exactly if one is there. -/
theorem PushInv.ready_iff (h : PushInv s cap) (hd : s.dequeue = s.seen.length % cap)
    (hcc : s.consumerCycle = lapBit cap s.seen.length) : s.ready = true ↔ s.seen.length < s.pushed.length := by
  have hready := h.ring.ready_iff h.pos (by rw [length_log]; exact h.le)
  rw [length_log] at hready
  rw [PushRing.ready, hd, hcc, decide_eq_true_iff]
  exact hready

/-- A consumer at the Link TRB goes on, unless a lap is being completed, which it has seen. -/
theorem PushInv.link_ready (h : PushInv s cap) (hpos : 0 < s.seen.length) (hmod : s.seen.length % cap = 0)
    (hcc : s.consumerCycle = lapBit cap (s.seen.length - 1)) (hlt : s.pushed.length < s.seen.length + cap)
    (hwaits : s.seen.length < s.pushed.length) : (s.trbs cap).cycle = s.consumerCycle := by
  have hle := h.le
  -- the producer is in the lap behind the Link TRB
  have hdiv : ∀ n, s.seen.length ≤ n → n < s.seen.length + cap → n / cap = s.seen.length / cap := by
    intro n hn hn'
    have hmul : cap * (s.seen.length / cap) = s.seen.length := Nat.mul_div_cancel' (Nat.dvd_of_mod_eq_zero hmod)
    have hsplit : n = n - s.seen.length + cap * (s.seen.length / cap) := by omega
    rw [hsplit, Nat.add_mul_div_left _ _ h.pos, Nat.div_eq_of_lt (by omega), Nat.zero_add]
  have hlaps : lapsLinked cap s.pushed.length s.pc = s.seen.length / cap := by
    unfold lapsLinked
    split <;> exact hdiv _ (by omega) (by omega)
  rw [h.link, linkTrb_cycle, hlaps, hcc, (lap_end h.pos hpos hmod).1, Nat.add_sub_cancel]
  rfl

/-- A step of the consumer leaves the push where it is. -/
theorem PushAtPc.consume {pc : PushPc} (h : PushAtPc s cap pc) {dequeue : Nat} {seen : List Trb} (consumerCycle : Bool)
    (hle : s.seen.length ≤ seen.length)
    (hstands : s.pushed.length < s.seen.length + cap → s.pushed.length % cap + 1 = cap → dequeue ≠ cap) :
    PushAtPc { s with dequeue := dequeue, consumerCycle := consumerCycle, seen := seen } cap pc := by
  cases pc with
  | out => exact h
  | parameter trb =>
    obtain ⟨h1, h2, h3, hroom, -⟩ := h
    exact ⟨h1, h2, h3, Nat.lt_of_lt_of_le hroom (Nat.add_le_add_right hle _), hstands hroom⟩
  | status trb =>
    obtain ⟨h1, h2, h3, hroom, -, h4⟩ := h
    exact ⟨h1, h2, h3, Nat.lt_of_lt_of_le hroom (Nat.add_le_add_right hle _), hstands hroom, h4⟩
  | control trb =>
    obtain ⟨h1, h2, h3, hroom, -, h4⟩ := h
    exact ⟨h1, h2, h3, Nat.lt_of_lt_of_le hroom (Nat.add_le_add_right hle _), hstands hroom, h4⟩
  | advance => exact h
  | linkParameter => exact h
  | linkStatus => exact h
  | linkControl => exact h
  | wrap => exact h

theorem pushConsume_inv (h : PushInv s cap) : PushInv (pushConsume s) cap := by
  unfold pushConsume
  simp only
  by_cases hready : (s.trbs s.dequeue).cycle = s.consumerCycle
  swap
  · rw [if_pos hready]
    exact h
  rw [if_neg (not_not.mpr hready)]
  rcases h.consumer with ⟨hd, hcc⟩ | ⟨hd, hpos, hmod, hcc, hlt⟩
  · have hwaits : s.seen.length < s.pushed.length := by
      rw [← h.ready_iff hd hcc, PushRing.ready, decide_eq_true_iff]
      exact hready
    have hread := h.ring.read (by rwa [length_log])
    obtain ⟨trb, hpushed, htrb⟩ : ∃ trb, s.pushed[s.seen.length]? = some trb ∧
        onLap cap s.seen.length trb = s.trbs (s.seen.length % cap) := by
      rw [List.getElem?_mapIdx, Option.map_eq_some_iff] at hread
      exact hread
    have hwork := h.work trb (List.mem_of_getElem? hpushed)
    have htype : trbGetType (s.trbs s.dequeue).control ≠ xhciTrbLink := by
      rw [hd, ← htrb, onLap, trbGetType_cycle]
      exact hwork.2
    rw [if_neg htype]
    have hlen : (s.seen ++ [s.trbs s.dequeue]).length = s.seen.length + 1 := by simp
    have hmono := h.ring.mono (Nat.le_succ s.seen.length)
    refine ⟨h.pos, h.size, h.work, ?_, ?_, ?_, ?_, h.link, ?_, ?_⟩
    · dsimp only
      rw [hlen]
      exact hmono
    · dsimp only
      rw [hlen]
      exact hwaits
    · have hroom := h.room
      dsimp only
      rw [hlen]
      omega
    · dsimp only
      rw [hlen, List.take_add_one, ← h.seen, hread, hd]
      rfl
    · have hroom := h.room
      by_cases hlast : s.seen.length % cap + 1 = cap
      · refine .inr ⟨?_, ?_, ?_, ?_, ?_⟩
        · dsimp only
          rw [hd, hlast]
        · dsimp only
          omega
        · dsimp only
          rw [hlen]
          exact (succ_wraps hlast).1
        · dsimp only
          rw [hlen]
          exact hcc
        · dsimp only
          rw [hlen]
          omega
      · obtain ⟨hmod, hdiv⟩ := succ_stays h.pos hlast
        refine .inl ⟨?_, ?_⟩
        · dsimp only
          rw [hlen, hmod, hd]
        · dsimp only
          rw [hlen, hcc, lapBit, lapBit, hdiv]
    · refine h.atPc.consume _ (by rw [hlen]; exact Nat.le_succ _) fun hroom hlast hdeq => ?_
      exact slot_ne hwaits hroom (by omega)
  · -- the Link TRB
    have hlink := h.link
    have htype := linkTrb_type s.base (lapsLinked cap s.pushed.length s.pc)
    have htc := linkTrb_tc s.base (lapsLinked cap s.pushed.length s.pc)
    rw [hd, hlink, if_pos htype, if_pos htc]
    refine ⟨h.pos, h.size, h.work, h.ring, h.le, h.room, h.seen, h.link, .inl ⟨?_, ?_⟩, ?_⟩
    · show (s.base - s.base).toNat / 16 = _
      rw [hmod, BitVec.sub_self]
      rfl
    · dsimp only
      rw [hcc, (lap_end h.pos hpos hmod).2]
    · refine h.atPc.consume _ (Nat.le_refl _) fun _ _ => ?_
      show (s.base - s.base).toNat / 16 ≠ cap
      rw [BitVec.sub_self]
      exact Nat.ne_of_lt h.pos

theorem pushNext_inv (h : PushInv s cap) {e : PushEvent} (hadm : PushAdmissible s e) : PushInv (pushNext s e) cap := by
  unfold pushNext
  cases e with
  | push trb =>
    dsimp only
    split
    · exact pushCall_inv h ‹_› hadm
    · exact h
  | run => exact pushRun_inv h
  | consume => exact pushConsume_inv h

theorem PushInv.sees (h : PushInv s cap) : SeesPushed s := by
  constructor
  · refine List.ext_getElem? fun k => ?_
    by_cases hk : k < s.seen.length
    · have hlt : k < s.pushed.length := Nat.lt_of_lt_of_le hk h.le
      rw [List.getElem?_take_of_lt hk, List.getElem?_map]
      conv_lhs => rw [h.seen]
      rw [List.getElem?_take_of_lt hk, List.getElem?_mapIdx, List.getElem?_eq_getElem hlt]
      have hwork := h.work _ (List.getElem_mem hlt)
      simp only [Option.map_some, onLap_fields hwork.cycle]
    · rw [List.getElem?_eq_none (by simp; omega), List.getElem?_eq_none (by simp; omega)]
  · intro hready
    have hle := h.le
    by_contra hne
    have hwaits : s.seen.length < s.pushed.length := by omega
    have hgo : s.ready = true := by
      rcases h.consumer with ⟨hd, hcc⟩ | ⟨hd, hpos, hmod, hcc, hlt⟩
      · exact (h.ready_iff hd hcc).mpr hwaits
      · rw [PushRing.ready, hd, decide_eq_true_iff]
        exact h.link_ready hpos hmod hcc hlt hwaits
    rw [hready] at hgo
    cases hgo

end Steps

theorem ringInit_inv (base : BitVec 64) {size : Nat} (hsize : 2 ≤ size) : PushInv (ringInit base size) (size - 1) := by
  have hlink : (ringInit base size).trbs (size - 1) = linkTrb base 0 := by
    unfold ringInit
    dsimp only
    rw [Function.update_self]
    rfl
  refine ⟨by omega, ?_, ?_, ?_, Nat.le_refl _, Nat.zero_le _, rfl, ?_, .inl ⟨?_, ?_⟩, ?_, ?_⟩
  · simp only [ringInit]
    omega
  · simp [ringInit]
  · have hzero : LapRing Trb.cycle (size - 1) (fun _ => ⟨0, 0, 0⟩) [] 0 := LapRing.empty fun _ => rfl
    refine hzero.congr (by omega) fun i hi => ?_
    unfold ringInit
    dsimp only
    rw [Function.update_of_ne (Nat.ne_of_lt hi)]
  · rw [hlink]
    simp [ringInit, lapsLinked]
  · simp [ringInit]
  · simp [ringInit, lapBit, lapParity]
  · simp [ringInit]
  · simp [ringInit, lapBit, lapParity]

/-- The producer and the consumer, in every state of a run. -/
theorem pushRun_sees {base : BitVec 64} {size : Nat} (hsize : 2 ≤ size) {es : List PushEvent}
    (hadm : EachStep pushNext PushAdmissible (ringInit base size) es) :
    SeesPushed (es.foldl pushNext (ringInit base size)) := by
  have hinv : ∀ s, PushInv s (size - 1) → EachStep pushNext PushAdmissible s es →
      PushInv (es.foldl pushNext s) (size - 1) := by
    clear hadm
    induction es with
    | nil => exact fun s h _ => h
    | cons e es ih => exact fun s h hes => ih _ (pushNext_inv h hes.1) hes.2
  exact (hinv _ (ringInit_inv base hsize) hadm).sees

/-- The stores of a push that does not come to the end of a lap, or does. -/
def pushEvents (trb : Trb) (wraps : Bool) : List PushEvent :=
  .push trb :: List.replicate (if wraps then 8 else 4) .run

/-- The consumer takes the TRB of the first lap, and is at the Link TRB during the second lap. -/
def stuckRun : List PushEvent := pushEvents ⟨1, 0, 0x400⟩ true ++ [.consume] ++ pushEvents ⟨2, 0, 0x400⟩ true

/-- One TRB waits in a ring of two, and the consumer does not see it. -/
theorem linkRun_stuck : ¬ (∀ (base : BitVec 64) (size : Nat) (es : List PushEvent), 2 ≤ size →
    EachStep pushNext PushBounded (ringInit base size) es → SeesPushed (es.foldl pushNext (ringInit base size))) := by
  intro h
  have hbounded : EachStep pushNext PushBounded (ringInit 0 2) stuckRun := by decide
  have hsees := h 0 2 stuckRun (Nat.le_refl 2) hbounded
  have hlen := hsees.waits (by decide)
  revert hlen
  decide

/-! ## The events -/

/-- `XHCI_EVENT_RING_SIZE`. -/
def xhciEventRingSize : Nat := 64

/-- What the producer stores next. -/
inductive WriterPc
  | out
  | parameter (trb : Trb)
  | status (trb : Trb)
  | control (trb : Trb)

/-- What `event_next` loads or stores next. -/
inductive NextPc
  | control
  | parameter (control : BitVec 32)
  | status (control : BitVec 32) (parameter : BitVec 64)
  | advance (trb : Trb)
  | ack (trb : Trb)

/-- `event_ring`, `event_dequeue`, `event_cycle` and the register of `event_ack`, which has the place that the driver is
at, with the controller. `written` are the events that the cycle bit has given to the driver. -/
structure XhciEvents where
  ring : Nat → Trb
  dequeue : Nat
  cycle : Bool
  erdp : Nat
  pc : NextPc
  enqueue : Nat
  writerCycle : Bool
  writer : WriterPc
  written : List Trb
  returned : List Trb

/-- After `xhci_init`. -/
def xhciEventsInit : XhciEvents where
  ring := fun _ => ⟨0, 0, 0⟩
  dequeue := 0
  cycle := true
  erdp := 0
  pc := .control
  enqueue := 0
  writerCycle := true
  writer := .out
  written := []
  returned := []

inductive RingEvent
  | write (trb : Trb)
  | store
  | next

/-- The controller begins an event, unless the ring is full. -/
def eventWrite (trb : Trb) (s : XhciEvents) : XhciEvents :=
  match s.writer with
  | .out => if (s.enqueue + 1) % xhciEventRingSize = s.erdp then s else { s with writer := .parameter trb.fields }
  | _ => s

/-- The next store of the controller. -/
def eventStore (s : XhciEvents) : XhciEvents :=
  let here := s.ring s.enqueue
  match s.writer with
  | .out => s
  | .parameter trb =>
    { s with ring := Function.update s.ring s.enqueue { here with parameter := trb.parameter }, writer := .status trb }
  | .status trb =>
    { s with ring := Function.update s.ring s.enqueue { here with status := trb.status }, writer := .control trb }
  | .control trb =>
    { s with
      ring := Function.update s.ring s.enqueue { here with control := trb.control ||| cycleBit s.writerCycle }
      enqueue := (s.enqueue + 1) % xhciEventRingSize
      writerCycle := if s.enqueue + 1 = xhciEventRingSize then !s.writerCycle else s.writerCycle
      writer := .out
      written := s.written ++ [trb] }

/-- `event_next` returns 0. -/
def XhciEvents.empty (s : XhciEvents) : Bool := ((s.ring s.dequeue).cycle ≠ s.cycle)

/-- The next load or store of `event_next`. -/
def eventNext (s : XhciEvents) : XhciEvents :=
  let event := s.ring s.dequeue
  match s.pc with
  | .control => if s.empty then s else { s with pc := .parameter event.control }
  | .parameter control => { s with pc := .status control event.parameter }
  | .status control parameter => { s with pc := .advance ⟨parameter, event.status, control⟩ }
  | .advance trb =>
    if xhciEventRingSize ≤ s.dequeue + 1 then { s with dequeue := 0, cycle := !s.cycle, pc := .ack trb }
    else { s with dequeue := s.dequeue + 1, pc := .ack trb }
  | .ack trb => { s with erdp := s.dequeue, pc := .control, returned := s.returned ++ [trb] }

def ringNext (s : XhciEvents) : RingEvent → XhciEvents
  | .write trb => eventWrite trb s
  | .store => eventStore s
  | .next => eventNext s

/-- The driver has got the first of the written events, each as it was written, and all of them when it gets none. -/
structure GetsWritten (s : XhciEvents) : Prop where
  got : s.returned.map Trb.fields = s.written.take s.returned.length
  none : s.pc = .control → s.empty = true → s.returned.length = s.written.length

/-! ### The invariant -/

/-- The events with their cycle bits. -/
def XhciEvents.log (s : XhciEvents) : List Trb := s.written.mapIdx (onLap xhciEventRingSize)

/-- The events that the driver has loaded. -/
def XhciEvents.loaded (s : XhciEvents) : Nat :=
  match s.pc with
  | .ack _ => s.returned.length + 1
  | _ => s.returned.length

/-- What holds at each store of the controller. -/
def WriterAtPc (s : XhciEvents) : WriterPc → Prop
  | .out => True
  | .parameter trb => trb.cycle = false ∧ s.written.length < s.returned.length + 63
  | .status trb => trb.cycle = false ∧ s.written.length < s.returned.length + 63 ∧
      (s.ring s.enqueue).parameter = trb.parameter
  | .control trb => trb.cycle = false ∧ s.written.length < s.returned.length + 63 ∧
      (s.ring s.enqueue).parameter = trb.parameter ∧ (s.ring s.enqueue).status = trb.status

/-- What holds at each load of `event_next`. -/
def NextAtPc (s : XhciEvents) : NextPc → Prop
  | .control => True
  | .parameter control => ∃ trb, s.log[s.returned.length]? = some trb ∧ control = trb.control
  | .status control parameter => ∃ trb, s.log[s.returned.length]? = some trb ∧ control = trb.control ∧
      parameter = trb.parameter
  | .advance trb | .ack trb => s.log[s.returned.length]? = some trb

structure EventInv (s : XhciEvents) : Prop where
  plain : ∀ trb ∈ s.written, trb.cycle = false
  ring : LapRing Trb.cycle xhciEventRingSize s.ring s.log s.loaded
  room : s.written.length ≤ s.returned.length + 63
  le : s.loaded ≤ s.written.length
  enqueue : s.enqueue = s.written.length % xhciEventRingSize
  writerCycle : s.writerCycle = lapBit xhciEventRingSize s.written.length
  dequeue : s.dequeue = s.loaded % xhciEventRingSize
  cycle : s.cycle = lapBit xhciEventRingSize s.loaded
  erdp : s.erdp = s.returned.length % xhciEventRingSize
  returned : s.returned = s.log.take s.returned.length
  writer : WriterAtPc s s.writer
  next : NextAtPc s s.pc

section Events

variable {s : XhciEvents} {trb : Trb}

theorem XhciEvents.length_log (s : XhciEvents) : s.log.length = s.written.length := List.length_mapIdx

theorem returned_le_loaded (s : XhciEvents) : s.returned.length ≤ s.loaded := by
  unfold XhciEvents.loaded
  split
  · exact Nat.le_succ _
  · exact Nat.le_refl _

/-- A store to the place of the next event that leaves its cycle bit. -/
theorem EventInv.ring_store (h : EventInv s) (hroom : s.written.length < s.returned.length + 63)
    (hcycle : trb.cycle = (s.ring s.enqueue).cycle) :
    LapRing Trb.cycle xhciEventRingSize (Function.update s.ring s.enqueue trb) s.log s.loaded := by
  have hle := returned_le_loaded s
  rw [h.enqueue] at hcycle ⊢
  have hwrite := h.ring.write (a := trb) (by rw [s.length_log, xhciEventRingSize]; omega) (by rwa [s.length_log])
  rwa [s.length_log] at hwrite

theorem eventWrite_inv (h : EventInv s) (trb : Trb) : EventInv (eventWrite trb s) := by
  unfold eventWrite
  cases s.writer with
  | out =>
    dsimp only
    split
    · exact h
    · rename_i hfull
      have hroom := h.room
      rw [h.enqueue, h.erdp] at hfull
      refine ⟨h.plain, h.ring, h.room, h.le, h.enqueue, h.writerCycle, h.dequeue, h.cycle, h.erdp, h.returned, ⟨?_, ?_⟩,
        h.next⟩
      · simp [Trb.cycle, Trb.fields, xhciTrbCycle]
      · unfold xhciEventRingSize at hfull
        dsimp only
        omega
  | _ => exact h

/-- A store of the controller keeps the invariant. -/
theorem eventStore_inv (h : EventInv s) : EventInv (eventStore s) := by
  have hat := h.writer
  have hle := returned_le_loaded s
  unfold eventStore
  cases hw : s.writer <;> rw [hw] at hat <;> dsimp only
  case out => exact h
  case parameter trb =>
    obtain ⟨hplain, hroom⟩ := hat
    refine ⟨h.plain, h.ring_store hroom rfl, h.room, h.le, h.enqueue, h.writerCycle, h.dequeue, h.cycle, h.erdp,
      h.returned,
      ⟨hplain, hroom, ?_⟩, h.next⟩
    dsimp only
    rw [Function.update_self]
  case status trb =>
    obtain ⟨hplain, hroom, hparameter⟩ := hat
    refine ⟨h.plain, h.ring_store hroom rfl, h.room, h.le, h.enqueue, h.writerCycle, h.dequeue, h.cycle, h.erdp,
      h.returned,
      ⟨hplain, hroom, ?_, ?_⟩, h.next⟩
    · dsimp only
      rw [Function.update_self]
      exact hparameter
    · dsimp only
      rw [Function.update_self]
  case control trb =>
    obtain ⟨hplain, hroom, hparameter, hstatus⟩ := hat
    have htrb : ({ s.ring s.enqueue with control := trb.control ||| cycleBit s.writerCycle } : Trb) =
        onLap xhciEventRingSize s.written.length trb := by
      rw [onLap, ← h.writerCycle]
      cases hs : s.ring s.enqueue
      simp_all
    rw [htrb]
    have hlog : (s.written ++ [trb]).mapIdx (onLap xhciEventRingSize) =
        s.log ++ [onLap xhciEventRingSize s.written.length trb] := List.mapIdx_concat
    have hpush := h.ring.push (by decide) (by rw [s.length_log, xhciEventRingSize]; omega)
      (by rw [s.length_log]; exact onLap_cycle hplain)
    rw [s.length_log, ← h.enqueue] at hpush
    -- what was written before stays written
    have hold : ∀ (k : Nat) x, s.log[k]? = some x →
        ((s.written ++ [trb]).mapIdx (onLap xhciEventRingSize))[k]? = some x := by
      intro k x hx
      rw [hlog, List.getElem?_append_left (List.getElem?_eq_some_iff.mp hx).1]
      exact hx
    refine ⟨?_, ?_, ?_, ?_, ?_, ?_, h.dequeue, h.cycle, h.erdp, ?_, trivial, ?_⟩
    · intro t ht
      rcases List.mem_append.mp ht with ht | ht
      · exact h.plain t ht
      · rw [List.mem_singleton.mp ht]
        exact hplain
    · unfold XhciEvents.log
      dsimp only
      rw [hlog]
      exact hpush
    · dsimp only
      rw [List.length_append, List.length_singleton]
      exact hroom
    · dsimp only
      rw [List.length_append]
      exact Nat.le_trans h.le (Nat.le_add_right _ _)
    · dsimp only
      rw [List.length_append, List.length_singleton, h.enqueue, Nat.mod_add_mod]
    · dsimp only
      rw [List.length_append, List.length_singleton, h.writerCycle, h.enqueue, lapBit, lapBit]
      split
      · rename_i hlast
        rw [(succ_wraps hlast).2, lapParity_succ]
      · rename_i hnot
        rw [(succ_stays (by decide) hnot).2]
    · have hret := h.returned
      have hle' := h.le
      unfold XhciEvents.log
      dsimp only
      rw [hlog, List.take_append_of_le_length (by rw [s.length_log]; omega)]
      exact hret
    · have hnext := h.next
      revert hnext
      unfold NextAtPc XhciEvents.log
      dsimp only
      cases s.pc with
      | control => exact id
      | parameter control =>
        rintro ⟨t, ht, hc⟩
        exact ⟨t, hold _ _ ht, hc⟩
      | status control parameter =>
        rintro ⟨t, ht, hc⟩
        exact ⟨t, hold _ _ ht, hc⟩
      | advance t => exact hold _ _
      | ack t => exact hold _ _

/-- The event that the driver is at. -/
theorem EventInv.read (h : EventInv s) (hlt : s.loaded < s.written.length) :
    s.log[s.loaded]? = some (s.ring s.dequeue) := by
  rw [h.dequeue]
  exact h.ring.read (by rwa [s.length_log])

theorem EventInv.empty_iff (h : EventInv s) : s.empty = true ↔ s.loaded = s.written.length := by
  have hready := h.ring.ready_iff (by decide) (by rw [s.length_log]; exact h.le)
  have hle := h.le
  rw [s.length_log, ← h.dequeue, ← h.cycle] at hready
  rw [XhciEvents.empty, decide_eq_true_iff, ne_eq, hready]
  omega

/-- Only the place of the driver changes. -/
theorem EventInv.at_pc (h : EventInv s) {pc : NextPc} (hloaded : ({ s with pc := pc } : XhciEvents).loaded = s.loaded)
    (hat : NextAtPc s pc) : EventInv { s with pc := pc } :=
  ⟨h.plain, hloaded ▸ h.ring, h.room, hloaded ▸ h.le, h.enqueue, h.writerCycle, hloaded ▸ h.dequeue,
    hloaded ▸ h.cycle, h.erdp, h.returned, h.writer, hat⟩

/-- A load or store of the driver keeps the invariant. -/
theorem eventNext_inv (h : EventInv s) : EventInv (eventNext s) := by
  have hat := h.next
  have hlt : ∀ {trb}, s.log[s.returned.length]? = some trb → s.returned.length < s.written.length := by
    intro trb htrb
    rw [← s.length_log]
    exact (List.getElem?_eq_some_iff.mp htrb).1
  unfold eventNext
  cases hpc : s.pc <;> rw [hpc] at hat <;> dsimp only
  case control =>
    have hloaded : s.loaded = s.returned.length := by
      rw [XhciEvents.loaded, hpc]
    split
    · exact h
    · rename_i hnot
      have hle := h.le
      rw [h.empty_iff] at hnot
      have hread := h.read (by omega)
      rw [hloaded] at hread
      exact h.at_pc hloaded.symm ⟨_, hread, rfl⟩
  case parameter control =>
    have hloaded : s.loaded = s.returned.length := by
      rw [XhciEvents.loaded, hpc]
    obtain ⟨trb, htrb, hcontrol⟩ := hat
    have hread := h.read (hloaded ▸ hlt htrb)
    rw [hloaded, htrb] at hread
    exact h.at_pc hloaded.symm ⟨trb, htrb, hcontrol, by rw [Option.some.inj hread]⟩
  case status control parameter =>
    have hloaded : s.loaded = s.returned.length := by
      rw [XhciEvents.loaded, hpc]
    obtain ⟨trb, htrb, hcontrol, hparameter⟩ := hat
    have hread := h.read (hloaded ▸ hlt htrb)
    rw [hloaded, htrb] at hread
    refine h.at_pc hloaded.symm ?_
    show s.log[s.returned.length]? = _
    rw [htrb, hcontrol, hparameter, ← Option.some.inj hread]
  case advance trb =>
    have hloaded : s.loaded = s.returned.length := by
      rw [XhciEvents.loaded, hpc]
    have hnext := hlt hat
    have hdequeue := h.dequeue
    have hcycle := h.cycle
    have hring := h.ring.mono (Nat.le_succ s.loaded)
    rw [hloaded] at hdequeue hcycle hring
    rw [hdequeue]
    split
    · rename_i hlast
      have hwrap : s.returned.length % xhciEventRingSize + 1 = xhciEventRingSize := by
        have := Nat.mod_lt s.returned.length (show 0 < xhciEventRingSize by decide)
        omega
      obtain ⟨hmod, hdiv⟩ := succ_wraps hwrap
      refine ⟨h.plain, hring, h.room, hnext, h.enqueue, h.writerCycle, hmod.symm, ?_, h.erdp, h.returned, h.writer, hat⟩
      show (!s.cycle) = lapBit xhciEventRingSize (s.returned.length + 1)
      rw [hcycle, lapBit, lapBit, hdiv, lapParity_succ]
    · rename_i hnot
      obtain ⟨hmod, hdiv⟩ := succ_stays (show 0 < xhciEventRingSize by decide)
        (show s.returned.length % xhciEventRingSize + 1 ≠ xhciEventRingSize by omega)
      refine ⟨h.plain, hring, h.room, hnext, h.enqueue, h.writerCycle, hmod.symm, ?_, h.erdp, h.returned, h.writer, hat⟩
      show s.cycle = lapBit xhciEventRingSize (s.returned.length + 1)
      rw [hcycle, lapBit, lapBit, hdiv]
  case ack trb =>
    have hloaded : s.loaded = s.returned.length + 1 := by
      rw [XhciEvents.loaded, hpc]
    have hlen : (s.returned ++ [trb]).length = s.loaded := by
      rw [hloaded, List.length_append, List.length_singleton]
    have hroom := h.room
    refine ⟨h.plain, ?_, ?_, ?_, h.enqueue, h.writerCycle, ?_, ?_, ?_, ?_, ?_, trivial⟩
    · show LapRing _ _ _ _ (s.returned ++ [trb]).length
      rw [hlen]
      exact h.ring
    · dsimp only
      rw [hlen]
      omega
    · show (s.returned ++ [trb]).length ≤ _
      rw [hlen]
      exact h.le
    · show s.dequeue = (s.returned ++ [trb]).length % _
      rw [hlen]
      exact h.dequeue
    · show s.cycle = lapBit _ (s.returned ++ [trb]).length
      rw [hlen]
      exact h.cycle
    · dsimp only
      rw [hlen]
      exact h.dequeue
    · show s.returned ++ [trb] = s.log.take (s.returned ++ [trb]).length
      rw [hlen, hloaded, List.take_add_one, ← h.returned, hat]
      rfl
    · -- the ring has more room than before
      have hwriter := h.writer
      have hmore : s.returned.length + 63 ≤ (s.returned ++ [trb]).length + 63 := by
        rw [hlen, hloaded]
        omega
      revert hwriter
      dsimp only
      cases s.writer with
      | out => exact id
      | parameter t =>
        rintro ⟨hplain, hr⟩
        exact ⟨hplain, Nat.lt_of_lt_of_le hr hmore⟩
      | status t =>
        rintro ⟨hplain, hr, hrest⟩
        exact ⟨hplain, Nat.lt_of_lt_of_le hr hmore, hrest⟩
      | control t =>
        rintro ⟨hplain, hr, hrest⟩
        exact ⟨hplain, Nat.lt_of_lt_of_le hr hmore, hrest⟩

theorem ringNext_inv (h : EventInv s) (e : RingEvent) : EventInv (ringNext s e) := by
  cases e with
  | write trb => exact eventWrite_inv h trb
  | store => exact eventStore_inv h
  | next => exact eventNext_inv h

theorem EventInv.gets (h : EventInv s) : GetsWritten s := by
  have hle := Nat.le_trans (returned_le_loaded s) h.le
  constructor
  · refine List.ext_getElem? fun k => ?_
    by_cases hk : k < s.returned.length
    · have hlt : k < s.written.length := Nat.lt_of_lt_of_le hk hle
      rw [List.getElem?_take_of_lt hk, List.getElem?_map]
      conv_lhs => rw [h.returned]
      rw [List.getElem?_take_of_lt hk, XhciEvents.log, List.getElem?_mapIdx, List.getElem?_eq_getElem hlt]
      have hplain := h.plain _ (List.getElem_mem hlt)
      simp only [Option.map_some, onLap_fields hplain]
    · rw [List.getElem?_eq_none (by simp; omega), List.getElem?_eq_none (by simp; omega)]
  · intro hpc hempty
    rw [h.empty_iff, XhciEvents.loaded, hpc] at hempty
    exact hempty

end Events

theorem xhciEventsInit_inv : EventInv xhciEventsInit := by
  have hring : LapRing Trb.cycle xhciEventRingSize (fun _ => ⟨0, 0, 0⟩) [] 0 := LapRing.empty fun _ => rfl
  refine ⟨?_, hring, Nat.zero_le _, Nat.le_refl _, rfl, rfl, rfl, rfl, rfl, rfl, trivial, trivial⟩
  simp [xhciEventsInit]

/-! ## Both directions -/

/-- A producer ring of any size, and the event ring, in every state of a run. -/
theorem xhciRings_run (base : BitVec 64) (size : Nat) (hsize : 2 ≤ size) (pushes : List PushEvent)
    (hadm : EachStep pushNext PushAdmissible (ringInit base size) pushes) (events : List RingEvent) :
    SeesPushed (pushes.foldl pushNext (ringInit base size)) ∧ GetsWritten (events.foldl ringNext xhciEventsInit) := by
  refine ⟨pushRun_sees hsize hadm, ?_⟩
  have hinv : ∀ s, EventInv s → EventInv (events.foldl ringNext s) := by
    induction events with
    | nil => exact fun s h => h
    | cons e events ih => exact fun s h => ih _ (ringNext_inv h e)
  exact (hinv _ xhciEventsInit_inv).gets

/-- Two TRBs on a ring of two: each is consumed with the Link TRB behind it. -/
def twoLaps : List PushEvent :=
  pushEvents ⟨1, 0, 0x400⟩ true ++ [.consume, .consume] ++ pushEvents ⟨2, 0, 0x400⟩ true ++ [.consume, .consume]

/-- An event is written with its three stores, and got by the five loads and stores of `event_next`. -/
def oneEvent : List RingEvent := [.write ⟨1, 0, 0x8000⟩, .store, .store, .store] ++ List.replicate 5 .next

/-- Both rings go round twice. -/
theorem xhciRings_laps :
    (twoLaps.foldl pushNext (ringInit 0 2)).seen.length = 2 ∧
      SeesPushed (twoLaps.foldl pushNext (ringInit 0 2)) ∧
      GetsWritten ((List.replicate 128 oneEvent).flatten.foldl ringNext xhciEventsInit) :=
  ⟨by decide, xhciRings_run 0 2 (by decide) twoLaps (by decide) _⟩

end Armonios
