import Armonios.Gui.WindowBuffers
import Armonios.Lib.Run

/-!
# The buffers of others

The buffers of the windows are blocks of one memory (`Shared`), and what a call writes behind the block of its window is
written to the others. A content of 2⁶⁴ bytes or more gets a block for the bytes that are left of them in 64 bits, and
is filled as a whole.

* `Shared.Ok`: no word is in two buffers;
* `Shared.memory_eq`: a call writes to the buffer that it draws in, and nowhere else;
* `sharedRun_keeps`: in a run without giant contents, a call leaves the windows of the other processes alone, and the
  words of their buffers.
-/

namespace Armonios

/-! ## The memory -/

/-- The desktop, the memory by its words, and where the buffers of the windows are. -/
structure Shared where
  desktop : Desktop
  place : WindowId → Nat
  word : Nat → UInt32

/-- A call of a process; `addr` is where `kmalloc` finds a block. -/
structure SharedCall where
  byte : Nat → UInt8
  addr : UInt32 → Option Nat
  process : Process
  call : WindowCall

namespace Shared

/-- The pixels of a buffer are the words from its place on. -/
def seen (place : WindowId → Nat) (word : Nat → UInt32) (d : Desktop) : Desktop :=
  { d with
    windows := fun i =>
      { d.windows i with backing := (d.windows i).backing.map fun _ => fun n => word (place i + n) } }

/-- A new block, with what is in it. -/
def kmalloc (addr : UInt32 → Option Nat) (word : Nat → UInt32) : Kmalloc := fun size =>
  (addr size).map fun a => fun n => word (a + n)

/-- A buffer whose capacity changes is a new one. -/
def placed (addr : UInt32 → Option Nat) (s : Shared) (d : Desktop) : WindowId → Nat := fun i =>
  if (s.desktop.windows i).backing.isSome = true ∧
      (d.windows i).backingCapacity = (s.desktop.windows i).backingCapacity then s.place i
  else (addr (d.windows i).backingCapacity).getD 0

/-- The memory with the pixels of the window in `i`, as many of them as there are. -/
def written (s : Shared) (d : Desktop) (place : WindowId → Nat) (i : WindowId) : Nat → UInt32 := fun a =>
  if place i ≤ a then ((d.windows i).backing.map fun pixels => pixels (a - place i)).getD (s.word a) else s.word a

/-- The desktop that the call leaves, before the memory is written. -/
def left (c : SharedCall) (s : Shared) : Desktop :=
  ((c.call.run c.byte (kmalloc c.addr s.word) (some c.process) ⟨some s.desktop, [], []⟩).2.desktop).getD s.desktop

/-- The memory after a call writes its pixels. -/
def memory (c : SharedCall) (s : Shared) : Nat → UInt32 :=
  ((c.call.drawsId.bind fun windowId => s.desktop.usedWindow windowId.toUInt32).map fun i =>
    s.written (left c s) (placed c.addr s (left c s)) i).getD s.word

/-- The state after the call. -/
def after (c : SharedCall) (s : Shared) : Shared where
  desktop := seen (placed c.addr s (left c s)) (memory c s) (left c s)
  place := placed c.addr s (left c s)
  word := memory c s

/-- The word is one of the buffer of the window in `i`. -/
structure InBuffer (s : Shared) (i : WindowId) (a : Nat) : Prop where
  has : (s.desktop.windows i).backing.isSome = true
  from_place : s.place i ≤ a
  before_end : 4 * (a - s.place i) < (s.desktop.windows i).backingCapacity.toNat

instance (s : Shared) (i : WindowId) (a : Nat) : Decidable (s.InBuffer i a) :=
  decidable_of_iff ((s.desktop.windows i).backing.isSome = true ∧ s.place i ≤ a ∧
    4 * (a - s.place i) < (s.desktop.windows i).backingCapacity.toNat)
    ⟨fun h => ⟨h.1, h.2.1, h.2.2⟩, fun h => ⟨h.has, h.from_place, h.before_end⟩⟩

/-- The pixels are those in the memory, and no word is in two buffers. -/
structure Ok (s : Shared) : Prop where
  pixels : ∀ i pixels, (s.desktop.windows i).backing = some pixels → ∀ n, pixels n = s.word (s.place i + n)
  apart : ∀ i j a, s.InBuffer i a → s.InBuffer j a → i = j

end Shared

/-- `kmalloc` gives blocks that are apart from the buffers that are live. -/
def SharedCall.AllocatesApart (c : SharedCall) (s : Shared) : Prop :=
  ∀ size a, c.addr size = some a → ∀ i b, s.InBuffer i b → ¬(a ≤ b ∧ 4 * (b - a) < size.toNat)

/-- A drawing is one in a content of less than 2⁶⁴ bytes. -/
def SharedCall.DrawsSmall (c : SharedCall) (s : Shared) : Prop :=
  c.call.DrawsSmall c.byte (Shared.kmalloc c.addr s.word) c.process s.desktop

/-- What is not the pixels. -/
def Window.fields (window : Window) : Window := { window with backing := none }

/-- The window in `j` is as before, but for what the calls of the taskbar change. -/
structure WindowKept (call : WindowCall) (s s' : Shared) (j : WindowId) : Prop where
  fields : (s'.desktop.windows j).fields = (s.desktop.windows j).fields ∨
    (∃ windowId, call = .focus windowId) ∧
      (∃ z, (s'.desktop.windows j).fields = { (s.desktop.windows j).fields with z }) ∨
    (∃ windowId, call = .restore windowId) ∧ ∃ z minimized events,
      (s'.desktop.windows j).fields = { (s.desktop.windows j).fields with z, minimized, events }
  has : (s'.desktop.windows j).backing.isSome = (s.desktop.windows j).backing.isSome
  place : (s.desktop.windows j).backing.isSome = true → s'.place j = s.place j
  pixels : ∀ a, s.InBuffer j a → s'.word a = s.word a

/-- The call leaves the windows of the other processes alone. -/
def OthersKept (c : SharedCall) (s s' : Shared) : Prop :=
  ∀ j, (s.desktop.windows j).used = true → (s.desktop.windows j).ownerPid ≠ c.process.pid32 →
    (s.desktop.windows j).ownerPid ≠ guiNoOwner → WindowKept c.call s s' j

/-- The buffer of the window in `i` is where it was, or is gone. -/
def KeptPlace (s s' : Shared) (i : WindowId) : Prop :=
  ∀ a, s'.InBuffer i a → s.InBuffer i a

/-- The block of the window in `i` is apart from those of the others. -/
def NewPlace (s' : Shared) (i : WindowId) : Prop :=
  ∀ j a, s'.InBuffer i a → s'.InBuffer j a → i = j

/-- A call of a process that meets `C`; or the kernel changes windows, and buffers stay, go or are new. -/
inductive SharedStep (C : Shared → SharedCall → Prop) (s : Shared) : Shared → Prop
  | call (c : SharedCall) (halloc : c.AllocatesApart s) (hc : C s c) : SharedStep C s (s.after c)
  | kernel (s' : Shared)
      (hpixels : ∀ i pixels, (s'.desktop.windows i).backing = some pixels → ∀ n, pixels n = s'.word (s'.place i + n))
      (hplaces : ∀ i, KeptPlace s s' i ∨ NewPlace s' i) : SharedStep C s s'

/-! ### A call -/

section Call

variable {c : SharedCall} {s : Shared} {i j : WindowId} {a : Nat}

theorem Shared.left_eq {d' : Desktop}
    (h : (c.call.run c.byte (kmalloc c.addr s.word) (some c.process) ⟨some s.desktop, [], []⟩).2.desktop = some d') :
    s.left c = d' := by
  rw [Shared.left, h, Option.getD_some]

theorem Shared.left_effect (hsmall : c.DrawsSmall s) :
    BufferEffect (kmalloc c.addr s.word) c.process s.desktop (s.left c) c.call.drawsId := by
  obtain ⟨d', hd', h⟩ := (c.call.buffers c.byte (kmalloc c.addr s.word) c.process s.desktop hsmall).run
    (s := ⟨some s.desktop, [], []⟩) rfl
  rw [left_eq hd']
  exact h.elim id id

/-- A buffer that keeps its capacity stays where it is. -/
theorem Shared.placed_same (hsome : (s.desktop.windows i).backing.isSome = true)
    (hcapacity : ((s.left c).windows i).backingCapacity = (s.desktop.windows i).backingCapacity) :
    placed c.addr s (s.left c) i = s.place i := if_pos ⟨hsome, hcapacity⟩

/-- A window without a buffer, or with one of another capacity, gets the block that is found. -/
theorem Shared.placed_new {b : Nat}
    (hnew : (s.desktop.windows i).backing = none ∨
      ((s.left c).windows i).backingCapacity ≠ (s.desktop.windows i).backingCapacity)
    (haddr : c.addr ((s.left c).windows i).backingCapacity = some b) : placed c.addr s (s.left c) i = b := by
  rw [placed, if_neg, haddr, Option.getD_some]
  rintro ⟨hsome, hcapacity⟩
  rcases hnew with hnone | hne
  · rw [hnone] at hsome
    cases hsome
  · exact hne hcapacity

/-- A window that has its buffer still has it in its place. -/
theorem Shared.placed_kept {pixels : Nat → UInt32} (hkept : (s.desktop.windows i).KeepsBuffer ((s.left c).windows i))
    (hsome : ((s.left c).windows i).backing = some pixels) :
    (s.desktop.windows i).backing = some pixels ∧ (s.after c).place i = s.place i := by
  rcases hkept with hnone | ⟨hbacking, hcapacity⟩
  · rw [hnone] at hsome
    cases hsome
  · rw [hsome] at hbacking
    exact ⟨hbacking.symm, placed_same (by rw [← hbacking, Option.isSome_some]) hcapacity⟩

theorem Shared.after_has : ((s.after c).desktop.windows i).backing.isSome = ((s.left c).windows i).backing.isSome := by
  simp [after, seen]

theorem Shared.after_capacity :
    ((s.after c).desktop.windows i).backingCapacity = ((s.left c).windows i).backingCapacity := rfl

theorem Shared.after_pixels {pixels : Nat → UInt32} (h : ((s.after c).desktop.windows i).backing = some pixels)
    (n : Nat) : pixels n = (s.after c).word ((s.after c).place i + n) := by
  obtain ⟨_, -, rfl⟩ := Option.map_eq_some_iff.mp h
  rfl

/-- The buffers that were there before. -/
theorem Shared.inBuffer_kept (hkept : (s.desktop.windows i).KeepsBuffer ((s.left c).windows i))
    (h : (s.after c).InBuffer i a) : s.InBuffer i a := by
  obtain ⟨hhas, hfrom, hend⟩ := h
  rw [after_has] at hhas
  obtain ⟨pixels, hsome⟩ := Option.isSome_iff_exists.mp hhas
  obtain ⟨hbacking, hplace⟩ := placed_kept hkept hsome
  rw [hplace] at hfrom hend
  have hcapacity : ((s.left c).windows i).backingCapacity = (s.desktop.windows i).backingCapacity := by
    rcases hkept with hnone | ⟨-, hcapacity⟩
    · rw [hnone] at hsome
      cases hsome
    · exact hcapacity
  rw [after_capacity, hcapacity] at hend
  exact ⟨by rw [hbacking, Option.isSome_some], hfrom, hend⟩

/-- A word that is not in the buffer which is drawn in is as before. -/
theorem Shared.memory_eq (hok : s.Ok) (hsmall : c.DrawsSmall s)
    (hout : ∀ windowId i, c.call.drawsId = some windowId → OwnWindow c.process s.desktop windowId i →
      ¬(s.after c).InBuffer i a) : (s.after c).word a = s.word a := by
  show s.memory c a = s.word a
  unfold memory
  cases hdraws : c.call.drawsId.bind fun windowId => s.desktop.usedWindow windowId.toUInt32 with
  | none => rfl
  | some i =>
    rw [Option.map_some, Option.getD_some, written]
    split
    swap
    · rfl
    rename_i hfrom
    cases hafter : ((s.left c).windows i).backing with
    | none => rfl
    | some pixels =>
      rw [Option.map_some, Option.getD_some]
      obtain ⟨windowId, hid, hfound⟩ := Option.bind_eq_some_iff.mp hdraws
      have hback : ∀ place, place ≤ a → s.word (place + (a - place)) = s.word a := fun place hle => by
        rw [Nat.add_sub_cancel' hle]
      cases Shared.left_effect hsmall with
      | kept h =>
        obtain ⟨hbacking, hplace⟩ := placed_kept (h i) hafter
        have hplace : placed c.addr s (s.left c) i = s.place i := hplace
        rw [hplace] at hfrom ⊢
        rw [hok.pixels i pixels hbacking, hback _ hfrom]
      | drew windowId' k is own others h =>
        rw [hid] at is
        cases is
        obtain rfl : k = i := Option.some.inj (own.found.symm.trans hfound)
        obtain ⟨before, pixels', hpixels', hbehind, hblock⟩ := h
        rw [hafter] at hpixels'
        cases hpixels'
        have hend : ((s.left c).windows k).backingCapacity.toNat ≤ 4 * (a - placed c.addr s (s.left c) k) := by
          refine Nat.not_lt.mp fun hlt => hout windowId k hid own ⟨?_, hfrom, hlt⟩
          rw [after_has, hafter, Option.isSome_some]
        rw [hbehind _ hend]
        rcases hblock with ⟨hbacking, hcapacity⟩ | ⟨hnew, halloc⟩
        · rw [placed_same (by rw [hbacking, Option.isSome_some]) hcapacity] at hfrom ⊢
          rw [hok.pixels k before hbacking, hback _ hfrom]
        · obtain ⟨b, haddr, rfl⟩ := Option.map_eq_some_iff.mp halloc
          rw [placed_new hnew haddr] at hfrom ⊢
          exact hback _ hfrom

/-- A word of a buffer after a call is of the buffer that was there, or of a block that `kmalloc` has found for the
drawing. -/
theorem Shared.inBuffer_after (halloc : c.AllocatesApart s) (hsmall : c.DrawsSmall s) (h : (s.after c).InBuffer i a) :
    s.InBuffer i a ∨ c.call.drawsId.bind (fun windowId => s.desktop.usedWindow windowId.toUInt32) = some i ∧
      ∀ j, ¬s.InBuffer j a := by
  cases Shared.left_effect hsmall with
  | kept hkept => exact .inl (inBuffer_kept (hkept i) h)
  | drew windowId k is own others hdrew =>
    by_cases hik : i = k
    · subst hik
      obtain ⟨before, pixels, hpixels, -, hblock⟩ := hdrew
      obtain ⟨-, hfrom, hend⟩ := h
      rcases hblock with ⟨hbacking, hcapacity⟩ | ⟨hnew, hmalloc⟩
      · have hsome : (s.desktop.windows i).backing.isSome = true := by rw [hbacking, Option.isSome_some]
        have hplace : (s.after c).place i = s.place i := placed_same hsome hcapacity
        rw [hplace] at hfrom hend
        rw [after_capacity, hcapacity] at hend
        exact .inl ⟨hsome, hfrom, hend⟩
      · obtain ⟨b, haddr, -⟩ := Option.map_eq_some_iff.mp hmalloc
        have hplace : (s.after c).place i = b := placed_new hnew haddr
        rw [hplace] at hfrom hend
        refine .inr ⟨?_, fun j hj => halloc _ b haddr j a hj ⟨hfrom, hend⟩⟩
        rw [is, Option.bind_some, own.found]
    · refine .inl (inBuffer_kept (.inr ?_) h)
      rw [others i hik]
      exact ⟨rfl, rfl⟩

/-- After a call no word is in two buffers. -/
theorem Shared.after_ok (hok : s.Ok) (halloc : c.AllocatesApart s) (hsmall : c.DrawsSmall s) : (s.after c).Ok := by
  refine ⟨fun i pixels h n => after_pixels h n, fun i j a hi hj => ?_⟩
  rcases inBuffer_after halloc hsmall hi with hi | ⟨hdraws, hnew⟩
  · rcases inBuffer_after halloc hsmall hj with hj | ⟨-, hnew⟩
    · exact hok.apart i j a hi hj
    · exact absurd hi (hnew i)
  · rcases inBuffer_after halloc hsmall hj with hj | ⟨hdraws', -⟩
    · exact absurd hj (hnew j)
    · exact Option.some.inj (hdraws.symm.trans hdraws')

theorem Shared.after_fields : ((s.after c).desktop.windows j).fields = ((s.left c).windows j).fields := rfl

/-- A call that draws in small contents leaves the others alone. -/
theorem Shared.after_keeps (hok : s.Ok) (halloc : c.AllocatesApart s) (hsmall : c.DrawsSmall s) :
    OthersKept c s (s.after c) := by
  intro j hused hother howned
  obtain ⟨d', hd', hkeeps⟩ := WindowCall.others_untouched c.byte (kmalloc c.addr s.word) c.process c.call
    (s := ⟨some s.desktop, [], []⟩) rfl
  have hleft := left_eq hd'
  subst hleft
  have hj := hkeeps j hused hother howned
  have hsame : ((s.left c).windows j).backing = (s.desktop.windows j).backing ∧
      ((s.left c).windows j).backingCapacity = (s.desktop.windows j).backingCapacity := by
    rcases hj with h | ⟨-, z, h⟩ | ⟨-, z, minimized, events, h⟩ <;> rw [h] <;> exact ⟨rfl, rfl⟩
  have hplace : (s.desktop.windows j).backing.isSome = true → (s.after c).place j = s.place j :=
    fun hsome => placed_same hsome hsame.2
  refine ⟨?_, ?_, hplace, fun a ha => ?_⟩
  · rw [after_fields]
    rcases hj with h | ⟨is, z, h⟩ | ⟨is, z, minimized, events, h⟩
    · exact .inl (by rw [h])
    · exact .inr (.inl ⟨is, z, by rw [h]; rfl⟩)
    · exact .inr (.inr ⟨is, z, minimized, events, by rw [h]; rfl⟩)
  · rw [after_has, hsame.1]
  · have ha' : (s.after c).InBuffer j a := by
      refine ⟨by rw [after_has, hsame.1]; exact ha.has, ?_, ?_⟩
      · rw [hplace ha.has]
        exact ha.from_place
      · rw [hplace ha.has, after_capacity, hsame.2]
        exact ha.before_end
    refine memory_eq hok hsmall fun windowId i _ own hi => ?_
    obtain rfl := (after_ok hok halloc hsmall).apart i j a hi ha'
    exact hother own.owner

end Call

/-! ### Runs -/

variable {s₀ s s' : Shared}

/-- Before anything is drawn. -/
theorem Shared.ok_of_none (hnone : ∀ i, (s.desktop.windows i).backing = none) : s.Ok := by
  refine ⟨fun i pixels h => ?_, fun i j a hi => ?_⟩
  · rw [hnone i] at h
    cases h
  · have hhas := hi.has
    rw [hnone i] at hhas
    cases hhas

theorem SharedStep.ok (hok : s.Ok) (hstep : SharedStep (fun s c => c.DrawsSmall s) s s') : s'.Ok := by
  cases hstep with
  | call c halloc hc => exact Shared.after_ok hok halloc hc
  | kernel s' hpixels hplaces =>
    refine ⟨hpixels, fun i j a hi hj => ?_⟩
    rcases hplaces i with hkept | hnew
    · rcases hplaces j with hkept' | hnew'
      · exact hok.apart i j a (hkept a hi) (hkept' a hj)
      · exact (hnew' i a hj hi).symm
    · exact hnew j a hi hj

/-- In a run in which no drawing in a content of 2⁶⁴ bytes or more gets a buffer, such a call of a process leaves the
windows of the others alone. -/
theorem sharedRun_keeps (hnone : ∀ i, (s₀.desktop.windows i).backing = none)
    (hrun : Run (SharedStep fun s c => c.DrawsSmall s) s₀ s) (c : SharedCall) (halloc : c.AllocatesApart s)
    (hsmall : c.DrawsSmall s) : OthersKept c s (s.after c) :=
  Shared.after_keeps (Run.invariant Shared.Ok (fun _ _ => SharedStep.ok) (Shared.ok_of_none hnone) hrun) halloc hsmall

/-! ### Two processes -/

/-- A desktop without windows. -/
def sharedStart : Shared := ⟨sampleDesktop ⟨64, 48⟩, fun _ => 0, fun _ => 0⟩

/-- Process 5 creates a window of 20 by 20 pixels. -/
def createOwn : SharedCall := ⟨fun _ => 0, fun _ => none, windowProgram 5, .create 4 4 20 20 0 0 0⟩

/-- It draws in it, and the 1600 bytes for this are at 50000. -/
def drawOwn : SharedCall :=
  ⟨fun _ => 0, fun size => if size = 1600 then some 50000 else none, windowProgram 5, .drawRect 0 0 0 1 1 9⟩

/-- Process 6 creates a window with the background 1. -/
def createOther (w h : UInt64) : SharedCall := ⟨fun _ => 0, fun _ => none, windowProgram 6, .create 0 0 w h 1 0 0⟩

/-- It draws in it, and the bytes for this are at 1000. -/
def drawOther (bytes : UInt32) : SharedCall :=
  ⟨fun _ => 0, fun size => if size = bytes then some 1000 else none, windowProgram 6, .drawRect 1 0 0 1 1 9⟩

def sharedDrawn : Shared := (sharedStart.after createOwn).after drawOwn

theorem sharedStart_none (i : WindowId) : (sharedStart.desktop.windows i).backing = none := rfl

theorem drawOwn_allocates : drawOwn.AllocatesApart (sharedStart.after createOwn) := by
  have hnone : ∀ i, ((sharedStart.after createOwn).desktop.windows i).backing.isSome = false := by decide +kernel
  intro size a _ i b hb
  have hhas := hb.has
  rw [hnone i] at hhas
  cases hhas

/-- The run up to the second window. -/
theorem shared_run {C : Shared → SharedCall → Prop} (hcreate : C sharedStart createOwn)
    (hdraw : C (sharedStart.after createOwn) drawOwn) {w h : UInt64} (hother : C sharedDrawn (createOther w h)) :
    Run (SharedStep C) sharedStart (sharedDrawn.after (createOther w h)) :=
  .tail (.tail (.tail .refl (.call createOwn (fun _ _ h => nomatch h) hcreate)) (.call drawOwn drawOwn_allocates hdraw))
    (.call (createOther w h) (fun _ _ h => nomatch h) hother)

/-- The other block is in front of the one at 50000. -/
theorem drawOther_allocates {s : Shared} {bytes : UInt32} (hbytes : bytes.toNat < 190000)
    (hplace : ∀ i, (s.desktop.windows i).backing.isSome = true → s.place i = 50000) :
    (drawOther bytes).AllocatesApart s := by
  intro size a ha i b hb hin
  have haddr : (if size = bytes then some 1000 else none) = some a := ha
  split at haddr
  · rename_i hsize
    cases haddr
    have hfrom := hb.from_place
    rw [hplace i hb.has] at hfrom
    rw [hsize] at hin
    omega
  · cases haddr

/-- The content of 2147529989 by 2147437308 pixels gets 166832 bytes, and the fill goes on over the window of the other
process. -/
theorem giant_overruns : ¬ ∀ (s₀ s : Shared) (c : SharedCall), (∀ i, (s₀.desktop.windows i).backing = none) →
    Run (SharedStep fun _ _ => True) s₀ s → c.AllocatesApart s → OthersKept c s (s.after c) := by
  intro h
  have hplace : ∀ i, ((sharedDrawn.after (createOther 2147529989 2147437308)).desktop.windows i).backing.isSome = true →
      (sharedDrawn.after (createOther 2147529989 2147437308)).place i = 50000 := by decide +kernel
  have hkept := h sharedStart _ (drawOther 166832) sharedStart_none
    (shared_run (w := 2147529989) (h := 2147437308) trivial trivial trivial)
    (drawOther_allocates (by decide) hplace) 0 (by decide +kernel) (by decide +kernel) (by decide +kernel)
  have hsame := hkept.pixels 50000 (by decide +kernel)
  revert hsame
  decide +kernel

/-- A window of 10 by 10 pixels gets 400 bytes. -/
theorem sharedRun_keeps_sample :
    OthersKept (drawOther 400) (sharedDrawn.after (createOther 10 10))
      ((sharedDrawn.after (createOther 10 10)).after (drawOther 400)) := by
  have hsmall : ∀ (s : Shared) (c : SharedCall) (windowId : UInt64) (i : WindowId), c.call.drawsId = some windowId →
      s.desktop.usedWindow windowId.toUInt32 = some i → (c.call.bounds (s.desktop.windows i)).Small →
        c.DrawsSmall s := by
    intro s c windowId i hid hfound hsmall windowId' j hid' own _ _
    rw [hid] at hid'
    cases hid'
    obtain rfl : i = j := Option.some.inj (hfound.symm.trans own.found)
    exact hsmall
  have hplace : ∀ i, ((sharedDrawn.after (createOther 10 10)).desktop.windows i).backing.isSome = true →
      (sharedDrawn.after (createOther 10 10)).place i = 50000 := by decide +kernel
  refine sharedRun_keeps sharedStart_none (shared_run (fun _ _ h => nomatch h) ?_ fun _ _ h => nomatch h)
    (drawOther 400) (drawOther_allocates (by decide) hplace) ?_
  · refine hsmall _ _ 0 0 rfl (by decide +kernel) ?_
    unfold Window.Small
    decide +kernel
  · refine hsmall _ _ 1 1 rfl (by decide +kernel) ?_
    unfold Window.Small
    decide +kernel

end Armonios
