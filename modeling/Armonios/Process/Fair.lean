import Armonios.Process.Context

/-!
# Waiting for the CPU

`process_next_runnable` looks at the slots in cyclic order, from the slot of the process that loses the
CPU on. So a process that stays ready comes closer with every dispatch of another one, whatever happens
to the other slots in between.

* `Placed`: where the CPU is agrees with the process table, in every run, with interrupts at EL1 as well;
* `next_placed`: a step keeps this, and a step that makes another process current brings it closer to
  every process that stays ready;
* `machineRun_waits`: a process that stays ready is passed over at most `PROCESS_MAX_PROCESSES - 2` times.
-/

namespace Armonios

variable {ρ : Type} {env : Env ρ} {k k' : Kernel ρ} {m m' : Machine ρ} {i j : SlotId}
  {regs frame lost : Frame} {ends : Prop}

/-! ## Where the CPU is -/

/-- No process is ready. -/
def Idle (k : Kernel ρ) : Prop := ∀ j, (k.processes j).state ≠ .ready

/-- No ready process would go on as `panel_boot_run` does, at EL1 with interrupts off. -/
def Unmasked (k : Kernel ρ) : Prop := ∀ j, (k.processes j).state = .ready → (k.processes j).pstate ≠ spsrEl1h

def CpuPlace (m : Machine ρ) : Prop :=
  match m.cpu with
  | .kernel => m.kernel.current = none ∧ Idle m.kernel
  | .launching => AtUser m.kernel m.panel
  | .user regs => isEl0t regs.spsr = true ∧ ∃ i, AtUser m.kernel i
  | .resuming _ => ∃ i, AtUser m.kernel i
  | .returned => (∃ i, m.kernel.current = some i ∧ (m.kernel.processes i).state = .zombie) ∧ Idle m.kernel
  | .astray _ => ∃ i, AtUser m.kernel i

structure Placed (m : Machine ρ) : Prop where
  unmasked : Unmasked m.kernel
  cpu : CpuPlace m

theorem ReadyKept.unmasked (h : ReadyKept k k') (hk : Unmasked k) : Unmasked k' := by
  intro j hj
  have hs := h j hj
  rw [hs.pstate]
  exact hk j (hs.state.symm.trans hj)

theorem ReadyKept.idle (h : ReadyKept k k') (hk : Idle k) : Idle k' := by
  intro j hj
  exact hk j ((h j hj).state.symm.trans hj)

theorem ne_spsrEl1h_of_el0t {spsr : UInt64} (h : isEl0t spsr = true) : spsr ≠ spsrEl1h := by
  rintro rfl
  exact absurd h (by decide)

theorem ne_spsrEl1h_of_unmasked {spsr : UInt64} (h : irqUnmasked spsr = true) : spsr ≠ spsrEl1h := by
  rintro rfl
  exact absurd h (by decide)

theorem TrapOk.unmasked {back : Frame → Prop} (h : TrapOk env k i back ends lost frame k') (hk : Unmasked k)
    (hlost : lost.spsr ≠ spsrEl1h) : Unmasked k' := by
  intro j hj
  rcases h.ready j hj with hs | ⟨-, he⟩ | ⟨-, hctx, -⟩
  · rw [hs.pstate]
    exact hk j (hs.state.symm.trans hj)
  · exact ne_spsrEl1h_of_el0t he
  · have hps : (k'.processes j).pstate = lost.spsr := congrArg Frame.spsr hctx
    rw [hps]
    exact hlost

/-! ## The order of the slots -/

/-- A dispatch of `c`, which is looked at before `j`, brings `j` closer. -/
theorem slotDistance_lt {c : SlotId} (hji : j ≠ i) (hc : c ≠ i) (hcj : c ≠ j)
    (h : slotDistance i c ≤ slotDistance i j) : slotDistance c j < slotDistance i j := by
  have h1 : j.val ≠ i.val := fun he => hji (Fin.ext he)
  have h2 : c.val ≠ i.val := fun he => hc (Fin.ext he)
  have h3 : c.val ≠ j.val := fun he => hcj (Fin.ext he)
  have hi := i.isLt
  have hj := j.isLt
  have hc := c.isLt
  unfold slotDistance at h ⊢
  simp only [processMaxProcesses] at hi hj hc h ⊢
  omega

/-- What a step does to the distance of a process that stays ready: nothing, or another process becomes
current and the distance gets smaller. -/
def Nears (k k' : Kernel ρ) : Prop :=
  ∀ j, (k.processes j).state = .ready → (k'.processes j).state = .ready →
    ∃ i c, k.current = some i ∧ k'.current = some c ∧ (c = i ∨ (c ≠ i ∧ slotDistance c j < slotDistance i j))

theorem Nears.of_idle (h : Idle k) : Nears k k' := fun j hj _ => absurd hj (h j)

theorem Nears.same (hi : k.current = some i) (hc : k'.current = k.current) : Nears k k' :=
  fun _ _ _ => ⟨i, i, hi, hc.trans hi, .inl rfl⟩

theorem TrapOutcome.nears {back : Frame → Prop} (h : TrapOutcome env k i back ends frame k') (hk : AtUser k i) :
    Nears k k' := by
  intro j hj hj'
  have hji : j ≠ i := by
    rintro rfl
    rw [hk.running] at hj
    cases hj
  rcases h with ⟨hc, -, -⟩ | ⟨l, hl, -, hfirst, -, hc, hrun⟩ | ⟨-, -, -, hidle, -, -⟩
  · exact ⟨i, i, hk.current, hc, .inl rfl⟩
  · have hlj : l ≠ j := by
      rintro rfl
      rw [hrun] at hj'
      cases hj'
    exact ⟨i, l, hk.current, hc, .inr ⟨hl, slotDistance_lt hji hl hlj (hfirst j hji hj)⟩⟩
  · exact absurd hj' (hidle j)

/-! ## Steps -/

/-- Where a trap at EL0 leaves the CPU. -/
theorem TrapOutcome.place {back : Frame → Prop} (h : TrapOutcome env k i back ends frame k') (hk : Unmasked k)
    (hback : ∀ f, back f → f.spsr ≠ spsrEl1h) :
    ((∃ c, AtUser k' c) ∧ frame.spsr ≠ spsrEl1h) ∨
      (ends ∧ frame.elr = env.returnAddress ∧ frame.spsr = spsrEl1h ∧
        (∃ c, k'.current = some c ∧ (k'.processes c).state = .zombie) ∧ Idle k') := by
  rcases h with ⟨hc, hr, hf⟩ | ⟨l, -, hl, -, hf, hc, hr⟩ | ⟨he, hc, hz, hidle, helr, hspsr⟩
  · exact .inl ⟨⟨i, hc, hr⟩, hback _ hf⟩
  · refine .inl ⟨⟨l, hc, hr⟩, ?_⟩
    rw [hf]
    exact hk l hl
  · exact .inr ⟨he, helr, hspsr, ⟨i, hc, hz⟩, hidle⟩

theorem CpuPlace.enter (hcpu : m.cpu = Cpu.enter frame) (h : ∃ i, AtUser m.kernel i) : CpuPlace m := by
  unfold CpuPlace
  rw [hcpu]
  by_cases hel : isEl0t frame.spsr = true
  · rw [enter_user hel]
    exact ⟨hel, h⟩
  · have hastray : Cpu.enter frame = .astray frame := if_neg hel
    rw [hastray]
    exact h

theorem afterSync_placed {back : Frame → Prop} {r : Frame × Kernel ρ} (h : TrapOk env m.kernel i back ends lost r.1 r.2)
    (hk : Unmasked m.kernel) (hlost : lost.spsr ≠ spsrEl1h) (hback : ∀ f, back f → f.spsr ≠ spsrEl1h) :
    Placed (afterSync env m lost r) := by
  refine ⟨h.unmasked hk hlost, ?_⟩
  rcases h.outcome.place hk hback with ⟨hat, hne⟩ | ⟨-, helr, hspsr, hz, hidle⟩
  · exact CpuPlace.enter (if_neg fun hc => hne hc.2) hat
  · have hret : (afterSync env m lost r).cpu = .returned := if_pos ⟨helr, hspsr⟩
    unfold CpuPlace
    rw [hret]
    exact ⟨hz, hidle⟩

/-- An interrupt at EL1 while a process is current. -/
theorem irqEl1_placed {irq : Option UInt32} {cpu : Cpu} (hat : AtUser m.kernel i) (hk : Unmasked m.kernel)
    (hregs : regs.spsr ≠ spsrEl1h) (hcpu : cpu = .launching ∧ i = m.panel ∨ cpu = .astray regs) :
    Placed { m with
      kernel := (irqHandlerFrame env irq regs m.kernel).2
      cpu := if (irqHandlerFrame env irq regs m.kernel).2.current = m.kernel.current then cpu
        else .resuming (irqHandlerFrame env irq regs m.kernel).1 } := by
  have htrap := hat.irqHandlerFrame env regs irq
  refine ⟨htrap.unmasked hk hregs, ?_⟩
  rcases htrap.outcome with ⟨hc, hr, -⟩ | ⟨l, hl, -, -, -, hc, hr⟩ | ⟨hfalse, -⟩
  · rw [if_pos (hc.trans hat.current.symm)]
    rcases hcpu with ⟨rfl, rfl⟩ | rfl
    · exact ⟨hc, hr⟩
    · exact ⟨i, hc, hr⟩
  · have hne : (irqHandlerFrame env irq regs m.kernel).2.current ≠ m.kernel.current := by
      rw [hc, hat.current]
      simpa using hl
    rw [if_neg hne]
    exact ⟨l, hc, hr⟩
  · exact hfalse.elim

/-- One step of any run. -/
theorem next_placed {e : Event} (h : Placed m) (hstep : m.next env e = some m') :
    Placed m' ∧ Nears m.kernel m'.kernel := by
  obtain ⟨hun, hcpu⟩ := h
  unfold CpuPlace at hcpu
  cases e with
  | boot memoryBase memorySize mapMmio =>
    simp only [Machine.next] at hstep
    split at hstep
    · rename_i hc
      rw [hc] at hcpu
      obtain ⟨hnone, hidle⟩ := hcpu
      have hspec := panelBootEnter_spec env memoryBase memorySize mapMmio hnone
      unfold Wp at hspec
      split at hspec <;> rename_i r k' heq <;> rw [heq] at hstep <;> cases hstep
      · obtain ⟨hat, -, hkept⟩ := hspec
        exact ⟨⟨hkept.unmasked hun, hat⟩, .of_idle hidle⟩
      · obtain ⟨hcur, hkept⟩ := hspec
        refine ⟨⟨hkept.unmasked hun, ?_⟩, .of_idle hidle⟩
        unfold CpuPlace
        dsimp only
        rw [hc]
        exact ⟨hcur, hkept.idle hidle⟩
    · cases hstep
  | launch x =>
    simp only [Machine.next] at hstep
    split at hstep
    · rename_i hc
      rw [hc] at hcpu
      cases hstep
      exact ⟨⟨hun, CpuPlace.enter rfl ⟨m.panel, hcpu⟩⟩, .same hcpu.current rfl⟩
    · cases hstep
  | run regs =>
    simp only [Machine.next] at hstep
    split at hstep
    · rename_i hc
      rw [hc] at hcpu
      obtain ⟨-, i, hat⟩ := hcpu
      split at hstep
      · rename_i hel
        cases hstep
        exact ⟨⟨hun, hel, i, hat⟩, .same hat.current rfl⟩
      · cases hstep
    · cases hstep
  | svc =>
    simp only [Machine.next] at hstep
    split at hstep
    · rename_i regs hc
      rw [hc] at hcpu
      cases hstep
      obtain ⟨hel, i, hat⟩ := hcpu
      have hne := ne_spsrEl1h_of_el0t hel
      refine ⟨afterSync_placed hat.syscallDispatch hun (by rw [lostInSvc_spsr]; exact hne) fun f hf => ?_,
        hat.syscallDispatch.outcome.nears hat⟩
      obtain ⟨v, rfl⟩ := hf
      exact hne
    · cases hstep
  | fault =>
    simp only [Machine.next] at hstep
    split at hstep
    · rename_i regs hc
      rw [hc] at hcpu
      cases hstep
      obtain ⟨hel, i, hat⟩ := hcpu
      have htrap := hat.handleUserFault env regs
      exact ⟨afterSync_placed htrap hun (ne_spsrEl1h_of_el0t hel) fun f hf => hf.elim, htrap.outcome.nears hat⟩
    · cases hstep
  | irq irq =>
    simp only [Machine.next] at hstep
    split at hstep
    · rename_i regs hc
      rw [hc] at hcpu
      cases hstep
      obtain ⟨hel, i, hat⟩ := hcpu
      have hne := ne_spsrEl1h_of_el0t hel
      have htrap := hat.irqHandlerFrame env regs irq
      refine ⟨⟨htrap.unmasked hun hne, ?_⟩, htrap.outcome.nears hat⟩
      rcases htrap.outcome.place hun (fun f hf => by rw [hf]; exact hne) with ⟨hat', -⟩ | ⟨hfalse, -⟩
      · exact hat'
      · exact hfalse.elim
    · cases hstep
  | irqEl1 irq regs =>
    simp only [Machine.next] at hstep
    split at hstep
    · cases hstep
    rename_i hregs
    simp only [not_or, Bool.not_eq_false] at hregs
    have hne := ne_spsrEl1h_of_unmasked hregs.2.2
    have hnears : ∀ {i : SlotId}, AtUser m.kernel i → Nears m.kernel (irqHandlerFrame env irq regs m.kernel).2 :=
      fun hat => (hat.irqHandlerFrame env regs irq).outcome.nears hat
    cases hc : m.cpu with
    | kernel =>
      rw [hc] at hcpu hstep
      obtain ⟨hnone, hidle⟩ := hcpu
      obtain ⟨rest, hkernel⟩ := irqHandlerFrame_idle env hnone irq regs
      simp only [Option.map_some, hkernel, if_true] at hstep
      cases hstep
      exact ⟨⟨hun, hnone, hidle⟩, .of_idle hidle⟩
    | launching =>
      rw [hc] at hcpu hstep
      cases hstep
      exact ⟨irqEl1_placed hcpu hun hne (.inl ⟨rfl, rfl⟩), hnears hcpu⟩
    | user _ =>
      rw [hc] at hstep
      cases hstep
    | resuming frame =>
      rw [hc] at hcpu hstep
      cases hstep
      obtain ⟨i, hat⟩ := hcpu
      exact ⟨irqEl1_placed hat hun hne (.inr rfl), hnears hat⟩
    | returned =>
      rw [hc] at hstep
      cases hstep
    | astray _ =>
      rw [hc] at hcpu hstep
      cases hstep
      obtain ⟨i, hat⟩ := hcpu
      exact ⟨irqEl1_placed hat hun hne (.inr rfl), hnears hat⟩
  | eret =>
    simp only [Machine.next] at hstep
    split at hstep
    · rename_i frame hc
      rw [hc] at hcpu
      cases hstep
      obtain ⟨i, hat⟩ := hcpu
      exact ⟨⟨hun, CpuPlace.enter rfl ⟨i, hat⟩⟩, .same hat.current rfl⟩
    · cases hstep
  | leave =>
    simp only [Machine.next] at hstep
    split at hstep
    · rename_i hc
      rw [hc] at hcpu
      cases hstep
      obtain ⟨⟨i, hcur, hz⟩, hidle⟩ := hcpu
      obtain ⟨hnone, hkept⟩ := panelBootLeave_spec hcur hz
      exact ⟨⟨hkept.unmasked hun, hnone, hkept.idle hidle⟩, .of_idle hidle⟩
    · cases hstep

/-! ## Runs -/

theorem Booted.placed (h : Booted m) : Placed m := by
  have hidle : Idle m.kernel := by
    intro j hj
    rw [h.unused] at hj
    cases hj
  refine ⟨fun j hj => absurd hj (hidle j), ?_⟩
  unfold CpuPlace
  rw [h.cpu]
  exact ⟨h.current, hidle⟩

/-- Any event. -/
def AnyEvent (_ : Machine ρ) (_ : Event) : Prop := True

theorem machineRun_placed (hm : Booted m) (hrun : Run (machineStep env AnyEvent) m m') : Placed m' := by
  refine hrun.invariant Placed (fun s t hs hst => ?_) hm.placed
  obtain ⟨env', e, -, -, hnext⟩ := hst
  exact (next_placed hs hnext).1

/-- A part of a run in which the process in `j` stays ready. `n` counts the steps that make another
process current: every `process_dispatch_next` that finds one is such a step. -/
inductive Waits (env : Env ρ) (j : SlotId) (m : Machine ρ) : Nat → Machine ρ → Prop
  | start (ready : (m.kernel.processes j).state = .ready) : Waits env j m 0 m
  | step {n : Nat} {m₁ m₂ : Machine ρ} (before : Waits env j m n m₁) (next : machineStep env AnyEvent m₁ m₂)
      (ready : (m₂.kernel.processes j).state = .ready) :
      Waits env j m (if m₂.kernel.current = m₁.kernel.current then n else n + 1) m₂

theorem Waits.ready {n : Nat} (h : Waits env j m n m') : (m'.kernel.processes j).state = .ready := by
  cases h <;> assumption

theorem Waits.ready_first {n : Nat} (h : Waits env j m n m') : (m.kernel.processes j).state = .ready := by
  induction h with
  | start hj => exact hj
  | step _ _ _ ih => exact ih

/-- While a process is ready, another one is current. -/
theorem Placed.current (h : Placed m) (hj : (m.kernel.processes j).state = .ready) :
    ∃ i, m.kernel.current = some i ∧ j ≠ i := by
  have hother : ∀ i, AtUser m.kernel i → ∃ i, m.kernel.current = some i ∧ j ≠ i := by
    intro i hat
    refine ⟨i, hat.current, ?_⟩
    rintro rfl
    rw [hat.running] at hj
    cases hj
  have hcpu := h.cpu
  unfold CpuPlace at hcpu
  split at hcpu
  · exact absurd hj (hcpu.2 j)
  · exact hother _ hcpu
  · obtain ⟨-, i, hat⟩ := hcpu
    exact hother i hat
  · obtain ⟨i, hat⟩ := hcpu
    exact hother i hat
  · exact absurd hj (hcpu.2 j)
  · obtain ⟨i, hat⟩ := hcpu
    exact hother i hat

/-- Every process that is passed over makes the way to `j` shorter. -/
theorem Waits.distance {n : Nat} (h : Waits env j m n m') (hm : Placed m) :
    Placed m' ∧ ∃ i c, m.kernel.current = some i ∧ m'.kernel.current = some c ∧
      n + slotDistance c j ≤ slotDistance i j := by
  induction h with
  | start hj =>
    obtain ⟨i, hi, -⟩ := hm.current hj
    exact ⟨hm, i, i, hi, hi, by omega⟩
  | step hbefore hnext hready ih =>
    obtain ⟨hm₁, i, c, hi, hc, hle⟩ := ih
    obtain ⟨env', e, -, -, hnext⟩ := hnext
    obtain ⟨hm₂, hnears⟩ := next_placed hm₁ hnext
    obtain ⟨c', d, hc', hd, hcase⟩ := hnears j hbefore.ready hready
    rw [hc] at hc'
    cases hc'
    refine ⟨hm₂, i, d, hi, hd, ?_⟩
    rw [hd, hc]
    rcases hcase with rfl | ⟨hne, hlt⟩
    · rw [if_pos rfl]
      exact hle
    · rw [if_neg (by simpa using hne)]
      omega

/-- A process that stays ready is passed over at most `PROCESS_MAX_PROCESSES - 2` times, in every run. -/
theorem machineRun_waits {m₀ : Machine ρ} {n : Nat} (hm : Booted m₀) (hrun : Run (machineStep env AnyEvent) m₀ m)
    (hwait : Waits env j m n m') : n ≤ processMaxProcesses - 2 := by
  have hplaced := machineRun_placed hm hrun
  obtain ⟨hplaced', i, c, hi, hc, hle⟩ := hwait.distance hplaced
  have hji : j ≠ i := by
    obtain ⟨i', hi', hne⟩ := hplaced.current hwait.ready_first
    rw [hi] at hi'
    cases hi'
    exact hne
  have hjc : j ≠ c := by
    obtain ⟨c', hc', hne⟩ := hplaced'.current hwait.ready
    rw [hc] at hc'
    cases hc'
    exact hne
  obtain ⟨-, hlt⟩ := slotDistance_pos hji
  obtain ⟨hpos, -⟩ := slotDistance_pos hjc
  omega

/-- The panel has spawned two programs and yields to the first; the second one waits. -/
theorem machineRun_waits_sample : ∃ m m' : Machine Unit,
    Run (machineStep sampleEnv AnyEvent) sampleMachine m ∧ Waits sampleEnv 2 m 1 m' ∧ 1 ≤ processMaxProcesses - 2 := by
  obtain ⟨m, hm, hf⟩ := exists_sampleRun
    [sampleBoot, .launch sampleRegs, .run sampleSpawn, .svc, .run sampleSpawn, .svc, .run sampleYield]
    (fun m => ((m.kernel.processes 2).state, m.kernel.current,
      (m.next sampleEnv .svc).map fun m' => ((m'.kernel.processes 2).state, m'.kernel.current)))
    (.ready, some 0, some (.ready, some 1)) (by decide +kernel)
  simp only [Prod.mk.injEq, Option.map_eq_some_iff] at hf
  obtain ⟨hready, hcur, m', hnext, hready', hcur'⟩ := hf
  have hrun : Run (machineStep sampleEnv AnyEvent) sampleMachine m := Machine.run_steps (fun _ _ _ => trivial) hm
  have hwait : Waits sampleEnv 2 m 1 m' := by
    have h := Waits.step (.start hready) ⟨sampleEnv, .svc, ⟨rfl, rfl⟩, trivial, hnext⟩ hready'
    rw [if_neg (by rw [hcur, hcur']; decide)] at h
    exact h
  exact ⟨m, m', hrun, hwait, machineRun_waits sampleMachine_booted hrun hwait⟩

end Armonios
