import Armonios.Gui.Keyboard
import Armonios.Process.OpenFiles

/-!
# Standard input

`sys_read` on descriptor 0 over the input queue of `drivers/input/input.c`, with events arriving in between.
`input_queue_poll_char` takes the first event, whatever it is.

* `stdinRun_keeps`: when the calls take nothing but characters.
-/

namespace Armonios

variable {τ σ : Type}

/-- A kernel whose rest is the input queue. -/
abbrev StdinKernel (τ σ : Type) := FileKernel τ σ InputQueue

/-- The environment with `input_queue_poll_char`. -/
def stdinEnv (env : FileEnv τ σ InputQueue) : FileEnv τ σ InputQueue :=
  { env with inputQueuePollChar := inputQueuePollChar }

namespace StdinKernel

def queue (k : StdinKernel τ σ) : InputQueue := k.rest.others

def setQueue (queue : InputQueue) (k : StdinKernel τ σ) : StdinKernel τ σ :=
  { k with rest := { k.rest with others := queue } }

end StdinKernel

inductive StdinEvent
  | arrive (event : InputEvent)
  /-- `sys_read` on descriptor 0. -/
  | read (buf len : UInt64)

def StdinEvent.step (env : FileEnv τ σ InputQueue) (k : StdinKernel τ σ) : StdinEvent → StdinKernel τ σ
  | arrive event => k.setQueue ((inputQueuePush event k.queue).getD k.queue)
  | read buf len => { k with rest := ((stdinEnv env).sysRead fdStdin buf len k).2 }

/-- What a step may do: a call takes nothing, or the first event and gives its key, which is a
character. Events that arrive leave those that wait. -/
def StdinEvent.Keeps (env : FileEnv τ σ InputQueue) (k : StdinKernel τ σ) : StdinEvent → Prop
  | arrive event => k.queue.waiting <+: ((arrive event).step env k).queue.waiting
  | read buf len =>
    let value := ((stdinEnv env).sysRead fdStdin buf len k).1
    let after := ((read buf len).step env k).queue.waiting
    (after = k.queue.waiting ∧ value ≠ 1) ∨
      ∃ key byte, k.queue.waiting = .keyPress key :: after ∧ value = 1 ∧
        (inputQueuePollChar k.queue).1 = some byte ∧ byte.toNat = key.toNat

/-- A call that comes to the queue finds a character first, or nothing. -/
def StdinEvent.FindsChar (k : StdinKernel τ σ) : StdinEvent → Prop
  | arrive _ => True
  | read buf len => bufArgument k buf len = true → len ≠ 0 →
      ∀ event ∈ k.queue.waiting.head?, ∃ key, event = .keyPress key ∧ key.toNat ≤ 255

variable {env : FileEnv τ σ InputQueue} {k : StdinKernel τ σ} {queue queue' : InputQueue} {event : InputEvent}

theorem inputQueuePush_ok (hok : queue.Ok) (event : InputEvent) : ((inputQueuePush event queue).getD queue).Ok ∧
    queue.waiting <+: ((inputQueuePush event queue).getD queue).waiting := by
  obtain ⟨hok', hwaiting⟩ := inputQueuePush_waiting hok event
  refine ⟨hok', ?_⟩
  rw [hwaiting]
  exact List.prefix_append _ _

/-- The first event is taken, and gives a character if it is a key. -/
theorem inputQueuePollChar_ok (hok : queue.Ok) :
    (inputQueuePollChar queue = (none, queue) ∧ queue.waiting = []) ∨
      ∃ event, queue.waiting = event :: (inputQueuePollChar queue).2.waiting ∧ (inputQueuePollChar queue).2.Ok ∧
        (inputQueuePollChar queue).1 = match event with
          | .keyPress key => some (key &&& 0xff).toUInt8
          | _ => none := by
  unfold inputQueuePollChar
  cases hpoll : inputQueuePoll queue with
  | none => exact .inl ⟨rfl, Ring.pop_none.mp hpoll⟩
  | some r =>
    obtain ⟨event, queue'⟩ := r
    obtain ⟨hok', hwaiting⟩ := Ring.pop_some hok hpoll
    refine .inr ⟨event, ?_⟩
    cases event <;> exact ⟨hwaiting, hok', rfl⟩

/-- What a call does with the queue. -/
theorem sysRead_stdin (env : FileEnv τ σ InputQueue) (buf len : UInt64) (k : StdinKernel τ σ) :
    (((bufArgument k buf len = false ∨ len = 0) ∧ ((StdinEvent.read buf len).step env k).queue = k.queue ∧
        ((stdinEnv env).sysRead fdStdin buf len k).1 ≠ 1)) ∨
      (bufArgument k buf len = true ∧ len ≠ 0 ∧
        ((StdinEvent.read buf len).step env k).queue = (inputQueuePollChar k.queue).2 ∧
        ((stdinEnv env).sysRead fdStdin buf len k).1 =
          if (inputQueuePollChar k.queue).1.isSome then 1 else errAgain) := by
  have hstep : ((StdinEvent.read buf len).step env k).queue = ((stdinEnv env).sysRead fdStdin buf len k).2.others := rfl
  rw [hstep]
  by_cases hbuf : bufArgument k buf len = false
  · have hread : (stdinEnv env).sysRead fdStdin buf len k = (errInval, k.rest) := by
      rw [FileEnv.sysRead, if_pos rfl, if_pos hbuf]
    rw [hread]
    exact .inl ⟨.inl hbuf, rfl, (by decide : errInval ≠ 1)⟩
  by_cases hlen : len = 0
  · have hread : (stdinEnv env).sysRead fdStdin buf len k = (0, k.rest) := by
      rw [FileEnv.sysRead, if_pos rfl, if_neg hbuf, if_pos hlen]
    rw [hread]
    exact .inl ⟨.inr hlen, rfl, (by decide : (0 : Int) ≠ 1)⟩
  · have hread : (stdinEnv env).sysRead fdStdin buf len k =
        (if (inputQueuePollChar k.queue).1.isSome then 1 else errAgain,
          { k.rest with others := (inputQueuePollChar k.queue).2 }) := by
      rw [FileEnv.sysRead, if_pos rfl, if_neg hbuf, if_neg hlen]
      rfl
    rw [hread]
    exact .inr ⟨by simpa using hbuf, hlen, rfl, rfl⟩

theorem StdinEvent.step_ok (hok : k.queue.Ok) (e : StdinEvent) : (e.step env k).queue.Ok := by
  cases e with
  | arrive event => exact (inputQueuePush_ok hok event).1
  | read buf len =>
    rcases sysRead_stdin env buf len k with ⟨-, hqueue, -⟩ | ⟨-, -, hqueue, -⟩
    · rw [hqueue]
      exact hok
    · rw [hqueue]
      rcases inputQueuePollChar_ok hok with ⟨hnone, -⟩ | ⟨event, -, hok', -⟩
      · rw [hnone]
        exact hok
      · exact hok'

theorem StdinEvent.keeps_iff (hok : k.queue.Ok) (e : StdinEvent) : e.Keeps env k ↔ e.FindsChar k := by
  cases e with
  | arrive event => exact iff_of_true (inputQueuePush_ok hok event).2 trivial
  | read buf len =>
    unfold Keeps FindsChar
    dsimp only
    rcases sysRead_stdin env buf len k with ⟨hnone, hqueue, hvalue⟩ | ⟨hbuf, hlen, hqueue, hvalue⟩
    · rw [hqueue]
      refine iff_of_true (.inl ⟨rfl, hvalue⟩) fun hbuf hlen => ?_
      rcases hnone with hnone | hnone
      · rw [hnone] at hbuf
        cases hbuf
      · exact absurd hnone hlen
    · rw [hqueue, hvalue]
      simp only [hbuf, hlen, ne_eq, not_false_eq_true, true_imp_iff]
      rcases inputQueuePollChar_ok hok with ⟨hnone, hempty⟩ | ⟨event, hwaiting, -, hchar⟩
      · rw [hnone, hempty]
        refine iff_of_true (.inl ⟨rfl, (by decide : errAgain ≠ 1)⟩) ?_
        simp
      · -- the first event is gone, so that it has to be a character
        have hgone : (inputQueuePollChar k.queue).2.waiting ≠ k.queue.waiting := fun heq => by
          have hlength := congrArg List.length hwaiting
          rw [heq, List.length_cons] at hlength
          omega
        rw [hwaiting, List.head?_cons, hchar]
        rw [hwaiting] at hgone
        simp only [hgone, false_and, false_or, Option.mem_def, Option.some.injEq, forall_eq', List.cons.injEq,
          and_true]
        cases event with
        | keyPress key =>
          have hbyte : (key &&& 0xff).toUInt8.toNat = key.toNat % 256 := by
            rw [UInt32.toNat_toUInt8, UInt32.toNat_and]
            have hmask : (255 : UInt32).toNat = 2 ^ 8 - 1 := rfl
            rw [hmask, Nat.and_two_pow_sub_one_eq_mod]
            omega
          constructor
          · rintro ⟨key', byte, heq, -, hsome, htoNat⟩
            cases heq
            cases hsome
            exact ⟨key, rfl, by omega⟩
          · rintro ⟨key', heq, hle⟩
            cases heq
            exact ⟨key, _, rfl, by simp, rfl, by omega⟩
        | keyRelease key => simp
        | mouseMove dx dy => simp
        | mouseButton button pressed => simp

/-- In a run of calls and arrivals every call takes nothing but a character, exactly if every call that comes to the
queue finds a character first, or nothing. -/
theorem stdinRun_keeps (env : FileEnv τ σ InputQueue) (hok : k.queue.Ok) (events : List StdinEvent) :
    EachStep (StdinEvent.step env) (StdinEvent.Keeps env) k events ↔
      EachStep (StdinEvent.step env) StdinEvent.FindsChar k events :=
  eachStep_iff (fun _ e hok => e.step_ok hok) (fun _ e hok => e.keeps_iff hok) hok

/-- The environment of the sample machine with an input queue. -/
def sampleStdinEnv : FileEnv Path Unit InputQueue where
  fs := sampleFileEnv.fs
  callbacks := sampleFileEnv.callbacks
  bootfsFind := sampleFileEnv.bootfsFind
  returnAddress := sampleFileEnv.returnAddress
  byte := sampleFileEnv.byte
  destroyWindows _ queue := queue
  poll k _ := k.rest.others
  irqWork k _ := k.rest.others
  inputQueuePollChar := inputQueuePollChar
  uartPuts _ queue := queue
  call _ _ := none

/-- A process with one page, and an empty input queue. -/
def sampleStdin : StdinKernel Path Unit :=
  { sampleMachine.kernel with
    processes := fun _ => { processInit 1 [] with userRegions := [⟨0x800000, 0x801000, 0, 0⟩] }
    current := some firstSlot
    rest := ⟨sampleFiles.vfs, ⟨fun _ => .mouseMove 0 0, 0, 0, 0⟩⟩ }

theorem stdinRun_keeps_sample :
    EachStep (StdinEvent.step sampleStdinEnv) (StdinEvent.Keeps sampleStdinEnv) sampleStdin
        [.arrive (.keyPress 97), .read 0x800000 1] ↔
      EachStep (StdinEvent.step sampleStdinEnv) StdinEvent.FindsChar sampleStdin
        [.arrive (.keyPress 97), .read 0x800000 1] :=
  stdinRun_keeps sampleStdinEnv ⟨by decide, by decide, by decide⟩ _

/-- A call takes a mouse event and gives no character. -/
theorem read_takes_mouse : ¬ EachStep (StdinEvent.step sampleStdinEnv) (StdinEvent.Keeps sampleStdinEnv) sampleStdin
    [.arrive (.mouseButton 0 true), .read 0x800000 1] := by
  rintro ⟨-, hread, -⟩
  have hwaiting : (((StdinEvent.arrive (.mouseButton 0 true)).step sampleStdinEnv sampleStdin).queue.waiting) =
      [.mouseButton 0 true] := rfl
  unfold StdinEvent.Keeps at hread
  rw [hwaiting] at hread
  rcases hread with ⟨hafter, -⟩ | ⟨key, byte, hkey, -⟩
  · have hlength := congrArg List.length hafter
    revert hlength
    decide +kernel
  · cases hkey

end Armonios
