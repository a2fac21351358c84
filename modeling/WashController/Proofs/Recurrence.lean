import WashController.Proofs.Bounds
import WashController.Proofs.Likeness
import WashController.Proofs.Refinement

/-!
# Programs that come back to where they were

A program that comes back to the registers, the memory, the stack and the counter that it had before
goes round for ever. It does not matter that time has passed: the machine is a twin of what it was
(`Machine.eq_twin`), so that the way round can be gone again from there, as often as one likes
(`Path.exists_laps`). The program is `Endless`, then (`Path.endless_of_recurrence`): every step
limit is reached, and without a limit the run does not return (`recurring_state_never_halts`).
-/

namespace WashController

/-! ## Going round -/

section Path

variable {α : Type} [Arithmetic α] {assembly : Assembly} {machine last : Machine α}
  {memory : Memory α} {halted : Bool} {ticks : α} {moments : List (Moment α)}

/-- Whether a program never stops on a machine: it can take any number of steps. -/
def Endless (assembly : Assembly) (machine : Machine α) : Prop :=
  ∀ count, ∃ moments last, Path assembly machine moments last ∧ moments.length = count

/-- A way from a machine to a twin of it can be gone any number of times. -/
theorem Path.exists_laps (round : Path assembly machine moments (machine.twin memory halted ticks))
    (agree : machine.memory.AgreeOn (· ∈ assembly.variables) memory) (laps : Nat) :
    ∃ walk held mark time, machine.memory.AgreeOn (· ∈ assembly.variables) held ∧
      walk.length = laps * moments.length ∧
      Path assembly machine walk (machine.twin held mark time) := by
  induction laps with
  | zero =>
      exact ⟨[], machine.memory, machine.halted, machine.ticks, .refl _ _,
        (Nat.zero_mul _).symm, .refl⟩
  | succ laps ih =>
      obtain ⟨walk, held, mark, time, likewise, length, path⟩ := ih
      -- The way is gone once more as it is from here, where the clock stands differently.
      obtain ⟨lap, left, later, further, lapLength, again⟩ :=
        round.exists_twin likewise mark time
      refine ⟨walk ++ lap, left, mark, later, agree.trans further, ?_, path.trans again⟩
      rw [List.length_append, length, lapLength, Nat.succ_mul]

/-- A path that comes back to a twin of a machine that it has passed can be continued for ever. -/
theorem Path.endless_of_recurrence (path : Path assembly machine moments last) {place : Nat}
    (before : place < moments.length)
    (recurs : last = (Moment.machineAfter moments last place).twin memory halted ticks)
    (agree : (Moment.machineAfter moments last place).memory.AgreeOn (· ∈ assembly.variables)
      memory) : Endless assembly machine := by
  intro count
  obtain ⟨arrival, round⟩ := path.take_drop place
  generalize Moment.machineAfter moments last place = early at arrival round recurs agree
  subst recurs
  -- Each lap has a step at least, so that as many laps as steps are wanted are enough.
  obtain ⟨walk, _, _, _, -, length, laps⟩ := round.exists_laps agree count
  have progress : 0 < (moments.drop place).length := by
    rw [List.length_drop]
    omega
  have long : count ≤ (moments.take place ++ walk).length := by
    rw [List.length_append, length]
    exact Nat.le_add_left_of_le (Nat.le_mul_of_pos_right count progress)
  exact ⟨_, _, ((arrival.trans laps).take_drop count).1, List.length_take_of_le long⟩

/-- After any number of steps, a program that never stops finds an instruction to carry out. -/
theorem Endless.exists_inProgram (endless : Endless assembly machine) (count : Nat) :
    ∃ moments last, Path assembly machine moments last ∧ moments.length = count ∧
      last.counter < assembly.size := by
  obtain ⟨walk, final, path, length⟩ := endless (count + 1)
  rw [← List.take_append_drop count walk] at path
  obtain ⟨between, before, onward⟩ := path.exists_of_append
  refine ⟨walk.take count, between, before, List.length_take_of_le (by omega), ?_⟩
  have one : (walk.drop count).length = 1 := by
    rw [List.length_drop, length, Nat.add_sub_cancel_left]
  generalize walk.drop count = rest at onward one
  cases onward with
  | refl => cases one
  | head fetched _ _ _ => exact Assembly.lt_size_of_fetch? fetched

end Path

namespace Session

variable {assembly : Assembly} {machine last : Machine Word} {moments : List (Moment Word)}
  {sink : Sink} {log : Log}

/-! ## Runs -/

/-- A run whose steps never stop the program ends by its step limit only. -/
theorem exists_stepLimit_of_endless (endless : Endless assembly machine)
    (accepting : sink.room = none) (most : Nat) :
    ∃ after, EndsWith assembly (some most) (start machine sink log) (.fault (.stepLimit most))
      after ∧ after.executed = most := by
  obtain ⟨ending, after, ends⟩ := exists_endsWith assembly most (start machine sink log)
  obtain ⟨walk, final, path, length, inProgram⟩ := endless.exists_inProgram most
  obtain rfl := (ends.stepLimit_iff accepting).2 ⟨walk, final, path, length, inProgram⟩
  exact ⟨after, ends, ends.exists_of_stepLimit.2.1⟩

/-- A run whose steps never stop the program does not end without a limit. -/
theorem not_endsWith_of_endless (endless : Endless assembly machine)
    (accepting : sink.room = none) (ending : Ending) (after : Session) :
    ¬ EndsWith assembly none (start machine sink log) ending after := by
  intro ends
  obtain ⟨turns, ended⟩ := ends
  obtain ⟨walk, final, path, length⟩ := endless turns
  have onward : advance assembly none turns (start machine sink log) = .ok () _ :=
    advance_eq_ok_iff.2 ⟨walk, final, path, length, by simp [Affords],
      shows_of_room_eq_none accepting walk, rfl⟩
  cases ended.symm.trans onward

/-- A control state that recurs never lets the program halt. Let a program go on for some steps, at
the end of which the registers, the memory, the stack and the counter are what they were at some
place on the way. Where everything can be written, every step limit then ends the run, after just
as many instructions as it allows, and nothing else does: without a limit it does not return. -/
theorem recurring_state_never_halts (path : Path assembly machine moments last) (place : Nat)
    (before : place < moments.length)
    (registers : last.registers = (Moment.machineAfter moments last place).registers)
    (memory : last.memory = (Moment.machineAfter moments last place).memory)
    (stack : last.stack = (Moment.machineAfter moments last place).stack)
    (counter : last.counter = (Moment.machineAfter moments last place).counter)
    (accepting : sink.room = none) (log : Log) :
    (∀ most, ∃ after, after.executed = most ∧ ∀ ending final,
      EndsWith assembly (some most) (start machine sink log) ending final ↔
        ending = .fault (.stepLimit most) ∧ final = after) ∧
    ∀ ending final, ¬ EndsWith assembly none (start machine sink log) ending final := by
  have sensors : last.sensors = (Moment.machineAfter moments last place).sensors :=
    (path.take_drop place).2.reached.keeps.sensors
  have agree : (Moment.machineAfter moments last place).memory.AgreeOn (· ∈ assembly.variables)
      last.memory := memory ▸ .refl _ _
  have endless : Endless assembly machine :=
    path.endless_of_recurrence before (Machine.eq_twin registers stack sensors counter) agree
  refine ⟨fun most => ?_, not_endsWith_of_endless endless accepting⟩
  obtain ⟨after, ends, executed⟩ := exists_stepLimit_of_endless endless accepting most
  exact ⟨after, executed, fun ending final => ends.iff_eq⟩

/-- A program that waits again and again. Each time the clock stands differently, and still the run
is ended by its limit only. -/
theorem recurring_state_never_halts_waiting :
    ∃ (assembly : Assembly) (machine last : Machine Word) (moments : List (Moment Word)),
      Path assembly machine moments last ∧ last.ticks ≠ machine.ticks ∧
      (∃ after, EndsWith assembly (some 1000) (start machine (.empty none) #[])
        (.fault (.stepLimit 1000)) after ∧ after.executed = 1000) ∧
      ∀ ending final, ¬ EndsWith assembly none (start machine (.empty none) #[]) ending final := by
  let assembly : Assembly :=
    ⟨"wait", #[⟨.wait, 2⟩, ⟨.jump .always "again", 3⟩], ⟨.ofList [("again", 0)]⟩⟩
  let machine : Machine Word := { Machine.initial {} with registers := ⟨1, 0⟩ }
  have path : Path assembly machine _ _ := .head rfl rfl rfl (.head rfl rfl rfl .refl)
  have accepting : (Sink.empty none).room = none := rfl
  obtain ⟨limited, unlimited⟩ :=
    recurring_state_never_halts path 0 (by decide) rfl rfl rfl rfl accepting #[]
  obtain ⟨after, executed, ends⟩ := limited 1000
  exact ⟨assembly, machine, _, _, path, by decide, ⟨after, (ends _ _).2 ⟨rfl, rfl⟩, executed⟩,
    unlimited⟩

end Session

end WashController
