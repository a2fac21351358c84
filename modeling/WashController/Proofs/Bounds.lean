import WashController.Proofs.Addresses
import WashController.Proofs.Path

/-!
# Bounds on the machine

What is true of every machine that a program can get to. `Machine.Bounded` are the bounds that the
parts of a machine observe, and `Machine.Keeps` is what never changes. One step preserves both
(`step_bounded`, `step_keeps`), whether it succeeds or faults, and so does any number of steps
(`Reached.bounded`, `Reached.keeps`). That jumps stay within the program is not up to the
interpreter: it needs the labels of the assembly to point into the program, which assembling sees
to (`Assembly.le_size_of_get?`).
-/

namespace WashController

variable {α : Type}

namespace Machine

/-- The program counter is at most at the end of a program of this size, and neither the stack nor
the memory holds more than it may. -/
structure Bounded (machine : Machine α) (size : Nat) : Prop where
  counter_le : machine.counter ≤ size
  depth_le : machine.stack.depth ≤ machine.stack.capacity
  cells_le : machine.memory.size ≤ machine.memory.capacity

/-- What does not change as a program runs: the sensors, how much fits into the machine, and the
cells that there are, though not their values. -/
structure Keeps (before after : Machine α) : Prop where
  sensors : after.sensors = before.sensors
  stackCapacity : after.stack.capacity = before.stack.capacity
  memoryCapacity : after.memory.capacity = before.memory.capacity
  cells : ∀ name, (before.memory.get? name).isSome → (after.memory.get? name).isSome

theorem Keeps.refl (machine : Machine α) : Keeps machine machine :=
  ⟨rfl, rfl, rfl, fun _ => id⟩

theorem Keeps.trans {first second third : Machine α} (before : Keeps first second)
    (after : Keeps second third) : Keeps first third :=
  ⟨after.sensors.trans before.sensors, after.stackCapacity.trans before.stackCapacity,
    after.memoryCapacity.trans before.memoryCapacity,
    fun name => after.cells name ∘ before.cells name⟩

theorem bounded_initial [Arithmetic α] (limits : Limits) (size : Nat) :
    (initial limits : Machine α).Bounded size :=
  ⟨Nat.zero_le size, Nat.zero_le _, by simp [initial, Memory.empty, Memory.size]⟩

end Machine

/-- Every label of an assembly points into its program, or to its end. -/
def Assembly.Closed (assembly : Assembly) : Prop :=
  ∀ label target, assembly.labels.get? label = some target → target ≤ assembly.size

/-! ## One step -/

/-- An instruction is followed by the next one, which may be the end of the program, or by the
target of a jump. -/
theorem Event.counter_settle_le {event : Event α} {machine : Machine α} {size : Nat}
    (inProgram : machine.counter < size)
    (jump : ∀ target, event = .jumped target → target ≤ size) :
    (event.settle machine).counter ≤ size := by
  cases event with
  | jumped target => exact jump target rfl
  | halted | ended => exact Nat.le_of_lt inProgram
  | advanced | emitted | waited => exact inProgram

section Step

variable [Arithmetic α] {labels : LabelTable} {instruction : Instruction} {event : Event α}
  {assembly : Assembly} {machine after : Machine α} {fault : Fault}

theorem Executes.keeps (rule : Executes labels machine instruction event after) :
    machine.Keeps after := by
  refine ⟨rule.sensors_eq, ?_, ?_, fun name present => ?_⟩
  · rcases rule.stack_cases with same | ⟨value, pushed⟩ | ⟨value, popped⟩
    · rw [same]
    · rw [(Stack.push_eq_ok_iff.1 pushed).2]
    · exact (Stack.pop_eq_ok_iff.1 popped).2
  · rcases rule.memory_cases with same | ⟨name, value, updated⟩
    · rw [same]
    · exact Memory.capacity_of_update updated
  · rcases rule.memory_cases with same | ⟨other, value, updated⟩
    · rwa [same]
    · rw [Memory.get?_of_update updated]
      split
      · rfl
      · exact present

/-- A push finds room, and a pop makes some. -/
theorem Executes.depth_le (rule : Executes labels machine instruction event after)
    (bounded : machine.stack.depth ≤ machine.stack.capacity) :
    after.stack.depth ≤ after.stack.capacity := by
  rcases rule.stack_cases with same | ⟨value, pushed⟩ | ⟨value, popped⟩
  · rwa [same]
  · obtain ⟨room, pushed⟩ := Stack.push_eq_ok_iff.1 pushed
    rw [pushed]
    exact room
  · obtain ⟨values, capacity⟩ := Stack.pop_eq_ok_iff.1 popped
    have fewer : machine.stack.depth = after.stack.depth + 1 := congrArg List.length values
    omega

/-- A new cell needs room, and one that is there already needs none. -/
theorem Executes.cells_le (rule : Executes labels machine instruction event after)
    (bounded : machine.memory.size ≤ machine.memory.capacity) :
    after.memory.size ≤ after.memory.capacity := by
  rcases rule.memory_cases with same | ⟨name, value, updated⟩
  · rwa [same]
  · rw [Memory.size_of_update updated, Memory.capacity_of_update updated]
    split
    next => exact bounded
    next missing =>
      rcases Memory.admits_iff.1 (Memory.update_eq_ok_iff.1 updated).1 with present | room
      · exact absurd present missing
      · exact room

theorem step_keeps (stepped : step assembly machine = .ok event after) : machine.Keeps after := by
  rcases step_eq_ok_iff.1 stepped with ⟨-, rfl, rfl⟩ | ⟨code, between, -, rule, rfl⟩
  · exact .refl _
  · exact ⟨by simpa using rule.keeps.sensors, by simpa using rule.keeps.stackCapacity,
      by simpa using rule.keeps.memoryCapacity, by simpa using rule.keeps.cells⟩

theorem step_bounded (closed : assembly.Closed) (bounded : machine.Bounded assembly.size)
    (stepped : step assembly machine = .ok event after) : after.Bounded assembly.size := by
  rcases step_eq_ok_iff.1 stepped with ⟨-, rfl, rfl⟩ | ⟨code, between, fetched, rule, rfl⟩
  · exact bounded
  · have inProgram : between.counter < assembly.size :=
      rule.counter_eq ▸ Assembly.lt_size_of_fetch? fetched
    refine ⟨Event.counter_settle_le inProgram ?_, ?_, ?_⟩
    · intro target jumped
      subst jumped
      obtain ⟨label, found⟩ := rule.exists_label
      exact closed label target found
    · simpa using rule.depth_le bounded.depth_le
    · simpa using rule.cells_le bounded.cells_le

end Step

/-! ## Any number of steps -/

section Reached

variable [Arithmetic α]

/-- The machines that one gets to from a machine by steps, whether they succeed or fault. A step may
also be taken where the program has stopped. -/
inductive Reached (assembly : Assembly) (first : Machine α) : Machine α → Prop
  | refl : Reached assembly first first
  | step {machine next event} :
    Reached assembly first machine →
    step assembly machine = .ok event next →
    Reached assembly first next
  | fault {machine next fault} :
    Reached assembly first machine →
    WashController.step assembly machine = .error fault next →
    Reached assembly first next

variable {assembly : Assembly} {first last : Machine α}

theorem Path.reached {moments : List (Moment α)} (path : Path assembly first moments last) :
    Reached assembly first last :=
  path.invariant (fun _ _ _ reached stepped => Reached.step reached stepped) .refl

theorem Reached.keeps (reached : Reached assembly first last) : first.Keeps last := by
  induction reached with
  | refl => exact .refl first
  | step _ stepped ih => exact ih.trans (step_keeps stepped)
  | fault _ faulted ih =>
      obtain ⟨-, -, -, rfl⟩ := step_eq_error_iff.1 faulted
      exact ih

theorem Reached.bounded (reached : Reached assembly first last) (closed : assembly.Closed)
    (bounded : first.Bounded assembly.size) : last.Bounded assembly.size := by
  induction reached with
  | refl => exact bounded
  | step _ stepped ih => exact step_bounded closed ih stepped
  | fault _ faulted ih =>
      obtain ⟨-, -, -, rfl⟩ := step_eq_error_iff.1 faulted
      exact ih

end Reached

/-! ## Assembled programs -/

namespace Assembly

variable {limits : Limits} {name source : String} {log after : Log} {assembly : Assembly}

theorem closed_of_ofSource (loaded : ofSource limits name source log = .ok assembly after) :
    assembly.Closed :=
  fun _ _ found => le_size_of_get? loaded found

/-- The bounds on a machine are never left. They hold of a machine just switched on; and from any
machine that observes them, a program that was assembled only gets to machines that observe them,
with the same sensors and capacities and at least the same cells. At such a machine the end of the
program is reported just when the program counter is at the end; any other step starts inside the
program, so that the program counter can be counted up, and a jump stays within the program. -/
theorem bounds_are_kept (loaded : ofSource limits name source log = .ok assembly after) :
    assembly.size ≤ limits.maxInstructions ∧
    (∀ limits : Limits, (Machine.initial limits : Machine Word).Bounded assembly.size) ∧
    ∀ first : Machine Word, first.Bounded assembly.size →
      ∀ machine, Reached assembly first machine →
        machine.Bounded assembly.size ∧ first.Keeps machine ∧
        ∀ event next, step assembly machine = .ok event next →
          (event = .ended ↔ machine.counter = assembly.size) ∧
          (event ≠ .ended → machine.counter + 1 ≤ assembly.size) ∧
          ∀ target, event = .jumped target → target ≤ assembly.size := by
  refine ⟨size_le_maxInstructions loaded,
    fun limits => Machine.bounded_initial limits assembly.size, ?_⟩
  intro first start machine reached
  have bounded := reached.bounded (closed_of_ofSource loaded) start
  refine ⟨bounded, reached.keeps, fun event next stepped => ?_⟩
  rcases step_eq_ok_iff.1 stepped with ⟨past, rfl, rfl⟩ | ⟨code, between, fetched, rule, rfl⟩
  · have size_le := fetch?_eq_none_iff.1 past
    refine ⟨⟨fun _ => Nat.le_antisymm bounded.counter_le size_le, fun _ => rfl⟩,
      fun running => absurd rfl running, ?_⟩
    intro target jumped
    cases jumped
  · have inProgram : machine.counter < assembly.size := lt_size_of_fetch? fetched
    refine ⟨⟨fun ended => absurd ended rule.event_ne_ended, fun atEnd => by omega⟩,
      fun _ => inProgram, ?_⟩
    intro target jumped
    subst jumped
    obtain ⟨label, found⟩ := rule.exists_label
    exact le_size_of_get? loaded found

/-- A jump to a label at the end of a program. The machine that it leads to is at the end. -/
theorem bounds_are_kept_jump_to_end :
    ∃ assembly after, ofSource {} "jump" "JMP end\nend:\n" #[] = .ok assembly after ∧
      ∃ machine : Machine Word, Reached assembly (.initial {}) machine ∧
        machine.Bounded assembly.size ∧ machine.counter = assembly.size := by
  obtain ⟨assembly, after, loaded, first, jumped, second, ended⟩ : ∃ assembly after,
      ofSource {} "jump" "JMP end\nend:\n" #[] = .ok assembly after ∧
        ∃ first : Machine Word, step assembly (.initial {}) = .ok (.jumped 1) first ∧
        ∃ second, step assembly first = .ok .ended second :=
    ⟨_, _, rfl, _, rfl, _, rfl⟩
  obtain ⟨-, switchedOn, kept⟩ := bounds_are_kept loaded
  have reached : Reached assembly (.initial {}) first := .step .refl jumped
  obtain ⟨bounded, -, events⟩ := kept (.initial {}) (switchedOn {}) first reached
  exact ⟨assembly, after, loaded, first, reached, bounded, (events _ _ ended).1.1 rfl⟩

end Assembly

end WashController
