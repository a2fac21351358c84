import WashController.Proofs.Path

/-!
# Memory as a history

What a cell holds is decided by the instructions carried out so far, and by two of them only. A
store sets the cell that it names to the value of its operand, as its step finds the registers, and
an allocation makes sure that the cell is there; nothing else touches the memory
(`Executes.get?_memory`). Along a path the last store to a cell is what counts, then what the cell
held at the start, then whether it was allocated at all: `recalled` reads this off the moments of
the path, and it is what the memory gives (`Path.get?_eq_recalled`) and what every instruction that
reads a variable finds (`memory_is_write_history`).
-/

namespace WashController

variable {α : Type} [Arithmetic α]

/-- What an instruction stores under a name, if it does, as it finds the registers. -/
def Instruction.stored? (registers : Registers α) (name : String) : Instruction → Option α
  | .store target value => if target = name then some (registers.evaluate value) else none
  | _ => none

namespace Moment

/-- What is stored under a name at a moment, if anything is. -/
def stored? (name : String) (moment : Moment α) : Option α :=
  moment.code.instruction.stored? moment.machine.registers name

/-- Whether the cell of a name is allocated at a moment. -/
def allocates (name : String) (moment : Moment α) : Bool :=
  moment.code.instruction = .alloc name

end Moment

/-- What a program has left under a name, when it starts on a machine and these are its moments: the
value that was stored last; if none was, the value that the machine held at the start; if there was
none, zero if the cell was allocated since, and nothing otherwise. -/
def recalled (first : Machine α) (moments : List (Moment α)) (name : String) : Option α :=
  (moments.filterMap (Moment.stored? name)).getLast?.or
    ((first.memory.get? name).or
      (if moments.any (Moment.allocates name) then some Arithmetic.zero else none))

/-! ## One step -/

section Step

variable {labels : LabelTable} {instruction : Instruction} {event : Event α}
  {assembly : Assembly} {machine after : Machine α}

/-- What an instruction makes of a cell. -/
theorem Executes.get?_memory (rule : Executes labels machine instruction event after)
    (name : String) :
    after.memory.get? name = (instruction.stored? machine.registers name).or
      ((machine.memory.get? name).or
        (if instruction = .alloc name then some Arithmetic.zero else none)) := by
  cases rule with
  | @store target value memory stored =>
      rw [Memory.get?_of_update stored]
      by_cases same : target = name <;> simp [Instruction.stored?, same]
  | @alloc target memory allocated =>
      rw [Memory.get?_of_update allocated]
      by_cases same : target = name
      · subst same
        cases machine.memory.get? target <;> simp [Instruction.stored?]
      · simp [Instruction.stored?, same]
  | _ => simp [Instruction.stored?]

/-- What a step makes of a cell is up to the instruction under the program counter. -/
theorem step_get?_memory {code : CodeLine} (fetched : assembly.fetch? machine.counter = some code)
    (stepped : step assembly machine = .ok event after) (name : String) :
    after.memory.get? name = (Moment.stored? name ⟨machine, code, event⟩).or
      ((machine.memory.get? name).or
        (if Moment.allocates name ⟨machine, code, event⟩ then some Arithmetic.zero else none)) := by
  rcases step_eq_ok_iff.1 stepped with ⟨past, -, -⟩ | ⟨_, between, here, rule, rfl⟩
  · cases fetched.symm.trans past
  · cases fetched.symm.trans here
    rw [Event.settle_memory, rule.get?_memory]
    simp [Moment.stored?, Moment.allocates]

/-- A step that stops the program leaves the memory alone. -/
theorem memory_eq_of_step (stepped : step assembly machine = .ok event after)
    (stops : event.goesOn = false) : after.memory = machine.memory := by
  rcases step_eq_ok_iff.1 stepped with ⟨-, -, rfl⟩ | ⟨code, between, -, rule, rfl⟩
  · rfl
  · generalize code.instruction = instruction at rule
    cases rule with
    | halt => rfl
    | _ => cases stops

end Step

/-! ## The history of a path -/

section Path

variable {assembly : Assembly} {first next last machine : Machine α} {moment : Moment α}
  {moments : List (Moment α)} {name : String}

/-- What is recalled after a first moment is what is recalled from there. -/
theorem recalled_cons (stepped : next.memory.get? name = (moment.stored? name).or
      ((first.memory.get? name).or
        (if moment.allocates name then some Arithmetic.zero else none))) :
    recalled next moments name = recalled first (moment :: moments) name := by
  unfold recalled
  rw [stepped, List.filterMap_cons, List.any_cons]
  cases moment.stored? name with
  | some value =>
      cases written : (moments.filterMap (Moment.stored? name)).getLast? <;>
        simp [List.getLast?_cons, written]
  | none =>
      cases moment.allocates name <;> cases first.memory.get? name <;> simp

/-- The memory at the end of a path is the history of the path. -/
theorem Path.get?_eq_recalled (path : Path assembly first moments last) (name : String) :
    last.memory.get? name = recalled first moments name := by
  induction path with
  | refl => simp [recalled]
  | head fetched stepped _ _ ih =>
      rw [ih]
      exact recalled_cons (step_get?_memory fetched stepped name)

/-- A load writes the value of its variable, and faults if there is none. -/
theorem step_of_load {target : Slot} {line : Nat}
    (fetched : assembly.fetch? machine.counter = some ⟨.load target name, line⟩) :
    (∀ value, machine.memory.get? name = some value →
      step assembly machine = .ok .advanced
        { machine with
          registers := machine.registers.write target value
          counter := machine.counter + 1 }) ∧
    (step assembly machine = .error (.undefinedVariable name) machine ↔
      machine.memory.get? name = none) := by
  refine ⟨fun value found => ?_, fun faulted => ?_, fun missing => ?_⟩
  · exact step_eq_ok_iff.2 (.inr ⟨_, _, fetched, .load found, rfl⟩)
  · obtain ⟨_, here, rule, -⟩ := step_eq_error_iff.1 faulted
    cases fetched.symm.trans here
    cases rule with
    | load missing => exact missing
  · exact step_eq_error_iff.2 ⟨_, fetched, .load missing, rfl⟩

/-- A push of a variable pushes its value if there is room, and finds the variable undefined if
there is no value, room or not. -/
theorem step_of_pushVariable {line : Nat}
    (fetched : assembly.fetch? machine.counter = some ⟨.pushVariable name, line⟩) :
    (∀ value, machine.memory.get? name = some value →
      (∀ stack, machine.stack.push value = .ok stack →
        step assembly machine =
          .ok .advanced { machine with stack := stack, counter := machine.counter + 1 }) ∧
      ∀ fault, machine.stack.push value = .error fault →
        step assembly machine = .error fault machine) ∧
    (step assembly machine = .error (.undefinedVariable name) machine ↔
      machine.memory.get? name = none) := by
  refine ⟨fun value found => ⟨fun stack pushed => ?_, fun fault refused => ?_⟩,
    fun faulted => ?_, fun missing => ?_⟩
  · exact step_eq_ok_iff.2 (.inr ⟨_, _, fetched, .pushVariable found pushed, rfl⟩)
  · exact step_eq_error_iff.2 ⟨_, fetched, .pushVariable found refused, rfl⟩
  · obtain ⟨_, here, rule, -⟩ := step_eq_error_iff.1 faulted
    cases fetched.symm.trans here
    cases rule with
    | pushUndefined missing => exact missing
    | pushVariable _ refused => cases (Stack.push_eq_error_iff.1 refused).2
  · exact step_eq_error_iff.2 ⟨_, fetched, .pushUndefined missing, rfl⟩

end Path

/-- The memory is its history. After any number of completed steps, a cell holds the value that was
stored to it last, as the step of that store found it; if nothing was stored to it, what it held at
the start; if there was no such cell, zero if it was allocated, and there still is none otherwise. A
step that stops the program changes no cell. So an instruction that reads a variable is given just
that value, for a register or for the stack, and it finds the variable undefined just where the
history has no value. -/
theorem memory_is_write_history {assembly : Assembly} {first machine : Machine Word}
    {moments : List (Moment Word)} (path : Path assembly first moments machine) (name : String) :
    machine.memory.get? name = recalled first moments name ∧
    (∀ event next, step assembly machine = .ok event next → event.goesOn = false →
      next.memory = machine.memory) ∧
    (∀ target line, assembly.fetch? machine.counter = some ⟨.load target name, line⟩ →
      (∀ value, recalled first moments name = some value →
        step assembly machine = .ok .advanced
          { machine with
            registers := machine.registers.write target value
            counter := machine.counter + 1 }) ∧
      (step assembly machine = .error (.undefinedVariable name) machine ↔
        recalled first moments name = none)) ∧
    ∀ line, assembly.fetch? machine.counter = some ⟨.pushVariable name, line⟩ →
      (∀ value, recalled first moments name = some value →
        (∀ stack, machine.stack.push value = .ok stack →
          step assembly machine =
            .ok .advanced { machine with stack := stack, counter := machine.counter + 1 }) ∧
        ∀ fault, machine.stack.push value = .error fault →
          step assembly machine = .error fault machine) ∧
      (step assembly machine = .error (.undefinedVariable name) machine ↔
        recalled first moments name = none) := by
  have history := path.get?_eq_recalled name
  refine ⟨history, fun event next stepped stops => memory_eq_of_step stepped stops, ?_⟩
  rw [← history]
  exact ⟨fun target line fetched => step_of_load fetched,
    fun line fetched => step_of_pushVariable fetched⟩

/-- A cell that is stored to twice, with an allocation in between, and then loaded; and another one
that is never stored to. -/
theorem memory_is_write_history_twice :
    ∃ (assembly : Assembly) (machine next : Machine Word) (moments : List (Moment Word)),
      Path assembly (.initial {}) moments machine ∧
      moments.map (·.code.line) = [1, 2, 3, 4] ∧
      machine.memory.get? "x" = some 3 ∧ machine.memory.get? "y" = none ∧
      step assembly machine = .ok .advanced next ∧ next.registers.r1 = 3 := by
  let assembly : Assembly := ⟨"twice", #[⟨.store "x" (.literal 5), 1⟩, ⟨.alloc "x", 2⟩,
    ⟨.subLiteral (some .r0) (-3), 3⟩, ⟨.store "x" (.register .r0), 4⟩, ⟨.load (some .r1) "x", 5⟩],
    .empty⟩
  obtain ⟨moments, machine, path, lines, fetched, x, y⟩ :
      ∃ (moments : List (Moment Word)) (machine : Machine Word),
        Path assembly (.initial {}) moments machine ∧ moments.map (·.code.line) = [1, 2, 3, 4] ∧
        assembly.fetch? machine.counter = some ⟨.load (some .r1) "x", 5⟩ ∧
        recalled (.initial {}) moments "x" = some 3 ∧ recalled (.initial {}) moments "y" = none :=
    ⟨_, _, .head rfl rfl rfl (.head rfl rfl rfl (.head rfl rfl rfl (.head rfl rfl rfl .refl))),
      rfl, rfl, rfl, rfl⟩
  obtain ⟨historyX, -, loads, -⟩ := memory_is_write_history path "x"
  obtain ⟨historyY, -⟩ := memory_is_write_history path "y"
  obtain ⟨delivers, -⟩ := loads _ _ fetched
  exact ⟨assembly, machine, _, moments, path, lines, historyX.trans x, historyY.trans y,
    delivers _ x, rfl⟩

end WashController
