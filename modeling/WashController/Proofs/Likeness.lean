import WashController.Proofs.Simulation

/-!
# Machines that a program cannot tell apart

What a program does not look at has no influence on it. It does not look at the time that has
passed, nor at the mark of a machine that has come to a halt, nor at the variables that it does not
name (`Assembly.variables`); of the memory as a whole it notices how much there is room for. Two
memories agree for it (`Memory.AgreeOn`) if they hold the same under the names that it uses and
are equally large and equally full, and they go on to agree when both are updated
(`Memory.AgreeOn.exists_update`). A machine with such a memory, and marked and timed otherwise, has
the same instructions carried out on it, in the same way but for the time
(`Executes.exists_twin`, `Refuses.twin`), and so it has the same steps and paths
(`follows_twin`, `Path.exists_twin`).
-/

namespace WashController

variable {α : Type}

/-! ## Variables -/

/-- The variable that an instruction names. -/
def Instruction.variable? : Instruction → Option String
  | pushVariable name | load _ name | store name _ | alloc name => some name
  | _ => none

/-- The variables that the instructions of a program name. -/
def Assembly.variables (assembly : Assembly) : List String :=
  assembly.program.toList.filterMap fun code => code.instruction.variable?

theorem Assembly.mem_variables_of_fetch? {assembly : Assembly} {address : Nat} {code : CodeLine}
    (fetched : assembly.fetch? address = some code) :
    ∀ name ∈ code.instruction.variable?, name ∈ assembly.variables := by
  intro name named
  have inProgram : code ∈ assembly.program.toList :=
    Array.mem_toList_iff.2 (Array.mem_of_getElem? fetched)
  exact List.mem_filterMap.2 ⟨code, inProgram, named⟩

/-! ## Memories -/

/-- Whether two memories hold the same under these names, and are equally full and equally
large. -/
structure Memory.AgreeOn (names : String → Prop) (memory other : Memory α) : Prop where
  cells : ∀ name, names name → other.get? name = memory.get? name
  size : other.size = memory.size
  capacity : other.capacity = memory.capacity

namespace Memory.AgreeOn

variable {names : String → Prop} {memory other third after : Memory α}

theorem refl (names : String → Prop) (memory : Memory α) : AgreeOn names memory memory :=
  ⟨fun _ _ => rfl, rfl, rfl⟩

theorem symm (agree : AgreeOn names memory other) : AgreeOn names other memory :=
  ⟨fun name member => (agree.cells name member).symm, agree.size.symm, agree.capacity.symm⟩

theorem trans (agree : AgreeOn names memory other) (further : AgreeOn names other third) :
    AgreeOn names memory third :=
  ⟨fun name member => (further.cells name member).trans (agree.cells name member),
    further.size.trans agree.size, further.capacity.trans agree.capacity⟩

/-- Memories that agree on all names are equal. -/
theorem eq (agree : AgreeOn (fun _ => True) memory other) : other = memory :=
  Memory.ext (fun name => agree.cells name trivial) agree.capacity

section Update

variable {name : String} {value : Option α → α} (agree : AgreeOn names memory other)
  (named : names name)

include agree named

theorem admits_eq : other.admits name = memory.admits name := by
  rw [Bool.eq_iff_iff, admits_iff, admits_iff, agree.cells name named, agree.size,
    agree.capacity]

/-- Where one of the memories can be updated the other can be too, and then they still agree. That
they are equally full is what keeps the update from succeeding on one and failing on the other. -/
theorem exists_update (updated : memory.update name value = .ok after) :
    ∃ otherAfter, other.update name value = .ok otherAfter ∧ after.AgreeOn names otherAfter := by
  have admitted : other.admits name = true :=
    (agree.admits_eq named).trans (update_eq_ok_iff.1 updated).1
  have twin : other.update name value = .ok _ := update_eq_ok_iff.2 ⟨admitted, rfl⟩
  refine ⟨_, twin, fun wanted among => ?_, ?_, ?_⟩
  · rw [get?_of_update twin, get?_of_update updated, agree.cells name named,
      agree.cells wanted among]
  · rw [size_of_update twin, size_of_update updated, agree.cells name named, agree.size]
  · rw [capacity_of_update twin, capacity_of_update updated, agree.capacity]

theorem update_eq_error {fault : Fault} (refused : memory.update name value = .error fault) :
    other.update name value = .error fault := by
  obtain ⟨full, rfl⟩ := update_eq_error_iff.1 refused
  refine update_eq_error_iff.2 ⟨(agree.admits_eq named).trans full, ?_⟩
  rw [agree.capacity]

end Update

end Memory.AgreeOn

/-! ## Twins -/

/-- The same machine with another memory, and marked and timed otherwise. -/
def Machine.twin (memory : Memory α) (halted : Bool) (ticks : α) (machine : Machine α) :
    Machine α :=
  { machine with memory := memory, halted := halted, ticks := ticks }

/-- A machine that is another one but for its memory, mark and time is a twin of it. -/
theorem Machine.eq_twin {machine other : Machine α}
    (registers : other.registers = machine.registers) (stack : other.stack = machine.stack)
    (sensors : other.sensors = machine.sensors) (counter : other.counter = machine.counter) :
    other = machine.twin other.memory other.halted other.ticks := by
  rw [twin, ← registers, ← stack, ← sensors, ← counter]

namespace Event

/-- The time after an event, given the time before it. -/
def elapsed [Arithmetic α] (ticks : α) : Event α → α
  | waited amount _ => Arithmetic.add ticks amount
  | _ => ticks

/-- The same event at another time. -/
def retimed (ticks : α) : Event α → Event α
  | waited amount _ => waited amount ticks
  | event => event

@[simp]
theorem goesOn_retimed (ticks : α) (event : Event α) :
    (event.retimed ticks).goesOn = event.goesOn := by
  cases event <;> rfl

theorem settle_twin {event : Event α} (going : event.goesOn = true) (memory : Memory α)
    (halted : Bool) (ticks time : α) (machine : Machine α) :
    (event.retimed time).settle (machine.twin memory halted ticks) =
      (event.settle machine).twin memory halted ticks := by
  cases event with
  | halted | ended => cases going
  | advanced | jumped | emitted | waited => rfl

end Event

variable [Arithmetic α] {names : String → Prop} {memory : Memory α} {machine : Machine α}

/-! ## Instructions -/

section Instruction

variable {labels : LabelTable} {after : Machine α} {instruction : Instruction}

/-- An instruction is carried out on a twin of a machine as it is on the machine, and leaves
another twin. -/
theorem Executes.exists_twin {event : Event α}
    (rule : Executes labels machine instruction event after)
    (agree : machine.memory.AgreeOn names memory)
    (named : ∀ name ∈ instruction.variable?, names name) (halted : Bool) (ticks : α) :
    ∃ other, after.memory.AgreeOn names other ∧
      Executes labels (machine.twin memory halted ticks) instruction
        (event.retimed (event.elapsed ticks)) (after.twin other halted (event.elapsed ticks)) := by
  -- The instructions that look at the memory are those that name a variable.
  cases rule with
  | pushLiteral pushed => exact ⟨memory, agree, .pushLiteral pushed⟩
  | pushVariable found pushed =>
      exact ⟨memory, agree, .pushVariable ((agree.cells _ (named _ rfl)).trans found) pushed⟩
  | push pushed => exact ⟨memory, agree, .push pushed⟩
  | pushNothing => exact ⟨memory, agree, .pushNothing⟩
  | pop popped => exact ⟨memory, agree, .pop popped⟩
  | popNothing => exact ⟨memory, agree, .popNothing⟩
  | load found => exact ⟨memory, agree, .load ((agree.cells _ (named _ rfl)).trans found)⟩
  | store stored =>
      obtain ⟨other, stored, agree⟩ := agree.exists_update (named _ rfl) stored
      exact ⟨other, agree, .store stored⟩
  | alloc allocated =>
      obtain ⟨other, allocated, agree⟩ := agree.exists_update (named _ rfl) allocated
      exact ⟨other, agree, .alloc allocated⟩
  | binary computed => exact ⟨memory, agree, .binary computed⟩
  | binaryNothing slots => exact ⟨memory, agree, .binaryNothing slots⟩
  | subLiteral => exact ⟨memory, agree, .subLiteral⟩
  | subLiteralNothing slot => exact ⟨memory, agree, .subLiteralNothing slot⟩
  | compare => exact ⟨memory, agree, .compare⟩
  | set => exact ⟨memory, agree, .set⟩
  | and => exact ⟨memory, agree, .and⟩
  | or => exact ⟨memory, agree, .or⟩
  | not => exact ⟨memory, agree, .not⟩
  | jump taken found => exact ⟨memory, agree, .jump taken found⟩
  | jumpNothing untaken => exact ⟨memory, agree, .jumpNothing untaken⟩
  | read found => exact ⟨memory, agree, .read found⟩
  | emit => exact ⟨memory, agree, .emit⟩
  | wait => exact ⟨memory, agree, .wait⟩
  | halt => exact ⟨memory, agree, .halt⟩

/-- An instruction that faults on a machine faults likewise on its twins. -/
theorem Refuses.twin {fault : Fault} (rule : Refuses labels machine instruction fault)
    (agree : machine.memory.AgreeOn names memory)
    (named : ∀ name ∈ instruction.variable?, names name) (halted : Bool) (ticks : α) :
    Refuses labels (machine.twin memory halted ticks) instruction fault := by
  cases rule with
  | pushLiteral refused => exact .pushLiteral refused
  | pushUndefined missing =>
      exact .pushUndefined ((agree.cells _ (named _ rfl)).trans missing)
  | pushVariable found refused =>
      exact .pushVariable ((agree.cells _ (named _ rfl)).trans found) refused
  | push refused => exact .push refused
  | pop refused => exact .pop refused
  | load missing => exact .load ((agree.cells _ (named _ rfl)).trans missing)
  | store refused => exact .store (agree.update_eq_error (named _ rfl) refused)
  | alloc refused => exact .alloc (agree.update_eq_error (named _ rfl) refused)
  | binary undefined => exact .binary undefined
  | jump taken missing => exact .jump taken missing
  | read missing => exact .read missing
  | unknown => exact .unknown

/-- The time after an instruction is given by its event. -/
theorem Executes.ticks_eq {event : Event α}
    (rule : Executes labels machine instruction event after) :
    after.ticks = event.elapsed machine.ticks := by
  cases rule <;> rfl

/-- An event tells the time after its instruction. -/
theorem Executes.retimed_eq {event : Event α}
    (rule : Executes labels machine instruction event after) :
    event.retimed after.ticks = event := by
  cases rule <;> rfl

end Instruction

/-! ## Steps and paths -/

section Path

variable {assembly : Assembly} {last : Machine α} {moments : List (Moment α)}

/-- A step that goes on goes on for the twins of the machine. -/
theorem follows_twin (assembly : Assembly) (halted : Bool) :
    Follows assembly assembly (fun moment : Moment α => moment.event.goesOn = true)
      (fun machine twin => ∃ memory ticks,
        machine.memory.AgreeOn (· ∈ assembly.variables) memory ∧
          machine.twin memory halted ticks = twin)
      (fun moment image => moment.code = image.code) := by
  rintro moment next - leads going ⟨memory, ticks, agree, rfl⟩
  obtain ⟨fetched, between, rule, rfl⟩ := Moment.leads_iff.1 leads
  obtain ⟨other, agree, rule⟩ :=
    rule.exists_twin agree (Assembly.mem_variables_of_fetch? fetched) halted ticks
  refine ⟨⟨moment.machine.twin memory halted ticks, moment.code, _⟩, _, rfl,
    Moment.leads_iff.2 ⟨fetched, _, rule, rfl⟩, moment.event.goesOn_retimed _, rfl,
    other, moment.event.elapsed ticks, ?_, ?_⟩
  · rwa [Event.settle_memory]
  · exact (Event.settle_twin going _ _ _ _ _).symm

/-- The twins of a machine take as many steps as the machine does, to twins of where it gets. -/
theorem Path.exists_twin (path : Path assembly machine moments last)
    (agree : machine.memory.AgreeOn (· ∈ assembly.variables) memory) (halted : Bool) (ticks : α) :
    ∃ twins other time, last.memory.AgreeOn (· ∈ assembly.variables) other ∧
      twins.length = moments.length ∧
      Path assembly (machine.twin memory halted ticks) twins (last.twin other halted time) := by
  obtain ⟨twins, _, taken, same, other, time, agree, rfl⟩ :=
    (follows_twin assembly halted).path path path.goesOn ⟨memory, ticks, agree, rfl⟩
  exact ⟨twins, other, time, agree, same.length_eq.symm, taken⟩

end Path

end WashController
