import WashController.Proofs.Outcome
import WashController.Step

/-!
# Outcomes of effects

When each effect succeeds and when it faults, and what it leaves in either case. These lemmas open
the effects; together with those on binds they reduce the execution of an instruction to facts
about the parts of the machine.
-/

namespace WashController

variable {α : Type}

/-- The registers after a value is written to a slot. An empty slot drops the value. -/
def Registers.write (registers : Registers α) : Slot → α → Registers α
  | some target, value => registers.set target value
  | none, _ => registers

/-- The value of an operand, given the registers. -/
def Registers.evaluate [Arithmetic α] (registers : Registers α) : Operand → α
  | .register source => registers.get source
  | .literal value => Arithmetic.ofWord value

namespace Effect

variable {machine after : Machine α} {value : α} {fault : Fault}

@[simp]
theorem register_eq_ok_iff {source : Register} :
    register source machine = .ok value after ↔
      machine.registers.get source = value ∧ machine = after := by
  simp [register]

@[simp]
theorem register_ne_error {source : Register} : register source machine ≠ .error fault after := by
  simp [register]

@[simp]
theorem push_eq_ok_iff {result : Unit} :
    push value machine = .ok result after ↔
      ∃ stack, machine.stack.push value = .ok stack ∧ { machine with stack := stack } = after := by
  unfold push
  cases machine.stack.push value <;> simp

@[simp]
theorem push_eq_error_iff :
    push value machine = .error fault after ↔
      machine.stack.push value = .error fault ∧ machine = after := by
  unfold push
  cases machine.stack.push value <;> simp

@[simp]
theorem pop_eq_ok_iff :
    pop machine = .ok value after ↔
      ∃ stack, machine.stack.pop = .ok (value, stack) ∧
        { machine with stack := stack } = after := by
  unfold pop
  rcases machine.stack.pop with fault | ⟨top, stack⟩
  · simp
  · simp only [EStateM.Result.ok.injEq, Except.ok.injEq, Prod.mk.injEq]
    refine ⟨?_, ?_⟩
    · intro given
      rcases given with ⟨rfl, rfl⟩
      exact ⟨stack, ⟨rfl, rfl⟩, rfl⟩
    · intro given
      rcases given with ⟨_, ⟨rfl, rfl⟩, rfl⟩
      exact ⟨rfl, rfl⟩

@[simp]
theorem pop_eq_error_iff :
    pop machine = .error fault after ↔
      machine.stack.pop = .error fault ∧ machine = after := by
  unfold pop
  rcases machine.stack.pop with refused | ⟨top, stack⟩ <;> simp

@[simp]
theorem variableValue_eq_ok_iff {name : String} :
    variableValue name machine = .ok value after ↔
      machine.memory.get? name = some value ∧ machine = after := by
  unfold variableValue
  cases machine.memory.get? name <;> simp

@[simp]
theorem variableValue_eq_error_iff {name : String} :
    variableValue name machine = .error fault after ↔
      machine.memory.get? name = none ∧ .undefinedVariable name = fault ∧ machine = after := by
  unfold variableValue
  cases machine.memory.get? name <;> simp

@[simp]
theorem remember_eq_ok_iff {change : Memory α → Except Fault (Memory α)} {result : Unit} :
    remember change machine = .ok result after ↔
      ∃ memory, change machine.memory = .ok memory ∧ { machine with memory := memory } = after := by
  unfold remember
  cases change machine.memory <;> simp

@[simp]
theorem remember_eq_error_iff {change : Memory α → Except Fault (Memory α)} :
    remember change machine = .error fault after ↔
      change machine.memory = .error fault ∧ machine = after := by
  unfold remember
  cases change machine.memory <;> simp

@[simp]
theorem write_eq_ok_iff {target : Slot} {result : Unit} :
    write target value machine = .ok result after ↔
      { machine with registers := machine.registers.write target value } = after := by
  cases target <;> simp [write, Registers.write]

@[simp]
theorem write_ne_error {target : Slot} : write target value machine ≠ .error fault after := by
  cases target <;> simp [write]

@[simp]
theorem branch_eq_ok_iff {labels : LabelTable} {label : String} {taken : Bool} {event : Event α} :
    branch labels label taken machine = .ok event after ↔
      machine = after ∧ (taken = false ∧ .advanced = event ∨
        taken = true ∧ ∃ target, labels.get? label = some target ∧ .jumped target = event) := by
  unfold branch
  cases taken <;> cases labels.get? label <;> simp [and_comm]

@[simp]
theorem branch_eq_error_iff {labels : LabelTable} {label : String} {taken : Bool} :
    branch labels label taken machine = .error fault after ↔
      taken = true ∧ labels.get? label = none ∧ .undefinedLabel label = fault ∧
        machine = after := by
  unfold branch
  cases taken <;> cases labels.get? label <;> simp

variable [Arithmetic α]

@[simp]
theorem evaluate_eq_ok_iff {operand : Operand} :
    evaluate operand machine = .ok value after ↔
      machine.registers.evaluate operand = value ∧ machine = after := by
  cases operand <;> simp [evaluate, Registers.evaluate]

@[simp]
theorem evaluate_ne_error {operand : Operand} : evaluate operand machine ≠ .error fault after := by
  cases operand <;> simp [evaluate]

@[simp]
theorem compute_eq_ok_iff {operation : BinaryOp} {left right : α} :
    compute operation left right machine = .ok value after ↔
      operation.result? left right = some value ∧ machine = after := by
  unfold compute
  cases operation.result? left right <;> simp

@[simp]
theorem compute_eq_error_iff {operation : BinaryOp} {left right : α} :
    compute operation left right machine = .error fault after ↔
      operation.result? left right = none ∧ .divisionByZero = fault ∧ machine = after := by
  unfold compute
  cases operation.result? left right <;> simp

@[simp]
theorem sense_eq_ok_iff {sensor : String} :
    sense sensor machine = .ok value after ↔
      ∃ reading, machine.sensors.read? sensor = some reading ∧
        Arithmetic.ofWord reading = value ∧ machine = after := by
  unfold sense
  cases machine.sensors.read? sensor <;> simp

@[simp]
theorem sense_eq_error_iff {sensor : String} :
    (sense sensor : Effect α α) machine = .error fault after ↔
      machine.sensors.read? sensor = none ∧ .undefinedSensor sensor = fault ∧ machine = after := by
  unfold sense
  cases machine.sensors.read? sensor <;> simp

@[simp]
theorem spend_eq_ok_iff {amount : α} :
    spend amount machine = .ok value after ↔
      Arithmetic.add machine.ticks amount = value ∧
        { machine with ticks := Arithmetic.add machine.ticks amount } = after := by
  simp [spend]

@[simp]
theorem spend_ne_error {amount : α} : spend amount machine ≠ .error fault after := by
  simp [spend]

end Effect

end WashController
