import WashController.Assembly
import WashController.Machine

/-!
# Steps

What one instruction does to a machine. Instructions are made of effects, which may fault; nothing
rolls the machine back when one does, so each instruction is written to fail before it changes
anything. `execute` carries out an instruction and reports the event it amounts to, and `step` does
so for the instruction under the program counter and then moves the counter.
-/

namespace WashController

/-- Something done to a machine. It ends in a result or in a fault, and leaves a machine in either
case. -/
abbrev Effect (α β : Type) :=
  EStateM Fault (Machine α) β

/-- What a step amounts to, apart from the state that it leaves. -/
inductive Event (α : Type)
  /-- An instruction was carried out, and the next one follows. -/
  | advanced
  /-- The program goes on at another address. -/
  | jumped (target : Nat)
  | emitted (actuator : String) (value : α)
  /-- The program waited, and this is how long it has waited in total. -/
  | waited (amount total : α)
  /-- The program stopped itself. -/
  | halted
  /-- There is no instruction under the program counter. -/
  | ended
  deriving DecidableEq

namespace Effect

variable {α : Type}

/-- The content of a register. -/
def register (source : Register) : Effect α α := fun machine =>
  .ok (machine.registers.get source) machine

/-- Writes a register. A slot that names no register takes the value and drops it. -/
def write (target : Slot) (value : α) : Effect α Unit := fun machine =>
  match target with
  | some register => .ok () { machine with registers := machine.registers.set register value }
  | none => .ok () machine

/-- Puts a value on the stack. -/
def push (value : α) : Effect α Unit := fun machine =>
  match machine.stack.push value with
  | .ok stack => .ok () { machine with stack := stack }
  | .error fault => .error fault machine

/-- Takes a value from the stack. -/
def pop : Effect α α := fun machine =>
  match machine.stack.pop with
  | .ok (value, stack) => .ok value { machine with stack := stack }
  | .error fault => .error fault machine

/-- The value of a variable. -/
def variableValue (name : String) : Effect α α := fun machine =>
  match machine.memory.get? name with
  | some value => .ok value machine
  | none => .error (.undefinedVariable name) machine

/-- Changes the memory. -/
def remember (change : Memory α → Except Fault (Memory α)) : Effect α Unit := fun machine =>
  match change machine.memory with
  | .ok memory => .ok () { machine with memory := memory }
  | .error fault => .error fault machine

/-- Goes on at a label if a jump is taken, and just goes on if not. The label is looked up only
when the jump is taken. -/
def branch (labels : LabelTable) (label : String) (taken : Bool) : Effect α (Event α) :=
  fun machine =>
    if taken then
      match labels.get? label with
      | some offset => .ok (.jumped offset) machine
      | none => .error (.undefinedLabel label) machine
    else
      .ok .advanced machine

variable [Arithmetic α]

/-- The value of an operand. -/
def evaluate : Operand → Effect α α
  | .register source => register source
  | .literal value => pure (Arithmetic.ofWord value)

/-- The result of an arithmetic operation. -/
def compute (operation : BinaryOp) (left right : α) : Effect α α := fun machine =>
  match operation.result? left right with
  | some result => .ok result machine
  | none => .error .divisionByZero machine

/-- The reading of a sensor. -/
def sense (sensor : String) : Effect α α := fun machine =>
  match machine.sensors.read? sensor with
  | some reading => .ok (Arithmetic.ofWord reading) machine
  | none => .error (.undefinedSensor sensor) machine

/-- Lets time pass, and gives the total. -/
def spend (amount : α) : Effect α α := fun machine =>
  let total := Arithmetic.add machine.ticks amount
  .ok total { machine with ticks := total }

end Effect

namespace Event

variable {α : Type} (event : Event α) (machine : Machine α)

/-- Moves the program counter after an event. It stays where it is when the program stopped or
there was nothing to execute. -/
def settle : Machine α :=
  match event with
  | .jumped target => { machine with counter := target }
  | .halted => { machine with halted := true }
  | .ended => machine
  | _ => { machine with counter := machine.counter + 1 }

@[simp]
theorem settle_registers : (event.settle machine).registers = machine.registers := by
  cases event <;> rfl

@[simp]
theorem settle_memory : (event.settle machine).memory = machine.memory := by
  cases event <;> rfl

@[simp]
theorem settle_stack : (event.settle machine).stack = machine.stack := by
  cases event <;> rfl

@[simp]
theorem settle_sensors : (event.settle machine).sensors = machine.sensors := by
  cases event <;> rfl

@[simp]
theorem settle_ticks : (event.settle machine).ticks = machine.ticks := by
  cases event <;> rfl

end Event

section Execute

variable {α : Type} [Arithmetic α]

open Effect

/-- Carries out an instruction, without moving the program counter. Arithmetic works on R0 and R1
in this order and leaves its result in R0; written with other registers it does nothing. -/
def execute (labels : LabelTable) : Instruction → Effect α (Event α)
  | .pushLiteral value => do
    push (Arithmetic.ofWord value)
    return .advanced
  | .pushVariable name => do
    push (← variableValue name)
    return .advanced
  | .push (some source) => do
    push (← register source)
    return .advanced
  | .push none => return .advanced
  | .pop (some target) => do
    write target (← pop)
    return .advanced
  | .pop none => return .advanced
  | .load target name => do
    write target (← variableValue name)
    return .advanced
  | .store name value => do
    let value ← evaluate value
    remember fun memory => memory.store name value
    return .advanced
  | .alloc name => do
    remember fun memory => memory.alloc name
    return .advanced
  | .binary operation (some .r0) (some .r1) => do
    write (some .r0) (← compute operation (← register .r0) (← register .r1))
    return .advanced
  | .binary _ _ _ => return .advanced
  | .subLiteral (some .r0) value => do
    write (some .r0) (Arithmetic.sub (← register .r0) (Arithmetic.ofWord value))
    return .advanced
  | .subLiteral _ _ => return .advanced
  | .compare left right => do
    let order := Arithmetic.order (← evaluate left) (← evaluate right)
    write (some .r0) (Arithmetic.ofOrdering order)
    return .advanced
  | .set relation => do
    write (some .r0) (Arithmetic.ofTruth (relation.holds (Arithmetic.sign (← register .r0))))
    return .advanced
  | .and => do
    let left := Arithmetic.truth (← register .r0)
    let right := Arithmetic.truth (← register .r1)
    write (some .r0) (Arithmetic.ofTruth (left && right))
    return .advanced
  | .or => do
    let left := Arithmetic.truth (← register .r0)
    let right := Arithmetic.truth (← register .r1)
    write (some .r0) (Arithmetic.ofTruth (left || right))
    return .advanced
  | .not => do
    write (some .r0) (Arithmetic.ofTruth (! Arithmetic.truth (← register .r0)))
    return .advanced
  | .jump condition label => do
    branch labels label (condition.holds (Arithmetic.sign (← register .r0)))
  | .read target sensor => do
    write target (← sense sensor)
    return .advanced
  | .emit actuator => return .emitted actuator (← register .r0)
  | .wait => do
    let amount ← register .r0
    return .waited amount (← spend amount)
  | .halt => return .halted
  | .unknown opcode => throw (.unknownOpcode opcode)

/-- Executes the instruction under the program counter and moves the counter. -/
def step (assembly : Assembly) : Effect α (Event α) := fun machine =>
  match assembly.fetch? machine.counter with
  | some code =>
    match execute assembly.labels code.instruction machine with
    | .ok event after => .ok event (event.settle after)
    | .error fault after => .error fault after
  | none => .ok .ended machine

end Execute

end WashController
