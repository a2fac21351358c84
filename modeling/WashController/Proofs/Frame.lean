import WashController.Proofs.Causes
import WashController.Proofs.Likeness

/-!
# What a step leaves alone

An instruction changes what it names, and little else. `Instruction.written?` is the register that
it writes, `Instruction.cell?` the cell, and with its pushes and pops this says all that it can
change; time passes only as a program waits, the mark is set only as it stops itself, and the
sensors and the sizes of the machine stay as they are. Where the program counter gets to is
`Instruction.successor?`. A step observes all of this (`ChangesOnly`, `step_changesOnly`). So an
instruction that names nothing it could change moves the counter and does no more
(`ChangesOnly.eq_of_idle`). Those with a register slot that holds no register, or not the one that
arithmetic takes, are of this kind.
-/

namespace WashController

/-! ## What an instruction names -/

namespace Instruction

/-- The register that an instruction writes. -/
def written? : Instruction → Slot
  | .pop target | .load target _ | .read target _ => target
  | .binary _ left right => if left = some .r0 ∧ right = some .r1 then some .r0 else none
  | .subLiteral target _ => if target = some .r0 then some .r0 else none
  | .compare _ _ | .set _ | .and | .or | .not => some .r0
  | _ => none

/-- The address at which a program goes on after an instruction that succeeds. Only a jump to a
label that is not declared has none. -/
def successor? (labels : LabelTable) (machine : Machine Word) : Instruction → Option Nat
  | .jump condition label =>
    if condition.Met machine.registers.r0 then labels.get? label else some (machine.counter + 1)
  | .halt => some machine.counter
  | _ => some (machine.counter + 1)

/-- Whether an instruction names nothing that it could change. -/
structure Idle (instruction : Instruction) : Prop where
  written : instruction.written? = none
  cell : instruction.cell? = none
  pushes : instruction.pushes = false
  pops : instruction.pops = false
  ne_wait : instruction ≠ .wait
  ne_halt : instruction ≠ .halt

/-- Whether a register slot of an instruction is empty, or holds a register that the arithmetic does
not take there. -/
def missesRegister : Instruction → Bool
  | .push slot | .pop slot | .load slot _ | .read slot _ => slot = none
  | .binary _ left right => ¬ (left = some .r0 ∧ right = some .r1)
  | .subLiteral target _ => target ≠ some .r0
  | _ => false

variable {instruction : Instruction}

theorem idle_of_missesRegister (misses : instruction.missesRegister = true) :
    instruction.Idle := by
  cases instruction with
  | push slot | pop slot | load slot _ | read slot _ =>
      obtain rfl : slot = none := of_decide_eq_true misses
      exact ⟨rfl, rfl, rfl, rfl, by simp, by simp⟩
  | binary =>
      exact ⟨if_neg (of_decide_eq_true misses), rfl, rfl, rfl, by simp, by simp⟩
  | subLiteral =>
      exact ⟨if_neg (of_decide_eq_true misses), rfl, rfl, rfl, by simp, by simp⟩
  | _ => cases misses

theorem successor?_of_missesRegister (misses : instruction.missesRegister = true)
    (labels : LabelTable) (machine : Machine Word) :
    instruction.successor? labels machine = some (machine.counter + 1) := by
  cases instruction with
  | jump | halt => cases misses
  | _ => rfl

end Instruction

/-! ## Instructions -/

section Instruction

variable {α : Type} [Arithmetic α] {labels : LabelTable} {instruction : Instruction}
  {machine after : Machine α} {event : Event α}
  (rule : Executes labels machine instruction event after)

include rule

theorem Executes.get_of_unwritten {register : Register}
    (unwritten : instruction.written? ≠ some register) :
    after.registers.get register = machine.registers.get register := by
  cases rule with
  | pop =>
      rw [Registers.get_set, if_neg]
      rintro rfl
      exact unwritten rfl
  | @load target | @read target =>
      cases target with
      | none => rfl
      | some target =>
          rw [Registers.write, Registers.get_set, if_neg]
          rintro rfl
          exact unwritten rfl
  | binary | subLiteral | compare | set | and | or | not =>
      rw [Registers.get_set, if_neg]
      rintro rfl
      exact unwritten rfl
  | _ => rfl

theorem Executes.get?_of_not_cell {name : String} (uncelled : instruction.cell? ≠ some name) :
    after.memory.get? name = machine.memory.get? name := by
  cases rule with
  | store updated | alloc updated =>
      rw [Memory.get?_of_update updated, if_neg]
      rintro rfl
      exact uncelled rfl
  | _ => rfl

theorem Executes.ticks_eq_of_ne_wait (other : instruction ≠ .wait) :
    after.ticks = machine.ticks := by
  cases rule with
  | wait => exact absurd rfl other
  | _ => rfl

theorem Executes.halted_settle_eq_of_ne_halt (other : instruction ≠ .halt) :
    (event.settle after).halted = machine.halted := by
  rw [← rule.halted_eq]
  cases event with
  | halted => exact absurd rule.eq_halt other
  | _ => rfl

end Instruction

theorem Executes.successor?_eq {labels : LabelTable} {instruction : Instruction}
    {machine after : Machine Word} {event : Event Word}
    (rule : Executes labels machine instruction event after) :
    instruction.successor? labels machine = some (event.settle after).counter := by
  cases rule with
  | jump taken found =>
      rw [Instruction.successor?, if_pos (Condition.holds_sign_iff.1 taken)]
      exact found
  | jumpNothing untaken =>
      rw [Instruction.successor?, if_neg]
      · rfl
      · rw [← Condition.holds_sign_iff, untaken]
        exact Bool.false_ne_true
  | _ => rfl

/-! ## Steps -/

/-- What a step with an instruction leaves alone, what it does to the stack, and where it gets. -/
structure ChangesOnly (labels : LabelTable) (instruction : Instruction)
    (before after : Machine Word) : Prop where
  registers : ∀ register, instruction.written? ≠ some register →
    after.registers.get register = before.registers.get register
  memory : ∀ name, instruction.cell? ≠ some name →
    after.memory.get? name = before.memory.get? name
  /-- One value more on top, one less, or none of either. -/
  stack : Balances instruction.pushes instruction.pops before.stack.values after.stack.values
  ticks : instruction ≠ .wait → after.ticks = before.ticks
  halted : instruction ≠ .halt → after.halted = before.halted
  sensors : after.sensors = before.sensors
  memoryCapacity : after.memory.capacity = before.memory.capacity
  stackCapacity : after.stack.capacity = before.stack.capacity
  counter : instruction.successor? labels before = some after.counter

section Step

variable {assembly : Assembly} {labels : LabelTable} {instruction : Instruction}
  {machine after : Machine Word} {event : Event Word} {code : CodeLine}

theorem Executes.changesOnly (rule : Executes labels machine instruction event after) :
    ChangesOnly labels instruction machine (event.settle after) where
  registers register unwritten := by
    rw [Event.settle_registers]
    exact rule.get_of_unwritten unwritten
  memory name uncelled := by
    rw [Event.settle_memory]
    exact rule.get?_of_not_cell uncelled
  stack := by
    rw [Event.settle_stack]
    exact rule.balances
  ticks other := by
    rw [Event.settle_ticks]
    exact rule.ticks_eq_of_ne_wait other
  halted := rule.halted_settle_eq_of_ne_halt
  sensors := by
    rw [Event.settle_sensors]
    exact rule.sensors_eq
  memoryCapacity := by
    rw [Event.settle_memory]
    exact rule.keeps.memoryCapacity
  stackCapacity := by
    rw [Event.settle_stack]
    exact rule.keeps.stackCapacity
  counter := rule.successor?_eq

theorem step_changesOnly (fetched : assembly.fetch? machine.counter = some code)
    (stepped : step assembly machine = .ok event after) :
    ChangesOnly assembly.labels code.instruction machine after := by
  rcases step_eq_ok_iff.1 stepped with ⟨past, -, -⟩ | ⟨_, between, here, rule, rfl⟩
  · cases fetched.symm.trans past
  · cases fetched.symm.trans here
    exact rule.changesOnly

theorem Registers.eq_of_get {α : Type} {first second : Registers α}
    (same : ∀ register, first.get register = second.get register) : first = second := by
  cases first
  cases second
  exact congrArg₂ mk (same .r0) (same .r1)

/-- Values that are neither pushed to nor popped from are kept, and so is the stack. -/
theorem Balances.stack_eq {α : Type} {stack other : Stack α}
    (balances : Balances false false stack.values other.values)
    (capacity : other.capacity = stack.capacity) : other = stack := by
  cases stack
  cases other
  cases balances
  exact congrArg (Stack.mk _) capacity

/-- An instruction that names nothing it could change moves the program counter at most. -/
theorem ChangesOnly.eq_of_idle (changes : ChangesOnly labels instruction machine after)
    (idle : instruction.Idle) : after = { machine with counter := after.counter } := by
  have registers : after.registers = machine.registers := by
    refine Registers.eq_of_get fun register => changes.registers register ?_
    rw [idle.written]
    exact (Option.some_ne_none register).symm
  have memory : after.memory = machine.memory := by
    refine Memory.ext (fun name => changes.memory name ?_) changes.memoryCapacity
    rw [idle.cell]
    exact (Option.some_ne_none name).symm
  have stack : after.stack = machine.stack := by
    have kept := changes.stack
    rw [idle.pushes, idle.pops] at kept
    exact kept.stack_eq changes.stackCapacity
  rw [← registers, ← memory, ← stack, ← changes.sensors, ← changes.halted idle.ne_halt,
    ← changes.ticks idle.ne_wait]

end Step

/-- A step changes only what its instruction names. Past the last instruction a step changes
nothing. Any other step leaves a register alone unless it is the one that the instruction writes,
and a cell unless it is the one that the instruction stores to or allocates. It puts one value on
the stack if the instruction is a push, takes one off if it is a pop into a register, and does
nothing to the stack otherwise. Time passes only in a wait, and the mark is set only by a halt; the
sensors stay as they are, and so does what fits into the machine. The counter gets to the label of
a jump that is taken, stays at a halt, and moves on by one instruction in all other cases. An
instruction with a register slot that is empty, or holds a register that the arithmetic does not
take there, changes nothing but the counter. -/
theorem step_changes_only_what_it_names {assembly : Assembly} {machine after : Machine Word}
    {event : Event Word} (stepped : step assembly machine = .ok event after) :
    (assembly.fetch? machine.counter = none → after = machine) ∧
    ∀ code, assembly.fetch? machine.counter = some code →
      ChangesOnly assembly.labels code.instruction machine after ∧
      (code.instruction.missesRegister = true →
        after = { machine with counter := machine.counter + 1 }) := by
  refine ⟨fun past => ?_, fun code fetched => ?_⟩
  · rcases step_eq_ok_iff.1 stepped with ⟨-, -, unchanged⟩ | ⟨_, _, fetched, -, -⟩
    · exact unchanged
    · cases past.symm.trans fetched
  · have changes := step_changesOnly fetched stepped
    refine ⟨changes, fun misses => ?_⟩
    have next := changes.counter
    rw [Instruction.successor?_of_missesRegister misses] at next
    rw [changes.eq_of_idle (Instruction.idle_of_missesRegister misses), ← Option.some.inj next]

/-- A variable that is loaded into no register. The instruction looks it up, and drops its value. -/
theorem step_changes_only_what_it_names_dropped :
    ∃ (assembly : Assembly) (machine after : Machine Word),
      machine.memory.get? "x" = some 3 ∧
      step assembly machine = .ok .advanced after ∧
      after = { machine with counter := 2 } := by
  let assembly : Assembly :=
    ⟨"drop", #[⟨.store "x" (.literal 3), 1⟩, ⟨.load none "x", 2⟩], .empty⟩
  let memory : Memory Word := ⟨.ofList [("x", (3 : Word))], 8⟩
  let machine : Machine Word := { Machine.initial {} with memory := memory, counter := 1 }
  have held : machine.memory.get? "x" = some 3 := rfl
  obtain ⟨after, stepped⟩ : ∃ after, step assembly machine = .ok .advanced after :=
    ⟨_, step_eq_ok_iff.2 (.inr ⟨_, _, rfl, .load held, rfl⟩)⟩
  obtain ⟨-, changes⟩ := step_changes_only_what_it_names stepped
  exact ⟨assembly, machine, after, held, stepped, (changes ⟨.load none "x", 2⟩ rfl).2 rfl⟩

end WashController
